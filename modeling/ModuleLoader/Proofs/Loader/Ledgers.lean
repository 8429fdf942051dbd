import Mathlib.Data.List.Basic
import ModuleLoader.Proofs.Loader.Plans

/-! # Ledgers

Where loads keep to a plan there is one load for each name, which begins once. The loads stand in
the order in which they were created, and the journal has the order in which they began.
-/

namespace ModuleLoader

open Relation

namespace Event

/-- The name and the load of an event that tells that the load has begun. -/
def began? : Event → Option (String × Nat)
  | .began name id => some (name, id)
  | _ => none

/-- The address of an event that tells that the files were asked. -/
def asked? : Event → Option String
  | .asked address => some address
  | _ => none

/-- The load of an event that tells that its body has run, and whether that succeeded. -/
def ran? : Event → Option (Nat × Bool)
  | .ran id ok => some (id, ok)
  | _ => none

end Event

namespace Loader

/-- A load has been created and has not begun. -/
def Waits (l : Loader) (id : Nat) : Prop := ∃ name metadata, l.loads[id]? = some (.created name metadata)

/-- Whatever is loaded is stored at an address, and keeps it. -/
def Stores (l : Loader) : Prop :=
  ∀ id name metadata u, l.outcome id (.created name metadata) = .ok u →
    ∃ load address, l.stages.prepare (.start name .module metadata) = .ok (load, .stored address) ∧
      u.address = some address

section Stores

variable {l : Loader}

theorem unitOf_address {id : Nat} {load : Load} {referrer : Option String} {u : LoadedUnit}
    (h : l.unitOf id load referrer = .ok u) : u.address = load.address := by
  rw [unitOf] at h
  split at h <;> simp only [bind_eq_ok_iff, pure, Except.pure, Except.ok.injEq] at h
  all_goals
    obtain ⟨linked, -, dependencies, -, rfl⟩ := h
    rfl

theorem linkSource_address {id : Nat} {load : Load} {text : String} {referrer : Option String}
    {u : LoadedUnit} (h : (l.linkSource id load text referrer).1 = .ok u) :
    u.address = load.address := by
  rw [linkSource] at h
  split at h
  · simp at h
  · rename_i load' hc
    rw [unitOf_address h]
    simp only [Stages.complete, bind_eq_ok_iff, pure, Except.pure, Except.ok.injEq] at hc
    obtain ⟨compiled, -, instantiation, -, rfl⟩ := hc
    rfl

/-- The standard stages store whatever is loaded. -/
theorem stores_standard {extension : String} {compiler : Option Compiler}
    (h : l.stages = .standard extension compiler) : l.Stores := by
  intro id name metadata u hu
  simp only [outcome] at hu
  split at hu
  · simp at hu
  · rename_i load text hp
    rw [h] at hp
    simp only [Stages.prepare, Load.start, Stages.standard, Stages.fetchStored, bind_eq_ok_iff,
      pure, Except.pure, Except.ok.injEq, Prod.mk.injEq] at hp
    obtain ⟨load', -, t, ht, -, rfl⟩ := hp
    split at ht <;> simp at ht
  · rename_i load address hp
    refine ⟨load, address, hp, ?_⟩
    rw [h] at hp
    simp only [Stages.prepare, Load.start, Stages.standard, Stages.fetchStored, bind_eq_ok_iff,
      pure, Except.pure, Except.ok.injEq, Prod.mk.injEq] at hp
    obtain ⟨load', -, t, ht, rfl, rfl⟩ := hp
    rw [answered] at hu
    split at hu
    · simp at hu
    · rw [linkSource_address hu]
      split at ht
      · rename_i a ha
        simp only [Except.ok.injEq, SourceText.stored.injEq] at ht
        rw [ha, ht]
      · simp at ht

theorem Stores.alike {l' : Loader} (h : l.Stores) (ha : Alike l l') : l'.Stores := by
  intro id name metadata u hu
  rw [ha.outcome] at hu
  rw [ha.stages]
  exact h _ _ _ _ hu

end Stores

/-- A load that moves has begun before, or begins now. -/
theorem move_waits {l : Loader} {id : Nat} {u : LoadedUnit} (h : l.Comes id u) :
    ¬ (l.move id).2.Waits id ∧
      ((¬ l.Waits id ∧ (l.move id).2.world.journal = l.world.journal) ∨
        ∃ metadata, l.loads[id]? = some (.created u.name metadata) ∧
          (l.move id).2.world.journal =
            l.announces id (.created u.name metadata) ++ l.world.journal) := by
  obtain ⟨st, hst, hs, ho⟩ := h
  have hlt := (List.getElem?_eq_some_iff.1 hst).1
  have hm := move_moved l id
  generalize l.move id = c at hm
  cases hm with
  | absent hc => simp [hst] at hc
  | known hc => simp [Waits, hc]
  | begins hc =>
    rw [hst, Option.some.injEq] at hc
    subst hc
    obtain rfl : _ = u.name := hs
    refine ⟨by simp [Waits, setLoad, announced, hlt], Or.inr ⟨_, hst, rfl⟩⟩
  | waits hc =>
    refine ⟨by simp [Waits, setLoad, hlt], Or.inl ⟨by simp [Waits, hc], rfl⟩⟩
  | ends hc hf hn =>
    rw [hst, Option.some.injEq] at hc
    subst hc
    rw [ho]
    refine ⟨by simp [Waits, finish, setLoad, announced, hlt], ?_⟩
    cases st with
    | created name metadata =>
      obtain rfl : name = u.name := hs
      exact Or.inr ⟨metadata, hst, rfl⟩
    | waiting load address turns => exact Or.inl ⟨by simp [Waits, hst], rfl⟩
    | finished r => simp [LoadState.isFinished] at hf

end Loader

open Loader

namespace Plan

/-- The names whose loads were created, in this order, and those whose loads have begun, in that
order. The journal tells the same. -/
structure Ledger (p : Plan) (l : Loader) (loaded fetched : List String) : Prop where
  length : loaded.length = l.loads.length
  comes : ∀ {i n}, loaded[i]? = some n → n ∈ p.names ∧ l.Comes i (p.unit n)
  nodup : loaded.Nodup
  placed : ∀ n ∈ loaded, l.pending.get? n ≠ none ∨ l.registry.has n = true
  once : fetched.Nodup
  mem : ∀ n ∈ fetched, n ∈ loaded
  waits : ∀ {i n}, loaded[i]? = some n → (n ∈ fetched ↔ ¬ l.Waits i)
  began : l.world.journal.reverse.filterMap Event.began? =
    fetched.map fun n => (n, loaded.idxOf n)
  asked : (l.world.journal.reverse.filterMap Event.asked?).map some =
    fetched.map fun n => (p.unit n).address

variable {p : Plan} {l : Loader} {loaded fetched : List String}

theorem Ledger.idxOf (h : p.Ledger l loaded fetched) {i : Nat} {n : String}
    (hn : loaded[i]? = some n) : loaded.idxOf n = i := by
  obtain ⟨hi, rfl⟩ := List.getElem?_eq_some_iff.1 hn
  exact h.nodup.idxOf_getElem i hi

theorem Ledger.getElem? (h : p.Ledger l loaded fetched) {i : Nat} {n : String}
    (hn : n ∈ p.names) (hc : l.Comes i (p.unit n)) : loaded[i]? = some n := by
  have hi : i < loaded.length := h.length ▸ hc.serves.lt
  have hm := List.getElem?_eq_getElem hi
  obtain ⟨hmem, hc'⟩ := h.comes hm
  have hu := hc.serves.unique hc'.serves
  rw [p.named n hn, p.named _ hmem] at hu
  rw [hm, hu]

theorem Ledger.move (h : p.Ledger l loaded fetched) (hs : l.Stores) {id : Nat} {n : String}
    (hn : n ∈ p.names) (hc : l.Comes id (p.unit n)) :
    ∃ fetched', fetched <+: fetched' ∧ p.Ledger (l.move id).2 loaded fetched' := by
  have hg := move_grows l id
  have hpend := (move_of_comes hc).1
  have hid := h.getElem? hn hc
  obtain ⟨hnw, hcase⟩ := move_waits hc
  have hlen : loaded.length = (l.move id).2.loads.length := by rw [h.length, move_length]
  have hcomes {i : Nat} {m : String} (hm : loaded[i]? = some m) :
      m ∈ p.names ∧ (l.move id).2.Comes i (p.unit m) :=
    ⟨(h.comes hm).1, move_comes (h.comes hm).2 id⟩
  have hplaced : ∀ m ∈ loaded,
      (l.move id).2.pending.get? m ≠ none ∨ (l.move id).2.registry.has m = true := by
    rw [hpend, hg.registry]
    exact h.placed
  have hother {i : Nat} {m : String} (hm : loaded[i]? = some m) (hne : m ≠ n) :
      (l.move id).2.Waits i ↔ l.Waits i := by
    have hi : i ≠ id := by
      rintro rfl
      exact hne (Option.some.inj (hm.symm.trans hid))
    simp only [Waits, move_other l hi]
  rcases hcase with ⟨hw, hj⟩ | ⟨metadata, hst, hj⟩
  · refine ⟨fetched, List.prefix_rfl, hlen, hcomes, h.nodup, hplaced, h.once, h.mem,
      fun {i m} hm => ?_, hj ▸ h.began, hj ▸ h.asked⟩
    rw [h.waits hm]
    by_cases hmn : m = n
    · subst hmn
      obtain rfl : i = id := (h.idxOf hm).symm.trans (h.idxOf hid)
      exact iff_of_true hw hnw
    · rw [hother hm hmn]
  · rw [p.named n hn] at hst hj
    have hfresh : n ∉ fetched := fun hf => (h.waits hid).1 hf ⟨n, metadata, hst⟩
    obtain ⟨load, address, hp, ha⟩ := hs _ _ _ _ (by
      obtain ⟨st, hst', -, ho⟩ := hc
      rw [hst, Option.some.injEq] at hst'
      rw [← hst'] at ho
      exact ho)
    have hann : l.announces id (.created n metadata) = [.asked address, .began n id] := by
      simp only [announces, hp]
    rw [hann] at hj
    refine ⟨fetched ++ [n], List.prefix_append _ _, hlen, hcomes, h.nodup, hplaced, ?_, ?_, ?_,
      ?_, ?_⟩
    · simpa [List.nodup_append, hfresh] using ⟨h.once, fun a ha han => hfresh (han ▸ ha)⟩
    · intro m hm
      rcases List.mem_append.1 hm with hm | hm
      · exact h.mem m hm
      · rw [List.mem_singleton.1 hm]
        exact List.mem_of_getElem? hid
    · intro i m hm
      by_cases hmn : m = n
      · subst hmn
        obtain rfl : i = id := (h.idxOf hm).symm.trans (h.idxOf hid)
        exact iff_of_true (List.mem_append_right _ (List.mem_singleton_self m)) hnw
      · rw [hother hm hmn, ← h.waits hm]
        simp [hmn]
    · rw [hj, List.reverse_append, List.filterMap_append, h.began]
      simp [Event.began?, h.idxOf hid]
    · rw [hj, List.reverse_append, List.filterMap_append, List.map_append, h.asked]
      change (p.unit n).address = some address at ha
      simp [List.filterMap_cons, Event.asked?, ha]

theorem Ledger.join (h : p.Ledger l loaded fetched) (hk : p.Keeps l) {n : String}
    (hn : n ∈ p.names) (hr : l.registry.has n = false) :
    ∃ loaded', loaded <+: loaded' ∧ p.Ledger (l.join n p.metadata).2 loaded' fetched := by
  have hk' := hk.join hn hr
  have hp := join_proceeds hn hr
  cases hpend : l.pending.get? n with
  | some id =>
    rw [join_of_pending_some hpend]
    exact ⟨loaded, List.prefix_rfl, h⟩
  | none =>
    have hfresh : n ∉ loaded := fun hm => by
      rcases h.placed n hm with hp | hp
      · exact hp hpend
      · simp [hr] at hp
    obtain ⟨hid, hloads⟩ := join_of_pending_none hpend p.metadata
    have hworld : (l.join n p.metadata).2.world = l.world := by
      rw [Loader.join]
      simp [hpend]
    have hold {i : Nat} {m : String} (hm : loaded[i]? = some m) :
        (l.join n p.metadata).2.loads[i]? = l.loads[i]? :=
      join_loads l n p.metadata (h.comes hm).2.serves.lt
    have hlast {i : Nat} {m : String} (hm : (loaded ++ [n])[i]? = some m) :
        loaded[i]? = some m ∨ i = l.loads.length ∧ m = n := by
      rw [getElem?_concat_eq_some_iff, h.length] at hm
      exact hm.imp_right fun hm => ⟨hm.1, hm.2.symm⟩
    have hc := (hk'.pending n hn _ (join_pending l n p.metadata)).1
    rw [hid] at hc
    have hidx : (fetched.map fun m => (m, (loaded ++ [n]).idxOf m)) =
        fetched.map fun m => (m, loaded.idxOf m) :=
      List.map_congr_left fun m hm => by rw [List.idxOf_append_of_mem (h.mem m hm)]
    refine ⟨loaded ++ [n], List.prefix_append _ _, ?_, ?_, ?_, ?_, h.once, ?_, ?_, ?_, ?_⟩
    · simp [hloads, h.length]
    · intro i m hm
      rcases hlast hm with hm | ⟨rfl, rfl⟩
      · exact ⟨(h.comes hm).1, hp.comes (h.comes hm).2⟩
      · exact ⟨hn, hc⟩
    · simpa [List.nodup_append, hfresh] using ⟨h.nodup, fun a ha han => hfresh (han ▸ ha)⟩
    · intro m hm
      rw [hp.grows.registry]
      rcases List.mem_append.1 hm with hm | hm
      · refine (h.placed m hm).imp_left fun hpm => ?_
        obtain ⟨i, hi⟩ := Option.ne_none_iff_exists'.1 hpm
        rw [join_kept l n p.metadata hi]
        simp
      · rw [List.mem_singleton.1 hm, join_pending l n p.metadata]
        exact Or.inl (by simp)
    · exact fun m hm => List.mem_append_left _ (h.mem m hm)
    · intro i m hm
      rcases hlast hm with hm | ⟨rfl, rfl⟩
      · simp only [h.waits hm, Waits, hold hm]
      · refine iff_of_false (fun hf => hfresh (h.mem m hf)) (not_not_intro ?_)
        exact ⟨m, p.metadata, by simp [hloads]⟩
    · rw [hworld, hidx]
      exact h.began
    · rw [hworld]
      exact h.asked

/-- The ledger is kept while loads move and are joined. -/
theorem Ledger.operates {l' : Loader} (h : p.Ledger l loaded fetched) (hk : p.Keeps l)
    (hs : l.Stores) (ho : ReflTransGen p.Operates l l') :
    ∃ loaded' fetched', loaded <+: loaded' ∧ fetched <+: fetched' ∧
      p.Ledger l' loaded' fetched' ∧ p.Keeps l' ∧ l'.Stores := by
  induction ho with
  | refl => exact ⟨loaded, fetched, List.prefix_rfl, List.prefix_rfl, h, hk, hs⟩
  | tail _ hstep ih =>
    obtain ⟨loaded', fetched', hl, hf, h', hk', hs'⟩ := ih
    cases hstep with
    | @move id n hn hc =>
      obtain ⟨fetched'', hf', h''⟩ := h'.move hs' hn hc
      exact ⟨loaded', fetched'', hl, hf.trans hf', h'', hk'.move hn hc,
        hs'.alike (move_grows _ id).alike⟩
    | @join n hn hr =>
      obtain ⟨loaded'', hl', h''⟩ := h'.join hk' hn hr
      exact ⟨loaded'', fetched', hl.trans hl', hf, h'', hk'.join hn hr,
        hs'.alike (join_grows _ n p.metadata).alike⟩

end Plan

end ModuleLoader
