import Mathlib.Data.Finset.Card
import ModuleLoader.Proofs.Loader.Fates

/-! # Plans

A plan says which units the loads of some names come to, and for how many turns they may take. A
loader that keeps to a plan does so while loads move and are joined, and none of them fails.
-/

namespace ModuleLoader

/-- A unit as the load with a number brings it. -/
def LoadedUnit.withLoad (u : LoadedUnit) (id : Nat) : LoadedUnit :=
  { u with body := { u.body with load := id } }

@[simp] theorem LoadedUnit.withLoad_name (u : LoadedUnit) (id : Nat) :
    (u.withLoad id).name = u.name := rfl

@[simp] theorem LoadedUnit.withLoad_dependencies (u : LoadedUnit) (id : Nat) :
    (u.withLoad id).dependencies = u.dependencies := rfl

@[simp] theorem LoadedUnit.withLoad_load (u : LoadedUnit) (id : Nat) :
    (u.withLoad id).body.load = id := rfl

@[simp] theorem LoadedUnit.withLoad_linked (u : LoadedUnit) (id : Nat) :
    (u.withLoad id).body.linked = u.body.linked := rfl

namespace Loader

/-- A load comes to a unit. -/
def Comes (l : Loader) (id : Nat) (u : LoadedUnit) : Prop :=
  ∃ st, l.loads[id]? = some st ∧ st.Serves id u.name ∧ l.outcome id st = .ok (u.withLoad id)

section Comes

variable {l l' : Loader} {id i : Nat} {u : LoadedUnit}

theorem Comes.serves (h : l.Comes id u) : l.Serves id u.name := by
  obtain ⟨st, hst, hs, -⟩ := h
  exact ⟨st, hst, hs⟩

theorem Comes.mono (h : l.Comes id u) (ha : Alike l l') (hl : l'.loads[id]? = l.loads[id]?) :
    l'.Comes id u := by
  obtain ⟨st, hst, hs, ho⟩ := h
  exact ⟨st, hl.trans hst, hs, by rw [ha.outcome, ho]⟩

/-- The unit of a source does not depend on the number of its load. -/
theorem linkSource_withLoad {load : Load} {text : String} {referrer : Option String}
    (h : (l.linkSource id load text referrer).1 = .ok u) :
    (l.linkSource i load text referrer).1 = .ok (u.withLoad i) := by
  rw [linkSource] at h ⊢
  split at h
  · simp at h
  · simp only [unitOf] at h ⊢
    split at h <;> simp only [bind_eq_ok_iff, pure, Except.pure, Except.ok.injEq] at h ⊢
    all_goals
      obtain ⟨linked, hl, dependencies, hd, rfl⟩ := h
      exact ⟨linked, hl, dependencies, hd, rfl⟩

theorem outcome_withLoad {name : String} {metadata : Metadata}
    (h : l.outcome id (.created name metadata) = .ok u) :
    l.outcome i (.created name metadata) = .ok (u.withLoad i) := by
  simp only [outcome] at h ⊢
  split at h
  · simp at h
  · exact linkSource_withLoad h
  · rw [answered] at h ⊢
    split at h
    · simp at h
    · exact linkSource_withLoad h

/-- A load comes to a unit if it serves the name of the unit, and that is its fate. -/
theorem comes_iff : l.Comes id u ↔ l.Serves id u.name ∧ l.fate id = some (.ok (u.withLoad id)) := by
  constructor
  · rintro ⟨st, hst, hs, ho⟩
    exact ⟨⟨st, hst, hs⟩, by rw [fate_eq hst, ho]⟩
  · rintro ⟨⟨st, hst, hs⟩, hf⟩
    rw [fate_eq hst, Option.some.injEq] at hf
    exact ⟨st, hst, hs, hf⟩

/-! ## Moving a load -/

theorem move_comes (h : l.Comes i u) (id : Nat) : (l.move id).2.Comes i u := by
  obtain ⟨hs, hf⟩ := comes_iff.1 h
  refine comes_iff.2 ⟨?_, by rw [fate_move, hf]⟩
  by_cases hi : i = id
  · subst hi
    rcases hs.moves with ⟨-, -, hs'⟩ | hm
    · exact hs'
    · exact ⟨_, move_finished (Prod.ext (hm.trans hf) rfl), rfl, rfl⟩
  · exact hs.other hi

/-- A load that comes to a unit has to wait, a turn less than before, or it has the unit. -/
theorem move_of_comes (h : l.Comes id u) :
    (l.move id).2.pending = l.pending ∧
      (((l.move id).1 = none ∧ (l.move id).2.rest id < l.rest id) ∨
        (l.move id).1 = some (.ok (u.withLoad id))) := by
  constructor
  · obtain ⟨st, hst, -, ho⟩ := h
    have hm := move_moved l id
    generalize l.move id = c at hm
    cases hm with
    | ends hc =>
      rw [hst, Option.some.injEq] at hc
      subst hc
      rw [ho]
      rfl
    | _ => rfl
  · obtain ⟨hs, hf⟩ := comes_iff.1 h
    rcases hs.moves with ⟨hn, hr, -⟩ | hm
    · exact Or.inl ⟨hn, hr⟩
    · exact Or.inr (hm.trans hf)

/-! ## Joining a load -/

theorem join_comes (h : l.Comes i u) (name : String) (metadata : Metadata) :
    (l.join name metadata).2.Comes i u :=
  h.mono (join_grows l name metadata).alike (join_loads l name metadata h.serves.lt)

end Comes

end Loader

/-! ## Loaders that keep to a plan -/

/-- The units to which loads of some names come, what the loads have in common, and for how many
turns a load may have to be moved. -/
structure Plan where
  names : Finset String
  unit : String → LoadedUnit
  metadata : Metadata
  patience : Nat
  named : ∀ n ∈ names, (unit n).name = n

namespace Plan

open Loader Relation

/-- The loads of planned names, pending ones and those to come, keep to a plan. What planned units
need is registered or planned. -/
structure Keeps (p : Plan) (l : Loader) : Prop where
  sound : l.Sound
  closed : ∀ n ∈ p.names, ∀ d ∈ (p.unit n).dependencies,
    l.registry.has d.name = true ∨ d.name ∈ p.names
  pending : ∀ n ∈ p.names, ∀ id, l.pending.get? n = some id →
    l.Comes id (p.unit n) ∧ l.rest id ≤ p.patience
  fresh : ∀ n ∈ p.names, l.pending.get? n = none → l.registry.has n = false →
    (∀ id, l.outcome id (.created n p.metadata) = .ok ((p.unit n).withLoad id)) ∧
      l.turnsOf (.created n p.metadata) ≤ p.patience

/-- A planned load moves, or the load of a planned name is joined. -/
inductive Operates (p : Plan) : Loader → Loader → Prop where
  | move {l : Loader} {id : Nat} {n : String} :
      n ∈ p.names → l.Comes id (p.unit n) → Operates p l (l.move id).2
  | join {l : Loader} {n : String} :
      n ∈ p.names → l.registry.has n = false → Operates p l (l.join n p.metadata).2

/-- Planned loads have moved or were joined, and all keep to what they come to. -/
structure Proceeds (p : Plan) (l l' : Loader) : Prop where
  operates : ReflTransGen p.Operates l l'
  grows : Grows l l'
  comes : ∀ {id u}, l.Comes id u → l'.Comes id u
  rest : ∀ id < l.loads.length, l'.rest id ≤ l.rest id

variable {p : Plan} {l : Loader}

theorem Proceeds.refl (l : Loader) : p.Proceeds l l :=
  ⟨.refl, .refl l, id, fun _ _ => Nat.le_refl _⟩

theorem Proceeds.trans {l l' l'' : Loader} (h : p.Proceeds l l') (h' : p.Proceeds l' l'') :
    p.Proceeds l l'' :=
  ⟨h.operates.trans h'.operates, h.grows.trans h'.grows, fun hc => h'.comes (h.comes hc),
    fun id hid =>
      Nat.le_trans (h'.rest id (Nat.lt_of_lt_of_le hid h.grows.loads.length_le)) (h.rest id hid)⟩

theorem move_proceeds {id : Nat} {n : String} (hn : n ∈ p.names) (h : l.Comes id (p.unit n)) :
    p.Proceeds l (l.move id).2 :=
  ⟨.single (.move hn h), move_grows l id, fun hc => move_comes hc id,
    fun i _ => rest_move_le l id i⟩

theorem join_proceeds {n : String} (hn : n ∈ p.names) (hr : l.registry.has n = false) :
    p.Proceeds l (l.join n p.metadata).2 :=
  ⟨.single (.join hn hr), join_grows l n p.metadata, fun hc => join_comes hc n p.metadata,
    fun _ hid => Nat.le_of_eq (rest_join l n p.metadata hid)⟩

theorem Keeps.move (h : p.Keeps l) {id : Nat} {n : String} (hn : n ∈ p.names)
    (hc : l.Comes id (p.unit n)) : p.Keeps (l.move id).2 := by
  have hp := move_proceeds hn hc
  have hpend := (move_of_comes hc).1
  have hf := hp.grows.files
  have ha := hp.grows.alike
  refine ⟨hp.grows.sound h.sound, ?_, ?_, ?_⟩
  · rw [hp.grows.registry]
    exact h.closed
  · intro n hn i hi
    rw [hpend] at hi
    obtain ⟨hi, hr⟩ := h.pending n hn i hi
    exact ⟨hp.comes hi, Nat.le_trans (rest_move_le l id i) hr⟩
  · intro n hn hi hr
    rw [hpend] at hi
    rw [hp.grows.registry] at hr
    obtain ⟨ho, ht⟩ := h.fresh n hn hi hr
    refine ⟨fun i => by rw [ha.outcome, ho], ?_⟩
    simpa only [turnsOf, ha.stages, hf] using ht

theorem Keeps.join (h : p.Keeps l) {name : String} (hn : name ∈ p.names)
    (hr : l.registry.has name = false) : p.Keeps (l.join name p.metadata).2 := by
  have hp := join_proceeds hn hr
  have hf := hp.grows.files
  have ha := hp.grows.alike
  have hs := hp.grows.sound h.sound
  refine ⟨hs, ?_, ?_, ?_⟩
  · rw [hp.grows.registry]
    exact h.closed
  · intro n hm i hi
    rcases join_gains l name p.metadata n i hi with hold | hnew
    · obtain ⟨hi, hle⟩ := h.pending n hm i hold
      exact ⟨hp.comes hi, Nat.le_trans (hp.rest i hi.serves.lt) hle⟩
    · rw [List.mem_singleton] at hnew
      have hname : n = name := (hs.pending hi).unique
        (hs.pending (hnew ▸ join_pending l name p.metadata))
      subst hname
      cases hpend : l.pending.get? n with
      | some j =>
        rw [join_of_pending_some hpend] at hi ⊢
        exact h.pending n hm i hi
      | none =>
        obtain ⟨ho, ht⟩ := h.fresh n hm hpend hr
        obtain ⟨hid, hloads⟩ := join_of_pending_none hpend p.metadata
        have hst : (l.join n p.metadata).2.loads[i]? = some (.created n p.metadata) := by
          simp [hnew, hid, hloads]
        refine ⟨⟨_, hst, (p.named n hm).symm, by rw [ha.outcome, ho]⟩, ?_⟩
        rw [rest_eq hst]
        simpa only [turnsOf, ha.stages, hf] using ht
  · intro n hm hi hreg
    have hnone : l.pending.get? n = none := by
      rw [Option.eq_none_iff_forall_ne_some]
      intro i hsome
      rw [join_kept l name p.metadata hsome] at hi
      simp at hi
    rw [hp.grows.registry] at hreg
    obtain ⟨ho, ht⟩ := h.fresh n hm hnone hreg
    refine ⟨fun i => by rw [ha.outcome, ho], ?_⟩
    simpa only [turnsOf, ha.stages, hf] using ht

end Plan

end ModuleLoader
