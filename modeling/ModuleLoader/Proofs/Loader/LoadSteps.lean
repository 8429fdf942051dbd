import ModuleLoader.Loader.Pending
import ModuleLoader.Proofs.Results

/-! # Steps of a load

What a load comes to is settled by the stages, the files and the names, before it moves at all. A
step brings it closer to that, and tells the journal when it begins.
-/

namespace ModuleLoader

open Dialect

namespace Stages

theorem locateOnce_name {s : Stages} {load load' : Load} (h : s.locateOnce load = .ok load') :
    load'.name = load.name := by
  rw [locateOnce] at h
  split at h
  · simp only [Except.ok.injEq] at h
    rw [h]
  · simp only [bind_eq_ok_iff, pure, Except.pure, Except.ok.injEq] at h
    obtain ⟨address, -, rfl⟩ := h
    rfl

theorem prepare_name {s : Stages} {load load' : Load} {t : SourceText}
    (h : s.prepare load = .ok (load', t)) : load'.name = load.name := by
  rw [prepare] at h
  split at h
  · simp only [Except.ok.injEq, Prod.mk.injEq] at h
    rw [← h.1]
  · simp only [bind_eq_ok_iff, pure, Except.pure, Except.ok.injEq, Prod.mk.injEq] at h
    obtain ⟨located, hl, source, -, rfl, -⟩ := h
    exact locateOnce_name hl

theorem complete_name {s : Stages} {load load' : Load} {text : String}
    (h : s.complete load text = .ok load') : load'.name = load.name := by
  simp only [complete, bind_eq_ok_iff, pure, Except.pure, Except.ok.injEq] at h
  obtain ⟨compiled, -, instantiation, -, rfl⟩ := h
  rfl

end Stages

namespace LoadState

/-- Whether a load has ended. -/
def isFinished : LoadState → Bool
  | finished _ => true
  | _ => false

/-- A load can still serve the requests for a name: it is on its way, or has arrived. -/
def Serves (id : Nat) (name : String) : LoadState → Prop
  | created other _ => other = name
  | waiting load _ _ => load.name = name
  | finished (.ok u) => u.name = name ∧ u.body.load = id
  | finished (.error _) => False

instance (id : Nat) (n : String) : (st : LoadState) → Decidable (st.Serves id n)
  | created name _ => inferInstanceAs (Decidable (name = n))
  | waiting load _ _ => inferInstanceAs (Decidable (load.name = n))
  | finished (.ok u) => inferInstanceAs (Decidable (u.name = n ∧ u.body.load = id))
  | finished (.error _) => inferInstanceAs (Decidable False)

theorem Serves.unique {id : Nat} {n n' : String} {st : LoadState} (h : st.Serves id n)
    (h' : st.Serves id n') : n = n' := by
  cases st with
  | created => exact h.symm.trans h'
  | waiting => exact h.symm.trans h'
  | finished r =>
    cases r with
    | ok u => exact h.1.symm.trans h'.1
    | error e => exact h.elim

end LoadState

namespace Loader

/-- What stands in a list behind which one more element is put. -/
theorem getElem?_concat_eq_some_iff {α : Type} {l : List α} {a b : α} {i : Nat} :
    (l ++ [a])[i]? = some b ↔ l[i]? = some b ∨ i = l.length ∧ a = b := by
  rcases Nat.lt_trichotomy i l.length with hi | rfl | hi
  · simp [List.getElem?_append_left hi, Nat.ne_of_lt hi]
  · simp
  · simp [List.getElem?_append_right (Nat.le_of_lt hi), Nat.sub_ne_zero_of_lt hi,
      Nat.ne_of_gt hi, Nat.le_of_lt hi]

/-- Two loaders agree on all that a load depends on. -/
structure Alike (l l' : Loader) : Prop where
  options : l'.options = l.options
  map : l'.map = l.map
  stages : l'.stages = l.stages
  text : l'.files.text = l.files.text

theorem Alike.refl (l : Loader) : Alike l l := ⟨rfl, rfl, rfl, rfl⟩

theorem Alike.symm {l l' : Loader} (h : Alike l l') : Alike l' l :=
  ⟨h.options.symm, h.map.symm, h.stages.symm, h.text.symm⟩

theorem Alike.trans {l l' l'' : Loader} (h : Alike l l') (h' : Alike l' l'') : Alike l l'' :=
  ⟨h'.options.trans h.options, h'.map.trans h.map, h'.stages.trans h.stages,
    h'.text.trans h.text⟩

theorem Alike.nameOf {l l' : Loader} (h : Alike l l') : l'.nameOf = l.nameOf := by
  funext specifier referrer
  simp only [Loader.nameOf, h.options, h.map]

theorem Alike.resolveAll {l l' : Loader} (h : Alike l l') (referrer : Option String)
    (specifiers : List String) :
    l'.resolveAll referrer specifiers = l.resolveAll referrer specifiers := by
  induction specifiers with
  | nil => rfl
  | cons specifier rest ih => simp only [Loader.resolveAll, h.nameOf, ih]

theorem Alike.unitOf {l l' : Loader} (h : Alike l l') : l'.unitOf = l.unitOf := by
  funext id load referrer
  simp only [Loader.unitOf, h.resolveAll]

theorem keepMap_eq (l : Loader) (load : Load) :
    ∃ maps, l.keepMap load = { l with sourceMaps := maps } := by
  rw [keepMap]
  split
  · exact ⟨_, rfl⟩
  · exact ⟨l.sourceMaps, rfl⟩

theorem keepMap_alike (l : Loader) (load : Load) : Alike l (l.keepMap load) := by
  obtain ⟨maps, h⟩ := keepMap_eq l load
  rw [h]
  exact ⟨rfl, rfl, rfl, rfl⟩

theorem Alike.linkSource {l l' : Loader} (h : Alike l l') (id : Nat) (load : Load)
    (text : String) (referrer : Option String) :
    (l'.linkSource id load text referrer).1 = (l.linkSource id load text referrer).1 := by
  rw [Loader.linkSource, Loader.linkSource, h.stages]
  split
  · rfl
  · rename_i load' hc
    simp only [(keepMap_alike l' load').unitOf, h.unitOf, (keepMap_alike l load').unitOf]

/-- What a load comes to once the files have answered. -/
def answered (l : Loader) (id : Nat) (load : Load) (address : String) :
    Except LoadError LoadedUnit :=
  match l.files.text address with
  | .error e => .error e
  | .ok text => (l.linkSource id load text (some load.name)).1

/-- What a load comes to. -/
def outcome (l : Loader) (id : Nat) : LoadState → Except LoadError LoadedUnit
  | .created name metadata =>
    match l.stages.prepare (.start name .module metadata) with
    | .error e => .error e
    | .ok (load, .given text) => (l.linkSource id load text (some load.name)).1
    | .ok (load, .stored address) => l.answered id load address
  | .waiting load address _ => l.answered id load address
  | .finished result => result

theorem Alike.answered {l l' : Loader} (h : Alike l l') : l'.answered = l.answered := by
  funext id load address
  rw [Loader.answered, Loader.answered, h.text]
  split
  · rfl
  · exact h.linkSource _ _ _ _

theorem Alike.outcome {l l' : Loader} (h : Alike l l') : l'.outcome = l.outcome := by
  funext id st
  cases st with
  | finished r => rfl
  | waiting load address turns => simp only [Loader.outcome, h.answered]
  | created name metadata =>
    simp only [Loader.outcome, h.answered, h.stages]
    split
    · rfl
    · exact h.linkSource _ _ _ _
    · rfl

/-- What a load tells the journal when it moves, the latest first. -/
def announces (l : Loader) (id : Nat) : LoadState → List Event
  | .created name metadata =>
    match l.stages.prepare (.start name .module metadata) with
    | .ok (_, .stored address) => [.asked address, .began name id]
    | _ => [.began name id]
  | _ => []

/-- A loader after a load has told the journal what it does. Source maps may have been kept. -/
def announced (l : Loader) (id : Nat) (st : LoadState) (maps : SourceMap.Index) : Loader :=
  { l with
    world := ⟨l.world.realm, l.announces id st ++ l.world.journal⟩
    sourceMaps := maps }

/-- A load moves: nobody knows it, it has ended before, it has to wait, or it ends. -/
inductive Moved (l : Loader) (id : Nat) : Option (Except LoadError LoadedUnit) × Loader → Prop where
  | absent : l.loads[id]? = none → Moved l id (none, l)
  | known {r : Except LoadError LoadedUnit} :
      l.loads[id]? = some (.finished r) → Moved l id (some r, l)
  | begins {name address : String} {metadata : Metadata} {load : Load} {turns : Nat} :
      l.loads[id]? = some (.created name metadata) →
      l.stages.prepare (.start name .module metadata) = .ok (load, .stored address) →
      l.files.latency address = turns + 1 →
      Moved l id (none, (l.announced id (.created name metadata) l.sourceMaps).setLoad id
        (.waiting load address turns))
  | waits {load : Load} {address : String} {turns : Nat} :
      l.loads[id]? = some (.waiting load address (turns + 1)) →
      Moved l id (none, l.setLoad id (.waiting load address turns))
  | ends {st : LoadState} {name : String} {maps : SourceMap.Index} :
      l.loads[id]? = some st → st.isFinished = false → st.Serves id name →
      Moved l id (some (l.outcome id st),
        (l.announced id st maps).finish id name (l.outcome id st))

theorem unitOf_ok {l : Loader} {id : Nat} {load : Load} {referrer : Option String}
    {u : LoadedUnit} (h : l.unitOf id load referrer = .ok u) :
    u.name = load.name ∧ u.body.load = id := by
  rw [unitOf] at h
  split at h <;> simp only [bind_eq_ok_iff, pure, Except.pure, Except.ok.injEq] at h
  all_goals
    obtain ⟨linked, -, dependencies, -, rfl⟩ := h
    exact ⟨rfl, rfl⟩

theorem linkSource_ok {l : Loader} {id : Nat} {load : Load} {text : String}
    {referrer : Option String} {u : LoadedUnit}
    (h : (l.linkSource id load text referrer).1 = .ok u) :
    u.name = load.name ∧ u.body.load = id := by
  rw [linkSource] at h
  split at h
  · simp at h
  · rename_i load' hc
    have hu := unitOf_ok h
    rw [Stages.complete_name hc] at hu
    exact hu

theorem linkSource_snd (l : Loader) (id : Nat) (load : Load) (text : String)
    (referrer : Option String) :
    ∃ maps, (l.linkSource id load text referrer).2 = { l with sourceMaps := maps } := by
  rw [linkSource]
  split
  · exact ⟨l.sourceMaps, rfl⟩
  · exact keepMap_eq l _

theorem answer_eq (l : Loader) (id : Nat) (load : Load) (text : String) :
    ∃ maps, l.answer id load text = ((l.linkSource id load text (some load.name)).1,
      { l with sourceMaps := maps }.finish id load.name
        (l.linkSource id load text (some load.name)).1) := by
  obtain ⟨maps, hm⟩ := linkSource_snd l id load text (some load.name)
  exact ⟨maps, by simp only [answer, hm]⟩

theorem receive_eq (l : Loader) (id : Nat) (load : Load) (address : String) :
    ∃ maps, l.receive id load address = (l.answered id load address,
      { l with sourceMaps := maps }.finish id load.name (l.answered id load address)) := by
  rw [receive]
  split
  · rename_i e ht
    exact ⟨l.sourceMaps, by simp only [answered, ht]⟩
  · rename_i text ht
    obtain ⟨maps, ha⟩ := answer_eq l id load text
    exact ⟨maps, by simp only [answered, ht, ha]⟩

theorem note_alike (l : Loader) (e : Event) : Alike l (l.note e) := ⟨rfl, rfl, rfl, rfl⟩

theorem begin_moved {l : Loader} {id : Nat} {name : String} {metadata : Metadata}
    (h : l.loads[id]? = some (.created name metadata)) :
    Moved l id (l.begin id name metadata) := by
  have he (maps : SourceMap.Index) : Moved l id (some (l.outcome id (.created name metadata)),
      (l.announced id (.created name metadata) maps).finish id name
        (l.outcome id (.created name metadata))) :=
    .ends h rfl rfl
  rw [begin]
  simp only
  split
  · rename_i e hp
    change l.stages.prepare _ = _ at hp
    have ho : l.outcome id (.created name metadata) = .error e := by simp only [outcome, hp]
    have ha : l.announced id (.created name metadata) l.sourceMaps = l.note (.began name id) := by
      simp only [announced, announces, hp, note, World.note, List.singleton_append]
    rw [← ha, ← ho]
    exact he l.sourceMaps
  · rename_i load text hp
    change l.stages.prepare _ = _ at hp
    have hn : load.name = name := Stages.prepare_name hp
    obtain ⟨maps, hm⟩ := answer_eq (l.note (.began name id)) id load text
    have ho : l.outcome id (.created name metadata) =
        ((l.note (.began name id)).linkSource id load text (some load.name)).1 := by
      simp only [outcome, hp, (note_alike l _).linkSource]
    have ha : l.announced id (.created name metadata) maps =
        { l.note (.began name id) with sourceMaps := maps } := by
      simp only [announced, announces, hp, note, World.note, List.singleton_append]
    rw [hm, ← ho, ← ha, hn]
    exact he maps
  · rename_i load address hp
    change l.stages.prepare _ = _ at hp
    have hn : load.name = name := Stages.prepare_name hp
    have ha (maps : SourceMap.Index) : l.announced id (.created name metadata) maps =
        { (l.note (.began name id)).note (.asked address) with sourceMaps := maps } := by
      simp only [announced, announces, hp, note, World.note, List.cons_append, List.nil_append]
    split
    · rename_i turns hl
      have hb := Moved.begins h hp hl
      rw [ha] at hb
      exact hb
    · obtain ⟨maps, hm⟩ :=
        receive_eq ((l.note (.began name id)).note (.asked address)) id load address
      have ho : l.outcome id (.created name metadata) =
          ((l.note (.began name id)).note (.asked address)).answered id load address := by
        simp only [outcome, hp, (note_alike _ _).answered]
      rw [hm, ← ho, ← ha, hn]
      exact he maps

theorem move_moved (l : Loader) (id : Nat) : Moved l id (l.move id) := by
  rw [move]
  split
  · rename_i h
    exact .absent h
  · rename_i r h
    exact .known h
  · rename_i name metadata h
    exact begin_moved h
  · rename_i load address turns h
    exact .waits h
  · rename_i load address h
    obtain ⟨maps, hr⟩ := receive_eq l id load address
    rw [hr]
    have he : Moved l id (some (l.outcome id (.waiting load address 0)),
        (l.announced id (.waiting load address 0) maps).finish id load.name
          (l.outcome id (.waiting load address 0))) :=
      .ends h rfl rfl
    exact he

end Loader

end ModuleLoader
