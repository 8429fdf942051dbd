import ModuleLoader.Proofs.Loader.Holdings

/-! # Fates of loads

What a load comes to is settled when it is created, whether it ends well or fails. Moving loads and
joining new ones does not change it, and a load that moves has to wait a turn less or comes to its
fate.
-/

namespace ModuleLoader

/-- The name that a load is for, unless it has failed. -/
def LoadState.name? : LoadState → Option String
  | created name _ => some name
  | waiting load _ _ => some load.name
  | finished (.ok u) => some u.name
  | finished (.error _) => none

theorem LoadState.Serves.name? {id : Nat} {n : String} {st : LoadState} (h : st.Serves id n) :
    st.name? = some n := by
  cases st with
  | created | waiting => exact congrArg some h
  | finished r =>
    cases r with
    | ok u => exact congrArg some h.1
    | error e => exact h.elim

namespace Loader

/-- What the load with a number comes to. -/
def fate (l : Loader) (id : Nat) : Option (Except LoadError LoadedUnit) :=
  l.loads[id]?.map (l.outcome id)

/-- For how many turns a load may still have to be moved. -/
def turnsOf (l : Loader) : LoadState → Nat
  | .created name metadata =>
    match l.stages.prepare (.start name .module metadata) with
    | .ok (_, .stored address) => l.files.latency address + 2
    | _ => 1
  | .waiting _ _ turns => turns + 1
  | .finished _ => 0

/-- For how many turns the load with a number may still have to be moved. -/
def rest (l : Loader) (id : Nat) : Nat := (l.loads[id]?.map l.turnsOf).getD 0

/-- The name that the load with a number serves. -/
def served (l : Loader) (id : Nat) : String := (l.loads[id]?.bind LoadState.name?).getD ""

variable {l l' : Loader} {id i : Nat} {n : String}

theorem fate_eq {st : LoadState} (h : l.loads[id]? = some st) :
    l.fate id = some (l.outcome id st) := by
  rw [fate, h]
  rfl

theorem Serves.served (h : l.Serves id n) : l.served id = n := by
  obtain ⟨st, hst, hn⟩ := h
  rw [Loader.served, hst, Option.bind_some, hn.name?]
  rfl

theorem fate_congr (ha : Alike l l') (hl : l'.loads[id]? = l.loads[id]?) :
    l'.fate id = l.fate id := by
  rw [fate, fate, hl, ha.outcome]

theorem rest_eq {st : LoadState} (h : l.loads[id]? = some st) : l.rest id = l.turnsOf st := by
  rw [rest, h]
  rfl

theorem rest_mono (hs : l'.stages = l.stages) (hf : l'.files = l.files)
    (hl : l'.loads[id]? = l.loads[id]?) : l'.rest id = l.rest id := by
  have ht : l'.turnsOf = l.turnsOf := by
    funext st
    cases st <;> simp only [turnsOf, hs, hf]
  rw [rest, rest, hl, ht]

/-! ## Moving a load -/

theorem fate_move (l : Loader) (id i : Nat) : (l.move id).2.fate i = l.fate i := by
  have ha := (move_grows l id).alike
  by_cases hi : i = id
  · subst hi
    have hm := move_moved l i
    generalize l.move i = c at ha hm
    cases hm with
    | absent | known => rfl
    | @begins name address metadata load turns hc hp _ =>
      have hst : (l.announced i (.created name metadata) l.sourceMaps).setLoad i
          (.waiting load address turns) |>.loads[i]? = some (.waiting load address turns) := by
        simp [setLoad, announced, (List.getElem?_eq_some_iff.1 hc).1]
      rw [fate_eq hst, fate_eq hc, ha.outcome]
      simp only [outcome, hp]
    | @waits load address turns hc =>
      have hst : (l.setLoad i (.waiting load address turns)).loads[i]? =
          some (.waiting load address turns) := by
        simp [setLoad, (List.getElem?_eq_some_iff.1 hc).1]
      rw [fate_eq hst, fate_eq hc, ha.outcome]
      rfl
    | @ends st name maps hc _ _ =>
      have hst : ((l.announced i st maps).finish i name (l.outcome i st)).loads[i]? =
          some (.finished (l.outcome i st)) := by
        cases l.outcome i st <;>
          simp [finish, setLoad, announced, (List.getElem?_eq_some_iff.1 hc).1]
      rw [fate_eq hst, fate_eq hc]
      rfl
  · exact fate_congr ha (move_other l hi)

/-- A load that moves has to wait a turn less and still serves its name, or it comes to its fate. -/
theorem Serves.moves (h : l.Serves id n) :
    ((l.move id).1 = none ∧ (l.move id).2.rest id < l.rest id ∧ (l.move id).2.Serves id n) ∨
      (l.move id).1 = l.fate id := by
  obtain ⟨st, hst, hs⟩ := h
  have hlt := (List.getElem?_eq_some_iff.1 hst).1
  have hm := move_moved l id
  generalize l.move id = c at hm
  cases hm with
  | absent hc => simp [hst] at hc
  | known hc => exact Or.inr (fate_eq hc).symm
  | @begins name address metadata load turns hc hp hl =>
    rw [hst, Option.some.injEq] at hc
    subst hc
    refine Or.inl ⟨rfl, ?_, .waiting load address turns, ?_, (Stages.prepare_name hp).trans hs⟩
    · rw [rest_eq hst]
      simp [rest, turnsOf, setLoad, announced, hlt, hp, hl]
    · simp [setLoad, announced, hlt]
  | @waits load address turns hc =>
    rw [hst, Option.some.injEq] at hc
    subst hc
    refine Or.inl ⟨rfl, ?_, .waiting load address turns, ?_, hs⟩
    · rw [rest_eq hst]
      simp [rest, turnsOf, setLoad, hlt]
    · simp [setLoad, hlt]
  | ends hc => exact Or.inr (fate_eq hc).symm

theorem Serves.waits (h : l.Serves id n) (hm : l.move id = (none, l')) :
    l'.rest id < l.rest id ∧ l'.Serves id n := by
  rcases h.moves with ⟨-, hr, hs⟩ | hf
  · rw [hm] at hr hs
    exact ⟨hr, hs⟩
  · obtain ⟨st, hst, -⟩ := h
    rw [hm, fate_eq hst] at hf
    simp at hf

theorem Serves.ends (h : l.Serves id n) {r : Except LoadError LoadedUnit}
    (hm : l.move id = (some r, l')) : l.fate id = some r := by
  rcases h.moves with ⟨hn, -⟩ | hf
  · rw [hm] at hn
    simp at hn
  · rw [← hf, hm]

theorem rest_other (hi : i ≠ id) : (l.move id).2.rest i = l.rest i :=
  rest_mono (move_grows l id).alike.stages (move_grows l id).files (move_other l hi)

theorem rest_move_le (l : Loader) (id i : Nat) : (l.move id).2.rest i ≤ l.rest i := by
  by_cases hi : i = id
  · subst hi
    have hm := move_moved l i
    generalize l.move i = c at hm
    cases hm with
    | absent | known => exact Nat.le_refl _
    | begins hc hp hl =>
      rw [rest_eq hc]
      simp [rest, turnsOf, setLoad, announced, (List.getElem?_eq_some_iff.1 hc).1, hp, hl]
    | waits hc =>
      rw [rest_eq hc]
      simp [rest, turnsOf, setLoad, (List.getElem?_eq_some_iff.1 hc).1]
    | @ends st name maps hc =>
      cases l.outcome i st <;>
        simp [rest, turnsOf, finish, setLoad, announced, (List.getElem?_eq_some_iff.1 hc).1]
  · exact Nat.le_of_eq (rest_other hi)

theorem Serves.other (h : l.Serves i n) (hi : i ≠ id) : (l.move id).2.Serves i n := by
  obtain ⟨st, hst, hs⟩ := h
  exact ⟨st, (move_other l hi).trans hst, hs⟩

/-! ## Joining a load -/

theorem join_loads (l : Loader) (name : String) (metadata : Metadata) (h : i < l.loads.length) :
    (l.join name metadata).2.loads[i]? = l.loads[i]? := by
  rw [join]
  split
  · rfl
  · simp [List.getElem?_append_left h]

theorem rest_join (l : Loader) (name : String) (metadata : Metadata) (h : i < l.loads.length) :
    (l.join name metadata).2.rest i = l.rest i := by
  have hg := join_grows l name metadata
  exact rest_mono hg.alike.stages hg.files (join_loads l name metadata h)

end Loader

end ModuleLoader
