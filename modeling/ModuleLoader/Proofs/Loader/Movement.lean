import ModuleLoader.Proofs.Loader.Releases

/-! # Movements of loads

A load moves only when a request that waits for it lets it. It takes nothing into the pending table,
and it alone begins or fails.
-/

namespace ModuleLoader.Loader

/-- The pending loads are those from before and the given ones. -/
def Gains (l l' : Loader) (ids : List Nat) : Prop :=
  ∀ n id, l'.pending.get? n = some id → l.pending.get? n = some id ∨ id ∈ ids

/-- A load is on its way to the unit of a name. -/
def Underway (l : Loader) (id : Nat) (n : String) : Prop :=
  l.Serves id n ∧ l.isFinished id = false

/-- Of the loads that were there, none but the given ones has begun or failed. -/
structure Touches (l l' : Loader) (ids : List Nat) : Prop where
  failed : ∀ {i}, l'.Failed i → l.Failed i ∨ i ∈ ids ∧ ∃ n, l.Underway i n
  began : ∀ {n i}, .began n i ∈ l'.world.journal →
    .began n i ∈ l.world.journal ∨ i ∈ ids ∧ l.Underway i n

theorem Touches.refl (l : Loader) (ids : List Nat) : Touches l l ids := ⟨Or.inl, Or.inl⟩

theorem Touches.mono {l l' : Loader} {ids ids' : List Nat} (h : Touches l l' ids)
    (hi : ∀ i ∈ ids, i ∈ ids') : Touches l l' ids' :=
  ⟨fun hf => (h.failed hf).imp_right fun hf => ⟨hi _ hf.1, hf.2⟩,
    fun hb => (h.began hb).imp_right fun hb => ⟨hi _ hb.1, hb.2⟩⟩

theorem Touches.trans_nil {l l' l'' : Loader} {ids : List Nat} (h : Touches l l' ids)
    (h' : Touches l' l'' []) : Touches l l'' ids := by
  constructor
  · intro i hf
    rcases h'.failed hf with hf | ⟨hi, -⟩
    · exact h.failed hf
    · exact absurd hi List.not_mem_nil
  · intro n i hb
    rcases h'.began hb with hb | ⟨hi, -⟩
    · exact h.began hb
    · exact absurd hi List.not_mem_nil

theorem isFinished_iff {l : Loader} {id : Nat} :
    l.isFinished id = true ↔ ∃ r, l.loads[id]? = some (.finished r) := by
  rw [← Bool.not_eq_false, isFinished_eq_false_iff]
  simp

theorem Evolves.isFinished {l l' : Loader} (h : Evolves l l') {id : Nat}
    (hf : l.isFinished id = true) : l'.isFinished id = true := by
  rw [isFinished_iff] at hf ⊢
  obtain ⟨r, hr⟩ := hf
  exact ⟨r, h.finished hr⟩

/-! ## Moving a load -/

theorem move_gains (l : Loader) (id : Nat) : Gains l (l.move id).2 [] := by
  have h := move_moved l id
  generalize l.move id = c at h
  cases h with
  | ends hs hf hn =>
    rename_i st name maps
    intro n i hp
    refine Or.inl ?_
    cases hr : l.outcome id st with
    | ok u =>
      rw [hr] at hp
      exact hp
    | error e =>
      simp only [hr, finish, setLoad, announced, Dict.get?_erase] at hp
      split at hp
      · simp at hp
      · exact hp
  | _ => exact fun _ _ => Or.inl

theorem move_finished {l l' : Loader} {id : Nat} {r : Except LoadError LoadedUnit}
    (h : l.move id = (some r, l')) : l'.loads[id]? = some (.finished r) := by
  have hm := move_moved l id
  rw [h] at hm
  generalize hc : (some r, l') = c at hm
  cases hm with
  | absent | begins | waits => simp at hc
  | known hs =>
    simp only [Prod.mk.injEq, Option.some.injEq] at hc
    rw [hc.1, hc.2, hs]
  | ends hs hf hn =>
    simp only [Prod.mk.injEq, Option.some.injEq] at hc
    have hl := (List.getElem?_eq_some_iff.1 hs).1
    obtain ⟨hr, rfl⟩ := hc
    rw [← hr]
    cases r <;> simp [finish, setLoad, announced, hl]

theorem finish_length (l : Loader) (id : Nat) (name : String)
    (r : Except LoadError LoadedUnit) : (l.finish id name r).loads.length = l.loads.length := by
  cases r <;> simp [finish, setLoad]

theorem move_length (l : Loader) (id : Nat) :
    (l.move id).2.loads.length = l.loads.length := by
  have hm := move_moved l id
  generalize l.move id = c at hm
  cases hm with
  | absent | known => rfl
  | begins | waits => simp [setLoad, announced]
  | ends =>
    rw [finish_length]
    rfl

/-- No other load moves. -/
theorem move_other (l : Loader) {id i : Nat} (hi : i ≠ id) :
    (l.move id).2.loads[i]? = l.loads[i]? := by
  have hm := move_moved l id
  generalize l.move id = c at hm
  cases hm with
  | absent | known => rfl
  | begins | waits => simp [setLoad, announced, List.getElem?_set_ne (Ne.symm hi)]
  | @ends st name maps =>
    cases l.outcome id st <;>
      simp [finish, setLoad, announced, List.getElem?_set_ne (Ne.symm hi)]

theorem announces_began {l : Loader} {id : Nat} {st : LoadState} {n : String} {i : Nat}
    (h : .began n i ∈ l.announces id st) : i = id ∧ st.Serves id n ∧ st.isFinished = false := by
  cases st with
  | created name metadata =>
    have hb : Event.began n i = .began name id := by
      simp only [announces] at h
      split at h
      · simpa using h
      · simpa using h
    cases hb
    exact ⟨rfl, rfl, rfl⟩
  | _ => simp [announces] at h

theorem move_journal (l : Loader) (id : Nat) {n : String} {i : Nat}
    (h : .began n i ∈ (l.move id).2.world.journal) :
    .began n i ∈ l.world.journal ∨ i = id ∧ l.Underway id n := by
  have hm := move_moved l id
  generalize l.move id = c at hm h
  have hann {st : LoadState} (hs : l.loads[id]? = some st) {n : String} {i : Nat}
      (he : .began n i ∈ l.announces id st ++ l.world.journal) :
      .began n i ∈ l.world.journal ∨ i = id ∧ l.Underway id n := by
    rcases List.mem_append.1 he with he | he
    · obtain ⟨hi, hn, hf⟩ := announces_began he
      refine Or.inr ⟨hi, ⟨st, hs, hn⟩, isFinished_eq_false_iff.2 ?_⟩
      rintro r hr
      rw [hs, Option.some.injEq] at hr
      subst hr
      simp [LoadState.isFinished] at hf
    · exact Or.inl he
  cases hm with
  | absent | known | waits => exact Or.inl h
  | begins hs => exact hann hs h
  | @ends st name maps hs hf hn =>
    refine hann hs ?_
    cases hr : l.outcome id st <;> simp only [hr] at h <;> exact h

theorem move_touches (l : Loader) (id : Nat) : Touches l (l.move id).2 [id] := by
  constructor
  · intro i hf
    by_cases hi : i = id
    · subst hi
      cases hs : l.isFinished i with
      | true =>
        obtain ⟨r, hr⟩ := isFinished_iff.1 hs
        obtain ⟨e, he⟩ := hf
        rw [(move_grows l i).loads.finished hr] at he
        exact Or.inl ⟨e, hr.trans he⟩
      | false =>
        have hlt : i < l.loads.length := by
          obtain ⟨e, he⟩ := hf
          rw [← move_length l i]
          exact (List.getElem?_eq_some_iff.1 he).1
        have hst := List.getElem?_eq_getElem hlt
        have hfin : l.loads[i].isFinished = false := by
          cases hc : l.loads[i] with
          | finished r => exact absurd (hst.trans (by rw [hc])) (isFinished_eq_false_iff.1 hs r)
          | _ => rfl
        obtain ⟨n, hn⟩ := l.loads[i].exists_serves i hfin
        exact Or.inr ⟨List.mem_singleton_self i, n, ⟨_, hst, hn⟩, hs⟩
    · rw [Failed, move_other l hi] at hf
      exact Or.inl hf
  · intro n i hb
    refine (move_journal l id hb).imp_right ?_
    rintro ⟨rfl, hn⟩
    exact ⟨List.mem_singleton_self i, hn⟩

/-! ## Joining a load -/

theorem join_touches (l : Loader) (name : String) (metadata : Metadata) :
    Touches l (l.join name metadata).2 [] := by
  rw [join]
  split
  · exact .refl l []
  · refine ⟨fun {i} hf => Or.inl ?_, Or.inl⟩
    obtain ⟨e, he⟩ := hf
    rcases getElem?_concat_eq_some_iff.1 he with he | ⟨-, he⟩
    · exact ⟨e, he⟩
    · cases he

end ModuleLoader.Loader
