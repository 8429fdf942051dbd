import ModuleLoader.Text.Segment

/-! # Segments and their text

Where a scan stops, what segments have of the text that they are cut from, and what a joined text
has of its segments.
-/

namespace ModuleLoader

section Members

variable {α : Type} {p : α → Bool} {l r : List α}

/-- What a check finds of the members of a list one by one. -/
theorem forall_mem_of_all {P : α → Prop} [DecidablePred P] (h : l.all (P ·) = true) :
    ∀ a ∈ l, P a := fun a ha => of_decide_eq_true (List.all_eq_true.1 h a ha)

theorem takeWhile_append_stop (hl : ∀ a ∈ l, p a) (hr : ∀ a ∈ r.head?, p a = false) :
    (l ++ r).takeWhile p = l := by
  rw [List.takeWhile_append_of_pos hl]
  cases r with
  | nil => simp
  | cons a r => simp [hr a rfl]

theorem dropWhile_append_stop (hl : ∀ a ∈ l, p a) (hr : ∀ a ∈ r.head?, p a = false) :
    (l ++ r).dropWhile p = r := by
  rw [List.dropWhile_append_of_pos hl]
  cases r with
  | nil => rfl
  | cons a r => simp [hr a rfl]

theorem dropWhile_of_head (hr : ∀ a ∈ r.head?, p a = false) : r.dropWhile p = r :=
  dropWhile_append_stop (l := []) (List.forall_mem_nil _) hr

end Members

namespace Text

section Cut

variable {α : Type} [DecidableEq α]

theorem segments_append_cons (sep : α) (a b : List α) :
    segments sep (a ++ sep :: b) = segments sep a ++ segments sep b := by
  induction a with
  | nil => simp [segments]
  | cons c a ih =>
    rw [List.cons_append, segments, segments]
    split
    · rw [ih, List.cons_append]
    · rw [ih]
      obtain ⟨s, rest, hs⟩ := List.exists_cons_of_ne_nil (segments_ne_nil sep a)
      rw [hs]
      rfl

theorem not_mem_of_mem_segments {sep : α} {s cs : List α}
    (h : s ∈ segments sep cs) : sep ∉ s := by
  induction cs generalizing s with
  | nil =>
    rw [segments, List.mem_singleton] at h
    rw [h]
    exact List.not_mem_nil
  | cons c cs ih =>
    rw [segments] at h
    split at h
    · rcases List.mem_cons.1 h with rfl | h
      · exact List.not_mem_nil
      · exact ih h
    · rename_i hne
      obtain ⟨t, rest, ht⟩ := List.exists_cons_of_ne_nil (segments_ne_nil sep cs)
      rw [ht] at h ih
      rcases List.mem_cons.1 h with rfl | h
      · exact List.not_mem_cons_of_ne_of_not_mem (Ne.symm hne) (ih List.mem_cons_self)
      · exact ih (List.mem_cons_of_mem _ h)

theorem mem_of_mem_segments {sep : α} {s cs : List α} {c : α}
    (h : s ∈ segments sep cs) (hc : c ∈ s) : c ∈ cs := by
  induction cs generalizing s with
  | nil =>
    rw [segments, List.mem_singleton] at h
    rw [h] at hc
    cases hc
  | cons d cs ih =>
    rw [segments] at h
    split at h
    · rcases List.mem_cons.1 h with rfl | h
      · cases hc
      · exact List.mem_cons_of_mem _ (ih h hc)
    · obtain ⟨t, rest, ht⟩ := List.exists_cons_of_ne_nil (segments_ne_nil sep cs)
      rw [ht] at h ih
      rcases List.mem_cons.1 h with rfl | h
      · rcases List.mem_cons.1 hc with rfl | hc
        · exact List.mem_cons_self
        · exact List.mem_cons_of_mem _ (ih List.mem_cons_self hc)
      · exact List.mem_cons_of_mem _ (ih (List.mem_cons_of_mem _ h) hc)

end Cut

/-- What holds no separator stands in front of the cut. -/
theorem cutFirst_append {sep : Char} {s : List Char} (h : sep ∉ s) (cs : List Char) :
    cutFirst sep (s ++ cs) = (s ++ (cutFirst sep cs).1, (cutFirst sep cs).2) := by
  induction s with
  | nil => rfl
  | cons c s ih =>
    obtain ⟨hc, hs⟩ := List.ne_and_not_mem_of_not_mem_cons h
    rw [List.cons_append, cutFirst, if_neg (Ne.symm hc), ih hs]
    rfl

/-- A text is cut where the first separator stands. -/
theorem cutFirst_eq_iff {sep : Char} {cs s : List Char} {rest : Option (List Char)} :
    cutFirst sep cs = (s, rest) ↔ sep ∉ s ∧ cs = s ++ (rest.map (sep :: ·)).getD [] := by
  constructor
  · intro h
    induction cs generalizing s rest with
    | nil =>
      cases h
      exact ⟨List.not_mem_nil, rfl⟩
    | cons c cs ih =>
      rw [cutFirst] at h
      split at h
      · rename_i hc
        cases h
        exact ⟨List.not_mem_nil, by rw [hc]; rfl⟩
      · rename_i hc
        cases h
        obtain ⟨hs, hcs⟩ := ih rfl
        exact ⟨List.not_mem_cons_of_ne_of_not_mem (Ne.symm hc) hs, congrArg (c :: ·) hcs⟩
  · rintro ⟨hs, rfl⟩
    rw [cutFirst_append hs]
    cases rest <;> simp [cutFirst]

theorem mem_joined {α : Type} {sep c : α} {rows : List (List α)} (h : c ∈ joined sep rows) :
    c = sep ∨ ∃ s ∈ rows, c ∈ s := by
  induction rows with
  | nil => cases h
  | cons s rows ih =>
    cases rows with
    | nil => exact .inr ⟨s, List.mem_cons_self, h⟩
    | cons t rows =>
      rw [joined, List.mem_append, List.mem_cons] at h
      rcases h with h | rfl | h
      · exact .inr ⟨s, List.mem_cons_self, h⟩
      · exact .inl rfl
      · rcases ih h with hc | ⟨u, hu, hc⟩
        · exact .inl hc
        · exact .inr ⟨u, List.mem_cons_of_mem _ hu, hc⟩

end Text

end ModuleLoader
