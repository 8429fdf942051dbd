import Mathlib.Tactic.SplitIfs
import ModuleLoader.Specifier
import ModuleLoader.Proofs.Results
import ModuleLoader.Proofs.Text.Segments

/-! # Walks

A walk from a directory leads to a row of segments of which only the first may be empty, that of the
root. Without points among them, segments are followed as they are.
-/

namespace ModuleLoader.Specifier

open Text

/-- Rows of segments that names are made of. Only the first may be empty. -/
structure IsRow (rows : List (List Char)) : Prop where
  apart : ∀ s ∈ rows, '/' ∉ s
  filled : ∀ s ∈ rows.tail, s ≠ []

/-- Whether a segment does not lead anywhere else. -/
def IsStill (s : List Char) : Prop := s ≠ ['.'] ∧ s ≠ ['.', '.']

instance (s : List Char) : Decidable (IsStill s) := inferInstanceAs (Decidable (_ ∧ _))

section Rows

variable {rows dir reached : List (List Char)} {rooted : Bool}

theorem IsRow.dropLast (h : IsRow dir) : IsRow dir.dropLast where
  apart s hs := h.apart s (List.dropLast_subset _ hs)
  filled s hs := h.filled s (List.dropLast_subset _ (List.tail_dropLast ▸ hs))

theorem IsRow.concat (h : IsRow dir) {s : List Char} (hs : '/' ∉ s) (hne : s ≠ []) :
    IsRow (dir ++ [s]) where
  apart t ht := by
    rcases List.mem_append.1 ht with ht | ht
    · exact h.apart t ht
    · rwa [List.mem_singleton.1 ht]
  filled t ht := by
    cases dir with
    | nil => cases ht
    | cons d dir =>
      rcases List.mem_append.1 ht with ht | ht
      · exact h.filled t ht
      · rwa [List.mem_singleton.1 ht]

theorem isRow_walk (h : IsRow dir) (hrows : ∀ s ∈ rows, '/' ∉ s)
    (hw : walk rooted dir rows = .ok reached) : IsRow reached := by
  induction rows generalizing dir with
  | nil =>
    cases hw
    exact h
  | cons s rows ih =>
    have hrest : ∀ t ∈ rows, '/' ∉ t := fun t ht => hrows t (List.mem_cons_of_mem _ ht)
    rw [walk] at hw
    split_ifs at hw with hstay hup hroot
    · exact ih h hrest hw
    · exact ih h.dropLast hrest hw
    · exact ih (h.concat (hrows s List.mem_cons_self) fun hnil => hstay (.inl hnil)) hrest hw

/-- A walk leaves no points behind it. -/
theorem isStill_walk (h : ∀ s ∈ dir, IsStill s) (hw : walk rooted dir rows = .ok reached) :
    ∀ s ∈ reached, IsStill s := by
  induction rows generalizing dir with
  | nil =>
    cases hw
    exact h
  | cons s rows ih =>
    rw [walk] at hw
    split_ifs at hw with hstay hup hroot
    · exact ih h hw
    · exact ih (fun t ht => h t (List.dropLast_subset _ ht)) hw
    · refine ih (fun t ht => ?_) hw
      rcases List.mem_append.1 ht with ht | ht
      · exact h t ht
      · rw [List.mem_singleton.1 ht]
        exact ⟨fun heq => hstay (.inr heq), hup⟩

theorem walk_still (h : ∀ s ∈ rows, s ≠ [] ∧ IsStill s) :
    walk rooted dir rows = .ok (dir ++ rows) := by
  induction rows generalizing dir with
  | nil => rw [walk, List.append_nil]
  | cons s rows ih =>
    obtain ⟨⟨hne, hone, htwo⟩, hrest⟩ := List.forall_mem_cons.1 h
    rw [walk, if_neg (not_or.2 ⟨hne, hone⟩), if_neg htwo, ih hrest, List.append_assoc]
    rfl

theorem walk_append (rooted : Bool) (dir rows rows' : List (List Char)) :
    walk rooted dir (rows ++ rows') = walk rooted dir rows >>= (walk rooted · rows') := by
  induction rows generalizing dir with
  | nil => rfl
  | cons s rows ih =>
    rw [List.cons_append, walk, walk]
    split_ifs
    · exact ih dir
    · rfl
    · exact ih _
    · exact ih _

/-- Behind the root a walk goes as without one. -/
theorem walk_root (dir rows : List (List Char)) :
    walk true ([] :: dir) rows = (walk false dir rows).map ([] :: ·) := by
  induction rows generalizing dir with
  | nil => rfl
  | cons s rows ih =>
    rw [walk, walk]
    by_cases hstay : s = [] ∨ s = ['.']
    · rw [if_pos hstay, if_pos hstay]
      exact ih dir
    rw [if_neg hstay, if_neg hstay]
    by_cases hup : s = ['.', '.']
    · rw [if_pos hup, if_pos hup]
      cases dir with
      | nil => rfl
      | cons d dir =>
        rw [if_neg (by simp), if_neg (by simp)]
        exact ih _
    · rw [if_neg hup, if_neg hup]
      exact ih _

/-- The only thing that stops a walk is a way up from the root. -/
theorem cause_of_walk {cause : ResolutionCause} (h : walk rooted dir rows = .error cause) :
    cause = .aboveRoot := by
  induction rows generalizing dir with
  | nil => cases h
  | cons s rows ih =>
    rw [walk] at h
    split_ifs at h
    · exact ih h
    · cases h
      rfl
    · exact ih h
    · exact ih h

theorem follow_eq_ok_iff {path name : List Char} : follow dir path = .ok name ↔
    ∃ reached, walk (dir.head? = some []) dir (segments '/' path) = .ok reached ∧
      joined '/' reached = name ∧ name ≠ [] := by
  rw [follow, bind_eq_ok_iff]
  refine exists_congr fun reached => and_congr_right fun _ => ?_
  by_cases h : joined '/' reached = []
  · rw [if_pos h, h]
    exact ⟨fun h => (nomatch h), fun h => absurd h.1.symm h.2⟩
  · rw [if_neg h]
    refine ⟨fun hok => ?_, fun h => congrArg Except.ok h.1⟩
    cases hok
    exact ⟨rfl, h⟩

end Rows

end ModuleLoader.Specifier
