import Mathlib.Data.List.TakeWhile
import Mathlib.Tactic.IntervalCases
import ModuleLoader.Domain.Name
import ModuleLoader.Proofs.Results
import ModuleLoader.Proofs.Text.Segments

/-! # Names in ASCII

The form of a name in ASCII has only characters that names may hold. A name in lower case whose
labels do not announce other characters is its own form.
-/

namespace ModuleLoader.Domain

open Text

/-! ## Labels in ASCII -/

namespace Punycode

/-- The digits of labels in ASCII. -/
def digitSet : List Char := "abcdefghijklmnopqrstuvwxyz0123456789".toList

theorem digit_mem {n : ℕ} (h : n < 36) : digit n ∈ digitSet := by
  interval_cases n <;> decide +kernel

theorem digits_mem {bias k n : ℕ} {c : Char} (h : c ∈ digits bias k n) : c ∈ digitSet := by
  fun_induction digits bias k n with
  | case1 k n t hn =>
    have hle : t ≤ 26 := threshold_le bias k
    rw [List.mem_singleton.1 h]
    exact digit_mem (by omega)
  | case2 k n t hn ih =>
    have hle : t ≤ 26 := threshold_le bias k
    have := Nat.mod_lt (n - t) (show 0 < 36 - t by omega)
    rcases List.mem_cons.1 h with rfl | h
    · exact digit_mem (by omega)
    · exact ih h

/-- Whether all that was written has a property. -/
def Writes (P : Char → Prop) (d : Draft) : Prop := ∀ c ∈ d.output, P c

variable {P : Char → Prop}

theorem Writes.passPlace {d : Draft} (h : Writes P d) (hP : ∀ c ∈ digitSet, P c)
    (basic code : ℕ) (c : Char) : Writes P (passPlace basic code d c) := by
  rw [Punycode.passPlace]
  split
  · exact h
  · split
    · intro c hc
      exact (List.mem_append.1 hc).elim (h c) fun hc => hP c (digits_mem hc)
    · exact h

theorem Writes.passPlaces {d : Draft} (h : Writes P d) (hP : ∀ c ∈ digitSet, P c)
    (basic code : ℕ) (label : List Char) :
    Writes P (label.foldl (Punycode.passPlace basic code) d) := by
  induction label generalizing d with
  | nil => exact h
  | cons c label ih => exact ih (h.passPlace hP basic code c)

theorem Writes.writeCodes {d : Draft} (h : Writes P d) (hP : ∀ c ∈ digitSet, P c)
    (basic next : ℕ) (label : List Char) (codes : List ℕ) :
    Writes P (writeCodes basic label d next codes) := by
  induction codes generalizing d next with
  | nil => exact h
  | cons code codes ih =>
    have hstart : Writes P { d with delta := d.delta + (code - next) * (d.written + 1) } := h
    have hpass := hstart.passPlaces hP basic code label
    rw [Punycode.writeCodes]
    refine ih ?_ (code + 1)
    exact hpass

/-- A written label has characters of the label, digits and hyphens. -/
theorem mem_encode {label : List Char} {c : Char} (h : c ∈ encode label) :
    c ∈ label ∧ c.toNat < 128 ∨ c ∈ '-' :: digitSet := by
  refine Writes.writeCodes (P := fun c => c ∈ label ∧ c.toNat < 128 ∨ c ∈ '-' :: digitSet) ?_ ?_
    _ _ _ _ c h
  · intro c hc
    dsimp only at hc
    split at hc
    · cases hc
    · rcases List.mem_append.1 hc with hc | hc
      · obtain ⟨hmem, hlt⟩ := List.mem_filter.1 hc
        exact .inl ⟨hmem, of_decide_eq_true hlt⟩
      · rw [List.mem_singleton.1 hc]
        exact .inr List.mem_cons_self
  · exact fun c hc => .inr (List.mem_cons_of_mem _ hc)

end Punycode

/-! ## Names that are read -/

/-- Characters of ASCII that names may hold. -/
def IsNameChar (c : Char) : Prop := c.toNat < 128 ∧ isForbidden c = false

theorem isNameChar_digit {c : Char} (h : c ∈ '-' :: Punycode.digitSet) : IsNameChar c := by
  have hall : ∀ c ∈ '-' :: Punycode.digitSet, c.toNat < 128 ∧ isForbidden c = false :=
    forall_mem_of_all (by decide +kernel)
  exact hall c h

theorem isNameChar_asciiLabel {label : List Char} (h : ∀ c ∈ label, isForbidden c = false)
    {c : Char} (hc : c ∈ asciiLabel label) : IsNameChar c := by
  rw [asciiLabel] at hc
  split at hc
  · rename_i hascii
    exact ⟨of_decide_eq_true (List.all_eq_true.1 hascii c hc), h c hc⟩
  · rcases List.mem_append.1 hc with hc | hc
    · have hmark : ∀ c ∈ mark, c.toNat < 128 ∧ isForbidden c = false :=
        forall_mem_of_all (by decide +kernel)
      exact hmark c hc
    · rcases Punycode.mem_encode hc with ⟨hmem, hlt⟩ | hd
      · exact ⟨hlt, h c hmem⟩
      · exact isNameChar_digit hd

theorem not_forbidden_label? {label read : List Char} (h : ∀ c ∈ label, isForbidden c = false)
    (hr : label? label = some read) : ∀ c ∈ read, isForbidden c = false := by
  rw [label?] at hr
  split at hr
  · rw [unmarked?] at hr
    split at hr
    · cases hr
    · split at hr
      · split at hr
        · rename_i hn
          cases hr
          rw [Bool.and_eq_true, isNormal, Bool.and_eq_true, List.all_eq_true] at hn
          intro c hc
          have := hn.1.1 c hc
          simp only [Bool.and_eq_true, Bool.not_eq_true'] at this
          exact this.1.2
        · cases hr
      · cases hr
  · split at hr
    · cases hr
      exact h
    · cases hr

/-- The form of a name in ASCII has characters that names may hold. -/
theorem isNameChar_toAscii? {name ascii : List Char} (h : toAscii? name = some ascii) :
    ∀ c ∈ ascii, IsNameChar c := by
  rw [toAscii?] at h
  simp only [Option.bind_eq_bind, Option.bind_eq_some_iff] at h
  obtain ⟨mapped, -, h⟩ := h
  split at h
  · cases h
  · rename_i hf
    obtain ⟨labels, hlabels, h⟩ := Option.bind_eq_some_iff.1 h
    split at h
    · cases h
      intro c hc
      rcases mem_joined hc with rfl | ⟨s, hs, hc⟩
      · exact ⟨by decide, by decide +kernel⟩
      · obtain ⟨label, hlabel, rfl⟩ := List.mem_map.1 hs
        obtain ⟨segment, hsegment, hread⟩ := exists_of_mapM hlabels hlabel
        refine isNameChar_asciiLabel (not_forbidden_label? (fun c hc => ?_) hread) hc
        rw [Bool.not_eq_true, List.any_eq_false] at hf
        simpa using hf c (mem_of_mem_segments hsegment hc)
    · cases h

/-! ## Names that are their own form -/

/-- Whether a name is one in lower case whose labels do not announce other characters. -/
structure IsSimple (name : List Char) : Prop where
  chars : ∀ c ∈ name, IsNameChar c
  lower : ∀ c ∈ name, c.toLower = c
  labels : ∀ s ∈ segments '.' name, ∀ rest, s ≠ mark ++ rest

theorem mapAll?_ascii {name : List Char} (h : ∀ c ∈ name, c.toNat < 128)
    (hl : ∀ c ∈ name, c.toLower = c) : mapAll? name = some name := by
  have hmap : name.mapM mapped? = some (name.map fun c => [c]) := by
    rw [mapM_eq_some_iff, List.map_map]
    refine List.map_congr_left fun c hc => ?_
    rw [mapped?, if_pos (h c hc), hl c hc]
    rfl
  rw [mapAll?, hmap, Option.map_some, ← List.flatMap_def, List.flatMap_singleton' name]

theorem not_rightToLeft {c : Char} (h : c.toNat < 128) :
    (directionOf c).isRightToLeft = false := by
  rw [directionOf, if_pos h]
  split_ifs <;> rfl

/-- A simple name is its own form in ASCII. -/
theorem IsSimple.toAscii? {name : List Char} (h : IsSimple name) :
    toAscii? name = some name := by
  have hascii : ∀ c ∈ name, c.toNat < 128 := fun c hc => (h.chars c hc).1
  have hnormal : normalForm name = name := by
    rw [normalForm, if_pos]
    rw [List.all_eq_true]
    intro c hc
    have := hascii c hc
    exact decide_eq_true (by omega)
  have hallowed : name.any isForbidden = false := by
    rw [List.any_eq_false]
    intro c hc
    simp [(h.chars c hc).2]
  have hs : ∀ s ∈ segments '.' name, isAscii s = true := by
    intro s hs
    rw [isAscii, List.all_eq_true]
    exact fun c hc => decide_eq_true (hascii c (mem_of_mem_segments hs hc))
  have hlabels : (segments '.' name).mapM label? = some (segments '.' name) := by
    rw [mapM_eq_some_iff]
    refine List.map_congr_left fun s hm => ?_
    have hmark : dropStart? mark s = none := by
      rw [Option.eq_none_iff_forall_ne_some]
      exact fun rest hr => h.labels s hm rest (dropStart?_eq_some_iff.1 hr)
    rw [label?, hmark]
    simp [hs s hm]
  have hfit : directionsFit (segments '.' name) = true := by
    have hleft : ((segments '.' name).map (·.map directionOf)).any (·.any (·.isRightToLeft)) =
        false := by
      simp only [List.any_eq_false, List.mem_map, List.any_eq_true, not_exists, not_and,
        Bool.not_eq_true, forall_exists_index, and_imp]
      rintro _ s hm rfl d hd
      obtain ⟨c, hc, rfl⟩ := List.mem_map.1 hd
      exact not_rightToLeft (hascii c (mem_of_mem_segments hm hc))
    rw [directionsFit]
    simp [hleft]
  have hwrite : (segments '.' name).map asciiLabel = segments '.' name :=
    (List.map_congr_left fun s hm => if_pos (hs s hm)).trans (List.map_id _)
  rw [Domain.toAscii?, mapAll?_ascii hascii h.lower]
  simp only [Option.bind_eq_bind, Option.bind_some, hnormal, hallowed, Bool.false_eq_true, if_false,
    hlabels, hfit, if_true, hwrite, joined_segments]

end ModuleLoader.Domain
