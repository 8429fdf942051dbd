import Mathlib.Data.List.Induction
import ModuleLoader.Text.Position

/-! # Positions along a text

The position of an offset between two characters is where a walk over the characters before it ends.
The walk goes forward with every character, so positions are ordered as the offsets are.
-/

namespace ModuleLoader

namespace Text

variable {source : List Char}

theorem takeBytes_append (before rest : List Char) :
    takeBytes (byteLength before) (before ++ rest) = before := by
  induction before with
  | nil =>
    cases rest with
    | nil => rfl
    | cons c rest => exact if_neg (Nat.not_le.2 c.utf8Size_pos)
  | cons c before ih =>
    rw [List.cons_append, takeBytes, byteLength_cons, if_pos (Nat.le_add_right _ _),
      Nat.add_sub_cancel_left, ih]

theorem takeBytes_of_le {n : ℕ} (h : byteLength source ≤ n) : takeBytes n source = source := by
  induction source generalizing n with
  | nil => rfl
  | cons c rest ih =>
    rw [byteLength_cons] at h
    rw [takeBytes, if_pos (Nat.le_of_add_right_le h), ih (Nat.le_sub_of_add_le' h)]

/-- Whether an offset stands between two characters of a text, or at one of its ends. -/
def IsBoundary (source : List Char) (offset : ℕ) : Prop :=
  ∃ before after, source = before ++ after ∧ offset = byteLength before

theorem isBoundary_length (source : List Char) : IsBoundary source (byteLength source) :=
  ⟨source, [], (List.append_nil source).symm, rfl⟩

/-- Of two boundaries the later one has some more characters before it. -/
theorem IsBoundary.exists_between {m n : ℕ} (hm : IsBoundary source m) (hn : IsBoundary source n)
    (h : m < n) : ∃ before between after, source = before ++ between ++ after ∧ between ≠ [] ∧
      m = byteLength before ∧ n = byteLength (before ++ between) := by
  obtain ⟨before, rest, rfl, rfl⟩ := hm
  obtain ⟨before', after, hsource, rfl⟩ := hn
  rcases List.append_eq_append_iff.1 hsource with ⟨between, rfl, rfl⟩ | ⟨between, rfl, rfl⟩
  · refine ⟨before, between, after, (List.append_assoc ..).symm, ?_, rfl, rfl⟩
    rintro rfl
    rw [List.append_nil] at h
    exact Nat.lt_irrefl _ h
  · rw [byteLength_append] at h
    omega

end Text

open Text

namespace Position

/-- Whether a position comes before another one: on an earlier line, or earlier on the same line. -/
def Before (p q : Position) : Prop := p.line < q.line ∨ p.line = q.line ∧ p.column < q.column

/-- The position behind a character. A line break starts a line. -/
def after (p : Position) (c : Char) : Position :=
  if c = '\n' then ⟨p.line + 1, 1⟩ else ⟨p.line, p.column + 1⟩

/-- Where a walk over characters ends that begins in the first column of the first line. -/
def walk (cs : List Char) : Position := cs.foldl after ⟨1, 1⟩

variable {p q r : Position} {source : List Char}

theorem Before.trans (h : p.Before q) (h' : q.Before r) : p.Before r := by
  unfold Before at *
  omega

theorem before_after (p : Position) (c : Char) : p.Before (p.after c) := by
  unfold after
  split_ifs
  · exact .inl (Nat.lt_succ_self _)
  · exact .inr ⟨rfl, Nat.lt_succ_self _⟩

theorem before_foldl_after {cs : List Char} (h : cs ≠ []) (p : Position) :
    p.Before (cs.foldl after p) := by
  induction cs generalizing p with
  | nil => exact absurd rfl h
  | cons c cs ih =>
    cases cs with
    | nil => exact before_after p c
    | cons d cs => exact (before_after p c).trans (ih (List.cons_ne_nil d cs) (p.after c))

theorem lastLine_concat (cs : List Char) (c : Char) :
    lastLine (cs ++ [c]) = if c = '\n' then [] else lastLine cs ++ [c] := by
  rw [lastLine, List.reverse_concat, List.takeWhile_cons]
  split_ifs with hc <;> simp_all [lastLine]

/-- The three scans of a text find the position where the walk over it ends. -/
theorem walk_eq (cs : List Char) : walk cs = ⟨cs.count '\n' + 1, (lastLine cs).length + 1⟩ := by
  induction cs using List.reverseRecOn with
  | nil => rfl
  | append_singleton cs c ih =>
    rw [walk, List.foldl_append, List.foldl_cons, List.foldl_nil, ← walk, ih, after,
      List.count_append, lastLine_concat]
    split_ifs with hc
    · rw [hc, List.count_singleton_self]
      rfl
    · rw [List.count_singleton, if_neg (by simpa using hc), List.length_append]
      rfl

theorem ofOffset_append (before rest : List Char) :
    ofOffset (before ++ rest) (byteLength before) = walk before := by
  rw [walk_eq, ofOffset, takeBytes_append]

theorem ofOffset_of_le {n : ℕ} (h : byteLength source ≤ n) :
    ofOffset source n = ofOffset source (byteLength source) := by
  rw [ofOffset, ofOffset, takeBytes_of_le h, takeBytes_of_le (Nat.le_refl _)]

theorem before_ofOffset {m n : ℕ} (hm : IsBoundary source m) (hn : IsBoundary source n)
    (h : m < n) : (ofOffset source m).Before (ofOffset source n) := by
  obtain ⟨before, between, rest, rfl, hne, rfl, rfl⟩ := hm.exists_between hn h
  rw [ofOffset_append, List.append_assoc, ofOffset_append, walk, walk, List.foldl_append]
  exact before_foldl_after hne _

end Position

end ModuleLoader
