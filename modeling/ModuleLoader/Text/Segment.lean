/-! # Segments

A row of characters or bytes cut at a separator, and segments put together again. Joining what was
cut gives the row back, and cutting what was joined gives the segments back if no separator is in
them.
-/

namespace ModuleLoader.Text

variable {α : Type}

/-- Put segments together with a separator between each two. -/
def joined (sep : α) : List (List α) → List α
  | [] => []
  | [s] => s
  | s :: t :: rest => s ++ sep :: joined sep (t :: rest)

theorem joined_cons (sep : α) (s : List α) {rest : List (List α)} (h : rest ≠ []) :
    joined sep (s :: rest) = s ++ sep :: joined sep rest := by
  cases rest with
  | nil => exact absurd rfl h
  | cons t others => rfl

variable [DecidableEq α]

/-- Cut at every separator. There is always one segment more than there are separators. -/
def segments (sep : α) : List α → List (List α)
  | [] => [[]]
  | c :: rest =>
    if c = sep then [] :: segments sep rest
    else match segments sep rest with
      | [] => [[c]]
      | s :: others => (c :: s) :: others

theorem segments_ne_nil (sep : α) (cs : List α) : segments sep cs ≠ [] := by
  cases cs with
  | nil => simp [segments]
  | cons c rest =>
    rw [segments]
    split
    · simp
    · split <;> simp

@[simp] theorem joined_segments (sep : α) (cs : List α) :
    joined sep (segments sep cs) = cs := by
  induction cs with
  | nil => rfl
  | cons c rest ih =>
    rw [segments]
    split
    · rename_i h
      rw [joined_cons _ _ (segments_ne_nil _ _), ih, h]
      rfl
    · split
      · rename_i h
        exact absurd h (segments_ne_nil _ _)
      · rename_i s others h
        rw [h] at ih
        cases others with
        | nil => simpa [joined] using ih
        | cons t ts => simpa [joined] using ih

theorem segments_of_not_mem {sep : α} {s : List α} (h : sep ∉ s) : segments sep s = [s] := by
  induction s with
  | nil => rfl
  | cons c s ih =>
    obtain ⟨hc, hs⟩ := not_or.mp fun hm => h (List.mem_cons.mpr hm)
    rw [segments, if_neg (Ne.symm hc), ih hs]

theorem segments_append {sep : α} {s : List α} (h : sep ∉ s) (cs : List α) :
    segments sep (s ++ sep :: cs) = s :: segments sep cs := by
  induction s with
  | nil => simp [segments]
  | cons c s ih =>
    obtain ⟨hc, hs⟩ := not_or.mp fun hm => h (List.mem_cons.mpr hm)
    rw [List.cons_append, segments, if_neg (Ne.symm hc), ih hs]

theorem segments_joined {sep : α} {ss : List (List α)} (hne : ss ≠ [])
    (h : ∀ s ∈ ss, sep ∉ s) : segments sep (joined sep ss) = ss := by
  induction ss with
  | nil => exact absurd rfl hne
  | cons s rest ih =>
    obtain ⟨hs, hrest⟩ := List.forall_mem_cons.mp h
    cases rest with
    | nil => exact segments_of_not_mem hs
    | cons t others =>
      rw [joined_cons _ _ (by simp), segments_append hs, ih (by simp) hrest]

/-- The text before the first separator and, if there is one, the text behind it. -/
def cutFirst (sep : Char) : List Char → List Char × Option (List Char)
  | [] => ([], none)
  | c :: rest =>
    if c = sep then ([], some rest)
    else ((c :: (cutFirst sep rest).1), (cutFirst sep rest).2)

/-- What is left of a text behind a given beginning. -/
def dropStart? : List Char → List Char → Option (List Char)
  | [], cs => some cs
  | _ :: _, [] => none
  | a :: start, c :: cs => if a = c then dropStart? start cs else none

theorem dropStart?_eq_some_iff {start cs rest : List Char} :
    dropStart? start cs = some rest ↔ cs = start ++ rest := by
  induction start generalizing cs with
  | nil => simp [dropStart?, eq_comm]
  | cons a start ih =>
    cases cs with
    | nil => simp [dropStart?]
    | cons c cs =>
      by_cases h : a = c
      · subst h
        simp [dropStart?, ih]
      · simp [dropStart?, h, Ne.symm h]

/-- Whether a text begins with another. -/
def startsWith (start cs : List Char) : Bool := (dropStart? start cs).isSome

/-- Whether a text ends with another. -/
def endsWith (ending cs : List Char) : Bool := startsWith ending.reverse cs.reverse

end ModuleLoader.Text
