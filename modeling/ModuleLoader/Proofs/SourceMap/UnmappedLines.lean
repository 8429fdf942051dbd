import ModuleLoader.Proofs.SourceMap.Mappings

/-! # Maps with unmapped lines

The writing of a number is a loop over the rest of a word. It ends for the numbers of a map, however
the positions are ordered and wherever lines without a position stand between them, and the map that
is written leads each line to the position that it was given, and the other lines nowhere.
-/

namespace ModuleLoader

namespace Vlq

/-- The word that holds the double of a number, and in its lowest bit the sign. -/
def doubled (v : ℤ) : ℤ := if v < 0 then word (2 * -v) + 1 else word (2 * v)

/-- The loop over a word writes letters and ends. In each round it writes the lowest five bits and
shifts them out, and it goes on unless nothing is left. What is left of a word below zero stays below
zero, so for such a word there are no letters. -/
inductive Written : ℤ → List Char → Prop
  | last {w : ℤ} (h : w / 32 = 0) : Written w [letter (w % 32).toNat]
  | more {w : ℤ} {cs : List Char} (h : w / 32 ≠ 0) (rest : Written (w / 32) cs) :
      Written w (letter ((w % 32).toNat + if 0 < w / 32 then 32 else 0) :: cs)

theorem written_digits (n : ℕ) : Written n (digits n) := by
  fun_induction digits n with
  | case1 n hn =>
    have hlast : letter n = letter ((n : ℤ) % 32).toNat := by
      rw [Int.emod_eq_of_lt (by omega) (by omega), Int.toNat_natCast]
    rw [hlast]
    exact .last (by omega)
  | case2 n hn ih =>
    have hpos : (0 : ℤ) < n / 32 := by omega
    have hletter : letter (n % 32 + 32) =
        letter (((n : ℤ) % 32).toNat + if (0 : ℤ) < n / 32 then 32 else 0) := by
      rw [if_pos hpos]
      exact congrArg letter (by omega)
    rw [hletter]
    exact .more hpos.ne' ih

/-- The loop ends for the words from zero on, with the digits of the word. -/
theorem written_iff {w : ℤ} {cs : List Char} : Written w cs ↔ 0 ≤ w ∧ cs = digits w.toNat := by
  constructor
  · intro h
    induction h with
    | @last w h =>
      refine ⟨by omega, ?_⟩
      rw [digits, if_pos (by omega), Int.emod_eq_of_lt (by omega) (by omega)]
    | @more w cs h rest ih =>
      obtain ⟨hnonneg, rfl⟩ := ih
      refine ⟨by omega, ?_⟩
      have hlow : (w % 32).toNat = w.toNat % 32 := by omega
      have hhigh : (w / 32).toNat = w.toNat / 32 := by omega
      have hmore : ¬ w.toNat < 32 := by omega
      rw [if_pos (by omega), hlow, hhigh, digits.eq_def w.toNat, if_neg hmore]
  · rintro ⟨hnonneg, rfl⟩
    obtain ⟨n, rfl⟩ := Int.eq_ofNat_of_zero_le hnonneg
    exact written_digits n

theorem encode_eq_digits {v : ℤ} (h : v.natAbs < 2 ^ 62) :
    0 ≤ doubled v ∧ encode v = digits (doubled v).toNat := by
  have hcount : wordCount = 2 ^ 64 := rfl
  have hdouble : 2 * v.natAbs % wordCount = 2 * v.natAbs := Nat.mod_eq_of_lt (by omega)
  rw [encode, doubled]
  simp only [hdouble]
  split
  · rw [word_eq (by omega) (by omega)]
    exact ⟨by omega, congrArg digits (by omega)⟩
  · rw [word_eq (by omega) (by omega)]
    exact ⟨by omega, congrArg digits (by omega)⟩

/-- For the numbers of a map the loop ends with the letters of the number. -/
theorem written_doubled_iff {v : ℤ} (h : v.natAbs < 2 ^ 62) {cs : List Char} :
    Written (doubled v) cs ↔ cs = encode v := by
  obtain ⟨hnonneg, hdigits⟩ := encode_eq_digits h
  rw [written_iff, hdigits, and_iff_right hnonneg]

end Vlq

namespace SourceMap

open Vlq

variable {line column : ℤ} {lines : List (Option Position)} {rows : List (List Char)}

/-- The writing of lines ends with rows of letters, from a place before with lines and columns from
zero. A position is written as four numbers, and an unmapped line as none. -/
inductive Writes : ℤ → ℤ → List (Option Position) → List (List Char) → Prop
  | nil {line column : ℤ} : Writes line column [] []
  | unmapped {line column : ℤ} {lines : List (Option Position)} {rows : List (List Char)}
      (rest : Writes line column lines rows) : Writes line column (none :: lines) ([] :: rows)
  | mapped {line column : ℤ} {p : Position} {lines : List (Option Position)}
      {generated source down across : List Char} {rows : List (List Char)}
      (hgenerated : Written (doubled 0) generated) (hsource : Written (doubled 0) source)
      (hdown : Written (doubled (word (word (p.line - 1) - line))) down)
      (hacross : Written (doubled (word (word (p.column - 1) - column))) across)
      (rest : Writes (word (p.line - 1)) (word (p.column - 1)) lines rows) :
      Writes line column (some p :: lines) ((generated ++ source ++ down ++ across) :: rows)

theorem writes_cons_none_iff :
    Writes line column (none :: lines) rows ↔ ∃ rest, rows = [] :: rest ∧
      Writes line column lines rest := by
  constructor
  · rintro (_ | ⟨rest⟩ | _)
    exact ⟨_, rfl, rest⟩
  · rintro ⟨rest, rfl, h⟩
    exact .unmapped h

theorem writes_cons_some_iff {here : Place} (hh : here.Writable) {p : Position}
    (hp : (placeOf p).Writable) :
    Writes here.line here.column (some p :: lines) rows ↔
      ∃ rest, rows = segmentOf here (placeOf p) :: rest ∧
        Writes (placeOf p).line (placeOf p).column lines rest := by
  have hline : word ((p.line : ℤ) - 1) = (placeOf p).line := word_of_small hp.line
  have hcolumn : word ((p.column : ℤ) - 1) = (placeOf p).column := word_of_small hp.column
  have hzero {cs : List Char} : Written (doubled 0) cs ↔ cs = encode 0 :=
    written_doubled_iff (by decide)
  have hdown {cs : List Char} :
      Written (doubled (word (word ((p.line : ℤ) - 1) - here.line))) cs ↔
        cs = encode ((placeOf p).line - here.line) := by
    rw [hline, word_sub hp.line hh.line, written_doubled_iff (natAbs_sub_lt hp.line hh.line)]
  have hacross {cs : List Char} :
      Written (doubled (word (word ((p.column : ℤ) - 1) - here.column))) cs ↔
        cs = encode ((placeOf p).column - here.column) := by
    rw [hcolumn, word_sub hp.column hh.column,
      written_doubled_iff (natAbs_sub_lt hp.column hh.column)]
  constructor
  · rintro (_ | _ | ⟨hg, hs, hd, ha, rest⟩)
    rw [hzero.1 hg, hzero.1 hs, hdown.1 hd, hacross.1 ha]
    rw [hline, hcolumn] at rest
    exact ⟨_, rfl, rest⟩
  · rintro ⟨rest, rfl, h⟩
    rw [← hline, ← hcolumn] at h
    exact .mapped (hzero.2 rfl) (hzero.2 rfl) (hdown.2 rfl) (hacross.2 rfl) h

/-- The writing of lines ends, and with these rows only. -/
theorem writes_iff {here : Place} (hh : here.Writable)
    (hp : ∀ p, some p ∈ lines → (placeOf p).Writable) :
    Writes here.line here.column lines rows ↔
      rows = mappingsFrom here.line here.column lines := by
  induction lines generalizing here rows with
  | nil =>
    constructor
    · rintro ⟨⟩
      rfl
    · rintro rfl
      exact .nil
  | cons p lines ih =>
    have hrest : ∀ q, some q ∈ lines → (placeOf q).Writable :=
      fun q hq => hp q (List.mem_cons_of_mem p hq)
    cases p with
    | none => simp only [writes_cons_none_iff, ih hh hrest, mappingsFrom, exists_eq_right]
    | some p =>
      have hw := hp p List.mem_cons_self
      simp only [writes_cons_some_iff hh hw, ih hw hrest, mappingsFrom_cons hh hw, exists_eq_right]

theorem writable_placeOf {p : Position} (hline : 1 ≤ p.line ∧ p.line < 2 ^ 62)
    (hcolumn : 1 ≤ p.column ∧ p.column < 2 ^ 62) : (placeOf p).Writable := by
  obtain ⟨hl, hl'⟩ := hline
  obtain ⟨hc, hc'⟩ := hcolumn
  have hsmall {n : ℕ} (h : 1 ≤ n) (h' : n < 2 ^ 62) : Small ((n : ℤ) - 1) :=
    ⟨by omega, by omega⟩
  exact ⟨hsmall hl hl', hsmall hc hc'⟩

/-- The writing of a map ends with one row for each line. The map leads each line to the position that
it was given, and leads a line nowhere if it was given none or if there is no such line. -/
theorem ofLines_leads_back (file source content : String)
    (hp : ∀ p, some p ∈ lines → (1 ≤ p.line ∧ p.line < 2 ^ 62) ∧ 1 ≤ p.column ∧ p.column < 2 ^ 62) :
    (∃ rows, (∀ other, Writes 0 0 lines other ↔ other = rows) ∧ rows.length = lines.length ∧
      (ofLines file source content lines).mappings = String.ofList (Text.joined ';' rows)) ∧
    ∀ i, (ofLines file source content lines).originOf? i =
      if i = 0 then none
      else lines[i - 1]?.join.map fun p => ⟨source, p.line, p.column⟩ := by
  have hw : ∀ p, some p ∈ lines → (placeOf p).Writable :=
    fun p hmem => writable_placeOf (hp p hmem).1 (hp p hmem).2
  have hstart : (⟨0, 0, 0⟩ : Place).Writable := ⟨⟨le_rfl, by decide⟩, le_rfl, by decide⟩
  refine ⟨⟨mappingsFrom 0 0 lines, fun other => writes_iff hstart hw, length_mappingsFrom .., rfl⟩,
    fun i => ?_⟩
  cases i with
  | zero => rw [if_pos rfl, originOf?_ofLines_eq_none file source content (.inl rfl)]
  | succ n =>
    rw [if_neg (Nat.succ_ne_zero n), originOf?_ofLines_add_one file source content hw,
      Nat.add_sub_cancel]

/-- Positions far apart and backwards, with unmapped lines in front, between them and behind. -/
def scattered : List (Option Position) :=
  [none, some ⟨7, 2 ^ 61⟩, none, some ⟨1, 1⟩, some ⟨2 ^ 62 - 1, 5⟩, none]

theorem ofLines_leads_back_scattered :
    (ofLines "out" "in" "" scattered).originOf? 0 = none ∧
      (ofLines "out" "in" "" scattered).originOf? 1 = none ∧
      (ofLines "out" "in" "" scattered).originOf? 2 = some ⟨"in", 7, 2 ^ 61⟩ ∧
      (ofLines "out" "in" "" scattered).originOf? 3 = none ∧
      (ofLines "out" "in" "" scattered).originOf? 4 = some ⟨"in", 1, 1⟩ ∧
      (ofLines "out" "in" "" scattered).originOf? 5 = some ⟨"in", 2 ^ 62 - 1, 5⟩ ∧
      (ofLines "out" "in" "" scattered).originOf? 6 = none ∧
      (ofLines "out" "in" "" scattered).originOf? 7 = none := by
  have hsmall : ∀ p, some p ∈ scattered →
      (1 ≤ p.line ∧ p.line < 2 ^ 62) ∧ 1 ≤ p.column ∧ p.column < 2 ^ 62 := by
    simp [scattered]
  have h := (ofLines_leads_back "out" "in" "" hsmall).2
  exact ⟨h 0, h 1, h 2, h 3, h 4, h 5, h 6, h 7⟩

end SourceMap

end ModuleLoader
