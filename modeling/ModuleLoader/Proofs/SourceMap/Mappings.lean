import ModuleLoader.Proofs.SourceMap.Numbers
import ModuleLoader.SourceMap.Basic

/-! # Mappings read back

A map that is written line by line leads each line to the position that was given for it, and no
other line anywhere.
-/

namespace ModuleLoader.SourceMap

open Text

/-! ## One line -/

/-- The place of a position in the only source of a map. -/
def placeOf (p : Position) : Place := ⟨0, p.line - 1, p.column - 1⟩

/-- Whether a number is small enough for its difference to another one to be written. -/
def Small (n : ℤ) : Prop := 0 ≤ n ∧ n < 2 ^ 62

/-- Whether the differences between a place and others can be written. -/
structure Place.Writable (place : Place) : Prop where
  line : Small place.line
  column : Small place.column

theorem word_of_small {a : ℤ} (ha : Small a) : Vlq.word a = a := by
  obtain ⟨hl, hu⟩ := ha
  exact Vlq.word_eq (by omega) (by omega)

theorem word_sub {a b : ℤ} (ha : Small a) (hb : Small b) : Vlq.word (a - b) = a - b := by
  obtain ⟨hal, hau⟩ := ha
  obtain ⟨hbl, hbu⟩ := hb
  exact Vlq.word_eq (by omega) (by omega)

theorem natAbs_sub_lt {a b : ℤ} (ha : Small a) (hb : Small b) : (a - b).natAbs < 2 ^ 62 := by
  obtain ⟨hal, hau⟩ := ha
  obtain ⟨hbl, hbu⟩ := hb
  omega

/-- The letters that lead from one place to another. -/
def segmentOf (here next : Place) : List Char :=
  Vlq.encode 0 ++ Vlq.encode 0 ++ Vlq.encode (next.line - here.line) ++
    Vlq.encode (next.column - here.column)

theorem notMem_segmentOf {c : Char} (h : Vlq.value? c = none) (here next : Place) :
    c ∉ segmentOf here next := by
  simp [segmentOf, Vlq.notMem_encode h]

theorem segmentOf_ne_nil (here next : Place) : segmentOf here next ≠ [] := by
  simp [segmentOf, Vlq.encode_ne_nil]

theorem decode?_segmentOf {here next : Place} (hh : here.Writable) (hn : next.Writable) :
    Vlq.decode? 0 0 (segmentOf here next) =
      some [0, 0, next.line - here.line, next.column - here.column] := by
  rw [segmentOf, List.append_assoc, List.append_assoc, Vlq.decode?_encode (by decide),
    Vlq.decode?_encode (by decide), Vlq.decode?_encode (natAbs_sub_lt hn.line hh.line),
    ← List.append_nil (Vlq.encode (next.column - _)),
    Vlq.decode?_encode (natAbs_sub_lt hn.column hh.column)]
  rfl

theorem decodeLine?_segmentOf {here next : Place} (hh : here.Writable) (hn : next.Writable)
    (hs : here.source = 0) (hs' : next.source = 0) :
    decodeLine? here ((segments ',' (segmentOf here next)).filter (· ≠ [])) =
      some ([some next], next) := by
  have hone : (segments ',' (segmentOf here next)).filter (· ≠ []) = [segmentOf here next] := by
    rw [segments_of_not_mem (notMem_segmentOf (by decide) here next)]
    simp [segmentOf_ne_nil]
  have hplace : (⟨Vlq.word (here.source + 0), Vlq.word (here.line + (next.line - here.line)),
      Vlq.word (here.column + (next.column - here.column))⟩ : Place) = next := by
    rw [add_sub_cancel, add_sub_cancel, word_of_small hn.line, word_of_small hn.column, hs]
    exact congrArg (Place.mk · next.line next.column) hs'.symm
  rw [hone, decodeLine?, decode?_segmentOf hh hn, Option.bind_some]
  simp only [hplace, decodeLine?, Option.map_some]

/-! ## All lines -/

theorem mappingsFrom_cons {here : Place} (hh : here.Writable) {p : Position}
    (hp : (placeOf p).Writable) (lines : List (Option Position)) :
    mappingsFrom here.line here.column (some p :: lines) =
      segmentOf here (placeOf p) ::
        mappingsFrom (placeOf p).line (placeOf p).column lines := by
  have hl : Vlq.word ((p.line : ℤ) - 1) = (placeOf p).line := word_of_small hp.line
  have hc : Vlq.word ((p.column : ℤ) - 1) = (placeOf p).column := word_of_small hp.column
  simp only [mappingsFrom, hl, hc, word_sub hp.line hh.line, word_sub hp.column hh.column,
    segmentOf]

theorem length_mappingsFrom (line column : ℤ) (lines : List (Option Position)) :
    (mappingsFrom line column lines).length = lines.length := by
  induction lines generalizing line column with
  | nil => rfl
  | cons p lines ih => cases p <;> simp [mappingsFrom, ih]

/-- No separator of lines is written inside a line. -/
theorem notMem_mappingsFrom (line column : ℤ) (lines : List (Option Position)) :
    ∀ l ∈ mappingsFrom line column lines, ';' ∉ l := by
  have hmark : Vlq.value? ';' = none := by decide
  induction lines generalizing line column with
  | nil => simp [mappingsFrom]
  | cons p lines ih =>
    cases p with
    | none => simpa [mappingsFrom] using ih line column
    | some p =>
      rw [mappingsFrom]
      refine List.forall_mem_cons.2 ⟨?_, ih _ _⟩
      simp [Vlq.notMem_encode hmark]

theorem length_decodeLines? {here : Place} {ls : List (List Char)}
    {r : List (List (Option Place))} (h : decodeLines? here ls = some r) :
    r.length = ls.length := by
  induction ls generalizing here r with
  | nil =>
    cases h
    rfl
  | cons l ls ih =>
    rw [decodeLines?, Option.bind_eq_some_iff] at h
    obtain ⟨s, -, h⟩ := h
    obtain ⟨t, ht, rfl⟩ := Option.map_eq_some_iff.1 h
    simp [ih ht]

theorem decodeLine?_empty (here : Place) :
    decodeLine? here ((segments ',' []).filter (· ≠ [])) = some ([], here) := rfl

/-- What is written for positions is read as their places, and unmapped lines as lines without
segments. -/
theorem decodeLines?_mappingsFrom {here : Place} (hh : here.Writable) (hs : here.source = 0)
    {lines : List (Option Position)} (hp : ∀ p, some p ∈ lines → (placeOf p).Writable) :
    decodeLines? here (mappingsFrom here.line here.column lines) =
      some (lines.map fun p => (p.map fun p => some (placeOf p)).toList) := by
  induction lines generalizing here with
  | nil => rfl
  | cons p lines ih =>
    have hrest : ∀ q, some q ∈ lines → (placeOf q).Writable :=
      fun q hq => hp q (List.mem_cons_of_mem p hq)
    cases p with
    | none =>
      rw [mappingsFrom, decodeLines?, decodeLine?_empty, Option.bind_some, ih hh hs hrest]
      rfl
    | some p =>
      have hw := hp p List.mem_cons_self
      rw [mappingsFrom_cons hh hw, decodeLines?, decodeLine?_segmentOf hh hw hs rfl,
        Option.bind_some, ih hw rfl hrest]
      rfl

/-! ## Origins -/

/-- The origin of a line comes from the first segment of the line. -/
theorem originOf?_of_decode? {m : SourceMap} {lines : List (List (Option Place))}
    (h : decode? m.mappings = some lines) (n : ℕ) :
    m.originOf? (n + 1) = (lines[n]?.bind List.head?).join.bind fun place =>
      m.sources[unsigned place.source]?.map fun source =>
        ⟨source, (unsigned place.line + 1) % Vlq.wordCount,
          (unsigned place.column + 1) % Vlq.wordCount⟩ := by
  rw [originOf?, h]
  simp only [Option.bind_eq_bind, Option.bind_some, Nat.add_one_ne_zero, if_false,
    Nat.add_sub_cancel, Option.pure_def, ← Option.bind_id_eq_join, Option.bind_assoc, id_eq,
    Option.map_eq_bind]
  rfl

theorem decode?_ofLines (file source content : String) {lines : List (Option Position)}
    (hne : lines ≠ []) : decode? (ofLines file source content lines).mappings =
      decodeLines? ⟨0, 0, 0⟩ (mappingsFrom 0 0 lines) := by
  have hne' : mappingsFrom 0 0 lines ≠ [] := by
    rw [← List.length_pos_iff, length_mappingsFrom]
    exact List.length_pos_iff.2 hne
  rw [decode?, ofLines, String.toList_ofList, segments_joined hne' (notMem_mappingsFrom 0 0 lines)]

theorem unsigned_add_one {n : ℕ} (h : Small ((n : ℤ) - 1)) :
    (unsigned ((n : ℤ) - 1) + 1) % Vlq.wordCount = n := by
  obtain ⟨hl, hu⟩ := h
  have hw : (Vlq.wordCount : ℤ) = 2 ^ 64 := rfl
  have hw' : Vlq.wordCount = 2 ^ 64 := rfl
  rw [unsigned, Int.emod_eq_of_lt hl (by omega), Nat.mod_eq_of_lt (by omega)]
  omega

/-- Lines that were not written are led nowhere. -/
theorem originOf?_ofLines_eq_none (file source content : String) {lines : List (Option Position)}
    {n : ℕ} (hn : n = 0 ∨ lines.length < n) :
    (ofLines file source content lines).originOf? n = none := by
  cases hd : decode? (ofLines file source content lines).mappings with
  | none => rw [originOf?, hd]; rfl
  | some decoded =>
    rcases hn with rfl | hn
    · rw [originOf?, hd]
      rfl
    · obtain ⟨k, rfl⟩ := Nat.exists_eq_succ_of_ne_zero (Nat.ne_zero_of_lt hn)
      have hhead : decoded[k]?.bind List.head? = none := by
        by_cases hne : lines = []
        · subst hne
          obtain rfl : [[]] = decoded := Option.some.inj hd
          cases k <;> rfl
        · rw [decode?_ofLines file source content hne] at hd
          have hlen := length_decodeLines? hd
          rw [length_mappingsFrom] at hlen
          rw [List.getElem?_eq_none (by omega), Option.bind_none]
      rw [originOf?_of_decode? hd, hhead]
      rfl

/-- Each line is led to the position that was given for it, if one was given. -/
theorem originOf?_ofLines_add_one (file source content : String) {lines : List (Option Position)}
    (hp : ∀ p, some p ∈ lines → (placeOf p).Writable) (n : ℕ) :
    (ofLines file source content lines).originOf? (n + 1) =
      lines[n]?.join.map fun p => ⟨source, p.line, p.column⟩ := by
  by_cases hlength : lines.length ≤ n
  · rw [originOf?_ofLines_eq_none file source content (.inr (by omega)),
      List.getElem?_eq_none hlength]
    rfl
  · have hne : lines ≠ [] := by
      rintro rfl
      exact hlength (Nat.zero_le n)
    have hstart : (⟨0, 0, 0⟩ : Place).Writable := ⟨⟨le_rfl, by decide⟩, le_rfl, by decide⟩
    have hdecode := (decode?_ofLines file source content hne).trans
      (decodeLines?_mappingsFrom hstart rfl hp)
    have hn : lines[n]? = some lines[n] := List.getElem?_eq_getElem (by omega)
    rw [originOf?_of_decode? hdecode, List.getElem?_map, hn, Option.map_some, Option.bind_some]
    cases hline : lines[n] with
    | none => rfl
    | some p =>
      have hw := hp p (hline ▸ List.getElem_mem (by omega))
      show some (Origin.mk source ((unsigned ((p.line : ℤ) - 1) + 1) % Vlq.wordCount)
        ((unsigned ((p.column : ℤ) - 1) + 1) % Vlq.wordCount)) = _
      rw [unsigned_add_one hw.line, unsigned_add_one hw.column]
      rfl

/-- Where all lines have positions, each is led to its own. -/
theorem originOf?_ofLines (file source content : String) {ps : List Position}
    (hp : ∀ p ∈ ps, (placeOf p).Writable) {n : ℕ} {p : Position} (hn : ps[n]? = some p) :
    (ofLines file source content (ps.map some)).originOf? (n + 1) =
      some ⟨source, p.line, p.column⟩ := by
  have hsome : ∀ q, some q ∈ ps.map some → (placeOf q).Writable :=
    fun q hq => hp q (by simpa using hq)
  rw [originOf?_ofLines_add_one file source content hsome, List.getElem?_map, hn]
  rfl

theorem contentOf?_ofLines (file source content : String) (lines : List (Option Position)) :
    (ofLines file source content lines).contentOf? source = some content := by
  simp [contentOf?, ofLines]

end ModuleLoader.SourceMap
