import ModuleLoader.Dialect.Printer
import ModuleLoader.Dialect.Lexer
import ModuleLoader.Proofs.Decimal.Numerals

/-! # Lexemes

What the tokens of a text are does not depend on where they stand. Each kind of lexeme that the
canonical text is made of is read as one token, provided that the text behind it does not go on
with the lexeme.
-/

namespace ModuleLoader.Dialect

open Text

/-! ## Characters -/

/-- The code points of the blanks. -/
def blankCodes : List Nat :=
  List.range' 9 5 ++ [32, 0x85, 0xA0, 0x1680] ++ List.range' 0x2000 11 ++
    [0x2028, 0x2029, 0x202F, 0x205F, 0x3000]

theorem forall_blank (p : Char → Bool) (h : blankCodes.all fun n => p (Char.ofNat n)) {c : Char}
    (hc : isBlank c = true) : p c = true := by
  have hmem : c.toNat ∈ blankCodes := by
    simp only [isBlank, Bool.or_eq_true, Bool.and_eq_true, decide_eq_true_eq, beq_iff_eq] at hc
    simp only [blankCodes, List.mem_append, List.mem_range'_1, List.mem_cons, List.not_mem_nil,
      or_false]
    omega
  have := List.all_eq_true.1 h _ hmem
  rwa [Char.ofNat_toNat] at this

theorem forall_digit (p : Char → Bool) (h : (List.range' 48 10).all fun n => p (Char.ofNat n))
    {c : Char} (hc : c.isDigit = true) : p c = true := by
  have hmem : c.toNat ∈ List.range' 48 10 := by
    simp only [Char.isDigit, Bool.and_eq_true, decide_eq_true_eq, UInt32.le_iff_toNat_le] at hc
    exact List.mem_range'_1.2 ⟨hc.1, Nat.lt_succ_of_le hc.2⟩
  have := List.all_eq_true.1 h _ hmem
  rwa [Char.ofNat_toNat] at this

theorem isBlank_startsName {c : Char} (h : startsName c = true) : isBlank c = false := by
  refine Bool.eq_false_iff.2 fun hb => ?_
  have hn := forall_blank (fun c => !startsName c) (by decide +kernel) hb
  simp [h] at hn

theorem isDigit_startsName {c : Char} (h : startsName c = true) : c.isDigit = false := by
  refine Bool.eq_false_iff.2 fun hd => ?_
  have hn := forall_digit (fun c => !startsName c) (by decide +kernel) hd
  simp [h] at hn

theorem continuesName_digit {c : Char} (h : c.isDigit = true) : continuesName c = true :=
  forall_digit continuesName (by decide +kernel) h

theorem ne_of_startsName {c d : Char} (h : startsName c = true) (hd : startsName d = false) :
    c ≠ d := by
  rintro rfl
  simp [h] at hd

theorem simpleMark_startsName {c : Char} (h : startsName c = true) : simpleMark? c = none := by
  rw [simpleMark?]
  repeat rw [if_neg (ne_of_startsName h (by decide))]

theorem isBlank_simpleMark {c : Char} {m : Mark} (h : simpleMark? c = some m) :
    isBlank c = false := by
  refine Bool.eq_false_iff.2 fun hb => ?_
  have hn := forall_blank (fun c => (simpleMark? c).isNone) (by decide) hb
  simp [h] at hn

/-! ## Gaps -/

theorem skipGap_nil : skipGap [] = [] := by rw [skipGap.eq_def]

theorem skipGap_blank {c : Char} (h : isBlank c = true) (rest : List Char) :
    skipGap (c :: rest) = skipGap rest := by
  rw [skipGap.eq_def]
  exact if_pos h

theorem skipGap_solid {c : Char} (hb : isBlank c = false) (hs : c ≠ '/') (rest : List Char) :
    skipGap (c :: rest) = c :: rest := by
  rw [skipGap.eq_def]
  simp only [hb, hs, Bool.false_eq_true, if_false]

theorem skipGap_slash {c : Char} (hs : c ≠ '/') (ht : c ≠ '*') (rest : List Char) :
    skipGap ('/' :: c :: rest) = '/' :: c :: rest := by
  have hb : isBlank '/' = false := by decide
  rw [skipGap.eq_def]
  simp only [hb, Bool.false_eq_true, if_false, if_true]
  split <;> simp_all

/-! ## Rows of tokens -/

theorem tokensOf_end {cs : List Char} (h : skipGap cs = []) (size : ℕ) : tokensOf size cs = [] := by
  rw [tokensOf]
  split
  · rfl
  · simp_all

theorem tokensOf_step {cs : List Char} {c : Char} {rest : List Char} (h : skipGap cs = c :: rest)
    (size : ℕ) : tokensOf size cs =
      ⟨(lexeme c rest).1, size - byteLength (c :: rest), size - byteLength (lexeme c rest).2⟩ ::
        tokensOf size (lexeme c rest).2 := by
  conv_lhs => rw [tokensOf]
  split
  · simp_all
  · rename_i c' rest' h'
    obtain ⟨rfl, rfl⟩ : c = c' ∧ rest = rest' := by simpa using h.symm.trans h'
    rfl

/-- What the tokens of a text are. -/
def kinds (cs : List Char) : List TokenKind := (tokens cs).map (·.kind)

theorem map_kind_tokensOf (size : ℕ) (cs : List Char) :
    (tokensOf size cs).map (·.kind) = kinds cs := by
  rw [kinds, tokens]
  generalize byteLength cs = size'
  fun_induction tokensOf size cs with
  | case1 cs h => rw [tokensOf_end h]
  | case2 cs c rest h ih => rw [tokensOf_step h, List.map_cons, List.map_cons, ih]

theorem kinds_end {cs : List Char} (h : skipGap cs = []) : kinds cs = [] := by
  rw [kinds, tokens, tokensOf_end h, List.map_nil]

theorem kinds_step {cs : List Char} {c : Char} {rest : List Char} (h : skipGap cs = c :: rest) :
    kinds cs = (lexeme c rest).1 :: kinds (lexeme c rest).2 := by
  rw [kinds, tokens, tokensOf_step h, List.map_cons, map_kind_tokensOf]

@[simp] theorem kinds_nil : kinds [] = [] := kinds_end skipGap_nil

theorem kinds_blank {c : Char} (h : isBlank c = true) (rest : List Char) :
    kinds (c :: rest) = kinds rest := by
  have hgap := skipGap_blank h rest
  cases hr : skipGap rest with
  | nil => rw [kinds_end hr, kinds_end (hgap.trans hr)]
  | cons d ds => rw [kinds_step hr, kinds_step (hgap.trans hr)]

@[simp] theorem kinds_space (rest : List Char) : kinds (' ' :: rest) = kinds rest :=
  kinds_blank (by decide) rest

@[simp] theorem kinds_newline (rest : List Char) : kinds ('\n' :: rest) = kinds rest :=
  kinds_blank (by decide) rest

/-- A character that begins neither a gap nor a comment begins a token. -/
theorem kinds_lexeme {c : Char} (hb : isBlank c = false) (hs : c ≠ '/') (rest : List Char) :
    kinds (c :: rest) = (lexeme c rest).1 :: kinds (lexeme c rest).2 :=
  kinds_step (skipGap_solid hb hs rest)

/-! ## Marks -/

theorem kinds_mark (c : Char) {m : Mark} (h : simpleMark? c = some m) (hs : c ≠ '/')
    (rest : List Char) : kinds (c :: rest) = .mark m :: kinds rest := by
  rw [kinds_lexeme (isBlank_simpleMark h) hs]
  simp only [lexeme, h]

theorem kinds_dot {rest : List Char} (h : startsWithDigit rest = false) :
    kinds ('.' :: rest) = .mark .dot :: kinds rest := by
  rw [kinds_lexeme (by decide) (by decide)]
  simp [lexeme, simpleMark?, h]

theorem kinds_plusPlus (rest : List Char) :
    kinds ('+' :: '+' :: rest) = .mark .plusPlus :: kinds rest :=
  kinds_lexeme (by decide) (by decide) _

theorem kinds_plusEqual (rest : List Char) :
    kinds ('+' :: '=' :: rest) = .mark .plusEqual :: kinds rest :=
  kinds_lexeme (by decide) (by decide) _

/-- The mark of an operator. -/
def BinaryOp.mark : BinaryOp → Mark
  | add => .plus
  | sub => .minus
  | mul => .star
  | div => .slash

/-- An operator is read as its mark: the blank behind it keeps it from being more. -/
theorem kinds_sign (op : BinaryOp) (rest : List Char) :
    kinds (op.sign :: ' ' :: rest) = .mark op.mark :: kinds rest := by
  have hgap : skipGap (op.sign :: ' ' :: rest) = op.sign :: ' ' :: rest := by
    cases op with
    | div => exact skipGap_slash (by decide) (by decide) rest
    | _ => exact skipGap_solid (by decide) (by decide) _
  rw [kinds_step hgap, ← kinds_space rest]
  cases op <;> rfl

/-! ## Strings -/

theorem stringBody_escape (c : Char) (rest : List Char) :
    stringBody '"' (escape c ++ rest) =
      ((stringBody '"' rest).1.map (c :: ·), (stringBody '"' rest).2) := by
  rw [escape]
  repeat' split
  all_goals
    simp only [List.cons_append, List.nil_append]
    rw [stringBody.eq_def]
  all_goals first | (subst c; simp [unescape]) | simp [*]

theorem stringBody_quoted (cs rest : List Char) :
    stringBody '"' (cs.flatMap escape ++ '"' :: rest) = (some cs, rest) := by
  induction cs with
  | nil =>
    rw [List.flatMap_nil, List.nil_append, stringBody.eq_def]
    simp
  | cons c cs ih =>
    rw [List.flatMap_cons, List.append_assoc, stringBody_escape, ih, Option.map_some]

theorem kinds_quoted (s : String) (rest : List Char) :
    kinds (quoted s ++ rest) = .string s :: kinds rest := by
  have h := stringBody_quoted s.toList rest
  rw [quoted, List.cons_append, List.append_assoc, List.singleton_append,
    kinds_lexeme (by decide) (by decide)]
  simp [lexeme, simpleMark?, h]

/-! ## What ends words and numerals -/

/-- A text that goes on with no word or numeral before it. -/
structure Breaks (rest : List Char) : Prop where
  stops : ∀ c ∈ rest.head?, continuesName c = false
  point : ∀ r, rest = '.' :: r → startsWithDigit r = false

theorem breaks_nil : Breaks [] := ⟨by simp, by simp⟩

theorem breaks_cons {c : Char} (h : continuesName c = false) (hp : c ≠ '.') (rest : List Char) :
    Breaks (c :: rest) := ⟨by simpa using h, by simp [hp]⟩

theorem breaks_dot {rest : List Char} (h : startsWithDigit rest = false) : Breaks ('.' :: rest) :=
  ⟨by simpa using (by decide : continuesName '.' = false), by simpa using h⟩

theorem startsWithDigit_of_breaks {rest : List Char} (h : Breaks rest) :
    startsWithDigit rest = false := by
  cases rest with
  | nil => rfl
  | cons c r =>
    refine Bool.eq_false_iff.2 fun hd => ?_
    have hn := h.stops c rfl
    rw [continuesName_digit hd] at hn
    cases hn

/-! ## Words -/

/-- A row of characters that makes a word. -/
def IsWord (cs : List Char) : Prop :=
  ∃ c rest, cs = c :: rest ∧ startsName c = true ∧ ∀ d ∈ rest, continuesName d = true

theorem isWord_of_all {cs rest : List Char} {c : Char} (h : cs = c :: rest)
    (hc : startsName c = true) (hr : rest.all continuesName = true) : IsWord cs :=
  ⟨c, rest, h, hc, List.all_eq_true.1 hr⟩

theorem lexeme_startsName {c : Char} (h : startsName c = true) (rest : List Char) :
    lexeme c rest =
      (wordKind (c :: rest.takeWhile continuesName), rest.dropWhile continuesName) := by
  have hq : ¬ (c = '"' || c = '\'') = true := by
    simp [ne_of_startsName h (show startsName '"' = false by decide),
      ne_of_startsName h (show startsName '\'' = false by decide)]
  unfold lexeme
  simp only [simpleMark_startsName h]
  rw [if_neg (ne_of_startsName h (by decide)), if_neg (ne_of_startsName h (by decide)), if_neg hq,
    if_neg (by simp [isDigit_startsName h]), if_pos h]

theorem kinds_startsName {c : Char} (h : startsName c = true) (rest : List Char) :
    kinds (c :: rest) = wordKind (c :: rest.takeWhile continuesName) ::
      kinds (rest.dropWhile continuesName) := by
  rw [kinds_lexeme (isBlank_startsName h) (ne_of_startsName h (by decide)), lexeme_startsName h]

/-- A word is read as one token. -/
theorem kinds_word {cs rest : List Char} (h : IsWord cs) (hr : Breaks rest) :
    kinds (cs ++ rest) = wordKind cs :: kinds rest := by
  obtain ⟨c, ds, rfl, hc, hd⟩ := h
  rw [List.cons_append, kinds_startsName hc, takeWhile_append_stop hd hr.stops,
    dropWhile_append_stop hd hr.stops]

/-! ## Numerals -/

theorem numeral_digits (pointSeen : Bool) {ds : List Char} (h : ∀ c ∈ ds, c.isDigit)
    (rest : List Char) : numeral pointSeen (ds ++ rest) =
      (ds ++ (numeral pointSeen rest).1, (numeral pointSeen rest).2) := by
  induction ds with
  | nil => rfl
  | cons c ds ih =>
    rw [List.cons_append, numeral.eq_def]
    simp [h c (by simp), ih fun d hd => h d (by simp [hd])]

theorem numeral_breaks (pointSeen : Bool) {rest : List Char} (h : Breaks rest) :
    numeral pointSeen rest = ([], rest) := by
  cases rest with
  | nil => rfl
  | cons c r =>
    have hd := startsWithDigit_of_breaks h
    rw [numeral.eq_def]
    by_cases hp : c = '.'
    · subst hp
      simp [h.point r rfl]
    · simp only [startsWithDigit] at hd
      simp [hd, hp]

theorem numeral_point {es : List Char} (h : ∀ c ∈ es, c.isDigit) (hne : es ≠ [])
    {rest : List Char} (hr : Breaks rest) :
    numeral false ('.' :: (es ++ rest)) = ('.' :: es, rest) := by
  obtain ⟨c, es, rfl⟩ := List.exists_cons_of_ne_nil hne
  have hc : startsWithDigit (c :: es ++ rest) = true := h c (by simp)
  rw [numeral.eq_def]
  simp only [numeral_digits true h, numeral_breaks true hr, hc]
  simp

theorem lexeme_digit {c : Char} (h : c.isDigit = true) (rest : List Char) :
    lexeme c rest = (.number (Number.ofNumeral (c :: (numeral false rest).1)),
      (numeral false rest).2) := by
  have hplain : ∀ d, d.isDigit = false → c ≠ d := by
    rintro d hd rfl
    exact absurd h (by simp [hd])
  have hm : simpleMark? c = none :=
    Option.isNone_iff_eq_none.1 (forall_digit (fun c => (simpleMark? c).isNone) (by decide) h)
  unfold lexeme
  simp only [hm]
  rw [if_neg (hplain _ (by decide)), if_neg (hplain _ (by decide)), if_neg, if_pos h]
  simp [hplain '"' (by decide), hplain '\'' (by decide)]

/-- A numeral is read as one token. -/
theorem kinds_numeral {cs rest : List Char} (h : IsNumeral cs) (hr : Breaks rest) :
    kinds (cs ++ rest) = .number (Number.ofNumeral cs) :: kinds rest := by
  have hfirst {c : Char} {ds : List Char} (hc : c.isDigit = true)
      (h1 : ds = (numeral false (ds ++ rest)).1) (h2 : (numeral false (ds ++ rest)).2 = rest) :
      kinds (c :: ds ++ rest) = .number (Number.ofNumeral (c :: ds)) :: kinds rest := by
    have hb : isBlank c = false := by
      simpa using forall_digit (fun c => !isBlank c) (by decide) hc
    have hs : c ≠ '/' := by
      rintro rfl
      exact absurd hc (by decide)
    rw [List.cons_append, kinds_lexeme hb hs, lexeme_digit hc, h2, ← h1]
  cases h with
  | @whole ds hd hne =>
    obtain ⟨c, ds, rfl⟩ := List.exists_cons_of_ne_nil hne
    have htail : ∀ d ∈ ds, d.isDigit := fun d hd' => hd d (by simp [hd'])
    apply hfirst (hd c (by simp)) <;> simp [numeral_digits false htail, numeral_breaks false hr]
  | @pointed ds es hd hne he hne' =>
    obtain ⟨c, ds, rfl⟩ := List.exists_cons_of_ne_nil hne
    have htail : ∀ d ∈ ds, d.isDigit := fun d hd' => hd d (by simp [hd'])
    apply hfirst (hd c (by simp)) <;>
      simp [numeral_digits false htail, numeral_point he hne' hr]

end ModuleLoader.Dialect
