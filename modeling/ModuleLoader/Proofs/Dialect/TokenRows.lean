import ModuleLoader.Proofs.Dialect.Lexemes

/-! # Token rows of syntax trees

A well-formed tree has the words and targets that a source text can give it. Its canonical text is
read as the row of tokens that spells the tree itself, except that a literal past all finite
numbers is written as a word, and that a zero loses its sign.
-/

namespace ModuleLoader.Dialect

open Text

/-! ## Identifiers and names -/

/-- Whether a text is scanned as one identifier. -/
def IsIdentifier (s : String) : Prop := kinds s.toList = [.identifier s]

/-- Whether a text is an identifier or a reserved word. -/
def IsName (s : String) : Prop := IsIdentifier s ∨ ∃ k : Keyword, k.word = s

theorem wordKind_eq_identifier {cs : List Char} {s : String} (h : wordKind cs = .identifier s) :
    cs = s.toList ∧ Keyword.ofWord? s = none := by
  rw [wordKind] at h
  split at h
  · cases h
  · rename_i hk
    cases h
    exact ⟨by simp, hk⟩

theorem wordKind_keyword (k : Keyword) : wordKind k.word.toList = .keyword k := by
  rw [wordKind, String.ofList_toList, Keyword.ofWord?_word]

theorem wordKind_identifier {s : String} (h : Keyword.ofWord? s = none) :
    wordKind s.toList = .identifier s := by
  rw [wordKind, String.ofList_toList, h]

/-- A token that is an identifier was scanned from a word that is not reserved. -/
theorem lexeme_eq_identifier {c : Char} {rest : List Char} {s : String}
    (h : (lexeme c rest).1 = .identifier s) :
    startsName c = true ∧ wordKind (c :: rest.takeWhile continuesName) = .identifier s := by
  unfold lexeme at h
  repeat' split at h
  all_goals first | cases h | exact ⟨‹_›, h⟩

theorem isWord_of_wordKind {c : Char} {rest : List Char} {s : String} (hc : startsName c = true)
    (h : wordKind (c :: rest.takeWhile continuesName) = .identifier s) : IsWord s.toList :=
  ⟨c, _, (wordKind_eq_identifier h).1.symm, hc, fun _ => List.mem_takeWhile_imp⟩

/-- The identifiers are the words that are not reserved. -/
theorem isIdentifier_iff {s : String} :
    IsIdentifier s ↔ IsWord s.toList ∧ Keyword.ofWord? s = none := by
  rw [IsIdentifier]
  constructor
  · intro h
    cases hg : skipGap s.toList with
    | nil => simp [kinds_end hg] at h
    | cons c rest =>
      rw [kinds_step hg, List.cons.injEq] at h
      obtain ⟨hc, hw⟩ := lexeme_eq_identifier h.1
      exact ⟨isWord_of_wordKind hc hw, (wordKind_eq_identifier hw).2⟩
  · rintro ⟨hw, hk⟩
    have h := kinds_word hw breaks_nil
    rwa [List.append_nil, wordKind_identifier hk, kinds_nil] at h

theorem isWord_keyword (k : Keyword) : IsWord k.word.toList := by
  cases k <;> exact isWord_of_all rfl (by decide) (by decide)

theorem IsIdentifier.isWord {s : String} (h : IsIdentifier s) : IsWord s.toList :=
  (isIdentifier_iff.1 h).1

theorem IsIdentifier.wordKind {s : String} (h : IsIdentifier s) :
    wordKind s.toList = .identifier s :=
  wordKind_identifier (isIdentifier_iff.1 h).2

/-- How numbers past all finite ones are written. -/
theorem isIdentifier_inf : IsIdentifier "inf" :=
  isIdentifier_iff.2 ⟨isWord_of_all rfl (by decide) (by decide), by decide⟩

theorem IsName.isWord {s : String} (h : IsName s) : IsWord s.toList := by
  rcases h with h | ⟨k, rfl⟩
  · exact h.isWord
  · exact isWord_keyword k

/-! ## Expressions -/

namespace Expression

mutual

/-- Whether an expression can stand in a program: its identifiers and property names are words, its
numbers are not negative, and what it assigns to is a place. -/
def WellFormed : Expression → Prop
  | number x => 0.0 ≤ x
  | string _ | boolean _ | null | self => True
  | identifier name => IsIdentifier name
  | array elements => AllWellFormed elements
  | member object property => object.WellFormed ∧ IsName property
  | index object key => object.WellFormed ∧ key.WellFormed
  | negate operand => operand.WellFormed
  | binary _ left right => left.WellFormed ∧ right.WellFormed
  | assign _ target value => target.isAssignable = true ∧ target.WellFormed ∧ value.WellFormed
  | increment target => target.isAssignable = true ∧ target.WellFormed

/-- Whether several expressions can stand in a program. -/
def AllWellFormed : List Expression → Prop
  | [] => True
  | e :: rest => e.WellFormed ∧ AllWellFormed rest

end

mutual

/-- The number literals of an expression. -/
def numbers : Expression → List Float
  | number x => [x]
  | string _ | boolean _ | null | self | identifier _ => []
  | array elements => allNumbers elements
  | member object _ => object.numbers
  | index object key => object.numbers ++ key.numbers
  | negate operand => operand.numbers
  | binary _ left right => left.numbers ++ right.numbers
  | assign _ target value => target.numbers ++ value.numbers
  | increment target => target.numbers

/-- The number literals of several expressions. -/
def allNumbers : List Expression → List Float
  | [] => []
  | e :: rest => e.numbers ++ allNumbers rest

end

/-- What the text of a number literal is read as. -/
def rereadNumber (x : Float) : Expression :=
  if x.isFinite then .number (if x == 0.0 then 0.0 else x) else .identifier "inf"

mutual

/-- What the text of an expression is read as. -/
def reread : Expression → Expression
  | number x => rereadNumber x
  | string s => .string s
  | boolean b => .boolean b
  | null => .null
  | identifier name => .identifier name
  | self => .self
  | array elements => .array (rereadAll elements)
  | member object property => .member object.reread property
  | index object key => .index object.reread key.reread
  | negate operand => .negate operand.reread
  | binary op left right => .binary op left.reread right.reread
  | assign adding target value => .assign adding target.reread value.reread
  | increment target => .increment target.reread

/-- What the texts of several expressions are read as. -/
def rereadAll : List Expression → List Expression
  | [] => []
  | e :: rest => e.reread :: rereadAll rest

end

/-- Put a row in parentheses if asked to. -/
def enclosedRow (wanted : Bool) (row : List TokenKind) : List TokenKind :=
  if wanted then .mark .leftParen :: (row ++ [.mark .rightParen]) else row

end Expression

/-- The mark of an assignment. -/
def assignMark (adding : Bool) : Mark := if adding then .plusEqual else .equal

/-- Rows with a comma between each two. -/
def commaRow : List (List TokenKind) → List TokenKind
  | [] => []
  | [r] => r
  | r :: s :: rest => r ++ .mark .comma :: commaRow (s :: rest)

/-- Rows with commas between them, and with one behind the last of them if asked to. -/
def listRow (trailing : Bool) (rows : List (List TokenKind)) : List TokenKind :=
  commaRow rows ++ if trailing && !rows.isEmpty then [.mark .comma] else []

theorem commaRow_cons (r : List TokenKind) {rows : List (List TokenKind)} (h : rows ≠ []) :
    commaRow (r :: rows) = r ++ .mark .comma :: commaRow rows := by
  cases rows with
  | nil => exact absurd rfl h
  | cons s rest => rfl

theorem listRow_false (rows : List (List TokenKind)) : listRow false rows = commaRow rows :=
  List.append_nil _

theorem listRow_cons (trailing : Bool) (r : List TokenKind) {rows : List (List TokenKind)}
    (h : rows ≠ []) :
    listRow trailing (r :: rows) = r ++ .mark .comma :: listRow trailing rows := by
  rw [listRow, listRow, commaRow_cons r h, List.isEmpty_cons, List.isEmpty_eq_false_iff.2 h,
    List.append_assoc, List.cons_append]

namespace Expression

mutual

/-- The tokens that spell an expression. -/
def tokens : Expression → List TokenKind
  | number x => [.number x]
  | string s => [.string s]
  | boolean true => [.keyword .trueWord]
  | boolean false => [.keyword .falseWord]
  | null => [.keyword .nullWord]
  | identifier name => [.identifier name]
  | self => [.keyword .thisWord]
  | array elements => .mark .leftBracket :: (commaRow (tokensAll elements) ++ [.mark .rightBracket])
  | member object property =>
    enclosedRow object.isCompound object.tokens ++ [.mark .dot, wordKind property.toList]
  | index object key =>
    enclosedRow object.isCompound object.tokens ++
      .mark .leftBracket :: (key.tokens ++ [.mark .rightBracket])
  | negate operand => .mark .minus :: enclosedRow operand.isCompound operand.tokens
  | binary op left right =>
    enclosedRow left.isCompound left.tokens ++
      .mark op.mark :: enclosedRow right.isCompound right.tokens
  | assign adding target value => target.tokens ++ .mark (assignMark adding) :: value.tokens
  | increment target => target.tokens ++ [.mark .plusPlus]

/-- The rows of several expressions. -/
def tokensAll : List Expression → List (List TokenKind)
  | [] => []
  | e :: rest => e.tokens :: tokensAll rest

end

theorem isCompound_reread {e : Expression} (h : e.WellFormed) :
    e.reread.isCompound = e.isCompound := by
  cases e with
  | number x =>
    have hx : (number x).isCompound = false := decide_eq_false (Binary64.not_lt_zero h)
    rw [hx, reread, rereadNumber]
    split
    · split
      · decide
      · exact hx
    · rfl
  | _ => rfl

theorem isAssignable_reread {e : Expression} (h : e.isAssignable = true) :
    e.reread.isAssignable = true := by
  cases e with
  | identifier _ => rfl
  | member _ _ => rfl
  | index _ _ => rfl
  | _ => cases h

end Expression

/-! ## Texts and their rows -/

/-- Whether a text is read as a row of tokens wherever the text behind it goes on with no word. -/
def Spells (text : List Char) (row : List TokenKind) : Prop :=
  ∀ rest, Breaks rest → kinds (text ++ rest) = row ++ kinds rest

theorem spells_word {cs : List Char} (h : IsWord cs) : Spells cs [wordKind cs] :=
  fun _ hr => kinds_word h hr

theorem spells_identifier {s : String} (h : IsIdentifier s) : Spells s.toList [.identifier s] :=
  h.wordKind ▸ spells_word h.isWord

theorem spells_keyword (k : Keyword) : Spells k.word.toList [.keyword k] :=
  wordKind_keyword k ▸ spells_word (isWord_keyword k)

theorem spells_quoted (s : String) : Spells (quoted s) [.string s] := fun _ _ => kinds_quoted s _

theorem spells_commaList {texts : List (List Char)} {rows : List (List TokenKind)}
    (h : List.Forall₂ Spells texts rows) : Spells (commaList texts) (commaRow rows) := by
  induction h with
  | nil => exact fun rest _ => rfl
  | @cons t r texts rows ht h ih =>
    cases h with
    | nil => exact ht
    | cons hu h =>
      intro rest hr
      rw [commaList, commaRow, List.append_assoc, List.cons_append, List.cons_append,
        ht _ (breaks_cons (by decide) (by decide) _), kinds_mark ',' rfl (by decide), kinds_space,
        ih rest hr, List.append_assoc, List.cons_append]

theorem spells_enclosed {text : List Char} {row : List TokenKind} (h : Spells text row)
    (wanted : Bool) :
    Spells (Expression.enclosed wanted text) (Expression.enclosedRow wanted row) := by
  intro rest hr
  cases wanted with
  | false => exact h rest hr
  | true =>
    rw [Expression.enclosed, if_pos rfl, Expression.enclosedRow, if_pos rfl, List.cons_append,
      kinds_mark '(' rfl (by decide), List.append_assoc, List.singleton_append,
      h _ (breaks_cons (by decide) (by decide) _), kinds_mark ')' rfl (by decide)]
    simp

namespace Expression

theorem spells_number {x : Float} (h : 0.0 ≤ x) :
    Spells (Number.display x).toList (rereadNumber x).tokens := by
  rw [rereadNumber]
  split
  · rename_i hf
    rw [tokens, ← Number.ofNumeral_display h hf]
    exact fun rest hr => kinds_numeral (Number.isNumeral_display h hf) hr
  · rename_i hf
    rw [Number.display_infinite h hf, tokens]
    exact spells_identifier isIdentifier_inf

theorem spells_operand {e : Expression} (hw : e.WellFormed) (h : Spells e.print e.reread.tokens) :
    Spells (enclosed e.isCompound e.print) (enclosedRow e.reread.isCompound e.reread.tokens) := by
  rw [isCompound_reread hw]
  exact spells_enclosed h _

theorem spells_member {text : List Char} {row : List TokenKind} (h : Spells text row) {p : String}
    (hp : IsName p) :
    Spells (text ++ '.' :: p.toList) (row ++ [.mark .dot, wordKind p.toList]) := by
  intro rest hr
  obtain ⟨c, ds, hcs, hc, -⟩ := hp.isWord
  have hd : startsWithDigit (p.toList ++ rest) = false := by
    rw [hcs]
    exact isDigit_startsName hc
  rw [List.append_assoc, List.cons_append, h _ (breaks_dot hd), kinds_dot hd,
    spells_word hp.isWord rest hr]
  simp

theorem spells_index {text key : List Char} {row keyRow : List TokenKind} (h : Spells text row)
    (hk : Spells key keyRow) : Spells (text ++ '[' :: (key ++ [']']))
      (row ++ .mark .leftBracket :: (keyRow ++ [.mark .rightBracket])) := by
  intro rest hr
  rw [List.append_assoc, List.cons_append, h _ (breaks_cons (by decide) (by decide) _),
    kinds_mark '[' rfl (by decide), List.append_assoc, List.singleton_append,
    hk _ (breaks_cons (by decide) (by decide) _), kinds_mark ']' rfl (by decide)]
  simp

theorem spells_binary {left right : List Char} {row row' : List TokenKind} (h : Spells left row)
    (h' : Spells right row') (op : BinaryOp) :
    Spells (left ++ [' ', op.sign, ' '] ++ right) (row ++ .mark op.mark :: row') := by
  intro rest hr
  simp only [List.append_assoc, List.cons_append, List.nil_append]
  rw [h _ (breaks_cons (by decide) (by decide) _), kinds_space, kinds_sign, h' rest hr]

theorem spells_assign {target value : List Char} {row row' : List TokenKind}
    (h : Spells target row) (h' : Spells value row') :
    Spells (target ++ [' ', '=', ' '] ++ value) (row ++ .mark .equal :: row') := by
  intro rest hr
  simp only [List.append_assoc, List.cons_append, List.nil_append]
  rw [h _ (breaks_cons (by decide) (by decide) _), kinds_space, kinds_mark '=' rfl (by decide),
    kinds_space, h' rest hr]

theorem spells_assign_adding {target value : List Char} {row row' : List TokenKind}
    (h : Spells target row) (h' : Spells value row') :
    Spells (target ++ [' ', '+', '=', ' '] ++ value) (row ++ .mark .plusEqual :: row') := by
  intro rest hr
  simp only [List.append_assoc, List.cons_append, List.nil_append]
  rw [h _ (breaks_cons (by decide) (by decide) _), kinds_space, kinds_plusEqual, kinds_space,
    h' rest hr]

theorem spells_increment {target : List Char} {row : List TokenKind} (h : Spells target row) :
    Spells (target ++ ['+', '+']) (row ++ [.mark .plusPlus]) := by
  intro rest hr
  simp only [List.append_assoc, List.cons_append, List.nil_append]
  rw [h _ (breaks_cons (by decide) (by decide) _), kinds_plusPlus]

theorem spells_array {texts : List (List Char)} {rows : List (List TokenKind)}
    (h : List.Forall₂ Spells texts rows) : Spells ('[' :: (commaList texts ++ [']']))
      (.mark .leftBracket :: (commaRow rows ++ [.mark .rightBracket])) := by
  intro rest hr
  rw [List.cons_append, kinds_mark '[' rfl (by decide), List.append_assoc, List.singleton_append,
    spells_commaList h _ (breaks_cons (by decide) (by decide) _), kinds_mark ']' rfl (by decide)]
  simp

theorem spells_negate {text : List Char} {row : List TokenKind} (h : Spells text row) :
    Spells ('-' :: text) (.mark .minus :: row) := by
  intro rest hr
  rw [List.cons_append, kinds_mark '-' rfl (by decide), h rest hr, List.cons_append]

mutual

/-- The text of a well-formed expression is read as the row that spells it. -/
theorem spells_print : ∀ e : Expression, e.WellFormed → Spells e.print e.reread.tokens
  | number _, h => spells_number h
  | string s, _ => spells_quoted s
  | boolean true, _ => spells_keyword .trueWord
  | boolean false, _ => spells_keyword .falseWord
  | null, _ => spells_keyword .nullWord
  | identifier _, h => spells_identifier h
  | self, _ => spells_keyword .thisWord
  | array elements, h => spells_array (spells_printAll elements h)
  | member object _, h => spells_member (spells_operand h.1 (spells_print object h.1)) h.2
  | index object key, h =>
    spells_index (spells_operand h.1 (spells_print object h.1)) (spells_print key h.2)
  | negate operand, h => spells_negate (spells_operand h (spells_print operand h))
  | binary op left right, h =>
    spells_binary (spells_operand h.1 (spells_print left h.1))
      (spells_operand h.2 (spells_print right h.2)) op
  | assign true target value, h =>
    spells_assign_adding (spells_print target h.2.1) (spells_print value h.2.2)
  | assign false target value, h =>
    spells_assign (spells_print target h.2.1) (spells_print value h.2.2)
  | increment target, h => spells_increment (spells_print target h.2)

/-- The texts of well-formed expressions are read as their rows. -/
theorem spells_printAll : ∀ es : List Expression, AllWellFormed es →
    List.Forall₂ Spells (printAll es) (tokensAll (rereadAll es))
  | [], _ => .nil
  | e :: es, h => .cons (spells_print e h.1) (spells_printAll es h.2)

end

end Expression

end ModuleLoader.Dialect
