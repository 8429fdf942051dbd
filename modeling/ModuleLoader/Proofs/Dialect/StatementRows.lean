import ModuleLoader.Proofs.Dialect.TokenRows

/-! # Token rows of statements

What a well-formed statement is, and the row of tokens that its canonical text is read as. The row
ends with the semicolon, so that the text may stand before any other.
-/

namespace ModuleLoader.Dialect

open Expression

/-! ## Well-formed statements -/

/-- Whether a name with its value can stand in a program. -/
def Declarator.WellFormed (d : Declarator) : Prop :=
  IsIdentifier d.name ∧ ∀ e ∈ d.value, e.WellFormed

/-- Whether a binding can stand inside the braces of an import. A reserved word can be bound under
itself only. -/
def ImportBinding.WellFormed : ImportBinding → Prop
  | named imported bound => IsName imported ∧ (imported = bound ∨ IsIdentifier bound)
  | whole _ => False

/-- Whether a statement can stand in a program. An import binds single exports or one whole
namespace, and a `var` statement has a name. -/
def StatementKind.WellFormed : StatementKind → Prop
  | importFrom [.whole bound] _ => IsIdentifier bound
  | importFrom bindings _ => ∀ b ∈ bindings, b.WellFormed
  | moduleFrom bound _ => IsIdentifier bound
  | exportVar declarators | var declarators =>
    declarators ≠ [] ∧ ∀ d ∈ declarators, d.WellFormed
  | exportNamed specifiers _ => ∀ s ∈ specifiers, IsName s.name ∧ IsName s.exported
  | exportAll _ => True
  | exportDefault value | expression value => value.WellFormed

/-- The number literals of a declarator. -/
def Declarator.numbers (d : Declarator) : List Float := (d.value.map Expression.numbers).getD []

/-- The number literals of a statement. -/
def StatementKind.numbers : StatementKind → List Float
  | exportVar declarators | var declarators => declarators.flatMap Declarator.numbers
  | exportDefault value | expression value => value.numbers
  | _ => []

/-- What the text of a declarator is read as. -/
def Declarator.reread (d : Declarator) : Declarator := ⟨d.name, d.value.map Expression.reread⟩

/-- What the text of a statement is read as. -/
def StatementKind.reread : StatementKind → StatementKind
  | exportVar declarators => exportVar (declarators.map Declarator.reread)
  | var declarators => var (declarators.map Declarator.reread)
  | exportDefault value => exportDefault value.reread
  | expression value => expression value.reread
  | kind => kind

/-! ## Rows -/

/-- The tokens of a declarator. -/
def Declarator.row (d : Declarator) : List TokenKind :=
  match d.value with
  | none => [.identifier d.name]
  | some value => .identifier d.name :: .mark .equal :: value.tokens

/-- The tokens of a name, and behind `as` the other name if it differs. -/
def renamedRow (first second : String) : List TokenKind :=
  if first = second then [wordKind first.toList]
  else [wordKind first.toList, .identifier "as", wordKind second.toList]

/-- The tokens of a binding inside braces. -/
def ImportBinding.row : ImportBinding → List TokenKind
  | named imported bound => renamedRow imported bound
  | whole bound => [.mark .star, .identifier "as", .identifier bound]

/-- The tokens of an exported name. -/
def ExportSpecifier.row (s : ExportSpecifier) : List TokenKind := renamedRow s.name s.exported

/-- The tokens of a list in braces. -/
def bracedRow (rows : List (List TokenKind)) : List TokenKind :=
  .mark .leftBrace :: (commaRow rows ++ [.mark .rightBrace])

/-- The tokens of a `var` statement. -/
def varRow (declarators : List Declarator) : List TokenKind :=
  .keyword .varWord :: commaRow (declarators.map Declarator.row)

/-- The tokens of a statement without its semicolon. -/
def StatementKind.bodyRow : StatementKind → List TokenKind
  | importFrom [] source => [.keyword .importWord, .string source]
  | importFrom [.whole bound] source =>
    [.keyword .importWord, .mark .star, .identifier "as", .identifier bound, .identifier "from",
      .string source]
  | importFrom bindings source =>
    .keyword .importWord ::
      (bracedRow (bindings.map ImportBinding.row) ++ [.identifier "from", .string source])
  | moduleFrom bound source =>
    [.identifier "module", .identifier bound, .identifier "from", .string source]
  | exportVar declarators => .keyword .exportWord :: varRow declarators
  | exportNamed specifiers source =>
    .keyword .exportWord :: (bracedRow (specifiers.map ExportSpecifier.row) ++
      match source with
      | none => []
      | some s => [.identifier "from", .string s])
  | exportAll source => [.keyword .exportWord, .mark .star, .identifier "from", .string source]
  | exportDefault value => .keyword .exportWord :: .keyword .defaultWord :: value.tokens
  | var declarators => varRow declarators
  | expression value => value.tokens

/-- The tokens of a statement. -/
def StatementKind.row (kind : StatementKind) : List TokenKind := kind.bodyRow ++ [.mark .semicolon]

/-! ## Texts and their rows -/

theorem isIdentifier_as : IsIdentifier "as" :=
  isIdentifier_iff.2 ⟨isWord_of_all rfl (by decide) (by decide), by decide⟩

theorem isIdentifier_from : IsIdentifier "from" :=
  isIdentifier_iff.2 ⟨isWord_of_all rfl (by decide) (by decide), by decide⟩

theorem isIdentifier_module : IsIdentifier "module" :=
  isIdentifier_iff.2 ⟨isWord_of_all rfl (by decide) (by decide), by decide⟩

section Spelling

variable {a b : List Char} {r s : List TokenKind}

theorem Spells.spaced (h : Spells a r) (h' : Spells b s) : Spells (a ++ ' ' :: b) (r ++ s) := by
  intro rest hr
  rw [List.append_assoc, List.cons_append, h _ (breaks_cons (by decide) (by decide) _), kinds_space,
    h' rest hr, List.append_assoc]

/-- A fixed phrase ends with a blank. -/
theorem Spells.phrase {p : List Char} (h : Spells a r) (h' : Spells b s) (hp : p = a ++ [' ']) :
    Spells (p ++ b) (r ++ s) := by
  rw [hp, List.append_assoc, List.singleton_append]
  exact h.spaced h'

theorem spells_star (h : Spells b s) : Spells ('*' :: ' ' :: b) (.mark .star :: s) := by
  intro rest hr
  rw [List.cons_append, kinds_mark '*' rfl (by decide), List.cons_append, kinds_space, h rest hr,
    List.cons_append]

theorem spells_from (h : Spells a r) (source : String) :
    Spells (a ++ " from ".toList ++ quoted source) (r ++ [.identifier "from", .string source]) := by
  have hs := (spells_identifier isIdentifier_from).phrase (spells_quoted source) rfl
  rw [List.append_assoc]
  exact h.spaced hs

theorem spells_renamed {first second : String} (h : IsName first) (h' : IsName second) :
    Spells (printRenamed first second) (renamedRow first second) := by
  rw [printRenamed, renamedRow]
  split
  · exact spells_word h.isWord
  · rw [List.append_assoc]
    exact (spells_word h.isWord).spaced
      ((spells_identifier isIdentifier_as).phrase (spells_word h'.isWord) rfl)

theorem spells_braced {texts : List (List Char)} {rows : List (List TokenKind)}
    (h : List.Forall₂ Spells texts rows) : Spells (braced texts) (bracedRow rows) := by
  intro rest hr
  rw [braced, bracedRow, List.cons_append, kinds_mark _ rfl (by decide), List.append_assoc,
    List.singleton_append, spells_commaList h _ (breaks_cons (by decide) (by decide) _),
    kinds_mark _ rfl (by decide)]
  simp

theorem Declarator.spells {d : Declarator} (h : d.WellFormed) : Spells d.print d.reread.row := by
  obtain ⟨name, value⟩ := d
  cases value with
  | none => exact spells_identifier h.1
  | some e => exact spells_assign (spells_identifier h.1) (spells_print e (h.2 e rfl))

theorem spells_var {declarators : List Declarator} (h : ∀ d ∈ declarators, d.WellFormed) :
    Spells (printVar declarators) (varRow (declarators.map Declarator.reread)) := by
  have hall : List.Forall₂ Spells (declarators.map Declarator.print)
      ((declarators.map Declarator.reread).map Declarator.row) := by
    rw [List.map_map, List.forall₂_map_left_iff, List.forall₂_map_right_iff, List.forall₂_same]
    exact fun d hd => Declarator.spells (h d hd)
  exact (spells_keyword .varWord).phrase (spells_commaList hall) rfl

end Spelling

namespace StatementKind

/-- An import of single exports is written in braces. -/
theorem spells_bindings {b : ImportBinding} {bs : List ImportBinding}
    (h : ∀ c ∈ b :: bs, c.WellFormed) (source : String) :
    Spells (importFrom (b :: bs) source).printBody (importFrom (b :: bs) source).bodyRow := by
  have hall : List.Forall₂ Spells ((b :: bs).map ImportBinding.print)
      ((b :: bs).map ImportBinding.row) := by
    rw [List.forall₂_map_left_iff, List.forall₂_map_right_iff, List.forall₂_same]
    intro c hc
    cases c with
    | named imported bound =>
      obtain ⟨hi, rfl | hb⟩ := h _ hc
      · exact spells_renamed hi hi
      · exact spells_renamed hi (.inl hb)
    | whole bound => exact (h _ hc).elim
  have hs := spells_from ((spells_keyword .importWord).phrase (spells_braced hall) rfl) source
  cases b with
  | named imported bound =>
    rw [printBody.eq_def, bodyRow.eq_def]
    exact hs
  | whole bound => exact (h _ List.mem_cons_self).elim

theorem spells_specifiers {specifiers : List ExportSpecifier}
    (h : ∀ s ∈ specifiers, IsName s.name ∧ IsName s.exported) :
    Spells ("export ".toList ++ braced (specifiers.map fun s => printRenamed s.name s.exported))
      (.keyword .exportWord :: bracedRow (specifiers.map ExportSpecifier.row)) := by
  have hall : List.Forall₂ Spells (specifiers.map fun s => printRenamed s.name s.exported)
      (specifiers.map ExportSpecifier.row) := by
    rw [List.forall₂_map_left_iff, List.forall₂_map_right_iff, List.forall₂_same]
    exact fun s hs => spells_renamed (h s hs).1 (h s hs).2
  exact (spells_keyword .exportWord).phrase (spells_braced hall) rfl

theorem spells_printBody : ∀ {kind : StatementKind}, kind.WellFormed →
    Spells kind.printBody kind.reread.bodyRow
  | importFrom [] source, _ => (spells_keyword .importWord).phrase (spells_quoted source) rfl
  | importFrom [.whole _] source, h => by
    have hs := (spells_keyword .importWord).spaced (spells_star (spells_identifier isIdentifier_as))
    exact spells_from (hs.phrase (spells_identifier h) rfl) source
  | importFrom (.named _ _ :: _) source, h => spells_bindings h source
  | importFrom (.whole _ :: _ :: _) source, h => spells_bindings h source
  | moduleFrom _ source, h =>
    spells_from ((spells_identifier isIdentifier_module).phrase (spells_identifier h) rfl) source
  | exportVar _, h => (spells_keyword .exportWord).phrase (spells_var h.2) rfl
  | exportNamed specifiers none, h => by
    rw [printBody.eq_def, bodyRow.eq_def]
    simpa only [List.append_nil, reread] using spells_specifiers h
  | exportNamed specifiers (some source), h => by
    rw [printBody.eq_def, bodyRow.eq_def]
    simpa only [List.append_assoc, List.cons_append, reread] using
      spells_from (spells_specifiers h) source
  | exportAll source, _ => by
    have hs := (spells_keyword .exportWord).spaced
      (spells_star (spells_identifier isIdentifier_from))
    exact hs.phrase (spells_quoted source) rfl
  | exportDefault value, h => by
    have hs := (spells_keyword .exportWord).spaced (spells_keyword .defaultWord)
    exact hs.phrase (spells_print value h) rfl
  | var _, h => spells_var h.2
  | expression value, h => spells_print value h

/-- The text of a well-formed statement is read as the row that spells it. -/
theorem kinds_print {kind : StatementKind} (h : kind.WellFormed) (rest : List Char) :
    kinds (kind.print ++ rest) = kind.reread.row ++ kinds rest := by
  rw [StatementKind.print, row, List.append_assoc, List.singleton_append,
    spells_printBody h _ (breaks_cons (by decide) (by decide) _), kinds_mark ';' rfl (by decide),
    List.append_assoc, List.singleton_append]

end StatementKind

end ModuleLoader.Dialect
