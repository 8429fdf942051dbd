import ModuleLoader.Proofs.Dialect.RowReading

/-! # Reading rows of statements

The row of a well-formed statement is read as the statement. Words that mean something in one place
only, such as `from` and `module`, are told apart by the tokens around them.
-/

namespace ModuleLoader.Dialect

open Expression

namespace Parse

theorem reads_wholeExpression {e : Expression} (h : e.WellFormed) {ks : List TokenKind}
    (hs : Stops expressionMarks ks) : Reads wholeExpression (e.tokens ++ ks) e ks := by
  refine reads_get fun c hc => ?_
  rw [Cursor.length_rest hc, List.length_append]
  exact (reads_tokens e h).2 _ _ (by omega) hs

/-! ## Declarators -/

theorem reads_declarator {d : Declarator} (h : d.WellFormed) {ks : List TokenKind}
    (hs : Stops expressionMarks ks) : Reads declarator (d.row ++ ks) d ks := by
  obtain ⟨name, value⟩ := d
  cases value with
  | none =>
    exact (reads_identifier name ks).bind
      (reads_mark_neg (hs .equal (by decide)) (reads_pure _ _))
  | some e =>
    have he := reads_wholeExpression (h.2 e rfl) hs
    exact (reads_identifier name _).bind
      (reads_mark_pos rfl ((reads_skip _ _).bind (he.bind (reads_pure _ _))))

/-- Rows with commas between them are read one by one, to where no comma follows. -/
theorem reads_commaRow {α : Type} {item : Parse α} {marks : List Mark} (hm : .comma ∉ marks)
    {rows : List (List TokenKind × α)} (hne : rows ≠ [])
    (h : ∀ r ∈ rows, ∀ ks, Stops marks ks → Reads item (r.1 ++ ks) r.2 ks) {ks : List TokenKind}
    (hs : Stops (.comma :: marks) ks) {n : ℕ} (hn : rows.length ≤ n) :
    Reads (separated item n) (commaRow (rows.map Prod.fst) ++ ks) (rows.map Prod.snd) ks := by
  induction rows generalizing n with
  | nil => exact absurd rfl hne
  | cons r rows ih =>
    obtain ⟨n, rfl⟩ := Nat.exists_eq_add_of_le' ((Nat.succ_pos _).trans_le hn)
    cases rows with
    | nil =>
      refine (h r (by simp) ks (hs.mono (by simp))).bind ?_
      exact reads_mark_neg (hs .comma (by simp)) (reads_pure _ _)
    | cons s rows =>
      have hrest := ih (by simp) (fun s hs => h s (by simp [hs])) (n := n)
        (by simp only [List.length_cons] at hn ⊢; omega)
      rw [List.map_cons, List.map_cons, List.map_cons, commaRow, List.append_assoc]
      refine (h r (by simp) _ (stops_mark hm _)).bind (reads_mark_pos rfl ?_)
      exact (reads_skip _ _).bind (hrest.bind (reads_pure _ _))

theorem reads_separated {α : Type} {item : Parse α} {row : α → List TokenKind} {marks : List Mark}
    (hm : .comma ∉ marks) {l : List α} (hne : l ≠ [])
    (h : ∀ a ∈ l, ∀ ks, Stops marks ks → Reads item (row a ++ ks) a ks) {ks : List TokenKind}
    (hs : Stops (.comma :: marks) ks) {n : ℕ} (hn : l.length ≤ n) :
    Reads (separated item n) (commaRow (l.map row) ++ ks) l ks := by
  have hread : Reads (separated item n) (commaRow ((l.map fun a => (row a, a)).map Prod.fst) ++ ks)
      ((l.map fun a => (row a, a)).map Prod.snd) ks :=
    reads_commaRow hm (by simpa using hne) (List.forall_mem_map.2 h) hs (by rwa [List.length_map])
  rw [List.map_map, List.map_map] at hread
  simpa [Function.comp_def] using hread

theorem length_row_pos (d : Declarator) : 0 < d.row.length := by
  rw [Declarator.row]
  split <;> simp

theorem reads_declarators {l : List Declarator} (hne : l ≠ []) (h : ∀ d ∈ l, d.WellFormed)
    {ks : List TokenKind} (hs : Stops (.comma :: expressionMarks) ks) :
    Reads declarators (commaRow (l.map Declarator.row) ++ ks) l ks := by
  have hlen := (length_commaRow (l := l) fun d _ => length_row_pos d).1
  refine reads_get fun c hc => ?_
  rw [Cursor.length_rest hc, List.length_append]
  exact reads_separated (by decide) hne (fun d hd ks hs => reads_declarator (h d hd) hs) hs
    (by omega)

/-! ## Names in braces -/

theorem startsMark_wordKind (m : Mark) (cs : List Char) (ks : List TokenKind) :
    startsMark m (wordKind cs :: ks) = false := by
  rw [wordKind]
  split <;> rfl

theorem startsMark_renamedRow (m : Mark) (first second : String) (ks : List TokenKind) :
    startsMark m (renamedRow first second ++ ks) = false := by
  rw [renamedRow]
  split <;> exact startsMark_wordKind m _ _

theorem reads_renamed {step : Parse String} {first second : String}
    (h : first ≠ second → ∀ ks, Reads step (wordKind second.toList :: ks) second ks) (m : Mark)
    (ks : List TokenKind) :
    Reads (renamed step) (renamedRow first second ++ .mark m :: ks) (first, second)
      (.mark m :: ks) := by
  rw [renamedRow]
  split
  · rename_i heq
    refine (reads_name first _).bind (reads_get fun c hc => ?_)
    rw [Cursor.atWord_eq hc, heq]
    exact reads_pure _ _
  · rename_i hne
    simp only [List.cons_append, List.nil_append]
    refine (reads_name first _).bind (reads_get fun c hc => ?_)
    rw [Cursor.atWord_eq hc, startsWord, if_pos (decide_eq_true rfl)]
    exact (reads_skip _ _).bind ((h hne _).bind (reads_pure _ _))

theorem reads_braces {α : Type} {item : Parse α} {row : α → List TokenKind} {l : List α}
    (h : ∀ a ∈ l, ∀ m ks, startsMark .rightBrace (row a ++ .mark m :: ks) = false ∧
      Reads item (row a ++ .mark m :: ks) a (.mark m :: ks))
    (hpos : ∀ a ∈ l, 0 < (row a).length) (ks : List TokenKind) :
    Reads (braces item) (bracedRow (l.map row) ++ ks) l ks := by
  have hlen := (length_commaRow hpos).1
  rw [bracedRow, List.cons_append, List.append_assoc, List.singleton_append]
  refine (reads_mark _ _).bind (reads_get fun c hc => ?_)
  rw [Cursor.length_rest hc, List.length_append]
  exact (reads_items (by decide) (fun a ha m ks _ => h a ha m ks) (by omega)).bind
    ((reads_mark _ _).bind (reads_pure _ _))

theorem length_renamedRow_pos (first second : String) : 0 < (renamedRow first second).length := by
  rw [renamedRow]
  split <;> simp

theorem reads_bindings {l : List ImportBinding} (h : ∀ b ∈ l, b.WellFormed) (ks : List TokenKind) :
    Reads (braces do
        let (imported, bound) ← renamed identifier
        pure (ImportBinding.named imported bound))
      (bracedRow (l.map ImportBinding.row) ++ ks) l ks := by
  refine reads_braces (fun b hb m ks => ?_) (fun b hb => ?_) ks
  · cases b with
    | whole bound => exact (h _ hb).elim
    | named imported bound =>
      refine ⟨startsMark_renamedRow _ _ _ _,
        (reads_renamed (fun hne ks => ?_) m ks).bind (reads_pure _ _)⟩
      rw [((h _ hb).2.resolve_left hne).wordKind]
      exact reads_identifier bound ks
  · cases b with
    | whole bound => exact (h _ hb).elim
    | named imported bound => exact length_renamedRow_pos _ _

theorem reads_specifiers (l : List ExportSpecifier) (ks : List TokenKind) :
    Reads (braces do
        let (name, exported) ← renamed name
        pure (ExportSpecifier.mk name exported))
      (bracedRow (l.map ExportSpecifier.row) ++ ks) l ks := by
  refine reads_braces (fun s _ m ks => ?_) (fun s _ => length_renamedRow_pos _ _) ks
  exact ⟨startsMark_renamedRow _ _ _ _,
    (reads_renamed (fun _ => reads_name s.exported) m ks).bind (reads_pure _ _)⟩

/-! ## Clauses -/

theorem reads_from (source : String) (ks : List TokenKind) {α : Type} (f : String → α) :
    Reads (do word "from"; return f (← specifier)) (.identifier "from" :: .string source :: ks)
      (f source) ks :=
  (reads_word _ _).bind ((reads_specifier source ks).bind (reads_pure _ _))

theorem reads_import_bare (source : String) (ks : List TokenKind) :
    Reads importClause (.string source :: ks) (.importFrom [] source) ks := by
  refine reads_get fun c hc => ?_
  rw [Cursor.kind?_eq hc]
  exact (reads_skip _ _).bind (reads_pure _ _)

theorem reads_import_whole (bound source : String) (ks : List TokenKind) :
    Reads importClause (.mark .star :: .identifier "as" :: .identifier bound ::
      .identifier "from" :: .string source :: ks) (.importFrom [.whole bound] source) ks := by
  refine reads_get fun c hc => ?_
  rw [Cursor.kind?_eq hc]
  refine reads_get fun c hc => ?_
  rw [Cursor.atMark_eq hc]
  exact (reads_skip _ _).bind ((reads_word _ _).bind ((reads_identifier _ _).bind
    ((reads_pure _ _).bind (reads_from source ks (StatementKind.importFrom [.whole bound])))))

theorem reads_import_braces {l : List ImportBinding} {source : String} {ks ks' : List TokenKind}
    (h : Reads (braces do
        let (imported, bound) ← renamed identifier
        pure (ImportBinding.named imported bound)) (.mark .leftBrace :: ks) l
      (.identifier "from" :: .string source :: ks')) :
    Reads importClause (.mark .leftBrace :: ks) (.importFrom l source) ks' := by
  refine reads_get fun c hc => ?_
  rw [Cursor.kind?_eq hc]
  refine reads_get fun c hc => ?_
  rw [Cursor.atMark_eq hc]
  exact h.bind (reads_from source ks' (StatementKind.importFrom l))

/-- Whether a row begins neither with a word that begins a declaration nor with two identifiers. -/
def PlainStart : List TokenKind → Prop
  | .keyword .importWord :: _ | .keyword .exportWord :: _ | .keyword .varWord :: _ => False
  | .identifier _ :: .identifier _ :: _ => False
  | _ => True

theorem plainStart_operandRow : ∀ (e : Expression) (m : Mark) (ks : List TokenKind),
    PlainStart (e.operandRow ++ .mark m :: ks)
  | .member object property, m, ks => by
    rw [operandRow_member, List.append_assoc]
    exact plainStart_operandRow object _ _
  | .index object key, m, ks => by
    rw [operandRow_index, List.append_assoc]
    exact plainStart_operandRow object _ _
  | .number x, m, ks => by
    cases h : (Expression.number x).isCompound with
    | true =>
      rw [operandRow_compound h]
      trivial
    | false =>
      rw [operandRow_plain h]
      trivial
  | .boolean true, _, _ | .boolean false, _, _ => trivial
  | .string _, _, _ | .null, _, _ | .identifier _, _, _ | .self, _, _ | .array _, _, _ => trivial
  | .negate _, _, _ | .binary _ _ _, _, _ | .assign _ _ _, _, _ | .increment _, _, _ => trivial

/-- An expression statement is no declaration. -/
theorem plainStart_tokens : ∀ (e : Expression) (m : Mark) (ks : List TokenKind),
    PlainStart (e.tokens ++ .mark m :: ks)
  | .binary op left right, m, ks => by
    rw [tokens_binary, List.append_assoc]
    exact plainStart_operandRow left _ _
  | .assign adding target value, m, ks => by
    rw [Expression.tokens, List.append_assoc]
    exact plainStart_tokens target _ _
  | .increment target, m, ks => by
    rw [Expression.tokens, List.append_assoc]
    exact plainStart_tokens target _ _
  | .member object property, m, ks => plainStart_operandRow (.member object property) m ks
  | .index object key, m, ks => plainStart_operandRow (.index object key) m ks
  | .boolean true, _, _ | .boolean false, _, _ => trivial
  | .number _, _, _ | .string _, _, _ | .null, _, _ | .identifier _, _, _ | .self, _, _ => trivial
  | .array _, _, _ | .negate _, _, _ => trivial

theorem atModule_plainStart {c : Cursor} {ks : List TokenKind} (hc : c.kinds = ks)
    (hp : PlainStart ks) : c.atModule = false := by
  rw [Cursor.atModule, Cursor.atWord_eq hc, Cursor.kind?_eq (Cursor.kinds_next hc)]
  match ks, hp with
  | [], _ => rfl
  | .identifier name :: [], _ => exact Bool.and_false _
  | .identifier name :: k :: ks, hp =>
    cases k with
    | identifier _ => exact hp.elim
    | _ => exact Bool.and_false _
  | .number _ :: _, _ | .string _ :: _, _ | .keyword _ :: _, _ | .mark _ :: _, _ => rfl
  | .unterminatedString :: _, _ | .invalid _ :: _, _ => rfl

theorem reads_expressionStatement {ks : List TokenKind} (hp : PlainStart ks) {e : Expression}
    {ks' : List TokenKind} (h : Reads wholeExpression ks e ks') :
    Reads statementKind ks (.expression e) ks' := by
  have hrest : Reads (do
      if (← get).atModule then
        skip
        moduleClause
      else return .expression (← wholeExpression)) ks (.expression e) ks' := by
    refine reads_get fun c hc => ?_
    rw [if_neg (by simp [atModule_plainStart hc hp])]
    exact h.bind (reads_pure _ _)
  refine reads_get fun c hc => ?_
  rw [Cursor.kind?_eq hc]
  cases ks with
  | nil => exact hrest
  | cons k ks =>
    cases k with
    | keyword w => cases w <;> first | exact hrest | exact hp.elim
    | _ => exact hrest

theorem reads_moduleClause (bound source : String) (ks : List TokenKind) :
    Reads moduleClause (.identifier bound :: .identifier "from" :: .string source :: ks)
      (.moduleFrom bound source) ks :=
  (reads_identifier bound _).bind (reads_from source ks (StatementKind.moduleFrom bound))

theorem reads_moduleStatement (bound source : String) (ks : List TokenKind) :
    Reads statementKind (.identifier "module" :: .identifier bound :: .identifier "from" ::
      .string source :: ks) (.moduleFrom bound source) ks := by
  refine reads_get fun c hc => ?_
  rw [Cursor.kind?_eq hc]
  refine reads_get fun c hc => ?_
  have hm : c.atModule = true := by
    rw [Cursor.atModule, Cursor.atWord_eq hc, Cursor.kind?_eq (Cursor.kinds_next hc)]
    rfl
  rw [if_pos hm]
  exact (reads_skip _ _).bind (reads_moduleClause bound source ks)

theorem reads_export_star (source : String) (ks : List TokenKind) :
    Reads exportClause (.mark .star :: .identifier "from" :: .string source :: ks)
      (.exportAll source) ks := by
  refine reads_get fun c hc => ?_
  rw [Cursor.kind?_eq hc]
  exact (reads_skip _ _).bind (reads_from source ks StatementKind.exportAll)

section Exports

variable {ks ks' : List TokenKind} {e : Expression} {l : List Declarator}

theorem reads_export_default (h : Reads wholeExpression ks e ks') :
    Reads exportClause (.keyword .defaultWord :: ks) (.exportDefault e) ks' := by
  refine reads_get fun c hc => ?_
  rw [Cursor.kind?_eq hc]
  exact (reads_skip _ _).bind (h.bind (reads_pure _ _))

theorem reads_export_var (h : Reads declarators ks l ks') :
    Reads exportClause (.keyword .varWord :: ks) (.exportVar l) ks' := by
  refine reads_get fun c hc => ?_
  rw [Cursor.kind?_eq hc]
  exact (reads_skip _ _).bind (h.bind (reads_pure _ _))

theorem reads_export_named {l : List ExportSpecifier} (h : Reads (braces do
      let (name, exported) ← renamed name
      pure (ExportSpecifier.mk name exported)) (.mark .leftBrace :: ks) l ks')
    (hs : startsWord "from" ks' = false) :
    Reads exportClause (.mark .leftBrace :: ks) (.exportNamed l none) ks' := by
  refine reads_get fun c hc => ?_
  rw [Cursor.kind?_eq hc]
  refine h.bind (reads_get fun c hc => ?_)
  rw [Cursor.atWord_eq hc, hs]
  exact reads_pure _ _

theorem reads_export_from {l : List ExportSpecifier} {source : String} (h : Reads (braces do
      let (name, exported) ← renamed name
      pure (ExportSpecifier.mk name exported)) (.mark .leftBrace :: ks) l
    (.identifier "from" :: .string source :: ks')) :
    Reads exportClause (.mark .leftBrace :: ks) (.exportNamed l (some source)) ks' := by
  refine reads_get fun c hc => ?_
  rw [Cursor.kind?_eq hc]
  refine h.bind (reads_get fun c hc => ?_)
  rw [Cursor.atWord_eq hc]
  exact (reads_skip _ _).bind ((reads_specifier source ks').bind (reads_pure _ _))

end Exports

theorem reads_import {kind : StatementKind} {ks ks' : List TokenKind}
    (h : Reads importClause ks kind ks') :
    Reads statementKind (.keyword .importWord :: ks) kind ks' := by
  refine reads_get fun c hc => ?_
  rw [Cursor.kind?_eq hc]
  exact (reads_skip _ _).bind h

theorem reads_export {kind : StatementKind} {ks ks' : List TokenKind}
    (h : Reads exportClause ks kind ks') :
    Reads statementKind (.keyword .exportWord :: ks) kind ks' := by
  refine reads_get fun c hc => ?_
  rw [Cursor.kind?_eq hc]
  exact (reads_skip _ _).bind h

theorem reads_var {l : List Declarator} {ks ks' : List TokenKind}
    (h : Reads declarators ks l ks') :
    Reads statementKind (.keyword .varWord :: ks) (.var l) ks' := by
  refine reads_get fun c hc => ?_
  rw [Cursor.kind?_eq hc]
  exact (reads_skip _ _).bind (h.bind (reads_pure _ _))

/-! ## Statements and programs -/

theorem stops_semicolon (ks : List TokenKind) :
    Stops (.comma :: expressionMarks) (.mark .semicolon :: ks) := stops_mark (by decide) ks

/-- The row of a well-formed statement is read up to its semicolon. -/
theorem reads_bodyRow : ∀ {kind : StatementKind}, kind.WellFormed → ∀ ks : List TokenKind,
    Reads statementKind (kind.bodyRow ++ .mark .semicolon :: ks) kind (.mark .semicolon :: ks)
  | .importFrom [] source, _, _ => reads_import (reads_import_bare source _)
  | .importFrom [.whole bound] source, _, _ => reads_import (reads_import_whole bound source _)
  | .importFrom (.named imported bound :: bs) source, h, ks => by
    have hclause : Reads importClause
        (bracedRow ((.named imported bound :: bs).map ImportBinding.row) ++
          .identifier "from" :: .string source :: .mark .semicolon :: ks) _ _ :=
      reads_import_braces (reads_bindings h _)
    rw [StatementKind.bodyRow.eq_def]
    simpa only [List.cons_append, List.append_assoc, List.nil_append] using reads_import hclause
  | .importFrom (.whole _ :: _ :: _) source, h, _ => (h _ List.mem_cons_self).elim
  | .moduleFrom bound source, _, _ => reads_moduleStatement bound source _
  | .exportVar _, h, ks =>
    reads_export (reads_export_var (reads_declarators h.1 h.2 (stops_semicolon ks)))
  | .exportNamed l none, _, ks => by
    rw [StatementKind.bodyRow, List.append_nil]
    exact reads_export (reads_export_named (reads_specifiers l _) rfl)
  | .exportNamed l (some source), _, ks => by
    have hclause : Reads exportClause (bracedRow (l.map ExportSpecifier.row) ++
        .identifier "from" :: .string source :: .mark .semicolon :: ks) _ _ :=
      reads_export_from (reads_specifiers l _)
    rw [StatementKind.bodyRow]
    simpa only [List.cons_append, List.append_assoc, List.nil_append] using reads_export hclause
  | .exportAll source, _, _ => reads_export (reads_export_star source _)
  | .exportDefault _, h, ks =>
    reads_export (reads_export_default
      (reads_wholeExpression h ((stops_semicolon ks).mono (by simp))))
  | .var _, h, ks => reads_var (reads_declarators h.1 h.2 (stops_semicolon ks))
  | .expression e, h, ks =>
    reads_expressionStatement (plainStart_tokens e _ _)
      (reads_wholeExpression h ((stops_semicolon ks).mono (by simp)))

theorem exists_statement {kind : StatementKind} (h : kind.WellFormed) {c : Cursor}
    {ks : List TokenKind} (hc : c.kinds = kind.row ++ ks) :
    ∃ s c', statement.run c = .ok (s, c') ∧ s.kind = kind ∧ c'.kinds = ks := by
  rw [StatementKind.row, List.append_assoc, List.singleton_append] at hc
  obtain ⟨c', hrun, hc'⟩ := reads_bodyRow h ks c hc
  have hsemi : Reads semicolon (.mark .semicolon :: ks) () ks := by
    refine reads_get fun c hc => ?_
    have hne : c.rest.isEmpty = false := by
      rw [List.isEmpty_eq_false_iff, ← List.length_pos_iff, Cursor.length_rest hc]
      exact Nat.succ_pos _
    rw [hne]
    exact reads_mark _ _
  obtain ⟨c'', hrun', hc''⟩ := hsemi c' hc'
  refine ⟨⟨kind, c.offset, c''.last⟩, c'', ?_, rfl, hc''⟩
  rw [statement, run_get_bind, run_bind_ok hrun, run_bind_ok hrun']
  rfl

theorem length_statementRow_pos (kind : StatementKind) : 0 < kind.row.length := by
  rw [StatementKind.row, List.length_append]
  exact Nat.succ_pos _

/-- A statement does not begin with a semicolon. -/
theorem startsMark_statementRow : ∀ {kind : StatementKind}, kind.WellFormed →
    ∀ ks : List TokenKind, startsMark .semicolon (kind.row ++ ks) = false
  | .importFrom [] _, _, _ => rfl
  | .importFrom [.whole _] _, _, _ => rfl
  | .importFrom (.named _ _ :: _) _, _, _ => by
    rw [StatementKind.row, StatementKind.bodyRow.eq_def]
    rfl
  | .importFrom (.whole _ :: _ :: _) _, h, _ => (h _ List.mem_cons_self).elim
  | .moduleFrom _ _, _, _ | .exportVar _, _, _ | .exportAll _, _, _ | .exportDefault _, _, _ => rfl
  | .exportNamed _ none, _, _ | .exportNamed _ (some _), _, _ | .var _, _, _ => rfl
  | .expression e, _, ks => by
    rw [StatementKind.row, StatementKind.bodyRow, List.append_assoc]
    exact startsMark_tokens (by decide) (by decide) (by decide) e _

/-- The rows of well-formed statements one behind the other are read as the statements. -/
theorem exists_statements {l : List StatementKind} (h : ∀ k ∈ l, k.WellFormed) {c : Cursor}
    (hc : c.kinds = l.flatMap StatementKind.row) {n : ℕ} (hn : l.length < n) :
    ∃ body c', (statements n).run c = .ok (body, c') ∧ body.map (·.kind) = l := by
  induction l generalizing c n with
  | nil =>
    obtain ⟨n, rfl⟩ := Nat.exists_eq_add_of_le' (show 1 ≤ n by omega)
    have hempty : c.rest.isEmpty = true := by
      rw [List.isEmpty_iff, ← List.length_eq_zero_iff, Cursor.length_rest hc]
      rfl
    exact ⟨[], c, by rw [statements, run_get_bind, hempty]; rfl, rfl⟩
  | cons k l ih =>
    obtain ⟨n, rfl⟩ := Nat.exists_eq_add_of_le' (show 1 ≤ n by omega)
    rw [List.flatMap_cons] at hc
    obtain ⟨s, c', hs, hk, hc'⟩ := exists_statement (h k (by simp)) hc
    obtain ⟨body, c'', hbody, hmap⟩ := ih (fun k hk => h k (by simp [hk])) hc'
      (n := n) (by rw [List.length_cons] at hn; omega)
    have hne : c.rest.isEmpty = false := by
      rw [List.isEmpty_eq_false_iff, ← List.length_pos_iff, Cursor.length_rest hc,
        List.length_append]
      exact Nat.add_pos_left (length_statementRow_pos k) _
    have hsemi : c.atMark .semicolon = false := by
      rw [Cursor.atMark_eq hc]
      exact startsMark_statementRow (h k (by simp)) _
    refine ⟨s :: body, c'', ?_, by rw [List.map_cons, hk, hmap]⟩
    rw [statements, run_get_bind, hne, if_neg Bool.false_ne_true, run_get_bind, hsemi,
      if_neg Bool.false_ne_true, run_bind_ok hs, run_bind_ok hbody]
    rfl

end Parse

end ModuleLoader.Dialect
