import ModuleLoader.Proofs.Dialect.Reprinting

/-! # Parsed trees

The lexer makes identifiers of words and numbers without a sign, and the parser puts nothing else
into its trees. So whatever is parsed is well formed.
-/

namespace ModuleLoader.Dialect

open Expression

/-! ## Scanned tokens -/

/-- Whether a token can come from a source text. -/
def TokenKind.Scanned : TokenKind → Prop
  | number x => 0.0 ≤ x ∧ ((x == 0.0) = true → x = 0.0)
  | identifier name => IsIdentifier name
  | _ => True

theorem scanned_ofNumeral (cs : List Char) : (TokenKind.number (Number.ofNumeral cs)).Scanned :=
  ⟨Number.zero_le_ofNumeral cs, Number.ofNumeral_zero⟩

theorem scanned_wordKind {c : Char} {rest : List Char} (hc : startsName c = true) :
    (wordKind (c :: rest.takeWhile continuesName)).Scanned := by
  cases hk : wordKind (c :: rest.takeWhile continuesName) with
  | identifier s =>
    exact isIdentifier_iff.2 ⟨isWord_of_wordKind hc hk, (wordKind_eq_identifier hk).2⟩
  | number x =>
    rw [wordKind] at hk
    split at hk <;> cases hk
  | _ => trivial

theorem scanned_lexeme (c : Char) (rest : List Char) : (lexeme c rest).1.Scanned := by
  unfold lexeme
  repeat' split
  all_goals first
    | trivial
    | exact scanned_ofNumeral _
    | exact scanned_wordKind ‹_›

theorem scanned_tokensOf (size : ℕ) (cs : List Char) : ∀ t ∈ tokensOf size cs, t.kind.Scanned := by
  fun_induction tokensOf size cs with
  | case1 => exact List.forall_mem_nil _
  | case2 cs c rest h ih => exact List.forall_mem_cons.2 ⟨scanned_lexeme c rest, ih⟩

/-! ## Steps that yield -/

/-- Whether the tokens that are left come from a source text. -/
def Cursor.Scanned (c : Cursor) : Prop := ∀ t ∈ c.rest, t.kind.Scanned

/-- Whether every value of a step over scanned tokens has a property. The step takes some of the
next tokens. -/
def Yields {α : Type} (p : Parse α) (P : α → Prop) : Prop :=
  ∀ c a c', c.Scanned → p.run c = .ok (a, c') → P a ∧ c'.rest <:+ c.rest

theorem Cursor.Scanned.of_suffix {c c' : Cursor} (h : c.Scanned) (hs : c'.rest <:+ c.rest) :
    c'.Scanned := fun t ht => h t (hs.subset ht)

theorem Cursor.rest_next_suffix (c : Cursor) : c.next.rest <:+ c.rest := by
  obtain ⟨rest, last, size⟩ := c
  cases rest with
  | nil => exact List.suffix_rfl
  | cons t rest => exact List.suffix_cons t rest

theorem Cursor.Scanned.kind {c : Cursor} (h : c.Scanned) {k : TokenKind} (hk : c.kind? = some k) :
    k.Scanned := by
  obtain ⟨t, ht, rfl⟩ := Option.map_eq_some_iff.1 hk
  exact h t (List.mem_of_mem_head? ht)

section Steps

variable {α β : Type} {p : Parse α} {f : α → Parse β} {P : α → Prop} {Q : β → Prop}

theorem exists_of_run_bind {c c' : Cursor} {b : β} (h : (p >>= f).run c = .ok (b, c')) :
    ∃ a c'', p.run c = .ok (a, c'') ∧ (f a).run c'' = .ok (b, c') := by
  rw [StateT.run_bind] at h
  cases hp : p.run c with
  | error e => rw [hp] at h; cases h
  | ok r =>
    rw [hp] at h
    exact ⟨r.1, r.2, rfl, h⟩

theorem Yields.bind (hp : Yields p P) (hf : ∀ a, P a → Yields (f a) Q) : Yields (p >>= f) Q := by
  intro c b c' hc hrun
  obtain ⟨a, c'', ha, hb⟩ := exists_of_run_bind hrun
  obtain ⟨ha, hr⟩ := hp c a c'' hc ha
  obtain ⟨hb, hr'⟩ := hf a ha c'' b c' (hc.of_suffix hr) hb
  exact ⟨hb, hr'.trans hr⟩

theorem yields_pure {a : α} (h : P a) : Yields (pure a : Parse α) P := by
  intro c b c' _ hrun
  cases hrun
  exact ⟨h, List.suffix_rfl⟩

theorem yields_get {f : Cursor → Parse β} (h : ∀ c : Cursor, c.Scanned → Yields (f c) Q) :
    Yields (get >>= f) Q := fun c b c' hc hrun => h c hc c b c' hc hrun

theorem yields_error (e : Cursor → SyntaxError) : Yields (fun c => .error (e c) : Parse α) P := by
  intro c a c' _ hrun
  cases hrun

theorem yields_skip : Yields Parse.skip fun _ => True := by
  intro c a c' _ hrun
  cases hrun
  exact ⟨trivial, c.rest_next_suffix⟩

/-- Take a token and go on. -/
theorem yields_skip_bind {f : Unit → Parse β} (h : Yields (f ()) Q) : Yields (Parse.skip >>= f) Q :=
  yields_skip.bind fun _ _ => h

end Steps

namespace Parse

theorem yields_mark (m : Mark) : Yields (mark m) fun _ => True := by
  refine yields_get fun c _ => ?_
  split
  · exact yields_skip
  · exact yields_error _

theorem yields_word (w : String) : Yields (word w) fun _ => True := by
  refine yields_get fun c _ => ?_
  split
  · exact yields_skip
  · exact yields_error _

theorem yields_identifier : Yields identifier IsIdentifier := by
  refine yields_get fun c hc => ?_
  split
  · rename_i name hk
    exact yields_skip_bind (yields_pure (hc.kind hk))
  · exact yields_error _

theorem yields_name : Yields name IsName := by
  refine yields_get fun c hc => ?_
  split
  · rename_i name hk
    exact yields_skip_bind (yields_pure (.inl (hc.kind hk)))
  · rename_i k hk
    exact yields_skip_bind (yields_pure (.inr ⟨k, rfl⟩))
  · exact yields_error _

theorem yields_specifier : Yields specifier fun _ => True := by
  refine yields_get fun c hc => ?_
  split
  · exact yields_skip_bind (yields_pure trivial)
  · exact yields_error _

theorem yields_items {α : Type} {item : Parse α} {P : α → Prop} (closing : Mark)
    (h : Yields item P) (n : ℕ) : Yields (items closing item n) fun l => ∀ a ∈ l, P a := by
  induction n with
  | zero => exact yields_pure (List.forall_mem_nil _)
  | succ n ih =>
    refine yields_get fun c _ => ?_
    split
    · exact yields_pure (List.forall_mem_nil _)
    · refine h.bind fun a ha => yields_get fun c _ => ?_
      split
      · exact yields_skip_bind
          (ih.bind fun l hl => yields_pure (List.forall_mem_cons.2 ⟨ha, hl⟩))
      · exact yields_pure (List.forall_mem_singleton.2 ha)

theorem yields_separated {α : Type} {item : Parse α} {P : α → Prop} (h : Yields item P) (n : ℕ) :
    Yields (separated item n) fun l => (0 < n → l ≠ []) ∧ ∀ a ∈ l, P a := by
  induction n with
  | zero => exact yields_pure ⟨fun hn => absurd hn (Nat.lt_irrefl 0), List.forall_mem_nil _⟩
  | succ n ih =>
    refine h.bind fun a ha => yields_get fun c _ => ?_
    split
    · exact yields_skip_bind (ih.bind fun l hl =>
        yields_pure ⟨fun _ => List.cons_ne_nil a l, List.forall_mem_cons.2 ⟨ha, hl.2⟩⟩)
    · exact yields_pure ⟨fun _ => List.cons_ne_nil a [], List.forall_mem_singleton.2 ha⟩

end Parse

/-! ## Expressions -/

/-- Whether an expression can be the tree of a source text. -/
def Expression.Parsed (e : Expression) : Prop :=
  e.WellFormed ∧ ∀ x ∈ e.numbers, (x == 0.0) = true → x = 0.0

namespace Expression

theorem parsed_binary {op : BinaryOp} {left right : Expression} (h : left.Parsed)
    (h' : right.Parsed) : (binary op left right).Parsed :=
  ⟨⟨h.1, h'.1⟩, List.forall_mem_append.2 ⟨h.2, h'.2⟩⟩

theorem parsed_index {object key : Expression} (h : object.Parsed) (h' : key.Parsed) :
    (index object key).Parsed :=
  ⟨⟨h.1, h'.1⟩, List.forall_mem_append.2 ⟨h.2, h'.2⟩⟩

theorem parsed_assign {adding : Bool} {target value : Expression} (ha : target.isAssignable = true)
    (h : target.Parsed) (h' : value.Parsed) : (assign adding target value).Parsed :=
  ⟨⟨ha, h.1, h'.1⟩, List.forall_mem_append.2 ⟨h.2, h'.2⟩⟩

theorem parsed_array {es : List Expression} (h : ∀ e ∈ es, e.Parsed) : (array es).Parsed := by
  have hall : AllWellFormed es ∧ ∀ x ∈ allNumbers es, (x == 0.0) = true → x = 0.0 := by
    induction es with
    | nil => exact ⟨trivial, List.forall_mem_nil _⟩
    | cons e es ih =>
      obtain ⟨hw, hn⟩ := ih fun a ha => h a (List.mem_cons_of_mem _ ha)
      have he := h e List.mem_cons_self
      exact ⟨⟨he.1, hw⟩, List.forall_mem_append.2 ⟨he.2, hn⟩⟩
  exact hall

end Expression

namespace Parse

/-- Whether the steps of a depth yield trees of source texts. -/
structure LevelsYield (n : ℕ) : Prop where
  expression : Yields (expression n) Parsed
  sum : Yields (sum n) Parsed
  sumTail : ∀ e, e.Parsed → Yields (sumTail n e) Parsed
  product : Yields (product n) Parsed
  productTail : ∀ e, e.Parsed → Yields (productTail n e) Parsed
  factor : Yields (factor n) Parsed
  chain : Yields (chain n) Parsed
  chainTail : ∀ e, e.Parsed → Yields (chainTail n e) Parsed
  primary : Yields (primary n) Parsed

section Levels

variable {n : ℕ}

theorem yields_expression (h : LevelsYield n) : Yields (expression (n + 1)) Parsed := by
  rw [Parse.expression]
  refine yields_get fun c _ => h.sum.bind fun target ht => yields_get fun c' _ => ?_
  split
  · exact yields_pure ht
  · split
    · rename_i ha
      exact yields_skip_bind (h.expression.bind fun v hv => yields_pure (parsed_assign ha ht hv))
    · exact yields_error _

theorem yields_sumTail (h : LevelsYield n) {left : Expression} (hl : left.Parsed) :
    Yields (sumTail (n + 1) left) Parsed := by
  rw [Parse.sumTail]
  refine yields_get fun c _ => ?_
  split
  · exact yields_pure hl
  · exact yields_skip_bind (h.product.bind fun r hr => h.sumTail _ (parsed_binary hl hr))

theorem yields_productTail (h : LevelsYield n) {left : Expression} (hl : left.Parsed) :
    Yields (productTail (n + 1) left) Parsed := by
  rw [Parse.productTail]
  refine yields_get fun c _ => ?_
  split
  · exact yields_pure hl
  · exact yields_skip_bind (h.factor.bind fun r hr => h.productTail _ (parsed_binary hl hr))

theorem yields_factor (h : LevelsYield n) : Yields (factor (n + 1)) Parsed := by
  rw [Parse.factor]
  refine yields_get fun c _ => ?_
  split
  · exact yields_skip_bind (h.factor.bind fun e he => yields_pure ⟨he.1, he.2⟩)
  · exact h.chain

theorem yields_chain (h : LevelsYield n) : Yields (chain (n + 1)) Parsed := by
  rw [Parse.chain]
  refine yields_get fun c _ => h.primary.bind fun e he =>
    (h.chainTail e he).bind fun place hp => yields_get fun c' _ => ?_
  split
  · split
    · rename_i ha
      exact yields_skip_bind (yields_pure ⟨⟨ha, hp.1⟩, hp.2⟩)
    · exact yields_error _
  · exact yields_pure hp

theorem yields_chainTail (h : LevelsYield n) {object : Expression} (ho : object.Parsed) :
    Yields (chainTail (n + 1) object) Parsed := by
  rw [Parse.chainTail]
  refine yields_get fun c _ => ?_
  split
  · exact yields_skip_bind (yields_name.bind fun p hp => h.chainTail _ ⟨⟨ho.1, hp⟩, ho.2⟩)
  · refine yields_get fun c' _ => ?_
    split
    · exact yields_skip_bind (h.expression.bind fun k hk => (yields_mark _).bind fun _ _ =>
        h.chainTail _ (parsed_index ho hk))
    · exact yields_pure ho

theorem yields_primary (h : LevelsYield n) : Yields (primary (n + 1)) Parsed := by
  have hplain : ∀ {e : Expression}, e.WellFormed → e.numbers = [] → e.Parsed := fun hw hn =>
    ⟨hw, by rw [hn]; exact List.forall_mem_nil _⟩
  rw [Parse.primary]
  refine yields_get fun c hc => ?_
  split
  · rename_i x hk
    exact yields_skip_bind
      (yields_pure ⟨(hc.kind hk).1, List.forall_mem_singleton.2 (hc.kind hk).2⟩)
  · exact yields_skip_bind (yields_pure (hplain trivial rfl))
  · rename_i name hk
    exact yields_skip_bind (yields_pure (hplain (hc.kind hk) rfl))
  · exact yields_skip_bind (yields_pure (hplain trivial rfl))
  · exact yields_skip_bind (yields_pure (hplain trivial rfl))
  · exact yields_skip_bind (yields_pure (hplain trivial rfl))
  · exact yields_skip_bind (yields_pure (hplain trivial rfl))
  · exact yields_skip_bind ((yields_items _ h.expression n).bind fun es hes =>
      (yields_mark _).bind fun _ _ => yields_pure (parsed_array hes))
  · exact yields_skip_bind (h.expression.bind fun e he => (yields_mark _).bind fun _ _ =>
      yields_pure he)
  · exact yields_error _

end Levels

theorem levelsYield (n : ℕ) : LevelsYield n := by
  induction n with
  | zero =>
    exact ⟨yields_error _, yields_error _, fun _ => yields_pure, yields_error _,
      fun _ => yields_pure, yields_error _, yields_error _, fun _ => yields_pure, yields_error _⟩
  | succ n h =>
    exact {
      expression := yields_expression h
      sum := h.product.bind fun e => h.sumTail e
      sumTail := fun _ => yields_sumTail h
      product := h.factor.bind fun e => h.productTail e
      productTail := fun _ => yields_productTail h
      factor := yields_factor h
      chain := yields_chain h
      chainTail := fun _ => yields_chainTail h
      primary := yields_primary h }

theorem yields_wholeExpression : Yields wholeExpression Parsed :=
  yields_get fun _ _ => (levelsYield _).expression

end Parse

/-! ## Statements -/

/-- Whether a declarator can be the tree of a source text. -/
def Declarator.Parsed (d : Declarator) : Prop :=
  d.WellFormed ∧ ∀ x ∈ d.numbers, (x == 0.0) = true → x = 0.0

/-- Whether a statement can be the tree of a source text. -/
def StatementKind.Parsed (kind : StatementKind) : Prop :=
  kind.WellFormed ∧ ∀ x ∈ kind.numbers, (x == 0.0) = true → x = 0.0

namespace Parse

theorem yields_declarator : Yields declarator Declarator.Parsed := by
  refine yields_identifier.bind fun name hname => yields_get fun c _ => ?_
  split
  · refine yields_skip_bind (yields_wholeExpression.bind fun e he =>
      yields_pure ⟨⟨hname, ?_⟩, he.2⟩)
    intro a ha
    cases ha
    exact he.1
  · exact yields_pure ⟨⟨hname, by simp⟩, List.forall_mem_nil _⟩

theorem yields_declarators :
    Yields declarators fun l => l ≠ [] ∧ ∀ d ∈ l, d.Parsed := by
  refine yields_get fun c _ c' l c'' hc hrun => ?_
  obtain ⟨⟨hne, hl⟩, hc''⟩ := yields_separated yields_declarator _ c' l c'' hc hrun
  exact ⟨⟨hne (Nat.succ_pos _), hl⟩, hc''⟩

theorem parsed_var {l : List Declarator} (h : l ≠ [] ∧ ∀ d ∈ l, d.Parsed) :
    (StatementKind.var l).Parsed := by
  refine ⟨⟨h.1, fun d hd => (h.2 d hd).1⟩, fun x hx => ?_⟩
  obtain ⟨d, hd, hx⟩ := List.mem_flatMap.1 hx
  exact (h.2 d hd).2 x hx

theorem yields_renamed {second : Parse String} {P : String → Prop} (h : Yields second P) :
    Yields (renamed second) fun r => IsName r.1 ∧ (r.1 = r.2 ∨ P r.2) := by
  refine yields_name.bind fun first hf => yields_get fun c _ => ?_
  split
  · exact yields_skip_bind (h.bind fun b hb => yields_pure ⟨hf, .inr hb⟩)
  · exact yields_pure ⟨hf, .inl rfl⟩

theorem yields_braces {α : Type} {item : Parse α} {P : α → Prop} (h : Yields item P) :
    Yields (braces item) fun l => ∀ a ∈ l, P a :=
  (yields_mark _).bind fun _ _ => yields_get fun _ _ => (yields_items _ h _).bind fun _ hl =>
    (yields_mark _).bind fun _ _ => yields_pure hl

theorem yields_from {α : Type} {P : α → Prop} {f : String → α} (h : ∀ s, P (f s)) :
    Yields (do word "from"; return f (← specifier)) P :=
  (yields_word _).bind fun _ _ => yields_specifier.bind fun s _ => yields_pure (h s)

theorem parsed_import {bindings : List ImportBinding} (h : ∀ b ∈ bindings, b.WellFormed)
    (source : String) : (StatementKind.importFrom bindings source).Parsed := by
  refine ⟨?_, List.forall_mem_nil _⟩
  match bindings, h with
  | [], h | .named _ _ :: _, h | .whole _ :: _ :: _, h => exact h
  | [.whole _], h => exact (h _ List.mem_cons_self).elim

theorem yields_importClause : Yields importClause StatementKind.Parsed := by
  refine yields_get fun c _ => ?_
  split
  · exact yields_skip_bind (yields_pure (parsed_import (List.forall_mem_nil _) _))
  · refine yields_get fun c _ => ?_
    split
    · exact yields_skip_bind ((yields_word _).bind fun _ _ => yields_identifier.bind fun b hb =>
        (yields_pure (P := fun l => l = [ImportBinding.whole b]) rfl).bind fun l hl =>
          yields_from fun s => ⟨by subst hl; exact hb, List.forall_mem_nil _⟩)
    · refine (yields_braces (P := ImportBinding.WellFormed) ?_).bind fun l hl =>
        yields_from fun s => parsed_import hl s
      exact (yields_renamed yields_identifier).bind fun r hr => yields_pure hr

theorem yields_moduleClause : Yields moduleClause StatementKind.Parsed :=
  yields_identifier.bind fun _ hb => yields_from fun _ => ⟨hb, List.forall_mem_nil _⟩

theorem parsed_exportNamed {l : List ExportSpecifier}
    (h : ∀ s ∈ l, IsName s.name ∧ IsName s.exported) (source : Option String) :
    (StatementKind.exportNamed l source).Parsed := ⟨h, List.forall_mem_nil _⟩

theorem yields_exportClause : Yields exportClause StatementKind.Parsed := by
  refine yields_get fun c _ => ?_
  split
  · exact yields_skip_bind (yields_declarators.bind fun l hl => yields_pure (parsed_var hl))
  · exact yields_skip_bind (yields_wholeExpression.bind fun e he => yields_pure he)
  · exact yields_skip_bind (yields_from fun s => ⟨trivial, List.forall_mem_nil _⟩)
  · refine (yields_braces (P := fun s => IsName s.name ∧ IsName s.exported) ?_).bind fun l hl =>
      yields_get fun c _ => ?_
    · exact (yields_renamed yields_name).bind fun r hr => yields_pure
        ⟨hr.1, hr.2.elim (fun h => h ▸ hr.1) id⟩
    · split
      · exact yields_skip_bind (yields_specifier.bind fun s _ =>
          yields_pure (parsed_exportNamed hl _))
      · exact yields_pure (parsed_exportNamed hl _)
  · exact yields_error _

theorem yields_statementKind : Yields statementKind StatementKind.Parsed := by
  refine yields_get fun c _ => ?_
  split
  · exact yields_skip_bind yields_importClause
  · exact yields_skip_bind yields_exportClause
  · exact yields_skip_bind (yields_declarators.bind fun l hl => yields_pure (parsed_var hl))
  · refine yields_get fun c _ => ?_
    split
    · exact yields_skip_bind yields_moduleClause
    · exact yields_wholeExpression.bind fun e he => yields_pure he

theorem yields_semicolon : Yields semicolon fun _ => True := by
  refine yields_get fun c _ => ?_
  split
  · exact yields_pure trivial
  · exact yields_mark _

theorem yields_statement : Yields statement fun s => s.kind.Parsed :=
  yields_get fun _ _ => yields_statementKind.bind fun _ hk => yields_semicolon.bind fun _ _ =>
    yields_get fun _ _ => yields_pure hk

theorem yields_statements (n : ℕ) : Yields (statements n) fun l => ∀ s ∈ l, s.kind.Parsed := by
  induction n with
  | zero => exact yields_pure (List.forall_mem_nil _)
  | succ n ih =>
    refine yields_get fun c _ => ?_
    split
    · exact yields_pure (List.forall_mem_nil _)
    · refine yields_get fun c _ => ?_
      split
      · exact yields_skip_bind ih
      · exact yields_statement.bind fun s hs => ih.bind fun l hl =>
          yields_pure (List.forall_mem_cons.2 ⟨hs, hl⟩)

end Parse

/-- The statements of a source text are well formed, and no zero in them has a sign. -/
theorem parsed_ofSource {source : List Char} {p : Program} (h : Program.ofSource source = .ok p) :
    ∀ s ∈ p.body, s.kind.Parsed := by
  obtain ⟨c, hrun⟩ := ofSource_eq_ok.1 h
  have hscanned : Cursor.Scanned ⟨tokens source, 0, Text.byteLength source⟩ := scanned_tokensOf _ _
  exact (Parse.yields_statements _ _ _ _ hscanned hrun).1

end ModuleLoader.Dialect
