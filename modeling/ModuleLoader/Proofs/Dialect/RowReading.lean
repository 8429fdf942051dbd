import ModuleLoader.Proofs.Dialect.Descents
import ModuleLoader.Proofs.Dialect.StatementRows

/-! # Reading rows of trees

The row of tokens that spells a tree is read as that tree. An operand is read as a primary with the
links behind it, which the descent takes one by one; everything else follows the levels of the
grammar.
-/

namespace ModuleLoader.Dialect

namespace Expression

/-- The row of an expression where it is an operand. -/
def operandRow (e : Expression) : List TokenKind := enclosedRow e.isCompound e.tokens

/-- The number of members and indices at the end of an expression. -/
def links : Expression → ℕ
  | member object _ => object.links + 1
  | index object _ => object.links + 1
  | _ => 0

theorem operandRow_compound {e : Expression} (h : e.isCompound = true) :
    e.operandRow = .mark .leftParen :: (e.tokens ++ [.mark .rightParen]) := by
  rw [operandRow, h]
  rfl

theorem operandRow_plain {e : Expression} (h : e.isCompound = false) : e.operandRow = e.tokens := by
  rw [operandRow, h]
  rfl

theorem operandRow_member (object : Expression) (property : String) :
    (member object property).operandRow =
      object.operandRow ++ [.mark .dot, wordKind property.toList] := rfl

theorem operandRow_index (object key : Expression) : (index object key).operandRow =
    object.operandRow ++ .mark .leftBracket :: (key.tokens ++ [.mark .rightBracket]) := rfl

theorem tokens_binary (op : BinaryOp) (left right : Expression) : (binary op left right).tokens =
    left.operandRow ++ .mark op.mark :: right.operandRow := rfl

theorem tokens_negate (operand : Expression) :
    (negate operand).tokens = .mark .minus :: operand.operandRow := rfl

theorem links_compound {e : Expression} (h : e.isCompound = true) : e.links = 0 := by
  cases e <;> first | rfl | cases h

theorem tokensAll_eq (es : List Expression) : tokensAll es = es.map tokens := by
  induction es with
  | nil => rfl
  | cons e es ih => rw [tokensAll, List.map_cons, ih]

theorem length_tokens_pos (e : Expression) : 0 < e.tokens.length := by
  cases e with
  | boolean b => cases b <;> exact Nat.one_pos
  | _ => simp [tokens]

theorem links_le : ∀ e : Expression, e.links ≤ e.operandRow.length
  | member object property => by
    have := object.links_le
    simp only [operandRow_member, links, List.length_append, List.length_cons, List.length_nil]
    omega
  | index object key => by
    have := object.links_le
    simp only [operandRow_index, links, List.length_append, List.length_cons]
    omega
  | number _ | string _ | boolean _ | null | identifier _ | self | array _ | negate _
  | binary _ _ _ | assign _ _ _ | increment _ => Nat.zero_le _

/-- An operand begins with an opening mark or with no mark. -/
theorem startsMark_operandRow {m : Mark} (hp : m ≠ .leftParen) (hb : m ≠ .leftBracket) :
    ∀ (e : Expression) (ks : List TokenKind), startsMark m (e.operandRow ++ ks) = false
  | member object property, ks => by
    rw [operandRow_member, List.append_assoc]
    exact startsMark_operandRow hp hb object _
  | index object key, ks => by
    rw [operandRow_index, List.append_assoc]
    exact startsMark_operandRow hp hb object _
  | number x, ks => by
    cases h : (number x).isCompound with
    | true =>
      rw [operandRow_compound h]
      exact decide_eq_false hp.symm
    | false =>
      rw [operandRow_plain h]
      rfl
  | boolean true, _ | boolean false, _ => rfl
  | string _, _ | null, _ | identifier _, _ | self, _ => rfl
  | array _, _ => decide_eq_false hb.symm
  | negate _, _ | binary _ _ _, _ | assign _ _ _, _ | increment _, _ => decide_eq_false hp.symm

/-- An expression begins with an opening mark, a minus sign or no mark. -/
theorem startsMark_tokens {m : Mark} (hp : m ≠ .leftParen) (hb : m ≠ .leftBracket)
    (hm : m ≠ .minus) :
    ∀ (e : Expression) (ks : List TokenKind), startsMark m (e.tokens ++ ks) = false
  | binary op left right, ks => by
    rw [tokens_binary, List.append_assoc]
    exact startsMark_operandRow hp hb left _
  | assign adding target value, ks => by
    rw [tokens, List.append_assoc]
    exact startsMark_tokens hp hb hm target _
  | increment target, ks => by
    rw [tokens, List.append_assoc]
    exact startsMark_tokens hp hb hm target _
  | negate _, _ => decide_eq_false hm.symm
  | member object property, ks => startsMark_operandRow hp hb (member object property) ks
  | index object key, ks => startsMark_operandRow hp hb (index object key) ks
  | boolean true, _ | boolean false, _ => rfl
  | number _, _ | string _, _ | null, _ | identifier _, _ | self, _ => rfl
  | array _, _ => decide_eq_false hb.symm

end Expression

/-! ## Reading expressions -/

namespace Parse

open Expression

/-- Whether a primary and the links behind it read an operand, and go on with what is behind. -/
def ReadsOperand (e : Expression) : Prop :=
  ∀ (n : ℕ) (ks : List TokenKind) (b : Expression) (ks' : List TokenKind),
    8 * e.operandRow.length ≤ n → Reads (chainTail (n - e.links) e) ks b ks' →
      Reads (primary n >>= chainTail n) (e.operandRow ++ ks) b ks'

/-- Whether a descent of enough levels reads a whole expression. -/
def ReadsWhole (e : Expression) : Prop :=
  ∀ (n : ℕ) (ks : List TokenKind), 8 * e.tokens.length + 8 ≤ n → Stops expressionMarks ks →
    Reads (expression n) (e.tokens ++ ks) e ks

section Operands

variable {e : Expression} {n : ℕ} {ks : List TokenKind}

theorem ReadsOperand.links (h : ReadsOperand e) (hn : 8 * e.operandRow.length ≤ n)
    (hs : Stops linkMarks ks) :
    Reads (primary n >>= chainTail n) (e.operandRow ++ ks) e ks :=
  h n ks e ks hn (reads_chainTail_stop _ _ hs)

theorem ReadsOperand.chain (h : ReadsOperand e) (hn : 8 * e.operandRow.length < n)
    (hs : Stops chainMarks ks) : Reads (chain n) (e.operandRow ++ ks) e ks := by
  obtain ⟨n, rfl⟩ := Nat.exists_eq_add_of_le' (show 1 ≤ n by omega)
  exact reads_chain (h.links (by omega) (hs.mono (by decide))) hs

theorem ReadsOperand.factor (h : ReadsOperand e) (hn : 8 * e.operandRow.length + 1 < n)
    (hs : Stops chainMarks ks) : Reads (factor n) (e.operandRow ++ ks) e ks := by
  obtain ⟨n, rfl⟩ := Nat.exists_eq_add_of_le' (show 1 ≤ n by omega)
  exact reads_factor (h.chain (by omega) hs) (startsMark_operandRow (by decide) (by decide) e ks)

theorem ReadsOperand.product (h : ReadsOperand e) (hn : 8 * e.operandRow.length + 2 < n)
    (hs : Stops productMarks ks) : Reads (product n) (e.operandRow ++ ks) e ks := by
  obtain ⟨n, rfl⟩ := Nat.exists_eq_add_of_le' (show 1 ≤ n by omega)
  exact reads_product (h.factor (by omega) (hs.mono (by decide))) (reads_productTail_stop _ _ hs)

theorem ReadsOperand.sum (h : ReadsOperand e) (hn : 8 * e.operandRow.length + 3 < n)
    (hs : Stops sumMarks ks) : Reads (sum n) (e.operandRow ++ ks) e ks := by
  obtain ⟨n, rfl⟩ := Nat.exists_eq_add_of_le' (show 1 ≤ n by omega)
  exact reads_sum (h.product (by omega) (hs.mono (by decide))) (reads_sumTail_stop _ _ hs)

/-- An expression that needs no parentheses is read like an operand. -/
theorem ReadsOperand.whole (h : ReadsOperand e) (he : e.isCompound = false) : ReadsWhole e := by
  intro n ks hn hs
  obtain ⟨n, rfl⟩ := Nat.exists_eq_add_of_le' (show 1 ≤ n by omega)
  rw [← operandRow_plain he] at hn ⊢
  exact reads_expression (h.sum (by omega) (hs.mono (by decide))) hs

/-- An expression that needs parentheses is read between them. -/
theorem ReadsWhole.operand (h : ReadsWhole e) (he : e.isCompound = true) : ReadsOperand e := by
  intro n ks b ks' hn ht
  rw [operandRow_compound he] at hn ⊢
  obtain ⟨n, rfl⟩ := Nat.exists_eq_add_of_le' (show 1 ≤ n by simp at hn; omega)
  have hin := h n (.mark .rightParen :: ks) (by simp at hn; omega) (stops_mark (by decide) _)
  rw [links_compound he] at ht
  refine Reads.bind ?_ ht
  rw [primary, List.cons_append, List.append_assoc]
  refine reads_get fun c hc => ?_
  rw [Cursor.kind?_eq hc]
  exact (reads_skip _ _).bind (hin.bind ((reads_mark _ _).bind (reads_pure _ _)))

end Operands

/-! ## Operands -/

/-- The expression that a single token spells. -/
def atom? : TokenKind → Option Expression
  | .number x => some (.number x)
  | .string s => some (.string s)
  | .identifier name => some (.identifier name)
  | .keyword .trueWord => some (.boolean true)
  | .keyword .falseWord => some (.boolean false)
  | .keyword .nullWord => some .null
  | .keyword .thisWord => some .self
  | _ => none

theorem reads_primary_atom {k : TokenKind} {e : Expression} (h : atom? k = some e) (n : ℕ)
    (ks : List TokenKind) : Reads (primary (n + 1)) (k :: ks) e ks := by
  rw [primary]
  refine reads_get fun c hc => ?_
  rw [Cursor.kind?_eq hc]
  unfold atom? at h
  split at h
  case h_8 => cases h
  all_goals
    cases h
    exact (reads_skip _ _).bind (reads_pure _ _)

theorem readsOperand_atom {e : Expression} {k : TokenKind} (h : atom? k = some e)
    (hrow : e.operandRow = [k]) (hl : e.links = 0) : ReadsOperand e := by
  intro n ks b ks' hn ht
  rw [hrow] at hn ⊢
  rw [List.length_singleton] at hn
  obtain ⟨n, rfl⟩ := Nat.exists_eq_add_of_le' (show 1 ≤ n by omega)
  rw [hl] at ht
  exact (reads_primary_atom h n ks).bind ht

/-- A link behind an operand is read after it, one step deeper in the descent. -/
theorem readsOperand_link {object e : Expression} {row : List TokenKind} (h : ReadsOperand object)
    (hrow : e.operandRow = object.operandRow ++ row) (hl : e.links = object.links + 1)
    (hne : row ≠ [])
    (hlink : ∀ {k ks b ks'}, 8 * row.length ≤ k + 1 → Reads (chainTail k e) ks b ks' →
      Reads (chainTail (k + 1) object) (row ++ ks) b ks') : ReadsOperand e := by
  intro n ks b ks' hn ht
  have hlinks := object.links_le
  have hpos := List.length_pos_iff.2 hne
  rw [hrow, List.length_append] at hn
  rw [hrow, List.append_assoc]
  refine h n _ b ks' (by omega) ?_
  obtain ⟨k, hk⟩ := Nat.exists_eq_add_of_le' (show 1 ≤ n - object.links by omega)
  rw [hl, show n - (object.links + 1) = k by omega] at ht
  rw [hk]
  exact hlink (by omega) ht

theorem readsOperand_member {object : Expression} (h : ReadsOperand object) (p : String) :
    ReadsOperand (.member object p) :=
  readsOperand_link h (operandRow_member object p) rfl (List.cons_ne_nil _ _)
    fun _ ht => reads_chainTail_member ht

theorem readsOperand_index {object key : Expression} (h : ReadsOperand object)
    (hk : ReadsWhole key) : ReadsOperand (.index object key) := by
  refine readsOperand_link h (operandRow_index object key) rfl (List.cons_ne_nil _ _)
    fun hn ht => ?_
  rw [List.length_cons, List.length_append, List.length_singleton] at hn
  rw [List.cons_append, List.append_assoc]
  exact reads_chainTail_index (hk _ _ (by omega) (stops_mark (by decide) _)) ht

/-- A row of rows with commas between them is long enough for their number and for each of them. -/
theorem length_commaRow {α : Type} {row : α → List TokenKind} {l : List α}
    (h : ∀ a ∈ l, 0 < (row a).length) : l.length ≤ (commaRow (l.map row)).length ∧
      ∀ a ∈ l, (row a).length ≤ (commaRow (l.map row)).length := by
  induction l with
  | nil => simp
  | cons a l ih =>
    have ha := h a (by simp)
    obtain ⟨hlen, hmem⟩ := ih fun b hb => h b (by simp [hb])
    cases l with
    | nil => simpa [commaRow, Nat.succ_le_iff] using ha
    | cons b l =>
      have hrow : (commaRow ((a :: b :: l).map row)).length =
          (row a).length + (commaRow ((b :: l).map row)).length + 1 := by
        rw [List.map_cons, List.map_cons, commaRow, List.length_append, List.length_cons,
          Nat.add_assoc]
      rw [hrow]
      refine ⟨by rw [List.length_cons]; omega, fun t ht => ?_⟩
      rcases List.mem_cons.1 ht with rfl | ht
      · omega
      · have := hmem t ht
        omega

theorem readsOperand_array {es : List Expression} (h : ∀ e ∈ es, ReadsWhole e) :
    ReadsOperand (.array es) := by
  intro n ks b ks' hn ht
  have hrow : (Expression.array es).operandRow =
      .mark .leftBracket :: (commaRow (es.map Expression.tokens) ++ [.mark .rightBracket]) := by
    rw [operandRow_plain rfl, Expression.tokens, tokensAll_eq]
  obtain ⟨hlen, hmem⟩ := length_commaRow (l := es) fun e _ => e.length_tokens_pos
  simp only [hrow, List.length_cons, List.length_append, List.length_nil] at hn
  obtain ⟨n, rfl⟩ := Nat.exists_eq_add_of_le' (show 1 ≤ n by omega)
  refine Reads.bind ?_ ht
  have hitems : Reads (items .rightBracket (expression n) n)
      (commaRow (es.map Expression.tokens) ++ .mark .rightBracket :: ks) es
      (.mark .rightBracket :: ks) := by
    refine reads_items (by decide) (fun e he m ks hm => ⟨?_, ?_⟩) (by omega)
    · exact startsMark_tokens (by decide) (by decide) (by decide) e _
    · have hle := hmem e he
      refine h e he n _ (by omega) (stops_mark ?_ _)
      rcases hm with rfl | rfl <;> decide
  rw [hrow, primary, List.cons_append, List.append_assoc]
  refine reads_get fun c hc => ?_
  rw [Cursor.kind?_eq hc]
  exact (reads_skip _ _).bind (hitems.bind ((reads_mark _ _).bind (reads_pure _ _)))

/-! ## Whole expressions -/

section Levels

variable {n : ℕ} {e : Expression} {ks ks' : List TokenKind}

theorem reads_expression_of_product (h : Reads (product n) ks e ks')
    (hs : Stops expressionMarks ks') : Reads (expression (n + 2)) ks e ks' :=
  reads_expression (reads_sum h (reads_sumTail_stop _ _ (hs.mono (by decide)))) hs

theorem reads_expression_of_factor (h : Reads (factor n) ks e ks')
    (hs : Stops expressionMarks ks') : Reads (expression (n + 3)) ks e ks' :=
  reads_expression_of_product
    (reads_product h (reads_productTail_stop _ _ (hs.mono (by decide)))) hs

end Levels

theorem readsWhole_negate {e : Expression} (h : ReadsOperand e) : ReadsWhole (.negate e) := by
  intro n ks hn hs
  rw [tokens_negate] at hn ⊢
  rw [List.length_cons] at hn
  obtain ⟨n, rfl⟩ := Nat.exists_eq_add_of_le' (show 4 ≤ n by omega)
  exact reads_expression_of_factor
    (reads_factor_negate (h.factor (by omega) (hs.mono (by decide)))) hs

theorem readsWhole_sum {op : BinaryOp} (hop : op = .add ∨ op = .sub) {left right : Expression}
    (h : ReadsOperand left) (h' : ReadsOperand right) : ReadsWhole (.binary op left right) := by
  intro n ks hn hs
  rw [tokens_binary] at hn ⊢
  rw [List.length_append, List.length_cons] at hn
  obtain ⟨n, rfl⟩ := Nat.exists_eq_add_of_le' (show 3 ≤ n by omega)
  have hm : op.mark ∉ productMarks := by rcases hop with rfl | rfl <;> decide
  rw [List.append_assoc, List.cons_append]
  have hl := h.product (n := n + 1) (by omega)
    (stops_mark hm (right.operandRow ++ ks))
  have hr := h'.product (n := n) (by omega) (hs.mono (by decide))
  have ht := reads_sumTail hop hr
    (reads_sumTail_stop n (.binary op left right) (hs.mono (by decide)))
  exact reads_expression (reads_sum hl ht) hs

theorem readsWhole_product {op : BinaryOp} (hop : op = .mul ∨ op = .div) {left right : Expression}
    (h : ReadsOperand left) (h' : ReadsOperand right) : ReadsWhole (.binary op left right) := by
  intro n ks hn hs
  rw [tokens_binary] at hn ⊢
  rw [List.length_append, List.length_cons] at hn
  obtain ⟨n, rfl⟩ := Nat.exists_eq_add_of_le' (show 4 ≤ n by omega)
  have hm : op.mark ∉ chainMarks := by rcases hop with rfl | rfl <;> decide
  rw [List.append_assoc, List.cons_append]
  have hl := h.factor (n := n + 1) (by omega) (stops_mark hm (right.operandRow ++ ks))
  have hr := h'.factor (n := n) (by omega) (hs.mono (by decide))
  have ht := reads_productTail hop hr
    (reads_productTail_stop n (.binary op left right) (hs.mono (by decide)))
  exact reads_expression_of_product (reads_product hl ht) hs

theorem isCompound_of_isAssignable {e : Expression} (h : e.isAssignable = true) :
    e.isCompound = false := by
  cases e <;> first | rfl | cases h

theorem readsWhole_assign {adding : Bool} {target value : Expression}
    (ha : target.isAssignable = true) (h : ReadsOperand target) (h' : ReadsWhole value) :
    ReadsWhole (.assign adding target value) := by
  intro n ks hn hs
  have hrow := operandRow_plain (isCompound_of_isAssignable ha)
  rw [Expression.tokens, ← hrow] at hn ⊢
  rw [List.length_append, List.length_cons] at hn
  obtain ⟨n, rfl⟩ := Nat.exists_eq_add_of_le' (show 1 ≤ n by omega)
  have hm : assignMark adding ∉ sumMarks := by cases adding <;> decide
  rw [List.append_assoc, List.cons_append]
  exact reads_expression_assign ha (h.sum (by omega) (stops_mark hm _)) (h' n ks (by omega) hs)

theorem readsWhole_increment {target : Expression} (ha : target.isAssignable = true)
    (h : ReadsOperand target) : ReadsWhole (.increment target) := by
  intro n ks hn hs
  have hrow := operandRow_plain (isCompound_of_isAssignable ha)
  rw [Expression.tokens, ← hrow] at hn ⊢
  rw [List.length_append, List.length_cons] at hn
  obtain ⟨n, rfl⟩ := Nat.exists_eq_add_of_le' (show 5 ≤ n by omega)
  rw [List.append_assoc, List.singleton_append]
  have hl := h.links (n := n) (by omega) (stops_mark (m := .plusPlus) (by decide) ks)
  have hf := reads_factor (reads_chain_increment hl ha)
    (startsMark_operandRow (by decide) (by decide) target _)
  exact reads_expression_of_factor hf hs

/-! ## All expressions -/

theorem readsOperand_number {x : Float} (h : 0.0 ≤ x) : ReadsOperand (.number x) :=
  readsOperand_atom rfl (operandRow_plain (decide_eq_false (Binary64.not_lt_zero h))) rfl

theorem reads_plain {e : Expression} (h : ReadsOperand e) (he : e.isCompound = false) :
    ReadsOperand e ∧ ReadsWhole e := ⟨h, h.whole he⟩

theorem reads_compound {e : Expression} (h : ReadsWhole e) (he : e.isCompound = true) :
    ReadsOperand e ∧ ReadsWhole e := ⟨h.operand he, h⟩

mutual

/-- The row of a well-formed expression is read as the expression, also where it is an operand. -/
theorem reads_tokens : ∀ e : Expression, e.WellFormed → ReadsOperand e ∧ ReadsWhole e
  | .number _, h =>
    reads_plain (readsOperand_number h) (decide_eq_false (Binary64.not_lt_zero h))
  | .string _, _ => reads_plain (readsOperand_atom rfl rfl rfl) rfl
  | .boolean true, _ => reads_plain (readsOperand_atom rfl rfl rfl) rfl
  | .boolean false, _ => reads_plain (readsOperand_atom rfl rfl rfl) rfl
  | .null, _ => reads_plain (readsOperand_atom rfl rfl rfl) rfl
  | .identifier _, _ => reads_plain (readsOperand_atom rfl rfl rfl) rfl
  | .self, _ => reads_plain (readsOperand_atom rfl rfl rfl) rfl
  | .array elements, h => reads_plain (readsOperand_array (reads_tokensAll elements h)) rfl
  | .member object property, h =>
    reads_plain (readsOperand_member (reads_tokens object h.1).1 property) rfl
  | .index object key, h =>
    reads_plain (readsOperand_index (reads_tokens object h.1).1 (reads_tokens key h.2).2) rfl
  | .negate operand, h => reads_compound (readsWhole_negate (reads_tokens operand h).1) rfl
  | .binary .add left right, h =>
    reads_compound
      (readsWhole_sum (.inl rfl) (reads_tokens left h.1).1 (reads_tokens right h.2).1) rfl
  | .binary .sub left right, h =>
    reads_compound
      (readsWhole_sum (.inr rfl) (reads_tokens left h.1).1 (reads_tokens right h.2).1) rfl
  | .binary .mul left right, h =>
    reads_compound
      (readsWhole_product (.inl rfl) (reads_tokens left h.1).1 (reads_tokens right h.2).1) rfl
  | .binary .div left right, h =>
    reads_compound
      (readsWhole_product (.inr rfl) (reads_tokens left h.1).1 (reads_tokens right h.2).1) rfl
  | .assign _ target value, h =>
    reads_compound
      (readsWhole_assign h.1 (reads_tokens target h.2.1).1 (reads_tokens value h.2.2).2) rfl
  | .increment target, h =>
    reads_compound (readsWhole_increment h.1 (reads_tokens target h.2).1) rfl

/-- The rows of well-formed expressions are read as the expressions. -/
theorem reads_tokensAll : ∀ es : List Expression, AllWellFormed es → ∀ e ∈ es, ReadsWhole e
  | [], _ => List.forall_mem_nil _
  | e :: es, h => List.forall_mem_cons.2 ⟨(reads_tokens e h.1).2, reads_tokensAll es h.2⟩

end

end Parse

end ModuleLoader.Dialect
