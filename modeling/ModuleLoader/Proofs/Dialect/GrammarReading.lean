import ModuleLoader.Proofs.Dialect.Derivations

/-! # Reading derived rows

Every row that the grammar derives is read as its tree, by a descent with depth enough for its
tokens, provided that what is behind the row does not go on with it. So the parser accepts what the
grammar derives and nothing else.
-/

namespace ModuleLoader.Dialect

/-! ## First tokens -/

/-- An expression begins with an opening mark, a minus sign or no mark, a chain not with a minus
sign. -/
theorem Derives.startsMark {level : Level} {ks : List TokenKind} {e : Expression}
    (h : Derives level ks e) {m : Mark} (hp : m ≠ .leftParen) (hb : m ≠ .leftBracket)
    (hm : m ≠ .minus ∨ level = .primary ∨ level = .chain) (rest : List TokenKind) :
    startsMark m (ks ++ rest) = false := by
  induction h generalizing rest with
  | @atom k e hk =>
    cases k with
    | mark => cases hk
    | _ => rfl
  | parentheses => exact decide_eq_false hp.symm
  | array => exact decide_eq_false hb.symm
  | primary _ ih => exact ih (.inr (.inl rfl)) rest
  | member _ _ ih | index _ _ ih _ =>
    rw [List.append_assoc]
    exact ih (.inr (.inr rfl)) _
  | chain _ ih => exact ih (.inr (.inr rfl)) rest
  | increment _ _ ih | assign _ _ _ ih _ =>
    rw [List.append_assoc]
    exact ih (.inr (.inr rfl)) _
  | negate =>
    have hminus : m ≠ .minus := by simpa using hm
    exact decide_eq_false hminus.symm
  | factor _ ih | product _ ih | sum _ ih => exact ih (.inl (by simpa using hm)) rest
  | multiply _ _ _ ih _ | add _ _ _ ih _ =>
    rw [List.append_assoc]
    exact ih (.inl (by simpa using hm)) _

/-- Whether a row is empty or begins with a mark. -/
def MarkedStart (ks : List TokenKind) : Prop := ks = [] ∨ ∃ m rest, ks = .mark m :: rest

theorem markedStart_mark (m : Mark) (ks : List TokenKind) : MarkedStart (.mark m :: ks) :=
  .inr ⟨m, ks, rfl⟩

/-- An expression is no declaration, for behind an identifier it goes on with a mark. -/
theorem Derives.plainStart {level : Level} {ks : List TokenKind} {e : Expression}
    (h : Derives level ks e) {rest : List TokenKind} (hr : MarkedStart rest) :
    Parse.PlainStart (ks ++ rest) := by
  induction h generalizing rest with
  | @atom k e hk =>
    cases k with
    | keyword w => cases w <;> trivial
    | identifier name =>
      rcases hr with rfl | ⟨m, rest, rfl⟩ <;> trivial
    | _ => trivial
  | parentheses | array | negate => trivial
  | primary _ ih | chain _ ih | factor _ ih | product _ ih | sum _ ih => exact ih hr
  | member _ _ ih | index _ _ ih _ | increment _ _ ih | multiply _ _ _ ih _ | add _ _ _ ih _
    | assign _ _ _ ih _ =>
    rw [List.append_assoc]
    exact ih (markedStart_mark _ _)

namespace Parse

/-! ## Levels -/

/-- Whether a descent reads a row as an expression of a level. Behind a chain, a product or a sum it
goes on with what is behind the row, one step deeper for each link or operator of the row. -/
def ReadsAt (level : Level) (ks : List TokenKind) (e : Expression) : Prop :=
  match level with
  | .primary => ∀ n rest, 8 * ks.length ≤ n → Reads (primary n) (ks ++ rest) e rest
  | .chain => ∃ d ≤ ks.length, ∀ n rest b ks', 8 * ks.length ≤ n →
      Reads (chainTail (n - d) e) rest b ks' → Reads (primary n >>= chainTail n) (ks ++ rest) b ks'
  | .factor => ∀ n rest, 8 * ks.length + 2 ≤ n → Stops chainMarks rest →
      Reads (factor n) (ks ++ rest) e rest
  | .product => ∃ d ≤ ks.length, ∀ n rest b ks', 8 * ks.length + 2 ≤ n → Stops chainMarks rest →
      Reads (productTail (n - d) e) rest b ks' →
      Reads (factor n >>= productTail n) (ks ++ rest) b ks'
  | .sum => ∃ d ≤ ks.length, ∀ n rest b ks', 8 * ks.length + 3 ≤ n → Stops productMarks rest →
      Reads (sumTail (n - d) e) rest b ks' → Reads (product n >>= sumTail n) (ks ++ rest) b ks'
  | .expression => ∀ n rest, 8 * ks.length + 5 ≤ n → Stops expressionMarks rest →
      Reads (expression n) (ks ++ rest) e rest

section Levels

variable {ks ks' : List TokenKind} {e e' : Expression}

theorem readsAt_atom {k : TokenKind} (h : atom? k = some e) : ReadsAt .primary [k] e := by
  intro n rest hn
  rw [List.length_singleton] at hn
  obtain ⟨n, rfl⟩ := Nat.exists_eq_add_of_le' (show 1 ≤ n by omega)
  exact reads_primary_atom h n rest

theorem readsAt_parentheses (h : ReadsAt .expression ks e) :
    ReadsAt .primary (.mark .leftParen :: (ks ++ [.mark .rightParen])) e := by
  intro n rest hn
  simp only [List.length_cons, List.length_append, List.length_nil] at hn
  obtain ⟨n, rfl⟩ := Nat.exists_eq_add_of_le' (show 1 ≤ n by omega)
  have hin := h n (.mark .rightParen :: rest) (by omega) (stops_mark (by decide) _)
  rw [primary, List.cons_append, List.append_assoc]
  refine reads_get fun c hc => ?_
  rw [Cursor.kind?_eq hc]
  exact (reads_skip _ _).bind (hin.bind ((reads_mark _ _).bind (reads_pure _ _)))

theorem length_le_listRow (trailing : Bool) (rows : List (List TokenKind)) :
    (commaRow rows).length ≤ (listRow trailing rows).length := by
  rw [listRow, List.length_append]
  exact Nat.le_add_right _ _

theorem readsAt_array {rows : List (List TokenKind × Expression)} (trailing : Bool)
    (hd : ∀ r ∈ rows, Derives .expression r.1 r.2) (h : ∀ r ∈ rows, ReadsAt .expression r.1 r.2) :
    ReadsAt .primary (.mark .leftBracket :: (listRow trailing (rows.map Prod.fst) ++
      [.mark .rightBracket])) (.array (rows.map Prod.snd)) := by
  intro n rest hn
  simp only [List.length_cons, List.length_append, List.length_nil] at hn
  obtain ⟨n, rfl⟩ := Nat.exists_eq_add_of_le' (show 1 ≤ n by omega)
  obtain ⟨hlen, hmem⟩ := length_commaRow fun r hr => List.length_pos_iff.2 (hd r hr).ne_nil
  have hle := length_le_listRow trailing (rows.map Prod.fst)
  have hitems : Reads (items .rightBracket (expression n) n)
      (listRow trailing (rows.map Prod.fst) ++ .mark .rightBracket :: rest) (rows.map Prod.snd)
      (.mark .rightBracket :: rest) := by
    refine reads_listRow (by decide) (fun r hr m ks hm => ⟨?_, ?_⟩) trailing (by omega)
    · exact (hd r hr).startsMark (by decide) (by decide) (.inl (by decide)) _
    · have := hmem r hr
      refine h r hr n _ (by omega) (stops_mark ?_ _)
      rcases hm with rfl | rfl <;> decide
  rw [primary, List.cons_append, List.append_assoc]
  refine reads_get fun c hc => ?_
  rw [Cursor.kind?_eq hc]
  exact (reads_skip _ _).bind (hitems.bind ((reads_mark _ _).bind (reads_pure _ _)))

theorem readsAt_chain (h : ReadsAt .primary ks e) : ReadsAt .chain ks e :=
  ⟨0, Nat.zero_le _, fun n rest _ _ hn ht => (h n rest hn).bind ht⟩

/-- A link behind a chain is read after it, one step deeper. -/
theorem readsAt_link {row : List TokenKind} (h : ReadsAt .chain ks e) (hne : row ≠ [])
    (hlink : ∀ {k rest b ks'}, 8 * row.length ≤ k + 1 → Reads (chainTail k e') rest b ks' →
      Reads (chainTail (k + 1) e) (row ++ rest) b ks') : ReadsAt .chain (ks ++ row) e' := by
  obtain ⟨d, hd, h⟩ := h
  have hpos := List.length_pos_iff.2 hne
  refine ⟨d + 1, by rw [List.length_append]; omega, fun n rest b ks'' hn ht => ?_⟩
  rw [List.length_append] at hn
  rw [List.append_assoc]
  refine h n _ b ks'' (by omega) ?_
  obtain ⟨k, hk⟩ := Nat.exists_eq_add_of_le' (show 1 ≤ n - d by omega)
  rw [show n - (d + 1) = k by omega] at ht
  rw [hk]
  exact hlink (by omega) ht

theorem reads_name? {k : TokenKind} {s : String} (h : k.name? = some s) (ks : List TokenKind) :
    Reads name (k :: ks) s ks := by
  refine reads_get fun c hc => ?_
  rw [Cursor.kind?_eq hc]
  cases k with
  | identifier name =>
    cases h
    exact (reads_skip _ _).bind (reads_pure _ _)
  | keyword k =>
    cases h
    exact (reads_skip _ _).bind (reads_pure _ _)
  | _ => cases h

theorem readsAt_member (h : ReadsAt .chain ks e) {k : TokenKind} {p : String}
    (hk : k.name? = some p) : ReadsAt .chain (ks ++ [.mark .dot, k]) (.member e p) := by
  refine readsAt_link h (List.cons_ne_nil _ _) fun _ ht => ?_
  rw [chainTail]
  exact reads_mark_pos rfl ((reads_skip _ _).bind ((reads_name? hk _).bind ht))

theorem readsAt_index (h : ReadsAt .chain ks e) (h' : ReadsAt .expression ks' e') :
    ReadsAt .chain (ks ++ .mark .leftBracket :: (ks' ++ [.mark .rightBracket])) (.index e e') := by
  refine readsAt_link h (List.cons_ne_nil _ _) fun hn ht => ?_
  rw [List.length_cons, List.length_append, List.length_singleton] at hn
  rw [List.cons_append, List.append_assoc]
  exact reads_chainTail_index (h' _ _ (by omega) (stops_mark (by decide) _)) ht

theorem readsAt_factor (h : ReadsAt .chain ks e)
    (hm : ∀ rest, startsMark .minus (ks ++ rest) = false) : ReadsAt .factor ks e := by
  obtain ⟨d, -, h⟩ := h
  intro n rest hn hs
  obtain ⟨n, rfl⟩ := Nat.exists_eq_add_of_le' (show 2 ≤ n by omega)
  have hl := h n rest e rest (by omega) (reads_chainTail_stop _ _ (hs.mono (by decide)))
  exact reads_factor (reads_chain hl hs) (hm rest)

theorem readsAt_increment (h : ReadsAt .chain ks e)
    (hm : ∀ rest, startsMark .minus (ks ++ rest) = false) (ha : e.isAssignable = true) :
    ReadsAt .factor (ks ++ [.mark .plusPlus]) (.increment e) := by
  obtain ⟨d, -, h⟩ := h
  intro n rest hn _
  rw [List.length_append, List.length_singleton] at hn
  obtain ⟨n, rfl⟩ := Nat.exists_eq_add_of_le' (show 2 ≤ n by omega)
  rw [List.append_assoc, List.singleton_append]
  have hl := h n _ e _ (by omega)
    (reads_chainTail_stop (n - d) e (stops_mark (m := .plusPlus) (by decide) rest))
  exact reads_factor (reads_chain_increment hl ha) (hm _)

theorem readsAt_negate (h : ReadsAt .factor ks e) :
    ReadsAt .factor (.mark .minus :: ks) (.negate e) := by
  intro n rest hn hs
  rw [List.length_cons] at hn
  obtain ⟨n, rfl⟩ := Nat.exists_eq_add_of_le' (show 1 ≤ n by omega)
  exact reads_factor_negate (h n rest (by omega) hs)

theorem readsAt_product (h : ReadsAt .factor ks e) : ReadsAt .product ks e :=
  ⟨0, Nat.zero_le _, fun n rest _ _ hn hs ht => (h n rest hn hs).bind ht⟩

theorem readsAt_multiply {op : BinaryOp} (hop : op = .mul ∨ op = .div)
    (h : ReadsAt .product ks e) (h' : ReadsAt .factor ks' e') :
    ReadsAt .product (ks ++ .mark op.mark :: ks') (.binary op e e') := by
  obtain ⟨d, hd, h⟩ := h
  have hm : op.mark ∉ chainMarks := by rcases hop with rfl | rfl <;> decide
  refine ⟨d + 1, by simp; omega, fun n rest b ks'' hn hs ht => ?_⟩
  rw [List.length_append, List.length_cons] at hn
  rw [List.append_assoc, List.cons_append]
  refine h n _ b ks'' (by omega) (stops_mark hm _) ?_
  rw [show n - d = n - (d + 1) + 1 by omega]
  exact reads_productTail hop (h' _ rest (by omega) hs) ht

theorem readsAt_sum (h : ReadsAt .product ks e) : ReadsAt .sum ks e := by
  obtain ⟨d, -, h⟩ := h
  refine ⟨0, Nat.zero_le _, fun n rest b ks' hn hs ht => ?_⟩
  obtain ⟨n, rfl⟩ := Nat.exists_eq_add_of_le' (show 1 ≤ n by omega)
  have hp := h n rest e rest (by omega) (hs.mono (by decide)) (reads_productTail_stop _ _ hs)
  rw [Parse.product]
  exact hp.bind ht

theorem readsAt_add {op : BinaryOp} (hop : op = .add ∨ op = .sub) (h : ReadsAt .sum ks e)
    (h' : ReadsAt .product ks' e') :
    ReadsAt .sum (ks ++ .mark op.mark :: ks') (.binary op e e') := by
  obtain ⟨d, hd, h⟩ := h
  obtain ⟨d', -, h'⟩ := h'
  have hm : op.mark ∉ productMarks := by rcases hop with rfl | rfl <;> decide
  refine ⟨d + 1, by simp; omega, fun n rest b ks'' hn hs ht => ?_⟩
  rw [List.length_append, List.length_cons] at hn
  rw [List.append_assoc, List.cons_append]
  refine h n _ b ks'' (by omega) (stops_mark hm _) ?_
  obtain ⟨k, hk⟩ := Nat.exists_eq_add_of_le' (show 1 ≤ n - (d + 1) by omega)
  have hright := h' k rest e' rest (by omega) (hs.mono (by decide)) (reads_productTail_stop _ _ hs)
  rw [show n - d = n - (d + 1) + 1 by omega]
  refine reads_sumTail hop ?_ ht
  rw [hk, Parse.product]
  exact hright

theorem ReadsAt.reads_sum (h : ReadsAt .sum ks e) {n : ℕ} {rest : List TokenKind}
    (hn : 8 * ks.length + 4 ≤ n) (hs : Stops sumMarks rest) :
    Reads (sum n) (ks ++ rest) e rest := by
  obtain ⟨d, -, h⟩ := h
  obtain ⟨n, rfl⟩ := Nat.exists_eq_add_of_le' (show 1 ≤ n by omega)
  rw [Parse.sum]
  exact h n rest e rest (by omega) (hs.mono (by decide)) (reads_sumTail_stop _ _ hs)

theorem readsAt_expression (h : ReadsAt .sum ks e) : ReadsAt .expression ks e := by
  intro n rest hn hs
  obtain ⟨n, rfl⟩ := Nat.exists_eq_add_of_le' (show 1 ≤ n by omega)
  exact reads_expression (h.reads_sum (by omega) (hs.mono (by decide))) hs

theorem readsAt_assign {adding : Bool} (h : ReadsAt .sum ks e) (ha : e.isAssignable = true)
    (h' : ReadsAt .expression ks' e') :
    ReadsAt .expression (ks ++ .mark (assignMark adding) :: ks') (.assign adding e e') := by
  intro n rest hn hs
  rw [List.length_append, List.length_cons] at hn
  obtain ⟨n, rfl⟩ := Nat.exists_eq_add_of_le' (show 1 ≤ n by omega)
  have hm : assignMark adding ∉ sumMarks := by cases adding <;> decide
  rw [List.append_assoc, List.cons_append]
  exact reads_expression_assign ha (h.reads_sum (by omega) (stops_mark hm _))
    (h' n rest (by omega) hs)

end Levels

end Parse

theorem Derives.readsAt {level : Level} {ks : List TokenKind} {e : Expression}
    (h : Derives level ks e) : Parse.ReadsAt level ks e := by
  have hminus {ks : List TokenKind} {e : Expression} (h : Derives .chain ks e)
      (rest : List TokenKind) : Dialect.startsMark .minus (ks ++ rest) = false :=
    h.startsMark (by decide) (by decide) (.inr (.inr rfl)) rest
  induction h with
  | atom hk => exact Parse.readsAt_atom hk
  | parentheses _ ih => exact Parse.readsAt_parentheses ih
  | array trailing hrows ih => exact Parse.readsAt_array trailing hrows ih
  | primary _ ih => exact Parse.readsAt_chain ih
  | member _ hk ih => exact Parse.readsAt_member ih hk
  | index _ _ ih ih' => exact Parse.readsAt_index ih ih'
  | chain hc ih => exact Parse.readsAt_factor ih (hminus hc)
  | increment hc ha ih => exact Parse.readsAt_increment ih (hminus hc) ha
  | negate _ ih => exact Parse.readsAt_negate ih
  | factor _ ih => exact Parse.readsAt_product ih
  | multiply hop _ _ ih ih' => exact Parse.readsAt_multiply hop ih ih'
  | product _ ih => exact Parse.readsAt_sum ih
  | add hop _ _ ih ih' => exact Parse.readsAt_add hop ih ih'
  | sum _ ih => exact Parse.readsAt_expression ih
  | assign hc ha _ ih ih' =>
    have hsum := Parse.readsAt_sum (Parse.readsAt_product (Parse.readsAt_factor ih (hminus hc)))
    exact Parse.readsAt_assign hsum ha ih'

/-! ## Lists -/

theorem length_pos_of_row {α : Type} {Item : List TokenKind → α → Prop}
    (hne : ∀ ks a, Item ks a → ks ≠ []) {rows : List (List TokenKind × α)}
    (h : ∀ r ∈ rows, Item r.1 r.2) : ∀ r ∈ rows, 0 < r.1.length :=
  fun r hr => List.length_pos_iff.2 (hne _ _ (h r hr))

theorem RenamedRow.exists_cons {second? : TokenKind → Option String} {ks : List TokenKind}
    {r : String × String} (h : RenamedRow second? ks r) :
    ∃ k ks' s, ks = k :: ks' ∧ k.name? = some s := by
  cases h with
  | plain hk => exact ⟨_, _, _, rfl, hk⟩
  | renamed hk _ => exact ⟨_, _, _, rfl, hk⟩

theorem startsMark_name? {k : TokenKind} {s : String} (h : k.name? = some s) (m : Mark)
    (ks : List TokenKind) : startsMark m (k :: ks) = false := by
  cases k with
  | mark => cases h
  | _ => rfl

namespace Parse

theorem reads_derived {ks rest : List TokenKind} {e : Expression} (h : Derives .expression ks e)
    (hs : Stops expressionMarks rest) : Reads wholeExpression (ks ++ rest) e rest := by
  refine reads_get fun c hc => ?_
  rw [Cursor.length_rest hc, List.length_append]
  exact h.readsAt _ rest (by omega) hs

theorem reads_declaratorRow {ks rest : List TokenKind} {d : Declarator} (h : DeclaratorRow ks d)
    (hs : Stops expressionMarks rest) : Reads declarator (ks ++ rest) d rest := by
  cases h with
  | bare name =>
    exact (reads_identifier name rest).bind
      (reads_mark_neg (hs .equal (by decide)) (reads_pure _ _))
  | value name he =>
    exact (reads_identifier name _).bind
      (reads_mark_pos rfl ((reads_skip _ _).bind ((reads_derived he hs).bind (reads_pure _ _))))

theorem reads_declaratorRows {ks rest : List TokenKind} {l : List Declarator}
    (h : SeparatedRow DeclaratorRow ks l) (hs : Stops (.comma :: expressionMarks) rest) :
    Reads declarators (ks ++ rest) l rest := by
  cases h with
  | @separated rows hne hrows =>
    have hlen := (length_commaRow (length_pos_of_row (fun _ _ h => h.ne_nil) hrows)).1
    refine reads_get fun c hc => ?_
    rw [Cursor.length_rest hc, List.length_append]
    exact reads_commaRow (by decide) hne (fun r hr _ hs => reads_declaratorRow (hrows r hr) hs) hs
      (by omega)

theorem reads_bracesRow {α : Type} {item : Parse α} {Item : List TokenKind → α → Prop}
    (hitem : ∀ ks a, Item ks a → ∀ m rest, startsMark .rightBrace (ks ++ .mark m :: rest) = false ∧
      Reads item (ks ++ .mark m :: rest) a (.mark m :: rest))
    (hne : ∀ ks a, Item ks a → ks ≠ []) {ks : List TokenKind} {l : List α} (h : BracesRow Item ks l)
    (rest : List TokenKind) : Reads (braces item) (ks ++ rest) l rest := by
  cases h with
  | @braces rows trailing hrows =>
    have hlen := (length_commaRow (length_pos_of_row hne hrows)).1
    have hle := length_le_listRow trailing (rows.map Prod.fst)
    rw [List.cons_append, List.append_assoc, List.singleton_append]
    refine (reads_mark _ _).bind (reads_get fun c hc => ?_)
    rw [Cursor.length_rest hc, List.length_append]
    exact (reads_listRow (by decide) (fun r hr m ks _ => hitem _ _ (hrows r hr) m ks) trailing
      (by omega)).bind ((reads_mark _ _).bind (reads_pure _ _))

theorem reads_renamedRow {second : Parse String} {second? : TokenKind → Option String}
    (hsecond : ∀ k s, second? k = some s → ∀ ks, Reads second (k :: ks) s ks) {ks : List TokenKind}
    {r : String × String} (h : RenamedRow second? ks r) (m : Mark) (rest : List TokenKind) :
    Reads (renamed second) (ks ++ .mark m :: rest) r (.mark m :: rest) := by
  cases h with
  | plain hk =>
    refine (reads_name? hk _).bind (reads_get fun c hc => ?_)
    rw [Cursor.atWord_eq hc]
    exact reads_pure _ _
  | renamed hk hk' =>
    refine (reads_name? hk _).bind (reads_get fun c hc => ?_)
    rw [Cursor.atWord_eq hc]
    exact (reads_skip _ _).bind ((hsecond _ _ hk' _).bind (reads_pure _ _))

theorem startsMark_renamed {second? : TokenKind → Option String} {ks : List TokenKind}
    {r : String × String} (h : RenamedRow second? ks r) (m : Mark) (rest : List TokenKind) :
    startsMark m (ks ++ rest) = false := by
  obtain ⟨k, ks, s, rfl, hk⟩ := h.exists_cons
  exact startsMark_name? hk m _

theorem reads_identifier? {k : TokenKind} {s : String} (h : k.identifier? = some s)
    (ks : List TokenKind) : Reads identifier (k :: ks) s ks := by
  cases k with
  | identifier name =>
    cases h
    exact reads_identifier s ks
  | _ => cases h

theorem reads_bindingRows {ks : List TokenKind} {l : List ImportBinding}
    (h : BracesRow BindingRow ks l) (rest : List TokenKind) :
    Reads (braces do
        let (imported, bound) ← renamed identifier
        pure (ImportBinding.named imported bound)) (ks ++ rest) l rest := by
  refine reads_bracesRow (fun ks b hb m rest => ?_) (fun ks b hb => ?_) h rest
  · obtain ⟨hr⟩ := hb
    exact ⟨startsMark_renamed hr _ _,
      (reads_renamedRow (fun _ _ => reads_identifier?) hr m rest).bind (reads_pure _ _)⟩
  · obtain ⟨hr⟩ := hb
    obtain ⟨k, ks, s, rfl, -⟩ := hr.exists_cons
    exact List.cons_ne_nil _ _

theorem reads_specifierRows {ks : List TokenKind} {l : List ExportSpecifier}
    (h : BracesRow SpecifierRow ks l) (rest : List TokenKind) :
    Reads (braces do
        let (name, exported) ← renamed name
        pure (ExportSpecifier.mk name exported)) (ks ++ rest) l rest := by
  refine reads_bracesRow (fun ks b hb m rest => ?_) (fun ks b hb => ?_) h rest
  · obtain ⟨hr⟩ := hb
    exact ⟨startsMark_renamed hr _ _,
      (reads_renamedRow (fun _ _ => reads_name?) hr m rest).bind (reads_pure _ _)⟩
  · obtain ⟨hr⟩ := hb
    obtain ⟨k, ks, s, rfl, -⟩ := hr.exists_cons
    exact List.cons_ne_nil _ _

end Parse

/-! ## Statements -/

theorem BracesRow.exists_cons {α : Type} {Item : List TokenKind → α → Prop} {ks : List TokenKind}
    {l : List α} (h : BracesRow Item ks l) : ∃ ks', ks = .mark .leftBrace :: ks' := by
  cases h
  exact ⟨_, rfl⟩

theorem MarkedStart.startsWord {ks : List TokenKind} (h : MarkedStart ks) (w : String) :
    startsWord w ks = false := by
  rcases h with rfl | ⟨m, ks, rfl⟩ <;> rfl

/-- A statement does not begin with a semicolon. -/
theorem StatementRow.startsMark {ks : List TokenKind} {kind : StatementKind}
    (h : StatementRow ks kind) (rest : List TokenKind) :
    startsMark .semicolon (ks ++ rest) = false := by
  cases h with
  | expression h => exact h.startsMark (by decide) (by decide) (.inl (by decide)) rest
  | _ => rfl

namespace Parse

/-- A statement is read up to its semicolon or to the end of the input. -/
theorem reads_statementRow {ks rest : List TokenKind} {kind : StatementKind}
    (h : StatementRow ks kind) (hs : Stops (.comma :: expressionMarks) rest)
    (hm : MarkedStart rest) : Reads statementKind (ks ++ rest) kind rest := by
  cases h with
  | importBare source => exact reads_import (reads_import_bare source rest)
  | importWhole bound source => exact reads_import (reads_import_whole bound source rest)
  | importNamed source hb =>
    obtain ⟨ks', rfl⟩ := hb.exists_cons
    have hread := reads_bindingRows hb (.identifier "from" :: .string source :: rest)
    simpa using reads_import (reads_import_braces hread)
  | moduleFrom bound source => exact reads_moduleStatement bound source rest
  | exportVar hl => exact reads_export (reads_export_var (reads_declaratorRows hl hs))
  | exportDefault he =>
    exact reads_export (reads_export_default (reads_derived he (hs.mono (by simp))))
  | exportAll source => exact reads_export (reads_export_star source rest)
  | exportNamed hb =>
    obtain ⟨ks', rfl⟩ := hb.exists_cons
    exact reads_export (reads_export_named (reads_specifierRows hb rest) (hm.startsWord _))
  | exportFrom source hb =>
    obtain ⟨ks', rfl⟩ := hb.exists_cons
    have hread := reads_specifierRows hb (.identifier "from" :: .string source :: rest)
    simpa using reads_export (reads_export_from hread)
  | var hl => exact reads_var (reads_declaratorRows hl hs)
  | expression he =>
    exact reads_expressionStatement (he.plainStart hm) (reads_derived he (hs.mono (by simp)))

/-- A row of a statement is taken as a whole where the statement can end. -/
theorem exists_run_statementRow {row tail : List Token} {kind : StatementKind} {c : Cursor}
    (h : StatementRow (row.map (·.kind)) kind) (hc : c.rest = row ++ tail)
    (hs : Stops (.comma :: expressionMarks) (tail.map (·.kind)))
    (hm : MarkedStart (tail.map (·.kind))) :
    ∃ c', statementKind.run c = .ok (kind, c') ∧ c.Takes row c' ∧ c'.rest = tail := by
  have hkinds : c.kinds = row.map (·.kind) ++ tail.map (·.kind) := by
    rw [Cursor.kinds, hc, List.map_append]
  obtain ⟨c', hrun, hc'⟩ := reads_statementRow h hs hm c hkinds
  obtain ⟨taken, htaken, -⟩ := finds_statementKind c kind c' hrun
  have hlen : c'.rest.length = tail.length := by
    rw [Cursor.length_rest hc', List.length_map]
  obtain ⟨rfl, htail⟩ := List.append_inj' (htaken.rest.symm.trans hc) hlen
  exact ⟨c', hrun, htaken, htail⟩

theorem run_statement_semicolon {first t : Token} {row rest : List Token} {kind : StatementKind}
    {c : Cursor} (h : StatementRow ((first :: row).map (·.kind)) kind)
    (ht : t.kind = .mark .semicolon) (hc : c.rest = first :: (row ++ t :: rest)) :
    ∃ c', statement.run c = .ok (⟨kind, first.start, t.stop⟩, c') ∧ c'.rest = rest := by
  have htail : (t :: rest).map (·.kind) = .mark .semicolon :: rest.map (·.kind) := by
    rw [List.map_cons, ht]
  obtain ⟨c', hrun, -, hc'⟩ := exists_run_statementRow h
    (show c.rest = (first :: row) ++ (t :: rest) from hc)
    (htail ▸ stops_semicolon _) (htail ▸ markedStart_mark _ _)
  have hmark : c'.atMark .semicolon = true := by
    have hkinds : c'.kinds = .mark .semicolon :: rest.map (·.kind) := by
      rw [Cursor.kinds, hc', htail]
    rw [Cursor.atMark_eq hkinds]
    rfl
  have hsemi : semicolon.run c' = .ok ((), c'.next) := by
    rw [semicolon, run_get_bind, hc', List.isEmpty_cons, if_neg Bool.false_ne_true, mark,
      run_get_bind, if_pos hmark]
    rfl
  refine ⟨c'.next, ?_, by rw [Cursor.next, hc']⟩
  rw [statement, run_get_bind, run_bind_ok hrun, run_bind_ok hsemi, run_get_bind, Cursor.offset, hc,
    Cursor.next, hc']
  rfl

theorem run_statement_last {first : Token} {row : List Token} {kind : StatementKind} {c : Cursor}
    (h : StatementRow ((first :: row).map (·.kind)) kind) (hc : c.rest = first :: row) :
    ∃ c', statement.run c = .ok (⟨kind, first.start,
      ((first :: row).getLast (List.cons_ne_nil first row)).stop⟩, c') ∧ c'.rest = [] := by
  obtain ⟨c', hrun, htakes, hc'⟩ := exists_run_statementRow h
    (show c.rest = (first :: row) ++ [] by rw [hc, List.append_nil]) (fun _ _ => rfl) (.inl rfl)
  have hsemi : semicolon.run c' = .ok ((), c') := by
    rw [semicolon, run_get_bind, hc']
    rfl
  refine ⟨c', ?_, hc'⟩
  rw [statement, run_get_bind, run_bind_ok hrun, run_bind_ok hsemi, run_get_bind, Cursor.offset, hc,
    htakes.last (List.cons_ne_nil first row)]
  rfl

/-! ## Programs -/

/-- A descent with depth enough for all tokens reads a program of them. -/
theorem exists_run_statements {tokens : List Token} {body : List Statement}
    (h : ProgramRow tokens body) {n : ℕ} {c : Cursor} (hc : c.rest = tokens)
    (hn : tokens.length < n) : ∃ c', (statements n).run c = .ok (body, c') := by
  have hmore {n : ℕ} {c c' : Cursor} {s : Statement} {body : List Statement}
      (hne : c.rest.isEmpty = false) (hsemi : c.atMark .semicolon = false)
      (hs : statement.run c = .ok (s, c'))
      (hbody : ∃ c'', (statements n).run c' = .ok (body, c'')) :
      ∃ c'', (statements (n + 1)).run c = .ok (s :: body, c'') := by
    obtain ⟨c'', hbody⟩ := hbody
    refine ⟨c'', ?_⟩
    rw [statements, run_get_bind, hne, if_neg Bool.false_ne_true, run_get_bind, hsemi,
      if_neg Bool.false_ne_true, run_bind_ok hs, run_bind_ok hbody]
    rfl
  have hfirst {c : Cursor} {first : Token} {row rest : List Token} {kind : StatementKind}
      (hrow : StatementRow ((first :: row).map (·.kind)) kind)
      (hc : c.rest = first :: (row ++ rest)) : c.atMark .semicolon = false := by
    have hkinds : c.kinds = (first :: row).map (·.kind) ++ rest.map (·.kind) := by
      rw [Cursor.kinds, hc, ← List.map_append, List.cons_append]
    rw [Cursor.atMark_eq hkinds]
    exact hrow.startsMark _
  induction h generalizing n c with
  | nil =>
    obtain ⟨n, rfl⟩ := Nat.exists_eq_add_of_le' (show 1 ≤ n by omega)
    refine ⟨c, ?_⟩
    rw [statements, run_get_bind, hc]
    rfl
  | @semicolon t rest body ht h ih =>
    rw [List.length_cons] at hn
    obtain ⟨n, rfl⟩ := Nat.exists_eq_add_of_le' (show 1 ≤ n by omega)
    obtain ⟨c', hrun⟩ := ih (c := c.next) (by rw [Cursor.next, hc]) (n := n) (by omega)
    have hmark : c.atMark .semicolon = true := by
      have hkinds : c.kinds = .mark .semicolon :: rest.map (·.kind) := by
        rw [Cursor.kinds, hc, List.map_cons, ht]
      rw [Cursor.atMark_eq hkinds]
      rfl
    refine ⟨c', ?_⟩
    rw [statements, run_get_bind, hc, List.isEmpty_cons, if_neg Bool.false_ne_true, run_get_bind,
      hmark, if_pos rfl]
    exact hrun
  | @statement first t row rest kind body hrow ht h ih =>
    simp only [List.length_cons, List.length_append] at hn
    obtain ⟨n, rfl⟩ := Nat.exists_eq_add_of_le' (show 1 ≤ n by omega)
    obtain ⟨c', hrun, hc'⟩ := run_statement_semicolon hrow ht hc
    exact hmore (by rw [hc]; rfl) (hfirst hrow hc) hrun (ih hc' (by omega))
  | @last first row kind hrow =>
    simp only [List.length_cons] at hn
    obtain ⟨n, rfl⟩ := Nat.exists_eq_add_of_le' (show 2 ≤ n by omega)
    obtain ⟨c', hrun, hc'⟩ := run_statement_last hrow hc
    refine hmore (by rw [hc]; rfl) (hfirst hrow (by rw [hc, List.append_nil])) hrun ⟨c', ?_⟩
    rw [statements, run_get_bind, hc']
    rfl

end Parse

/-- A row is parsed as a program exactly if the grammar derives that program from it. -/
theorem ofTokens_eq_ok_iff {tokens : List Token} {size : ℕ} {p : Program} :
    Program.ofTokens tokens size = .ok p ↔ ProgramRow tokens p.body := by
  refine ⟨programRow_of_ofTokens, fun h => ?_⟩
  obtain ⟨c, hrun⟩ := Parse.exists_run_statements h (c := ⟨tokens, 0, size⟩) rfl
    (Nat.lt_succ_self _)
  exact ofTokens_eq_ok.2 ⟨c, hrun⟩

/-- The parser accepts exactly the rows of tokens that the grammar derives, and yields the one
program that the grammar derives from the row. -/
theorem parses_exactly_derived (tokens : List Token) (size : ℕ) :
    ((∃ p, Program.ofTokens tokens size = .ok p) ↔ ∃ body, ProgramRow tokens body) ∧
      ∀ p, Program.ofTokens tokens size = .ok p →
        ∀ body, ProgramRow tokens body ↔ body = p.body := by
  refine ⟨⟨fun ⟨p, hp⟩ => ⟨p.body, ofTokens_eq_ok_iff.1 hp⟩,
    fun ⟨body, h⟩ => ⟨⟨body⟩, ofTokens_eq_ok_iff.2 h⟩⟩, fun p hp body => ⟨fun h => ?_, ?_⟩⟩
  · have hbody : Program.ofTokens tokens size = .ok ⟨body⟩ := ofTokens_eq_ok_iff.2 h
    rw [hp] at hbody
    cases hbody
    rfl
  · rintro rfl
    exact ofTokens_eq_ok_iff.1 hp

end ModuleLoader.Dialect
