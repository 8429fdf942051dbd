import ModuleLoader.Proofs.Dialect.Grammar
import ModuleLoader.Proofs.Dialect.ParsedTrees

/-! # Derivations of parsed trees

Whatever a step of the descent takes is derived by the grammar, and so is whatever the whole
descent takes. A descent that has enough depth for all tokens leaves none of them.
-/

namespace ModuleLoader.Dialect

/-! ## Rows that are taken -/

/-- Whether a cursor comes to another one by taking a row of tokens. -/
inductive Cursor.Takes : Cursor → List Token → Cursor → Prop where
  | refl (c : Cursor) : Takes c [] c
  | next {c c' : Cursor} {t : Token} {row rest : List Token} : c.rest = t :: rest →
      Takes c.next row c' → Takes c (t :: row) c'

section Cursors

variable {c c' c'' : Cursor} {row row' : List Token}

theorem Cursor.Takes.trans (h : c.Takes row c') (h' : c'.Takes row' c'') :
    c.Takes (row ++ row') c'' := by
  induction h with
  | refl => exact h'
  | next hr _ ih => exact .next hr (ih h')

theorem Cursor.Takes.rest (h : c.Takes row c') : c.rest = row ++ c'.rest := by
  induction h with
  | refl => rfl
  | next hr _ ih =>
    rw [hr, List.cons_append, ← ih, Cursor.next, hr]

theorem Cursor.Takes.last (h : c.Takes row c') (hne : row ≠ []) :
    c'.last = (row.getLast hne).stop := by
  induction h with
  | refl => exact absurd rfl hne
  | @next c c' t row rest hr h ih =>
    cases h with
    | refl => rw [Cursor.next, hr, List.getLast_singleton]
    | next hr' h => rw [ih (List.cons_ne_nil _ _), List.getLast_cons (List.cons_ne_nil _ _)]

theorem Cursor.exists_of_kind? {k : TokenKind} (h : c.kind? = some k) :
    ∃ t, t.kind = k ∧ c.Takes [t] c.next := by
  rw [Cursor.kind?] at h
  cases hr : c.rest with
  | nil => simp [hr] at h
  | cons t rest =>
    rw [hr, List.head?_cons, Option.map_some, Option.some.injEq] at h
    exact ⟨t, h, .next hr (.refl _)⟩

theorem Cursor.kind?_of_atMark {m : Mark} (h : c.atMark m = true) : c.kind? = some (.mark m) := by
  rw [Cursor.atMark] at h
  split at h
  · rename_i n hk
    rw [hk, of_decide_eq_true h]
  · cases h

theorem Cursor.kind?_of_atWord {w : String} (h : c.atWord w = true) :
    c.kind? = some (.identifier w) := by
  rw [Cursor.atWord] at h
  split at h
  · rename_i n hk
    rw [hk, of_decide_eq_true h]
  · cases h

end Cursors

section Steps

variable {α β : Type}

/-- Whether what a step takes at a cursor and the value that it yields have a property. -/
def FindsAt (c : Cursor) (p : Parse α) (P : List TokenKind → α → Prop) : Prop :=
  ∀ a c', p.run c = .ok (a, c') → ∃ row, c.Takes row c' ∧ P (row.map (·.kind)) a

/-- Whether what a step takes anywhere and the value that it yields have a property. -/
def Finds (p : Parse α) (P : List TokenKind → α → Prop) : Prop := ∀ c, FindsAt c p P

variable {p : Parse α} {f : α → Parse β} {P P' : List TokenKind → α → Prop}
  {Q : List TokenKind → β → Prop} {c : Cursor} {k : TokenKind}

theorem FindsAt.bind (hp : FindsAt c p P) (hf : ∀ a row c', c.Takes row c' →
    P (row.map (·.kind)) a → FindsAt c' (f a) fun ks b => Q (row.map (·.kind) ++ ks) b) :
    FindsAt c (p >>= f) Q := by
  intro b c'' hrun
  obtain ⟨a, c', ha, hb⟩ := exists_of_run_bind hrun
  obtain ⟨row, hrow, hP⟩ := hp a c' ha
  obtain ⟨row', hrow', hQ⟩ := hf a row c' hrow hP b c'' hb
  exact ⟨row ++ row', hrow.trans hrow', by rwa [List.map_append]⟩

theorem FindsAt.andThen (hp : FindsAt c p P)
    (hf : ∀ a ks, P ks a → Finds (f a) fun ks' b => Q (ks ++ ks') b) : FindsAt c (p >>= f) Q :=
  hp.bind fun a row _ _ hP => hf a (row.map (·.kind)) hP _

theorem Finds.bind (hp : Finds p P)
    (hf : ∀ a ks, P ks a → Finds (f a) fun ks' b => Q (ks ++ ks') b) : Finds (p >>= f) Q :=
  fun c => (hp c).andThen hf

theorem Finds.mono (hp : Finds p P) (h : ∀ ks a, P ks a → P' ks a) : Finds p P' := by
  intro c a c' hrun
  obtain ⟨row, hrow, hP⟩ := hp c a c' hrun
  exact ⟨row, hrow, h _ a hP⟩

theorem finds_pure {a : α} (h : P [] a) : Finds (pure a : Parse α) P := by
  intro c b c' hrun
  cases hrun
  exact ⟨[], .refl c, h⟩

theorem finds_get {f : Cursor → Parse β} (h : ∀ c : Cursor, FindsAt c (f c) Q) :
    Finds (get >>= f) Q := fun c b c' hrun => h c b c' hrun

theorem findsAt_get {f : Cursor → Parse β} (h : FindsAt c (f c) Q) : FindsAt c (get >>= f) Q := h

theorem findsAt_error (e : SyntaxError) : FindsAt c (fun _ => .error e : Parse α) P := by
  intro a c' hrun
  cases hrun

theorem findsAt_refuse (cause : Option TokenKind → SyntaxCause) :
    FindsAt c (Parse.refuse cause : Parse α) P := by
  intro a c' hrun
  cases hrun

theorem findsAt_skip (hk : c.kind? = some k) : FindsAt c Parse.skip fun ks _ => ks = [k] := by
  intro a c' hrun
  obtain ⟨t, rfl, ht⟩ := Cursor.exists_of_kind? hk
  cases hrun
  exact ⟨[t], ht, rfl⟩

/-- Take the next token and go on. -/
theorem findsAt_skip_bind {f : Unit → Parse β} (hk : c.kind? = some k)
    (h : Finds (f ()) fun ks b => Q (k :: ks) b) : FindsAt c (Parse.skip >>= f) Q :=
  (findsAt_skip hk).andThen fun _ _ hks => hks ▸ h

end Steps

namespace Parse

theorem finds_mark (m : Mark) : Finds (mark m) fun ks _ => ks = [.mark m] := by
  refine finds_get fun c => ?_
  split
  · exact findsAt_skip (Cursor.kind?_of_atMark ‹_›)
  · exact findsAt_refuse _

theorem finds_word (w : String) : Finds (word w) fun ks _ => ks = [.identifier w] := by
  refine finds_get fun c => ?_
  split
  · exact findsAt_skip (Cursor.kind?_of_atWord ‹_›)
  · exact findsAt_refuse _

theorem finds_identifier : Finds identifier fun ks s => ks = [.identifier s] := by
  refine finds_get fun c => ?_
  split
  · exact findsAt_skip_bind ‹_› (finds_pure rfl)
  · exact findsAt_refuse _

theorem finds_name : Finds name fun ks s => ∃ k, ks = [k] ∧ k.name? = some s := by
  refine finds_get fun c => ?_
  split
  · exact findsAt_skip_bind ‹_› (finds_pure ⟨_, rfl, rfl⟩)
  · exact findsAt_skip_bind ‹_› (finds_pure ⟨_, rfl, rfl⟩)
  · exact findsAt_refuse _

theorem finds_specifier : Finds specifier fun ks s => ks = [.string s] := by
  refine finds_get fun c => ?_
  split
  · exact findsAt_skip_bind ‹_› (finds_pure rfl)
  · exact findsAt_refuse _

/-! ## Lists -/

section Lists

variable {α : Type} {item : Parse α} {Item : List TokenKind → α → Prop}

/-- A row behind a comma is a row with one more item. -/
theorem exists_listRow_cons (ks : List TokenKind) (trailing : Bool)
    (rows : List (List TokenKind)) :
    ∃ trailing', ks ++ .mark .comma :: listRow trailing rows = listRow trailing' (ks :: rows) := by
  cases rows with
  | nil => exact ⟨true, by simp [listRow, commaRow]⟩
  | cons r rows => exact ⟨trailing, (listRow_cons trailing ks (List.cons_ne_nil r rows)).symm⟩

theorem finds_items (closing : Mark) (h : Finds item Item) (n : ℕ) :
    Finds (items closing item n) fun ks l => ∃ (rows : List (List TokenKind × α)) (trailing : Bool),
      (∀ r ∈ rows, Item r.1 r.2) ∧ ks = listRow trailing (rows.map Prod.fst) ∧
        l = rows.map Prod.snd := by
  induction n with
  | zero => exact finds_pure ⟨[], false, List.forall_mem_nil _, rfl, rfl⟩
  | succ n ih =>
    refine finds_get fun c => ?_
    split
    · exact finds_pure ⟨[], false, List.forall_mem_nil _, rfl, rfl⟩ c
    · refine (h c).andThen fun a ks ha => finds_get fun c' => ?_
      split
      · refine findsAt_skip_bind (Cursor.kind?_of_atMark ‹_›) (ih.bind fun l ks' hl => ?_)
        obtain ⟨rows, trailing, hrows, rfl, rfl⟩ := hl
        obtain ⟨trailing', hks⟩ := exists_listRow_cons ks trailing (rows.map Prod.fst)
        refine finds_pure ⟨(ks, a) :: rows, trailing', List.forall_mem_cons.2 ⟨ha, hrows⟩, ?_, rfl⟩
        rw [List.map_cons, ← hks, List.append_nil]
      · refine finds_pure ⟨[(ks, a)], false, List.forall_mem_singleton.2 ha, ?_, rfl⟩ c'
        simp [listRow, commaRow]

theorem finds_braces (h : Finds item Item) : Finds (braces item) (BracesRow Item) := by
  refine (finds_mark _).bind fun _ ks hks => finds_get fun c =>
    (finds_items _ h _ c).andThen fun l ks' hl => (finds_mark _).bind fun _ ks'' hks'' => ?_
  obtain ⟨rows, trailing, hrows, rfl, rfl⟩ := hl
  subst hks hks''
  exact finds_pure (by simpa using BracesRow.braces trailing hrows)

/-- A descent that has enough depth for all tokens reads items up to the end of the list. -/
theorem findsAt_separated (h : Finds item Item) (hne : ∀ ks a, Item ks a → ks ≠ []) {n : ℕ}
    {c : Cursor} (hn : c.rest.length < n) :
    FindsAt c (separated item n) (SeparatedRow Item) := by
  induction n generalizing c with
  | zero => exact absurd hn (Nat.not_lt_zero _)
  | succ n ih =>
    refine (h c).bind fun a row c' hrow ha => ?_
    have hpos := List.length_pos_iff.2 (hne _ a ha)
    have hrest := congrArg List.length hrow.rest
    rw [List.length_append] at hrest
    rw [List.length_map] at hpos
    refine findsAt_get ?_
    split
    · refine (findsAt_skip (Cursor.kind?_of_atMark ‹_›)).bind fun _ mark c'' hmark hks => ?_
      have hlen := congrArg List.length hmark.rest
      rw [List.length_append] at hlen
      refine (ih (c := c'') (by omega)).andThen fun l ks hl => ?_
      cases hl with
      | @separated rows hrows hitems =>
        have hmore := SeparatedRow.separated (List.cons_ne_nil (row.map (·.kind), a) rows)
          (List.forall_mem_cons.2 ⟨ha, hitems⟩)
        rw [List.map_cons, commaRow_cons _ (by simpa using hrows)] at hmore
        refine finds_pure ?_
        rwa [hks, List.append_nil, List.singleton_append]
    · have hone := SeparatedRow.separated (List.cons_ne_nil (row.map (·.kind), a) [])
        (List.forall_mem_singleton.2 ha)
      exact finds_pure ((List.append_nil (row.map (·.kind))).symm ▸ hone) c'

end Lists

end Parse

/-! ## Expressions -/

/-- What is assignable is a chain, however deep in parentheses. -/
theorem Derives.chain_of_isAssignable {ks : List TokenKind} {e : Expression}
    (h : Derives .sum ks e) (ha : e.isAssignable = true) : Derives .chain ks e := by
  cases h with
  | add => cases ha
  | product h =>
    cases h with
    | multiply => cases ha
    | factor h =>
      cases h with
      | increment | negate => cases ha
      | chain h => exact h

namespace Parse

/-- Whether the steps of a depth find derivations. -/
structure LevelsFind (n : ℕ) : Prop where
  expression : Finds (expression n) (Derives .expression)
  sum : Finds (sum n) (Derives .sum)
  sumTail : ∀ ks e, Derives .sum ks e → Finds (sumTail n e) fun ks' => Derives .sum (ks ++ ks')
  product : Finds (product n) (Derives .product)
  productTail : ∀ ks e, Derives .product ks e →
    Finds (productTail n e) fun ks' => Derives .product (ks ++ ks')
  factor : Finds (factor n) (Derives .factor)
  chain : Finds (chain n) (Derives .factor)
  chainTail : ∀ ks e, Derives .chain ks e →
    Finds (chainTail n e) fun ks' => Derives .chain (ks ++ ks')
  primary : Finds (primary n) (Derives .primary)

section Levels

variable {n : ℕ} {c : Cursor}

theorem kind?_of_choice {α : Type} {m m' : Mark} {a b x : α}
    (h : (if c.atMark m then some a else if c.atMark m' then some b else none) = some x) :
    x = a ∧ c.kind? = some (.mark m) ∨ x = b ∧ c.kind? = some (.mark m') := by
  split at h
  · cases h
    exact .inl ⟨rfl, Cursor.kind?_of_atMark ‹_›⟩
  · split at h
    · cases h
      exact .inr ⟨rfl, Cursor.kind?_of_atMark ‹_›⟩
    · cases h

theorem kind?_of_assignment? {adding : Bool} (h : assignment? c = some adding) :
    c.kind? = some (.mark (assignMark adding)) := by
  obtain ⟨rfl, hk⟩ | ⟨rfl, hk⟩ := kind?_of_choice h <;> exact hk

theorem kind?_of_sumOp? {op : BinaryOp} (h : sumOp? c = some op) :
    (op = .add ∨ op = .sub) ∧ c.kind? = some (.mark op.mark) := by
  obtain ⟨rfl, hk⟩ | ⟨rfl, hk⟩ := kind?_of_choice h
  · exact ⟨.inl rfl, hk⟩
  · exact ⟨.inr rfl, hk⟩

theorem kind?_of_productOp? {op : BinaryOp} (h : productOp? c = some op) :
    (op = .mul ∨ op = .div) ∧ c.kind? = some (.mark op.mark) := by
  obtain ⟨rfl, hk⟩ | ⟨rfl, hk⟩ := kind?_of_choice h
  · exact ⟨.inl rfl, hk⟩
  · exact ⟨.inr rfl, hk⟩

theorem finds_expression (h : LevelsFind n) :
    Finds (expression (n + 1)) (Derives .expression) := by
  rw [Parse.expression]
  refine finds_get fun c => (h.sum c).andThen fun target ks ht => finds_get fun c' => ?_
  split
  · exact finds_pure ((List.append_nil ks).symm ▸ .sum ht) c'
  · rename_i adding hop
    split
    · rename_i ha
      refine findsAt_skip_bind (kind?_of_assignment? hop) (h.expression.bind fun v ks' hv =>
        finds_pure ?_)
      rw [List.append_nil]
      exact .assign (ht.chain_of_isAssignable ha) ha hv
    · exact findsAt_error _

theorem finds_sumTail (h : LevelsFind n) {ks : List TokenKind} {left : Expression}
    (hl : Derives .sum ks left) :
    Finds (sumTail (n + 1) left) fun ks' => Derives .sum (ks ++ ks') := by
  rw [Parse.sumTail]
  refine finds_get fun c => ?_
  split
  · exact finds_pure ((List.append_nil ks).symm ▸ hl) c
  · rename_i op hop
    obtain ⟨hsum, hk⟩ := kind?_of_sumOp? hop
    refine findsAt_skip_bind hk (h.product.bind fun right ks' hr => ?_)
    have ht := h.sumTail _ _ (.add hsum hl hr)
    simpa only [List.append_assoc, List.cons_append] using ht

theorem finds_productTail (h : LevelsFind n) {ks : List TokenKind} {left : Expression}
    (hl : Derives .product ks left) :
    Finds (productTail (n + 1) left) fun ks' => Derives .product (ks ++ ks') := by
  rw [Parse.productTail]
  refine finds_get fun c => ?_
  split
  · exact finds_pure ((List.append_nil ks).symm ▸ hl) c
  · rename_i op hop
    obtain ⟨hproduct, hk⟩ := kind?_of_productOp? hop
    refine findsAt_skip_bind hk (h.factor.bind fun right ks' hr => ?_)
    have ht := h.productTail _ _ (.multiply hproduct hl hr)
    simpa only [List.append_assoc, List.cons_append] using ht

theorem finds_factor (h : LevelsFind n) : Finds (factor (n + 1)) (Derives .factor) := by
  rw [Parse.factor]
  refine finds_get fun c => ?_
  split
  · refine findsAt_skip_bind (Cursor.kind?_of_atMark ‹_›) (h.factor.bind fun e ks he =>
      finds_pure ?_)
    rw [List.append_nil]
    exact .negate he
  · exact h.chain c

theorem finds_chain (h : LevelsFind n) : Finds (chain (n + 1)) (Derives .factor) := by
  rw [Parse.chain]
  refine finds_get fun c => (h.primary c).andThen fun e ks he =>
    (h.chainTail _ _ (.primary he)).bind fun place ks' hp => finds_get fun c' => ?_
  split
  · split
    · rename_i ha
      refine findsAt_skip_bind (Cursor.kind?_of_atMark ‹_›) (finds_pure ?_)
      rw [← List.append_assoc]
      exact .increment hp ha
    · exact findsAt_error _
  · exact finds_pure ((List.append_nil ks').symm ▸ .chain hp) c'

theorem finds_chainTail (h : LevelsFind n) {ks : List TokenKind} {object : Expression}
    (ho : Derives .chain ks object) :
    Finds (chainTail (n + 1) object) fun ks' => Derives .chain (ks ++ ks') := by
  rw [Parse.chainTail]
  refine finds_get fun c => ?_
  split
  · refine findsAt_skip_bind (Cursor.kind?_of_atMark ‹_›) (finds_name.bind fun p _ hp => ?_)
    obtain ⟨k, rfl, hk⟩ := hp
    simpa only [List.append_assoc, List.cons_append, List.nil_append]
      using h.chainTail _ _ (.member ho hk)
  · refine findsAt_get ?_
    split
    · refine findsAt_skip_bind (Cursor.kind?_of_atMark ‹_›) (h.expression.bind fun key ks' hk =>
        (finds_mark _).bind fun _ _ hm => ?_)
      subst hm
      simpa only [List.append_assoc, List.cons_append, List.nil_append]
        using h.chainTail _ _ (.index ho hk)
    · exact finds_pure ((List.append_nil ks).symm ▸ ho) c

theorem finds_primary (h : LevelsFind n) : Finds (primary (n + 1)) (Derives .primary) := by
  rw [Parse.primary]
  refine finds_get fun c => ?_
  split
  · exact findsAt_skip_bind ‹_› (finds_pure (.atom rfl))
  · exact findsAt_skip_bind ‹_› (finds_pure (.atom rfl))
  · exact findsAt_skip_bind ‹_› (finds_pure (.atom rfl))
  · exact findsAt_skip_bind ‹_› (finds_pure (.atom rfl))
  · exact findsAt_skip_bind ‹_› (finds_pure (.atom rfl))
  · exact findsAt_skip_bind ‹_› (finds_pure (.atom rfl))
  · exact findsAt_skip_bind ‹_› (finds_pure (.atom rfl))
  · refine findsAt_skip_bind ‹_› ((finds_items _ h.expression n).bind fun es ks hes =>
      (finds_mark _).bind fun _ _ hm => finds_pure ?_)
    obtain ⟨rows, trailing, hrows, rfl, rfl⟩ := hes
    rw [hm, List.append_nil]
    exact .array trailing hrows
  · refine findsAt_skip_bind ‹_› (h.expression.bind fun e ks he =>
      (finds_mark _).bind fun _ _ hm => finds_pure ?_)
    rw [hm, List.append_nil]
    exact .parentheses he
  · exact findsAt_refuse _

end Levels

theorem levelsFind (n : ℕ) : LevelsFind n := by
  have hstop {level : Level} {ks : List TokenKind} {e : Expression} (h : Derives level ks e) :
      Finds (pure e : Parse Expression) fun ks' => Derives level (ks ++ ks') :=
    finds_pure ((List.append_nil ks).symm ▸ h)
  induction n with
  | zero =>
    exact {
      expression := fun _ => findsAt_refuse _
      sum := fun _ => findsAt_refuse _
      sumTail := fun _ _ => hstop
      product := fun _ => findsAt_refuse _
      productTail := fun _ _ => hstop
      factor := fun _ => findsAt_refuse _
      chain := fun _ => findsAt_refuse _
      chainTail := fun _ _ => hstop
      primary := fun _ => findsAt_refuse _ }
  | succ n h =>
    exact {
      expression := finds_expression h
      sum := h.product.bind fun e ks he => h.sumTail ks e (.product he)
      sumTail := fun _ _ => finds_sumTail h
      product := h.factor.bind fun e ks he => h.productTail ks e (.factor he)
      productTail := fun _ _ => finds_productTail h
      factor := finds_factor h
      chain := finds_chain h
      chainTail := fun _ _ => finds_chainTail h
      primary := finds_primary h }

theorem finds_wholeExpression : Finds wholeExpression (Derives .expression) :=
  finds_get fun _ => (levelsFind _).expression _

end Parse

/-! ## Statements -/

theorem Derives.ne_nil {level : Level} {ks : List TokenKind} {e : Expression}
    (h : Derives level ks e) : ks ≠ [] := by
  induction h with
  | primary _ ih | chain _ ih | factor _ ih | product _ ih | sum _ ih => exact ih
  | _ => simp

theorem DeclaratorRow.ne_nil {ks : List TokenKind} {d : Declarator} (h : DeclaratorRow ks d) :
    ks ≠ [] := by
  cases h <;> exact List.cons_ne_nil _ _

theorem StatementRow.ne_nil {ks : List TokenKind} {kind : StatementKind}
    (h : StatementRow ks kind) : ks ≠ [] := by
  cases h with
  | expression h => exact h.ne_nil
  | _ => exact List.cons_ne_nil _ _

namespace Parse

theorem finds_declarator : Finds declarator DeclaratorRow := by
  refine finds_identifier.bind fun name _ hname => finds_get fun c => ?_
  subst hname
  split
  · refine findsAt_skip_bind (Cursor.kind?_of_atMark ‹_›) (finds_wholeExpression.bind
      fun e ks he => finds_pure ?_)
    rw [List.append_nil]
    exact .value name he
  · exact finds_pure (.bare name) c

theorem finds_declarators : Finds declarators (SeparatedRow DeclaratorRow) :=
  finds_get fun _ => findsAt_separated finds_declarator (fun _ _ h => h.ne_nil) (Nat.lt_succ_self _)

theorem finds_renamed {second : Parse String} {second? : TokenKind → Option String}
    (h : Finds second fun ks s => ∃ k, ks = [k] ∧ second? k = some s) :
    Finds (renamed second) (RenamedRow second?) := by
  refine finds_name.bind fun s ks hs => finds_get fun c => ?_
  obtain ⟨k, rfl, hk⟩ := hs
  split
  · refine findsAt_skip_bind (Cursor.kind?_of_atWord ‹_›) (h.bind fun t ks ht => finds_pure ?_)
    obtain ⟨k', rfl, hk'⟩ := ht
    exact .renamed hk hk'
  · exact finds_pure (.plain hk) c

theorem finds_from {α : Type} (f : String → α) :
    Finds (do word "from"; return f (← specifier)) fun ks a =>
      ∃ s, ks = [.identifier "from", .string s] ∧ a = f s := by
  refine (finds_word _).bind fun _ ks hks => finds_specifier.bind fun s ks' hks' => finds_pure ?_
  exact ⟨s, by rw [hks, hks']; rfl, rfl⟩

theorem finds_bindings : Finds (braces do
    let (imported, bound) ← renamed identifier
    pure (ImportBinding.named imported bound)) (BracesRow BindingRow) := by
  have hrenamed : Finds (renamed identifier) (RenamedRow TokenKind.identifier?) :=
    finds_renamed (finds_identifier.mono fun _ _ hks => ⟨_, hks, rfl⟩)
  exact finds_braces (hrenamed.bind fun _ ks hr =>
    finds_pure ((List.append_nil ks).symm ▸ .named hr))

theorem finds_specifiers : Finds (braces do
    let (name, exported) ← renamed name
    pure (ExportSpecifier.mk name exported)) (BracesRow SpecifierRow) :=
  finds_braces ((finds_renamed finds_name).bind fun _ ks hr =>
    finds_pure ((List.append_nil ks).symm ▸ .named hr))

theorem finds_importClause :
    Finds importClause fun ks => StatementRow (.keyword .importWord :: ks) := by
  refine finds_get fun c => ?_
  split
  · exact findsAt_skip_bind ‹_› (finds_pure (.importBare _))
  · refine findsAt_get ?_
    split
    · refine findsAt_skip_bind (Cursor.kind?_of_atMark ‹_›) ((finds_word _).bind fun _ _ has =>
        finds_identifier.bind fun bound _ hbound =>
          (finds_pure (P := fun ks l => ks = [] ∧ l = [ImportBinding.whole bound]) ⟨rfl, rfl⟩).bind
            fun l _ hl => (finds_from _).mono fun ks kind hfrom => ?_)
      obtain ⟨source, rfl, rfl⟩ := hfrom
      obtain ⟨rfl, rfl⟩ := hl
      subst has hbound
      exact .importWhole bound source
    · refine (finds_bindings c).andThen fun l ks hl => (finds_from _).mono fun ks' kind hfrom => ?_
      obtain ⟨source, rfl, rfl⟩ := hfrom
      exact .importNamed source hl

theorem finds_moduleClause :
    Finds moduleClause fun ks => StatementRow (.identifier "module" :: ks) := by
  refine finds_identifier.bind fun bound _ hbound => (finds_from _).mono fun ks kind hfrom => ?_
  obtain ⟨source, rfl, rfl⟩ := hfrom
  subst hbound
  exact .moduleFrom bound source

theorem finds_exportClause :
    Finds exportClause fun ks => StatementRow (.keyword .exportWord :: ks) := by
  refine finds_get fun c => ?_
  split
  · refine findsAt_skip_bind ‹_› (finds_declarators.bind fun l ks hl => finds_pure ?_)
    rw [List.append_nil]
    exact .exportVar hl
  · refine findsAt_skip_bind ‹_› (finds_wholeExpression.bind fun e ks he => finds_pure ?_)
    rw [List.append_nil]
    exact .exportDefault he
  · refine findsAt_skip_bind ‹_› ((finds_from _).mono fun ks kind hfrom => ?_)
    obtain ⟨source, rfl, rfl⟩ := hfrom
    exact .exportAll source
  · refine (finds_specifiers c).andThen fun l ks hl => finds_get fun c' => ?_
    split
    · refine findsAt_skip_bind (Cursor.kind?_of_atWord ‹_›) (finds_specifier.bind
        fun source _ hs => finds_pure ?_)
      subst hs
      exact .exportFrom source hl
    · refine finds_pure ?_ c'
      rw [List.append_nil]
      exact .exportNamed hl
  · exact findsAt_refuse _

theorem finds_statementKind : Finds statementKind StatementRow := by
  refine finds_get fun c => ?_
  split
  · exact findsAt_skip_bind ‹_› finds_importClause
  · exact findsAt_skip_bind ‹_› finds_exportClause
  · refine findsAt_skip_bind ‹_› (finds_declarators.bind fun l ks hl => finds_pure ?_)
    rw [List.append_nil]
    exact .var hl
  · refine findsAt_get ?_
    split
    · rename_i hm
      have hword : c.atWord "module" = true := by
        rw [Cursor.atModule] at hm
        exact (Bool.and_eq_true_iff.1 hm).1
      exact findsAt_skip_bind (Cursor.kind?_of_atWord hword) finds_moduleClause
    · refine (finds_wholeExpression c).andThen fun e ks he => finds_pure ?_
      rw [List.append_nil]
      exact .expression he

/-! ## Programs -/

theorem findsAt_semicolon (c : Cursor) :
    FindsAt c semicolon fun ks _ => ks = [] ∧ c.rest = [] ∨ ks = [.mark .semicolon] := by
  refine findsAt_get ?_
  split
  · exact finds_pure (.inl ⟨rfl, List.isEmpty_iff.1 ‹_›⟩) c
  · exact (finds_mark _).mono (fun _ _ => .inr) c

/-- A statement takes the row of its tree and a semicolon, unless the input ends before it. -/
theorem exists_statementRow {c c' : Cursor} {s : Statement} (h : statement.run c = .ok (s, c')) :
    ∃ first row, StatementRow ((first :: row).map (·.kind)) s.kind ∧ s.start = first.start ∧
      ((∃ t, c.rest = first :: (row ++ t :: c'.rest) ∧ t.kind = .mark .semicolon ∧
          s.stop = t.stop) ∨
        c.rest = first :: row ∧ c'.rest = [] ∧
          s.stop = ((first :: row).getLast (List.cons_ne_nil first row)).stop) := by
  rw [statement, run_get_bind] at h
  obtain ⟨kind, c₁, hkind, h⟩ := exists_of_run_bind h
  obtain ⟨_, c₂, hsemi, h⟩ := exists_of_run_bind h
  cases h
  obtain ⟨taken, hrow, hderived⟩ := finds_statementKind c kind c₁ hkind
  obtain ⟨first, row, rfl⟩ : ∃ first row, taken = first :: row :=
    List.exists_cons_of_ne_nil fun h => hderived.ne_nil (List.map_eq_nil_iff.2 h)
  have hrest := hrow.rest
  refine ⟨first, row, hderived, by rw [Cursor.offset, hrest]; rfl, ?_⟩
  obtain ⟨semi, hsemi, ⟨hnone, hend⟩ | hone⟩ := findsAt_semicolon c₁ () c' hsemi
  · right
    rw [List.map_eq_nil_iff] at hnone
    subst hnone
    cases hsemi
    exact ⟨by rw [hrest, hend, List.append_nil], hend, hrow.last _⟩
  · left
    obtain ⟨t, rfl, ht⟩ := List.map_eq_singleton_iff.1 hone
    refine ⟨t, ?_, ht, hsemi.last (List.cons_ne_nil t [])⟩
    rw [hrest, hsemi.rest]
    rfl

/-- What a descent with depth enough for all tokens reads is a program of all of them. -/
theorem programRow_of_statements {n : ℕ} {c c' : Cursor} {body : List Statement}
    (hn : c.rest.length < n) (h : (statements n).run c = .ok (body, c')) :
    ProgramRow c.rest body := by
  induction n generalizing c body with
  | zero => exact absurd hn (Nat.not_lt_zero _)
  | succ n ih =>
    rw [statements, run_get_bind] at h
    split at h
    · rename_i hend
      cases h
      rw [List.isEmpty_iff.1 hend]
      exact .nil
    · rw [run_get_bind] at h
      split at h
      · rename_i hsemi
        obtain ⟨t, ht, htakes⟩ := Cursor.exists_of_kind? (Cursor.kind?_of_atMark hsemi)
        have hrest := htakes.rest
        rw [hrest] at hn ⊢
        obtain ⟨_, c₁, hskip, h⟩ := exists_of_run_bind h
        cases hskip
        exact .semicolon ht (ih (Nat.lt_of_succ_lt_succ hn) h)
      · obtain ⟨s, c₁, hs, h⟩ := exists_of_run_bind h
        obtain ⟨others, c₂, hothers, h⟩ := exists_of_run_bind h
        cases h
        obtain ⟨kind, start, stop⟩ := s
        obtain ⟨first, row, hrow, rfl, ⟨t, hrest, ht, rfl⟩ | ⟨hrest, hend, rfl⟩⟩ :=
          exists_statementRow hs
        · rw [hrest] at hn ⊢
          simp only [List.length_cons, List.length_append] at hn
          exact .statement hrow ht (ih (by omega) hothers)
        · rw [hrest] at hn ⊢
          simp only [List.length_cons] at hn
          have hnone := ih (by rw [hend, List.length_nil]; omega) hothers
          rw [hend] at hnone
          cases hnone
          exact .last hrow

end Parse

/-- What is parsed is derived by the grammar. -/
theorem programRow_of_ofTokens {tokens : List Token} {size : ℕ} {p : Program}
    (h : Program.ofTokens tokens size = .ok p) : ProgramRow tokens p.body := by
  obtain ⟨c, hrun⟩ := ofTokens_eq_ok.1 h
  exact Parse.programRow_of_statements (Nat.lt_succ_self _) hrun

end ModuleLoader.Dialect
