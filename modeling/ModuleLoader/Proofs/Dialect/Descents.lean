import ModuleLoader.Dialect.Parser
import ModuleLoader.Proofs.Dialect.TokenRows

/-! # Descents

What a descent over a row of tokens yields and what it leaves depends on the tokens alone, not on
where they stand. Every level of the grammar reads the row of a tree that belongs to it, provided
that the descent is deep enough and that the row behind does not go on with the tree.
-/

namespace ModuleLoader.Dialect

/-! ## Steps over rows -/

/-- What the tokens that are left are. -/
def Cursor.kinds (c : Cursor) : List TokenKind := c.rest.map (·.kind)

/-- Whether a row begins with a mark. -/
def startsMark (m : Mark) : List TokenKind → Bool
  | .mark n :: _ => n = m
  | _ => false

/-- Whether a row begins with a given identifier. -/
def startsWord (w : String) : List TokenKind → Bool
  | .identifier name :: _ => name = w
  | _ => false

section Cursors

variable {c : Cursor} {ks : List TokenKind}

theorem Cursor.kind?_eq (h : c.kinds = ks) : c.kind? = ks.head? := by
  rw [Cursor.kind?, ← h, Cursor.kinds, List.head?_map]

theorem Cursor.atMark_eq (h : c.kinds = ks) (m : Mark) : c.atMark m = startsMark m ks := by
  rw [Cursor.atMark, kind?_eq h]
  cases ks with
  | nil => rfl
  | cons k ks => cases k <;> rfl

theorem Cursor.atWord_eq (h : c.kinds = ks) (w : String) : c.atWord w = startsWord w ks := by
  rw [Cursor.atWord, kind?_eq h]
  cases ks with
  | nil => rfl
  | cons k ks => cases k <;> rfl

theorem Cursor.length_rest (h : c.kinds = ks) : c.rest.length = ks.length := by
  rw [← h, Cursor.kinds, List.length_map]

theorem Cursor.kinds_next (h : c.kinds = ks) : c.next.kinds = ks.tail := by
  obtain ⟨rest, last, size⟩ := c
  subst h
  cases rest <;> rfl

end Cursors

/-- Whether a step takes tokens of a row, leaves the others and yields a value. -/
def Reads {α : Type} (p : Parse α) (ks : List TokenKind) (a : α) (ks' : List TokenKind) : Prop :=
  ∀ c : Cursor, c.kinds = ks → ∃ c', p.run c = .ok (a, c') ∧ c'.kinds = ks'

section Steps

variable {α β : Type} {p : Parse α} {f : α → Parse β} {a : α} {b : β}
  {k : TokenKind} {ks ks' ks'' : List TokenKind}

theorem run_bind_ok {c c' : Cursor} (h : p.run c = .ok (a, c')) (f : α → Parse β) :
    (p >>= f).run c = (f a).run c' := by
  rw [StateT.run_bind, h]
  rfl

theorem run_get_bind (f : Cursor → Parse β) (c : Cursor) : (get >>= f).run c = (f c).run c := rfl

theorem Reads.bind (hp : Reads p ks a ks') (hf : Reads (f a) ks' b ks'') :
    Reads (p >>= f) ks b ks'' := by
  intro c hc
  obtain ⟨c', hrun, hc'⟩ := hp c hc
  obtain ⟨c'', hrun', hc''⟩ := hf c' hc'
  exact ⟨c'', (run_bind_ok hrun f).trans hrun', hc''⟩

theorem reads_pure (a : α) (ks : List TokenKind) : Reads (pure a) ks a ks :=
  fun c hc => ⟨c, rfl, hc⟩

theorem reads_get {f : Cursor → Parse β} (h : ∀ c : Cursor, c.kinds = ks → Reads (f c) ks b ks') :
    Reads (get >>= f) ks b ks' := fun c hc => h c hc c hc

theorem reads_skip (k : TokenKind) (ks : List TokenKind) : Reads Parse.skip (k :: ks) () ks :=
  fun c hc => ⟨c.next, rfl, Cursor.kinds_next hc⟩

theorem reads_mark_pos {m : Mark} {q : Parse α} (hm : startsMark m ks = true)
    (hp : Reads p ks a ks') : Reads (get >>= fun c => if c.atMark m then p else q) ks a ks' := by
  refine reads_get fun c hc => ?_
  rw [Cursor.atMark_eq hc, if_pos hm]
  exact hp

theorem reads_mark_neg {m : Mark} {q : Parse α} (hm : startsMark m ks = false)
    (hq : Reads q ks a ks') : Reads (get >>= fun c => if c.atMark m then p else q) ks a ks' := by
  refine reads_get fun c hc => ?_
  rw [Cursor.atMark_eq hc, if_neg (by simp [hm])]
  exact hq

end Steps

namespace Parse

theorem reads_mark (m : Mark) (ks : List TokenKind) : Reads (mark m) (.mark m :: ks) () ks := by
  refine reads_get fun c hc => ?_
  rw [Cursor.atMark_eq hc, startsMark, if_pos (decide_eq_true rfl)]
  exact reads_skip _ _

theorem reads_word (w : String) (ks : List TokenKind) :
    Reads (word w) (.identifier w :: ks) () ks := by
  refine reads_get fun c hc => ?_
  rw [Cursor.atWord_eq hc, startsWord, if_pos (decide_eq_true rfl)]
  exact reads_skip _ _

theorem reads_identifier (s : String) (ks : List TokenKind) :
    Reads identifier (.identifier s :: ks) s ks := by
  refine reads_get fun c hc => ?_
  rw [Cursor.kind?_eq hc]
  exact (reads_skip _ _).bind (reads_pure _ _)

theorem reads_specifier (s : String) (ks : List TokenKind) :
    Reads specifier (.string s :: ks) s ks := by
  refine reads_get fun c hc => ?_
  rw [Cursor.kind?_eq hc]
  exact (reads_skip _ _).bind (reads_pure _ _)

/-- A name is read whether it is reserved or not. -/
theorem reads_name (s : String) (ks : List TokenKind) :
    Reads name (wordKind s.toList :: ks) s ks := by
  refine reads_get fun c hc => ?_
  rw [Cursor.kind?_eq hc, wordKind, String.ofList_toList]
  cases hk : Keyword.ofWord? s with
  | none => exact (reads_skip _ _).bind (reads_pure _ _)
  | some k =>
    rw [← Keyword.word_of_ofWord? hk]
    exact (reads_skip _ _).bind (reads_pure _ _)

/-! ## Lists of items -/

section Items

variable {α : Type} {item : Parse α} {ks : List TokenKind}

/-- Rows of items with commas between them are read one by one, with or without a comma behind the
last. -/
theorem reads_listRow {closing : Mark} (hc : closing ≠ .comma)
    {rows : List (List TokenKind × α)}
    (h : ∀ r ∈ rows, ∀ m ks, m = .comma ∨ m = closing →
      startsMark closing (r.1 ++ .mark m :: ks) = false ∧
        Reads item (r.1 ++ .mark m :: ks) r.2 (.mark m :: ks))
    (trailing : Bool) {n : ℕ} (hn : rows.length ≤ n) :
    Reads (items closing item n) (listRow trailing (rows.map Prod.fst) ++ .mark closing :: ks)
      (rows.map Prod.snd) (.mark closing :: ks) := by
  have hend (n : ℕ) : Reads (items closing item n) (.mark closing :: ks) ([] : List α)
      (.mark closing :: ks) := by
    cases n with
    | zero => exact reads_pure _ _
    | succ n => exact reads_mark_pos (decide_eq_true rfl) (reads_pure _ _)
  induction rows generalizing n with
  | nil =>
    rw [List.map_nil, List.map_nil, listRow, List.isEmpty_nil, Bool.not_true, Bool.and_false]
    exact hend n
  | cons r rows ih =>
    obtain ⟨n, rfl⟩ := Nat.exists_eq_add_of_le' ((Nat.succ_pos _).trans_le hn)
    have hrows : ∀ s ∈ rows, _ := fun s hs => h s (by simp [hs])
    cases rows with
    | nil =>
      cases trailing with
      | false =>
        obtain ⟨hfirst, hread⟩ := h r (by simp) closing ks (.inr rfl)
        rw [List.map_singleton, List.map_singleton, listRow_false, commaRow]
        exact reads_mark_neg hfirst
          (hread.bind (reads_mark_neg (decide_eq_false hc) (reads_pure _ _)))
      | true =>
        obtain ⟨hfirst, hread⟩ := h r (by simp) .comma (.mark closing :: ks) (.inl rfl)
        rw [List.map_singleton, List.map_singleton, listRow, commaRow, List.isEmpty_cons,
          Bool.not_false, Bool.and_true, if_pos rfl, List.append_assoc, List.singleton_append]
        exact reads_mark_neg hfirst (hread.bind (reads_mark_pos rfl
          ((reads_skip _ _).bind ((hend n).bind (reads_pure _ _)))))
    | cons s rows =>
      obtain ⟨hfirst, hread⟩ := h r (by simp) .comma
        (listRow trailing ((s :: rows).map Prod.fst) ++ .mark closing :: ks) (.inl rfl)
      have hrest := ih hrows (n := n) (by simp at hn ⊢; omega)
      rw [List.map_cons, listRow_cons trailing r.1 (by simp), List.append_assoc, List.cons_append]
      exact reads_mark_neg hfirst (hread.bind (reads_mark_pos rfl
        ((reads_skip _ _).bind (hrest.bind (reads_pure _ _)))))

theorem reads_items {row : α → List TokenKind} {l : List α} {closing : Mark}
    (hc : closing ≠ .comma)
    (h : ∀ a ∈ l, ∀ m ks, m = .comma ∨ m = closing →
      startsMark closing (row a ++ .mark m :: ks) = false ∧
        Reads item (row a ++ .mark m :: ks) a (.mark m :: ks))
    {n : ℕ} (hn : l.length ≤ n) :
    Reads (items closing item n) (commaRow (l.map row) ++ .mark closing :: ks) l
      (.mark closing :: ks) := by
  have hread : Reads (items closing item n) (listRow false ((l.map fun a => (row a, a)).map
      Prod.fst) ++ .mark closing :: ks) ((l.map fun a => (row a, a)).map Prod.snd)
      (.mark closing :: ks) :=
    reads_listRow hc (List.forall_mem_map.2 h) false (by rwa [List.length_map])
  rw [listRow_false, List.map_map, List.map_map] at hread
  simpa [Function.comp_def] using hread

end Items

/-! ## Levels of the grammar -/

/-- The marks that begin a member or an index. -/
def linkMarks : List Mark := [.dot, .leftBracket]

/-- The marks that go on with a chain. -/
def chainMarks : List Mark := .plusPlus :: linkMarks

/-- The marks that go on with a product. -/
def productMarks : List Mark := [.star, .slash] ++ chainMarks

/-- The marks that go on with a sum. -/
def sumMarks : List Mark := [.plus, .minus] ++ productMarks

/-- The marks that go on with an expression. -/
def expressionMarks : List Mark := [.equal, .plusEqual] ++ sumMarks

/-- Whether a row begins with none of some marks. -/
def Stops (marks : List Mark) (ks : List TokenKind) : Prop := ∀ m ∈ marks, startsMark m ks = false

theorem stops_mark {marks : List Mark} {m : Mark} (h : m ∉ marks) (ks : List TokenKind) :
    Stops marks (.mark m :: ks) := by
  intro n hn
  exact decide_eq_false fun hm => h (hm ▸ hn)

theorem Stops.mono {marks marks' : List Mark} {ks : List TokenKind} (h : Stops marks' ks)
    (hm : marks ⊆ marks') : Stops marks ks := fun m hmem => h m (hm hmem)

section Levels

variable {n : ℕ} {ks ks' ks'' : List TokenKind} {e e' : Expression}

theorem reads_chainTail_stop (n : ℕ) (e : Expression) (h : Stops linkMarks ks) :
    Reads (chainTail n e) ks e ks := by
  cases n with
  | zero => exact reads_pure _ _
  | succ n =>
    rw [chainTail]
    exact reads_mark_neg (h .dot (by decide))
      (reads_mark_neg (h .leftBracket (by decide)) (reads_pure _ _))

theorem reads_chainTail_member {p : String}
    (h : Reads (chainTail n (.member e p)) ks e' ks') :
    Reads (chainTail (n + 1) e) (.mark .dot :: wordKind p.toList :: ks) e' ks' := by
  rw [chainTail]
  exact reads_mark_pos rfl ((reads_skip _ _).bind ((reads_name p ks).bind h))

theorem reads_chainTail_index {key : Expression}
    (hk : Reads (expression n) ks key (.mark .rightBracket :: ks''))
    (h : Reads (chainTail n (.index e key)) ks'' e' ks') :
    Reads (chainTail (n + 1) e) (.mark .leftBracket :: ks) e' ks' := by
  rw [chainTail]
  exact reads_mark_neg rfl (reads_mark_pos rfl ((reads_skip _ _).bind
    (hk.bind ((reads_mark _ _).bind h))))

theorem reads_chain (h : Reads (primary n >>= chainTail n) ks e ks') (hs : Stops chainMarks ks') :
    Reads (chain (n + 1)) ks e ks' := by
  rw [chain]
  refine reads_get fun c _ => ?_
  rw [← bind_assoc]
  exact h.bind (reads_mark_neg (hs .plusPlus (by decide)) (reads_pure _ _))

theorem reads_chain_increment (h : Reads (primary n >>= chainTail n) ks e (.mark .plusPlus :: ks'))
    (ha : e.isAssignable = true) : Reads (chain (n + 1)) ks (.increment e) ks' := by
  rw [chain]
  refine reads_get fun c _ => ?_
  rw [← bind_assoc]
  refine h.bind (reads_mark_pos rfl ?_)
  rw [if_pos ha]
  exact (reads_skip _ _).bind (reads_pure _ _)

theorem reads_factor (h : Reads (chain n) ks e ks') (hm : startsMark .minus ks = false) :
    Reads (factor (n + 1)) ks e ks' := by
  rw [factor]
  exact reads_mark_neg hm h

theorem reads_factor_negate (h : Reads (factor n) ks e ks') :
    Reads (factor (n + 1)) (.mark .minus :: ks) (.negate e) ks' := by
  rw [factor]
  exact reads_mark_pos rfl ((reads_skip _ _).bind (h.bind (reads_pure _ _)))

theorem productOp?_eq {c : Cursor} (hc : c.kinds = ks) : productOp? c =
    if startsMark .star ks then some .mul
    else if startsMark .slash ks then some .div else none := by
  rw [productOp?, Cursor.atMark_eq hc, Cursor.atMark_eq hc]

theorem sumOp?_eq {c : Cursor} (hc : c.kinds = ks) : sumOp? c =
    if startsMark .plus ks then some .add
    else if startsMark .minus ks then some .sub else none := by
  rw [sumOp?, Cursor.atMark_eq hc, Cursor.atMark_eq hc]

theorem assignment?_eq {c : Cursor} (hc : c.kinds = ks) : assignment? c =
    if startsMark .equal ks then some false
    else if startsMark .plusEqual ks then some true else none := by
  rw [assignment?, Cursor.atMark_eq hc, Cursor.atMark_eq hc]

theorem reads_productTail_stop (n : ℕ) (e : Expression) (h : Stops productMarks ks) :
    Reads (productTail n e) ks e ks := by
  cases n with
  | zero => exact reads_pure _ _
  | succ n =>
    rw [productTail]
    refine reads_get fun c hc => ?_
    rw [productOp?_eq hc, h .star (by decide), h .slash (by decide)]
    exact reads_pure _ _

theorem reads_productTail {op : BinaryOp} {right : Expression} (hop : op = .mul ∨ op = .div)
    (h : Reads (factor n) ks right ks'')
    (ht : Reads (productTail n (.binary op e right)) ks'' e' ks') :
    Reads (productTail (n + 1) e) (.mark op.mark :: ks) e' ks' := by
  rw [productTail]
  refine reads_get fun c hc => ?_
  rcases hop with rfl | rfl <;> rw [productOp?_eq hc] <;> exact (reads_skip _ _).bind (h.bind ht)

theorem reads_product (h : Reads (factor n) ks e ks'') (ht : Reads (productTail n e) ks'' e' ks') :
    Reads (product (n + 1)) ks e' ks' := by
  rw [product]
  exact h.bind ht

theorem reads_sumTail_stop (n : ℕ) (e : Expression) (h : Stops sumMarks ks) :
    Reads (sumTail n e) ks e ks := by
  cases n with
  | zero => exact reads_pure _ _
  | succ n =>
    rw [sumTail]
    refine reads_get fun c hc => ?_
    rw [sumOp?_eq hc, h .plus (by decide), h .minus (by decide)]
    exact reads_pure _ _

theorem reads_sumTail {op : BinaryOp} {right : Expression} (hop : op = .add ∨ op = .sub)
    (h : Reads (product n) ks right ks'')
    (ht : Reads (sumTail n (.binary op e right)) ks'' e' ks') :
    Reads (sumTail (n + 1) e) (.mark op.mark :: ks) e' ks' := by
  rw [sumTail]
  refine reads_get fun c hc => ?_
  rcases hop with rfl | rfl <;> rw [sumOp?_eq hc] <;> exact (reads_skip _ _).bind (h.bind ht)

theorem reads_sum (h : Reads (product n) ks e ks'') (ht : Reads (sumTail n e) ks'' e' ks') :
    Reads (sum (n + 1)) ks e' ks' := by
  rw [sum]
  exact h.bind ht

theorem reads_expression (h : Reads (sum n) ks e ks') (hs : Stops expressionMarks ks') :
    Reads (expression (n + 1)) ks e ks' := by
  rw [expression]
  refine reads_get fun c _ => h.bind (reads_get fun c hc => ?_)
  rw [assignment?_eq hc, hs .equal (by decide), hs .plusEqual (by decide)]
  exact reads_pure _ _

theorem reads_expression_assign {adding : Bool} (ha : e.isAssignable = true)
    (h : Reads (sum n) ks e (.mark (assignMark adding) :: ks''))
    (hv : Reads (expression n) ks'' e' ks') :
    Reads (expression (n + 1)) ks (.assign adding e e') ks' := by
  rw [expression]
  refine reads_get fun c _ => h.bind (reads_get fun c hc => ?_)
  have hop : assignment? c = some adding := by
    rw [assignment?_eq hc]
    cases adding <;> rfl
  rw [hop]
  simp only [ha, if_true]
  exact (reads_skip _ _).bind (hv.bind (reads_pure _ _))

end Levels

end Parse

end ModuleLoader.Dialect
