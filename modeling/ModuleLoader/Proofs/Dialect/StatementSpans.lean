import ModuleLoader.Proofs.Dialect.FirstTokens
import ModuleLoader.Proofs.Dialect.GrammarReading
import ModuleLoader.Proofs.Dialect.Tilings

/-! # Spans of statements

The spans of a program cut its source text into statements with blanks, comments and semicolons
between them. A statement does not depend on what stands around it: its text alone is the program of
that one statement.
-/

namespace ModuleLoader.Dialect

open Text

/-! ## Gaps before a text -/

theorem skipLine_append {body cs : List Char} (hb : '\n' ∉ body) (hc : cs.head? = some '\n') :
    skipLine (body ++ cs) = cs := by
  refine dropWhile_append_stop (fun d hd => ?_) fun d hd => ?_
  · simpa using ne_of_mem_of_not_mem hd hb
  · rw [hc] at hd
    cases hd
    rfl

theorem skipBlock_append {body : List Char} (hb : ¬ ['*', '/'] <:+: body) (cs : List Char) :
    skipBlock (body ++ '*' :: '/' :: cs) = cs := by
  induction body with
  | nil => rfl
  | cons c body ih =>
    have hrest := ih fun hi => hb (hi.trans (List.suffix_cons c body).isInfix)
    rw [List.cons_append, skipBlock.eq_def]
    split
    · rename_i heq
      cases heq
    · rename_i r heq
      -- the closing mark does not begin in the body
      cases body with
      | nil => cases heq
      | cons d body =>
        cases heq
        exact absurd ⟨[], body, rfl⟩ hb
    · rename_i heq
      cases heq
      exact hrest

/-- A gap is left out, whatever stands behind it. -/
theorem Gap.skipGap_append {gap : List Char} (h : Gap gap) (cs : List Char) :
    skipGap (gap ++ cs) = skipGap cs := by
  have hslash : isBlank '/' = false := by decide
  induction h with
  | nil => rfl
  | blank hc _ ih => rw [List.cons_append, skipGap_blank hc, ih]
  | @line body rest hb hc _ ih =>
    have hline : skipLine (body ++ (rest ++ cs)) = rest ++ cs := by
      refine skipLine_append hb ?_
      rw [List.head?_append, hc, Option.some_or]
    conv_lhs => rw [List.cons_append, List.cons_append, List.append_assoc, skipGap.eq_def]
    simp only [hslash, Bool.false_eq_true, if_false, if_true, hline, ih]
  | @block body rest hb _ ih =>
    have hblock := skipBlock_append hb (rest ++ cs)
    conv_lhs => rw [List.cons_append, List.cons_append, List.append_assoc, List.cons_append,
      List.cons_append, skipGap.eq_def]
    simp only [hslash, Bool.false_eq_true, if_false, if_true, hblock, ih]

/-- Where a token begins, a token begins as well if the text behind is cut somewhere. -/
theorem skipGap_cut {cs : List Char} {c : Char} {rest r : List Char} (h : skipGap cs = c :: rest)
    (hr : r <+: rest) : skipGap (c :: r) = c :: r := by
  have hb := (gap_of_skipGap h).2
  by_cases hc : c = '/'
  · subst hc
    have hsolid : ∀ d ∈ rest.head?, d ≠ '/' ∧ d ≠ '*' := by
      fun_induction skipGap cs with
      | case1 => cases h
      | case2 _ _ _ ih | case3 _ _ ih | case4 _ _ ih => exact ih h
      | case5 _ hline hblock =>
        cases h
        rintro d hd
        obtain ⟨more, rfl⟩ := List.head?_eq_some_iff.1 hd
        exact ⟨by rintro rfl; exact hline _ rfl, by rintro rfl; exact hblock _ rfl⟩
      | case6 _ _ _ hslash =>
        cases h
        exact absurd rfl hslash
    cases r with
    | nil => exact skipGap_alone hb fun _ => rfl
    | cons d r =>
      obtain ⟨more, rfl⟩ := hr
      obtain ⟨hs, ht⟩ := hsolid d rfl
      exact skipGap_slash hs ht r
  · exact skipGap_solid hb hc r

theorem tokensOf_gap {gap : List Char} (h : Gap gap) (size : ℕ) (cs : List Char) :
    tokensOf size (gap ++ cs) = tokensOf size cs := by
  have hgap := h.skipGap_append cs
  cases hskip : skipGap cs with
  | nil => rw [tokensOf_end hskip, tokensOf_end (hgap.trans hskip)]
  | cons c rest => rw [tokensOf_step hskip, tokensOf_step (hgap.trans hskip)]

/-! ## Tokens of a slice -/

/-- A token that stands some bytes later. -/
def Token.shift (n : ℕ) (t : Token) : Token := ⟨t.kind, n + t.start, n + t.stop⟩

theorem byteLength_le_of_suffix {cs rest : List Char} (h : rest <:+ cs) :
    byteLength rest ≤ byteLength cs := by
  obtain ⟨before, rfl⟩ := h
  rw [byteLength_append]
  exact Nat.le_add_left _ _

theorem tokensOf_add (n : ℕ) {m : ℕ} {cs : List Char} (h : byteLength cs ≤ m) :
    tokensOf (n + m) cs = (tokensOf m cs).map (Token.shift n) := by
  fun_induction tokensOf m cs with
  | case1 cs hgap => rw [tokensOf_end hgap, List.map_nil]
  | case2 cs c rest hgap ih =>
    have hrest := byteLength_le_of_suffix (skipGap_suffix cs)
    rw [hgap] at hrest
    have hmore := byteLength_le_of_suffix ((lexeme_suffix c rest).trans (List.suffix_cons c rest))
    rw [tokensOf_step hgap, List.map_cons, ih (by omega), Token.shift,
      Nat.add_sub_assoc (by omega), Nat.add_sub_assoc (by omega)]

/-- Cut a text behind some of its tokens: what is cut off does not matter for them. -/
theorem exists_cut {size : ℕ} {cs rest : List Char} {c : Char} (hgap : skipGap cs = c :: rest)
    {row others : List Token} (h : tokensOf size cs = row ++ others) (hne : row ≠ []) :
    ∃ taken after, rest = taken ++ after ∧ tokensOf size after = others ∧
      tokensOf (size - byteLength after) (c :: taken) = row ∧
      (row.getLast hne).stop = size - byteLength after := by
  induction row generalizing cs c rest with
  | nil => exact absurd rfl hne
  | cons t row ih =>
    rw [tokensOf_step hgap, List.cons_append, List.cons.injEq] at h
    obtain ⟨rfl, h⟩ := h
    obtain ⟨taken, hsplit, hcut⟩ := lexeme_cut c rest
    -- the first token of the slice is that of the text
    have hfirst {r after : List Char} (hr : (lexeme c rest).2 = r ++ after) :
        tokensOf (size - byteLength after) (c :: (taken ++ r)) =
          ⟨(lexeme c rest).1, size - byteLength (c :: rest),
            size - byteLength (lexeme c rest).2⟩ :: tokensOf (size - byteLength after) r := by
      have hstep : skipGap (c :: (taken ++ r)) = c :: (taken ++ r) :=
        skipGap_cut hgap ⟨after, by rw [List.append_assoc, ← hr, ← hsplit]⟩
      rw [tokensOf_step hstep, hcut r ⟨after, hr.symm⟩]
      have hbytes : byteLength (c :: rest) = byteLength after + byteLength (c :: (taken ++ r)) := by
        conv_lhs => rw [hsplit, hr]
        simp only [byteLength_cons, byteLength_append]
        omega
      rw [hbytes, hr, byteLength_append, Nat.sub_sub, Nat.sub_sub, Nat.add_comm (byteLength r)]
    cases row with
    | nil =>
      refine ⟨taken, _, hsplit, h, ?_, rfl⟩
      have hlone := @hfirst [] _ rfl
      rwa [List.append_nil, tokensOf_end skipGap_nil] at hlone
    | cons u row =>
      have hnext : ∃ d more, skipGap (lexeme c rest).2 = d :: more := by
        cases hskip : skipGap (lexeme c rest).2 with
        | nil => rw [tokensOf_end hskip] at h; cases h
        | cons d more => exact ⟨d, more, rfl⟩
      obtain ⟨d, more, hskip⟩ := hnext
      obtain ⟨⟨gap, hbetween, hg⟩, -⟩ := gap_of_skipGap hskip
      obtain ⟨taken', after, rfl, hafter, hrow, hlast⟩ := ih hskip h (List.cons_ne_nil _ _)
      refine ⟨taken ++ (gap ++ d :: taken'), after, ?_, hafter, ?_, ?_⟩
      · conv_lhs => rw [hsplit, hbetween]
        simp
      · rw [hfirst (by rw [hbetween]; simp), tokensOf_gap hg, hrow]
      · rwa [List.getLast_cons]

/-- A row of tokens that stands somewhere in a text is what the text that it takes up alone is read
as, which begins and ends with these tokens. -/
theorem exists_slice {n : ℕ} {cs : List Char} {first : Token} {row others : List Token}
    (h : tokensOf (n + byteLength cs) cs = first :: row ++ others) :
    ∃ gap text after, cs = gap ++ text ++ after ∧ Gap gap ∧ text ≠ [] ∧
      (tokens text).map (Token.shift (n + byteLength gap)) = first :: row ∧
      first.start = n + byteLength gap ∧
      ((first :: row).getLast (List.cons_ne_nil _ _)).stop =
        n + byteLength gap + byteLength text ∧
      tokensOf (n + byteLength cs) after = others := by
  cases hskip : skipGap cs with
  | nil =>
    rw [tokensOf_end hskip] at h
    cases h
  | cons c rest =>
    obtain ⟨⟨gap, rfl, hgap⟩, -⟩ := gap_of_skipGap hskip
    obtain ⟨taken, after, rfl, hafter, hrow, hlast⟩ := exists_cut hskip h (List.cons_ne_nil _ _)
    rw [tokensOf_step hskip, List.cons_append, List.cons.injEq] at h
    have hsize : n + byteLength (gap ++ c :: (taken ++ after)) =
        n + byteLength gap + byteLength (c :: taken) + byteLength after := by
      simp only [byteLength_append, byteLength_cons]
      omega
    rw [hsize, Nat.add_sub_cancel] at hrow hlast
    refine ⟨gap, c :: taken, after, by simp, hgap, List.cons_ne_nil _ _, ?_, ?_, hlast, hafter⟩
    · rw [tokens, ← tokensOf_add _ (Nat.le_refl _), hrow]
    · rw [← h.1, byteLength_append, ← Nat.add_assoc, Nat.add_sub_cancel]

/-! ## Statements alone -/

/-- Whether a row is a statement, with its semicolon or without. -/
inductive EndedRow : List TokenKind → StatementKind → Prop where
  | closed {k : TokenKind} {ks : List TokenKind} {kind : StatementKind} :
      StatementRow (k :: ks) kind → EndedRow (k :: ks ++ [.mark .semicolon]) kind
  | unclosed {k : TokenKind} {ks : List TokenKind} {kind : StatementKind} :
      StatementRow (k :: ks) kind → EndedRow (k :: ks) kind

theorem EndedRow.programRow {row : List Token} {kind : StatementKind} {start stop : ℕ}
    (h : EndedRow (row.map (·.kind)) kind) (hstart : ∀ t ∈ row.head?, t.start = start)
    (hstop : ∀ t ∈ row.getLast?, t.stop = stop) : ProgramRow row [⟨kind, start, stop⟩] := by
  generalize hks : row.map (·.kind) = ks at h
  cases h with
  | closed hrow =>
    obtain ⟨front, last, rfl, hfront, hlast⟩ := List.map_eq_append_iff.1 hks
    obtain ⟨t, rfl, ht⟩ := List.map_eq_singleton_iff.1 hlast
    obtain ⟨first, more, rfl, hfirst, hmore⟩ := List.map_eq_cons_iff.1 hfront
    rw [← hstart first rfl, ← hstop t List.getLast?_concat]
    exact .statement (by rwa [List.map_cons, hfirst, hmore]) ht .nil
  | unclosed hrow =>
    obtain ⟨first, more, rfl, hfirst, hmore⟩ := List.map_eq_cons_iff.1 hks
    rw [← hstart first rfl, ← hstop _ (List.getLast?_eq_some_getLast (List.cons_ne_nil _ _))]
    exact .last (by rwa [List.map_cons, hfirst, hmore])

/-- A statement in a text stands alone in the text that it takes up. -/
theorem ofSource_slice {n : ℕ} {text : List Char} {first : Token} {row : List Token}
    {kind : StatementKind} (h : EndedRow ((first :: row).map (·.kind)) kind)
    (hrow : (tokens text).map (Token.shift n) = first :: row) (hstart : first.start = n)
    (hstop : ((first :: row).getLast (List.cons_ne_nil _ _)).stop = n + byteLength text) :
    Program.ofSource text = .ok ⟨[⟨kind, 0, byteLength text⟩]⟩ := by
  refine ofTokens_eq_ok_iff.2 (EndedRow.programRow ?_ ?_ ?_)
  · rwa [← hrow, List.map_map] at h
  · intro t ht
    have hfirst := congrArg List.head? hrow
    rw [List.head?_map, ht] at hfirst
    obtain rfl : t.shift n = first := Option.some.inj hfirst
    exact Nat.add_eq_left.1 hstart
  · intro t ht
    have hlast := congrArg List.getLast? hrow
    rw [List.getLast?_map, ht, List.getLast?_eq_some_getLast (List.cons_ne_nil _ _)] at hlast
    rw [← Option.some.inj hlast] at hstop
    exact Nat.add_left_cancel hstop

/-! ## Programs -/

/-- Gaps with semicolons between them, up to a last gap of some kind. -/
inductive Loose (End : List Char → Prop) : List Char → Prop where
  | last {cs : List Char} : End cs → Loose End cs
  | semicolon {gap cs : List Char} : Gap gap → Loose End cs → Loose End (gap ++ ';' :: cs)

/-- Statements in a text, with blanks, comments and semicolons around them. A statement alone is
read as that one statement. -/
def statementLayout : Layout Statement where
  start := Statement.start
  stop := Statement.stop
  spells text s := Program.ofSource text = .ok ⟨[⟨s.kind, 0, byteLength text⟩]⟩
  gap := Loose Gap
  lastGap := Loose LastGap

theorem covers_semicolon {n : ℕ} {gap cs : List Char} {body : List Statement} (hg : Gap gap)
    (h : statementLayout.Covers (n + byteLength gap + 1) cs body) :
    statementLayout.Covers n (gap ++ ';' :: cs) body := by
  cases h with
  | last hl => exact .last (.semicolon hg hl)
  | @part _ gap' text rest s body hl hne hstart hstop htext hrest =>
    have hsplit : gap ++ ';' :: (gap' ++ text ++ rest) = (gap ++ ';' :: gap') ++ text ++ rest := by
      simp
    have hbytes : byteLength (gap ++ ';' :: gap') = byteLength gap + 1 + byteLength gap' := by
      rw [byteLength_append, byteLength_cons, Nat.add_assoc]
      rfl
    rw [hsplit]
    exact .part (.semicolon hg hl) hne (by rw [hstart, hbytes]; omega) hstop htext hrest

theorem eq_of_simpleMark?_semicolon {c : Char} (h : simpleMark? c = some .semicolon) : c = ';' := by
  by_contra hc
  simp [simpleMark?, hc, ite_eq_iff] at h

theorem wordKind_ne_mark (cs : List Char) (m : Mark) : wordKind cs ≠ .mark m := by
  intro h
  rw [wordKind] at h
  split at h <;> cases h

/-- A semicolon is spelled in one way only. -/
theorem lexeme_eq_semicolon {c : Char} {rest : List Char}
    (h : (lexeme c rest).1 = .mark .semicolon) : c = ';' := by
  unfold lexeme at h
  split at h
  · rename_i m hm
    cases h
    exact eq_of_simpleMark?_semicolon hm
  · exfalso
    repeat' split at h
    all_goals first | exact wordKind_ne_mark _ _ h | cases h

theorem skipGap_of_tokensOf {size : ℕ} {cs : List Char} (h : tokensOf size cs = []) :
    skipGap cs = [] := by
  cases hskip : skipGap cs with
  | nil => rfl
  | cons c rest =>
    rw [tokensOf_step hskip] at h
    cases h

/-- A statement at the beginning of a text, with what stands behind it. -/
theorem covers_statement {n : ℕ} {cs : List Char} {first : Token} {row others : List Token}
    {kind : StatementKind} {body : List Statement}
    (h : tokensOf (n + byteLength cs) cs = first :: row ++ others)
    (hrow : EndedRow ((first :: row).map (·.kind)) kind)
    (hrest : ∀ {m after}, tokensOf (m + byteLength after) after = others →
      statementLayout.Covers m after body) :
    statementLayout.Covers n cs
      (⟨kind, first.start, ((first :: row).getLast (List.cons_ne_nil _ _)).stop⟩ :: body) := by
  obtain ⟨gap, text, after, rfl, hg, hne, htext, hstart, hstop, hafter⟩ := exists_slice h
  refine .part (.last hg) hne hstart ?_ (ofSource_slice hrow htext hstart hstop) (hrest ?_)
  · simp only [statementLayout, hstart, hstop]
  · rw [← hafter]
    congr 1
    simp only [statementLayout, hstop, byteLength_append]
    omega

/-- The statements of a program are laid out in its source text. -/
theorem covers_of_programRow {n : ℕ} {cs : List Char} {body : List Statement}
    (h : ProgramRow (tokensOf (n + byteLength cs) cs) body) : statementLayout.Covers n cs body := by
  generalize hts : tokensOf (n + byteLength cs) cs = ts at h
  induction h generalizing n cs with
  | nil => exact .last (.last (lastGap_of_skipGap (skipGap_of_tokensOf hts)))
  | @semicolon t rest body ht h ih =>
    cases hskip : skipGap cs with
    | nil =>
      rw [tokensOf_end hskip] at hts
      cases hts
    | cons c cs' =>
      obtain ⟨⟨gap, rfl, hg⟩, -⟩ := gap_of_skipGap hskip
      rw [tokensOf_step hskip, List.cons.injEq] at hts
      obtain ⟨rfl, hts⟩ := hts
      obtain rfl := lexeme_eq_semicolon ht
      refine covers_semicolon hg (ih ?_)
      rw [← hts]
      simp only [byteLength_append, byteLength_cons, Nat.add_assoc]
      rfl
  | @statement first t row rest kind body hrow ht h ih =>
    have hended : EndedRow ((first :: (row ++ [t])).map (·.kind)) kind := by
      simpa [ht] using EndedRow.closed hrow
    simpa using covers_statement (by simpa using hts) hended ih
  | @last first row kind hrow =>
    rw [← List.append_nil (first :: row)] at hts
    exact covers_statement hts (.unclosed hrow) fun hafter =>
      .last (.last (lastGap_of_skipGap (skipGap_of_tokensOf hafter)))

/-- The spans of the statements of a program follow each other without overlap. The text in a span
alone is a program, and that one statement; around the spans there are only blanks, comments and
semicolons, and no comment but one at the end of the text is cut off. -/
theorem statement_spans {source : List Char} {p : Program} (h : Program.ofSource source = .ok p) :
    statementLayout.Covers 0 source p.body ∧
    p.body.Pairwise (·.stop ≤ ·.start) ∧
    ∀ s ∈ p.body, s.start < s.stop ∧ ∃ before text after,
      source = before ++ text ++ after ∧ s.start = byteLength before ∧
      s.stop = byteLength (before ++ text) ∧
      Program.ofSource text = .ok ⟨[⟨s.kind, 0, byteLength text⟩]⟩ := by
  have hcovers : statementLayout.Covers 0 source p.body := by
    refine covers_of_programRow ?_
    rw [Nat.zero_add]
    exact ofTokens_eq_ok_iff.1 h
  refine ⟨hcovers, hcovers.pairwise, fun s hs => ?_⟩
  obtain ⟨before, text, after, hsource, hstart, hstop, hne, htext⟩ := hcovers.stands s hs
  simp only [statementLayout, Nat.zero_add] at hstart hstop
  have hpos := byteLength_pos hne
  refine ⟨by omega, before, text, after, hsource, hstart, ?_, htext⟩
  rw [hstop, hstart, byteLength_append]

/-- A comment with a letter of two bytes, a statement, an empty one, and one more without a
semicolon before a comment that is not closed. -/
def spacedSource : List Char :=
  ['/', '*', 'é', '*', '/', 'x', ' ', ';', ';', '\n', '\'', 'é', '\'', ' ', '/', '*']

theorem statement_spans_spaced : ∃ p, Program.ofSource spacedSource = .ok p ∧
    p.body.map (fun s => (s.start, s.stop)) = [(6, 9), (11, 15)] ∧
    statementLayout.Covers 0 spacedSource p.body ∧
    ∀ s ∈ p.body, ∃ before text after,
      spacedSource = before ++ text ++ after ∧ s.start = byteLength before ∧
      s.stop = byteLength (before ++ text) ∧
      Program.ofSource text = .ok ⟨[⟨s.kind, 0, byteLength text⟩]⟩ := by
  have hspans : (Program.ofSource spacedSource).toOption.map
      (·.body.map fun s => (s.start, s.stop)) = some [(6, 9), (11, 15)] := by decide +kernel
  cases hp : Program.ofSource spacedSource with
  | error e =>
    rw [hp] at hspans
    cases hspans
  | ok p =>
    rw [hp, Except.toOption, Option.map_some, Option.some.injEq] at hspans
    obtain ⟨hcovers, -, halone⟩ := statement_spans hp
    exact ⟨p, rfl, hspans, hcovers, fun s hs => (halone s hs).2⟩

end ModuleLoader.Dialect
