import ModuleLoader.Proofs.Dialect.ParsedTrees
import ModuleLoader.Proofs.Text.Positions

/-! # First tokens

Every token stands somewhere in its source text. The tokens of a program are laid out as its
statements, and each statement starts where its first token stands.
-/

namespace ModuleLoader.Dialect

open Text

/-! ## Where tokens stand -/

theorem skipBlock_suffix (cs : List Char) : skipBlock cs <:+ cs := by
  fun_induction skipBlock cs with
  | case1 => exact List.suffix_rfl
  | case2 rest => exact (List.suffix_cons _ _).trans (List.suffix_cons _ _)
  | case3 c rest _ ih => exact ih.trans (List.suffix_cons _ _)

theorem skipGap_suffix (cs : List Char) : skipGap cs <:+ cs := by
  have hcomment (a b : Char) {r s : List Char} (h : r <:+ s) : r <:+ a :: b :: s :=
    (h.trans (List.suffix_cons b s)).trans (List.suffix_cons a (b :: s))
  fun_induction skipGap cs with
  | case1 => exact List.suffix_rfl
  | case2 c rest _ ih => exact ih.trans (List.suffix_cons _ _)
  | case3 r _ ih => exact hcomment _ _ (ih.trans (List.dropWhile_suffix _))
  | case4 r _ ih => exact hcomment _ _ (ih.trans (skipBlock_suffix r))
  | case5 => exact List.suffix_rfl
  | case6 => exact List.suffix_rfl

theorem stringBody_suffix (quote : Char) (cs : List Char) : (stringBody quote cs).2 <:+ cs := by
  fun_induction stringBody quote cs with
  | case1 => exact List.suffix_rfl
  | case2 | case3 => exact List.suffix_cons _ _
  | case4 => exact List.nil_suffix
  | case5 e r _ _ ih => exact (ih.trans (List.suffix_cons e r)).trans (List.suffix_cons _ _)
  | case6 c rest _ _ _ ih => exact ih.trans (List.suffix_cons _ _)

theorem numeral_suffix (pointSeen : Bool) (cs : List Char) : (numeral pointSeen cs).2 <:+ cs := by
  fun_induction numeral pointSeen cs with
  | case1 => exact List.suffix_rfl
  | case2 seen c rest _ ih => exact ih.trans (List.suffix_cons _ _)
  | case3 seen c rest _ _ ih => exact ih.trans (List.suffix_cons _ _)
  | case4 => exact List.suffix_rfl

theorem lexeme_suffix (c : Char) (rest : List Char) : (lexeme c rest).2 <:+ rest := by
  have hs := stringBody_suffix c rest
  have ht := numeral_suffix true rest
  have hf := numeral_suffix false rest
  unfold lexeme
  repeat' split
  all_goals first
    | assumption
    | exact List.suffix_rfl
    | exact List.suffix_cons _ _
    | exact List.dropWhile_suffix _

/-- Whether a token is read from a character of a source text, with some text before it and some
behind it. -/
structure Token.Stands (t : Token) (source before : List Char) (first : Char) (after : List Char) :
    Prop where
  source : source = before ++ first :: after
  start : t.start = byteLength before
  kind : t.kind = (lexeme first after).1

theorem tokensOf_stand {source cs : List Char} (before : List Char) (h : source = before ++ cs) :
    ∀ t ∈ tokensOf (byteLength source) cs, ∃ before first after,
      t.Stands source before first after := by
  generalize hn : byteLength source = size
  fun_induction tokensOf size cs generalizing before with
  | case1 => exact List.forall_mem_nil _
  | case2 cs c rest hg ih =>
    obtain ⟨gap, hgap⟩ := skipGap_suffix cs
    obtain ⟨taken, htaken⟩ := lexeme_suffix c rest
    rw [hg] at hgap
    have hsource : source = (before ++ gap) ++ c :: rest := by
      rw [h, ← hgap, List.append_assoc]
    refine List.forall_mem_cons.2 ⟨⟨before ++ gap, c, rest, hsource, ?_, rfl⟩, ?_⟩
    · rw [← hn, hsource, byteLength_append, Nat.add_sub_cancel]
    · refine ih (before ++ gap ++ c :: taken) ?_
      rw [hsource, List.append_assoc (before ++ gap), List.cons_append, htaken]

theorem tokens_stand (source : List Char) :
    ∀ t ∈ tokens source, ∃ before first after, t.Stands source before first after :=
  tokensOf_stand [] rfl

/-- The position of a token: its line, and its column in characters. -/
theorem Token.Stands.ofOffset {t : Token} {source before after : List Char} {first : Char}
    (h : t.Stands source before first after) : Position.ofOffset source t.start =
      ⟨before.count '\n' + 1, (Position.lastLine before).length + 1⟩ := by
  rw [h.start, h.source, Position.ofOffset_append, Position.walk_eq]

/-! ## How statements are laid out -/

/-- Tokens laid out as the statements that they spell, with semicolons between them. A statement
comes with its first token. -/
inductive Laid : Cursor → List (Token × Statement) → Prop where
  | done {c : Cursor} : c.rest = [] → Laid c []
  | semicolon {c : Cursor} {t : Token} {rest : List Token} {l : List (Token × Statement)} :
      c.rest = t :: rest → t.kind = .mark .semicolon → Laid c.next l → Laid c l
  | statement {c c' : Cursor} {t : Token} {row : List Token} {s : Statement}
      {l : List (Token × Statement)} :
      c.rest = t :: (row ++ c'.rest) → t.kind ≠ .mark .semicolon →
      Parse.statement.run c = .ok (s, c') → Laid c' l → Laid c ((t, s) :: l)

theorem Laid.mem {c : Cursor} {l : List (Token × Statement)} (h : Laid c l) :
    ∀ e ∈ l, e.1 ∈ c.rest := by
  induction h with
  | done => exact List.forall_mem_nil _
  | @semicolon c t rest l hc _ _ ih =>
    exact fun e he => c.rest_next_suffix.subset (ih e he)
  | @statement c c' t row s l hc _ _ _ ih =>
    rw [hc]
    exact List.forall_mem_cons.2 ⟨List.mem_cons_self, fun e he =>
      List.mem_cons_of_mem _ (List.mem_append_right _ (ih e he))⟩

theorem atMark_iff {c : Cursor} {t : Token} {rest : List Token} (h : c.rest = t :: rest)
    (m : Mark) : c.atMark m = true ↔ t.kind = .mark m := by
  rw [Cursor.atMark, Cursor.kind?, h, List.head?_cons, Option.map_some]
  cases t.kind <;> simp

/-- A statement starts where the cursor stands, and then its semicolon is taken. -/
theorem exists_of_statement {c c' : Cursor} {s : Statement}
    (h : Parse.statement.run c = .ok (s, c')) :
    s.start = c.offset ∧ ∃ kind c'', Parse.statementKind.run c = .ok (kind, c'') ∧
      Parse.semicolon.run c'' = .ok ((), c') := by
  rw [Parse.statement, run_get_bind] at h
  obtain ⟨kind, c'', hkind, h⟩ := exists_of_run_bind h
  obtain ⟨_, c₁, hsemi, h⟩ := exists_of_run_bind h
  cases h
  exact ⟨rfl, kind, c'', hkind, hsemi⟩

theorem Laid.start {c : Cursor} {l : List (Token × Statement)} (h : Laid c l) :
    ∀ e ∈ l, e.2.start = e.1.start := by
  induction h with
  | done => exact List.forall_mem_nil _
  | semicolon _ _ _ ih => exact ih
  | @statement c c' t row s l hc _ hs _ ih =>
    refine List.forall_mem_cons.2 ⟨?_, ih⟩
    rw [(exists_of_statement hs).1, Cursor.offset, hc]

/-- A statement takes its first token, since no semicolon follows if it takes none. -/
theorem statement_takes {c c' : Cursor} {s : Statement} {t : Token} {rest : List Token}
    (hc : c.Scanned) (hr : c.rest = t :: rest) (ht : t.kind ≠ .mark .semicolon)
    (h : Parse.statement.run c = .ok (s, c')) : c'.rest <:+ rest := by
  obtain ⟨-, kind, c'', hkind, hsemi⟩ := exists_of_statement h
  obtain ⟨-, hsuffix⟩ := Parse.yields_statementKind c kind c'' hc hkind
  obtain ⟨-, hsuffix'⟩ := Parse.yields_semicolon c'' () c' (hc.of_suffix hsuffix) hsemi
  rw [hr, List.suffix_cons_iff] at hsuffix
  rcases hsuffix with hnone | hsuffix
  · rw [Parse.semicolon, run_get_bind, hnone, List.isEmpty_cons, if_neg Bool.false_ne_true,
      Parse.mark, run_get_bind, if_neg fun hm => ht ((atMark_iff hnone _).1 hm)] at hsemi
    cases hsemi
  · exact hsuffix'.trans hsuffix

theorem statements_laid {n : ℕ} {c c' : Cursor} {body : List Statement} (hc : c.Scanned)
    (hn : c.rest.length < n) (h : (Parse.statements n).run c = .ok (body, c')) :
    ∃ l, Laid c l ∧ l.map Prod.snd = body := by
  induction n generalizing c body with
  | zero => exact absurd hn (Nat.not_lt_zero _)
  | succ n ih =>
    rw [Parse.statements, run_get_bind] at h
    cases hr : c.rest with
    | nil =>
      rw [hr] at h
      cases h
      exact ⟨[], .done hr, rfl⟩
    | cons t rest =>
      rw [hr] at h
      rw [hr, List.length_cons] at hn
      rw [List.isEmpty_cons, if_neg Bool.false_ne_true, run_get_bind] at h
      split at h
      · rename_i hm
        obtain ⟨_, c₁, hskip, h⟩ := exists_of_run_bind h
        cases hskip
        have hnext : c.next.rest = rest := by rw [Cursor.next, hr]
        obtain ⟨l, hl, hmap⟩ := ih (hc.of_suffix c.rest_next_suffix) (by rw [hnext]; omega) h
        exact ⟨l, .semicolon hr ((atMark_iff hr _).1 hm) hl, hmap⟩
      · rename_i hm
        obtain ⟨s, c₁, hs, h⟩ := exists_of_run_bind h
        obtain ⟨others, c₂, hothers, h⟩ := exists_of_run_bind h
        cases h
        have ht : t.kind ≠ .mark .semicolon := fun ht => hm ((atMark_iff hr _).2 ht)
        obtain ⟨row, hrow⟩ := statement_takes hc hr ht hs
        have htokens : c.rest = t :: (row ++ c₁.rest) := by rw [hr, hrow]
        have hsuffix : c₁.rest <:+ c.rest := ⟨t :: row, htokens.symm⟩
        have hlen := congrArg List.length hrow
        rw [List.length_append] at hlen
        obtain ⟨l, hl, hmap⟩ := ih (hc.of_suffix hsuffix) (by omega) hothers
        refine ⟨(t, s) :: l, .statement htokens ht hs hl, ?_⟩
        rw [List.map_cons, hmap]

/-- The tokens of a program are laid out as its statements. -/
theorem ofSource_laid {source : List Char} {p : Program} (h : Program.ofSource source = .ok p) :
    ∃ l, Laid ⟨tokens source, 0, byteLength source⟩ l ∧ l.map Prod.snd = p.body := by
  obtain ⟨c, hrun⟩ := ofSource_eq_ok.1 h
  exact statements_laid (scanned_tokensOf _ _) (Nat.lt_succ_self _) hrun

end ModuleLoader.Dialect
