import ModuleLoader.Proofs.Dialect.Lexemes
import ModuleLoader.Proofs.Text.Layouts
import ModuleLoader.Proofs.Text.Segments

/-! # Tilings of source texts

Nothing of a source text is lost when it is cut into tokens. What stands between the texts of its
tokens are blanks and comments, and the text of a token alone is read as that token.
-/

namespace ModuleLoader.Dialect

open Text

/-! ## Scanners -/

/-- The length of a source text in bytes, and what is left of it. -/
structure Scanner where
  size : ℕ
  rest : List Char

namespace Scanner

/-- A scanner at the start of a source text. -/
def start (source : List Char) : Scanner := ⟨byteLength source, source⟩

/-- Take the next token: its kind, none at the end of the input, and the bytes that it takes up. -/
def next (s : Scanner) : (Option TokenKind × ℕ × ℕ) × Scanner :=
  match skipGap s.rest with
  | [] => ((none, s.size, s.size), ⟨s.size, []⟩)
  | c :: rest =>
    ((some (lexeme c rest).1, s.size - byteLength (c :: rest),
      s.size - byteLength (lexeme c rest).2), ⟨s.size, (lexeme c rest).2⟩)

/-- What is taken behind `n` tokens. -/
def take (s : Scanner) : ℕ → Option TokenKind × ℕ × ℕ
  | 0 => s.next.1
  | n + 1 => s.next.2.take n

theorem next_end {s : Scanner} (h : skipGap s.rest = []) :
    s.next = ((none, s.size, s.size), ⟨s.size, []⟩) := by
  rw [next, h]

theorem next_step {s : Scanner} {c : Char} {rest : List Char} (h : skipGap s.rest = c :: rest) :
    s.next = ((some (lexeme c rest).1, s.size - byteLength (c :: rest),
      s.size - byteLength (lexeme c rest).2), ⟨s.size, (lexeme c rest).2⟩) := by
  rw [next, h]

/-- Behind the last token every step is at the end of the input. -/
theorem take_of_end {s : Scanner} (h : skipGap s.rest = []) (n : ℕ) :
    s.take n = (none, s.size, s.size) := by
  induction n generalizing s with
  | zero => rw [take, next_end h]
  | succ n ih =>
    rw [take, next_end h]
    exact ih skipGap_nil

/-- The steps of a scanner take the tokens of the text that is left one by one. -/
theorem take_eq (s : Scanner) (n : ℕ) : s.take n = match (tokensOf s.size s.rest)[n]? with
    | some t => (some t.kind, t.start, t.stop)
    | none => (none, s.size, s.size) := by
  induction n generalizing s with
  | zero =>
    cases h : skipGap s.rest with
    | nil => rw [take_of_end h, tokensOf_end h, List.getElem?_nil]
    | cons c rest => rw [take, next_step h, tokensOf_step h, List.getElem?_cons_zero]
  | succ n ih =>
    cases h : skipGap s.rest with
    | nil => rw [take_of_end h, tokensOf_end h, List.getElem?_nil]
    | cons c rest => rw [take, next_step h, tokensOf_step h, List.getElem?_cons_succ, ih]

end Scanner

/-! ## Gaps -/

/-- A row of blanks and of comments that have ended: a line comment before a line break, a block
comment with its first closing mark. -/
inductive Gap : List Char → Prop where
  | nil : Gap []
  | blank {c : Char} {cs : List Char} : isBlank c = true → Gap cs → Gap (c :: cs)
  | line {body cs : List Char} : '\n' ∉ body → cs.head? = some '\n' → Gap cs →
      Gap ('/' :: '/' :: (body ++ cs))
  | block {body cs : List Char} : ¬ ['*', '/'] <:+: body → Gap cs →
      Gap ('/' :: '*' :: (body ++ '*' :: '/' :: cs))

/-- A comment that the end of the text cuts off. -/
inductive OpenComment : List Char → Prop where
  | line {body : List Char} : '\n' ∉ body → OpenComment ('/' :: '/' :: body)
  | block {body : List Char} : ¬ ['*', '/'] <:+: body → OpenComment ('/' :: '*' :: body)

/-- A gap at the end of a text, whose last comment may be cut off. -/
def LastGap (cs : List Char) : Prop :=
  ∃ gap rest, cs = gap ++ rest ∧ Gap gap ∧ (rest = [] ∨ OpenComment rest)

/-- A line comment goes up to the next line break. -/
theorem exists_skipLine (cs : List Char) : ∃ body, cs = body ++ skipLine cs ∧ '\n' ∉ body ∧
    (skipLine cs = [] ∨ (skipLine cs).head? = some '\n') := by
  refine ⟨cs.takeWhile (· ≠ '\n'), List.takeWhile_append_dropWhile.symm, fun h => ?_, ?_⟩
  · have := List.mem_takeWhile_imp h
    simp at this
  · cases h : skipLine cs with
    | nil => exact .inl rfl
    | cons c rest =>
      have hc := List.head?_dropWhile_not (· ≠ '\n') cs
      rw [← skipLine, h] at hc
      right
      simpa using hc

/-- A closing mark behind a text without one begins with the text or ends in it. -/
theorem not_infix_cons {c : Char} {body : List Char} (h : ¬ ['*', '/'] <:+: body)
    (hc : ∀ rest, c :: body ≠ '*' :: '/' :: rest) : ¬ ['*', '/'] <:+: c :: body := by
  intro hi
  rcases List.infix_cons_iff.1 hi with ⟨rest, hp⟩ | hi
  · exact hc rest hp.symm
  · exact h hi

/-- A block comment goes up to its first closing mark, or to the end. -/
theorem exists_skipBlock (cs : List Char) : ∃ body, ¬ ['*', '/'] <:+: body ∧
    (cs = body ++ '*' :: '/' :: skipBlock cs ∨ cs = body ∧ skipBlock cs = []) := by
  fun_induction skipBlock cs with
  | case1 => exact ⟨[], by simp, .inr ⟨rfl, rfl⟩⟩
  | case2 rest => exact ⟨[], by simp, .inl rfl⟩
  | case3 c rest hc ih =>
    obtain ⟨body, hbody, hclosed | ⟨hopen, hend⟩⟩ := ih
    · have hfirst : ¬ ['*', '/'] <:+: c :: body := by
        refine not_infix_cons hbody fun r hr => ?_
        obtain ⟨rfl, rfl⟩ := List.cons.inj hr
        exact hc _ rfl hclosed
      exact ⟨c :: body, hfirst, .inl (by rw [List.cons_append, ← hclosed])⟩
    · subst hopen
      refine ⟨c :: rest, not_infix_cons hbody fun r hr => ?_, .inr ⟨rfl, hend⟩⟩
      exact hc r (List.cons.inj hr).1 (List.cons.inj hr).2

theorem Gap.last {gap : List Char} (h : Gap gap) : LastGap gap :=
  ⟨gap, [], (List.append_nil gap).symm, h, .inl rfl⟩

theorem OpenComment.last {cs : List Char} (h : OpenComment cs) : LastGap cs :=
  ⟨[], cs, rfl, .nil, .inr h⟩

theorem LastGap.blank {c : Char} {cs : List Char} (hc : isBlank c = true) (h : LastGap cs) :
    LastGap (c :: cs) := by
  obtain ⟨gap, rest, rfl, hgap, hrest⟩ := h
  exact ⟨c :: gap, rest, rfl, .blank hc hgap, hrest⟩

theorem LastGap.block {body cs : List Char} (hb : ¬ ['*', '/'] <:+: body) (h : LastGap cs) :
    LastGap ('/' :: '*' :: (body ++ '*' :: '/' :: cs)) := by
  obtain ⟨gap, rest, rfl, hgap, hrest⟩ := h
  exact ⟨'/' :: '*' :: (body ++ '*' :: '/' :: gap), rest, by simp, .block hb hgap, hrest⟩

theorem LastGap.line {body cs : List Char} (hb : '\n' ∉ body) (hc : cs.head? = some '\n')
    (h : LastGap cs) : LastGap ('/' :: '/' :: (body ++ cs)) := by
  obtain ⟨gap, rest, rfl, hgap, hrest⟩ := h
  have hgap' : gap.head? = some '\n' := by
    cases gap with
    | cons d gap => exact hc
    | nil =>
      -- a cut-off comment begins with a slash
      rcases hrest with rfl | hrest
      · cases hc
      · cases hrest <;> simp at hc
  exact ⟨'/' :: '/' :: (body ++ gap), rest, by simp, .line hb hgap' hgap, hrest⟩

/-- What is left out at the end of a text is a gap. -/
theorem lastGap_of_skipGap {cs : List Char} (h : skipGap cs = []) : LastGap cs := by
  fun_induction skipGap cs with
  | case1 => exact Gap.nil.last
  | case2 c rest hc ih => exact (ih h).blank hc
  | case3 r _ ih =>
    obtain ⟨body, hr, hbody, hend | hbreak⟩ := exists_skipLine r
    · rw [hend, List.append_nil] at hr
      exact (hr ▸ OpenComment.line hbody).last
    · rw [hr]
      exact (ih h).line hbody hbreak
  | case4 r _ ih =>
    obtain ⟨body, hbody, hr | ⟨rfl, -⟩⟩ := exists_skipBlock r
    · rw [hr]
      exact (ih h).block hbody
    · exact (OpenComment.block hbody).last
  | case5 => cases h
  | case6 => cases h

/-- What is left out before a token is a gap, and the token begins neither with a blank nor with a
comment. -/
theorem gap_of_skipGap {cs : List Char} {c : Char} {rest : List Char} (h : skipGap cs = c :: rest) :
    (∃ gap, cs = gap ++ c :: rest ∧ Gap gap) ∧ isBlank c = false := by
  fun_induction skipGap cs with
  | case1 => cases h
  | case2 d ds hd ih =>
    obtain ⟨⟨gap, rfl, hgap⟩, hc⟩ := ih h
    exact ⟨⟨d :: gap, rfl, .blank hd hgap⟩, hc⟩
  | case3 r _ ih =>
    obtain ⟨⟨gap, hgap, hg⟩, hc⟩ := ih h
    obtain ⟨body, hr, hbody, hend | hbreak⟩ := exists_skipLine r
    · rw [hend] at hgap
      exact absurd hgap (by simp)
    · refine ⟨⟨'/' :: '/' :: (body ++ gap), ?_, .line hbody ?_ hg⟩, hc⟩
      · rw [List.cons_append, List.cons_append, List.append_assoc, ← hgap, ← hr]
      · -- the line break is a blank, so it belongs to the gap
        rw [hgap] at hbreak
        cases gap with
        | cons d gap => exact hbreak
        | nil =>
          obtain rfl : c = '\n' := by simpa using hbreak
          cases hc
  | case4 r _ ih =>
    obtain ⟨⟨gap, hgap, hg⟩, hc⟩ := ih h
    obtain ⟨body, hbody, hr | ⟨-, hend⟩⟩ := exists_skipBlock r
    · refine ⟨⟨'/' :: '*' :: (body ++ '*' :: '/' :: gap), ?_, .block hbody hg⟩, hc⟩
      conv_lhs => rw [hr, hgap]
      simp
    · rw [hend] at hgap
      exact absurd hgap (by simp)
  | case5 =>
    obtain ⟨rfl, rfl⟩ := List.cons.inj h
    exact ⟨⟨[], rfl, .nil⟩, by decide⟩
  | case6 d ds hd =>
    obtain ⟨rfl, rfl⟩ := List.cons.inj h
    exact ⟨⟨[], rfl, .nil⟩, by simpa using hd⟩

/-! ## Texts of tokens -/

theorem startsWithDigit_numeral {cs : List Char} (h : startsWithDigit cs = true)
    (pointSeen : Bool) : startsWithDigit (numeral pointSeen cs).1 = true := by
  cases cs with
  | nil => cases h
  | cons c rest =>
    rw [numeral.eq_def]
    simp only [startsWithDigit] at h ⊢
    rw [if_pos h]
    exact h

theorem startsWithDigit_of_cut {r cs : List Char} (h : r <+: cs)
    (hr : startsWithDigit r = true) : startsWithDigit cs = true := by
  obtain ⟨more, rfl⟩ := h
  cases r with
  | nil => cases hr
  | cons c r => exact hr

theorem numeral_cut (pointSeen : Bool) (cs : List Char) :
    cs = (numeral pointSeen cs).1 ++ (numeral pointSeen cs).2 ∧
      ∀ r, r <+: (numeral pointSeen cs).2 →
        numeral pointSeen ((numeral pointSeen cs).1 ++ r) = ((numeral pointSeen cs).1, r) := by
  fun_induction numeral pointSeen cs with
  | case1 =>
    refine ⟨rfl, fun r hr => ?_⟩
    rw [List.prefix_nil.1 hr]
    rfl
  | case2 seen c rest hc ih =>
    refine ⟨congrArg (c :: ·) ih.1, fun r hr => ?_⟩
    rw [List.cons_append, numeral, if_pos hc, ih.2 r hr]
  | case3 seen c rest hc hp ih =>
    refine ⟨congrArg (c :: ·) ih.1, fun r hr => ?_⟩
    obtain ⟨⟨hpoint, hseen⟩, hdigit⟩ : (c = '.' ∧ seen = false) ∧ startsWithDigit rest = true := by
      simpa using hp
    have hstarts := startsWithDigit_of_cut (List.prefix_append (numeral true rest).1 r)
      (startsWithDigit_numeral hdigit true)
    rw [List.cons_append, numeral, if_neg hc, if_pos, ih.2 r hr]
    simp [hpoint, hseen, hstarts]
  | case4 seen c rest hc hp =>
    refine ⟨rfl, fun r hr => ?_⟩
    rcases List.prefix_cons_iff.1 hr with rfl | ⟨r, rfl, hrest⟩
    · rfl
    · rw [List.nil_append, numeral, if_neg hc, if_neg]
      simp only [Bool.and_eq_true] at hp ⊢
      exact fun h => hp ⟨h.1, startsWithDigit_of_cut hrest h.2⟩

theorem stringBody_cut (quote : Char) (cs : List Char) :
    ∃ taken, cs = taken ++ (stringBody quote cs).2 ∧ ∀ r, r <+: (stringBody quote cs).2 →
      stringBody quote (taken ++ r) = ((stringBody quote cs).1, r) := by
  fun_induction stringBody quote cs with
  | case1 =>
    refine ⟨[], rfl, fun r hr => ?_⟩
    rw [List.prefix_nil.1 hr]
    rfl
  | case2 rest => exact ⟨['\n'], rfl, fun r _ => by rw [stringBody.eq_def]; simp⟩
  | case3 rest hc => exact ⟨[quote], rfl, fun r _ => by rw [stringBody.eq_def]; simp [hc]⟩
  | case4 hc hq =>
    refine ⟨['\\'], rfl, fun r hr => ?_⟩
    rw [List.prefix_nil.1 hr, stringBody.eq_def]
    simp [hq]
  | case5 e r hc hq ih =>
    obtain ⟨taken, hr, hcut⟩ := ih
    refine ⟨'\\' :: e :: taken, congrArg ('\\' :: e :: ·) hr, fun r hr => ?_⟩
    rw [stringBody.eq_def]
    simp [hq, hcut r hr]
  | case6 c rest hc hq he ih =>
    obtain ⟨taken, hr, hcut⟩ := ih
    refine ⟨c :: taken, congrArg (c :: ·) hr, fun r hr => ?_⟩
    rw [stringBody.eq_def]
    simp [hc, hq, he, hcut r hr]

/-- Whether a token keeps its kind and its text when the text behind it is cut somewhere. -/
def CutsOff (c : Char) (rest : List Char) : Prop :=
  ∃ taken, rest = taken ++ (lexeme c rest).2 ∧
    ∀ r, r <+: (lexeme c rest).2 → lexeme c (taken ++ r) = ((lexeme c rest).1, r)

theorem cutsOff_of_lexeme {c : Char} {rest : List Char} (kind : TokenKind)
    (h : ∀ r, r <+: rest → lexeme c r = (kind, r)) : CutsOff c rest := by
  have hl := h rest List.prefix_rfl
  refine ⟨[], by rw [hl]; rfl, fun r hr => ?_⟩
  rw [hl] at hr ⊢
  exact h r hr

theorem lexeme_plus (rest : List Char) : CutsOff '+' rest := by
  cases rest with
  | nil =>
    refine cutsOff_of_lexeme (.mark .plus) fun r hr => ?_
    rw [List.prefix_nil.1 hr]
    rfl
  | cons d rest =>
    by_cases hplus : d = '+'
    · subst hplus
      exact ⟨['+'], rfl, fun _ _ => rfl⟩
    by_cases hequal : d = '='
    · subst hequal
      exact ⟨['='], rfl, fun _ _ => rfl⟩
    refine cutsOff_of_lexeme (.mark .plus) fun r hr => ?_
    rcases List.prefix_cons_iff.1 hr with rfl | ⟨r, rfl, -⟩
    · rfl
    · simp [lexeme, simpleMark?, hplus, hequal]

theorem lexeme_point (rest : List Char) : CutsOff '.' rest := by
  by_cases hd : startsWithDigit rest = true
  · obtain ⟨hsplit, hcut⟩ := numeral_cut true rest
    have hl (cs : List Char) (h : startsWithDigit cs = true) : lexeme '.' cs =
        (.number (Number.ofNumeral ('.' :: (numeral true cs).1)), (numeral true cs).2) := by
      simp [lexeme, simpleMark?, h]
    refine ⟨(numeral true rest).1, by rwa [hl rest hd], fun r hr => ?_⟩
    rw [hl rest hd] at hr ⊢
    rw [hl _ (startsWithDigit_of_cut (List.prefix_append _ r) (startsWithDigit_numeral hd true)),
      hcut r hr]
  · refine cutsOff_of_lexeme (.mark .dot) fun r hr => ?_
    have hr : ¬ startsWithDigit r = true := fun h => hd (startsWithDigit_of_cut hr h)
    simp [lexeme, simpleMark?, hr]

theorem lexeme_quote {c : Char} (hc : c = '"' ∨ c = '\'') (cs : List Char) : lexeme c cs =
    (match (stringBody c cs).1 with
      | some s => .string (String.ofList s)
      | none => .unterminatedString, (stringBody c cs).2) := by
  cases hb : (stringBody c cs).1 <;> rcases hc with rfl | rfl <;> simp [lexeme, simpleMark?, hb]

/-- A token is read from its own text as it is read where more or less of the text follows. -/
theorem lexeme_cut (c : Char) (rest : List Char) : CutsOff c rest := by
  cases hm : simpleMark? c with
  | some m => exact cutsOff_of_lexeme (.mark m) fun r _ => by simp [lexeme, hm]
  | none =>
    by_cases hplus : c = '+'
    · exact hplus ▸ lexeme_plus rest
    by_cases hpoint : c = '.'
    · exact hpoint ▸ lexeme_point rest
    by_cases hquote : c = '"' ∨ c = '\''
    · obtain ⟨taken, hr, hcut⟩ := stringBody_cut c rest
      refine ⟨taken, by rw [lexeme_quote hquote]; exact hr, fun r hr => ?_⟩
      rw [lexeme_quote hquote rest] at hr ⊢
      rw [lexeme_quote hquote, hcut r hr]
    by_cases hdigit : c.isDigit = true
    · obtain ⟨hsplit, hcut⟩ := numeral_cut false rest
      refine ⟨(numeral false rest).1, by rwa [lexeme_digit hdigit], fun r hr => ?_⟩
      rw [lexeme_digit hdigit rest] at hr ⊢
      rw [lexeme_digit hdigit, hcut r hr]
    by_cases hname : startsName c = true
    · refine ⟨rest.takeWhile continuesName, ?_, fun r hr => ?_⟩
      · rw [lexeme_startsName hname, List.takeWhile_append_dropWhile]
      · rw [lexeme_startsName hname rest] at hr ⊢
        have hall : ∀ d ∈ rest.takeWhile continuesName, continuesName d = true :=
          fun d hd => List.mem_takeWhile_imp hd
        have hstop : ∀ d ∈ r.head?, continuesName d = false := by
          intro d hd
          obtain ⟨more, hmore⟩ : r <+: rest.dropWhile continuesName := hr
          have hhead := List.head?_dropWhile_not continuesName rest
          rw [← hmore] at hhead
          cases r with
          | nil => cases hd
          | cons e r =>
            cases hd
            simpa using hhead
        rw [lexeme_startsName hname, takeWhile_append_stop hall hstop,
          dropWhile_append_stop hall hstop]
    exact cutsOff_of_lexeme (.invalid c) fun r _ => by
      simp [lexeme, hm, hplus, hpoint, hquote, hdigit, hname]

theorem skipGap_alone {c : Char} {cs : List Char} (hb : isBlank c = false)
    (hs : c = '/' → cs = []) : skipGap (c :: cs) = c :: cs := by
  by_cases hc : c = '/'
  · rw [hs hc, hc, skipGap.eq_def]
    rfl
  · exact skipGap_solid hb hc cs

/-- The text of a token alone is read as that token. -/
theorem tokens_alone {c : Char} {rest taken : List Char} (hb : isBlank c = false)
    (hr : rest = taken ++ (lexeme c rest).2) (hl : lexeme c taken = ((lexeme c rest).1, [])) :
    tokens (c :: taken) = [⟨(lexeme c rest).1, 0, byteLength (c :: taken)⟩] := by
  have hgap : skipGap (c :: taken) = c :: taken := by
    refine skipGap_alone hb fun hc => ?_
    subst hc
    exact List.append_left_eq_self.1 hr.symm
  rw [tokens, tokensOf_step hgap, hl, tokensOf_end skipGap_nil, Nat.sub_self, byteLength_nil,
    Nat.sub_zero]

/-! ## Tilings -/

/-- A text from a given byte on as a row of tokens: before each token there is a gap, its text is
not empty and alone is read as the token, and behind the last one there is a gap, too. -/
inductive Tiles : ℕ → List Char → List Token → Prop where
  | last {n : ℕ} {gap : List Char} : LastGap gap → Tiles n gap []
  | token {n : ℕ} {gap text rest : List Char} {t : Token} {ts : List Token} : Gap gap →
      text ≠ [] → t.start = n + byteLength gap → t.stop = t.start + byteLength text →
      tokens text = [⟨t.kind, 0, byteLength text⟩] → Tiles t.stop rest ts →
      Tiles n (gap ++ text ++ rest) (t :: ts)

theorem tokensOf_tile (n : ℕ) (cs : List Char) : Tiles n cs (tokensOf (n + byteLength cs) cs) := by
  generalize hs : n + byteLength cs = size
  fun_induction tokensOf size cs generalizing n with
  | case1 cs h => exact .last (lastGap_of_skipGap h)
  | case2 cs c rest h ih =>
    obtain ⟨⟨gap, hcs, hgap⟩, hb⟩ := gap_of_skipGap h
    obtain ⟨taken, hr, hcut⟩ := lexeme_cut c rest
    have hl := hcut [] List.nil_prefix
    rw [List.append_nil] at hl
    have hsplit : cs = gap ++ c :: taken ++ (lexeme c rest).2 := by
      rw [hcs, List.append_assoc, List.cons_append, ← hr]
    have hbytes : byteLength (c :: rest) =
        byteLength (c :: taken) + byteLength (lexeme c rest).2 := by
      rw [← byteLength_append, List.cons_append, ← hr]
    have hall : size = n + byteLength gap + byteLength (c :: rest) := by
      rw [← hs, hcs, byteLength_append, Nat.add_assoc]
    rw [hsplit]
    refine .token hgap (List.cons_ne_nil _ _) ?_ ?_ (tokens_alone hb hr hl) (ih _ ?_)
    all_goals
      simp only
      omega

/-- Tokens in a text, with gaps around them. -/
def tokenLayout : Layout Token where
  start := Token.start
  stop := Token.stop
  spells text t := tokens text = [⟨t.kind, 0, byteLength text⟩]
  gap := Gap
  lastGap := LastGap

theorem Tiles.covers {n : ℕ} {cs : List Char} {ts : List Token} (h : Tiles n cs ts) :
    tokenLayout.Covers n cs ts := by
  induction h with
  | last hgap => exact .last hgap
  | token hgap hne hstart hstop htext _ ih => exact .part hgap hne hstart hstop htext ih

/-- Cutting a text into tokens loses nothing. Step by step a scanner takes its tokens and then
stands at its end for good, and there are no more tokens than characters. The tokens follow each
other without overlap, each takes up some characters of the text, which alone are read as that
token, and there are only blanks and comments between them; no comment but one at the end of the
text is cut off. -/
theorem tokens_tile (source : List Char) :
    (∀ n, (Scanner.start source).take n = match (tokens source)[n]? with
      | some t => (some t.kind, t.start, t.stop)
      | none => (none, byteLength source, byteLength source)) ∧
    (tokens source).length ≤ source.length ∧
    Tiles 0 source (tokens source) ∧
    (tokens source).Pairwise (·.stop ≤ ·.start) ∧
    ∀ t ∈ tokens source, t.start < t.stop ∧ ∃ before text after,
      source = before ++ text ++ after ∧ t.start = byteLength before ∧
      t.stop = byteLength (before ++ text) ∧ tokens text = [⟨t.kind, 0, byteLength text⟩] := by
  have htile : Tiles 0 source (tokens source) := by
    have := tokensOf_tile 0 source
    rwa [Nat.zero_add] at this
  refine ⟨(Scanner.start source).take_eq, htile.covers.length_le, htile, htile.covers.pairwise, ?_⟩
  intro t ht
  obtain ⟨before, text, after, hsource, hstart, hstop, hne, htext⟩ := htile.covers.stands t ht
  simp only [tokenLayout, Nat.zero_add] at hstart hstop
  have hpos := byteLength_pos hne
  refine ⟨by omega, before, text, after, hsource, hstart, ?_, htext⟩
  rw [hstop, hstart, byteLength_append]

/-- A letter of two bytes, a mark between comments, and a comment that is cut off. -/
example : (tokens "é/**/+/*".toList).map (fun t => (t.start, t.stop)) = [(0, 2), (6, 7)] := by
  decide +kernel

end ModuleLoader.Dialect
