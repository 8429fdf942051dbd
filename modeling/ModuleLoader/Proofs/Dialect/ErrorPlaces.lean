import ModuleLoader.Proofs.Dialect.LineOrigins
import ModuleLoader.Proofs.Results

/-! # Places of errors

A text that is no program is refused at the start of one of its tokens or at its end, where the
token stands that ends the input. No character lies across such a place, and its position is the
one where a walk over the characters before it ends.
-/

namespace ModuleLoader.Dialect

open Text

/-- Whether an offset is the start of a token of a row, or of the end behind `size` bytes. -/
def StartsToken (row : List Token) (size offset : ℕ) : Prop :=
  (∃ t ∈ row, offset = t.start) ∨ offset = size

/-- Whether a cursor has the last tokens of a row before it and knows the end of the source. -/
structure Cursor.Within (c : Cursor) (row : List Token) (size : ℕ) : Prop where
  rest : c.rest <:+ row
  size : c.size = size

-- The row is that of the whole source: a target is refused where it starts, when its tokens are
-- taken already and stand in no row that is left.
/-- Whether a step over a row fails only at the start of a token, and goes on within the row. -/
def Reports (row : List Token) (size : ℕ) {α : Type} (p : Parse α) : Prop :=
  ∀ c : Cursor, c.Within row size →
    match p.run c with
    | .error e => StartsToken row size e.offset
    | .ok (_, c') => c'.Within row size

variable {row : List Token} {size : ℕ}

theorem Cursor.Within.offset {c : Cursor} (h : c.Within row size) :
    StartsToken row size c.offset := by
  obtain ⟨rest, last, _⟩ := c
  obtain ⟨hrest, rfl⟩ := h
  cases rest with
  | nil => exact .inr rfl
  | cons t rest => exact .inl ⟨t, hrest.subset List.mem_cons_self, rfl⟩

theorem Cursor.Within.next {c : Cursor} (h : c.Within row size) : c.next.Within row size := by
  refine ⟨c.rest_next_suffix.trans h.rest, ?_⟩
  rw [← h.size, Cursor.next]
  split <;> rfl

section Steps

variable {α β : Type} {p : Parse α} {f : α → Parse β}

theorem Reports.bind (hp : Reports row size p) (hf : ∀ a, Reports row size (f a)) :
    Reports row size (p >>= f) := by
  intro c hc
  have h := hp c hc
  rw [StateT.run_bind]
  cases hrun : p.run c with
  | error e =>
    rw [hrun] at h
    exact h
  | ok r =>
    rw [hrun] at h
    exact hf r.1 r.2 h

theorem reports_pure (a : α) : Reports row size (pure a : Parse α) := fun _ hc => hc

theorem reports_get {f : Cursor → Parse β}
    (h : ∀ c : Cursor, c.Within row size → Reports row size (f c)) :
    Reports row size (get >>= f) := fun c hc => h c hc c hc

theorem reports_error {e : SyntaxError} (h : StartsToken row size e.offset) :
    Reports row size (fun _ => .error e : Parse α) := fun _ _ => h

theorem reports_refuse (cause : Option TokenKind → SyntaxCause) :
    Reports row size (Parse.refuse cause : Parse α) := fun _ hc => hc.offset

theorem reports_skip : Reports row size Parse.skip := fun _ hc => hc.next

theorem reports_skip_bind {f : Unit → Parse β} (h : Reports row size (f ())) :
    Reports row size (Parse.skip >>= f) := reports_skip.bind fun _ => h

end Steps

/-! ## The grammar -/

namespace Parse

theorem reports_mark (m : Mark) : Reports row size (mark m) := by
  refine reports_get fun c _ => ?_
  split
  · exact reports_skip
  · exact reports_refuse _

theorem reports_word (w : String) : Reports row size (word w) := by
  refine reports_get fun c _ => ?_
  split
  · exact reports_skip
  · exact reports_refuse _

theorem reports_identifier : Reports row size identifier := by
  refine reports_get fun c _ => ?_
  split
  · exact reports_skip_bind (reports_pure _)
  · exact reports_refuse _

theorem reports_name : Reports row size name := by
  refine reports_get fun c _ => ?_
  split
  · exact reports_skip_bind (reports_pure _)
  · exact reports_skip_bind (reports_pure _)
  · exact reports_refuse _

theorem reports_specifier : Reports row size specifier := by
  refine reports_get fun c _ => ?_
  split
  · exact reports_skip_bind (reports_pure _)
  · exact reports_refuse _

theorem reports_semicolon : Reports row size semicolon := by
  refine reports_get fun c _ => ?_
  split
  · exact reports_pure _
  · exact reports_mark _

theorem reports_items {α : Type} {item : Parse α} (closing : Mark) (h : Reports row size item)
    (n : ℕ) : Reports row size (items closing item n) := by
  induction n with
  | zero => exact reports_pure _
  | succ n ih =>
    refine reports_get fun c _ => ?_
    split
    · exact reports_pure _
    · refine h.bind fun a => reports_get fun c _ => ?_
      split
      · exact reports_skip_bind (ih.bind fun l => reports_pure _)
      · exact reports_pure _

theorem reports_separated {α : Type} {item : Parse α} (h : Reports row size item) (n : ℕ) :
    Reports row size (separated item n) := by
  induction n with
  | zero => exact reports_pure _
  | succ n ih =>
    refine h.bind fun a => reports_get fun c _ => ?_
    split
    · exact reports_skip_bind (ih.bind fun l => reports_pure _)
    · exact reports_pure _

/-- Whether the steps of a depth fail only at the start of a token. -/
structure LevelsReport (row : List Token) (size n : ℕ) : Prop where
  expression : Reports row size (expression n)
  sum : Reports row size (sum n)
  sumTail : ∀ e, Reports row size (sumTail n e)
  product : Reports row size (product n)
  productTail : ∀ e, Reports row size (productTail n e)
  factor : Reports row size (factor n)
  chain : Reports row size (chain n)
  chainTail : ∀ e, Reports row size (chainTail n e)
  primary : Reports row size (primary n)

section Levels

variable {n : ℕ} (h : LevelsReport row size n)
include h

/-- A wrong target is told where the expression starts, which is behind the cursor by then. -/
theorem reports_expression : Reports row size (expression (n + 1)) := by
  rw [Parse.expression]
  refine reports_get fun c hc => h.sum.bind fun target => reports_get fun c' _ => ?_
  split
  · exact reports_pure _
  · split
    · exact reports_skip_bind (h.expression.bind fun v => reports_pure _)
    · exact reports_error hc.offset

theorem reports_sumTail (left : Expression) : Reports row size (sumTail (n + 1) left) := by
  rw [Parse.sumTail]
  refine reports_get fun c _ => ?_
  split
  · exact reports_pure _
  · exact reports_skip_bind (h.product.bind fun r => h.sumTail _)

theorem reports_productTail (left : Expression) : Reports row size (productTail (n + 1) left) := by
  rw [Parse.productTail]
  refine reports_get fun c _ => ?_
  split
  · exact reports_pure _
  · exact reports_skip_bind (h.factor.bind fun r => h.productTail _)

theorem reports_factor : Reports row size (factor (n + 1)) := by
  rw [Parse.factor]
  refine reports_get fun c _ => ?_
  split
  · exact reports_skip_bind (h.factor.bind fun e => reports_pure _)
  · exact h.chain

theorem reports_chain : Reports row size (chain (n + 1)) := by
  rw [Parse.chain]
  refine reports_get fun c hc => h.primary.bind fun e => (h.chainTail e).bind fun place =>
    reports_get fun c' _ => ?_
  split
  · split
    · exact reports_skip_bind (reports_pure _)
    · exact reports_error hc.offset
  · exact reports_pure _

theorem reports_chainTail (object : Expression) :
    Reports row size (chainTail (n + 1) object) := by
  rw [Parse.chainTail]
  refine reports_get fun c _ => ?_
  split
  · exact reports_skip_bind (reports_name.bind fun p => h.chainTail _)
  · refine reports_get fun c' _ => ?_
    split
    · exact reports_skip_bind (h.expression.bind fun k => (reports_mark _).bind fun _ =>
        h.chainTail _)
    · exact reports_pure _

theorem reports_primary : Reports row size (primary (n + 1)) := by
  rw [Parse.primary]
  refine reports_get fun c _ => ?_
  split
  case h_8 =>
    exact reports_skip_bind ((reports_items _ h.expression n).bind fun es =>
      (reports_mark _).bind fun _ => reports_pure _)
  case h_9 =>
    exact reports_skip_bind (h.expression.bind fun e => (reports_mark _).bind fun _ =>
      reports_pure _)
  case h_10 => exact reports_refuse _
  all_goals exact reports_skip_bind (reports_pure _)

end Levels

theorem levelsReport (n : ℕ) : LevelsReport row size n := by
  induction n with
  | zero =>
    exact ⟨reports_refuse _, reports_refuse _, fun _ => reports_pure _, reports_refuse _,
      fun _ => reports_pure _, reports_refuse _, reports_refuse _, fun _ => reports_pure _,
      reports_refuse _⟩
  | succ n h =>
    exact {
      expression := reports_expression h
      sum := h.product.bind fun e => h.sumTail e
      sumTail := reports_sumTail h
      product := h.factor.bind fun e => h.productTail e
      productTail := reports_productTail h
      factor := reports_factor h
      chain := reports_chain h
      chainTail := reports_chainTail h
      primary := reports_primary h }

theorem reports_wholeExpression : Reports row size wholeExpression :=
  reports_get fun _ _ => (levelsReport _).expression

theorem reports_declarator : Reports row size declarator := by
  refine reports_identifier.bind fun name => reports_get fun c _ => ?_
  split
  · exact reports_skip_bind (reports_wholeExpression.bind fun e => reports_pure _)
  · exact reports_pure _

theorem reports_declarators : Reports row size declarators :=
  reports_get fun _ _ => reports_separated reports_declarator _

theorem reports_renamed {second : Parse String} (h : Reports row size second) :
    Reports row size (renamed second) := by
  refine reports_name.bind fun first => reports_get fun c _ => ?_
  split
  · exact reports_skip_bind (h.bind fun b => reports_pure _)
  · exact reports_pure _

theorem reports_braces {α : Type} {item : Parse α} (h : Reports row size item) :
    Reports row size (braces item) :=
  (reports_mark _).bind fun _ => reports_get fun _ _ => (reports_items _ h _).bind fun _ =>
    (reports_mark _).bind fun _ => reports_pure _

theorem reports_from {α : Type} (f : String → α) :
    Reports row size (do word "from"; return f (← specifier)) :=
  (reports_word _).bind fun _ => reports_specifier.bind fun _ => reports_pure _

theorem reports_importClause : Reports row size importClause := by
  refine reports_get fun c _ => ?_
  split
  · exact reports_skip_bind (reports_pure _)
  · refine reports_get fun c _ => ?_
    split
    · exact reports_skip_bind ((reports_word _).bind fun _ => reports_identifier.bind fun b =>
        (reports_pure _).bind fun l => reports_from _)
    · refine (reports_braces ?_).bind fun l => reports_from _
      exact (reports_renamed reports_identifier).bind fun r => reports_pure _

theorem reports_moduleClause : Reports row size moduleClause :=
  reports_identifier.bind fun _ => reports_from _

theorem reports_exportClause : Reports row size exportClause := by
  refine reports_get fun c _ => ?_
  split
  · exact reports_skip_bind (reports_declarators.bind fun l => reports_pure _)
  · exact reports_skip_bind (reports_wholeExpression.bind fun e => reports_pure _)
  · exact reports_skip_bind (reports_from _)
  · refine (reports_braces ?_).bind fun l => reports_get fun c _ => ?_
    · exact (reports_renamed reports_name).bind fun r => reports_pure _
    · split
      · exact reports_skip_bind (reports_specifier.bind fun s => reports_pure _)
      · exact reports_pure _
  · exact reports_refuse _

theorem reports_statementKind : Reports row size statementKind := by
  refine reports_get fun c _ => ?_
  split
  · exact reports_skip_bind reports_importClause
  · exact reports_skip_bind reports_exportClause
  · exact reports_skip_bind (reports_declarators.bind fun l => reports_pure _)
  · refine reports_get fun c _ => ?_
    split
    · exact reports_skip_bind reports_moduleClause
    · exact reports_wholeExpression.bind fun e => reports_pure _

theorem reports_statement : Reports row size statement :=
  reports_get fun _ _ => reports_statementKind.bind fun _ => reports_semicolon.bind fun _ =>
    reports_get fun _ _ => reports_pure _

theorem reports_statements (n : ℕ) : Reports row size (statements n) := by
  induction n with
  | zero => exact reports_pure _
  | succ n ih =>
    refine reports_get fun c _ => ?_
    split
    · exact reports_pure _
    · refine reports_get fun c _ => ?_
      split
      · exact reports_skip_bind ih
      · exact reports_statement.bind fun s => ih.bind fun l => reports_pure _

end Parse

/-! ## Errors of source texts -/

theorem ofSource_eq_error {source : List Char} {e : SyntaxError}
    (h : Program.ofSource source = .error e) :
    (Parse.statements ((tokens source).length + 1)).run ⟨tokens source, 0, byteLength source⟩ =
      .error e := by
  rw [Program.ofSource, Program.ofTokens, map_eq_error_iff] at h
  change Prod.fst <$> (Parse.statements _).run _ = _ at h
  cases hrun : (Parse.statements ((tokens source).length + 1)).run
      ⟨tokens source, 0, byteLength source⟩ with
  | error e' =>
    rw [hrun] at h
    cases h
    rfl
  | ok r =>
    rw [hrun] at h
    cases h

/-- A text that is no program is refused at the start of a token. -/
theorem startsToken_of_error {source : List Char} {e : SyntaxError}
    (h : Program.ofSource source = .error e) :
    StartsToken (tokens source) (byteLength source) e.offset := by
  have hreports := Parse.reports_statements ((tokens source).length + 1)
    ⟨tokens source, 0, byteLength source⟩ ⟨List.suffix_rfl, rfl⟩
  rw [ofSource_eq_error h] at hreports
  exact hreports

/-- So does each statement of a program start. -/
theorem startsToken_of_mem {source : List Char} {p : Program}
    (h : Program.ofSource source = .ok p) {s : Statement} (hs : s ∈ p.body) :
    StartsToken (tokens source) (byteLength source) s.start := by
  obtain ⟨l, hl, hbody⟩ := ofSource_laid h
  rw [← hbody, List.mem_map] at hs
  obtain ⟨e, he, rfl⟩ := hs
  exact .inl ⟨e.1, hl.mem e he, hl.start e he⟩

theorem isBoundary_of_startsToken {source : List Char} {offset : ℕ}
    (h : StartsToken (tokens source) (byteLength source) offset) : IsBoundary source offset := by
  rcases h with ⟨t, ht, rfl⟩ | rfl
  · obtain ⟨before, first, after, hstands⟩ := tokens_stand source t ht
    exact ⟨before, first :: after, hstands.source, hstands.start⟩
  · exact isBoundary_length source

/-- Whether a load failed at the start of a token, with the position to which a walk leads. -/
def PointsToToken (source : List Char) (name : String) (e : LoadError) : Prop :=
  ∃ before after cause, source = before ++ after ∧
    StartsToken (tokens source) (byteLength source) (byteLength before) ∧
    e = .compile name (some (.walk before)) cause

theorem pointsToToken_of_startsToken {source : List Char} {offset : ℕ}
    (h : StartsToken (tokens source) (byteLength source) offset) (name : String)
    (cause : CompileCause) :
    PointsToToken source name (.compile name (some (.ofOffset source offset)) cause) := by
  obtain ⟨before, after, rfl, rfl⟩ := isBoundary_of_startsToken h
  exact ⟨before, after, cause, rfl, h, by rw [Position.ofOffset_append]⟩

theorem pointsToToken_of_programOf {name source : String} {e : LoadError}
    (h : programOf name source = .error e) : PointsToToken source.toList name e := by
  rw [programOf] at h
  split at h
  · cases h
  · rename_i e' he
    cases h
    exact pointsToToken_of_startsToken (startsToken_of_error he) name _

theorem pointsToToken_of_scriptOf {name source : String} {e : LoadError}
    (h : scriptOf name source = .error e) : PointsToToken source.toList name e := by
  rw [scriptOf, bind_eq_error_iff] at h
  rcases h with h | ⟨p, hp, h⟩
  · exact pointsToToken_of_programOf h
  · split at h
    · cases h
    · rename_i s hs
      cases h
      have hmem : s ∈ p.body := List.mem_of_find?_eq_some hs
      exact pointsToToken_of_startsToken (startsToken_of_mem (programOf_eq_ok hp) hmem) name _

theorem pointsToToken_of_compile {source : String} {options : CompileOptions} {e : LoadError}
    (h : compile source options = .error e) : PointsToToken source.toList options.name e := by
  rw [compile_eq, map_eq_error_iff, unitOf] at h
  split at h
  · exact pointsToToken_of_scriptOf h
  · exact pointsToToken_of_programOf h

/-- Positions go strictly forward from one place between characters to the next, are where a walk
over the characters before them ends, and stay the same from the end of the text on. A source text
is refused at the start of one of its tokens, which no character lies across, and so is a unit that
is compiled from it. -/
theorem positions_walk_and_errors_start_tokens (source : List Char) :
    (∀ m n, IsBoundary source m → IsBoundary source n → m < n →
      (Position.ofOffset source m).Before (Position.ofOffset source n)) ∧
    (∀ before after, source = before ++ after →
      Position.ofOffset source (byteLength before) = .walk before) ∧
    (∀ n, byteLength source ≤ n →
      Position.ofOffset source n = Position.ofOffset source (byteLength source)) ∧
    (∀ e, Program.ofSource source = .error e →
      StartsToken (tokens source) (byteLength source) e.offset ∧ IsBoundary source e.offset) ∧
    ∀ options e, compile (String.ofList source) options = .error e →
      PointsToToken source options.name e := by
  refine ⟨fun m n => Position.before_ofOffset, ?_, fun n => Position.ofOffset_of_le, ?_, ?_⟩
  · rintro before after rfl
    exact Position.ofOffset_append before after
  · intro e h
    exact ⟨startsToken_of_error h, isBoundary_of_startsToken (startsToken_of_error h)⟩
  · intro options e h
    have hpoints := pointsToToken_of_compile h
    rwa [String.toList_ofList] at hpoints

/-- A letter of two bytes, and on the next line an assignment to a number behind a blank. -/
def misassignedSource : List Char := ['\'', 'é', '\'', ';', '\n', ' ', '1', '=', '2']

theorem positions_walk_and_errors_start_tokens_misassigned :
    (Position.ofOffset misassignedSource 1).Before (Position.ofOffset misassignedSource 3) ∧
      Position.ofOffset misassignedSource 7 = .walk ['\'', 'é', '\'', ';', '\n', ' '] ∧
      Position.ofOffset misassignedSource 100 = Position.ofOffset misassignedSource 10 ∧
      (∃ e, Program.ofSource misassignedSource = .error e ∧ e.offset = 7 ∧
        StartsToken (tokens misassignedSource) 10 e.offset ∧
        IsBoundary misassignedSource e.offset) ∧
      ∃ e, compile (String.ofList misassignedSource) ⟨.script, true, "unit", "unit.js"⟩ =
        .error e ∧ PointsToToken misassignedSource "unit" e := by
  obtain ⟨hforward, hwalk, hstays, hsyntax, hcompile⟩ :=
    positions_walk_and_errors_start_tokens misassignedSource
  have hfirst : IsBoundary misassignedSource 1 := ⟨['\''], _, rfl, rfl⟩
  have hsecond : IsBoundary misassignedSource 3 := ⟨['\'', 'é'], _, rfl, rfl⟩
  refine ⟨hforward 1 3 hfirst hsecond (by decide),
    hwalk ['\'', 'é', '\'', ';', '\n', ' '] ['1', '=', '2'] rfl, hstays 100 (by decide), ?_, ?_⟩
  · have hoffset : (match Program.ofSource misassignedSource with
        | .error e => some e.offset
        | .ok _ => none) = some 7 := by decide +kernel
    cases hsource : Program.ofSource misassignedSource with
    | error e =>
      rw [hsource] at hoffset
      exact ⟨e, rfl, Option.some.inj hoffset, hsyntax e hsource⟩
    | ok p =>
      rw [hsource] at hoffset
      cases hoffset
  · have hrefused : (compile (String.ofList misassignedSource)
        ⟨.script, true, "unit", "unit.js"⟩).toOption.isNone := by decide +kernel
    cases hc : compile (String.ofList misassignedSource) ⟨.script, true, "unit", "unit.js"⟩ with
    | error e => exact ⟨e, rfl, hcompile _ e hc⟩
    | ok compiled =>
      rw [hc] at hrefused
      cases hrefused

end ModuleLoader.Dialect
