import ModuleLoader.Proofs.Dialect.StatementReading

/-! # Printing and parsing again

The canonical texts of well-formed statements are parsed into these statements again. Where every
number literal is finite nothing changes but the sign of a zero, which the text does not show.
-/

namespace ModuleLoader.Dialect

open Expression

/-! ## What rereading keeps -/

/-- Whether a number literal is read again as the same number. -/
def IsRereadable (x : Float) : Prop := x.isFinite = true ∧ ((x == 0.0) = true → x = 0.0)

theorem rereadNumber_eq {x : Float} (h : IsRereadable x) : rereadNumber x = .number x := by
  rw [rereadNumber, if_pos h.1]
  split
  · rename_i hx
    rw [h.2 hx]
  · rfl

namespace Expression

mutual

theorem reread_eq : ∀ e : Expression, (∀ x ∈ e.numbers, IsRereadable x) → e.reread = e
  | number x, h => rereadNumber_eq (h x (by simp [numbers]))
  | string _, _ | boolean _, _ | null, _ | identifier _, _ | self, _ => rfl
  | array elements, h => by rw [reread, rereadAll_eq elements h]
  | member object _, h => by rw [reread, reread_eq object h]
  | index object key, h => by
    rw [numbers, List.forall_mem_append] at h
    rw [reread, reread_eq object h.1, reread_eq key h.2]
  | negate operand, h => by rw [reread, reread_eq operand h]
  | binary _ left right, h => by
    rw [numbers, List.forall_mem_append] at h
    rw [reread, reread_eq left h.1, reread_eq right h.2]
  | assign _ target value, h => by
    rw [numbers, List.forall_mem_append] at h
    rw [reread, reread_eq target h.1, reread_eq value h.2]
  | increment target, h => by rw [reread, reread_eq target h]

theorem rereadAll_eq : ∀ es : List Expression, (∀ x ∈ allNumbers es, IsRereadable x) →
    rereadAll es = es
  | [], _ => rfl
  | e :: es, h => by
    rw [allNumbers, List.forall_mem_append] at h
    rw [rereadAll, reread_eq e h.1, rereadAll_eq es h.2]

end

theorem wellFormed_rereadNumber {x : Float} (h : 0.0 ≤ x) : (rereadNumber x).WellFormed := by
  rw [rereadNumber]
  split
  · split
    · exact (by decide : (0.0 : Float) ≤ 0.0)
    · exact h
  · exact isIdentifier_inf

mutual

theorem wellFormed_reread : ∀ e : Expression, e.WellFormed → e.reread.WellFormed
  | number _, h => wellFormed_rereadNumber h
  | string _, _ | boolean _, _ | null, _ | self, _ => trivial
  | identifier _, h => h
  | array elements, h => allWellFormed_rereadAll elements h
  | member object _, h => ⟨wellFormed_reread object h.1, h.2⟩
  | index object key, h => ⟨wellFormed_reread object h.1, wellFormed_reread key h.2⟩
  | negate operand, h => wellFormed_reread operand h
  | binary _ left right, h => ⟨wellFormed_reread left h.1, wellFormed_reread right h.2⟩
  | assign _ target value, h =>
    ⟨isAssignable_reread h.1, wellFormed_reread target h.2.1, wellFormed_reread value h.2.2⟩
  | increment target, h => ⟨isAssignable_reread h.1, wellFormed_reread target h.2⟩

theorem allWellFormed_rereadAll : ∀ es : List Expression, AllWellFormed es →
    AllWellFormed (rereadAll es)
  | [], _ => trivial
  | e :: es, h => ⟨wellFormed_reread e h.1, allWellFormed_rereadAll es h.2⟩

end

end Expression

theorem Declarator.reread_eq {d : Declarator} (h : ∀ x ∈ d.numbers, IsRereadable x) :
    d.reread = d := by
  obtain ⟨name, value⟩ := d
  cases value with
  | none => rfl
  | some e => rw [Declarator.reread, Option.map_some, Expression.reread_eq e h]

theorem Declarator.wellFormed_reread {d : Declarator} (h : d.WellFormed) : d.reread.WellFormed := by
  refine ⟨h.1, fun e he => ?_⟩
  obtain ⟨a, ha, rfl⟩ := Option.map_eq_some_iff.1 he
  exact Expression.wellFormed_reread a (h.2 a ha)

theorem declarators_reread_eq {l : List Declarator}
    (h : ∀ x ∈ l.flatMap Declarator.numbers, IsRereadable x) : l.map Declarator.reread = l := by
  have hd : ∀ d ∈ l, d.reread = d := fun d hd =>
    Declarator.reread_eq fun x hx => h x (List.mem_flatMap_of_mem hd hx)
  exact (List.map_congr_left hd).trans (List.map_id l)

theorem declarators_wellFormed_reread {l : List Declarator}
    (h : l ≠ [] ∧ ∀ d ∈ l, d.WellFormed) :
    l.map Declarator.reread ≠ [] ∧ ∀ d ∈ l.map Declarator.reread, d.WellFormed := by
  refine ⟨by simpa using h.1, fun d hd => ?_⟩
  obtain ⟨a, ha, rfl⟩ := List.mem_map.1 hd
  exact Declarator.wellFormed_reread (h.2 a ha)

namespace StatementKind

theorem reread_eq : ∀ {kind : StatementKind}, (∀ x ∈ kind.numbers, IsRereadable x) →
    kind.reread = kind
  | exportVar _, h => by rw [reread, declarators_reread_eq h]
  | var _, h => by rw [reread, declarators_reread_eq h]
  | exportDefault e, h => by rw [reread, Expression.reread_eq e h]
  | expression e, h => by rw [reread, Expression.reread_eq e h]
  | importFrom _ _, _ | moduleFrom _ _, _ | exportNamed _ _, _ | exportAll _, _ => rfl

theorem wellFormed_reread : ∀ {kind : StatementKind}, kind.WellFormed → kind.reread.WellFormed
  | exportVar _, h => declarators_wellFormed_reread h
  | var _, h => declarators_wellFormed_reread h
  | exportDefault e, h => Expression.wellFormed_reread e h
  | expression e, h => Expression.wellFormed_reread e h
  | importFrom _ _, h | moduleFrom _ _, h | exportNamed _ _, h | exportAll _, h => h

end StatementKind

/-! ## Programs -/

theorem length_le_flatMap_row (l : List StatementKind) :
    l.length ≤ (l.flatMap StatementKind.row).length := by
  induction l with
  | nil => exact Nat.zero_le _
  | cons k l ih =>
    have := Parse.length_statementRow_pos k
    rw [List.flatMap_cons, List.length_append, List.length_cons]
    omega

/-- A program is what its statements are read as from the first token on. -/
theorem ofTokens_eq_ok {tokens : List Token} {size : ℕ} {p : Program} :
    Program.ofTokens tokens size = .ok p ↔
      ∃ c, (Parse.statements (tokens.length + 1)).run ⟨tokens, 0, size⟩ = .ok (p.body, c) := by
  have hmap : ∀ r : Except SyntaxError (List Statement × Cursor),
      (Prod.fst <$> r).map Program.mk = .ok p ↔ ∃ c, r = .ok (p.body, c) := by
    rintro (e | ⟨body, c⟩)
    · simp [Except.map, Functor.map]
    · constructor
      · intro h
        cases h
        exact ⟨c, rfl⟩
      · rintro ⟨c', h⟩
        cases h
        rfl
  exact hmap _

theorem ofSource_eq_ok {source : List Char} {p : Program} : Program.ofSource source = .ok p ↔
    ∃ c, (Parse.statements ((tokens source).length + 1)).run
      ⟨tokens source, 0, Text.byteLength source⟩ = .ok (p.body, c) := ofTokens_eq_ok

/-- A text whose tokens spell well-formed statements is parsed into these statements. -/
theorem ofSource_of_kinds {l : List StatementKind} (h : ∀ k ∈ l, k.WellFormed) {text : List Char}
    (ht : kinds text = l.flatMap StatementKind.row) :
    ∃ p, Program.ofSource text = .ok p ∧ p.body.map (·.kind) = l := by
  have hlen : l.length < (tokens text).length + 1 := by
    have hk : (tokens text).length = (kinds text).length := (List.length_map _).symm
    have := length_le_flatMap_row l
    rw [hk, ht]
    omega
  obtain ⟨body, c, hrun, hmap⟩ := Parse.exists_statements h
    (c := ⟨tokens text, 0, Text.byteLength text⟩) ht hlen
  exact ⟨⟨body⟩, ofSource_eq_ok.2 ⟨c, hrun⟩, hmap⟩

theorem kinds_lines {l : List StatementKind} (h : ∀ k ∈ l, k.WellFormed) :
    kinds (['\n'].intercalate (l.map StatementKind.print)) =
      (l.map StatementKind.reread).flatMap StatementKind.row := by
  induction l with
  | nil => rw [List.map_nil, List.intercalate_nil, kinds_nil]; rfl
  | cons k l ih =>
    have hk := StatementKind.kinds_print (h k (by simp))
    have hl := ih fun k hk => h k (by simp [hk])
    cases l with
    | nil => simpa using hk []
    | cons k' l =>
      rw [List.map_cons, List.map_cons, List.intercalate_cons_cons, List.append_assoc, hk,
        List.singleton_append, kinds_newline, ← List.map_cons, hl]
      rfl

/-- Parsing the canonical texts of well-formed statements with finite numbers, one a line, yields
these statements, a zero without its sign. -/
theorem parse_lines_print (l : List StatementKind) (h : ∀ k ∈ l, k.WellFormed)
    (hf : ∀ k ∈ l, ∀ x ∈ k.numbers, x.isFinite = true) :
    ∃ p, Program.ofSource (['\n'].intercalate (l.map StatementKind.print)) = .ok p ∧
      p.body.map (·.kind) = l.map StatementKind.reread ∧
      ((∀ k ∈ l, ∀ x ∈ k.numbers, (x == 0.0) = true → x = 0.0) → p.body.map (·.kind) = l) := by
  have hr : ∀ k ∈ l.map StatementKind.reread, k.WellFormed := by
    intro k hk
    obtain ⟨a, ha, rfl⟩ := List.mem_map.1 hk
    exact StatementKind.wellFormed_reread (h a ha)
  obtain ⟨p, hp, hmap⟩ := ofSource_of_kinds hr (kinds_lines h)
  refine ⟨p, hp, hmap, fun hz => hmap.trans ?_⟩
  have hk : ∀ k ∈ l, k.reread = k := fun k hk =>
    StatementKind.reread_eq fun x hx => ⟨hf k hk x hx, hz k hk x hx⟩
  exact (List.map_congr_left hk).trans (List.map_id l)

/-- Statements whose words have a meaning elsewhere and whose strings need escapes. -/
def contextualStatements : List StatementKind :=
  [.importFrom [.named "default" "from", .named "as" "as"] "a\"\n",
    .moduleFrom "module" "\\",
    .exportNamed [⟨"from", "import"⟩] (some "\x00"),
    .var [⟨"as", none⟩, ⟨"module", some (.array [.number 0.1, .negate (.negate .self)])⟩],
    .expression (.assign true (.index (.member (.identifier "module") "var") (.string "']"))
      (.binary .mul (.increment (.identifier "as")) (.binary .div (.number 2.0) .null)))]

theorem wellFormed_contextual : ∀ k ∈ contextualStatements, k.WellFormed := by
  have has := isIdentifier_as
  have hfrom := isIdentifier_from
  have hmodule := isIdentifier_module
  have hword : ∀ k : Keyword, IsName k.word := fun k => .inr ⟨k, rfl⟩
  have hbindings : ∀ b ∈ [ImportBinding.named "default" "from", .named "as" "as"], b.WellFormed :=
    List.forall_mem_cons.2 ⟨⟨hword .defaultWord, .inr hfrom⟩,
      List.forall_mem_singleton.2 ⟨.inl has, .inl rfl⟩⟩
  have harray : (Expression.array [.number 0.1, .negate (.negate .self)]).WellFormed :=
    ⟨(by decide +kernel : (0.0 : Float) ≤ 0.1), trivial, trivial⟩
  have hdeclarators : ∀ d ∈ [Declarator.mk "as" none,
      ⟨"module", some (.array [.number 0.1, .negate (.negate .self)])⟩], d.WellFormed :=
    List.forall_mem_cons.2 ⟨⟨has, by simp⟩,
      List.forall_mem_singleton.2 ⟨hmodule, by simpa using harray⟩⟩
  have hassign : (Expression.assign true
      (.index (.member (.identifier "module") "var") (.string "']"))
      (.binary .mul (.increment (.identifier "as"))
        (.binary .div (.number 2.0) .null))).WellFormed :=
    ⟨rfl, ⟨⟨hmodule, hword .varWord⟩, trivial⟩, ⟨rfl, has⟩,
      (by decide +kernel : (0.0 : Float) ≤ 2.0), trivial⟩
  intro k hk
  simp only [contextualStatements, List.mem_cons, List.not_mem_nil, or_false] at hk
  rcases hk with rfl | rfl | rfl | rfl | rfl
  · exact hbindings
  · exact hmodule
  · exact List.forall_mem_singleton.2 ⟨.inl hfrom, hword .importWord⟩
  · exact ⟨by simp, hdeclarators⟩
  · exact hassign

theorem numbers_contextual : ∀ k ∈ contextualStatements, ∀ x ∈ k.numbers,
    x.isFinite = true ∧ (x == 0.0) = false := by
  have hall : ∀ x ∈ contextualStatements.flatMap StatementKind.numbers,
      x.isFinite = true ∧ (x == 0.0) = false := by
    show ∀ x ∈ [0.1, 2.0], _
    decide +kernel
  exact fun k hk x hx => hall x (List.mem_flatMap_of_mem hk hx)

theorem parse_lines_print_contextual :
    (∀ k ∈ contextualStatements, k.WellFormed) ∧
      (∀ k ∈ contextualStatements, ∀ x ∈ k.numbers, x.isFinite = true) ∧
      ∃ p, Program.ofSource (['\n'].intercalate (contextualStatements.map StatementKind.print)) =
        .ok p ∧ p.body.map (·.kind) = contextualStatements := by
  have hf := fun k hk x hx => (numbers_contextual k hk x hx).1
  obtain ⟨p, hp, -, hmap⟩ := parse_lines_print contextualStatements wellFormed_contextual hf
  refine ⟨wellFormed_contextual, hf, p, hp, hmap fun k hk x hx hzero => ?_⟩
  rw [(numbers_contextual k hk x hx).2] at hzero
  cases hzero

end ModuleLoader.Dialect
