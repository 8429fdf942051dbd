import Mathlib.Data.List.Basic
import ModuleLoader.Proofs.PackageMap.Rules

/-! # The best rule

The rule that a map looks up for a name is the best one of all that apply: contextual rules come
before global ones, those of longer contexts before those of shorter ones, and of one context the
rule that replaces most.
-/

namespace ModuleLoader

/-- The length of the context of a rule, which is nothing for a global rule. -/
def MapRule.contextLength (rule : MapRule) : ℕ := (rule.context.map String.length).getD 0

/-- Whether a rule comes before another one: its context is longer, or it replaces more in a context
of the same length. Contexts are beginnings of one referrer and replaced texts are beginnings of one
name, so that it does not matter in what their lengths are measured. -/
def MapRule.Precedes (rule other : MapRule) : Prop :=
  other.contextLength < rule.contextLength ∨
    rule.contextLength = other.contextLength ∧ other.start.length < rule.start.length

theorem MapRule.Precedes.asymm {rule other : MapRule} (h : rule.Precedes other) :
    ¬ other.Precedes rule := by
  unfold Precedes at *
  omega

namespace PackageMap

/-- All rules of a map. -/
def rules (m : PackageMap) : List MapRule :=
  m.entries.entries.flatMap fun e =>
    match e.2 with
    | .target name => [⟨none, e.1, name⟩]
    | .contextual rules => rules.entries.map fun r => ⟨some e.1, r.1, r.2⟩

/-- Whether a rule of a map holds for a referrer: it is global, or its context matches the
referrer. -/
structure Holds (m : PackageMap) (referrer : Option String) (rule : MapRule) : Prop where
  mem : rule ∈ m.rules
  context : ∀ c ∈ rule.context, ∃ r ∈ referrer, startMatches c.toList r.toList = true

/-- Whether a rule holds for a referrer and replaces a name or a beginning of it that ends at a
segment boundary. -/
structure Applies (m : PackageMap) (referrer : Option String) (name : String) (rule : MapRule) :
    Prop where
  holds : m.Holds referrer rule
  start : startMatches rule.start.toList name.toList = true

/-- The rule that comes before all others that apply. -/
structure Best (m : PackageMap) (referrer : Option String) (name : String) (rule : MapRule) :
    Prop where
  applies : m.Applies referrer name rule
  precedes : ∀ other, m.Applies referrer name other → other ≠ rule → rule.Precedes other

variable {m : PackageMap} {referrer : Option String} {name : String}

theorem Best.unique {rule other : MapRule} (h : m.Best referrer name rule)
    (h' : m.Best referrer name other) : rule = other := by
  by_contra hne
  exact (h.precedes other h'.applies (Ne.symm hne)).asymm (h'.precedes rule h.applies hne)

/-! ## The rules of a map -/

theorem ruleCount_eq (m : PackageMap) : m.ruleCount = m.rules.length := by
  have hfold (l : List (String × MapEntry)) (n : ℕ) :
      l.foldl (fun n e =>
        match e.2 with
        | .target _ => n + 1
        | .contextual rules => n + rules.size) n =
      n + (l.flatMap fun e =>
        match e.2 with
        | .target name => [MapRule.mk none e.1 name]
        | .contextual rules => rules.entries.map fun r => ⟨some e.1, r.1, r.2⟩).length := by
    induction l generalizing n with
    | nil => rfl
    | cons e l ih =>
      obtain ⟨key, entry⟩ := e
      rw [List.foldl_cons, ih, List.flatMap_cons, List.length_append]
      cases entry <;> simp [Dict.size, Nat.add_assoc]
  exact (hfold m.entries.entries 0).trans (Nat.zero_add _)

theorem mem_rules_global {start target : String} :
    ⟨none, start, target⟩ ∈ m.rules ↔ m.entries.get? start = some (.target target) := by
  rw [rules, List.mem_flatMap, ← Dict.mem_entries_iff]
  constructor
  · rintro ⟨⟨key, entry⟩, he, hr⟩
    cases entry with
    | target name =>
      cases List.mem_singleton.1 hr
      exact he
    | contextual rules => simp at hr
  · exact fun h => ⟨_, h, List.mem_singleton_self _⟩

theorem mem_rules_contextual {context start target : String} :
    ⟨some context, start, target⟩ ∈ m.rules ↔ ∃ rules,
      m.entries.get? context = some (.contextual rules) ∧ rules.get? start = some target := by
  simp only [rules, List.mem_flatMap, ← Dict.mem_entries_iff]
  constructor
  · rintro ⟨⟨key, entry⟩, he, hr⟩
    cases entry with
    | target name => simp at hr
    | contextual rules =>
      obtain ⟨r, hmem, heq⟩ := List.mem_map.1 hr
      cases heq
      exact ⟨rules, he, hmem⟩
  · rintro ⟨rules, he, hr⟩
    exact ⟨_, he, List.mem_map.2 ⟨_, hr, rfl⟩⟩

/-! ## Longer beginnings -/

theorem prefix_of_startMatches {start name : List Char} (h : startMatches start name = true) :
    start <+: name := by
  obtain ⟨-, rest, rfl, -⟩ := startMatches_iff.1 h
  exact List.prefix_append _ _

theorem length_pos_of_startMatches {start : String} {name : List Char}
    (h : startMatches start.toList name = true) : 0 < start.length := by
  rw [← String.length_toList]
  exact List.length_pos_iff.2 (startMatches_iff.1 h).1

/-- Of two beginnings of a text the one that comes later in the order of texts is longer. -/
theorem length_lt_of_lt {start start' : String} {name : List Char} (h : start < start')
    (hs : startMatches start.toList name = true) (hs' : startMatches start'.toList name = true) :
    start.length < start'.length := by
  by_contra hle
  have hprefix := List.prefix_of_prefix_length_le (prefix_of_startMatches hs')
    (prefix_of_startMatches hs) (by simpa only [String.length_toList] using Nat.not_lt.1 hle)
  exact List.not_lt.2 hprefix.le h

/-- The last rule of a table that matches a name replaces more than the others. -/
theorem length_lt_of_getLast? {context : Option String} {table : List (String × String)}
    (hsorted : table.Pairwise (·.1 < ·.1)) {rule other : MapRule}
    (h : (matching context table name).getLast? = some rule)
    (ho : other ∈ matching context table name) (hne : other ≠ rule) :
    other.start.length < rule.start.length := by
  have hpairs : (matching context table name).Pairwise (·.start < ·.start) := by
    rw [matching, List.pairwise_map]
    exact hsorted.filter _
  obtain ⟨init, hinit⟩ := List.getLast?_eq_some_iff.1 h
  have hrule : rule ∈ matching context table name := List.mem_of_getLast? h
  rw [hinit] at hpairs ho
  have hmem : other ∈ init := by simpa [hne] using ho
  refine length_lt_of_lt ((List.pairwise_append.1 hpairs).2.2 other hmem rule (by simp)) ?_
    (mem_matching_iff.1 hrule).2.2
  rw [← hinit] at ho
  exact (mem_matching_iff.1 ho).2.2

/-! ## Look-ups -/

theorem sorted_globalRules (m : PackageMap) : m.globalRules.Pairwise (·.1 < ·.1) := by
  rw [globalRules, List.pairwise_filterMap]
  refine m.entries.sorted.imp fun {a b} hab x hx y hy => ?_
  split at hx
  · split at hy
    · cases hx
      cases hy
      exact hab
    · cases hy
  · cases hx

theorem sorted_contextsOf (m : PackageMap) (r : String) :
    (m.contextsOf r).Pairwise (·.1 < ·.1) := by
  rw [contextsOf, List.pairwise_filterMap]
  refine m.entries.sorted.imp fun {a b} hab x hx y hy => ?_
  split at hx
  · cases hx
  · split at hx
    · split at hy
      · cases hy
      · split at hy
        · cases hx
          cases hy
          exact hab
        · cases hy
    · cases hx

theorem mem_contextsOf {r context : String} {rules : Dict String} :
    (context, rules) ∈ m.contextsOf r ↔ m.entries.get? context = some (.contextual rules) ∧
      startMatches context.toList r.toList = true := by
  rw [contextsOf, List.mem_filterMap, ← Dict.mem_entries_iff]
  constructor
  · rintro ⟨⟨key, entry⟩, he, hc⟩
    cases entry with
    | target name => cases hc
    | contextual rules' =>
      simp only at hc
      split at hc
      · rename_i hs
        cases hc
        exact ⟨he, hs⟩
      · cases hc
  · rintro ⟨he, hs⟩
    exact ⟨_, he, if_pos hs⟩

/-- The rules that apply: contextual ones of a context that the referrer is in, and global ones. -/
theorem applies_iff {rule : MapRule} : m.Applies referrer name rule ↔
    (∃ r ∈ referrer, ∃ c ∈ m.contextsOf r, rule ∈ matching (some c.1) c.2.entries name) ∨
      rule ∈ matching none m.globalRules name := by
  obtain ⟨context, start, target⟩ := rule
  simp only [mem_matching_iff, Prod.exists, mem_contextsOf]
  constructor
  · rintro ⟨⟨hmem, hcontext⟩, hstart⟩
    cases context with
    | none => exact .inr ⟨rfl, mem_globalRules.2 (mem_rules_global.1 hmem), hstart⟩
    | some c =>
      obtain ⟨rules, hrules, hr⟩ := mem_rules_contextual.1 hmem
      obtain ⟨r, hreferrer, hc⟩ := hcontext c rfl
      exact .inl ⟨r, hreferrer, c, rules, ⟨hrules, hc⟩, rfl, (Dict.mem_entries_iff _ _ _).2 hr,
        hstart⟩
  · rintro (⟨r, hreferrer, c, rules, ⟨hrules, hc⟩, rfl, hr, hstart⟩ | ⟨rfl, hr, hstart⟩)
    · refine ⟨⟨mem_rules_contextual.2 ⟨rules, hrules, (Dict.mem_entries_iff _ _ _).1 hr⟩, ?_⟩,
        hstart⟩
      rintro _ ⟨⟩
      exact ⟨r, hreferrer, hc⟩
    · exact ⟨⟨mem_rules_global.2 (mem_globalRules.1 hr), nofun⟩, hstart⟩

theorem contextualRule?_eq_none {r : String} (h : m.contextualRule? name r = none)
    {c : String × Dict String} (hc : c ∈ m.contextsOf r) :
    matching (some c.1) c.2.entries name = [] := by
  rw [contextualRule?, List.findSome?_eq_none_iff] at h
  exact List.getLast?_eq_none_iff.1 (h c (List.mem_reverse.2 hc))

/-- The contextual rule that is looked up belongs to the longest context that has one. -/
theorem contextualRule?_eq_some {r : String} {rule : MapRule}
    (h : m.contextualRule? name r = some rule) : ∃ c ∈ m.contextsOf r,
      (matching (some c.1) c.2.entries name).getLast? = some rule ∧
      ∀ c' ∈ m.contextsOf r, c' ≠ c → matching (some c'.1) c'.2.entries name ≠ [] →
        c'.1.length < c.1.length := by
  obtain ⟨longer, c, shorter, hsplit, hrule, hnone⟩ := List.findSome?_eq_some_iff.1 h
  have hc : c ∈ m.contextsOf r := by
    rw [← List.mem_reverse, hsplit]
    simp
  have hsorted := sorted_contextsOf m r
  rw [← List.pairwise_reverse, hsplit, List.pairwise_append, List.pairwise_cons] at hsorted
  refine ⟨c, hc, hrule, fun c' hc' hne hmatch => ?_⟩
  have hmem : c' ∈ shorter := by
    rw [← List.mem_reverse, hsplit, List.mem_append, List.mem_cons] at hc'
    rcases hc' with hc' | rfl | hc'
    · exact absurd (List.getLast?_eq_none_iff.1 (hnone c' hc')) hmatch
    · exact absurd rfl hne
    · exact hc'
  exact length_lt_of_lt (hsorted.2.1.1 c' hmem) (mem_contextsOf.1 hc').2 (mem_contextsOf.1 hc).2

theorem best_of_contextualRule? {r : String} {rule : MapRule}
    (h : m.contextualRule? name r = some rule) : m.Best (some r) name rule := by
  obtain ⟨c, hc, hlast, hlonger⟩ := contextualRule?_eq_some h
  have hrule : rule ∈ matching (some c.1) c.2.entries name := List.mem_of_getLast? hlast
  have hcontext := (mem_matching_iff.1 hrule).1
  refine ⟨applies_iff.2 (.inl ⟨r, rfl, c, hc, hrule⟩), fun other ho hne => ?_⟩
  unfold MapRule.Precedes MapRule.contextLength
  rcases applies_iff.1 ho with ⟨_, ⟨⟩, c', hc', hother⟩ | hother
  · rw [hcontext, (mem_matching_iff.1 hother).1]
    by_cases heq : c' = c
    · subst heq
      exact .inr ⟨rfl, length_lt_of_getLast? c'.2.sorted hlast hother hne⟩
    · exact .inl (hlonger c' hc' heq (List.ne_nil_of_mem hother))
  · rw [hcontext, (mem_matching_iff.1 hother).1]
    exact .inl (length_pos_of_startMatches (mem_contextsOf.1 hc).2)

theorem best_of_rule? {rule : MapRule} (h : m.rule? name referrer = some rule) :
    m.Best referrer name rule := by
  rw [rule?] at h
  split at h
  · rename_i rule' hcontextual
    cases h
    obtain ⟨r, rfl, hr⟩ := Option.bind_eq_some_iff.1 hcontextual
    exact best_of_contextualRule? hr
  · rename_i hcontextual
    have hrule : rule ∈ matching none m.globalRules name := List.mem_of_getLast? h
    refine ⟨applies_iff.2 (.inr hrule), fun other ho hne => ?_⟩
    rcases applies_iff.1 ho with ⟨r, rfl, c, hc, hother⟩ | hother
    · rw [contextualRule?_eq_none hcontextual hc] at hother
      cases hother
    · refine .inr ⟨?_, length_lt_of_getLast? (sorted_globalRules m) h hother hne⟩
      rw [MapRule.contextLength, MapRule.contextLength, (mem_matching_iff.1 hrule).1,
        (mem_matching_iff.1 hother).1]

/-- Where nothing is looked up no rule applies. -/
theorem not_applies_of_rule?_eq_none (h : m.rule? name referrer = none) (rule : MapRule) :
    ¬ m.Applies referrer name rule := by
  intro ha
  rw [rule?] at h
  split at h
  · cases h
  · rename_i hcontextual
    rcases applies_iff.1 ha with ⟨r, rfl, c, hc, hmem⟩ | hmem
    · rw [contextualRule?_eq_none hcontextual hc] at hmem
      cases hmem
    · rw [List.getLast?_eq_none_iff.1 h] at hmem
      cases hmem

/-- What is looked up is the best rule. -/
theorem rule?_eq_some_iff {rule : MapRule} :
    m.rule? name referrer = some rule ↔ m.Best referrer name rule := by
  refine ⟨best_of_rule?, fun h => ?_⟩
  cases hrule : m.rule? name referrer with
  | some other => rw [(best_of_rule? hrule).unique h]
  | none => exact absurd h.applies (not_applies_of_rule?_eq_none hrule rule)

end PackageMap

end ModuleLoader
