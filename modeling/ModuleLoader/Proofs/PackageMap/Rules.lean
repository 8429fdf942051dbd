import Mathlib.Data.List.TakeWhile
import ModuleLoader.PackageMap

/-! # Rules that fire

A map without contextual rules treats a name alike for every referrer. A rule that alone matches a
name fires on it; a name that no rule matches stays as it is.
-/

namespace ModuleLoader

/-! ## Separators -/

/-- Whether a text is empty or begins with a separator. -/
def Behind (sep : Char) (cs : List Char) : Prop := cs = [] ∨ ∃ rest, cs = sep :: rest

theorem behind_cons (sep : Char) (cs : List Char) : Behind sep (sep :: cs) := .inr ⟨cs, rfl⟩

/-- What is in front of the first separator is settled by the text. -/
theorem Behind.unique {sep : Char} {a b s t : List Char} (hs : Behind sep s) (ht : Behind sep t)
    (ha : sep ∉ a) (hb : sep ∉ b) (h : a ++ s = b ++ t) : a = b ∧ s = t := by
  have hfront {a s : List Char} (ha : sep ∉ a) (hs : Behind sep s) :
      (a ++ s).takeWhile (· ≠ sep) = a := by
    have hsep : s.takeWhile (· ≠ sep) = [] := by
      rcases hs with rfl | ⟨rest, rfl⟩ <;> simp
    rw [List.takeWhile_append_of_pos fun c hc => by simpa using ne_of_mem_of_not_mem hc ha, hsep,
      List.append_nil]
  have hab : a = b := by rw [← hfront ha hs, h, hfront hb ht]
  exact ⟨hab, List.append_cancel_left (hab ▸ h)⟩

namespace PackageMap

/-! ## Maps of global rules -/

/-- A map without contextual rules. -/
def Global (m : PackageMap) : Prop :=
  ∀ context rules, m.entries.get? context = some (.contextual rules) → rules.entries = []

variable {m : PackageMap}

theorem Global.contextualRule? (h : m.Global) (name referrer : String) :
    m.contextualRule? name referrer = none := by
  rw [PackageMap.contextualRule?, List.findSome?_eq_none_iff]
  intro c hc
  rw [List.mem_reverse, contextsOf, List.mem_filterMap] at hc
  obtain ⟨e, he, hc⟩ := hc
  split at hc
  · cases hc
  · rename_i rules hrules
    split at hc
    · cases hc
      have hg : m.entries.get? e.1 = some (.contextual rules) := by
        rw [← hrules]
        exact (m.entries.mem_entries_iff _ _).1 he
      simp [h e.1 rules hg, matching]
    · cases hc

theorem Global.rule?_eq (h : m.Global) (name : String) (referrer : Option String) :
    m.rule? name referrer = (matching none m.globalRules name).getLast? := by
  have hnone : referrer.bind (m.contextualRule? name) = none := by
    cases referrer with
    | none => rfl
    | some r => exact h.contextualRule? name r
  rw [PackageMap.rule?, hnone]

theorem Global.rule? (h : m.Global) (name : String) (referrer referrer' : Option String) :
    m.rule? name referrer = m.rule? name referrer' := by
  rw [h.rule?_eq, h.rule?_eq]

theorem Global.chase (h : m.Global) (referrer referrer' : Option String) (fired : List MapRule)
    (seen : List String) (current : String) (n : Nat) :
    m.chase referrer fired seen current n = m.chase referrer' fired seen current n := by
  induction n generalizing fired seen current with
  | zero => rfl
  | succ n ih =>
    rw [PackageMap.chase, PackageMap.chase, h.rule? current referrer referrer']
    split
    · rfl
    · simp only [ih]

theorem Global.apply (h : m.Global) (name : String) (referrer referrer' : Option String) :
    m.apply name referrer = m.apply name referrer' := by
  rw [PackageMap.apply, PackageMap.apply, h.chase referrer referrer']

/-! ## The only rule that matches -/

theorem startMatches_iff {start name : List Char} : startMatches start name = true ↔
    start ≠ [] ∧ ∃ rest, name = start ++ rest ∧ (Behind '/' rest ∨ start.getLast? = some '/') := by
  rw [startMatches]
  cases hd : Text.dropStart? start name with
  | none =>
    refine ⟨fun h => (Bool.false_ne_true h).elim, fun ⟨_, rest, hr, _⟩ => ?_⟩
    rw [Text.dropStart?_eq_some_iff.2 hr] at hd
    cases hd
  | some rest =>
    rw [Text.dropStart?_eq_some_iff] at hd
    subst hd
    cases rest <;> simp [Behind, or_comm]

theorem mem_globalRules {start target : String} :
    (start, target) ∈ m.globalRules ↔ m.entries.get? start = some (.target target) := by
  rw [globalRules, List.mem_filterMap, ← Dict.mem_entries_iff]
  constructor
  · rintro ⟨⟨key, entry⟩, he, hr⟩
    cases entry with
    | target name =>
      cases hr
      exact he
    | contextual rules => cases hr
  · exact fun h => ⟨_, h, rfl⟩

theorem mem_matching_iff {context : Option String} {table : List (String × String)}
    {name : String} {rule : MapRule} : rule ∈ matching context table name ↔ rule.context = context ∧
      (rule.start, rule.target) ∈ table ∧
        startMatches rule.start.toList name.toList = true := by
  rw [matching, List.mem_map]
  constructor
  · rintro ⟨r, hr, rfl⟩
    exact ⟨rfl, List.mem_filter.1 hr⟩
  · obtain ⟨context, start, target⟩ := rule
    rintro ⟨rfl, hr⟩
    exact ⟨(start, target), List.mem_filter.2 hr, rfl⟩

theorem mem_matching {name : String} {rule : MapRule} : rule ∈ matching none m.globalRules name ↔
    rule.context = none ∧ m.entries.get? rule.start = some (.target rule.target) ∧
      startMatches rule.start.toList name.toList = true := by
  rw [mem_matching_iff, mem_globalRules]

theorem Global.rule?_eq_none (h : m.Global) {name : String}
    (hn : ∀ start target, m.entries.get? start = some (.target target) →
      startMatches start.toList name.toList = false) (referrer : Option String) :
    m.rule? name referrer = none := by
  rw [h.rule?_eq, List.getLast?_eq_none_iff, List.eq_nil_iff_forall_not_mem]
  intro rule hr
  obtain ⟨-, hg, hs⟩ := mem_matching.1 hr
  rw [hn _ _ hg] at hs
  cases hs

theorem Global.rule?_eq_some (h : m.Global) {name start target : String}
    (hg : m.entries.get? start = some (.target target))
    (hs : startMatches start.toList name.toList = true)
    (hu : ∀ start' target', m.entries.get? start' = some (.target target') →
      startMatches start'.toList name.toList = true → start' = start) (referrer : Option String) :
    m.rule? name referrer = some ⟨none, start, target⟩ := by
  rw [h.rule?_eq]
  have hmem : MapRule.mk none start target ∈ matching none m.globalRules name :=
    mem_matching.2 ⟨rfl, hg, hs⟩
  obtain ⟨rule, hrule⟩ : ∃ rule, (matching none m.globalRules name).getLast? = some rule :=
    Option.isSome_iff_exists.1 (List.getLast?_isSome.2 (List.ne_nil_of_mem hmem))
  obtain ⟨context, start', target'⟩ := rule
  obtain ⟨hc, hg', hs'⟩ := mem_matching.1 (List.mem_of_getLast? hrule)
  obtain rfl : context = none := hc
  obtain rfl : start' = start := hu _ _ hg' hs'
  rw [hg] at hg'
  cases hg'
  exact hrule

/-! ## Results -/

theorem apply_of_rule?_eq_none {name : String} {referrer : Option String}
    (h : m.rule? name referrer = none) : m.apply name referrer = .ok name := by
  rw [apply, PackageMap.chase, h]

/-- A name that no rule matches is the result of the rule that led to it. -/
theorem apply_of_rule?_eq_some {name : String} {referrer : Option String} {rule : MapRule}
    (h : m.rule? name referrer = some rule) (hne : replace rule name ≠ name)
    (hnext : m.rule? (replace rule name) referrer = none) :
    m.apply name referrer = .ok (replace rule name) := by
  have hstop (fired : List MapRule) (seen : List String) (n : Nat) :
      m.chase referrer fired seen (replace rule name) n = .ok (replace rule name) := by
    cases n with
    | zero => rfl
    | succ n => rw [PackageMap.chase, hnext]
  rw [apply, PackageMap.chase, h]
  simp only [List.not_mem_nil, hne, or_self, if_false, List.mem_singleton, hstop]

end PackageMap

end ModuleLoader
