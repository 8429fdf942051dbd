import Mathlib.Data.List.Perm.Subperm
import ModuleLoader.Proofs.PackageMap.BestRules

/-! # Chains of rules

Applying a map follows the best rule from name to name until that rule has fired before or changes
nothing; a rule that leads back to an earlier name is a cycle. No rule fires twice, which bounds the
chain. Rules behind the best one are not tried at its end, so some of them may be left over.
-/

namespace ModuleLoader.PackageMap

/-- Following the best rule from a name: the rules that have fired and the earlier names, both
newest first, and the name that is reached. -/
inductive Chain (m : PackageMap) (referrer : Option String) (name : String) :
    List MapRule → List String → String → Prop where
  | start : Chain m referrer name [] [] name
  | step {fired : List MapRule} {earlier : List String} {current : String} {rule : MapRule} :
      Chain m referrer name fired earlier current → m.Best referrer current rule → rule ∉ fired →
      replace rule current ∉ current :: earlier →
      Chain m referrer name (rule :: fired) (current :: earlier) (replace rule current)

/-- The chain ends: the best rule, if there is one, has fired or changes nothing. -/
def Rests (m : PackageMap) (referrer : Option String) (fired : List MapRule) (last : String) :
    Prop :=
  ∀ rule, m.Best referrer last rule → rule ∈ fired ∨ replace rule last = last

/-- The chain leads back to another name that was met before, through a rule that has not fired. -/
def Returns (m : PackageMap) (referrer : Option String) (fired : List MapRule)
    (earlier : List String) (last back : String) : Prop :=
  ∃ rule, m.Best referrer last rule ∧ rule ∉ fired ∧ back = replace rule last ∧ back ≠ last ∧
    back ∈ earlier

section Chains

variable {m : PackageMap} {referrer : Option String} {name current back : String}
  {fired : List MapRule} {earlier : List String}

theorem Chain.nodup (h : m.Chain referrer name fired earlier current) : fired.Nodup := by
  induction h with
  | start => exact .nil
  | step _ _ hf _ ih => exact List.nodup_cons.2 ⟨hf, ih⟩

theorem Chain.subset (h : m.Chain referrer name fired earlier current) : fired ⊆ m.rules := by
  induction h with
  | start => exact List.nil_subset _
  | step _ hb _ _ ih => exact List.cons_subset.2 ⟨hb.applies.holds.mem, ih⟩

theorem Chain.length_le (h : m.Chain referrer name fired earlier current) :
    fired.length ≤ m.rules.length :=
  (h.nodup.subperm h.subset).length_le

/-- What the steps of a chain leave to be done. -/
theorem Chain.chase_eq (h : m.Chain referrer name fired earlier current) (n : ℕ) :
    m.chase referrer [] [name] name (n + fired.length) =
      m.chase referrer fired (current :: earlier) current n := by
  induction h generalizing n with
  | start => rfl
  | @step fired earlier current rule _ hb hf hnew ih =>
    have hne : replace rule current ≠ current := by
      intro he
      rw [he] at hnew
      exact hnew List.mem_cons_self
    rw [List.length_cons, Nat.add_comm fired.length, ← Nat.add_assoc, ih (n + 1), chase,
      rule?_eq_some_iff.2 hb]
    simp only [hf, hne, hnew, or_self, if_false]

/-- There is a step left for every rule that has not fired, and one more. -/
theorem Chain.apply_eq (h : m.Chain referrer name fired earlier current) :
    m.apply name referrer = match m.chase referrer fired (current :: earlier) current
        (m.rules.length - fired.length + 1) with
      | .ok result => .ok result
      | .error cause => .error (.resolution name cause) := by
  have hlen : m.ruleCount + 1 = m.rules.length - fired.length + 1 + fired.length := by
    have := h.length_le
    rw [ruleCount_eq]
    omega
  rw [← h.chase_eq, ← hlen]
  rfl

theorem Chain.apply_of_rests (h : m.Chain referrer name fired earlier current)
    (hr : m.Rests referrer fired current) : m.apply name referrer = .ok current := by
  rw [h.apply_eq, chase]
  cases hrule : m.rule? current referrer with
  | none => rfl
  | some rule =>
    simp only [if_pos (hr rule (rule?_eq_some_iff.1 hrule))]

theorem Chain.apply_of_returns (h : m.Chain referrer name fired earlier current)
    (hr : m.Returns referrer fired earlier current back) :
    m.apply name referrer = .error (.resolution name (.mapCycle back)) := by
  obtain ⟨rule, hb, hf, rfl, hne, hback⟩ := hr
  rw [h.apply_eq, chase, rule?_eq_some_iff.2 hb]
  simp only [hf, hne, or_self, if_false, if_pos (List.mem_cons_of_mem current hback)]

/-- Every chain can be followed to an end. -/
theorem Chain.exists_end (h : m.Chain referrer name fired earlier current) :
    ∃ fired earlier last, m.Chain referrer name fired earlier last ∧
      (m.Rests referrer fired last ∨ ∃ back, m.Returns referrer fired earlier last back) := by
  -- the rules that are left become fewer
  generalize hn : m.rules.length - fired.length = n
  induction n using Nat.strong_induction_on generalizing fired earlier current with
  | _ n ih =>
  by_cases hr : m.Rests referrer fired current
  · exact ⟨fired, earlier, current, h, .inl hr⟩
  · simp only [Rests, not_forall, not_or] at hr
    obtain ⟨rule, hb, hf, hne⟩ := hr
    by_cases hback : replace rule current ∈ earlier
    · exact ⟨fired, earlier, current, h, .inr ⟨_, rule, hb, hf, rfl, hne, hback⟩⟩
    · have hstep := h.step hb hf (List.not_mem_cons_of_ne_of_not_mem hne hback)
      have hlen := hstep.length_le
      rw [List.length_cons] at hlen
      exact ih _ (by rw [List.length_cons]; omega) hstep rfl

/-- The end of the chain from a name. -/
theorem exists_end (m : PackageMap) (referrer : Option String) (name : String) :
    ∃ fired earlier last, m.Chain referrer name fired earlier last ∧
      (m.Rests referrer fired last ∨ ∃ back, m.Returns referrer fired earlier last back) :=
  Chain.start.exists_end

theorem apply_eq_ok_iff {result : String} : m.apply name referrer = .ok result ↔
    ∃ fired earlier, m.Chain referrer name fired earlier result ∧
      m.Rests referrer fired result := by
  constructor
  · intro h
    obtain ⟨fired, earlier, last, hchain, hr | ⟨back, hr⟩⟩ := exists_end m referrer name
    · rw [hchain.apply_of_rests hr] at h
      cases h
      exact ⟨fired, earlier, hchain, hr⟩
    · rw [hchain.apply_of_returns hr] at h
      cases h
  · rintro ⟨fired, earlier, hchain, hr⟩
    exact hchain.apply_of_rests hr

theorem apply_eq_error_iff {e : LoadError} : m.apply name referrer = .error e ↔
    ∃ fired earlier last back, m.Chain referrer name fired earlier last ∧
      m.Returns referrer fired earlier last back ∧ e = .resolution name (.mapCycle back) := by
  constructor
  · intro h
    obtain ⟨fired, earlier, last, hchain, hr | ⟨back, hr⟩⟩ := exists_end m referrer name
    · rw [hchain.apply_of_rests hr] at h
      cases h
    · rw [hchain.apply_of_returns hr] at h
      cases h
      exact ⟨fired, earlier, last, back, hchain, hr, rfl⟩
  · rintro ⟨fired, earlier, last, back, hchain, hr, rfl⟩
    exact hchain.apply_of_returns hr

end Chains

/-- Applying a map follows the best rule at each step, with every rule at most once and so with at
most as many steps as there are rules. It fails exactly when an unused rule leads back to another
name that was met before, and gives the last name of the chain otherwise. -/
theorem apply_follows_best_rules (m : PackageMap) (name : String) (referrer : Option String) :
    (∀ fired earlier last, m.Chain referrer name fired earlier last →
      fired.Nodup ∧ fired ⊆ m.rules ∧ fired.length ≤ m.rules.length) ∧
    (∀ e, m.apply name referrer = .error e ↔ ∃ fired earlier last back,
      m.Chain referrer name fired earlier last ∧ m.Returns referrer fired earlier last back ∧
      e = .resolution name (.mapCycle back)) ∧
    ∀ result, m.apply name referrer = .ok result ↔ ∃ fired earlier,
      m.Chain referrer name fired earlier result ∧ m.Rests referrer fired result :=
  ⟨fun _ _ _ h => ⟨h.nodup, h.subset, h.length_le⟩, fun _ => apply_eq_error_iff,
    fun _ => apply_eq_ok_iff⟩

/-! ## Rules that are left over -/

/-- Whether a rule that has not fired applies to a name and would change it. -/
structure LeftOver (m : PackageMap) (referrer : Option String) (fired : List MapRule)
    (name : String) (rule : MapRule) : Prop where
  applies : m.Applies referrer name rule
  changes : replace rule name ≠ name
  unfired : rule ∉ fired

/-- Whether another rule comes before a rule, but has fired or changes nothing. -/
def Hidden (m : PackageMap) (referrer : Option String) (fired : List MapRule) (name : String)
    (rule : MapRule) : Prop :=
  ∃ best, m.Best referrer name best ∧ best.Precedes rule ∧
    (best ∈ fired ∨ replace best name = name)

/-- Whether no two rules for a referrer begin with each other, so that they never match one name. -/
def Separate (m : PackageMap) (referrer : Option String) : Prop :=
  ∀ rule other, m.Holds referrer rule → m.Holds referrer other →
    startMatches rule.start.toList other.start.toList = true → rule = other

section LeftOver

variable {m : PackageMap} {referrer : Option String} {name : String} {fired : List MapRule}
  {rule other : MapRule}

/-- At the end of a chain only rules that stand behind the best one are left over. -/
theorem Rests.hidden (h : m.Rests referrer fired name) (hl : m.LeftOver referrer fired name rule) :
    m.Hidden referrer fired name rule := by
  cases hbest : m.rule? name referrer with
  | none => exact absurd hl.applies (not_applies_of_rule?_eq_none hbest rule)
  | some best =>
    have hb := rule?_eq_some_iff.1 hbest
    refine ⟨best, hb, hb.precedes rule hl.applies ?_, h best hb⟩
    rintro rfl
    exact (h rule hb).elim hl.unfired hl.changes

theorem startMatches_of_le {start start' name : List Char} (h : startMatches start name = true)
    (h' : startMatches start' name = true) (hle : start.length ≤ start'.length) :
    startMatches start start' = true := by
  obtain ⟨more, rfl⟩ := List.prefix_of_prefix_length_le (prefix_of_startMatches h)
    (prefix_of_startMatches h') hle
  obtain ⟨hne, rest, rfl, hrest⟩ := startMatches_iff.1 h
  obtain ⟨-, rest', heq, -⟩ := startMatches_iff.1 h'
  rw [List.append_assoc, List.append_cancel_left_eq] at heq
  refine startMatches_iff.2 ⟨hne, more, rfl, hrest.imp_left fun hbehind => ?_⟩
  cases more with
  | nil => exact .inl rfl
  | cons c more =>
    rcases hbehind with rfl | ⟨rest, rfl⟩
    · cases heq
    · cases heq
      exact behind_cons _ _

theorem Separate.applies_unique (h : m.Separate referrer) (hr : m.Applies referrer name rule)
    (ho : m.Applies referrer name other) : rule = other := by
  rcases Nat.le_total rule.start.toList.length other.start.toList.length with hle | hle
  · exact h rule other hr.holds ho.holds (startMatches_of_le hr.start ho.start hle)
  · exact (h other rule ho.holds hr.holds (startMatches_of_le ho.start hr.start hle)).symm

end LeftOver

/-- When a map gives a name, every rule that applies to the name and would change it has fired,
except for those that stand behind a better rule which has fired or changes nothing. No rule is left
over exactly if there is none of these, as for maps whose rules do not begin with each other. -/
theorem all_rules_fired_iff {m : PackageMap} {name : String} {referrer : Option String}
    {result : String} (h : m.apply name referrer = .ok result) :
    ∃ fired earlier, m.Chain referrer name fired earlier result ∧
      (∀ rule, m.LeftOver referrer fired result rule → m.Hidden referrer fired result rule) ∧
      ((∀ rule, m.Applies referrer result rule → replace rule result ≠ result → rule ∈ fired) ↔
        ¬ ∃ rule, m.LeftOver referrer fired result rule ∧ m.Hidden referrer fired result rule) ∧
      (m.Separate referrer →
        ∀ rule, m.Applies referrer result rule → replace rule result ≠ result → rule ∈ fired) := by
  obtain ⟨fired, earlier, hchain, hr⟩ := apply_eq_ok_iff.1 h
  have hfired (hn : ¬ ∃ rule, m.LeftOver referrer fired result rule ∧
      m.Hidden referrer fired result rule) (rule : MapRule) (ha : m.Applies referrer result rule)
      (hc : replace rule result ≠ result) : rule ∈ fired := by
    by_contra hf
    exact hn ⟨rule, ⟨ha, hc, hf⟩, hr.hidden ⟨ha, hc, hf⟩⟩
  refine ⟨fired, earlier, hchain, fun rule hl => hr.hidden hl, ⟨?_, hfired⟩, fun hs => hfired ?_⟩
  · rintro hall ⟨rule, hl, -⟩
    exact hl.unfired (hall rule hl.applies hl.changes)
  · rintro ⟨rule, hl, best, hb, hprecedes, -⟩
    obtain rfl := hs.applies_unique hl.applies hb.applies
    exact hprecedes.asymm hprecedes

/-- A rule that leads below the name that it replaces, and one for what is above it. -/
def nestedRules : PackageMap :=
  (PackageMap.empty.insert "a/b" "a/b/x").insert "a" "z"

theorem rule?_nestedRules : nestedRules.rule? "a/b" none = some ⟨none, "a/b", "a/b/x"⟩ ∧
    nestedRules.rule? "a/b/x" none = some ⟨none, "a/b", "a/b/x"⟩ := by
  decide +kernel

/-- Only one rule fires on the way to the name below. -/
theorem Chain.fired_nestedRules {fired : List MapRule} {earlier : List String} {current : String}
    (h : nestedRules.Chain none "a/b" fired earlier current) :
    (fired = [] ∧ current = "a/b") ∨ (fired = [⟨none, "a/b", "a/b/x"⟩] ∧ current = "a/b/x") := by
  induction h with
  | start => exact .inl ⟨rfl, rfl⟩
  | step _ hb hf _ ih =>
    rcases ih with ⟨rfl, rfl⟩ | ⟨rfl, rfl⟩
    · obtain rfl := hb.unique (rule?_eq_some_iff.1 rule?_nestedRules.1)
      exact .inr ⟨rfl, by decide +kernel⟩
    · obtain rfl := hb.unique (rule?_eq_some_iff.1 rule?_nestedRules.2)
      exact absurd (List.mem_singleton_self _) hf

/-- A global rule that applies to the result is left over, as the best rule has fired before. -/
theorem shorter_rule_left_over : nestedRules.apply "a/b" none = .ok "a/b/x" ∧
    nestedRules.Applies none "a/b/x" ⟨none, "a", "z"⟩ ∧
    replace ⟨none, "a", "z"⟩ "a/b/x" = "z/b/x" ∧
    ∀ fired earlier, nestedRules.Chain none "a/b" fired earlier "a/b/x" →
      ⟨none, "a", "z"⟩ ∉ fired := by
  refine ⟨by rfl, ⟨⟨mem_rules_global.2 rfl, nofun⟩, by decide +kernel⟩,
    by decide +kernel, fun fired earlier h => ?_⟩
  rcases h.fired_nestedRules with ⟨rfl, -⟩ | ⟨rfl, -⟩
  · exact List.not_mem_nil
  · decide

/-- Rules that feed each other in a context, and one that extends names. -/
def separateRules : PackageMap :=
  ((PackageMap.empty.insertContextual "app" "a" "b").insertContextual "app" "b" "c/b").insert
    "c" "c/d"

theorem all_rules_fired_iff_separate :
    separateRules.apply "a/x" (some "app/main") = .ok "c/d/b/x" ∧ ∃ fired earlier,
      separateRules.Chain (some "app/main") "a/x" fired earlier "c/d/b/x" ∧
      ∀ rule, separateRules.Applies (some "app/main") "c/d/b/x" rule →
        replace rule "c/d/b/x" ≠ "c/d/b/x" → rule ∈ fired := by
  have happly : separateRules.apply "a/x" (some "app/main") = .ok "c/d/b/x" := by rfl
  have hseparate : separateRules.Separate (some "app/main") := by
    have hrules : ∀ rule ∈ separateRules.rules, ∀ other ∈ separateRules.rules,
        startMatches rule.start.toList other.start.toList = true → rule = other := by
      decide +kernel
    exact fun rule other hr ho => hrules rule hr.mem other ho.mem
  obtain ⟨fired, earlier, hchain, -, -, hall⟩ := all_rules_fired_iff happly
  exact ⟨happly, fired, earlier, hchain, hall hseparate⟩

end ModuleLoader.PackageMap
