import Mathlib.Logic.Relation
import ModuleLoader.Registry.Missing

/-! # Reachability

A name needs the dependencies of its record until the record is evaluated. The search for missing
names finds exactly the names without records that can be reached in this way.
-/

namespace ModuleLoader.Registry

open Relation

variable {β : Type}

/-- A name needs another one to be evaluated before it. -/
def Needs (r : Registry β) (x y : String) : Prop :=
  ∃ record, r.get? x = some record ∧ y ∈ needs record

/-- A name needs another one, which does not belong to some that are avoided. -/
def NeedsOutside (r : Registry β) (avoided : List String) (x y : String) : Prop :=
  r.Needs x y ∧ y ∉ avoided

theorem Needs.ne_none {r : Registry β} {x y : String} (h : r.Needs x y) : r.get? x ≠ none := by
  obtain ⟨record, hr, -⟩ := h
  rw [hr]
  simp

/-- From a name without a record nothing else can be reached. -/
theorem eq_of_reaches_of_none {r : Registry β} {x y : String} (hx : r.get? x = none)
    (h : ReflTransGen r.Needs x y) : y = x := by
  rcases h.cases_head with rfl | ⟨z, hz, -⟩
  · rfl
  · exact absurd hx hz.ne_none

/-! ## The search -/

theorem mem_keys_insert {d : Dict Unit} {key other : String} :
    other ∈ (d.insert key ()).keys ↔ other = key ∨ other ∈ d.keys := by
  rw [Dict.mem_keys_iff, Dict.mem_keys_iff, Dict.get?_insert]
  by_cases h : other = key
  · simp [h]
  · simp [h]

/-- The search only finds names without records that can be reached. -/
theorem search_sound {r : Registry β} {seen todo : List String} {missing : Dict Unit}
    {y : String} (h : y ∈ (r.search seen missing todo).keys) :
    y ∈ missing.keys ∨ r.get? y = none ∧ ∃ x ∈ todo, ReflTransGen r.Needs x y := by
  fun_induction search r seen missing todo with
  | case1 seen missing => exact Or.inl h
  | case2 seen missing name rest hs ih =>
    refine (ih h).imp_right ?_
    rintro ⟨hn, x, hx, hr⟩
    exact ⟨hn, x, List.mem_cons_of_mem _ hx, hr⟩
  | case3 seen missing name rest hs record hg ih =>
    refine (ih h).imp_right ?_
    rintro ⟨hn, x, hx, hr⟩
    rcases List.mem_append.1 hx with hx | hx
    · exact ⟨hn, name, List.mem_cons_self, .head ⟨record, hg, hx⟩ hr⟩
    · exact ⟨hn, x, List.mem_cons_of_mem _ hx, hr⟩
  | case4 seen missing name rest hs hg ih =>
    rcases ih h with hm | ⟨hn, x, hx, hr⟩
    · rcases mem_keys_insert.1 hm with rfl | hm
      · exact Or.inr ⟨hg, y, List.mem_cons_self, .refl⟩
      · exact Or.inl hm
    · exact Or.inr ⟨hn, x, List.mem_cons_of_mem _ hx, hr⟩

theorem search_mono {r : Registry β} {seen todo : List String} {missing : Dict Unit}
    {y : String} (h : y ∈ missing.keys) : y ∈ (r.search seen missing todo).keys := by
  fun_induction search r seen missing todo with
  | case1 seen missing => exact h
  | case2 seen missing name rest hs ih => exact ih h
  | case3 seen missing name rest hs record hg ih => exact ih h
  | case4 seen missing name rest hs hg ih => exact ih (mem_keys_insert.2 (Or.inr h))

/-- A way outside of some names either stays outside of one more, or can be cut behind its last
visit of that name. -/
theorem reaches_outside_cons {r : Registry β} {avoided : List String} {name x y : String}
    (hy : y ≠ name) (h : ReflTransGen (r.NeedsOutside avoided) x y) :
    (x ≠ name ∧ ReflTransGen (r.NeedsOutside (name :: avoided)) x y) ∨
      ∃ z, r.Needs name z ∧ z ∉ name :: avoided ∧
        ReflTransGen (r.NeedsOutside (name :: avoided)) z y := by
  induction h using ReflTransGen.head_induction_on with
  | refl => exact Or.inl ⟨hy, .refl⟩
  | @head x z hxz _ ih =>
    rcases ih with ⟨hz, hr⟩ | hcut
    · have hz' : z ∉ name :: avoided := by simp [hz, hxz.2]
      by_cases hx : x = name
      · exact Or.inr ⟨z, hx ▸ hxz.1, hz', hr⟩
      · exact Or.inl ⟨hx, .head ⟨hxz.1, hz'⟩ hr⟩
    · exact Or.inr hcut

/-- The search finds every name without a record that can be reached outside of the seen names. -/
theorem search_complete {r : Registry β} {seen todo : List String} {missing : Dict Unit}
    {x y : String} (hy : r.get? y = none) (hx : x ∈ todo) (hxs : x ∉ seen)
    (h : ReflTransGen (r.NeedsOutside seen) x y) : y ∈ (r.search seen missing todo).keys := by
  fun_induction search r seen missing todo generalizing x with
  | case1 => simp at hx
  | case2 seen missing name rest hs ih =>
    rcases List.mem_cons.1 hx with rfl | hx
    · exact absurd hs hxs
    · exact ih hx hxs h
  | case3 seen missing name rest hs record hg ih =>
    have hne : y ≠ name := by
      rintro rfl
      simp [hy] at hg
    rcases reaches_outside_cons hne h with ⟨hxn, hr⟩ | ⟨z, ⟨record', hg', hz⟩, hzs, hr⟩
    · have hm := (List.mem_cons.1 hx).resolve_left hxn
      exact ih (List.mem_append_right _ hm) (by simp [hxn, hxs]) hr
    · rw [hg, Option.some.injEq] at hg'
      subst hg'
      exact ih (List.mem_append_left _ hz) hzs hr
  | case4 seen missing name rest hs hg ih =>
    by_cases hne : y = name
    · subst hne
      exact search_mono (mem_keys_insert.2 (Or.inl rfl))
    · rcases reaches_outside_cons hne h with ⟨hxn, hr⟩ | ⟨z, hz, -⟩
      · exact ih ((List.mem_cons.1 hx).resolve_left hxn) (by simp [hxn, hxs]) hr
      · exact absurd hg hz.ne_none

theorem reaches_outside_nil {r : Registry β} {x y : String} :
    ReflTransGen (r.NeedsOutside []) x y ↔ ReflTransGen r.Needs x y := by
  have he : r.NeedsOutside [] = r.Needs := by
    funext a b
    simp [NeedsOutside]
  rw [he]

/-- What is missing below a record: the names without records that can be reached. -/
theorem mem_missingFor_iff {r : Registry β} {name y : String} {record : Record β}
    (hg : r.get? name = some record) :
    y ∈ r.missingFor name record ↔ r.get? y = none ∧ ReflTransGen r.Needs name y := by
  constructor
  · intro h
    rcases search_sound h with h | ⟨hy, x, hx, hr⟩
    · simp [Dict.mem_keys_iff] at h
    · exact ⟨hy, .head ⟨record, hg, hx⟩ hr⟩
  · rintro ⟨hy, hr⟩
    have hne : y ≠ name := by
      rintro rfl
      simp [hy] at hg
    rcases reaches_outside_cons hne (reaches_outside_nil.2 hr) with
      ⟨hn, -⟩ | ⟨z, ⟨record', hg', hz⟩, hzn, hr⟩
    · exact absurd rfl hn
    · rw [hg, Option.some.injEq] at hg'
      subst hg'
      exact search_complete hy hz hzn hr

/-- What a name still needs: the names without records that can be reached from it. -/
theorem mem_missing_iff {r : Registry β} {name y : String} :
    y ∈ r.missing name ↔ r.get? y = none ∧ ReflTransGen r.Needs name y := by
  rw [missing]
  split
  · rename_i record hg
    exact mem_missingFor_iff hg
  · rename_i hg
    rw [List.mem_singleton]
    constructor
    · rintro rfl
      exact ⟨hg, .refl⟩
    · rintro ⟨-, hr⟩
      exact eq_of_reaches_of_none hg hr

end ModuleLoader.Registry
