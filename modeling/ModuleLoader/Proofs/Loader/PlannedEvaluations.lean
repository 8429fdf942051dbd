import ModuleLoader.Proofs.Loader.PlannedRequests

/-! # Imports that have followed a plan

When an import has all units that it needs, it registers them. What its module needs then is what
can be reached by the plan.
-/

namespace ModuleLoader

open Relation

namespace Loader

variable {l : Loader} {n : String} {units : List LoadedUnit}

theorem commit_get?_of_some {record : Record Body} (h : l.registry.get? n = some record) :
    (l.commit units).registry.get? n = some record := by
  induction units generalizing l with
  | nil => exact h
  | cons u rest ih =>
    apply ih
    change (l.file u).registry.get? n = some record
    cases hu : l.registry.has u.name with
    | true => rw [file_of_has hu, h]
    | false =>
      rw [file_of_not_has hu, Registry.get?_commit, h]
      split
      · rename_i hc
        rw [← hc.1, h] at hc
        simp at hc
      · rfl

/-- A name without a record gets one if there is a unit for it. -/
theorem commit_get?_of_none (units : List LoadedUnit) (h : l.registry.get? n = none) :
    ((l.commit units).registry.get? n = none ∧ n ∉ units.map (·.name)) ∨
      ∃ u ∈ units, u.name = n ∧ (l.commit units).registry.get? n = some u.record := by
  induction units generalizing l with
  | nil => exact Or.inl ⟨h, List.not_mem_nil⟩
  | cons u rest ih =>
    have hone : (l.commitOne u).registry.get? n = if n = u.name then some u.record else none := by
      change (l.file u).registry.get? n = _
      cases hu : l.registry.has u.name with
      | true =>
        rw [file_of_has hu, h, if_neg]
        rintro rfl
        simp [Registry.has_eq_isSome, h] at hu
      | false =>
        rw [Registry.has_eq_isSome, Option.isSome_eq_false_iff, Option.isNone_iff_eq_none] at hu
        rw [file, Registry.has_eq_isSome, hu]
        simp only [Option.isSome_none, Bool.false_eq_true, if_false, Registry.get?_commit, hu,
          and_true, h]
    by_cases hn : n = u.name
    · rw [if_pos hn] at hone
      have hs : ((l.commitOne u).commit rest).registry.get? n = some u.record :=
        commit_get?_of_some hone
      exact Or.inr ⟨u, List.mem_cons_self, hn.symm, hs⟩
    · rw [if_neg hn] at hone
      rcases ih hone with ⟨hnone, hm⟩ | ⟨v, hv, hvn, hg⟩
      · exact Or.inl ⟨hnone, by simpa [hn] using hm⟩
      · exact Or.inr ⟨v, List.mem_cons_of_mem _ hv, hvn, hg⟩

end Loader

namespace Plan

open Loader

variable {p : Plan} {l : Loader} {roots : List String} {units : List LoadedUnit} {x y : String}

/-- Names without a record still have none once the units are registered, unless these have them. -/
theorem commit_get?_eq_none_iff :
    (l.commit units).registry.get? x = none ↔
      l.registry.get? x = none ∧ x ∉ units.map (·.name) := by
  cases hg : l.registry.get? x with
  | some record => simp [commit_get?_of_some hg]
  | none =>
    rcases commit_get?_of_none units hg with ⟨hn, hm⟩ | ⟨u, hu, rfl, hs⟩
    · simp [hn, hm]
    · simp only [hs, reduceCtorEq, true_and, false_iff, not_not]
      exact List.mem_map_of_mem hu

/-- Registered units need what the plan says. -/
theorem Whole.needs_iff (h : p.Whole l roots units) :
    (l.commit units).registry.Needs x y ↔ l.registry.Needs x y ∨ l.registry.get? x = none ∧
      x ∈ units.map (·.name) ∧ y ∈ (p.unit x).dependencies.map (·.name) := by
  cases hg : l.registry.get? x with
  | some record =>
    simp only [Registry.Needs, commit_get?_of_some hg, hg, Option.some.injEq, reduceCtorEq,
      false_and, or_false]
  | none =>
    have hno : ¬ l.registry.Needs x y := fun hn => hn.ne_none hg
    rcases commit_get?_of_none units hg with ⟨hn, hm⟩ | ⟨u, hu, rfl, hs⟩
    · simp [Registry.Needs, hn, hg, hm]
    · have hd : u.dependencies = (p.unit u.name).dependencies := by
        conv_lhs => rw [(h.planned u hu).2]
        rfl
      have hneeds : Registry.needs u.record = (p.unit u.name).dependencies.map (·.name) := by
        rw [← hd]
        rfl
      simp only [Registry.Needs, hs, hg, Option.some.injEq, exists_eq_left', hneeds, reduceCtorEq,
        false_and, exists_false, false_or, true_and]
      exact (and_iff_right (List.mem_map_of_mem hu)).symm

/-- Every name that the plan leads to from the roots, without passing what is registered, has a
unit. -/
theorem Whole.mem_of_reaches (h : p.Whole l roots units) {k : String} (hk : k ∈ roots)
    (hr : ReflTransGen (fun x y => p.Dep x y ∧ l.registry.get? y = none) k y) :
    y ∈ units.map (·.name) := by
  induction hr with
  | refl => exact h.covers k hk
  | @tail x y _ hxy ih =>
    obtain ⟨⟨-, -, hd⟩, hnone⟩ := hxy
    obtain ⟨u, hu, rfl⟩ := List.mem_map.1 ih
    rw [← LoadedUnit.withLoad_dependencies _ u.body.load, ← (h.planned u hu).2] at hd
    obtain ⟨d, hdm, rfl⟩ := List.mem_map.1 hd
    refine (h.closed u hu d hdm).resolve_left fun hr => ?_
    simp [Registry.has_eq_isSome, hnone] at hr

end Plan

end ModuleLoader
