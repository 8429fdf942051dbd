import ModuleLoader.Proofs.Registry.DepthFirst

/-! # Missing names

The names that are missing below a name are listed in order, each once. The list becomes empty when
all of them get records that need nothing more.
-/

namespace ModuleLoader.Registry

open Relation

variable {β : Type} {r r' : Registry β} {name : String}

/-- File records under names, one after the other. -/
def commitAll (r : Registry β) (filed : List (String × Record β)) : Registry β :=
  filed.foldl (fun r entry => r.commit entry.1 entry.2) r

/-- A record needs nothing more, since all of its dependencies are evaluated. -/
def Satisfied (r : Registry β) (record : Record β) : Prop :=
  ∀ d ∈ record.dependencies, r.IsEvaluated d.name

/-! ## Records that are added -/

section Added

/-- All records are still there. -/
def Extends (r r' : Registry β) : Prop :=
  ∀ {x record}, r.get? x = some record → r'.get? x = some record

/-- A name keeps the record that it has, and gets the first one otherwise. -/
theorem get?_commitAll (r : Registry β) (filed : List (String × Record β)) (x : String) :
    (r.commitAll filed).get? x = (r.get? x).or (filed.lookup x) := by
  induction filed generalizing r with
  | nil => exact Option.or_none.symm
  | cons entry filed ih =>
    rw [show r.commitAll (entry :: filed) = (r.commit entry.1 entry.2).commitAll filed from rfl, ih,
      get?_commit, List.lookup_cons]
    by_cases hx : x = entry.1
    · subst hx
      cases r.get? entry.1 <;> simp
    · simp [hx, beq_false_of_ne hx]

theorem extends_commitAll (r : Registry β) (filed : List (String × Record β)) :
    Extends r (r.commitAll filed) := fun hx => by rw [get?_commitAll, hx, Option.some_or]

theorem IsEvaluated.not_needs (h : r.IsEvaluated name) (y : String) : ¬r.Needs name y := by
  obtain ⟨record, ns, hg, hs⟩ := h
  rintro ⟨record', hg', hy⟩
  rw [hg, Option.some.injEq] at hg'
  simp [← hg', needs, hs] at hy

theorem Satisfied.isEvaluated {record : Record β} (h : r.Satisfied record)
    (hg : r.get? name = some record) {y : String} (hy : r.Needs name y) : r.IsEvaluated y := by
  obtain ⟨record', hg', hy⟩ := hy
  rw [hg, Option.some.injEq] at hg'
  subst hg'
  rw [needs] at hy
  split at hy
  · cases hy
  · obtain ⟨d, hd, rfl⟩ := List.mem_map.1 hy
    exact h d hd

/-- Behind the names that were missing there are only evaluated ones, if those that are filed under
them need nothing more. -/
theorem reaches_or_evaluated (he : Extends r r')
    (hfiled : ∀ y ∈ r.missing name, ∃ record, r'.get? y = some record ∧ r'.Satisfied record)
    {x : String} (h : ReflTransGen r'.Needs name x) :
    ReflTransGen r.Needs name x ∨ r'.IsEvaluated x := by
  induction h with
  | refl => exact .inl .refl
  | @tail x y _ hxy ih =>
    have hx : ReflTransGen r.Needs name x := ih.resolve_right fun h => h.not_needs y hxy
    cases hg : r.get? x with
    | none =>
      obtain ⟨record, hg', hsatisfied⟩ := hfiled x (mem_missing_iff.2 ⟨hg, hx⟩)
      exact .inr (hsatisfied.isEvaluated hg' hxy)
    | some record =>
      obtain ⟨record', hg', hy⟩ := hxy
      rw [he hg, Option.some.injEq] at hg'
      exact .inl (hx.tail ⟨record, hg, hg' ▸ hy⟩)

theorem missing_eq_nil_of_extends (he : Extends r r')
    (hfiled : ∀ y ∈ r.missing name, ∃ record, r'.get? y = some record ∧ r'.Satisfied record) :
    r'.missing name = [] := by
  rw [List.eq_nil_iff_forall_not_mem]
  intro y hy
  obtain ⟨hnone, hreach⟩ := mem_missing_iff.1 hy
  rcases reaches_or_evaluated he hfiled hreach with hreach | ⟨record, ns, hg, -⟩
  · have hold : r.get? y = none := by
      rw [Option.eq_none_iff_forall_ne_some]
      intro record hg
      rw [he hg] at hnone
      cases hnone
    obtain ⟨record, hg, -⟩ := hfiled y (mem_missing_iff.2 ⟨hold, hreach⟩)
    rw [hg] at hnone
    cases hnone
  · rw [hg] at hnone
    cases hnone

end Added

/-! ## The list -/

section Missing

theorem pairwise_keys {α : Type} (d : Dict α) : d.keys.Pairwise (· < ·) :=
  d.sorted.map _ fun _ _ h => h

theorem pairwise_missing (r : Registry β) (name : String) :
    (r.missing name).Pairwise (· < ·) := by
  rw [missing]
  split
  · exact pairwise_keys _
  · exact List.pairwise_singleton _ _

/-- What is missing below a name are the names without records that it needs, itself or through
others. They are listed in strict order, and nothing is missing any more when each of them has got a
record that needs nothing more. -/
theorem missing_lists (r : Registry β) (name : String) :
    (r.missing name).Pairwise (· < ·) ∧
    (∀ y, y ∈ r.missing name ↔ r.get? y = none ∧ ReflTransGen r.Needs name y) ∧
    (r.get? name = none → r.missing name = [name]) ∧
    (r.IsEvaluated name → r.missing name = []) ∧
    ∀ filed : List (String × Record β),
      (∀ y ∈ r.missing name, ∃ record, filed.lookup y = some record ∧
        (r.commitAll filed).Satisfied record) →
      (r.commitAll filed).missing name = [] := by
  refine ⟨pairwise_missing r name, fun y => mem_missing_iff, fun hnone => by rw [missing, hnone],
    fun ⟨record, ns, hg, hs⟩ => missing_of_evaluated hg hs, fun filed hfiled => ?_⟩
  refine missing_eq_nil_of_extends (extends_commitAll r filed) fun y hy => ?_
  obtain ⟨record, hg, hsatisfied⟩ := hfiled y hy
  exact ⟨record, by rw [get?_commitAll, (mem_missing_iff.1 hy).1, hg, Option.none_or], hsatisfied⟩

/-- Two records that need one another, and each of them a name without a record. -/
def ring : Registry String :=
  ((Registry.empty.commit "a" (.waiting none [⟨"b", "b"⟩, ⟨"y", "y"⟩] "a")).commit "b"
    (.waiting none [⟨"a", "a"⟩, ⟨"x", "x"⟩, ⟨"e", "e"⟩] "b")).commit "e" (.evaluated ⟨0, .empty⟩)

/-- What is missing in the ring, in another order. -/
def spokes : List (String × Record String) :=
  [("y", .waiting none [⟨"e", "e"⟩] "y"), ("x", .waiting none [] "x")]

theorem missing_lists_ring : TransGen ring.Needs "a" "a" ∧ ring.missing "a" = ["x", "y"] ∧
    (ring.commitAll spokes).missing "a" = [] := by
  have hmissing : ring.missing "a" = ["x", "y"] := by decide +kernel
  have hab : ring.Needs "a" "b" := ⟨_, rfl, by decide⟩
  have hba : ring.Needs "b" "a" := ⟨_, rfl, by decide⟩
  obtain ⟨-, -, -, -, hfilled⟩ := missing_lists ring "a"
  refine ⟨.tail (.single hab) hba, hmissing, hfilled spokes fun y hy => ?_⟩
  rw [hmissing] at hy
  have he : (ring.commitAll spokes).IsEvaluated "e" := ⟨_, _, rfl, rfl⟩
  rcases List.mem_pair.1 hy with rfl | rfl
  · exact ⟨_, rfl, List.forall_mem_nil _⟩
  · exact ⟨_, rfl, List.forall_mem_singleton.2 he⟩

end Missing

end ModuleLoader.Registry
