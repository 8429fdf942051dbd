import ModuleLoader.Proofs.Session.Histories

/-! # Evaluated modules

Once a module is evaluated it stays so, whatever requests run into it. Each import of its name is
answered with its namespace, and no other body of the name runs.
-/

namespace ModuleLoader

open Loader Relation

/-! ## Imports of a name -/

namespace Loader

/-- A request imports a name. If it has succeeded it has answered with the namespace of that
name. -/
def Activity.AnswersFor (r : Registry Body) (n : String) : Activity → Prop
  | .root m _ _ => m = n
  | .graph (.importModule m) _ => m = n
  | .branches m _ _ => m = n
  | .settled (.ok answer) => ∃ ns, answer = .exports ns ∧ r.known n = some ns
  | .settled (.error _) => True
  | _ => False

variable {a a' : Activity} {l l' : Loader} {n : String} {ns : Namespace}

theorem Activity.AnswersFor.mono {r r' : Registry Body} (h : a.AnswersFor r n)
    (hk : ∀ {ns}, r.known n = some ns → r'.known n = some ns) : a.AnswersFor r' n := by
  cases a with
  | settled result =>
    cases result with
    | ok answer =>
      obtain ⟨ns, hns, hr⟩ := h
      exact ⟨ns, hns, hk hr⟩
    | error e => trivial
  | graph purpose task => cases purpose <;> exact h
  | _ => exact h

/-- A module that was evaluated is registered with its namespace. -/
theorem known_of_evaluate (hr : l.registry.Resting) (h : (l.evaluate n).1 = .ok ns) :
    (l.evaluate n).2.registry.known n = some ns := by
  have he := Registry.evaluate_evaluated World.run hr l.world n
  simp only [evaluate] at h ⊢
  generalize l.registry.evaluate World.run l.world n = out at he h
  cases he with
  | ok _ _ hns =>
    cases h
    exact hns
  | _ => simp at h

theorem settleImport_answersFor (hr : l.registry.Resting) (n : String) :
    (l.settleImport n).1.AnswersFor (l.settleImport n).2.registry n := by
  obtain ⟨l', hs, hreg, -⟩ := settleImport_eq l n
  rw [hs]
  cases he : (l.evaluate n).1 with
  | error e => trivial
  | ok ns =>
    refine ⟨ns, rfl, ?_⟩
    rw [hreg]
    exact known_of_evaluate hr he

theorem start_answersFor {specifier : String} {options : RequestOptions}
    (hn : l.nameOf specifier options.referrer = .ok n) (r : Registry Body) :
    (l.start ⟨.importModule specifier, options⟩).1.AnswersFor r n := by
  unfold start startImport
  simp only [hn]
  split <;> rfl

/-- Every step of an import keeps to its name. -/
theorem Activity.AnswersFor.advance (h : a.AnswersFor l.registry n)
    (hadv : Advance (a, l) (a', l')) (hr : l.registry.Resting) : a'.AnswersFor l'.registry n := by
  have hrest (units : List LoadedUnit) : (l.commit units).registry.Resting :=
    ((commit_settling l units).registers hr).resting
  cases hadv with
  | tick | start | scriptWaits | scriptAnswered => exact h.elim
  | rootWaits | rootArrives | branches | branchesIdle => exact h
  | rootFails _ hrej | branchesFail _ hrej =>
    cases reject_settled hrej
    trivial
  | @graph purpose task task' _ _ hs =>
    cases purpose with
    | importModule m => exact h
    | _ => exact h.elim
  | @graphFails purpose task e _ _ l₁ _ he hrej =>
    have hs := rejectGraph_settled l₁ purpose e
    rw [hrej] at hs
    cases hs
    trivial
  | @graphDone purpose task g _ _ _ _ he hs =>
    cases purpose with
    | importModule m =>
      cases he with
      | complete hv =>
        cases h
        have ha := settleImport_answersFor (hrest task.graph.units) n
        change (l.commit task.graph.units).settleImport n = _ at hs
        rwa [hs] at ha
    | _ => exact h.elim
  | @branchesDone m metadata b graphs _ _ _ hv hs =>
    cases h
    rw [commitAll_eq] at hs
    have ha := settleImport_answersFor (hrest (graphs.flatMap Graph.units)) n
    rwa [hs] at ha

end Loader

namespace Session

variable {s s' : Session} {n : String} {ns : Namespace}

/-! ## Namespaces are kept -/

theorem Regular.known_next (h : s.Regular) (hn : Next s s')
    (hk : s.loader.registry.known n = some ns) : s'.loader.registry.known n = some ns := by
  cases hn with
  | @step i a a' l' ha hadv =>
    obtain ⟨m, hd, hb⟩ := h.does (List.mem_of_getElem? ha) hadv
    have hm : m.registry.known n = some ns := known_of_deeds hd hk
    have hreg : l'.registry = m.registry := by
      rcases hb with hb | ⟨u, ok, -, hb⟩ <;> exact congrArg Books.registry hb
    simpa only [hreg] using hm
  | move hm ht => exact known_of_deeds (move_deeds hm ht _ h.resting) hk

/-- The request with a number imports a name. -/
def AnswersAt (s : Session) (i : Nat) (n : String) : Prop :=
  ∃ a, s.activities[i]? = some a ∧ a.AnswersFor s.loader.registry n

theorem Regular.answersAt_next (h : s.Regular) (hn : Next s s') {i : Nat} (hi : s.AnswersAt i n) :
    s'.AnswersAt i n := by
  obtain ⟨a, ha, hans⟩ := hi
  have hmono : a.AnswersFor s'.loader.registry n := hans.mono fun hk => h.known_next hn hk
  cases hn with
  | @step j b b' l' hb hadv =>
    by_cases hij : j = i
    · subst hij
      rw [ha, Option.some.injEq] at hb
      subst hb
      exact ⟨b', List.getElem?_set_self (List.getElem?_eq_some_iff.1 ha).1,
        hans.advance hadv h.resting⟩
    · exact ⟨a, (List.getElem?_set_ne hij).trans ha, hmono⟩
  | @move budget m _ ht =>
    refine ⟨a, ?_, hmono⟩
    cases m with
    | turn i => exact absurd rfl (ht i)
    | request turns request =>
      simp only [Session.move]
      rw [List.getElem?_append_left (List.getElem?_eq_some_iff.1 ha).1, ha]
    | _ => exact ha

theorem Regular.answersAt_reaches (h : s.Regular) (hn : ReflTransGen Next s s') {i : Nat}
    (hi : s.AnswersAt i n) : s'.AnswersAt i n := by
  induction hn with
  | refl => exact hi
  | tail hs hn ih => exact (h.reaches hs).answersAt_next hn ih

/-- An import begins with the turn in which its name is found. -/
theorem Regular.answersAt_takeTurn (h : s.Regular) (budget : Nat) {i : Nat} {specifier : String}
    {options : RequestOptions}
    (ha : s.activities[i]? = some (.delayed 0 ⟨.importModule specifier, options⟩))
    (hn : s.loader.nameOf specifier options.referrer = .ok n) :
    (s.takeTurn (budget + 1) i).AnswersAt i n := by
  have hself := (List.getElem?_eq_some_iff.1 ha).1
  have hans := start_answersFor hn
  rcases hs : s.loader.start ⟨.importModule specifier, options⟩ with ⟨a', l'⟩
  rw [hs] at hans
  have hstart : Next s ⟨l', s.activities.set i a'⟩ := .step ha (.start hs)
  have hrest : ReflTransGen Next ⟨l', s.activities.set i a'⟩ (s.takeTurn (budget + 1) i) := by
    have hr := reaches_of_advances (advance_advances budget l' a')
      (List.getElem?_set_self hself)
    rw [List.set_set] at hr
    simpa only [takeTurn_eq ha, Loader.turn, hs] using hr
  exact (h.next hstart).answersAt_reaches hrest ⟨a', List.getElem?_set_self hself, hans _⟩

/-! ## Evaluated for good -/

/-- In the course of a session an import of a name is made, begins, and is answered. -/
def ImportAnswered (budget : Nat) (l : Loader) (moves : List Move) (n : String) (k : Nat)
    (answer : Answer) : Prop :=
  ∃ i j specifier options, j < k ∧ moves[j]? = some (.turn i) ∧
    (run budget l moves j).activities[i]? =
      some (.delayed 0 ⟨.importModule specifier, options⟩) ∧
    (run budget l moves j).loader.nameOf specifier options.referrer = .ok n ∧
    (run budget l moves k).activities[i]? = some (.settled (.ok answer))

section Run

variable {l : Loader} {budget : Nat} {moves : List Move}

theorem ImportAnswered.known (hl : (start l).Regular) (hm : ∀ m ∈ moves, m.Keeps) {k : Nat}
    {answer : Answer} (h : ImportAnswered budget l moves n k answer) :
    ∃ ns, answer = .exports ns ∧ (run budget l moves k).loader.registry.known n = some ns := by
  obtain ⟨i, j, specifier, options, hjk, hturn, ha, hn, hset⟩ := h
  have hreg (k : Nat) : (run budget l moves k).Regular :=
    hl.reaches (run_reaches (k := k) hm (Nat.zero_le k))
  have hbegun : (run budget l moves (j + 1)).AnswersAt i n := by
    rw [run_succ budget moves l hturn]
    exact (hreg j).answersAt_takeTurn budget ha hn
  obtain ⟨a, ha', hans⟩ := (hreg (j + 1)).answersAt_reaches (run_reaches hm hjk) hbegun
  rw [hset, Option.some.injEq] at ha'
  subst ha'
  exact hans

end Run

end Session

end ModuleLoader
