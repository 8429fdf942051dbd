import ModuleLoader.Proofs.Loader.Origins
import ModuleLoader.Proofs.Loader.Runs
import ModuleLoader.Proofs.Session.LeftBehind
import ModuleLoader.Proofs.Session.Reimport

/-! # Histories

A session whose records are neither set nor removed by hand goes on by steps of its requests. Its
journal then tells the truth about the runs of bodies, and a load that no request holds any more
stays out of reach.
-/

namespace ModuleLoader

open Loader Relation

/-- A move that neither sets nor removes a record. -/
def Move.Keeps : Move → Prop
  | .set _ _ => False
  | .delete _ => False
  | _ => True

namespace Loader

/-- The unit that a load has come to has a name. -/
def Named (l : Loader) (id : Nat) (n : String) : Prop :=
  ∃ u, l.loads[id]? = some (.finished (.ok u)) ∧ u.name = n

variable {l l' : Loader} {id : Nat} {n n' : String}

theorem Named.unique (h : l.Named id n) (h' : l.Named id n') : n = n' := by
  obtain ⟨u, hu, rfl⟩ := h
  obtain ⟨v, hv, rfl⟩ := h'
  rw [hu] at hv
  cases hv
  rfl

theorem Named.mono (h : l.Named id n) (he : Evolves l l') : l'.Named id n := by
  obtain ⟨u, hu, hn⟩ := h
  exact ⟨u, he.finished hu, hn⟩

theorem Named.lt (h : l.Named id n) : id < l.loads.length := by
  obtain ⟨u, hu, -⟩ := h
  exact (List.getElem?_eq_some_iff.1 hu).1

theorem Arrived.named {u : LoadedUnit} (h : l.Arrived u) : l.Named u.body.load u.name := ⟨u, h, rfl⟩

end Loader

namespace Session

/-- A session goes on: a request takes a step, or another move is made. -/
inductive Next : Session → Session → Prop where
  | step {s : Session} {i : Nat} {a a' : Activity} {l' : Loader} :
      s.activities[i]? = some a → Advance (a, s.loader) (a', l') →
      Next s ⟨l', s.activities.set i a'⟩
  | move {s : Session} {budget : Nat} {m : Move} :
      m.Keeps → (∀ i, m ≠ .turn i) → Next s (s.move (budget + 1) m)

theorem reaches_of_advances {i : Nat} {a : Activity} {l : Loader} {c : Activity × Loader}
    (h : ReflTransGen Advance (a, l) c) {activities : List Activity}
    (ha : activities[i]? = some a) :
    ReflTransGen Next ⟨l, activities⟩ ⟨c.2, activities.set i c.1⟩ := by
  obtain ⟨hi, rfl⟩ := List.getElem?_eq_some_iff.1 ha
  induction h with
  | refl => rw [List.set_getElem_self]
  | @tail c d _ hs ih =>
    have hc : (activities.set i c.1)[i]? = some c.1 := List.getElem?_set_self hi
    have hn : Next ⟨c.2, activities.set i c.1⟩ ⟨d.2, (activities.set i c.1).set i d.1⟩ :=
      .step hc hs
    rw [List.set_set] at hn
    exact ih.tail hn

/-- A move is a row of steps. -/
theorem move_reaches {m : Move} (hm : m.Keeps) (budget : Nat) (s : Session) :
    ReflTransGen Next s (s.move (budget + 1) m) := by
  by_cases ht : ∃ i, m = .turn i
  · obtain ⟨i, rfl⟩ := ht
    change ReflTransGen Next s (s.takeTurn (budget + 1) i)
    cases ha : s.activities[i]? with
    | none => rw [takeTurn_none ha]
    | some a =>
      rw [takeTurn_eq ha]
      exact reaches_of_advances (turn_steps budget _ a) ha
  · exact .single (.move hm fun i hi => ht ⟨i, hi⟩)

section Run

variable {l : Loader} {budget : Nat} {moves : List Move}

theorem run_reaches_succ (hm : ∀ m ∈ moves, m.Keeps) (k : Nat) :
    ReflTransGen Next (run budget l moves k) (run budget l moves (k + 1)) := by
  cases h : moves[k]? with
  | none => rw [run_stays budget moves l h]
  | some m =>
    rw [run_succ budget moves l h]
    exact move_reaches (hm m (List.mem_of_getElem? h)) budget _

theorem run_reaches (hm : ∀ m ∈ moves, m.Keeps) {j k : Nat} (h : j ≤ k) :
    ReflTransGen Next (run budget l moves j) (run budget l moves k) := by
  induction k, h using Nat.le_induction with
  | base => exact .refl
  | succ k _ ih => exact ih.trans (run_reaches_succ hm k)

end Run

/-! ## Loads out of reach -/

/-- No request holds a load, and none can join it. -/
structure Loose (s : Session) (id : Nat) : Prop where
  lt : id < s.loader.loads.length
  pending : ∀ n, s.loader.pending.get? n ≠ some id
  held : ¬ s.Holds id

/-- Nor has any request made it for a source of its own. -/
def Spent (s : Session) (id : Nat) : Prop := s.Loose id ∧ ∀ a ∈ s.activities, a.own? ≠ some id

variable {s s' : Session} {id : Nat}

theorem Sound.next (hs : s.Sound) (h : Next s s') : s'.Sound := by
  cases h with
  | @step i a a' l' ha hadv =>
    have ht := advance_steps hadv hs.loader (hs.activities a (List.mem_of_getElem? ha))
    constructor
    · exact ht.sound
    · intro b hb
      rcases List.mem_or_eq_of_mem_set hb with hb | rfl
      · exact (hs.activities b hb).mono ht.evolves
      · exact ht.activity
  | @move budget m _ hm =>
    have hr := move_releases (budget + 1) s hm
    constructor
    · exact hr.sound hs.loader
    · intro a ha
      rcases mem_activities_move hm ha with ha | ha
      · exact (hs.activities a ha).mono hr.evolves
      · cases a with
        | delayed => trivial
        | _ => exact ha.elim

theorem Next.evolves (h : Next s s') (hs : s.Sound) : Evolves s.loader s'.loader := by
  cases h with
  | step ha hadv =>
    exact (advance_steps hadv hs.loader (hs.activities _ (List.mem_of_getElem? ha))).evolves
  | @move budget m _ hm => exact (move_releases (budget + 1) s hm).evolves

/-- What is pending was pending before, or is new. -/
theorem Next.pending (hn : Next s s') (hs : s.Sound) {n : String}
    (hp : s'.loader.pending.get? n = some id) :
    s.loader.pending.get? n = some id ∨ s.loader.loads.length ≤ id := by
  cases hn with
  | step ha hadv =>
    exact (advance_draws hadv hs.loader (hs.activities _ (List.mem_of_getElem? ha))).pending hp
  | @move budget m _ hm => exact Or.inl ((move_releases (budget + 1) s hm).pending hp)

theorem Loose.next (h : s.Loose id) (hs : s.Sound) (hn : Next s s') : s'.Loose id := by
  constructor
  · exact Nat.lt_of_lt_of_le h.lt (hn.evolves hs).length_le
  · intro n hp
    rcases hn.pending hs hp with hp | hge
    · exact h.pending n hp
    · exact Nat.not_le_of_lt h.lt hge
  · rintro ⟨b, hb, hid⟩
    cases hn with
    | @step i a a' l' ha hadv =>
      have hmem := List.mem_of_getElem? ha
      rcases List.mem_or_eq_of_mem_set hb with hb | rfl
      · exact h.held ⟨b, hb, hid⟩
      · rcases (advance_draws hadv hs.loader (hs.activities a hmem)).held hid with
          hid | ⟨n, hp⟩ | hge
        · exact h.held ⟨a, hmem, hid⟩
        · exact h.pending n hp
        · exact Nat.not_le_of_lt h.lt hge
    | @move budget m _ hm =>
      rcases mem_activities_move hm hb with hb | hb
      · exact h.held ⟨b, hb, hid⟩
      · cases b with
        | delayed => exact absurd hid List.not_mem_nil
        | _ => exact hb.elim

theorem Spent.next (h : s.Spent id) (hs : s.Sound) (hn : Next s s') : s'.Spent id := by
  constructor
  · exact h.1.next hs hn
  · intro b hb ho
    cases hn with
    | @step i a a' l' ha hadv =>
      have hmem := List.mem_of_getElem? ha
      rcases List.mem_or_eq_of_mem_set hb with hb | rfl
      · exact h.2 b hb ho
      · rcases (advance_draws hadv hs.loader (hs.activities a hmem)).own ho with ho | ⟨hge, -⟩
        · exact h.2 a hmem ho
        · exact Nat.not_le_of_lt h.1.lt hge
    | @move budget m _ hm =>
      rcases mem_activities_move hm hb with hb | hb
      · exact h.2 b hb ho
      · cases b with
        | delayed => simp [Activity.own?] at ho
        | _ => exact hb.elim

/-! ## Regular sessions -/

/-- A session whose journal tells the truth, and in which the load of a source that came with a
request is out of reach of all others. -/
structure Regular (s : Session) : Prop where
  sound : s.Sound
  resting : s.Resting
  faithful : s.loader.books.Faithful s.loader.Named s.Spent
  own : ∀ {i : Nat} {a : Activity} {id : Nat}, s.activities[i]? = some a → a.own? = some id →
    s.Loose id ∧ Untouched s.loader.world.journal id ∧
      ∀ {j : Nat} {b : Activity}, s.activities[j]? = some b → b.own? = some id → j = i

/-- A load that does not exist yet has left no trace. -/
theorem Regular.untouched (h : s.Regular) (hid : s.loader.loads.length ≤ id) :
    Untouched s.loader.world.journal id := by
  constructor
  · intro n hf
    exact Nat.not_le_of_lt (h.faithful.filed hf).lt hid
  · intro ok hr
    rcases h.faithful.origin hr with ⟨n, hf⟩ | hs
    · exact Nat.not_le_of_lt (h.faithful.filed hf).lt hid
    · exact Nat.not_le_of_lt hs.1.lt hid

section Step

variable {i : Nat} {a a' : Activity} {l' : Loader}

/-- The units of a request are named, and not spent. -/
theorem Regular.units (h : s.Regular) (ha : a ∈ s.activities) :
    ∀ u ∈ a.units, s.loader.Named u.body.load u.name ∧ ¬ s.Spent u.body.load := by
  intro u hu
  constructor
  · exact ((h.sound.activities a ha).units u hu).named
  · intro hs
    rcases Activity.mem_loads_of_unit hu with hid | ho
    · exact hs.1.held ⟨a, ha, hid⟩
    · exact hs.2 a ha ho

/-- The deeds of a step of a request. -/
theorem Regular.does (h : s.Regular) (ha : a ∈ s.activities)
    (hadv : Advance (a, s.loader) (a', l')) :
    Does a.units (fun u => a.Detaches u ∧ a'.isSettled = true) s.loader.books l'.books :=
  (advance_effect hadv h.sound.loader (h.sound.activities a ha)).does h.resting

/-- No step of a request touches the own load of another one. -/
theorem Regular.untouched_of_ne (h : s.Regular) (ha : s.activities[i]? = some a)
    (hadv : Advance (a, s.loader) (a', l')) {j : Nat} {b : Activity}
    (hb : s.activities[j]? = some b) (hij : i ≠ j) (ho : b.own? = some id) :
    Untouched l'.world.journal id := by
  obtain ⟨hloose, hun, huniq⟩ := h.own hb ho
  have hmem := List.mem_of_getElem? ha
  have hne : ∀ u ∈ a.units, u.body.load ≠ id := by
    rintro u hu rfl
    rcases Activity.mem_loads_of_unit hu with hid | ho'
    · exact hloose.held ⟨a, hmem, hid⟩
    · exact hij (huniq ha ho')
  obtain ⟨m, hd, hb'⟩ := h.does hmem hadv
  have hm := (h.faithful.deeds Named.unique (h.units hmem) hd).2 hne hun
  rcases hb' with hb' | ⟨u, ok, ⟨hu, -⟩, hb'⟩
  · have hj : l'.world.journal = m.journal := congrArg Books.journal hb'
    rwa [hj]
  · have hj : l'.world.journal = .ran u.body.load ok :: m.journal := congrArg Books.journal hb'
    rw [hj]
    apply hm.cons (by simp)
    rintro ok' ⟨⟩
    exact hij (huniq ha hu.own)

/-- The body of a source at hand runs for the first time. -/
theorem Regular.untouched_of_detaches (h : s.Regular) (ha : s.activities[i]? = some a)
    {u : LoadedUnit} (hu : a.Detaches u) {m : Books}
    (hd : ReflTransGen (Deed a.units) s.loader.books m) : Untouched m.journal u.body.load := by
  obtain ⟨hloose, hun, -⟩ := h.own ha hu.own
  have hmem := List.mem_of_getElem? ha
  refine (h.faithful.deeds Named.unique (h.units hmem) hd).2 (fun v hv he => ?_) hun
  exact hloose.held ⟨a, hmem, he ▸ hu.mem_loads hv⟩

/-- A step leaves the journal faithful. -/
theorem Regular.step_faithful (h : s.Regular) (ha : s.activities[i]? = some a)
    (hadv : Advance (a, s.loader) (a', l')) :
    l'.books.Faithful l'.Named (Session.Spent ⟨l', s.activities.set i a'⟩) := by
  have hmem := List.mem_of_getElem? ha
  have hnext : Next s ⟨l', s.activities.set i a'⟩ := .step ha hadv
  obtain ⟨m, hd, hb⟩ := h.does hmem hadv
  have hm := (h.faithful.deeds Named.unique (h.units hmem) hd).1
  have hm' : m.Faithful l'.Named (Session.Spent ⟨l', s.activities.set i a'⟩) :=
    hm.mono (fun hn => hn.mono (hnext.evolves h.sound)) fun hs => hs.next h.sound hnext
  rcases hb with hb | ⟨u, ok, ⟨hu, hset⟩, hb⟩
  · rw [hb]
    exact hm'
  · rw [hb]
    obtain ⟨hloose, -, huniq⟩ := h.own ha hu.own
    refine hm'.detached (h.untouched_of_detaches ha hu hd) ⟨hloose.next h.sound hnext, ?_⟩ ok
    intro b hb ho
    rcases List.mem_iff_getElem?.1 hb with ⟨j, hj⟩
    by_cases hij : i = j
    · subst hij
      rw [List.getElem?_set_self (List.getElem?_eq_some_iff.1 ha).1, Option.some.injEq] at hj
      subst hj
      cases a' <;> simp [Activity.isSettled, Activity.own?] at hset ho
    · rw [List.getElem?_set_ne hij] at hj
      exact hij (huniq hj ho).symm

/-- A request that has a load of its own had it before, or has just made it. -/
theorem Regular.step_own (h : s.Regular) (ha : s.activities[i]? = some a)
    (hadv : Advance (a, s.loader) (a', l')) (ho : a'.own? = some id) :
    Session.Loose ⟨l', s.activities.set i a'⟩ id ∧ Untouched l'.world.journal id ∧
      ∀ {j : Nat} {b : Activity}, s.activities[j]? = some b → i ≠ j → b.own? ≠ some id := by
  have hmem := List.mem_of_getElem? ha
  have hsound := h.sound.activities a hmem
  have hnext : Next s ⟨l', s.activities.set i a'⟩ := .step ha hadv
  have hcalm : Calm s.loader l' := by
    have he := advance_effect hadv h.sound.loader hsound
    cases he with
    | calm hc => exact hc
    | _ => simp [Activity.own?] at ho
  have hun (h : Untouched s.loader.world.journal id) : Untouched l'.world.journal id := by
    obtain ⟨events, hj, he⟩ := hcalm.journal
    rw [hj]
    exact h.append he
  rcases (advance_draws hadv h.sound.loader hsound).own ho with ho | ⟨hge, hnot, hpend⟩
  · obtain ⟨hloose, huntouched, huniq⟩ := h.own ha ho
    exact ⟨hloose.next h.sound hnext, hun huntouched, fun hb hij ho' => hij (huniq hb ho').symm⟩
  · refine ⟨⟨?_, hpend, ?_⟩, hun (h.untouched hge), ?_⟩
    · exact (advance_steps hadv h.sound.loader hsound).activity.own_lt ho
    · rintro ⟨b, hb, hid⟩
      rcases List.mem_or_eq_of_mem_set hb with hb | rfl
      · exact Nat.not_le_of_lt ((h.sound.activities b hb).lt hid) hge
      · exact hnot hid
    · intro j b hb _ ho'
      exact Nat.not_le_of_lt ((h.sound.activities b (List.mem_of_getElem? hb)).own_lt ho') hge

theorem Regular.step (h : s.Regular) (ha : s.activities[i]? = some a)
    (hadv : Advance (a, s.loader) (a', l')) : Regular ⟨l', s.activities.set i a'⟩ := by
  have hmem := List.mem_of_getElem? ha
  have hself : (s.activities.set i a')[i]? = some a' :=
    List.getElem?_set_self (List.getElem?_eq_some_iff.1 ha).1
  have hnext : Next s ⟨l', s.activities.set i a'⟩ := .step ha hadv
  refine ⟨h.sound.next hnext, ?_, h.step_faithful ha hadv, ?_⟩
  · exact advance_resting hadv h.sound.loader (h.sound.activities a hmem) h.resting
  intro j b id hb ho
  by_cases hij : i = j
  · subst hij
    simp only [hself, Option.some.injEq] at hb
    subst hb
    obtain ⟨hloose, hun, huniq⟩ := h.step_own ha hadv ho
    refine ⟨hloose, hun, fun {k c} hc ho' => ?_⟩
    by_cases hik : i = k
    · exact hik.symm
    · simp only [List.getElem?_set_ne hik] at hc
      exact absurd ho' (huniq hc hik)
  · simp only [List.getElem?_set_ne hij] at hb
    obtain ⟨hloose, -, huniq⟩ := h.own hb ho
    refine ⟨hloose.next h.sound hnext, h.untouched_of_ne ha hadv hb hij ho, fun {k c} hc ho' => ?_⟩
    by_cases hik : i = k
    · subst hik
      simp only [hself, Option.some.injEq] at hc
      subst hc
      exact absurd ho ((h.step_own ha hadv ho').2.2 hb hij)
    · simp only [List.getElem?_set_ne hik] at hc
      exact huniq hc ho'

end Step

/-- The deeds of other moves: a registered module may be evaluated. -/
theorem move_deeds {m : Move} (hm : m.Keeps) (ht : ∀ i, m ≠ .turn i) (budget : Nat)
    (hr : s.Resting) :
    ReflTransGen (Deed []) s.loader.books (s.move budget m).loader.books := by
  cases m with
  | turn i => exact absurd rfl (ht i)
  | set | delete => exact hm.elim
  | get name =>
    simp only [move, Loader.get]
    split
    · have hs := reported_same (s.loader.evaluate name).2 ((s.loader.evaluate name).1.map some)
      rw [hs.books]
      exact evaluate_deeds hr name
    · exact .refl
  | _ => exact .refl

theorem Regular.move (h : s.Regular) {m : Move} (hm : m.Keeps) (ht : ∀ i, m ≠ .turn i)
    (budget : Nat) : (s.move (budget + 1) m).Regular := by
  have hnext : Next s (s.move (budget + 1) m) := .move hm ht
  obtain ⟨hf, hun⟩ :=
    h.faithful.deeds Named.unique (by simp) (move_deeds hm ht (budget + 1) h.resting)
  have hact {i : Nat} {a : Activity} {id : Nat}
      (ha : (s.move (budget + 1) m).activities[i]? = some a) (ho : a.own? = some id) :
      s.activities[i]? = some a := by
    cases m with
    | turn i => exact absurd rfl (ht i)
    | request turns request =>
      simp only [Session.move, List.getElem?_append] at ha
      split at ha
      · exact ha
      · rw [List.getElem?_singleton] at ha
        split at ha
        · cases ha
          simp [Activity.own?] at ho
        · simp at ha
    | _ => exact ha
  refine ⟨h.sound.next hnext, ?_, ?_, ?_⟩
  · exact h.resting.move h.sound budget m
  · exact hf.mono (fun hn => hn.mono (hnext.evolves h.sound)) fun hs => hs.next h.sound hnext
  · intro i a id ha ho
    obtain ⟨hloose, huntouched, huniq⟩ := h.own (hact ha ho) ho
    exact ⟨hloose.next h.sound hnext, hun (by simp) huntouched,
      fun hb ho' => huniq (hact hb ho') ho'⟩

theorem Regular.next (h : s.Regular) (hn : Next s s') : s'.Regular := by
  cases hn with
  | step ha hadv => exact h.step ha hadv
  | move hm ht => exact h.move hm ht _

theorem Regular.reaches (h : s.Regular) (hn : ReflTransGen Next s s') : s'.Regular := by
  induction hn with
  | refl => exact h
  | tail _ hn ih => exact ih.next hn

/-- A new session is regular. -/
theorem regular_start {options : Options} {stages : Stages} {files : Files} {reporter : Reporter}
    {realm : Realm} {l : Loader}
    (h : Loader.build options stages files reporter realm = .ok l) : (start l).Regular := by
  have hr : (start l).Reached 0 := ⟨_, _, _, _, _, _, [], h, rfl⟩
  refine ⟨hr.sound, hr.resting, ?_, by simp [start]⟩
  simp only [build, bind_eq_ok_iff, pure, Except.pure, Except.ok.injEq] at h
  obtain ⟨options', -, rfl⟩ := h
  refine ⟨by simp [books, start], ?_, by simp [books, start], by simp [books, start], trivial⟩
  intro n body hb
  simp only [start, books, Registry.body?, Registry.get?_setEvaluated, Registry.get?_empty] at hb
  split at hb
  · simp [Record.evaluated, Record.body?] at hb
  · simp at hb

end Session

end ModuleLoader
