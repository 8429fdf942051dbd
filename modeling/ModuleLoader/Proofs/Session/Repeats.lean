import ModuleLoader.Proofs.Session.Histories

/-! # Repeated runs

A body runs a second time only if it failed and another request, which had the same unit, registered
it again. Without that every body runs at most once.
-/

namespace ModuleLoader.Session

open Loader Relation

/-- Loads whose units were filed are not pending. -/
def Released (s : Session) : Prop :=
  ∀ {n id}, .filed n id ∈ s.loader.world.journal → ∀ m, s.loader.pending.get? m ≠ some id

variable {s s' : Session} {id : Nat}

/-- What is filed when a session goes on are units of the request that takes a step. -/
theorem Regular.filed_next (h : s.Regular) (hn : Next s s') :
    ∃ events, s'.loader.world.journal = events ++ s.loader.world.journal ∧
      ∀ n id, .filed n id ∈ events → ∃ (i : Nat) (a a' : Activity) (u : LoadedUnit),
        s.activities[i]? = some a ∧ Advance (a, s.loader) (a', s'.loader) ∧ u ∈ a.units ∧
          u.name = n ∧ u.body.load = id := by
  cases hn with
  | @step i a a' l' ha hadv =>
    obtain ⟨m, hd, hb⟩ := h.does (List.mem_of_getElem? ha) hadv
    obtain ⟨events, hj, he⟩ := filed_of_deeds hd
    have hfiled (n : String) (id : Nat) (hm : .filed n id ∈ events) :
        ∃ (i : Nat) (b a' : Activity) (u : LoadedUnit),
          s.activities[i]? = some b ∧ Advance (b, s.loader) (a', l') ∧ u ∈ b.units ∧
            u.name = n ∧ u.body.load = id := by
      obtain ⟨u, hu, hun⟩ := he n id hm
      exact ⟨i, a, a', u, ha, hadv, hu, hun⟩
    rcases hb with hb | ⟨u, ok, -, hb⟩
    · exact ⟨events, (congrArg Books.journal hb).trans hj, hfiled⟩
    · refine ⟨.ran u.body.load ok :: events, (congrArg Books.journal hb).trans ?_, ?_⟩
      · rw [hj]
        rfl
      · intro n id hm
        exact hfiled n id ((List.mem_cons.1 hm).resolve_left (by simp))
  | @move budget m hm ht =>
    obtain ⟨events, hj, he⟩ := filed_of_deeds (move_deeds hm ht (budget + 1) h.resting)
    refine ⟨events, hj, fun n id hf => ?_⟩
    obtain ⟨u, hu, -⟩ := he n id hf
    exact absurd hu List.not_mem_nil

theorem Regular.released_next (h : s.Regular) (hr : s.Released) (hn : Next s s') :
    s'.Released := by
  intro n id hf m hp
  obtain ⟨events, hj, he⟩ := h.filed_next hn
  rw [hj] at hf
  rcases List.mem_append.1 hf with hf | hf
  · obtain ⟨i, a, a', u, ha, hadv, hu, rfl, rfl⟩ := he n id hf
    rcases Activity.mem_loads_of_unit hu with hid | ho
    · have hsound := h.sound.activities a (List.mem_of_getElem? ha)
      rcases advance_releases hadv h.sound.loader hsound with hc | hc
      · obtain ⟨events', hj', he'⟩ := hc.journal
        rw [hj', List.append_cancel_right_eq] at hj
        exact he' _ (hj ▸ hf)
      · exact hc u hu hid m hp
    · exact ((h.own ha ho).1.next h.sound hn).pending m hp
  · rcases hn.pending h.sound hp with hp | hge
    · exact hr hf m hp
    · exact Nat.not_le_of_lt (h.faithful.filed hf).lt hge

/-- A load that no request holds is not filed again. -/
theorem Regular.not_refiled (h : s.Regular) (hid : s.Loose id) {m : String}
    (hf : .filed m id ∈ s.loader.world.journal) (hn : Next s s') :
    ∃ events, s'.loader.world.journal = events ++ s.loader.world.journal ∧
      ∀ n, .filed n id ∉ events := by
  obtain ⟨events, hj, he⟩ := h.filed_next hn
  refine ⟨events, hj, fun n hm => ?_⟩
  obtain ⟨i, a, a', u, ha, -, hu, -, rfl⟩ := he n id hm
  rcases Activity.mem_loads_of_unit hu with hl | ho
  · exact hid.held ⟨a, List.mem_of_getElem? ha, hl⟩
  · exact (h.own ha ho).2.1.1 m hf

theorem Regular.not_refiled_reaches (h : s.Regular) (hid : s.Loose id) {m : String}
    (hf : .filed m id ∈ s.loader.world.journal) (hn : ReflTransGen Next s s') :
    s'.Loose id ∧ ∃ events, s'.loader.world.journal = events ++ s.loader.world.journal ∧
      ∀ n, .filed n id ∉ events := by
  induction hn with
  | refl => exact ⟨hid, [], rfl, by simp⟩
  | @tail t u hs hn ih =>
    obtain ⟨hid', events, hj, he⟩ := ih
    have ht := h.reaches hs
    have hft : .filed m id ∈ t.loader.world.journal := by
      rw [hj]
      exact List.mem_append_right _ hf
    obtain ⟨events', hj', he'⟩ := ht.not_refiled hid' hft hn
    refine ⟨hid'.next ht.sound hn, events' ++ events, ?_, fun n hm => ?_⟩
    · rw [hj', hj, List.append_assoc]
    · rcases List.mem_append.1 hm with hm | hm
      · exact he' n hm
      · exact he n hm

/-- A unit is registered a second time only by requests that held its load since the first time. -/
theorem Regular.holds_of_refiled (h : s.Regular) (hr : s.Released) {m n : String}
    (hf : .filed m id ∈ s.loader.world.journal) (hn : ReflTransGen Next s s')
    (hnews : News s.loader s'.loader (.filed n id)) : s.Holds id := by
  by_contra hh
  have hid : s.Loose id := ⟨(h.faithful.filed hf).lt, hr hf, hh⟩
  obtain ⟨-, events, hj, he⟩ := h.not_refiled_reaches hid hf hn
  obtain ⟨events', hj', he'⟩ := hnews
  rw [hj, List.append_cancel_right_eq] at hj'
  exact he n (hj' ▸ he')

/-! ## At most once -/

section Run

variable {l : Loader} {budget : Nat} {moves : List Move}

/-- Every body runs at most once, unless its unit is registered again after it failed and it runs
once more. Only a request that held the load when the unit was registered can register it again. -/
theorem runs_once_iff {options : Options} {stages : Stages} {files : Files} {reporter : Reporter}
    {realm : Realm} (hl : Loader.build options stages files reporter realm = .ok l)
    (budget : Nat) (hm : ∀ m ∈ moves, m.Keeps) (k : Nat) :
    ((executed (run budget l moves k).loader.world.journal).Nodup ↔
      ∀ n id ok, ¬ [.ran id ok, .filed n id, .ran id false].Sublist
        (run budget l moves k).loader.world.journal) ∧
    ∀ j ≤ k, ∀ n id, .filed n id ∈ (run budget l moves j).loader.world.journal →
      News (run budget l moves j).loader (run budget l moves k).loader (.filed n id) →
        (run budget l moves j).Holds id := by
  have hstart := regular_start hl
  have hreaches (k : Nat) : ReflTransGen Next (start l) (run budget l moves k) :=
    run_reaches (j := 0) hm (Nat.zero_le k)
  have hreleased (k : Nat) : (run budget l moves k).Released := by
    have hr := hreaches k
    generalize run budget l moves k = s at hr
    induction hr with
    | refl =>
      intro n id _ m
      simp [start, (sound_build hl).2.2]
    | tail hs hn ih => exact (hstart.reaches hs).released_next ih hn
  constructor
  · exact nodup_executed_iff (hstart.reaches (hreaches k)).faithful.tidy
  · intro j hjk n id hf hnews
    exact (hstart.reaches (hreaches j)).holds_of_refiled (hreleased j) hf (run_reaches hm hjk) hnews

end Run

/-- A module whose body fails. -/
def failingFiles : List (String × String) := [("m.js", "this.runs++;\nexport var v = nope;")]

/-- Two imports of that module, side by side. -/
def failingMoves : List Move :=
  [.request 0 ⟨.importModule "m", .none⟩, .request 0 ⟨.importModule "m", .none⟩,
    .turn 0, .turn 1, .turn 0, .turn 1]

theorem failingMoves_keeps : ∀ m ∈ failingMoves, m.Keeps := by
  simp [failingMoves, Move.Keeps]

theorem runs_once_iff_failing :
    (executed (run 8 (ofFiles 1 failingFiles) failingMoves 4).loader.world.journal).Nodup ↔
      ∀ n id ok, ¬ [.ran id ok, .filed n id, .ran id false].Sublist
        (run 8 (ofFiles 1 failingFiles) failingMoves 4).loader.world.journal :=
  (runs_once_iff (build_ofFiles 1 failingFiles) 8 failingMoves_keeps 4).1

/-- Both imports share one load, and both run its body. -/
theorem shared_body_runs_twice :
    (∀ m ∈ failingMoves, m.Keeps) ∧
      executed (run 8 (ofFiles 1 failingFiles) failingMoves 6).loader.world.journal = [0, 0] ∧
      (run 8 (ofFiles 1 failingFiles) failingMoves 6).loader.loads.length = 1 :=
  ⟨failingMoves_keeps, by decide +kernel⟩

end ModuleLoader.Session
