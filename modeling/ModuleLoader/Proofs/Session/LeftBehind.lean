import ModuleLoader.Proofs.Session.Basic

/-! # Loads left behind

Once all requests are settled nobody waits for a pending load. A request that fails may leave some
behind nevertheless, and a later request that needs such a name joins the old load. Nothing else
leaves a load behind.
-/

namespace ModuleLoader.Session

open Loader Dialect

/-- A turn of a request leaves the pending load of a name behind: the load was held or is new, no
request holds it after the turn, and the request fails, either before the load has ended, or while
it reloads what is missing below a registered module, or because its definition came too late. -/
structure LeavesBehind (before after : Session) (i : Nat) (n : String) (id : Nat) : Prop where
  pending : after.loader.pending.get? n = some id
  held : before.Holds id ∨ before.loader.pending.get? n ≠ some id
  lost : ¬ after.Holds id
  cause : ∃ a a', before.activities[i]? = some a ∧ after.activities[i]? = some a' ∧ a'.Failing ∧
    (after.loader.isFinished id = false ∨ a.Reloads before.loader ∨ a'.IsRefused after.loader)

/-- The session that a loader starts, after some moves. -/
def run (budget : Nat) (l : Loader) (moves : List Move) (k : Nat) : Session :=
  (start l).play (budget + 1) (moves.take k)

/-- In every state of a session, each pending load is held by a request. -/
def AlwaysHeld (budget : Nat) (l : Loader) (moves : List Move) : Prop :=
  ∀ k n id, (run budget l moves k).loader.pending.get? n = some id → (run budget l moves k).Holds id

/-- Between two states of a session, a turn leaves the pending load of a name behind. -/
def LeftAt (budget : Nat) (l : Loader) (moves : List Move) (k : Nat) (n : String) (id : Nat) :
    Prop :=
  ∃ i, moves[k]? = some (.turn i) ∧
    LeavesBehind (run budget l moves k) (run budget l moves (k + 1)) i n id

theorem takeTurn_pending {s : Session} (hs : s.Sound) (budget i : Nat) {n : String} {id : Nat}
    (hp : (s.takeTurn (budget + 1) i).loader.pending.get? n = some id) :
    (s.takeTurn (budget + 1) i).Holds id ∨
      s.loader.pending.get? n = some id ∧ ¬ s.Holds id ∨
      LeavesBehind s (s.takeTurn (budget + 1) i) i n id := by
  cases ha : s.activities[i]? with
  | none =>
    rw [takeTurn_none ha] at hp ⊢
    by_cases hh : s.Holds id
    · exact Or.inl hh
    · exact Or.inr (Or.inl ⟨hp, hh⟩)
  | some a =>
    have ht := turn_turns budget hs.loader (hs.activities a (List.mem_of_getElem? ha))
    have hi := (List.getElem?_eq_some_iff.1 ha).1
    rw [takeTurn_eq ha] at hp ⊢
    by_cases hh : Holds ⟨(turn (budget + 1) s.loader a).2,
        s.activities.set i (turn (budget + 1) s.loader a).1⟩ id
    · exact Or.inl hh
    · refine Or.inr ?_
      by_cases hb : s.loader.pending.get? n = some id ∧ ¬ s.Holds id
      · exact Or.inl hb
      · have hheld : s.Holds id ∨ s.loader.pending.get? n ≠ some id := by
          by_cases h : s.Holds id
          · exact Or.inl h
          · exact Or.inr fun h' => hb ⟨h', h⟩
        refine Or.inr ⟨hp, hheld, hh, a, (turn (budget + 1) s.loader a).1, ha, by simp [hi], ?_⟩
        rcases ht.pending n id hp with hid | ⟨hp', hid⟩ | hc
        · exact absurd ⟨_, List.mem_set hi _, hid⟩ hh
        · obtain ⟨b, hbm, hid'⟩ := hheld.resolve_right fun h => h hp'
          obtain ⟨j, hj⟩ := List.mem_iff_getElem?.1 hbm
          have hij : i ≠ j := by
            rintro rfl
            rw [ha, Option.some.injEq] at hj
            exact hid (hj ▸ hid')
          refine absurd ⟨b, List.mem_iff_getElem?.2 ⟨j, ?_⟩, hid'⟩ hh
          simp only
          rw [List.getElem?_set_ne hij, hj]
        · exact hc

theorem move_pending {s : Session} (hs : s.Sound) (budget : Nat) (m : Move) {n : String}
    {id : Nat} (hp : (s.move (budget + 1) m).loader.pending.get? n = some id) :
    (s.move (budget + 1) m).Holds id ∨ s.loader.pending.get? n = some id ∧ ¬ s.Holds id ∨
      ∃ i, m = .turn i ∧ LeavesBehind s (s.move (budget + 1) m) i n id := by
  by_cases hm : ∃ i, m = .turn i
  · obtain ⟨i, rfl⟩ := hm
    exact (takeTurn_pending hs budget i hp).imp_right (Or.imp_right fun h => ⟨i, rfl, h⟩)
  · have hm : ∀ i, m ≠ .turn i := fun i hi => hm ⟨i, hi⟩
    by_cases hh : s.Holds id
    · obtain ⟨a, ha, hid⟩ := hh
      exact Or.inl ⟨a, activities_subset_move _ s hm a ha, hid⟩
    · exact Or.inr (Or.inl ⟨(move_releases _ s hm).pending hp, hh⟩)

section Run

variable {l : Loader} (budget : Nat) (moves : List Move)

theorem run_succ (l : Loader) {k : Nat} {m : Move} (h : moves[k]? = some m) :
    run budget l moves (k + 1) = (run budget l moves k).move (budget + 1) m :=
  play_take_succ _ _ h

theorem run_stays (l : Loader) {k : Nat} (h : moves[k]? = none) :
    run budget l moves (k + 1) = run budget l moves k := by
  rw [run, run, List.take_add_one, h]
  simp

theorem sound_run (hl : l.Sound) (k : Nat) : (run budget l moves k).Sound :=
  (sound_start hl).play budget _

/-- In every state of a session a pending load is held, or was left behind by a turn. -/
theorem held_or_left_behind (hl : l.Sound) (hp : l.pending = .empty) {k : Nat} {n : String}
    {id : Nat} (h : (run budget l moves k).loader.pending.get? n = some id) :
    (run budget l moves k).Holds id ∨ ∃ j < k, LeftAt budget l moves j n id := by
  induction k with
  | zero => simp [run, start, hp] at h
  | succ k ih =>
    have hearlier (h : ∃ j < k, LeftAt budget l moves j n id) :
        ∃ j < k + 1, LeftAt budget l moves j n id := by
      obtain ⟨j, hj, h⟩ := h
      exact ⟨j, Nat.lt_succ_of_lt hj, h⟩
    cases hm : moves[k]? with
    | none =>
      rw [run_stays budget moves l hm] at h ⊢
      exact (ih h).imp_right hearlier
    | some m =>
      have hs := run_succ budget moves l hm
      rw [hs] at h ⊢
      rcases move_pending (sound_run budget moves hl k) budget m h with hh | ⟨hp', hn⟩ | ⟨i, rfl, hb⟩
      · exact Or.inl hh
      · exact Or.inr (hearlier ((ih hp').resolve_left hn))
      · exact Or.inr ⟨k, Nat.lt_succ_self k, i, hm, by rw [hs]; exact hb⟩

end Run

theorem Quiet.not_holds {s : Session} (h : s.Quiet) (id : Nat) : ¬ s.Holds id := by
  rintro ⟨a, ha, hid⟩
  have hs := h a ha
  cases a with
  | settled => exact List.not_mem_nil hid
  | _ => simp [Activity.isSettled] at hs

/-- Every pending load is held by a request in flight, in all states of a session, if and only if no
turn leaves a load behind. When all requests are settled, the pending table is empty if and only if
all that was left behind has been released since; then each further load starts from scratch. -/
theorem always_held_iff {options : Options} {stages : Stages} {files : Files}
    {reporter : Reporter} {realm : Realm} {l : Loader}
    (hl : Loader.build options stages files reporter realm = .ok l) (budget : Nat)
    (moves : List Move) :
    (AlwaysHeld budget l moves ↔ ∀ k n id, ¬ LeftAt budget l moves k n id) ∧
    ∀ k, (run budget l moves k).Quiet →
      ((run budget l moves k).loader.pending = .empty ↔ ∀ j < k, ∀ n id,
        LeftAt budget l moves j n id → (run budget l moves k).loader.pending.get? n ≠ some id) ∧
      ((run budget l moves k).loader.pending = .empty → ∀ n metadata,
        ((run budget l moves k).loader.join n metadata).1 =
          (run budget l moves k).loader.loads.length ∧
        ((run budget l moves k).loader.join n metadata).2.loads =
          (run budget l moves k).loader.loads ++ [.created n metadata]) := by
  obtain ⟨hs, -, hp⟩ := sound_build hl
  refine ⟨⟨?_, ?_⟩, ?_⟩
  · rintro h k n id ⟨i, -, hb⟩
    exact hb.lost (h (k + 1) n id hb.pending)
  · intro h k n id hpend
    rcases held_or_left_behind budget moves hs hp hpend with hh | ⟨j, -, hb⟩
    · exact hh
    · exact absurd hb (h j n id)
  · intro k hq
    refine ⟨⟨?_, ?_⟩, ?_⟩
    · intro he j _ n id _
      simp [he]
    · intro h
      refine Dict.ext_get? fun n => ?_
      rw [Dict.get?_empty, Option.eq_none_iff_forall_ne_some]
      intro id hpend
      rcases held_or_left_behind budget moves hs hp hpend with hh | ⟨j, hj, hb⟩
      · exact hq.not_holds id hh
      · exact h j hj n id hb hpend
    · intro he n metadata
      exact join_of_pending_none (by simp [he]) metadata

/-- Files of a module that needs one that is missing, and one that there is in two places. -/
def staleFiles : List (String × String) :=
  [("main.js", "import {b} from 'bad';\nimport {g} from 'good';\nexport var m = '1';"),
    ("good.js", "export var g = 'old';"), ("new/good.js", "export var g = 'new';")]

/-- The import of that module, and then of the one that there is in two places. -/
def staleMoves : List Move :=
  [.request 0 ⟨.importModule "main", .none⟩, .turn 0,
    .request 0 ⟨.importModule "good", { RequestOptions.none with baseUrl := some "new" }⟩, .turn 1]

theorem always_held_iff_stale :
    Loader.build .default (.standard ".js" (some compile)) (.ofTable (.ofList staleFiles) 0)
      (.keeping []) .empty = .ok (ofFiles 0 staleFiles) ∧
    (AlwaysHeld 9 (ofFiles 0 staleFiles) staleMoves ↔
      ∀ k n id, ¬ LeftAt 9 (ofFiles 0 staleFiles) staleMoves k n id) :=
  ⟨build_ofFiles _ _, (always_held_iff (build_ofFiles _ _) 9 staleMoves).1⟩

/-- The load of `good` is still pending when the import has failed, and answers the request that
asks for it in the other place. -/
theorem stale_load_is_joined :
    (run 9 (ofFiles 0 staleFiles) staleMoves 2).Quiet ∧
      (run 9 (ofFiles 0 staleFiles) staleMoves 2).loader.pending.get? "good" = some 2 ∧
      ((run 9 (ofFiles 0 staleFiles) staleMoves 4).activities[1]?.bind
        fun a => a.exportText? "g") = some "old" ∧
      (run 9 (ofFiles 0 staleFiles) staleMoves 4).loader.requestCounts.get? "new/good.js" = none := by
  decide +kernel

end ModuleLoader.Session
