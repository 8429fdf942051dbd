import ModuleLoader.Proofs.Loader.Effects
import ModuleLoader.Proofs.Session.LeftBehind
import ModuleLoader.Proofs.Session.Reimport

/-! # Rejections

A request that is rejected before its module is evaluated leaves no trace in registry and realm,
however many turns it took and whatever it had loaded by then.
-/

namespace ModuleLoader.Session

open Loader Relation

variable {budget : Nat} {l : Loader} {a : Activity}

/-- Some turns of a request are a row of steps. -/
theorem turns_reach (budget k : Nat) (c : Activity × Loader) :
    ReflTransGen Advance c (turns (budget + 1) k c) := by
  induction k generalizing c with
  | zero => exact .refl
  | succ k ih => exact (turn_steps budget c.2 c.1).trans (ih _)

/-- The session in which a request is made and takes some turns, and no other request does. -/
theorem play_request (budget k : Nat) (s : Session) (delay : Nat) (request : Request) :
    (s.move budget (.request delay request)).play budget
        (.replicate k (.turn s.activities.length)) =
      ⟨(turns budget k (.delayed delay request, s.loader)).2,
        s.activities ++ [(turns budget k (.delayed delay request, s.loader)).1]⟩ :=
  play_turns budget k s.loader s.activities _

/-- A request that is rejected because a name, a source or its code is not to be had leaves registry
and realm exactly as they were. -/
theorem rejection_leaves_unchanged {s : Session} (hs : s.Reached budget) {request : Request}
    {delay k : Nat} {e : LoadError} {l' : Loader}
    (hk : (s.move (budget + 1) (.request delay request)).play (budget + 1)
      (.replicate k (.turn s.activities.length)) = ⟨l', s.activities ++ [.settled (.error e)]⟩)
    (he : e.kind = .resolution ∨ e.kind = .fetch ∨ e.kind = .compile) :
    l'.registry = s.loader.registry ∧ l'.world.realm = s.loader.world.realm := by
  rw [play_request, Session.mk.injEq, List.append_cancel_left_eq, List.cons.injEq] at hk
  obtain ⟨rfl, ha, -⟩ := hk
  have hearly : (turns (budget + 1) k (.delayed delay request, s.loader)).1.IsEarly := by
    rw [ha]
    rcases he with he | he | he <;> simp [Activity.IsEarly, he]
  exact early_of_advances (turns_reach budget k _) hs.sound.loader trivial hs.resting hearly

/-- The address at which a settled request found no source, and why. -/
def unfetched? : Activity → Option (String × FetchCause)
  | .settled (.error (.fetch address cause)) => some (address, cause)
  | _ => none

theorem eq_of_unfetched? {a : Activity} {address : String} {cause : FetchCause}
    (h : unfetched? a = some (address, cause)) :
    a = .settled (.error (.fetch address cause)) := by
  unfold unfetched? at h
  split at h
  · simp only [Option.some.injEq, Prod.mk.injEq] at h
    rw [h.1, h.2]
  · simp at h

/-- A session in which `good` was imported. -/
def oneImported : Session :=
  (start (ofFiles 0 staleFiles)).play 9 [.request 0 ⟨.importModule "good", .none⟩, .turn 0]

/-- An import of `main` in that session. -/
def mainImport : Activity × Loader :=
  (.delayed 0 ⟨.importModule "main", .none⟩, oneImported.loader)

theorem mainImport_fails :
    (turns 9 1 mainImport).1 = .settled (.error (.fetch "bad.js" .noSuchFile)) := by
  apply eq_of_unfetched?
  decide +kernel

theorem rejection_leaves_unchanged_missing :
    oneImported.loader.registry.has "good" = true ∧
      (oneImported.move 9 (.request 0 ⟨.importModule "main", .none⟩)).play 9
        (.replicate 1 (.turn oneImported.activities.length)) =
          ⟨(turns 9 1 mainImport).2, oneImported.activities ++
            [.settled (.error (.fetch "bad.js" .noSuchFile))]⟩ ∧
      (turns 9 1 mainImport).2.registry = oneImported.loader.registry ∧
      (turns 9 1 mainImport).2.world.realm = oneImported.loader.world.realm := by
  have hplay := play_request 9 1 oneImported 0 ⟨.importModule "main", .none⟩
  rw [show (Activity.delayed 0 ⟨.importModule "main", .none⟩, oneImported.loader) = mainImport
    from rfl, mainImport_fails] at hplay
  have hr : oneImported.Reached 8 := ⟨_, _, _, _, _, _, _, build_ofFiles 0 _, rfl⟩
  exact ⟨by decide +kernel, hplay, rejection_leaves_unchanged hr hplay (Or.inr (Or.inl rfl))⟩

end ModuleLoader.Session
