import ModuleLoader.Proofs.Loader.Claims
import ModuleLoader.Proofs.Loader.Definitions
import ModuleLoader.Proofs.Session.Rejections

/-! # Definitions after a failure

A definition that is rejected frees its name for the next one. Only if something is missing below a
module that was registered before does it leave a record behind.
-/

namespace ModuleLoader.Session

open Loader Relation

/-! ## Claims -/

/-- The names being defined are those that the requests have claimed. -/
def Claimed (s : Session) : Prop :=
  s.loader.defining.Perm (s.activities.filterMap Activity.claim?)

theorem filterMap_cons_eq (a : Activity) (rest : List Activity) :
    (a :: rest).filterMap Activity.claim? =
      a.claim?.toList ++ rest.filterMap Activity.claim? := by
  cases h : a.claim? <;> simp [h]

section Claimed

variable {s : Session} {budget : Nat}

/-- What one request has claimed, apart from the claims of the others. -/
theorem Claimed.claims (h : s.Claimed) {i : Nat} {a : Activity} (ha : s.activities[i]? = some a) :
    Claims ((s.activities.eraseIdx i).filterMap Activity.claim?) a s.loader := by
  obtain ⟨hi, rfl⟩ := List.getElem?_eq_some_iff.1 ha
  unfold Claims
  rw [← filterMap_cons_eq]
  exact h.trans ((List.getElem_cons_eraseIdx_perm hi).symm.filterMap _)

theorem Claimed.takeTurn (h : s.Claimed) (hs : s.Sound) (i : Nat) :
    (s.takeTurn (budget + 1) i).Claimed := by
  cases ha : s.activities[i]? with
  | none => rwa [takeTurn_none ha]
  | some a =>
    have hi := (List.getElem?_eq_some_iff.1 ha).1
    have hsound := hs.activities a (List.mem_of_getElem? ha)
    have hbefore := h.claims ha
    have hc := Loader.Sound.turn_preserves (P := Claims _) budget
      (fun hadv hl ha hc => hc.advance hadv hl ha) hs.loader hsound hbefore
    rw [takeTurn_eq ha]
    unfold Claims at hc
    rw [← filterMap_cons_eq] at hc
    exact hc.trans ((List.set_perm_cons_eraseIdx hi _).symm.filterMap _)

theorem Claimed.move (h : s.Claimed) (hs : s.Sound) (m : Move) :
    (s.move (budget + 1) m).Claimed := by
  cases m with
  | turn i => exact h.takeTurn hs i
  | request turns request =>
    unfold Claimed Session.move
    rw [List.filterMap_append]
    exact h.trans (.of_eq (List.append_nil _).symm)
  | get name =>
    have hd : (s.loader.get name).2.defining = s.loader.defining := by
      unfold Loader.get
      split
      · simp only [reported]
        split <;> rfl
      · rfl
    unfold Claimed Session.move
    rw [hd]
    exact h
  | _ => exact h

theorem Claimed.play (h : s.Claimed) (hs : s.Sound) (moves : List Move) :
    (s.play (budget + 1) moves).Claimed :=
  hs.play_preserves (fun m _ hs h => h.move hs m) h

theorem Reached.claimed (h : s.Reached budget) : s.Claimed := by
  obtain ⟨options, stages, files, reporter, realm, l, moves, hb, rfl⟩ := h
  apply Claimed.play _ (sound_start (sound_build hb).1) moves
  simp only [build, bind_eq_ok_iff, pure, Except.pure, Except.ok.injEq] at hb
  obtain ⟨options', -, rfl⟩ := hb
  exact .nil

/-- When no request is in flight no name is being defined. -/
theorem Reached.defining (h : s.Reached budget) (hq : s.Quiet) : s.loader.defining = [] := by
  have hnone : s.activities.filterMap Activity.claim? = [] := by
    rw [List.filterMap_eq_nil_iff]
    intro a ha
    have hsettled := hq a ha
    cases a <;> first | rfl | simp [Activity.isSettled] at hsettled
  have hc := h.claimed
  unfold Claimed at hc
  rw [hnone] at hc
  exact hc.eq_nil

theorem Reached.play (h : s.Reached budget) (moves : List Move) :
    (s.play (budget + 1) moves).Reached budget := by
  obtain ⟨options, stages, files, reporter, realm, l, moves', hb, rfl⟩ := h
  exact ⟨options, stages, files, reporter, realm, l, moves' ++ moves, hb,
    (play_append _ _ _ _).symm⟩

end Claimed

/-! ## Definitions that are rejected -/

/-- A definition of a free name that is rejected gives up its claim. It leaves the name registered
exactly if a module that was registered before, and that the definition needs, needs one that has no
record. Otherwise a source without dependencies, whose body comes to its end, can be defined next
under this name. -/
theorem define_frees_iff {budget : Nat} {s s' : Session} (hs : s.Reached budget) (hq : s.Quiet)
    {given source name : String} {options : RequestOptions}
    (hn : s.loader.nameOf given options.referrer = .ok name)
    (hfree : s.loader.registry.has name = false) {delay k : Nat} {e : LoadError}
    (hk : (s.move (budget + 1) (.request delay ⟨.define given source, options⟩)).play (budget + 1)
      (.replicate k (.turn s.activities.length)) = s')
    (he : s'.activities = s.activities ++ [.settled (.error e)]) :
    s'.loader.defining = [] ∧
    (s'.loader.registry.has name = true ↔ ∃ x y, e = .instantiate name (.dependencyNotLoaded y) ∧
      ReflTransGen s'.loader.registry.Needs name x ∧ s.loader.registry.Needs x y ∧
      s'.loader.registry.has y = false) ∧
    (s'.loader.registry.has name = false → ∀ given' source' options' j,
      s'.loader.nameOf given' options'.referrer = .ok name →
      s'.loader.Standalone name source' options' →
      ((s'.move (budget + 1) (.request 0 ⟨.define given' source', options'⟩)).play (budget + 1)
        (.replicate (j + 1) (.turn s'.activities.length))).activities =
          s'.activities ++ [.settled (.ok .defined)]) := by
  have hreached : s'.Reached budget := by
    rw [← hk, ← play_cons]
    exact hs.play _
  have hquiet : s'.Quiet := by
    intro a ha
    rw [he] at ha
    rcases List.mem_append.1 ha with ha | ha
    · exact hq a ha
    · rw [List.mem_singleton] at ha
      rw [ha]
      rfl
  have hdefining := hreached.defining hquiet
  refine ⟨hdefining, ?_, ?_⟩
  · rw [play_request] at hk
    have hturns := turns_reach budget k (.delayed delay ⟨.define given source, options⟩, s.loader)
    have hstart : Defines s.loader given source name options
        (.delayed delay ⟨.define given source, options⟩) s.loader := ⟨rfl, rfl⟩
    have hd := defines_of_advances hturns hs.sound.loader trivial hs.resting hn hfree hstart
    subst hk
    simp only [List.append_cancel_left_eq, List.cons.injEq, and_true] at he
    rw [he] at hd
    exact ⟨hd, fun h => Strands.has h hfree⟩
  · intro hfree' given' source' options' j hn' hsource
    have hturn := define_turn hn' hfree' (by simp [hdefining]) hsource budget
    have hone : turns (budget + 1) 1 (.delayed 0 ⟨.define given' source', options'⟩, s'.loader) =
        (.settled (.ok .defined), (turns (budget + 1) 1
          (.delayed 0 ⟨.define given' source', options'⟩, s'.loader)).2) :=
      Prod.ext hturn rfl
    rw [play_request, turns_add, hone, turns_settled]

/-- A session in which `e` is registered and needs `f`, whose import has failed. -/
def broken : Session :=
  (start (ofFiles 0 (lateFiles "export var v = nope;"))).play 9 (lateMoves.take 4)

theorem broken_reached : broken.Reached 8 :=
  ⟨_, _, _, _, _, _, _, build_ofFiles 0 _, rfl⟩

theorem broken_quiet : broken.Quiet := by
  decide +kernel

theorem broken_nameOf : broken.loader.nameOf "d" RequestOptions.none.referrer = .ok "d" := by
  rw [← toOption_eq_some_iff]
  decide +kernel

/-- A definition of `d` in a session, and its only turn. -/
def defineD (s : Session) (source : String) : Session :=
  (s.move 9 (.request 0 ⟨.define "d" source, .none⟩)).play 9
    (.replicate 1 (.turn s.activities.length))

/-- How the request with a number was rejected. -/
def messageAt? (s : Session) (i : Nat) : Option String :=
  match s.activities[i]? with
  | some (.settled (.error e)) => some e.message
  | _ => none

theorem activities_defineD {s : Session} {source : String} {message : String}
    (h : (s.defineD source).messageAt? s.activities.length = some message) :
    ∃ e, (s.defineD source).activities = s.activities ++ [.settled (.error e)] := by
  have hplay := play_request 9 1 s 0 ⟨.define "d" source, .none⟩
  have ha : (s.defineD source).activities = s.activities ++
      [(turns 9 1 (.delayed 0 ⟨.define "d" source, .none⟩, s.loader)).1] :=
    congrArg Session.activities hplay
  unfold messageAt? at h
  rw [ha] at h ⊢
  generalize (turns 9 1 (.delayed 0 ⟨.define "d" source, .none⟩, s.loader)).1 = a at h
  split at h
  · rename_i e he
    simp only [List.getElem?_concat_length, Option.some.injEq] at he
    exact ⟨e, by rw [he]⟩
  · simp at h

theorem define_frees_iff_failing :
    (broken.defineD "export var x = nope;").messageAt? 2 =
        some "InstantiateError: d: nope is not defined" ∧
      (broken.defineD "export var x = nope;").loader.defining = [] ∧
      (broken.defineD "export var x = nope;").loader.registry.has "d" = false ∧
      ((broken.defineD "export var x = nope;").defineD "export var x = 1;").activities =
        (broken.defineD "export var x = nope;").activities ++ [.settled (.ok .defined)] := by
  have hfree : broken.loader.registry.has "d" = false := by decide +kernel
  have hmessage : (broken.defineD "export var x = nope;").messageAt? 2 =
      some "InstantiateError: d: nope is not defined" := by
    decide +kernel
  have hfree' : (broken.defineD "export var x = nope;").loader.registry.has "d" = false := by
    decide +kernel
  have hname : (broken.defineD "export var x = nope;").loader.nameOf "d"
      RequestOptions.none.referrer = .ok "d" := by
    rw [← toOption_eq_some_iff]
    decide +kernel
  have hsource : (broken.defineD "export var x = nope;").loader.Standalone "d"
      "export var x = 1;" .none := by
    decide +kernel
  obtain ⟨e, he⟩ := activities_defineD hmessage
  obtain ⟨hdefining, -, hagain⟩ :=
    define_frees_iff broken_reached broken_quiet broken_nameOf hfree rfl he
  exact ⟨hmessage, hdefining, hfree', hagain hfree' "d" _ _ 0 hname hsource⟩

/-- The record of `d` stays behind, and the next definition is refused. -/
theorem rejected_definition_stays :
    broken.Reached 8 ∧ broken.Quiet ∧
      broken.loader.nameOf "d" RequestOptions.none.referrer = .ok "d" ∧
      broken.loader.registry.has "d" = false ∧
      (broken.defineD "import {w} from 'e';\nexport var x = w;").messageAt? 2 =
        some "InstantiateError: d: dependency 'f' is not loaded" ∧
      (broken.defineD "import {w} from 'e';\nexport var x = w;").loader.registry.has "d" = true ∧
      (broken.defineD "import {w} from 'e';\nexport var x = w;").loader.Standalone "d"
        "export var x = 1;" .none ∧
      ((broken.defineD "import {w} from 'e';\nexport var x = w;").defineD
        "export var x = 1;").messageAt? 3 = some "InstantiateError: d: already defined" := by
  refine ⟨broken_reached, broken_quiet, broken_nameOf, ?_⟩
  decide +kernel

end ModuleLoader.Session
