import ModuleLoader.Loader.Access
import ModuleLoader.Proofs.Loader.RequestHoldings

/-! # Sessions

In a session requests are made of one loader, and take their turns in any order. In between the
files, the settings and the registry may change. The rounds in which a loader performs requests are
one such order.
-/

namespace ModuleLoader

open Loader

/-- A loader and the requests that were made of it. -/
structure Session where
  loader : Loader
  activities : List Activity

/-- The text of an export of the module that answers a request. -/
def Loader.Activity.exportText? (a : Activity) (key : String) : Option String :=
  match a with
  | .settled (.ok (.exports ns)) => (ns.exports.get? key).map Value.text
  | _ => none

/-- A loader with default settings, and files that answer after some turns. -/
def Loader.ofFiles (latency : Nat) (files : List (String × String)) : Loader where
  options := .default
  map := Options.default.map
  stages := .standard ".js" (some Dialect.compile)
  files := .ofTable (.ofList files) latency
  registry := Registry.empty.setEvaluated hostName ⟨0, hostExports⟩
  world := ⟨⟨.empty, 1⟩, []⟩
  loads := []
  pending := .empty
  defining := []
  sourceMaps := .empty
  reporter := .keeping []
  anonymous := 0

theorem Loader.build_ofFiles (latency : Nat) (files : List (String × String)) :
    Loader.build .default (.standard ".js" (some Dialect.compile))
      (.ofTable (.ofList files) latency) (.keeping []) .empty = .ok (ofFiles latency files) :=
  rfl

/-- What may happen in a session: a request is made, the request with a number takes a turn, the
files change, the settings and the package map change, or a registered module is set, removed or
evaluated. -/
inductive Move where
  | request (turns : Nat) (request : Request)
  | turn (i : Nat)
  | files (files : Files)
  | configure (options : Options) (map : PackageMap)
  | set (name : String) (ns : Namespace)
  | delete (name : String)
  | get (name : String)

namespace Session

/-- A session without requests. -/
def start (l : Loader) : Session := ⟨l, []⟩

/-- Give the request with a number a turn, if there is one. -/
def takeTurn (budget : Nat) (s : Session) (i : Nat) : Session :=
  match s.activities[i]? with
  | none => s
  | some a =>
    let (a, l) := Loader.turn budget s.loader a
    ⟨l, s.activities.set i a⟩

/-- Make a move. -/
def move (budget : Nat) (s : Session) : Move → Session
  | .request turns request => { s with activities := s.activities ++ [.delayed turns request] }
  | .turn i => s.takeTurn budget i
  | .files files => { s with loader := { s.loader with files := files } }
  | .configure options map => { s with loader := { s.loader with options := options, map := map } }
  | .set name ns => { s with loader := s.loader.set name ns }
  | .delete name => { s with loader := (s.loader.delete name).2 }
  | .get name => { s with loader := (s.loader.get name).2 }

/-- Make moves one after the other. -/
def play (budget : Nat) (s : Session) (moves : List Move) : Session :=
  moves.foldl (move budget) s

/-- A request waits for a load, or has its unit. -/
def Holds (s : Session) (id : Nat) : Prop := ∃ a ∈ s.activities, id ∈ a.loads

/-- All requests are settled. -/
def Quiet (s : Session) : Prop := ∀ a ∈ s.activities, a.isSettled = true

instance (s : Session) : Decidable s.Quiet :=
  inferInstanceAs (Decidable (∀ a ∈ s.activities, a.isSettled = true))

/-- The loader is sound, and all requests know their loads. -/
structure Sound (s : Session) : Prop where
  loader : s.loader.Sound
  activities : ∀ a ∈ s.activities, a.Sound s.loader

section Play

variable (budget : Nat)

@[simp] theorem play_nil (s : Session) : s.play budget [] = s := rfl

@[simp] theorem play_cons (s : Session) (m : Move) (moves : List Move) :
    s.play budget (m :: moves) = (s.move budget m).play budget moves := rfl

theorem play_append (s : Session) (moves moves' : List Move) :
    s.play budget (moves ++ moves') = (s.play budget moves).play budget moves' :=
  List.foldl_append

theorem play_take_succ (s : Session) {moves : List Move} {k : Nat} {m : Move}
    (h : moves[k]? = some m) :
    s.play budget (moves.take (k + 1)) = (s.play budget (moves.take k)).move budget m := by
  rw [List.take_add_one, h, play_append]
  rfl

/-! ## Rounds -/

theorem takeTurn_append (l : Loader) (before rest : List Activity) (a : Activity) :
    (Session.mk l (before ++ a :: rest)).takeTurn budget before.length =
      ⟨(Loader.turn budget l a).2, before ++ (Loader.turn budget l a).1 :: rest⟩ := by
  have ha : (before ++ a :: rest)[before.length]? = some a := by simp
  rw [takeTurn]
  simp only [ha]
  simp

/-- A round is a turn of every request, from the first to the last. -/
theorem round_eq_play (l : Loader) (before after : List Activity) :
    (Session.mk l (before ++ after)).play budget
        ((List.range' before.length after.length).map .turn) =
      ⟨(l.round budget after).2, before ++ (l.round budget after).1⟩ := by
  induction after generalizing l before with
  | nil => simp [Loader.round]
  | cons a rest ih =>
    rw [List.length_cons, List.range'_succ, List.map_cons, play_cons, move, takeTurn_append,
      Loader.round]
    have hr := ih (Loader.turn budget l a).2 (before ++ [(Loader.turn budget l a).1])
    simp only [List.append_assoc, List.singleton_append, List.length_append, List.length_cons,
      List.length_nil, Nat.zero_add] at hr
    exact hr

/-- Requests that a loader performs side by side take their turns in a session. -/
theorem rounds_eq_play (n : Nat) (l : Loader) (activities : List Activity) :
    ∃ moves, (∀ m ∈ moves, ∃ i, m = .turn i) ∧ (Session.mk l activities).play budget moves =
      ⟨(l.rounds budget n activities).2, (l.rounds budget n activities).1⟩ := by
  induction n generalizing l activities with
  | zero => exact ⟨[], by simp, rfl⟩
  | succ n ih =>
    rw [Loader.rounds]
    split
    · exact ⟨[], by simp, rfl⟩
    · obtain ⟨moves, hm, hp⟩ := ih (l.round budget activities).2 (l.round budget activities).1
      refine ⟨(List.range' 0 activities.length).map .turn ++ moves, ?_, ?_⟩
      · intro m hmem
        rcases List.mem_append.1 hmem with hmem | hmem
        · obtain ⟨i, -, rfl⟩ := List.mem_map.1 hmem
          exact ⟨i, rfl⟩
        · exact hm m hmem
      · have hr := round_eq_play budget l [] activities
        simp only [List.nil_append, List.length_nil] at hr
        rw [play_append, hr, hp]

theorem play_requests (s : Session) (requests : List (Nat × Request)) :
    s.play budget (requests.map fun r => .request r.1 r.2) =
      { s with activities := s.activities ++ requests.map fun r => .delayed r.1 r.2 } := by
  induction requests generalizing s with
  | nil => simp
  | cons r rest ih => simp [ih, move]

theorem perform_eq_play (l : Loader) (requests : List (Nat × Request)) :
    ∃ moves, (∀ m ∈ moves, ∃ i, m = .turn i) ∧
      (start l).play patience ((requests.map fun r => .request r.1 r.2) ++ moves) =
        ⟨(l.perform requests).2, (l.perform requests).1⟩ := by
  obtain ⟨moves, hm, hp⟩ :=
    rounds_eq_play patience patience l (requests.map fun r => .delayed r.1 r.2)
  refine ⟨moves, hm, ?_⟩
  rw [play_append, play_requests]
  exact hp

end Play

/-! ## Soundness -/

theorem sound_build {options : Options} {stages : Stages} {files : Files} {reporter : Reporter}
    {realm : Realm} {l : Loader} (h : Loader.build options stages files reporter realm = .ok l) :
    l.Sound ∧ l.loads = [] ∧ l.pending = .empty := by
  simp only [build, bind_eq_ok_iff, pure, Except.pure, Except.ok.injEq] at h
  obtain ⟨options, -, rfl⟩ := h
  exact ⟨⟨by simp, by simp⟩, rfl, rfl⟩

theorem sound_start {l : Loader} (h : l.Sound) : (start l).Sound := ⟨h, by simp [start]⟩

/-- Apart from turns, no move touches a load or adds to the pending table. -/
theorem move_releases (budget : Nat) (s : Session) {m : Move} (hm : ∀ i, m ≠ .turn i) :
    Releases s.loader (s.move budget m).loader := by
  cases m with
  | turn i => exact absurd rfl (hm i)
  | get name =>
    simp only [move, Loader.get]
    split
    · exact (evaluate_releases s.loader name).trans (reported_releases _ _)
    · exact .refl _
  | _ => exact ⟨rfl, id⟩

/-- Apart from turns, a move only adds requests. -/
theorem mem_activities_move {budget : Nat} {s : Session} {m : Move} (hm : ∀ i, m ≠ .turn i)
    {a : Activity} (ha : a ∈ (s.move budget m).activities) : a ∈ s.activities ∨ a.IsDelayed := by
  cases m with
  | turn i => exact absurd rfl (hm i)
  | request turns request =>
    rcases List.mem_append.1 ha with ha | ha
    · exact Or.inl ha
    · rw [List.mem_singleton] at ha
      subst ha
      exact Or.inr trivial
  | _ => exact Or.inl ha

theorem activities_subset_move (budget : Nat) (s : Session) {m : Move} (hm : ∀ i, m ≠ .turn i) :
    ∀ a ∈ s.activities, a ∈ (s.move budget m).activities := by
  intro a ha
  cases m with
  | turn i => exact absurd rfl (hm i)
  | request turns request => exact List.mem_append_left _ ha
  | _ => exact ha

/-- A turn of a request that is there. -/
theorem takeTurn_eq {budget : Nat} {s : Session} {i : Nat} {a : Activity}
    (h : s.activities[i]? = some a) : s.takeTurn budget i =
      ⟨(Loader.turn budget s.loader a).2, s.activities.set i (Loader.turn budget s.loader a).1⟩ := by
  simp only [takeTurn, h]

theorem takeTurn_none {budget : Nat} {s : Session} {i : Nat} (h : s.activities[i]? = none) :
    s.takeTurn budget i = s := by
  simp only [takeTurn, h]

/-- A request that is settled makes no use of its turn. -/
theorem takeTurn_of_settled {budget : Nat} {s : Session} {i : Nat} {a : Activity}
    (h : s.activities[i]? = some a) (ha : a.isSettled = true) : s.takeTurn budget i = s := by
  obtain ⟨hi, rfl⟩ := List.getElem?_eq_some_iff.1 h
  rw [takeTurn_eq h, turn_settled budget s.loader ha, List.set_getElem_self]

theorem Sound.takeTurn {s : Session} (h : s.Sound) (budget : Nat) (i : Nat) :
    (s.takeTurn (budget + 1) i).Sound := by
  cases ha : s.activities[i]? with
  | none => rwa [takeTurn_none ha]
  | some a =>
    have ht := turn_turns budget h.loader (h.activities a (List.mem_of_getElem? ha))
    rw [takeTurn_eq ha]
    refine ⟨ht.sound, fun b hb => ?_⟩
    rcases List.mem_or_eq_of_mem_set hb with hb | rfl
    · exact (h.activities b hb).mono ht.evolves
    · exact ht.activity

theorem Sound.move {s : Session} (h : s.Sound) (budget : Nat) (m : Move) :
    (s.move (budget + 1) m).Sound := by
  by_cases hm : ∃ i, m = .turn i
  · obtain ⟨i, rfl⟩ := hm
    exact h.takeTurn budget i
  · have hm : ∀ i, m ≠ .turn i := fun i hi => hm ⟨i, hi⟩
    have hr := move_releases (budget + 1) s hm
    refine ⟨hr.sound h.loader, fun a ha => ?_⟩
    rcases mem_activities_move hm ha with ha | ha
    · exact (h.activities a ha).mono hr.evolves
    · cases a with
      | delayed => trivial
      | _ => exact ha.elim

theorem Sound.play {s : Session} (h : s.Sound) (budget : Nat) (moves : List Move) :
    (s.play (budget + 1) moves).Sound := by
  induction moves generalizing s with
  | nil => exact h
  | cons m rest ih => exact ih (h.move budget m)

/-- What every move of a sound session preserves holds after all of them. -/
theorem Sound.play_preserves {P : Session → Prop} {budget : Nat} {moves : List Move}
    (hp : ∀ {s : Session}, ∀ m ∈ moves, s.Sound → P s → P (s.move (budget + 1) m))
    {s : Session} (hs : s.Sound) (h : P s) : P (s.play (budget + 1) moves) := by
  induction moves generalizing s with
  | nil => exact h
  | cons m rest ih =>
    have hrest {s : Session} : ∀ m ∈ rest, s.Sound → P s → P (s.move (budget + 1) m) :=
      fun m hm => hp m (List.mem_cons_of_mem _ hm)
    exact ih hrest (hs.move budget m) (hp m List.mem_cons_self hs h)

end Session

end ModuleLoader
