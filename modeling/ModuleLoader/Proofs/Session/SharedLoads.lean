import ModuleLoader.Proofs.Loader.Departures
import ModuleLoader.Proofs.Session.LeftBehind

/-! # Loads that imports share

While the load of a name goes on for a request, all other requests that need the name join it, and
no other load of the name begins: unless a request that fails releases the load while others still
hold it, or a load that was registered once is registered a second time.
-/

namespace ModuleLoader.Session

open Loader Dialect Relation

/-- A load of a name has been started and has not failed, its unit is not registered, and a request
that is not settled has it in its graph. -/
structure Live (s : Session) (n : String) (r : Nat) : Prop where
  serves : s.loader.Serves r n
  unfiled : .filed n r ∉ s.loader.world.journal
  held : s.Holds r

instance (s : Session) (n : String) (r : Nat) : Decidable (s.Live n r) :=
  decidable_of_iff
    (s.loader.Serves r n ∧ .filed n r ∉ s.loader.world.journal ∧ ∃ a ∈ s.activities, r ∈ a.loads)
    ⟨fun ⟨h, h', h''⟩ => ⟨h, h', h''⟩, fun ⟨h, h', h''⟩ => ⟨h, h', h''⟩⟩

/-- What may happen where modules are only imported: a request moves by one step, another import is
requested, or files or settings change. -/
inductive ImportStep : Session → Session → Prop where
  | advance {s : Session} {i : Nat} {a a' : Activity} {l' : Loader} :
      s.activities[i]? = some a → Advance (a, s.loader) (a', l') →
      ImportStep s ⟨l', s.activities.set i a'⟩
  | request {s : Session} (turns : Nat) (specifier : String) (options : RequestOptions) :
      ImportStep s { s with
        activities := s.activities ++ [.delayed turns ⟨.importModule specifier, options⟩] }
  | files {s : Session} (files : Files) :
      ImportStep s { s with loader := { s.loader with files := files } }
  | configure {s : Session} (options : Options) (map : PackageMap) :
      ImportStep s { s with loader := { s.loader with options := options, map := map } }

/-- A course of imports, made of a loader in any order and number. -/
def Course (l : Loader) (w : Nat → Session) : Prop :=
  w 0 = start l ∧ ∀ k, w (k + 1) = w k ∨ ImportStep (w k) (w (k + 1))

/-- While a load of a name is live, every request that needs the name joins it, and no other load of
the name begins. -/
def OneLoad (w : Nat → Session) : Prop :=
  ∀ j k n r, j ≤ k → (∀ i, j ≤ i → i ≤ k → (w i).Live n r) →
    (∀ metadata, (w k).loader.join n metadata = (r, (w k).loader)) ∧
    ∀ q, .began n q ∈ (w k).loader.world.journal → .began n q ∈ (w j).loader.world.journal ∨ q = r

/-- A step takes a live load out of the pending table: its request fails once the load has ended, or
it registers another load of the name, which was registered before. -/
structure Robs (s s' : Session) (n : String) (r : Nat) : Prop where
  shared : s.loader.pending.get? n = some r
  lost : s'.loader.pending.get? n ≠ some r
  live : s'.Live n r
  cause : ∃ (i : Nat) (a a' : Activity), s.activities[i]? = some a ∧ s'.activities[i]? = some a' ∧
    (a'.Failing ∧ s'.loader.isFinished r = true ∨ ∃ q ∈ a.loads, q ≠ r ∧
      .filed n q ∈ s.loader.world.journal ∧ News s.loader s'.loader (.filed n q))

/-- The loader is orderly, and all requests are imports that know their loads. -/
structure Orderly (s : Session) : Prop where
  loader : s.loader.Orderly
  sound : ∀ a ∈ s.activities, a.Sound s.loader
  imports : ∀ a ∈ s.activities, a.IsImport

/-- Every live load is pending for its name. -/
def Shared (s : Session) : Prop := ∀ n r, s.Live n r → s.loader.pending.get? n = some r

section Step

variable {s s' : Session}

theorem Orderly.step (hs : s.Orderly) (h : ImportStep s s') : s'.Orderly := by
  cases h with
  | @advance i a a' l' ha hadv =>
    have hm := List.mem_of_getElem? ha
    have hi := advance_imports hadv hs.loader (hs.sound a hm) (hs.imports a hm)
    have ht := advance_steps hadv hs.loader.sound (hs.sound a hm)
    refine ⟨hi.orderly, fun b hb => ?_, fun b hb => ?_⟩
    · rcases List.mem_or_eq_of_mem_set hb with hb | rfl
      · exact (hs.sound b hb).mono ht.evolves
      · exact ht.activity
    · rcases List.mem_or_eq_of_mem_set hb with hb | rfl
      · exact hs.imports b hb
      · exact hi.isImport
  | request turns specifier options =>
    refine ⟨hs.loader, fun b hb => ?_, fun b hb => ?_⟩
    · rcases List.mem_append.1 hb with hb | hb
      · exact hs.sound b hb
      · rw [List.mem_singleton.1 hb]
        trivial
    · rcases List.mem_append.1 hb with hb | hb
      · exact hs.imports b hb
      · rw [List.mem_singleton.1 hb]
        exact ⟨specifier, rfl⟩
  | files files =>
    obtain ⟨hl, hsound, himports⟩ := hs
    refine ⟨⟨⟨hl.sound.own, hl.sound.pending⟩, hl.resting, hl.begun, hl.filed, hl.apart⟩,
      fun a ha => (hsound a ha).mono fun id st hst => ⟨st, hst, .refl _ _⟩, himports⟩
  | configure options map =>
    obtain ⟨hl, hsound, himports⟩ := hs
    refine ⟨⟨⟨hl.sound.own, hl.sound.pending⟩, hl.resting, hl.begun, hl.filed, hl.apart⟩,
      fun a ha => (hsound a ha).mono fun id st hst => ⟨st, hst, .refl _ _⟩, himports⟩

/-- A load that moves is live. -/
theorem Live.of_underway (hs : s.Orderly) {a : Activity} (ha : a ∈ s.activities) {q : Nat}
    {n : String} (hq : q ∈ a.loads) (hu : s.loader.Underway q n) : s.Live n q := by
  refine ⟨hu.1, fun hf => ?_, a, ha, hq⟩
  have hfin := (hs.loader.filed hf).2
  rw [hu.2] at hfin
  simp at hfin

section Advance

variable {i : Nat} {a a' : Activity} {l' : Loader} (hs : s.Orderly)
  (ha : s.activities[i]? = some a) (h : Advance (a, s.loader) (a', l'))

include hs ha h

/-- A load that is live after a step was live before, or is pending. -/
theorem live_of_advance {n : String} {r : Nat}
    (hr : Live ⟨l', s.activities.set i a'⟩ n r) : s.Live n r ∨ l'.pending.get? n = some r := by
  have hm := List.mem_of_getElem? ha
  have hi := advance_imports h hs.loader (hs.sound a hm) (hs.imports a hm)
  have ht := advance_steps h hs.loader.sound (hs.sound a hm)
  have hold {b : Activity} (hb : b ∈ s.activities) (hid : r ∈ b.loads) : s.Live n r := by
    refine ⟨ht.evolves.serves_back hr.serves ((hs.sound b hb).lt hid), ?_, b, hb, hid⟩
    exact fun hf => hr.unfiled (hi.journal.subset hf)
  obtain ⟨b, hb, hid⟩ := hr.held
  rcases List.mem_or_eq_of_mem_set hb with hb | rfl
  · exact Or.inl (hold hb hid)
  · rcases hi.held r hid with hid | ⟨m, hp⟩
    · exact Or.inl (hold hm hid)
    · rw [(hi.orderly.sound.pending hp).unique hr.serves] at hp
      exact Or.inr hp

/-- Unless the step robs them, live loads stay shared. -/
theorem shared_of_advance (hsh : s.Shared)
    (hn : ∀ n r, ¬ Robs s ⟨l', s.activities.set i a'⟩ n r) :
    Shared ⟨l', s.activities.set i a'⟩ := by
  intro n r hr
  have hm := List.mem_of_getElem? ha
  have hlt := (List.getElem?_eq_some_iff.1 ha).1
  have hi := advance_imports h hs.loader (hs.sound a hm) (hs.imports a hm)
  rcases live_of_advance hs ha h hr with hlive | hp
  · have hp := hsh n r hlive
    have hone {q : Nat} (hq : q ≠ r) : ¬ s.Live n q := by
      intro hl
      have hpq := hsh n q hl
      rw [hp, Option.some.injEq] at hpq
      exact hq hpq.symm
    refine Classical.byContradiction fun hlost => hn n r ⟨hp, hlost, hr, i, a, a', ha, ?_, ?_⟩
    · simp [hlt]
    · rcases (hi.lost n r hp).resolve_left hlost with hf | hf | ⟨hf, hfin⟩ | ⟨hq, hqa, hu⟩ |
        ⟨hq, hqa, hserves, hnews⟩
      · exact absurd hf hr.serves.not_failed
      · exact absurd hf hr.unfiled
      · exact Or.inl ⟨hf, hfin⟩
      · exact absurd (.of_underway hs hm hqa hu) (hone hq)
      · rename_i q
        by_cases hold : .filed n q ∈ s.loader.world.journal
        · exact Or.inr ⟨q, hqa, hq, hold, hnews⟩
        · exact absurd ⟨hserves, hold, a, hm, hqa⟩ (hone hq)
  · exact hp

end Advance

theorem Shared.step (hsh : s.Shared) (hs : s.Orderly) (h : ImportStep s s')
    (hn : ∀ n r, ¬ Robs s s' n r) : s'.Shared := by
  cases h with
  | advance ha hadv => exact shared_of_advance hs ha hadv hsh hn
  | request turns specifier options =>
    intro n r hr
    refine hsh n r ⟨hr.serves, hr.unfiled, ?_⟩
    obtain ⟨b, hb, hid⟩ := hr.held
    rcases List.mem_append.1 hb with hb | hb
    · exact ⟨b, hb, hid⟩
    · rw [List.mem_singleton.1 hb] at hid
      exact absurd hid List.not_mem_nil
  | files | configure => exact fun n r hr => hsh n r ⟨hr.serves, hr.unfiled, hr.held⟩

/-- A load that begins was live. -/
theorem live_of_began (hs : s.Orderly) (h : ImportStep s s') {n : String} {q : Nat}
    (hb : .began n q ∈ s'.loader.world.journal) :
    .began n q ∈ s.loader.world.journal ∨ s.Live n q := by
  cases h with
  | advance ha hadv =>
    have hm := List.mem_of_getElem? ha
    have hi := advance_imports hadv hs.loader (hs.sound _ hm) (hs.imports _ hm)
    exact (hi.touches.began hb).imp_right fun hq => .of_underway hs hm hq.1 hq.2
  | request | files | configure => exact Or.inl hb

end Step

/-! ## Courses -/

theorem orderly_start {options : Options} {stages : Stages} {files : Files} {reporter : Reporter}
    {realm : Realm} {l : Loader}
    (h : Loader.build options stages files reporter realm = .ok l) : (start l).Orderly := by
  obtain ⟨hs, -, hp⟩ := sound_build h
  simp only [build, bind_eq_ok_iff, pure, Except.pure, Except.ok.injEq] at h
  obtain ⟨options, -, rfl⟩ := h
  refine ⟨⟨hs, ?_, by simp [start], by simp [start], fun _ => ?_⟩, by simp [start], by simp [start]⟩
  · intro n record hg
    simp only [start, Registry.get?_setEvaluated, Registry.get?_empty] at hg
    split at hg
    · simp only [Option.some.injEq] at hg
      subst hg
      simp [Record.evaluated]
    · simp at hg
  · rw [start, hp]
    rfl

theorem shared_start (l : Loader) : (start l).Shared := by
  rintro n r ⟨-, -, a, ha, -⟩
  simp [start] at ha

section Course

variable {l : Loader} {w : Nat → Session} (hw : Course l w)

include hw

theorem Course.orderly (hs : (start l).Orderly) (k : Nat) : (w k).Orderly := by
  induction k with
  | zero =>
    rw [hw.1]
    exact hs
  | succ k ih =>
    rcases hw.2 k with h | h
    · rw [h]
      exact ih
    · exact ih.step h

theorem Course.shared (hs : (start l).Orderly) (hn : ∀ k n r, ¬ Robs (w k) (w (k + 1)) n r)
    (k : Nat) : (w k).Shared := by
  induction k with
  | zero =>
    rw [hw.1]
    exact shared_start l
  | succ k ih =>
    rcases hw.2 k with h | h
    · rw [h]
      exact ih
    · exact ih.step (hw.orderly hs k) h (hn k)

/-- While a load is live and all live loads are shared, no other load of its name begins. -/
theorem Course.began (hs : (start l).Orderly) (hsh : ∀ k, (w k).Shared) {j k : Nat} (hjk : j ≤ k)
    {n : String} {r : Nat} (hlive : ∀ i, j ≤ i → i ≤ k → (w i).Live n r) {q : Nat}
    (hq : .began n q ∈ (w k).loader.world.journal) :
    .began n q ∈ (w j).loader.world.journal ∨ q = r := by
  induction hjk with
  | refl => exact Or.inl hq
  | @step k hjk ih =>
    have ih := ih fun i hi hik => hlive i hi (Nat.le_succ_of_le hik)
    rcases hw.2 k with h | h
    · rw [h] at hq
      exact ih hq
    · rcases live_of_began (hw.orderly hs k) h hq with hq | hq
      · exact ih hq
      · have hpr := hsh k n r (hlive k hjk (Nat.le_succ k))
        rw [hsh k n q hq, Option.some.injEq] at hpr
        exact Or.inr hpr

end Course

/-- In a course of imports each name has one load at a time, which all requests share, if and only
if no step takes a live load out of the pending table. -/
theorem one_load_iff {options : Options} {stages : Stages} {files : Files} {reporter : Reporter}
    {realm : Realm} {l : Loader}
    (hl : Loader.build options stages files reporter realm = .ok l) {w : Nat → Session}
    (hw : Course l w) : OneLoad w ↔ ∀ k n r, ¬ Robs (w k) (w (k + 1)) n r := by
  have hs := orderly_start hl
  constructor
  · intro h k n r hr
    have hj := (h (k + 1) (k + 1) n r (Nat.le_refl _) fun i hi hik =>
      Nat.le_antisymm hik hi ▸ hr.live).1 ⟨"", false, .empty⟩
    have hp := join_pending (w (k + 1)).loader n ⟨"", false, .empty⟩
    rw [hj] at hp
    exact hr.lost hp
  · intro hn j k n r hjk hlive
    have hsh := hw.shared hs hn
    refine ⟨fun metadata => join_of_pending_some ?_ metadata,
      fun q hq => hw.began hs hsh hjk hlive hq⟩
    exact hsh k n r (hlive k hjk (Nat.le_refl k))

/-! ## Courses of turns -/

theorem steps_of_advance {s : Session} {i : Nat} {c d : Activity × Loader}
    (h : ReflTransGen Advance c d) (hl : s.loader = c.2) (ha : s.activities[i]? = some c.1) :
    ReflTransGen ImportStep s ⟨d.2, s.activities.set i d.1⟩ := by
  have hlt := (List.getElem?_eq_some_iff.1 ha).1
  induction h with
  | refl =>
    have hset : s.activities.set i c.1 = s.activities := by
      rw [← (List.getElem?_eq_some_iff.1 ha).2, List.set_getElem_self]
    rw [hset, ← hl]
  | @tail d e _ he ih =>
    have hs : ImportStep ⟨d.2, s.activities.set i d.1⟩
        ⟨e.2, (s.activities.set i d.1).set i e.1⟩ :=
      .advance (by simp [hlt]) he
    rw [List.set_set] at hs
    exact ih.tail hs

/-- A turn is a row of steps. -/
theorem steps_of_turn (budget : Nat) (s : Session) (i : Nat) :
    ReflTransGen ImportStep s (s.takeTurn (budget + 1) i) := by
  cases ha : s.activities[i]? with
  | none =>
    rw [takeTurn_none ha]
  | some a =>
    rw [takeTurn_eq ha]
    exact steps_of_advance (c := (a, s.loader)) (turn_steps budget s.loader a) rfl ha

/-- Requests that are made and take turns follow a course of imports. -/
theorem steps_of_play (budget : Nat) (s : Session) {moves : List Move}
    (h : ∀ m ∈ moves, (∃ i, m = .turn i) ∨
      ∃ turns specifier options, m = .request turns ⟨.importModule specifier, options⟩) :
    ReflTransGen ImportStep s (s.play (budget + 1) moves) := by
  induction moves generalizing s with
  | nil => exact .refl
  | cons m rest ih =>
    refine ReflTransGen.trans ?_ (ih _ fun m hm => h m (List.mem_cons_of_mem _ hm))
    rcases h m List.mem_cons_self with ⟨i, rfl⟩ | ⟨turns, specifier, options, rfl⟩
    · exact steps_of_turn budget s i
    · exact .single (.request turns specifier options)

theorem exists_course {l : Loader} {s : Session} (h : ReflTransGen ImportStep (start l) s) :
    ∃ w k, Course l w ∧ w k = s := by
  suffices hc : ∃ w k, Course l w ∧ ∀ i, k ≤ i → w i = s by
    obtain ⟨w, k, hw, hs⟩ := hc
    exact ⟨w, k, hw, hs k (Nat.le_refl k)⟩
  induction h with
  | refl => exact ⟨fun _ => start l, 0, ⟨rfl, fun _ => Or.inl rfl⟩, fun _ _ => rfl⟩
  | @tail s s' _ hs ih =>
    obtain ⟨w, k, hw, hk⟩ := ih
    refine ⟨fun i => if i ≤ k then w i else s', k + 1, ⟨by simp [hw.1], fun i => ?_⟩, ?_⟩
    · rcases Nat.lt_trichotomy i k with hi | rfl | hi
      · simp only [Nat.le_of_lt hi, Nat.succ_le_of_lt hi, if_true]
        exact hw.2 i
      · simp only [Nat.le_refl, if_true, Nat.not_succ_le_self, if_false, hk i (Nat.le_refl i)]
        exact Or.inr hs
      · simp [Nat.not_le_of_lt hi, Nat.not_le_of_lt (Nat.lt_succ_of_lt hi)]
    · intro i hi
      simp [Nat.not_le_of_lt hi]

/-- Files of modules that need `c`: one of them also needs a module that is missing. -/
def sharedFiles : List (String × String) :=
  [("a.js", "import 'c'; import 'bad';"), ("b.js", "import 'c'; import 'd';"),
    ("d.js", "import 'f';"), ("f.js", ""), ("e.js", "import 'g';"), ("g.js", "import 'c';"),
    ("c.js", "")]

/-- The imports of three of those modules, which take turns. -/
def sharedMoves : List Move :=
  ["a", "b", "e"].map (fun name => .request 0 ⟨.importModule name, .none⟩) ++
    (List.range 9).map fun k => .turn (k % 3)

theorem sharedMoves_steps :
    ReflTransGen ImportStep (start (ofFiles 1 sharedFiles))
      ((start (ofFiles 1 sharedFiles)).play 9 sharedMoves) := by
  refine steps_of_play 8 _ fun m hm => ?_
  rcases List.mem_append.1 hm with hm | hm
  · obtain ⟨name, -, rfl⟩ := List.mem_map.1 hm
    exact Or.inr ⟨0, name, .none, rfl⟩
  · obtain ⟨k, -, rfl⟩ := List.mem_map.1 hm
    exact Or.inl ⟨_, rfl⟩

theorem one_load_iff_shared : ∃ w k, Course (ofFiles 1 sharedFiles) w ∧
    w k = (start (ofFiles 1 sharedFiles)).play 9 sharedMoves ∧
    (OneLoad w ↔ ∀ k n r, ¬ Robs (w k) (w (k + 1)) n r) := by
  obtain ⟨w, k, hw, hk⟩ := exists_course sharedMoves_steps
  exact ⟨w, k, hw, hk, one_load_iff (build_ofFiles 1 sharedFiles) hw⟩

/-- When the import of `a` has failed, that of `b` still holds the load of `c`, but that of `e` has
begun another. -/
theorem second_load_begins : ∃ w k, Course (ofFiles 1 sharedFiles) w ∧ ¬ OneLoad w ∧
    (w k).Live "c" 3 ∧ .began "c" 3 ∈ (w k).loader.world.journal ∧
    .began "c" 8 ∈ (w k).loader.world.journal ∧
    (w k).loader.requestCounts.get? "c.js" = some 2 := by
  obtain ⟨w, k, hw, hk⟩ := exists_course sharedMoves_steps
  have hs : Live ((start (ofFiles 1 sharedFiles)).play 9 sharedMoves) "c" 3 ∧
      .began "c" 3 ∈ ((start (ofFiles 1 sharedFiles)).play 9 sharedMoves).loader.world.journal ∧
      .began "c" 8 ∈ ((start (ofFiles 1 sharedFiles)).play 9 sharedMoves).loader.world.journal ∧
      ((start (ofFiles 1 sharedFiles)).play 9 sharedMoves).loader.requestCounts.get? "c.js" =
        some 2 ∧
      ((start (ofFiles 1 sharedFiles)).play 9 sharedMoves).loader.pending.get? "c" = some 8 := by
    decide +kernel
  rw [← hk] at hs
  obtain ⟨hlive, hb, hb', hc, hp⟩ := hs
  refine ⟨w, k, hw, fun h => ?_, hlive, hb, hb', hc⟩
  have hj := (h k k "c" 3 (Nat.le_refl k) fun i hi hik => Nat.le_antisymm hik hi ▸ hlive).1
    ⟨"", false, .empty⟩
  rw [join_of_pending_some hp] at hj
  simp at hj

end ModuleLoader.Session
