import ModuleLoader.Proofs.Loader.SmoothSteps
import ModuleLoader.Proofs.Session.Evaluations
import ModuleLoader.Proofs.Session.Redefinitions

/-! # Definitions of one name

Where no load fails and no pass over the registry is rejected, at most one definition of a name is
accepted. Its record stays, and every other definition of the name is refused and leaves no trace.
-/

namespace ModuleLoader

open Loader Relation

/-- A move that leaves the registry to the requests. -/
def Move.Leaves : Move → Prop
  | .set _ _ => False
  | .delete _ => False
  | .get _ => False
  | _ => True

/-- The error with which a load has failed. -/
def LoadState.failure? : LoadState → Option LoadError
  | .finished (.error e) => some e
  | _ => none

/-- The error with which a request was rejected. -/
def Loader.Activity.rejection? : Activity → Option LoadError
  | .settled (.error e) => some e
  | _ => none

namespace Session

/-- No load has failed, and no request was rejected by a pass over the registry. -/
structure Smooth (s : Session) : Prop where
  loads : ∀ {id : Nat} {e : LoadError}, s.loader.loads[id]? ≠ some (.finished (.error e))
  passes : ∀ {e : LoadError}, .settled (.error e) ∈ s.activities → ¬ e.EndsPass

theorem smooth_iff {s : Session} : s.Smooth ↔ (∀ st ∈ s.loader.loads, st.failure? = none) ∧
    ∀ a ∈ s.activities, ∀ e ∈ a.rejection?, ¬ e.EndsPass := by
  constructor
  · rintro ⟨hl, hp⟩
    refine ⟨fun st hst => ?_, fun a ha e he => ?_⟩
    · obtain ⟨id, hid⟩ := List.mem_iff_getElem?.1 hst
      unfold LoadState.failure?
      split
      · exact absurd hid hl
      · rfl
    · unfold Activity.rejection? at he
      split at he
      · simp only [Option.mem_def, Option.some.injEq] at he
        subst he
        exact hp ha
      · simp at he
  · rintro ⟨hl, hp⟩
    refine ⟨fun hid => ?_, fun ha => hp _ ha _ rfl⟩
    have hf := hl _ (List.mem_of_getElem? hid)
    simp [LoadState.failure?] at hf

instance (e : LoadError) : Decidable e.EndsPass := by
  unfold LoadError.EndsPass
  split <;> infer_instance

instance (s : Session) : Decidable s.Smooth := decidable_of_iff _ smooth_iff.symm

/-- No record is in the middle of its evaluation, and each name that is being defined was claimed by
one request. -/
structure Ruled (s : Session) : Prop where
  sound : s.Sound
  resting : s.Resting
  claimed : s.Claimed
  nodup : s.loader.defining.Nodup

variable {s : Session} {budget i : Nat} {n : String}

theorem Smooth.activity (h : s.Smooth) {a : Activity} (ha : a ∈ s.activities) :
    Loader.Smooth a s.loader :=
  ⟨h.loads, fun he => h.passes (he ▸ ha)⟩

/-! ## Claims -/

theorem Ruled.takeTurn (h : s.Ruled) (i : Nat) : (s.takeTurn (budget + 1) i).Ruled := by
  refine ⟨h.sound.takeTurn budget i, h.resting.takeTurn h.sound budget i,
    h.claimed.takeTurn h.sound i, ?_⟩
  cases ha : s.activities[i]? with
  | none =>
    rw [takeTurn_none ha]
    exact h.nodup
  | some a =>
    have hsound := h.sound.activities a (List.mem_of_getElem? ha)
    have hafter := Loader.Sound.turn_preserves (P := fun a l =>
        Claims ((s.activities.eraseIdx i).filterMap Activity.claim?) a l ∧ l.defining.Nodup) budget
      (fun hadv hl ha ⟨hc, hd⟩ => by
        have hc' := hc.advance hadv hl ha
        exact ⟨hc', nodup_of_claims hc hc' hadv hd⟩)
      h.sound.loader hsound ⟨h.claimed.claims ha, h.nodup⟩
    rw [takeTurn_eq ha]
    exact hafter.2

theorem Ruled.move (h : s.Ruled) {m : Move} (hm : m.Leaves) : (s.move (budget + 1) m).Ruled := by
  cases m with
  | turn i => exact h.takeTurn i
  | set | delete | get => exact hm.elim
  | _ =>
    exact ⟨h.sound.move budget _, h.resting.move h.sound budget _, h.claimed.move h.sound _,
      h.nodup⟩

/-- A name is claimed by one request. -/
theorem Ruled.unique (h : s.Ruled) {i j : Nat} {a b : Activity} (ha : s.activities[i]? = some a)
    (hb : s.activities[j]? = some b) (hna : a.claim? = some n) (hnb : b.claim? = some n) :
    i = j := by
  have hd : (s.activities.filterMap Activity.claim?).Nodup := h.claimed.nodup_iff.1 h.nodup
  rw [List.Nodup, List.pairwise_filterMap, List.pairwise_iff_getElem] at hd
  obtain ⟨hi, rfl⟩ := List.getElem?_eq_some_iff.1 ha
  obtain ⟨hj, rfl⟩ := List.getElem?_eq_some_iff.1 hb
  rcases Nat.lt_trichotomy i j with hij | hij | hij
  · exact absurd rfl (hd i j hi hj hij n hna n hnb)
  · exact hij
  · exact absurd rfl (hd j i hj hi hij n hnb n hna)

theorem Ruled.mem_defining (h : s.Ruled) {i : Nat} {a : Activity} (ha : s.activities[i]? = some a)
    (hn : a.claim? = some n) : n ∈ s.loader.defining :=
  h.claimed.mem_iff.2 (List.mem_filterMap.2 ⟨a, List.mem_of_getElem? ha, hn⟩)

/-! ## Turns -/

/-- How far the definition of a name from some units has come. -/
def PursuesAt (s : Session) (linked : LoadedUnit → Prop) (n : String) (i : Nat) : Prop :=
  ∃ a, s.activities[i]? = some a ∧ Pursues linked n a s.loader

/-- The request with a number has come to its end without an error. -/
def AcceptedAt (s : Session) (i : Nat) : Prop :=
  ∃ a, s.activities[i]? = some a ∧ a.Accepted

instance (s : Session) (i : Nat) : Decidable (s.AcceptedAt i) :=
  inferInstanceAs (Decidable (∃ a ∈ s.activities[i]?, a.Accepted))

/-- The request with a number is refused since its name is taken. -/
def RefusedAt (s : Session) (n : String) (i : Nat) : Prop :=
  s.activities[i]? = some (.settled (.error (.instantiate n .alreadyDefined)))

section Move

variable {m : Move} {p : Nat}

/-- Apart from its turns, no move touches a request. -/
theorem activities_move {a : Activity} (ha : s.activities[p]? = some a) (hm : m ≠ .turn p) :
    (s.move budget m).activities[p]? = some a := by
  cases m with
  | turn i =>
    have hip : i ≠ p := fun h => hm (h ▸ rfl)
    cases hi : s.activities[i]? with
    | none => rwa [move, takeTurn_none hi]
    | some b =>
      rw [move, takeTurn_eq hi]
      exact (List.getElem?_set_ne hip).trans ha
  | request turns request =>
    simp only [move]
    rw [List.getElem?_append_left (List.getElem?_eq_some_iff.1 ha).1, ha]
  | _ => exact ha

/-- A request that is settled stays as it is. -/
theorem settled_move {r : Except LoadError Answer} (ha : s.activities[p]? = some (.settled r)) :
    (s.move budget m).activities[p]? = some (.settled r) := by
  by_cases hm : m = .turn p
  · subst hm
    rwa [move, takeTurn_of_settled ha rfl]
  · exact activities_move ha hm

theorem Smooth.turn {a : Activity} (ha : s.activities[p]? = some a)
    (hs : (s.move budget (.turn p)).Smooth) :
    Loader.Smooth (Loader.turn budget s.loader a).1 (Loader.turn budget s.loader a).2 := by
  rw [Session.move, takeTurn_eq ha] at hs
  have hi := (List.getElem?_eq_some_iff.1 ha).1
  exact hs.activity (List.mem_of_getElem? (List.getElem?_set_self hi))

/-- All records stay in a smooth move. -/
theorem Ruled.move_stays (h : s.Ruled) (hm : m.Leaves) (hs : (s.move (budget + 1) m).Smooth) :
    s.loader.registry.Stays (s.move (budget + 1) m).loader.registry := by
  cases m with
  | set | delete | get => exact hm.elim
  | turn i =>
    cases ha : s.activities[i]? with
    | none =>
      rw [Session.move, takeTurn_none ha]
      exact .refl _
    | some a =>
      have hstays := smooth_preserves (P := fun _ m => s.loader.registry.Stays m.registry)
        (fun hadv hl ha hr hs hp => hp.trans (hs.stays hadv hl ha hr))
        (turn_steps budget s.loader a) h.sound.loader (h.sound.activities a (List.mem_of_getElem? ha)) h.resting (hs.turn ha)
        (.refl _)
      rwa [Session.move, takeTurn_eq ha]
  | _ => exact .refl _

/-- What a smooth move does to a definition that has begun. -/
theorem PursuesAt.move {linked : LoadedUnit → Prop} (h : s.PursuesAt linked n p)
    (hu : ∀ u, linked u → u.name = n) (hr : s.Ruled) (hm : m.Leaves)
    (hs : (s.move (budget + 1) m).Smooth) : (s.move (budget + 1) m).PursuesAt linked n p ∧
      (m = .turn p → ¬ (s.move (budget + 1) m).AcceptedAt p →
        Calm s.loader (s.move (budget + 1) m).loader) ∧
      (¬ s.AcceptedAt p → s.loader.registry.has n = true →
        ¬ (s.move (budget + 1) m).AcceptedAt p) := by
  obtain ⟨a, ha, hp⟩ := h
  by_cases hturn : m = .turn p
  · subst hturn
    by_cases hna : a.Accepted
    · obtain ⟨answer, rfl⟩ := hna
      rw [Session.move, takeTurn_of_settled ha rfl]
      exact ⟨⟨_, ha, hp⟩, fun _ _ => .refl _, fun hn _ => hn⟩
    · obtain ⟨hp', hcalm, hfree⟩ := hp.advances hna hu (turn_steps budget s.loader a)
        hr.sound.loader (hr.sound.activities a (List.mem_of_getElem? ha)) hr.resting (hs.turn ha)
      have hself := List.getElem?_set_self (a := (Loader.turn (budget + 1) s.loader a).1)
        (List.getElem?_eq_some_iff.1 ha).1
      rw [Session.move, takeTurn_eq ha]
      refine ⟨⟨_, hself, hp'⟩, fun _ hna' => hcalm fun hacc => hna' ⟨_, hself, hacc⟩, ?_⟩
      rintro - hhas ⟨b, hb, hacc⟩
      simp only [hself, Option.some.injEq] at hb
      subst hb
      exact hfree hhas hacc
  · have ha' : (s.move (budget + 1) m).activities[p]? = some a := activities_move ha hturn
    refine ⟨⟨a, ha', hp.stays (hr.move_stays hm hs)⟩, fun h => absurd h hturn, ?_⟩
    rintro hna - ⟨b, hb, hacc⟩
    rw [ha', Option.some.injEq] at hb
    subst hb
    exact hna ⟨a, ha, hacc⟩

/-- The turn in which a definition begins. -/
theorem Ruled.begins {given source : String} {options : RequestOptions} (hr : s.Ruled)
    (ha : s.activities[p]? = some (.delayed 0 ⟨.define given source, options⟩))
    (hn : s.loader.nameOf given options.referrer = .ok n)
    (hs : (s.move (budget + 1) (.turn p)).Smooth) :
    (s.move (budget + 1) (.turn p)).PursuesAt (s.loader.LinkedFrom n source options) n p ∧
      (¬ (s.move (budget + 1) (.turn p)).AcceptedAt p →
        Calm s.loader (s.move (budget + 1) (.turn p)).loader) ∧
      (s.loader.registry.has n = true ∨ n ∈ s.loader.defining →
        (s.move (budget + 1) (.turn p)).RefusedAt n p) := by
  have hself := List.getElem?_set_self
    (a := (Loader.turn (budget + 1) s.loader (.delayed 0 ⟨.define given source, options⟩)).1)
    (List.getElem?_eq_some_iff.1 ha).1
  have hsmooth := hs.turn ha
  rcases hstart : s.loader.start ⟨.define given source, options⟩ with ⟨b, l₁⟩
  have hturn : Loader.turn (budget + 1) s.loader (.delayed 0 ⟨.define given source, options⟩) =
      Loader.advance (budget + 1) l₁ b := by
    simp only [Loader.turn, hstart]
  have hadv := advance_advances budget l₁ b
  have ht := advance_steps (.start hstart) hr.sound.loader
    (hr.sound.activities _ (List.mem_of_getElem? ha))
  have hrest := advance_resting (.start hstart) hr.sound.loader
    (hr.sound.activities _ (List.mem_of_getElem? ha)) hr.resting
  rw [hturn] at hsmooth hself
  have hsmooth₁ := hsmooth.of_advances hadv ht.sound ht.activity
  obtain ⟨hp, hna, hcalm, hrefused⟩ := startDefine_pursues hn hstart hsmooth₁
  obtain ⟨hp', hcalm', -⟩ := hp.advances hna (fun u hu => loadInline_name hu) hadv ht.sound
    ht.activity hrest hsmooth
  rw [Session.move, takeTurn_eq ha, hturn]
  refine ⟨⟨_, hself, hp'⟩, fun hna' => ?_, fun hfree => ?_⟩
  · exact hcalm.trans (hcalm' fun hacc => hna' ⟨_, hself, hacc⟩)
  · obtain rfl := hrefused hfree
    exact hself

/-- The name is free, and no other definition has claimed it. -/
def Open (s : Session) (n : String) (p : Nat) : Prop :=
  s.loader.registry.has n = false ∧
    ∀ q b, q ≠ p → s.activities[q]? = some b → b.claim? ≠ some n

theorem RefusedAt.not_accepted (h : s.RefusedAt n p) : ¬ s.AcceptedAt p := by
  rintro ⟨b, hb, answer, rfl⟩
  rw [h] at hb
  simp at hb

/-- A definition that was on its way is accepted in a turn of its own, and its name was open. -/
theorem PursuesAt.open {linked : LoadedUnit → Prop} (h : s.PursuesAt linked n p)
    (hu : ∀ u, linked u → u.name = n) (hr : s.Ruled) (hm : m.Leaves)
    (hs : (s.move (budget + 1) m).Smooth) (hna : ¬ s.AcceptedAt p)
    (hacc : (s.move (budget + 1) m).AcceptedAt p) : m = .turn p ∧ s.Open n p := by
  obtain ⟨-, -, hfree⟩ := h.move hu hr hm hs
  obtain ⟨a, ha, hp⟩ := h
  refine ⟨?_, Bool.eq_false_iff.2 fun hhas => hfree hna hhas hacc, fun q b hq hb hc => ?_⟩
  · by_contra hne
    obtain ⟨b, hb, hbacc⟩ := hacc
    rw [activities_move ha hne, Option.some.injEq] at hb
    subst hb
    exact hna ⟨a, ha, hbacc⟩
  · rcases hp.cases with hp | rfl | hp
    · exact hna ⟨a, ha, hp⟩
    · have hrefused : (s.move (budget + 1) m).RefusedAt n p := settled_move ha
      exact hrefused.not_accepted hacc
    · exact hq (hr.unique hb ha hc hp)

/-- A definition that is accepted in the turn in which it begins has found its name open. -/
theorem Ruled.begins_open {given source : String} {options : RequestOptions} (hr : s.Ruled)
    (ha : s.activities[p]? = some (.delayed 0 ⟨.define given source, options⟩))
    (hn : s.loader.nameOf given options.referrer = .ok n)
    (hs : (s.move (budget + 1) (.turn p)).Smooth)
    (hacc : (s.move (budget + 1) (.turn p)).AcceptedAt p) : s.Open n p := by
  obtain ⟨-, -, hrefused⟩ := hr.begins ha hn hs
  have hnot : ¬ (s.loader.registry.has n = true ∨ n ∈ s.loader.defining) :=
    fun htaken => (hrefused htaken).not_accepted hacc
  rw [not_or] at hnot
  exact ⟨Bool.eq_false_iff.2 hnot.1, fun q b _ hb hc => hnot.2 (hr.mem_defining hb hc)⟩

end Move

/-! ## Runs -/

/-- The request with a number begins to define a name at a move, from a source. -/
structure DefinesFrom (budget : Nat) (l : Loader) (moves : List Move) (n : String) (p j : Nat)
    (source : String) (options : RequestOptions) : Prop where
  turn : moves[j]? = some (.turn p)
  begins : ∃ given,
    (run budget l moves j).activities[p]? = some (.delayed 0 ⟨.define given source, options⟩) ∧
      (run budget l moves j).loader.nameOf given options.referrer = .ok n

section Run

variable {l : Loader} {moves : List Move} {p q i j k : Nat} {source : String}
  {options : RequestOptions}

theorem run_move (budget : Nat) (l : Loader) (moves : List Move) (k : Nat) :
    run budget l moves (k + 1) = run budget l moves k ∨
    ∃ m, moves[k]? = some m ∧
      run budget l moves (k + 1) = (run budget l moves k).move (budget + 1) m := by
  cases h : moves[k]? with
  | none => exact Or.inl (run_stays budget moves l h)
  | some m => exact Or.inr ⟨m, rfl, run_succ budget moves l h⟩

theorem settled_run {r : Except LoadError Answer} (hjk : j ≤ k)
    (h : (run budget l moves j).activities[p]? = some (.settled r)) :
    (run budget l moves k).activities[p]? = some (.settled r) := by
  induction k, hjk using Nat.le_induction with
  | base => exact h
  | succ k _ ih =>
    rcases run_move budget l moves k with he | ⟨m, -, he⟩
    · rwa [he]
    · rw [he]
      exact settled_move ih

/-- A definition that is refused stays so. -/
theorem RefusedAt.run (h : (Session.run budget l moves j).RefusedAt n p) (hjk : j ≤ k) :
    (Session.run budget l moves k).RefusedAt n p :=
  settled_run hjk h

theorem RefusedAt.never_accepted (h : (Session.run budget l moves j).RefusedAt n p) (k : Nat) :
    ¬ (Session.run budget l moves k).AcceptedAt p := by
  rintro ⟨a, ha, answer, rfl⟩
  rcases Nat.le_total j k with hjk | hkj
  · exact (h.run hjk).not_accepted ⟨_, ha, answer, rfl⟩
  · exact h.not_accepted ⟨_, settled_run hkj ha, answer, rfl⟩

/-- A definition is not accepted before it begins. -/
theorem DefinesFrom.le (h : DefinesFrom budget l moves n p j source options)
    (hk : (run budget l moves (k + 1)).AcceptedAt p) : j ≤ k := by
  by_contra hkj
  obtain ⟨given, ha, -⟩ := h.begins
  obtain ⟨b, hb, answer, rfl⟩ := hk
  have hset := settled_run (Nat.lt_of_not_le hkj) hb
  rw [ha] at hset
  simp at hset

section Smooth

variable (hl : (start l).Ruled) (hm : ∀ m ∈ moves, m.Leaves)
  (hs : ∀ k, (run budget l moves k).Smooth)

include hl hm

theorem ruled_run (k : Nat) : (run budget l moves k).Ruled := by
  induction k with
  | zero => exact hl
  | succ k ih =>
    rcases run_move budget l moves k with he | ⟨m, hk, he⟩
    · rwa [he]
    · rw [he]
      exact ih.move (hm m (List.mem_of_getElem? hk))

include hs

theorem stays_run (hjk : j ≤ k) :
    (run budget l moves j).loader.registry.Stays (run budget l moves k).loader.registry := by
  induction k, hjk using Nat.le_induction with
  | base => exact .refl _
  | succ k _ ih =>
    have hsmooth := hs (k + 1)
    rcases run_move budget l moves k with he | ⟨m, hk, he⟩
    · rwa [he]
    · rw [he] at hsmooth ⊢
      exact ih.trans ((ruled_run hl hm k).move_stays (hm m (List.mem_of_getElem? hk)) hsmooth)

/-- A definition that has begun is accepted, refused, or on its way. -/
theorem DefinesFrom.pursues (h : DefinesFrom budget l moves n p j source options) (hjk : j < k) :
    (run budget l moves k).PursuesAt ((run budget l moves j).loader.LinkedFrom n source options)
      n p := by
  induction k, hjk using Nat.le_induction with
  | base =>
    obtain ⟨given, ha, hn⟩ := h.begins
    have hsmooth := hs (j + 1)
    rw [run_succ budget moves l h.turn] at hsmooth ⊢
    exact ((ruled_run hl hm j).begins ha hn hsmooth).1
  | succ k _ ih =>
    have hsmooth := hs (k + 1)
    rcases run_move budget l moves k with he | ⟨m, hk, he⟩
    · rwa [he]
    · rw [he] at hsmooth ⊢
      exact (ih.move (fun u hu => loadInline_name hu) (ruled_run hl hm k)
        (hm m (List.mem_of_getElem? hk)) hsmooth).1

/-- A definition is accepted in one of its turns, and its name was open until then. -/
theorem DefinesFrom.accepting (h : DefinesFrom budget l moves n p j source options)
    (hk : (run budget l moves k).AcceptedAt p) : ∃ t < k, j ≤ t ∧ moves[t]? = some (.turn p) ∧
      (run budget l moves t).Open n p ∧ (run budget l moves (t + 1)).AcceptedAt p := by
  induction k with
  | zero =>
    obtain ⟨a, ha, -⟩ := hk
    simp [run, start] at ha
  | succ k ih =>
    by_cases hna : (run budget l moves k).AcceptedAt p
    · obtain ⟨t, htk, ht⟩ := ih hna
      exact ⟨t, Nat.lt_succ_of_lt htk, ht⟩
    have hjk := h.le hk
    have hr : (run budget l moves k).Ruled := ruled_run hl hm k
    have hacc := hk
    have hsmooth := hs (k + 1)
    rcases Nat.lt_or_eq_of_le hjk with hlt | rfl
    · obtain ⟨m, hkm, he⟩ := (run_move budget l moves k).resolve_left
        fun he => hna (he ▸ hk)
      rw [he] at hsmooth hacc
      obtain ⟨rfl, hopen⟩ := (h.pursues hl hm hs hlt).open (fun u hu => loadInline_name hu) hr
        (hm m (List.mem_of_getElem? hkm)) hsmooth hna hacc
      exact ⟨k, Nat.lt_succ_self k, hjk, hkm, hopen, hk⟩
    · obtain ⟨given, ha, hn⟩ := h.begins
      rw [run_succ budget moves l h.turn] at hsmooth hacc
      exact ⟨j, Nat.lt_succ_self j, hjk, h.turn, hr.begins_open ha hn hsmooth hacc, hk⟩

/-- The record of a definition that is accepted stays. -/
theorem DefinesFrom.carries (h : DefinesFrom budget l moves n p j source options)
    (hk : (run budget l moves k).AcceptedAt p) :
    ∃ u, (run budget l moves j).loader.LinkedFrom n source options u ∧
      ∀ k' ≥ k, (run budget l moves k').loader.Carries n u := by
  obtain ⟨t, htk, hjt, -⟩ := h.accepting hl hm hs hk
  obtain ⟨a, ha, hp⟩ := h.pursues hl hm hs (Nat.lt_of_le_of_lt hjt htk)
  obtain ⟨b, hb, answer, rfl⟩ := hk
  rw [hb, Option.some.injEq] at ha
  subst ha
  obtain ⟨u, hu, hc⟩ := hp
  exact ⟨u, hu, fun k' hk' => hc.stays (stays_run hl hm hs hk')⟩

theorem DefinesFrom.has (h : DefinesFrom budget l moves n p j source options)
    (hk : (run budget l moves k).AcceptedAt p) {k' : Nat} (hk' : k ≤ k') :
    (run budget l moves k').loader.registry.has n = true := by
  obtain ⟨u, -, hc⟩ := h.carries hl hm hs hk
  exact (hc k' hk').has

/-- Of two definitions of a name only one is accepted. -/
theorem DefinesFrom.unique {i k' : Nat} {source' : String} {options' : RequestOptions}
    (h : DefinesFrom budget l moves n p j source options)
    (h' : DefinesFrom budget l moves n q i source' options')
    (hk : (run budget l moves k).AcceptedAt p) (hk' : (run budget l moves k').AcceptedAt q) :
    p = q := by
  obtain ⟨t, -, -, hturn, ⟨hfree, -⟩, hacc⟩ := h.accepting hl hm hs hk
  obtain ⟨t', -, -, hturn', ⟨hfree', -⟩, hacc'⟩ := h'.accepting hl hm hs hk'
  rcases Nat.lt_trichotomy t t' with htt | rfl | htt
  · simp [h.has hl hm hs hacc htt] at hfree'
  · simpa [hturn] using hturn'
  · simp [h'.has hl hm hs hacc' htt] at hfree

/-- Once a definition is accepted, all others of its name that have begun are refused. -/
theorem DefinesFrom.others_refused {i k' : Nat} {source' : String} {options' : RequestOptions}
    (h : DefinesFrom budget l moves n p j source options)
    (h' : DefinesFrom budget l moves n q i source' options')
    (hk : (run budget l moves k).AcceptedAt p) (hq : q ≠ p) (hkk : k ≤ k') (hik : i < k') :
    (run budget l moves k').RefusedAt n q := by
  have hnever (k : Nat) : ¬ (run budget l moves k).AcceptedAt q :=
    fun hacc => hq (h.unique hl hm hs h' hk hacc).symm
  obtain ⟨t, htk, -, hturn, ⟨hfree, hopen⟩, hacc⟩ := h.accepting hl hm hs hk
  rcases Nat.lt_trichotomy i t with hit | rfl | hti
  · -- the other definition was on its way when this one found the name open
    obtain ⟨a, ha, hp⟩ := h'.pursues hl hm hs hit
    rcases hp.cases with hp | rfl | hp
    · exact absurd ⟨a, ha, hp⟩ (hnever t)
    · exact RefusedAt.run ha (Nat.le_trans (Nat.le_of_lt htk) hkk)
    · exact absurd hp (hopen q a hq ha)
  · have hturn' := h'.turn
    rw [hturn, Option.some.injEq, Move.turn.injEq] at hturn'
    exact absurd hturn'.symm hq
  · -- the other definition has found the name taken
    obtain ⟨given, ha, hn⟩ := h'.begins
    have hsmooth := hs (i + 1)
    rw [run_succ budget moves l h'.turn] at hsmooth
    have hrefused := ((ruled_run hl hm i).begins ha hn hsmooth).2.2
      (Or.inl (h.has hl hm hs hacc hti))
    rw [← run_succ budget moves l h'.turn] at hrefused
    exact hrefused.run hik

/-- In no turn of a definition that is refused in the end is anything registered or run. -/
theorem DefinesFrom.calm (h : DefinesFrom budget l moves n p j source options)
    (hk : (run budget l moves k).RefusedAt n p) {i : Nat} (hji : j ≤ i)
    (hi : moves[i]? = some (.turn p)) :
    Calm (run budget l moves i).loader (run budget l moves (i + 1)).loader := by
  have hnever := hk.never_accepted (i + 1)
  have hsmooth := hs (i + 1)
  rw [run_succ budget moves l hi] at hnever hsmooth ⊢
  rcases Nat.lt_or_eq_of_le hji with hlt | rfl
  · exact ((h.pursues hl hm hs hlt).move (fun u hu => loadInline_name hu) (ruled_run hl hm i)
      (hm _ (List.mem_of_getElem? hi)) hsmooth).2.1 rfl hnever
  · obtain ⟨given, ha, hn⟩ := h.begins
    exact ((ruled_run hl hm j).begins ha hn hsmooth).2.1 hnever

end Smooth

theorem ruled_start {options : Options} {stages : Stages} {files : Files} {reporter : Reporter}
    {realm : Realm} (hl : Loader.build options stages files reporter realm = .ok l) :
    (start l).Ruled := by
  have hr : (start l).Reached 0 := ⟨_, _, _, _, _, _, [], hl, rfl⟩
  refine ⟨hr.sound, hr.resting, hr.claimed, ?_⟩
  rw [hr.defining (by simp [start, Quiet])]
  exact .nil

/-- In a session in which no load fails and no pass over the registry is rejected, at most one
definition of a name is accepted. From then on the record of the name is the one that was linked
from the source of this definition, and every other definition of the name that has begun is
refused. A definition that is refused is so since its name is taken, and none of its turns registers
a record or runs a body. -/
theorem first_definition_wins {options₀ : Options} {stages : Stages} {files : Files}
    {reporter : Reporter} {realm : Realm}
    (hl : Loader.build options₀ stages files reporter realm = .ok l) (budget : Nat)
    (hm : ∀ m ∈ moves, m.Leaves) (hs : ∀ k, (run budget l moves k).Smooth)
    (h : DefinesFrom budget l moves n p j source options) :
    (∀ k, (run budget l moves k).AcceptedAt p →
      (∃ u, (run budget l moves j).loader.LinkedFrom n source options u ∧
        ∀ k' ≥ k, (run budget l moves k').loader.Carries n u) ∧
      ∀ q i source' options', q ≠ p → DefinesFrom budget l moves n q i source' options' →
        (∀ k', ¬ (run budget l moves k').AcceptedAt q) ∧
        ∀ k' ≥ k, i < k' → (run budget l moves k').RefusedAt n q) ∧
    ∀ k e, (run budget l moves k).activities[p]? = some (.settled (.error e)) →
      e = .instantiate n .alreadyDefined ∧
      ∀ i ≥ j, moves[i]? = some (.turn p) →
        Calm (run budget l moves i).loader (run budget l moves (i + 1)).loader := by
  have hr := ruled_start hl
  constructor
  · intro k hk
    refine ⟨h.carries hr hm hs hk, fun q i source' options' hq h' => ⟨fun k' hk' => ?_, ?_⟩⟩
    · exact hq (h.unique hr hm hs h' hk hk').symm
    · exact fun k' hkk hik => h.others_refused hr hm hs h' hk hq hkk hik
  · intro k e he
    have hjk : j < k := by
      by_contra hkj
      obtain ⟨given, ha, -⟩ := h.begins
      rw [settled_run (Nat.le_of_not_lt hkj) he] at ha
      simp at ha
    obtain ⟨a, ha, hp⟩ := h.pursues hr hm hs hjk
    rw [he, Option.some.injEq] at ha
    subst ha
    obtain rfl := hp
    exact ⟨rfl, fun i hji hi => h.calm hr hm hs he hji hi⟩

end Run

/-! ## Racing definitions -/

/-- Files of a module and of one that a definition of the same name needs. -/
def racedFiles : List (String × String) :=
  [("m.js", "export var w = 3;"), ("v.js", "export var v = 1;")]

/-- Two definitions and an import of one name, side by side. -/
def racedMoves : List Move :=
  [.request 0 ⟨.define "m" "import {v} from 'v';\nexport var w = v;", .none⟩,
    .request 0 ⟨.define "m" "export var w = 2;", .none⟩, .request 0 ⟨.importModule "m", .none⟩,
    .turn 0, .turn 1, .turn 2, .turn 0, .turn 2]

theorem racedMoves_leaves : ∀ m ∈ racedMoves, m.Leaves := by
  simp [racedMoves, Move.Leaves]

/-- The source of the first of them. -/
def racedSource : String := "import {v} from 'v';\nexport var w = v;"

theorem racedMoves_smooth (k : Nat) : (run 8 (ofFiles 1 racedFiles) racedMoves k).Smooth := by
  have hfinal : ∀ k ≤ racedMoves.length,
      (run 8 (ofFiles 1 racedFiles) racedMoves k).Smooth := by
    decide +kernel
  rcases Nat.le_total k racedMoves.length with hk | hk
  · exact hfinal k hk
  · have hend := hfinal racedMoves.length (Nat.le_refl _)
    rw [run, List.take_length] at hend
    rwa [run, List.take_of_length_le hk]

theorem racedMoves_defines :
    DefinesFrom 8 (ofFiles 1 racedFiles) racedMoves "m" 0 3 racedSource .none ∧
      DefinesFrom 8 (ofFiles 1 racedFiles) racedMoves "m" 1 4 "export var w = 2;" .none := by
  have hname : ∀ k ≤ 4, (run 8 (ofFiles 1 racedFiles) racedMoves k).loader.nameOf "m"
      RequestOptions.none.referrer = .ok "m" := by
    simp only [← toOption_eq_some_iff]
    decide +kernel
  refine ⟨⟨rfl, "m", rfl, hname 3 (by decide)⟩, ⟨rfl, "m", ?_, hname 4 (by decide)⟩⟩
  rw [run_succ 8 racedMoves _ (m := .turn 0) rfl]
  exact activities_move rfl (by simp)

theorem first_definition_wins_raced :
    (run 8 (ofFiles 1 racedFiles) racedMoves 7).AcceptedAt 0 ∧
      (∃ u, (run 8 (ofFiles 1 racedFiles) racedMoves 3).loader.LinkedFrom "m" racedSource .none u ∧
        ∀ k ≥ 7, (run 8 (ofFiles 1 racedFiles) racedMoves k).loader.Carries "m" u) ∧
      (∀ k ≥ 7, (run 8 (ofFiles 1 racedFiles) racedMoves k).RefusedAt "m" 1) ∧
      ((run 8 (ofFiles 1 racedFiles) racedMoves 8).activities[2]?.bind fun a =>
        a.exportText? "w") = some "1" := by
  obtain ⟨h, h'⟩ := racedMoves_defines
  have hacc : (run 8 (ofFiles 1 racedFiles) racedMoves 7).AcceptedAt 0 := by
    decide +kernel
  obtain ⟨hcarries, hothers⟩ := (first_definition_wins (build_ofFiles 1 racedFiles) 8
    racedMoves_leaves racedMoves_smooth h).1 7 hacc
  refine ⟨hacc, hcarries, fun k hk => ?_, by decide +kernel⟩
  exact (hothers 1 4 _ _ (by decide) h').2 k hk (by omega)

end Session

end ModuleLoader
