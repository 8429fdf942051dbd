import ModuleLoader.Proofs.Loader.LoadSteps
import ModuleLoader.Proofs.Loader.RequestSteps

/-! # Growth

While modules are loaded, loads come to their ends and new ones join the pending table, which loses
none but those that fail. Registry, settings and realm stay as they are until a request is done.
-/

namespace ModuleLoader

namespace LoadState

/-- A load stays as it is, or it moves: then it has failed, or serves the name that it served. -/
def Becomes (id : Nat) (st st' : LoadState) : Prop :=
  st' = st ∨ st.isFinished = false ∧
    ((∃ e, st' = .finished (.error e)) ∨ ∀ n, st.Serves id n → st'.Serves id n)

theorem Becomes.refl (id : Nat) (st : LoadState) : st.Becomes id st := Or.inl rfl

theorem Becomes.trans {id : Nat} {st st' st'' : LoadState} (h : st.Becomes id st')
    (h' : st'.Becomes id st'') : st.Becomes id st'' := by
  rcases h with rfl | ⟨hs, hf⟩
  · exact h'
  · rcases h' with rfl | ⟨hs', hf'⟩
    · exact Or.inr ⟨hs, hf⟩
    · refine Or.inr ⟨hs, ?_⟩
      rcases hf with ⟨e, rfl⟩ | hf
      · simp [isFinished] at hs'
      · exact hf'.imp_right fun hf' n hn => hf' n (hf n hn)

theorem exists_serves (st : LoadState) (id : Nat) (h : st.isFinished = false) :
    ∃ n, st.Serves id n := by
  cases st with
  | created name metadata => exact ⟨name, rfl⟩
  | waiting load address turns => exact ⟨load.name, rfl⟩
  | finished r => simp [isFinished] at h

end LoadState

/-- Whether an event belongs to a load. -/
def Event.IsLoading : Event → Prop
  | .began _ _ => True
  | .asked _ => True
  | _ => False

namespace Loader

/-- A load can still serve the requests for a name. -/
def Serves (l : Loader) (id : Nat) (name : String) : Prop :=
  ∃ st, l.loads[id]? = some st ∧ st.Serves id name

instance (l : Loader) (id : Nat) (name : String) : Decidable (l.Serves id name) :=
  decidable_of_iff (∃ st ∈ l.loads[id]?, st.Serves id name) Iff.rfl

/-- A load has failed. -/
def Failed (l : Loader) (id : Nat) : Prop :=
  ∃ e, l.loads[id]? = some (.finished (.error e))

/-- A unit is what its load has come to. -/
def Arrived (l : Loader) (u : LoadedUnit) : Prop :=
  l.loads[u.body.load]? = some (.finished (.ok u))

/-- What does not change while modules are loaded. -/
def base (l : Loader) : Loader :=
  { l with world := ⟨l.world.realm, []⟩, loads := [], pending := .empty, sourceMaps := .empty }

/-- No load is lost, and each moves forward or not at all. -/
def Evolves (l l' : Loader) : Prop :=
  ∀ (id : Nat) (st : LoadState), l.loads[id]? = some st →
    ∃ st', l'.loads[id]? = some st' ∧ st.Becomes id st'

/-- Each unit that has arrived knows its load, and pending loads serve their names. -/
structure Sound (l : Loader) : Prop where
  own : ∀ {id : Nat} {u : LoadedUnit}, l.loads[id]? = some (.finished (.ok u)) → u.body.load = id
  pending : ∀ {n id}, l.pending.get? n = some id → l.Serves id n

/-- Loads have moved or were created, and nothing else has changed. -/
structure Grows (l l' : Loader) : Prop where
  base : l'.base = l.base
  loads : Evolves l l'
  kept : ∀ {n id}, l.pending.get? n = some id → l'.pending.get? n = some id ∨
    ∃ i, (l.Serves i n ∨ l.loads.length ≤ i) ∧ ¬ l.Failed i ∧ l'.Failed i
  fresh : ∀ {n id}, l'.pending.get? n = some id →
    l.pending.get? n = some id ∨ l.loads.length ≤ id
  journal : ∃ events, l'.world.journal = events ++ l.world.journal ∧ ∀ e ∈ events, e.IsLoading
  sound : l.Sound → l'.Sound

theorem Evolves.refl (l : Loader) : Evolves l l := fun _ _ h => ⟨_, h, .refl _ _⟩

theorem Evolves.trans {l l' l'' : Loader} (h : Evolves l l') (h' : Evolves l' l'') :
    Evolves l l'' := by
  intro id st hst
  obtain ⟨st', hst', hb⟩ := h id st hst
  obtain ⟨st'', hst'', hb'⟩ := h' id st' hst'
  exact ⟨st'', hst'', hb.trans hb'⟩

theorem Evolves.length_le {l l' : Loader} (h : Evolves l l') :
    l.loads.length ≤ l'.loads.length := by
  refine Nat.le_of_not_lt fun hlt => ?_
  obtain ⟨st', hst', -⟩ := h _ _ (List.getElem?_eq_getElem hlt)
  simp at hst'

theorem Evolves.finished {l l' : Loader} (h : Evolves l l') {id : Nat}
    {r : Except LoadError LoadedUnit} (hr : l.loads[id]? = some (.finished r)) :
    l'.loads[id]? = some (.finished r) := by
  obtain ⟨st', hst', rfl | ⟨hb, -⟩⟩ := h _ _ hr
  · exact hst'
  · simp [LoadState.isFinished] at hb

theorem Evolves.arrived {l l' : Loader} (h : Evolves l l') {u : LoadedUnit} (hu : l.Arrived u) :
    l'.Arrived u :=
  h.finished hu

theorem Evolves.failed {l l' : Loader} (h : Evolves l l') {id : Nat} (hf : l.Failed id) :
    l'.Failed id :=
  hf.imp fun _ he => h.finished he

theorem Evolves.serves {l l' : Loader} (h : Evolves l l') {id : Nat} {n : String}
    (hs : l.Serves id n) : l'.Serves id n ∨ l'.Failed id := by
  obtain ⟨st, hst, hn⟩ := hs
  obtain ⟨st', hst', rfl | ⟨-, ⟨e, rfl⟩ | hb⟩⟩ := h _ _ hst
  · exact Or.inl ⟨_, hst', hn⟩
  · exact Or.inr ⟨e, hst'⟩
  · exact Or.inl ⟨_, hst', hb n hn⟩

theorem Evolves.serves_back {l l' : Loader} (h : Evolves l l') {id : Nat} {n : String}
    (hs : l'.Serves id n) (hl : id < l.loads.length) : l.Serves id n := by
  obtain ⟨st', hst', hn⟩ := hs
  have hst := List.getElem?_eq_getElem hl
  generalize l.loads[id] = st at hst
  obtain ⟨s, hs, rfl | ⟨hf, ⟨e, rfl⟩ | hb⟩⟩ := h _ _ hst <;>
    rw [hst', Option.some.injEq] at hs <;> subst hs
  · exact ⟨_, hst, hn⟩
  · exact hn.elim
  · obtain ⟨m, hm⟩ := st.exists_serves id hf
    exact ⟨st, hst, (hb m hm).unique hn ▸ hm⟩

theorem Serves.unique {l : Loader} {id : Nat} {n n' : String} (h : l.Serves id n)
    (h' : l.Serves id n') : n = n' := by
  obtain ⟨st, hst, hn⟩ := h
  obtain ⟨st', hst', hn'⟩ := h'
  rw [hst, Option.some.injEq] at hst'
  exact hn.unique (hst' ▸ hn')

theorem Serves.not_failed {l : Loader} {id : Nat} {n : String} (h : l.Serves id n) :
    ¬ l.Failed id := by
  rintro ⟨e, he⟩
  obtain ⟨st, hst, hn⟩ := h
  rw [he, Option.some.injEq] at hst
  exact (hst ▸ hn : LoadState.Serves id n (.finished (.error e)))

theorem Serves.lt {l : Loader} {id : Nat} {n : String} (h : l.Serves id n) :
    id < l.loads.length := by
  obtain ⟨st, hst, -⟩ := h
  exact (List.getElem?_eq_some_iff.1 hst).1

theorem Grows.refl (l : Loader) : Grows l l :=
  ⟨rfl, .refl l, Or.inl, Or.inl, ⟨[], rfl, by simp⟩, id⟩

theorem Grows.trans {l l' l'' : Loader} (h : Grows l l') (h' : Grows l' l'') : Grows l l'' := by
  constructor
  · exact h'.base.trans h.base
  · exact h.loads.trans h'.loads
  · intro n id hp
    rcases h.kept hp with hp | ⟨i, hi, hl, hf⟩
    · refine (h'.kept hp).imp_right ?_
      rintro ⟨i, hi, hl, hf⟩
      refine ⟨i, ?_, fun hf => hl (h.loads.failed hf), hf⟩
      rcases Nat.lt_or_ge i l.loads.length with hlt | hge
      · rcases hi with hi | hi
        · exact Or.inl (h.loads.serves_back hi hlt)
        · exact absurd (Nat.le_trans h.loads.length_le hi) (Nat.not_le_of_lt hlt)
      · exact Or.inr hge
    · exact Or.inr ⟨i, hi, hl, h'.loads.failed hf⟩
  · intro n id hp
    rcases h'.fresh hp with hp | hl
    · exact h.fresh hp
    · exact Or.inr (Nat.le_trans h.loads.length_le hl)
  · obtain ⟨events, he, hl⟩ := h.journal
    obtain ⟨events', he', hl'⟩ := h'.journal
    refine ⟨events' ++ events, by rw [he', he, List.append_assoc], ?_⟩
    intro e hm
    rcases List.mem_append.1 hm with hm | hm
    · exact hl' e hm
    · exact hl e hm
  · exact fun hs => h'.sound (h.sound hs)

section Fields

variable {l l' : Loader} (h : Grows l l')

include h

theorem Grows.registry : l'.registry = l.registry := by
  have hb := congrArg Loader.registry h.base
  exact hb

theorem Grows.realm : l'.world.realm = l.world.realm := by
  have hb := congrArg (fun l : Loader => l.world.realm) h.base
  exact hb

theorem Grows.defining : l'.defining = l.defining := by
  have hb := congrArg Loader.defining h.base
  exact hb

theorem Grows.files : l'.files = l.files := by
  have hb := congrArg Loader.files h.base
  exact hb

theorem Grows.alike : Alike l l' := by
  have ho := congrArg Loader.options h.base
  have hm := congrArg Loader.map h.base
  have hs := congrArg Loader.stages h.base
  exact ⟨ho, hm, hs, congrArg Files.text h.files⟩

end Fields

theorem announces_isLoading (l : Loader) (id : Nat) (st : LoadState) :
    ∀ e ∈ l.announces id st, e.IsLoading := by
  intro e he
  cases st with
  | created name metadata =>
    simp only [announces] at he
    split at he
    · simp only [List.mem_cons, List.not_mem_nil, or_false] at he
      rcases he with rfl | rfl <;> trivial
    · simp only [List.mem_cons, List.not_mem_nil, or_false] at he
      subst he
      trivial
  | _ => simp [announces] at he

theorem get?_setLoad {l : Loader} {id : Nat} {st : LoadState} (h : l.loads[id]? = some st)
    (st' : LoadState) (i : Nat) :
    (l.setLoad id st').loads[i]? = if i = id then some st' else l.loads[i]? := by
  have hl := (List.getElem?_eq_some_iff.1 h).1
  by_cases hi : i = id
  · subst hi
    simp [setLoad, hl]
  · simp [setLoad, hi, List.getElem?_set_ne (Ne.symm hi)]

section SetLoad

variable {l : Loader} {id : Nat} {st st' : LoadState} {name : String}
  (h : l.loads[id]? = some st)

include h

theorem evolves_setLoad (hb : st.Becomes id st') : Evolves l (l.setLoad id st') := by
  intro i s hs
  rw [get?_setLoad h]
  split
  · rename_i hi
    subst hi
    rw [h, Option.some.injEq] at hs
    subst hs
    exact ⟨st', rfl, hb⟩
  · exact ⟨s, hs, .refl _ _⟩

theorem sound_setLoad (hn : st.Serves id name) (hn' : st'.Serves id name) (hl : l.Sound) :
    (l.setLoad id st').Sound := by
  constructor
  · intro i u hu
    rw [get?_setLoad h] at hu
    split at hu
    · rename_i hi
      simp only [Option.some.injEq] at hu
      subst hu
      exact hn'.2.trans hi.symm
    · exact hl.own hu
  · intro n i hp
    obtain ⟨s, hs, hsn⟩ := hl.pending hp
    by_cases hi : i = id
    · subst hi
      rw [h, Option.some.injEq] at hs
      subst hs
      exact ⟨st', by rw [get?_setLoad h, if_pos rfl], hsn.unique hn ▸ hn'⟩
    · exact ⟨s, by rw [get?_setLoad h, if_neg hi, hs], hsn⟩

theorem setLoad_grows (hf : st.isFinished = false) (hn : st.Serves id name)
    (hn' : st'.Serves id name) : Grows l (l.setLoad id st') := by
  have hb : st.Becomes id st' := Or.inr ⟨hf, Or.inr fun n hs => hs.unique hn ▸ hn'⟩
  exact ⟨rfl, evolves_setLoad h hb, Or.inl, Or.inl, ⟨[], rfl, by simp⟩, sound_setLoad h hn hn'⟩

theorem sound_finish_error (hn : st.Serves id name) (e : LoadError) (hl : l.Sound) :
    (l.finish id name (.error e)).Sound := by
  constructor
  · intro i u hu
    simp only [finish] at hu
    rw [get?_setLoad h] at hu
    split at hu
    · simp at hu
    · exact hl.own hu
  · intro n i hp
    simp only [finish, setLoad, Dict.get?_erase] at hp
    split at hp
    · simp at hp
    · rename_i hne
      obtain ⟨s, hs, hsn⟩ := hl.pending hp
      refine ⟨s, ?_, hsn⟩
      simp only [finish]
      rw [get?_setLoad h, if_neg ?_, hs]
      rintro rfl
      rw [h, Option.some.injEq] at hs
      exact hne (hsn.unique (hs ▸ hn))

theorem fail_grows (hf : st.isFinished = false) (hn : st.Serves id name) (e : LoadError) :
    Grows l (l.finish id name (.error e)) := by
  refine ⟨rfl, evolves_setLoad h (Or.inr ⟨hf, Or.inl ⟨e, rfl⟩⟩), ?_, ?_, ⟨[], rfl, by simp⟩,
    sound_finish_error h hn e⟩
  · intro n i hp
    simp only [finish, setLoad, Dict.get?_erase]
    split
    · rename_i hne
      subst hne
      refine Or.inr ⟨id, Or.inl ⟨st, h, hn⟩, ?_, e, ?_⟩
      · exact Serves.not_failed ⟨st, h, hn⟩
      · simp [(List.getElem?_eq_some_iff.1 h).1]
    · exact Or.inl hp
  · intro n i hp
    simp only [finish, setLoad, Dict.get?_erase] at hp
    split at hp
    · simp at hp
    · exact Or.inl hp

theorem finish_grows {r : Except LoadError LoadedUnit} (hf : st.isFinished = false)
    (hn : st.Serves id name) (hr : ∀ u, r = .ok u → u.name = name ∧ u.body.load = id) :
    Grows l (l.finish id name r) := by
  cases r with
  | ok u => exact setLoad_grows h hf hn (hr u rfl)
  | error e => exact fail_grows h hf hn e

end SetLoad

theorem announced_grows (l : Loader) (id : Nat) (st : LoadState) (maps : SourceMap.Index) :
    Grows l (l.announced id st maps) :=
  ⟨rfl, .refl l, Or.inl, Or.inl, ⟨_, rfl, announces_isLoading l id st⟩, fun h => ⟨h.1, h.2⟩⟩

theorem answered_ok {l : Loader} {id : Nat} {load : Load} {address : String} {u : LoadedUnit}
    (h : l.answered id load address = .ok u) : u.name = load.name ∧ u.body.load = id := by
  rw [answered] at h
  split at h
  · simp at h
  · exact linkSource_ok h

theorem outcome_ok {l : Loader} {id : Nat} {st : LoadState} {name : String} {u : LoadedUnit}
    (hn : st.Serves id name) (h : l.outcome id st = .ok u) :
    u.name = name ∧ u.body.load = id := by
  cases st with
  | created other metadata =>
    simp only [outcome] at h
    split at h
    · simp at h
    · rename_i load text hp
      have hs := linkSource_ok h
      rw [Stages.prepare_name hp] at hs
      exact ⟨hs.1.trans hn, hs.2⟩
    · rename_i load address hp
      have hs := answered_ok h
      rw [Stages.prepare_name hp] at hs
      exact ⟨hs.1.trans hn, hs.2⟩
  | waiting load address turns =>
    have hs := answered_ok h
    exact ⟨hs.1.trans hn, hs.2⟩
  | finished r =>
    simp only [outcome] at h
    subst h
    exact hn

theorem Moved.grows {l l' : Loader} {id : Nat} {r : Option (Except LoadError LoadedUnit)}
    (h : Moved l id (r, l')) : Grows l l' := by
  generalize hc : (r, l') = c at h
  cases h with
  | absent | known =>
    simp only [Prod.mk.injEq] at hc
    rw [hc.2]
    exact .refl l
  | begins hs hp hl =>
    simp only [Prod.mk.injEq] at hc
    rw [hc.2]
    exact (announced_grows _ _ _ _).trans (setLoad_grows hs rfl rfl (Stages.prepare_name hp))
  | waits hs =>
    simp only [Prod.mk.injEq] at hc
    rw [hc.2]
    exact setLoad_grows hs rfl rfl rfl
  | ends hs hf hn =>
    simp only [Prod.mk.injEq] at hc
    rw [hc.2]
    refine (announced_grows _ _ _ _).trans (finish_grows ?_ hf hn fun u hu => outcome_ok hn hu)
    exact hs

theorem move_grows (l : Loader) (id : Nat) : Grows l (l.move id).2 := (move_moved l id).grows

/-! ## Joining loads -/

/-- A load starts from scratch, with the metadata of the request that needs it. -/
theorem join_of_pending_none {l : Loader} {n : String} (h : l.pending.get? n = none)
    (metadata : Metadata) : (l.join n metadata).1 = l.loads.length ∧
      (l.join n metadata).2.loads = l.loads ++ [.created n metadata] := by
  rw [join]
  simp [h]

/-- A load is joined with the metadata of the request that created it. -/
theorem join_of_pending_some {l : Loader} {n : String} {id : Nat}
    (h : l.pending.get? n = some id) (metadata : Metadata) : l.join n metadata = (id, l) := by
  rw [join]
  simp [h]

theorem join_grows (l : Loader) (name : String) (metadata : Metadata) :
    Grows l (l.join name metadata).2 := by
  rw [join]
  split
  · exact .refl l
  · rename_i hp
    have hold {id : Nat} {st : LoadState} (hst : l.loads[id]? = some st) :
        (l.loads ++ [.created name metadata])[id]? = some st := by
      rw [List.getElem?_append_left (List.getElem?_eq_some_iff.1 hst).1, hst]
    refine ⟨rfl, ?_, ?_, ?_, ⟨[], rfl, by simp⟩, ?_⟩
    · exact fun id st hst => ⟨st, hold hst, .refl _ _⟩
    · intro n id hn
      refine Or.inl ?_
      rw [Dict.get?_insert_of_ne _ _ ?_]
      · exact hn
      · rintro rfl
        rw [hp] at hn
        simp at hn
    · intro n id hn
      simp only [Dict.get?_insert] at hn
      split at hn
      · simp only [Option.some.injEq] at hn
        exact Or.inr (Nat.le_of_eq hn)
      · exact Or.inl hn
    · intro hl
      constructor
      · intro id u hu
        rcases getElem?_concat_eq_some_iff.1 hu with hu | ⟨-, hu⟩
        · exact hl.own hu
        · cases hu
      · intro n id hn
        simp only [Dict.get?_insert] at hn
        split at hn
        · rename_i hne
          simp only [Option.some.injEq] at hn
          subst hn
          exact ⟨.created name metadata, by simp, hne.symm⟩
        · obtain ⟨st, hst, hs⟩ := hl.pending hn
          exact ⟨st, hold hst, hs⟩

/-- One loader comes from another by joining loads, all with the same metadata. -/
def Joins (metadata : Metadata) : Loader → Loader → Prop :=
  Relation.ReflTransGen fun l l' => ∃ name, l' = (l.join name metadata).2

theorem Joins.preserves {metadata : Metadata} {l l' : Loader} {P : Loader → Prop}
    (h : Joins metadata l l') (hp : ∀ {l : Loader} (name : String), P l → P (l.join name metadata).2)
    (hl : P l) : P l' := by
  induction h with
  | refl => exact hl
  | tail _ hj ih =>
    obtain ⟨name, rfl⟩ := hj
    exact hp name ih

theorem wantAll_joins (metadata : Metadata) (l : Loader) (seen : List String)
    (dependencies : List Dependency) :
    Joins metadata l (wantAll metadata l seen dependencies).2.2 := by
  fun_induction wantAll metadata l seen dependencies with
  | case1 => exact .refl
  | case2 l seen d rest hs ih => exact ih
  | case3 l seen d rest hs id l₁ hj ids seen' l₂ hw ih =>
    rw [hw] at ih
    exact .head ⟨d.name, by rw [hj]⟩ ih

theorem joinAll_joins (metadata : Metadata) (l : Loader) (names : List String) :
    Joins metadata l (joinAll metadata l names).2 := by
  fun_induction joinAll metadata l names with
  | case1 => exact .refl
  | case2 l name rest id l₁ hj branches l₂ hr ih =>
    rw [hr] at ih
    exact .head ⟨name, by rw [hj]⟩ ih

theorem joinAll_roots (metadata : Metadata) (l : Loader) (names : List String) {branch : Branch}
    (h : branch ∈ (joinAll metadata l names).1) : ∃ id, branch = .root id := by
  induction names generalizing l with
  | nil => cases h
  | cons name rest ih =>
    rcases List.mem_cons.1 h with rfl | h
    · exact ⟨_, rfl⟩
    · exact ih _ h

theorem Joins.grows {metadata : Metadata} {l l' : Loader} (h : Joins metadata l l') : Grows l l' :=
  h.preserves (P := Grows l) (fun name hg => hg.trans (join_grows _ name metadata)) (.refl l)

theorem joinAll_grows (metadata : Metadata) (l : Loader) (names : List String) :
    Grows l (joinAll metadata l names).2 :=
  (joinAll_joins metadata l names).grows

end Loader

end ModuleLoader
