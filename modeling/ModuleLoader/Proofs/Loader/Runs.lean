import ModuleLoader.Proofs.Loader.Deeds

/-! # Runs of bodies

A body waits in a record only if it has not run since its unit was filed, and a module whose body
has run well keeps its namespace. So a body runs again only after a failure, if its unit is filed
once more.
-/

namespace ModuleLoader

open Relation

/-! ## Journals -/

/-- A unit was filed under a name, and its body has not run since. -/
def Unrun (journal : List Event) (n : String) (id : Nat) : Prop :=
  ∃ newer older, journal = newer ++ .filed n id :: older ∧ ∀ ok, .ran id ok ∉ newer

/-- No unit of a load was filed, and no body of it has run. -/
def Untouched (journal : List Event) (id : Nat) : Prop :=
  (∀ n, .filed n id ∉ journal) ∧ ∀ ok, .ran id ok ∉ journal

/-- A body runs again only if its unit was filed once more after a failure. -/
def Tidy : List Event → Prop
  | [] => True
  | e :: older => (∀ id ok ok', e = .ran id ok → .ran id ok' ∈ older →
      ∃ n, [.filed n id, .ran id false].Sublist older) ∧ Tidy older

/-- The loads whose bodies have run, as often as they have. -/
def executed (journal : List Event) : List Nat := (journal.filterMap Event.ran?).map (·.1)

theorem mem_executed {journal : List Event} {id : Nat} :
    id ∈ executed journal ↔ ∃ ok, .ran id ok ∈ journal := by
  unfold executed
  constructor
  · intro h
    obtain ⟨⟨i, ok⟩, hm, rfl⟩ := List.mem_map.1 h
    obtain ⟨e, he, hr⟩ := List.mem_filterMap.1 hm
    cases e <;> simp only [Event.ran?, reduceCtorEq, Option.some.injEq, Prod.mk.injEq] at hr
    obtain ⟨rfl, rfl⟩ := hr
    exact ⟨_, he⟩
  · rintro ⟨ok, h⟩
    exact List.mem_map.2 ⟨(id, ok), List.mem_filterMap.2 ⟨_, h, rfl⟩, rfl⟩

/-- In a tidy journal every body has run at most once, unless a unit was filed again after the
failure of its body and then ran again. -/
theorem nodup_executed_iff {journal : List Event} (h : Tidy journal) :
    (executed journal).Nodup ↔
      ∀ n id ok, ¬ [.ran id ok, .filed n id, .ran id false].Sublist journal := by
  constructor
  · rintro hd n id ok hs
    have hm := ((hs.filterMap Event.ran?).map Prod.fst).nodup hd
    simp [Event.ran?] at hm
  · intro hn
    induction journal with
    | nil => exact List.nodup_nil
    | cons e older ih =>
      have hold : (executed older).Nodup :=
        ih h.2 fun n id ok hs => hn n id ok (hs.trans (List.sublist_cons_self _ _))
      cases e with
      | ran id ok =>
        refine List.nodup_cons.2 ⟨fun hm => ?_, hold⟩
        obtain ⟨ok', hr⟩ := mem_executed.1 hm
        obtain ⟨n, hs⟩ := h.1 id ok ok' rfl hr
        exact hn n id ok (hs.cons_cons _)
      | _ => exact hold

section Unrun

variable {journal : List Event} {n : String} {id : Nat}

theorem Unrun.mem (h : Unrun journal n id) : .filed n id ∈ journal := by
  obtain ⟨newer, older, rfl, -⟩ := h
  simp

theorem Unrun.cons (h : Unrun journal n id) {e : Event} (he : ∀ ok, e ≠ .ran id ok) :
    Unrun (e :: journal) n id := by
  obtain ⟨newer, older, rfl, hr⟩ := h
  refine ⟨e :: newer, older, rfl, fun ok hm => ?_⟩
  rcases List.mem_cons.1 hm with rfl | hm
  · exact he ok rfl
  · exact hr ok hm

/-- What has run before its unit was filed is older than that. -/
theorem Unrun.sublist (h : Unrun journal n id) {ok : Bool} (hr : .ran id ok ∈ journal) :
    [.filed n id, .ran id ok].Sublist journal := by
  obtain ⟨newer, older, rfl, hn⟩ := h
  have hm : .ran id ok ∈ older := by
    rcases List.mem_append.1 hr with hm | hm
    · exact absurd hm (hn ok)
    · exact (List.mem_cons.1 hm).resolve_left (by simp)
  exact ((List.singleton_sublist.2 hm).cons_cons _).trans (List.sublist_append_right _ _)

end Unrun

theorem Untouched.cons {journal : List Event} {id : Nat} (h : Untouched journal id) {e : Event}
    (hf : ∀ n, e ≠ .filed n id) (hr : ∀ ok, e ≠ .ran id ok) : Untouched (e :: journal) id := by
  constructor
  · intro n hm
    rcases List.mem_cons.1 hm with he | hm
    · exact hf n he.symm
    · exact h.1 n hm
  · intro ok hm
    rcases List.mem_cons.1 hm with he | hm
    · exact hr ok he.symm
    · exact h.2 ok hm

theorem Untouched.append {journal events : List Event} {id : Nat} (h : Untouched journal id)
    (he : ∀ e ∈ events, e.IsLoading) : Untouched (events ++ journal) id := by
  induction events with
  | nil => exact h
  | cons e rest ih =>
    have hl := he e List.mem_cons_self
    apply (ih fun e' he' => he e' (List.mem_cons_of_mem _ he')).cons
    · rintro n rfl
      exact hl
    · rintro ok rfl
      exact hl

/-! ## Faithful books -/

/-- Books that tell the truth about the runs of bodies. Units of loads have names, and some loads
are spent: no unit of theirs will be filed any more. -/
structure Books.Faithful (named : Nat → String → Prop) (spent : Nat → Prop) (b : Books) :
    Prop where
  filed : ∀ {n id}, .filed n id ∈ b.journal → named id n
  waits : ∀ {n body}, b.registry.body? n = some body → Unrun b.journal n body.load
  ended : ∀ {n id}, .filed n id ∈ b.journal → .ran id true ∈ b.journal → b.registry.known n ≠ none
  origin : ∀ {id ok}, .ran id ok ∈ b.journal → (∃ n, .filed n id ∈ b.journal) ∨ spent id
  tidy : Tidy b.journal

section Faithful

variable {named named' : Nat → String → Prop} {spent spent' : Nat → Prop} {b b' : Books}
  {units : List LoadedUnit} {n : String} {id : Nat} {body : Body}

theorem Books.Faithful.mono (h : b.Faithful named spent) (hn : ∀ {id n}, named id n → named' id n)
    (hs : ∀ {id}, spent id → spent' id) : b.Faithful named' spent' :=
  ⟨fun hf => hn (h.filed hf), h.waits, h.ended, fun hr => (h.origin hr).imp_right hs, h.tidy⟩

/-- The body of a record that waits has run before only if it failed, and its unit was filed since
then. -/
theorem Books.Faithful.again (h : b.Faithful named spent) (hb : b.registry.body? n = some body)
    {ok : Bool} (hr : .ran body.load ok ∈ b.journal) :
    [.filed n body.load, .ran body.load false].Sublist b.journal := by
  have hu := h.waits hb
  cases ok with
  | true => exact absurd (Registry.known_of_body? hb) (h.ended hu.mem hr)
  | false => exact hu.sublist hr

/-- Whatever happens next, a body that has run was filed or is spent. -/
theorem Books.Faithful.origin_cons (h : b.Faithful named spent) {ok : Bool}
    (hr : .ran id ok ∈ b.journal) (e : Event) :
    (∃ n, .filed n id ∈ e :: b.journal) ∨ spent id := by
  rcases h.origin hr with ⟨n, hf⟩ | hs
  · exact Or.inl ⟨n, List.mem_cons_of_mem _ hf⟩
  · exact Or.inr hs

/-- After an event that is neither a filing nor a run nothing is to be shown but what happened to
the records. -/
theorem Books.Faithful.of_event (h : b.Faithful named spent) {r : Registry Body} {e : Event}
    (hf : ∀ n id, e ≠ .filed n id) (hr : ∀ id ok, e ≠ .ran id ok) (hreg : r = b.registry) :
    Books.Faithful named spent ⟨r, e :: b.journal⟩ := by
  subst hreg
  have hmem {e' : Event} (he : e' ∈ e :: b.journal) (hne : e ≠ e') : e' ∈ b.journal :=
    (List.mem_cons.1 he).resolve_left fun h => hne h.symm
  constructor
  · exact fun he => h.filed (hmem he (hf _ _))
  · exact fun hb => (h.waits hb).cons (hr _)
  · exact fun he he' => h.ended (hmem he (hf _ _)) (hmem he' (hr _ _))
  · exact fun he => h.origin_cons (hmem he (hr _ _)) e
  · exact ⟨fun id ok _ he => absurd he (hr id ok), h.tidy⟩

/-- Records without namespaces may be dropped. -/
theorem Books.Faithful.delete (h : b.Faithful named spent) (hk : b.registry.known n = none) :
    Books.Faithful named spent ⟨b.registry.delete n, b.journal⟩ := by
  refine ⟨h.filed, ?_, ?_, h.origin, h.tidy⟩
  · intro m body hb
    rw [Registry.body?_delete] at hb
    split at hb
    · simp at hb
    · exact h.waits hb
  · intro m id hf hr
    have hm := h.ended hf hr
    have hne : m ≠ n := by
      rintro rfl
      exact hm hk
    rwa [Registry.known_delete_ne hne]

theorem Books.Faithful.files (h : b.Faithful named spent)
    (hfun : ∀ {id n n'}, named id n → named id n' → n = n') {u : LoadedUnit}
    (hu : named u.body.load u.name) (hs : ¬ spent u.body.load)
    (hg : b.registry.get? u.name = none) : Books.Faithful named spent
      ⟨b.registry.commit u.name u.record, .filed u.name u.body.load :: b.journal⟩ := by
  have hran {id : Nat} {ok : Bool} (hr : .ran id ok ∈ Event.filed u.name u.body.load :: b.journal) :
      .ran id ok ∈ b.journal :=
    (List.mem_cons.1 hr).resolve_left (by simp)
  constructor
  · intro n id hf
    rcases List.mem_cons.1 hf with he | hf
    · cases he
      exact hu
    · exact h.filed hf
  · intro n body hb
    by_cases hn : n = u.name
    · subst hn
      simp only [Registry.body?, Registry.get?_commit_self hg, LoadedUnit.record, Record.waiting,
        Option.bind_some, Record.body?, Option.some.injEq] at hb
      subst hb
      exact ⟨[], b.journal, rfl, by simp⟩
    · simp only [Registry.body?, Registry.get?_commit_ne hn] at hb
      exact (h.waits hb).cons (by simp)
  · intro n id hf hr
    replace hr := hran hr
    have hk : ∀ {m}, .filed m id ∈ b.journal → m ≠ u.name := by
      rintro m hm rfl
      exact h.ended hm hr (Registry.known_of_get?_none hg)
    rcases List.mem_cons.1 hf with he | hf
    · -- the unit has run well before, but then its name would not be free
      cases he
      rcases h.origin hr with ⟨m, hm⟩ | hs'
      · exact absurd (hfun (h.filed hm) hu) (hk hm)
      · exact absurd hs' hs
    · simp only [Registry.known, Registry.get?_commit_ne (hk hf)]
      exact h.ended hf hr
  · exact fun hr => h.origin_cons (hran hr) _
  · exact ⟨by simp, h.tidy⟩

/-- A body runs, and its record waits no more. -/
theorem Books.Faithful.ran (h : b.Faithful named spent)
    (hfun : ∀ {id n n'}, named id n → named id n' → n = n') (hb : b.registry.body? n = some body)
    {r : Registry Body} {ok : Bool}
    (hr : ∀ m, r.body? m = if m = n then none else b.registry.body? m)
    (hk : ∀ m ≠ n, r.known m = b.registry.known m) (hn : ok = true → r.known n ≠ none) :
    Books.Faithful named spent ⟨r, .ran body.load ok :: b.journal⟩ := by
  have hfiled {m : String} {id : Nat} (hf : .filed m id ∈ Event.ran body.load ok :: b.journal) :
      .filed m id ∈ b.journal :=
    (List.mem_cons.1 hf).resolve_left (by simp)
  have hload : named body.load n := h.filed (h.waits hb).mem
  constructor
  · exact fun hf => h.filed (hfiled hf)
  · intro m body' hb'
    simp only [hr] at hb'
    split at hb'
    · simp at hb'
    · rename_i hm
      have hu := h.waits hb'
      refine hu.cons fun ok' he => hm ?_
      rw [Event.ran.injEq] at he
      exact hfun (h.filed hu.mem) (he.1 ▸ hload)
  · intro m id hf hran
    replace hf := hfiled hf
    by_cases hm : m = n
    · subst hm
      rcases List.mem_cons.1 hran with he | hran
      · cases he
        exact hn rfl
      · exact absurd (Registry.known_of_body? hb) (h.ended hf hran)
    · simp only [hk m hm]
      rcases List.mem_cons.1 hran with he | hran
      · cases he
        exact absurd (hfun (h.filed hf) hload) hm
      · exact h.ended hf hran
  · intro id ok' hran
    rcases List.mem_cons.1 hran with he | hran
    · cases he
      exact Or.inl ⟨n, List.mem_cons_of_mem _ (h.waits hb).mem⟩
    · exact h.origin_cons hran _
  · constructor
    · rintro id _ ok' ⟨⟩ hran
      exact ⟨n, h.again hb hran⟩
    · exact h.tidy

/-- Every deed leaves the books faithful. -/
theorem Books.Faithful.deed (h : b.Faithful named spent)
    (hfun : ∀ {id n n'}, named id n → named id n' → n = n')
    (hu : ∀ u ∈ units, named u.body.load u.name ∧ ¬ spent u.body.load) (hd : Deed units b b') :
    b'.Faithful named spent := by
  cases hd with
  | @loads e he =>
    apply h.of_event _ _ rfl
    · rintro n id rfl
      exact he
    · rintro id ok rfl
      exact he
  | files hm hg => exact h.files hfun (hu _ hm).1 (hu _ hm).2 hg
  | @runs n body ns hb =>
    refine h.ran hfun hb Registry.body?_setSlot (fun m => Registry.known_setSlot_ne) fun _ => ?_
    obtain ⟨record, hg, -⟩ := Option.bind_eq_some_iff.1 hb
    simp [Registry.known_setSlot hg]
  | fails hb =>
    refine h.ran hfun hb Registry.body?_delete (fun m => Registry.known_delete_ne) ?_
    simp
  | drops hk => exact h.delete hk

/-- A body that is not registered runs for the first time. -/
theorem Books.Faithful.detached (h : b.Faithful named spent) (hu : Untouched b.journal id)
    (hs : spent id) (ok : Bool) :
    Books.Faithful named spent ⟨b.registry, .ran id ok :: b.journal⟩ := by
  have hfiled {m : String} {i : Nat} (hf : .filed m i ∈ Event.ran id ok :: b.journal) :
      .filed m i ∈ b.journal :=
    (List.mem_cons.1 hf).resolve_left (by simp)
  have hne {m : String} {i : Nat} (hf : .filed m i ∈ b.journal) (ok' : Bool) :
      Event.ran id ok ≠ .ran i ok' := by
    intro he
    cases he
    exact hu.1 m hf
  constructor
  · exact fun hf => h.filed (hfiled hf)
  · intro n body hb
    have hw := h.waits hb
    exact hw.cons (hne hw.mem)
  · intro n i hf hr
    replace hf := hfiled hf
    exact h.ended hf ((List.mem_cons.1 hr).resolve_left fun he => hne hf _ he.symm)
  · intro i ok' hr
    rcases List.mem_cons.1 hr with he | hr
    · cases he
      exact Or.inr hs
    · exact h.origin_cons hr _
  · constructor
    · rintro i _ ok' ⟨⟩ hr
      exact absurd hr (hu.2 ok')
    · exact h.tidy

/-! ## What deeds keep -/

/-- A namespace is kept for good. -/
theorem Deed.known (hd : Deed units b b') {ns : Namespace} (hk : b.registry.known n = some ns) :
    b'.registry.known n = some ns := by
  have hne {m : String} (hm : b.registry.known m = none) : n ≠ m := by
    rintro rfl
    simp [hm] at hk
  cases hd with
  | loads => exact hk
  | files _ hg =>
    simp only [Registry.known, Registry.get?_commit_ne (hne (Registry.known_of_get?_none hg))]
    exact hk
  | runs hb => rwa [Registry.known_setSlot_ne (hne (Registry.known_of_body? hb))]
  | fails hb => rwa [Registry.known_delete_ne (hne (Registry.known_of_body? hb))]
  | drops hm => rwa [Registry.known_delete_ne (hne hm)]

/-- What is filed are the units of the step. -/
theorem Deed.filed (hd : Deed units b b') : ∃ events, b'.journal = events ++ b.journal ∧
    ∀ n id, .filed n id ∈ events → ∃ u ∈ units, u.name = n ∧ u.body.load = id := by
  cases hd with
  | @loads e he =>
    refine ⟨[e], rfl, fun n id hm => ?_⟩
    rw [List.mem_singleton] at hm
    subst hm
    exact he.elim
  | @files u hu =>
    refine ⟨[.filed u.name u.body.load], rfl, fun n id hm => ?_⟩
    rw [List.mem_singleton, Event.filed.injEq] at hm
    exact ⟨u, hu, hm.1.symm, hm.2.symm⟩
  | @runs n body => exact ⟨[.ran body.load true], rfl, by simp⟩
  | @fails n body => exact ⟨[.ran body.load false], rfl, by simp⟩
  | drops => exact ⟨[], rfl, by simp⟩

/-- The deeds of a step leave a load alone whose unit is none of those that may be filed. -/
theorem Deed.untouched (hd : Deed units b b') (h : b.Faithful named spent)
    (hu : ∀ u ∈ units, u.body.load ≠ id) (hid : Untouched b.journal id) :
    Untouched b'.journal id := by
  have hbody {n : String} {body : Body} (hb : b.registry.body? n = some body) : body.load ≠ id := by
    rintro rfl
    exact hid.1 n (h.waits hb).mem
  cases hd with
  | @loads e he =>
    apply hid.cons
    · rintro n rfl
      exact he
    · rintro ok rfl
      exact he
  | files hm =>
    apply hid.cons
    · rintro n ⟨⟩
      exact hu _ hm rfl
    · simp
  | runs hb | fails hb =>
    apply hid.cons
    · simp
    · rintro ok ⟨⟩
      exact hbody hb rfl
  | drops => exact hid

/-- What a row of deeds keeps. -/
theorem Books.Faithful.deeds (h : b.Faithful named spent)
    (hfun : ∀ {id n n'}, named id n → named id n' → n = n')
    (hu : ∀ u ∈ units, named u.body.load u.name ∧ ¬ spent u.body.load)
    (hd : ReflTransGen (Deed units) b b') :
    b'.Faithful named spent ∧ (∀ {id}, (∀ u ∈ units, u.body.load ≠ id) →
      Untouched b.journal id → Untouched b'.journal id) := by
  induction hd with
  | refl => exact ⟨h, fun _ hid => hid⟩
  | tail _ hd ih =>
    exact ⟨ih.1.deed hfun hu hd, fun hne hid => hd.untouched ih.1 hne (ih.2 hne hid)⟩

theorem known_of_deeds (hd : ReflTransGen (Deed units) b b') {ns : Namespace}
    (hk : b.registry.known n = some ns) : b'.registry.known n = some ns := by
  induction hd with
  | refl => exact hk
  | tail _ hd ih => exact hd.known ih

theorem filed_of_deeds (hd : ReflTransGen (Deed units) b b') :
    ∃ events, b'.journal = events ++ b.journal ∧
      ∀ n id, .filed n id ∈ events → ∃ u ∈ units, u.name = n ∧ u.body.load = id := by
  induction hd with
  | refl => exact ⟨[], rfl, by simp⟩
  | tail _ hd ih =>
    obtain ⟨events, hj, he⟩ := ih
    obtain ⟨events', hj', he'⟩ := hd.filed
    refine ⟨events' ++ events, by rw [hj', hj, List.append_assoc], fun n id hm => ?_⟩
    rcases List.mem_append.1 hm with hm | hm
    · exact he' n id hm
    · exact he n id hm

/-- Since a journal was shorter, no body of a name has run. -/
def Quit (n : String) (before journal : List Event) : Prop :=
  ∃ events, journal = events ++ before ∧ ∀ id ok, .ran id ok ∈ events → .filed n id ∉ journal

theorem Quit.cons {before journal : List Event} (h : Quit n before journal) {e : Event}
    (hf : ∀ id, e ≠ .filed n id) (hr : ∀ id ok, e = .ran id ok → .filed n id ∉ journal) :
    Quit n before (e :: journal) := by
  obtain ⟨events, rfl, hq⟩ := h
  refine ⟨e :: events, rfl, fun id ok hm hmem => ?_⟩
  have hmem := (List.mem_cons.1 hmem).resolve_left fun he => hf id he.symm
  rcases List.mem_cons.1 hm with he | hm
  · exact hr id ok he.symm hmem
  · exact hq id ok hm hmem

end Faithful

end ModuleLoader
