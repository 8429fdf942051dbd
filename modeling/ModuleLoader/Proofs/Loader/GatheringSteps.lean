import Mathlib.Logic.Relation
import ModuleLoader.Loader.Gathering

/-! # Steps of a gathering

A turn of a gathering is a row of steps, and in each of them one task moves. What every step
preserves therefore holds after every turn, whether the gathering is small or a crowd.
-/

namespace ModuleLoader.Gathering

open Relation

variable {σ τ ε α : Type}

/-- One task goes on, or ends and leaves its result. The order of the running tasks is free. -/
inductive Step (goes : τ × σ → τ × σ → Prop) (ends : τ × σ → Except ε α × σ → Prop) :
    Gathering τ ε α × σ → Gathering τ ε α × σ → Prop where
  | going {running running' rest : List (Nat × τ)} {results : List (Option (Except ε α))}
      {i : Nat} {t t' : τ} {s s' : σ} :
      running.Perm ((i, t) :: rest) → goes (t, s) (t', s') → running'.Perm ((i, t') :: rest) →
      Step goes ends (⟨running, results⟩, s) (⟨running', results⟩, s')
  | ending {running running' rest : List (Nat × τ)} {results : List (Option (Except ε α))}
      {i : Nat} {t : τ} {r : Except ε α} {s s' : σ} :
      running.Perm ((i, t) :: rest) → ends (t, s) (r, s') → running'.Perm rest →
      Step goes ends (⟨running, results⟩, s) (⟨running', results.set i (some r)⟩, s')

/-- A gathering fails: a task ends with an error, or one has ended with it before. -/
inductive Fails (ends : τ × σ → Except ε α × σ → Prop) :
    Gathering τ ε α × σ → ε × σ → Prop where
  | now {running rest : List (Nat × τ)} {results : List (Option (Except ε α))} {i : Nat} {t : τ}
      {e : ε} {s s' : σ} :
      running.Perm ((i, t) :: rest) → ends (t, s) (.error e, s') →
      Fails ends (⟨running, results⟩, s) (e, s')
  | before {g : Gathering τ ε α} {e : ε} {s : σ} :
      some (.error e) ∈ g.results → Fails ends (g, s) (e, s)

/-- What a task does when it is moved is a row of small moves, and not an empty one. -/
structure Refines (step : σ → τ → Progress τ ε α × σ) (goes : τ × σ → τ × σ → Prop)
    (ends : τ × σ → Except ε α × σ → Prop) : Prop where
  going : ∀ {s s' t t'}, step s t = (.going t', s') → TransGen goes (t, s) (t', s')
  done : ∀ {s s' t r}, step s t = (.done r, s') →
    ∃ c, ReflTransGen goes (t, s) c ∧ ends c (r, s')

variable {goes : τ × σ → τ × σ → Prop} {ends : τ × σ → Except ε α × σ → Prop}
  {step : σ → τ → Progress τ ε α × σ} {results : List (Option (Except ε α))}

theorem Step.perm {c : Gathering τ ε α × σ} {running running' : List (Nat × τ)} {s : σ}
    (h : Step goes ends c (⟨running, results⟩, s)) (hp : running'.Perm running) :
    Step goes ends c (⟨running', results⟩, s) := by
  cases h with
  | going h₁ hg h₂ => exact .going h₁ hg (hp.trans h₂)
  | ending h₁ he h₂ => exact .ending h₁ he (hp.trans h₂)

theorem transGen_perm {c : Gathering τ ε α × σ} {running running' : List (Nat × τ)} {s : σ}
    (h : TransGen (Step goes ends) c (⟨running, results⟩, s)) (hp : running'.Perm running) :
    TransGen (Step goes ends) c (⟨running', results⟩, s) := by
  cases h with
  | single h => exact .single (h.perm hp)
  | tail h h' => exact .tail h (h'.perm hp)

/-- A gathering in a state, as one of its tasks sees it. -/
def around (before after : List (Nat × τ)) (i : Nat) (results : List (Option (Except ε α)))
    (c : τ × σ) : Gathering τ ε α × σ :=
  (⟨before ++ (i, c.1) :: after, results⟩, c.2)

theorem step_around (before after : List (Nat × τ)) (i : Nat) {c d : τ × σ} (h : goes c d) :
    Step goes ends (around before after i results c) (around before after i results d) :=
  .going List.perm_middle h List.perm_middle

theorem transGen_around (before after : List (Nat × τ)) (i : Nat) {c d : τ × σ}
    (h : TransGen goes c d) :
    TransGen (Step goes ends) (around before after i results c)
      (around before after i results d) :=
  TransGen.lift _ (fun _ _ => step_around before after i) _ _ h

theorem reflTransGen_around (before after : List (Nat × τ)) (i : Nat) {c d : τ × σ}
    (h : ReflTransGen goes c d) :
    ReflTransGen (Step goes ends) (around before after i results c)
      (around before after i results d) :=
  ReflTransGen.lift _ (fun _ _ => step_around before after i) _ _ h

theorem transGen_ending (before after : List (Nat × τ)) (i : Nat) {t : τ} {s s' : σ}
    {r : Except ε α} {c : τ × σ} (h : ReflTransGen goes (t, s) c) (he : ends c (r, s')) :
    TransGen (Step goes ends) (⟨before ++ (i, t) :: after, results⟩, s)
      (⟨before ++ after, results.set i (some r)⟩, s') :=
  TransGen.tail' (reflTransGen_around before after i h) (.ending List.perm_middle he (.refl _))

theorem mem_of_failure? {results : List (Option (Except ε α))} {e : ε}
    (h : failure? results = some e) : some (.error e) ∈ results := by
  fun_induction failure? results with
  | case1 a rest ih => exact List.mem_cons_of_mem _ (ih h)
  | case2 e' rest => simp only [Option.some.injEq] at h; simp [h]
  | case3 => simp at h

/-! ## Turns of a small gathering -/

theorem moveAll_ok (hr : Refines step goes ends) {running : List (Nat × τ)} {s s' : σ}
    {g : Gathering τ ε α} (before : List (Nat × τ))
    (h : moveAll step s results running = (.ok g, s')) :
    ReflTransGen (Step goes ends) (⟨before ++ running, results⟩, s)
      (⟨before ++ g.running, g.results⟩, s') := by
  induction running generalizing before s g results with
  | nil =>
    simp only [moveAll, Prod.mk.injEq, Except.ok.injEq] at h
    obtain ⟨rfl, rfl⟩ := h
    exact .refl
  | cons head rest ih =>
    obtain ⟨i, t⟩ := head
    rw [moveAll] at h
    split at h
    · simp at h
    · rename_i a s₁ hs
      obtain ⟨c, hc, he⟩ := hr.done hs
      exact (transGen_ending before rest i hc he).to_reflTransGen.trans (ih before h)
    · rename_i t' s₁ hs
      have hg : ReflTransGen (Step goes ends) (⟨before ++ (i, t) :: rest, results⟩, s)
          (⟨before ++ (i, t') :: rest, results⟩, s₁) :=
        (transGen_around before rest i (hr.going hs)).to_reflTransGen
      rcases hm : moveAll step s₁ results rest with ⟨out, s₂⟩
      rw [hm] at h
      cases out with
      | error e => simp [Except.map] at h
      | ok g' =>
        simp only [Except.map, Prod.mk.injEq, Except.ok.injEq] at h
        obtain ⟨rfl, rfl⟩ := h
        have hrest := ih (before ++ [(i, t')]) hm
        simp only [List.append_assoc, List.singleton_append] at hrest
        exact hg.trans hrest

theorem moveAll_error (hr : Refines step goes ends) {running : List (Nat × τ)} {s s' : σ} {e : ε}
    (before : List (Nat × τ)) (h : moveAll step s results running = (.error e, s')) :
    ∃ c, ReflTransGen (Step goes ends) (⟨before ++ running, results⟩, s) c ∧
      Fails ends c (e, s') := by
  induction running generalizing before s results with
  | nil => simp [moveAll] at h
  | cons head rest ih =>
    obtain ⟨i, t⟩ := head
    rw [moveAll] at h
    split at h
    · rename_i e' s₁ hs
      simp only [Prod.mk.injEq, Except.error.injEq] at h
      obtain ⟨rfl, rfl⟩ := h
      obtain ⟨c, hc, he⟩ := hr.done hs
      exact ⟨_, reflTransGen_around before rest i hc, .now List.perm_middle he⟩
    · rename_i a s₁ hs
      obtain ⟨c, hc, he⟩ := hr.done hs
      obtain ⟨d, hd, hf⟩ := ih before h
      exact ⟨d, (transGen_ending before rest i hc he).to_reflTransGen.trans hd, hf⟩
    · rename_i t' s₁ hs
      have hg : ReflTransGen (Step goes ends) (⟨before ++ (i, t) :: rest, results⟩, s)
          (⟨before ++ (i, t') :: rest, results⟩, s₁) :=
        (transGen_around before rest i (hr.going hs)).to_reflTransGen
      rcases hm : moveAll step s₁ results rest with ⟨out, s₂⟩
      rw [hm] at h
      cases out with
      | ok g' => simp [Except.map] at h
      | error e' =>
        simp only [Except.map, Prod.mk.injEq, Except.error.injEq] at h
        obtain ⟨rfl, rfl⟩ := h
        obtain ⟨d, hd, hf⟩ := ih (before ++ [(i, t')]) hm
        simp only [List.append_assoc, List.singleton_append] at hd
        exact ⟨d, hg.trans hd, hf⟩

/-! ## Turns of a crowd -/

theorem moveCrowd_ok (hr : Refines step goes ends) {running : List (Nat × τ)} {patience : Nat}
    {s s' : σ} {g : Gathering τ ε α}
    (h : moveCrowd step patience s results running = (.ok g, s')) :
    ReflTransGen (Step goes ends) (⟨running, results⟩, s) (g, s') := by
  fun_induction moveCrowd step patience s results running with
  | case1 s results p i t rest t' s₁ hs ih =>
    have hg : TransGen (Step goes ends) (⟨(i, t) :: rest, results⟩, s)
        (⟨rest ++ [(i, t')], results⟩, s₁) :=
      transGen_perm (transGen_around [] rest i (hr.going hs)) (List.perm_append_singleton _ _)
    exact hg.to_reflTransGen.trans (ih h)
  | case2 => simp at h
  | case3 s results p i t rest r s₁ hs results' hf ih =>
    obtain ⟨c, hc, he⟩ := hr.done hs
    exact (transGen_ending [] rest i hc he).to_reflTransGen.trans (ih h)
  | case4 patience s results running hn =>
    simp only [Prod.mk.injEq, Except.ok.injEq] at h
    obtain ⟨rfl, rfl⟩ := h
    exact .refl

theorem moveCrowd_error (hr : Refines step goes ends) {running : List (Nat × τ)} {patience : Nat}
    {s s' : σ} {e : ε} (h : moveCrowd step patience s results running = (.error e, s')) :
    ∃ c, ReflTransGen (Step goes ends) (⟨running, results⟩, s) c ∧ Fails ends c (e, s') := by
  fun_induction moveCrowd step patience s results running with
  | case1 s results p i t rest t' s₁ hs ih =>
    have hg : TransGen (Step goes ends) (⟨(i, t) :: rest, results⟩, s)
        (⟨rest ++ [(i, t')], results⟩, s₁) :=
      transGen_perm (transGen_around [] rest i (hr.going hs)) (List.perm_append_singleton _ _)
    obtain ⟨d, hd, hf⟩ := ih h
    exact ⟨d, hg.to_reflTransGen.trans hd, hf⟩
  | case2 s results p i t rest r s₁ hs results' e' hf =>
    simp only [Prod.mk.injEq, Except.error.injEq] at h
    obtain ⟨rfl, rfl⟩ := h
    obtain ⟨c, hc, he⟩ := hr.done hs
    exact ⟨_, (transGen_ending [] rest i hc he).to_reflTransGen, .before (mem_of_failure? hf)⟩
  | case3 s results p i t rest r s₁ hs results' hf ih =>
    obtain ⟨c, hc, he⟩ := hr.done hs
    obtain ⟨d, hd, hf⟩ := ih h
    exact ⟨d, (transGen_ending [] rest i hc he).to_reflTransGen.trans hd, hf⟩
  | case4 => simp at h

/-! ## Turns of any gathering -/

@[simp] theorem move_nil (s : σ) (results : List (Option (Except ε α))) :
    move step s ⟨[], results⟩ = (.ok ⟨[], results⟩, s) := by
  simp [move, moveAll, moveCrowd]

/-- The first task always gets to move. -/
theorem move_cons (hr : Refines step goes ends) {i : Nat} {t : τ} {rest : List (Nat × τ)}
    {g : Gathering τ ε α} {s s' : σ} (h : move step s ⟨(i, t) :: rest, results⟩ = (.ok g, s')) :
    TransGen (Step goes ends) (⟨(i, t) :: rest, results⟩, s) (g, s') := by
  simp only [move, List.length_cons] at h
  split at h
  · rw [moveAll] at h
    split at h
    · simp at h
    · rename_i a s₁ hs
      obtain ⟨c, hc, he⟩ := hr.done hs
      exact (transGen_ending [] rest i hc he).trans_left (moveAll_ok hr [] h)
    · rename_i t' s₁ hs
      rcases hm : moveAll step s₁ results rest with ⟨out, s₂⟩
      rw [hm] at h
      cases out with
      | error e => simp [Except.map] at h
      | ok g' =>
        simp only [Except.map, Prod.mk.injEq, Except.ok.injEq] at h
        obtain ⟨rfl, rfl⟩ := h
        exact (transGen_around [] rest i (hr.going hs)).trans_left (moveAll_ok hr [(i, t')] hm)
  · obtain ⟨patience, hp⟩ : ∃ patience, min 2 (rest.length + 1) = patience + 1 :=
      ⟨min 2 (rest.length + 1) - 1, by omega⟩
    rw [hp, moveCrowd] at h
    split at h
    · rename_i t' s₁ hs
      have hg : TransGen (Step goes ends) (⟨(i, t) :: rest, results⟩, s)
          (⟨rest ++ [(i, t')], results⟩, s₁) :=
        transGen_perm (transGen_around [] rest i (hr.going hs)) (List.perm_append_singleton _ _)
      exact hg.trans_left (moveCrowd_ok hr h)
    · rename_i r s₁ hs
      obtain ⟨c, hc, he⟩ := hr.done hs
      simp only at h
      split at h
      · simp at h
      · exact (transGen_ending [] rest i hc he).trans_left (moveCrowd_ok hr h)

/-- A turn after which a gathering goes on is a row of steps. -/
theorem move_ok (hr : Refines step goes ends) {g g' : Gathering τ ε α} {s s' : σ}
    (h : move step s g = (.ok g', s')) :
    (g.running = [] ∧ g' = g ∧ s' = s) ∨ TransGen (Step goes ends) (g, s) (g', s') := by
  obtain ⟨running, results⟩ := g
  cases running with
  | nil =>
    simp only [move_nil, Prod.mk.injEq, Except.ok.injEq] at h
    exact Or.inl ⟨rfl, h.1.symm, h.2.symm⟩
  | cons head rest => exact Or.inr (move_cons hr h)

/-- A turn that fails a gathering is a row of steps up to the failure. -/
theorem move_error (hr : Refines step goes ends) {g : Gathering τ ε α} {s s' : σ} {e : ε}
    (h : move step s g = (.error e, s')) :
    ∃ c, ReflTransGen (Step goes ends) (g, s) c ∧ Fails ends c (e, s') := by
  obtain ⟨running, results⟩ := g
  rw [move] at h
  split at h
  · exact moveAll_error hr [] h
  · exact moveCrowd_error hr h

/-! ## Values -/

theorem valuesOf?_eq_some_iff {results : List (Option (Except ε α))} {values : List α} :
    valuesOf? results = some values ↔ results = values.map fun a => some (.ok a) := by
  fun_induction valuesOf? results generalizing values with
  | case1 => cases values <;> simp
  | case2 a rest ih =>
    cases values with
    | nil => simp
    | cons b values =>
      simp only [Option.map_eq_some_iff, ih, List.map_cons, List.cons.injEq, Option.some.injEq,
        Except.ok.injEq]
      constructor
      · rintro ⟨_, hr, rfl, rfl⟩
        exact ⟨rfl, hr⟩
      · rintro ⟨rfl, hr⟩
        exact ⟨values, hr, rfl, rfl⟩
  | case3 x rest hx =>
    cases values with
    | nil => simp
    | cons b values =>
      simp only [reduceCtorEq, List.map_cons, List.cons.injEq, false_iff, not_and]
      rintro rfl
      exact absurd rfl (hx b)

/-! ## Tasks and outcomes -/

/-- The tasks that have not ended. -/
def tasks (g : Gathering τ ε α) : List τ := g.running.map (·.2)

/-- What the other tasks have come to. -/
def outcomes (g : Gathering τ ε α) : List (Except ε α) := g.results.filterMap id

/-- The numbers of the running tasks are those without a result. -/
structure Numbered (g : Gathering τ ε α) : Prop where
  nodup : (g.running.map (·.1)).Nodup
  mem_iff : ∀ i, i ∈ g.running.map (·.1) ↔ g.results[i]? = some none

theorem filterMap_set_perm {results : List (Option (Except ε α))} {i : Nat} (r : Except ε α)
    (h : results[i]? = some none) :
    ((results.set i (some r)).filterMap id).Perm (r :: results.filterMap id) := by
  induction results generalizing i with
  | nil => simp at h
  | cons head rest ih =>
    cases i with
    | zero =>
      simp only [List.getElem?_cons_zero, Option.some.injEq] at h
      subst h
      simp
    | succ i =>
      simp only [List.getElem?_cons_succ] at h
      cases head with
      | none => simpa using ih h
      | some r' =>
        simp only [List.set_cons_succ, List.filterMap_cons, id]
        exact ((ih h).cons r').trans (.swap r r' _)

theorem running_ofTasks (ts : List τ) :
    (ofTasks ts : Gathering τ ε α).running.map (·.1) = List.range ts.length ∧
      (ofTasks ts : Gathering τ ε α).running.map (·.2) = ts := by
  constructor <;> apply List.ext_getElem? <;> intro i
  · simp only [ofTasks, List.getElem?_map, List.getElem?_mapIdx]
    rcases Nat.lt_or_ge i ts.length with h | h
    · simp [h]
    · simp [h]
  · simp [ofTasks, List.getElem?_map, List.getElem?_mapIdx, Function.comp_def]

theorem numbered_ofTasks (ts : List τ) : (ofTasks ts : Gathering τ ε α).Numbered := by
  constructor
  · rw [(running_ofTasks ts).1]
    exact List.nodup_range
  · intro i
    rw [(running_ofTasks ts).1, List.mem_range, ofTasks, List.getElem?_map]
    rcases Nat.lt_or_ge i ts.length with hi | hi
    · simp [hi]
    · simp [Nat.not_lt.2 hi]

@[simp] theorem tasks_ofTasks (ts : List τ) : (ofTasks ts : Gathering τ ε α).tasks = ts :=
  (running_ofTasks ts).2

@[simp] theorem outcomes_ofTasks (ts : List τ) : (ofTasks ts : Gathering τ ε α).outcomes = [] := by
  simp [outcomes, ofTasks]

theorem Step.numbered {g g' : Gathering τ ε α} {s s' : σ} (h : Step goes ends (g, s) (g', s'))
    (hg : g.Numbered) : g'.Numbered := by
  obtain ⟨hd, hm⟩ := hg
  cases h with
  | going h₁ _ h₂ =>
    have hp := ((h₂.map (·.1)).trans (h₁.map (·.1)).symm)
    exact ⟨hp.nodup_iff.2 hd, fun i => (hp.mem_iff).trans (hm i)⟩
  | @ending running running' rest results i t r s s' h₁ _ h₂ =>
    have hp : (running.map (·.1)).Perm (i :: rest.map (·.1)) := h₁.map (·.1)
    have hp' : (running'.map (·.1)).Perm (rest.map (·.1)) := h₂.map (·.1)
    obtain ⟨hi, hr⟩ := List.nodup_cons.1 (hp.nodup_iff.1 hd)
    refine ⟨hp'.nodup_iff.2 hr, fun j => ?_⟩
    have hj := hm j
    rw [hp.mem_iff, List.mem_cons] at hj
    rw [hp'.mem_iff]
    by_cases hij : j = i
    · subst hij
      simp [hi, List.getElem?_set]
    · simpa [hij, List.getElem?_set_ne (Ne.symm hij)] using hj

/-- A step as it concerns tasks and outcomes: one task goes on or adds an outcome. -/
theorem Step.tasks_cases {g g' : Gathering τ ε α} {s s' : σ}
    (h : Step goes ends (g, s) (g', s')) (hg : g.Numbered) :
    ∃ t rest, g.tasks.Perm (t :: rest) ∧
      ((∃ t', goes (t, s) (t', s') ∧ g'.tasks.Perm (t' :: rest) ∧ g'.outcomes = g.outcomes) ∨
        ∃ r, ends (t, s) (r, s') ∧ g'.tasks.Perm rest ∧ g'.outcomes.Perm (r :: g.outcomes)) := by
  cases h with
  | going h₁ hs h₂ =>
    exact ⟨_, _, h₁.map Prod.snd, Or.inl ⟨_, hs, h₂.map Prod.snd, rfl⟩⟩
  | ending h₁ hs h₂ =>
    have hi := (hg.mem_iff _).1 ((h₁.map (·.1)).mem_iff.2 List.mem_cons_self)
    exact ⟨_, _, h₁.map Prod.snd, Or.inr ⟨_, hs, h₂.map Prod.snd, filterMap_set_perm _ hi⟩⟩

/-- A failure as it concerns tasks and outcomes. -/
theorem Fails.tasks_cases {g : Gathering τ ε α} {s s' : σ} {e : ε}
    (h : Fails ends (g, s) (e, s')) :
    .error e ∈ g.outcomes ∧ s' = s ∨ ∃ t ∈ g.tasks, ends (t, s) (.error e, s') := by
  cases h with
  | before hm => exact Or.inl ⟨List.mem_filterMap.2 ⟨_, hm, rfl⟩, rfl⟩
  | now hp he => exact Or.inr ⟨_, (hp.map Prod.snd).mem_iff.2 List.mem_cons_self, he⟩

theorem outcomes_of_values? {g : Gathering τ ε α} {values : List α}
    (h : g.values? = some values) : g.outcomes = values.map .ok := by
  rw [outcomes, valuesOf?_eq_some_iff.1 h, List.filterMap_map]
  exact congrFun List.filterMap_eq_map values

theorem tasks_of_values? {g : Gathering τ ε α} (hg : g.Numbered) {values : List α}
    (h : g.values? = some values) : g.tasks = [] := by
  rw [tasks, List.map_eq_nil_iff, ← List.map_eq_nil_iff (f := (·.1)),
    List.eq_nil_iff_forall_not_mem]
  intro i hi
  have hn := (hg.mem_iff i).1 hi
  rw [valuesOf?_eq_some_iff.1 h] at hn
  simp at hn

theorem exists_valuesOf? {results : List (Option (Except ε α))}
    (h : ∀ r ∈ results, ∃ a, r = some (.ok a)) : ∃ values, valuesOf? results = some values := by
  induction results with
  | nil => exact ⟨[], rfl⟩
  | cons r rest ih =>
    obtain ⟨a, rfl⟩ := h r List.mem_cons_self
    obtain ⟨values, hv⟩ := ih fun r hr => h r (List.mem_cons_of_mem _ hr)
    exact ⟨a :: values, by simp [valuesOf?, hv]⟩

/-- A gathering whose tasks have all ended knows all results. -/
theorem Numbered.none_notMem {g : Gathering τ ε α} (hg : g.Numbered) (hr : g.running = []) :
    none ∉ g.results := by
  intro hm
  obtain ⟨i, hi⟩ := List.mem_iff_getElem?.1 hm
  have hn := (hg.mem_iff i).2 hi
  simp [hr] at hn

/-- A gathering whose tasks have all ended well has its values. -/
theorem exists_values? {g : Gathering τ ε α} (hg : g.Numbered) (hr : g.running = [])
    (ho : ∀ r ∈ g.outcomes, ∃ a, r = .ok a) : ∃ values, g.values? = some values := by
  refine exists_valuesOf? fun r hm => ?_
  cases r with
  | none => exact absurd hm (hg.none_notMem hr)
  | some r =>
    obtain ⟨a, rfl⟩ := ho r (List.mem_filterMap.2 ⟨some r, hm, rfl⟩)
    exact ⟨a, rfl⟩

theorem results_of_tasks {g : Gathering τ ε α} (hg : g.Numbered) {t : τ} (h : t ∈ g.tasks) :
    g.results ≠ [] := by
  obtain ⟨⟨i, t⟩, hm, rfl⟩ := List.mem_map.1 h
  have hi := (hg.mem_iff i).1 (List.mem_map_of_mem hm)
  rintro hn
  rw [hn] at hi
  simp at hi

end ModuleLoader.Gathering
