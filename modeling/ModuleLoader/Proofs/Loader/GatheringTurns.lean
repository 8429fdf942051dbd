import ModuleLoader.Proofs.Loader.GatheringSteps

/-! # Gatherings after a turn

A turn that does not fail a gathering leaves no failure in it that could go unnoticed. So once all
of its tasks have ended, the gathering has its values.
-/

namespace ModuleLoader.Gathering

variable {σ τ ε α : Type} {step : σ → τ → Progress τ ε α × σ} {s s' : σ}
  {results : List (Option (Except ε α))} {running : List (Nat × τ)} {g g' : Gathering τ ε α}

/-- No failure goes unnoticed: in a small gathering there is none, and in a crowd a result in front
of it is not known. -/
def Hopeful (g : Gathering τ ε α) : Prop :=
  failure? g.results = none ∧
    (g.results.length ≤ smallSize → ∀ e, some (.error e) ∉ g.results)

theorem failure?_eq_none (h : ∀ e, some (.error e) ∉ results) : failure? results = none := by
  rw [Option.eq_none_iff_forall_ne_some]
  exact fun e he => h e (mem_of_failure? he)

theorem hopeful_ofTasks (ts : List τ) : (ofTasks ts : Gathering τ ε α).Hopeful := by
  have h : ∀ e, some (.error e) ∉ (ofTasks ts : Gathering τ ε α).results := by simp [ofTasks]
  exact ⟨failure?_eq_none h, fun _ => h⟩

/-- A small gathering that does not fail in a turn takes no failure from it. -/
theorem moveAll_results (hr : ∀ e, some (.error e) ∉ results)
    (h : moveAll step s results running = (.ok g, s')) :
    g.results.length = results.length ∧ ∀ e, some (.error e) ∉ g.results := by
  induction running generalizing results s s' g with
  | nil =>
    simp only [moveAll, Prod.mk.injEq, Except.ok.injEq] at h
    obtain ⟨rfl, -⟩ := h
    exact ⟨rfl, hr⟩
  | cons head rest ih =>
    obtain ⟨i, t⟩ := head
    rw [moveAll] at h
    split at h
    · simp at h
    · rename_i a s₁ _
      have hset : ∀ e, some (.error e) ∉ results.set i (some (.ok a)) := by
        intro e he
        rcases List.mem_or_eq_of_mem_set he with he | he
        · exact hr e he
        · simp at he
      obtain ⟨hl, hg⟩ := ih hset h
      exact ⟨hl.trans List.length_set, hg⟩
    · rename_i t' s₁ _
      rcases hm : moveAll step s₁ results rest with ⟨out, s₂⟩
      rw [hm] at h
      cases out with
      | error e => simp [Except.map] at h
      | ok g' =>
        simp only [Except.map, Prod.mk.injEq, Except.ok.injEq] at h
        obtain ⟨rfl, -⟩ := h
        obtain ⟨hl, hg⟩ := ih hr hm
        exact ⟨hl, hg⟩

/-- A crowd that does not fail in a turn knows of no failure after it. -/
theorem moveCrowd_results {patience : Nat} (hr : failure? results = none)
    (h : moveCrowd step patience s results running = (.ok g, s')) :
    g.results.length = results.length ∧ failure? g.results = none := by
  fun_induction moveCrowd step patience s results running with
  | case1 s results p i t rest t' s₁ hs ih => exact ih hr h
  | case2 => simp at h
  | case3 s results p i t rest r s₁ hs results' hf ih =>
    obtain ⟨hl, hg⟩ := ih hf h
    exact ⟨hl.trans List.length_set, hg⟩
  | case4 =>
    simp only [Prod.mk.injEq, Except.ok.injEq] at h
    obtain ⟨rfl, -⟩ := h
    exact ⟨rfl, hr⟩

theorem Hopeful.move (hg : g.Hopeful) (h : move step s g = (.ok g', s')) : g'.Hopeful := by
  rw [Gathering.move] at h
  split at h
  · rename_i hsmall
    obtain ⟨-, hr⟩ := moveAll_results (hg.2 hsmall) h
    exact ⟨failure?_eq_none hr, fun _ => hr⟩
  · rename_i hcrowd
    obtain ⟨hl, hf⟩ := moveCrowd_results hg.1 h
    exact ⟨hf, fun hsmall => absurd (hl ▸ hsmall) hcrowd⟩

/-- Known results without a failure are values. -/
theorem exists_valuesOf?_of_failure? (hk : none ∉ results) (hf : failure? results = none) :
    ∃ values, valuesOf? results = some values := by
  fun_induction failure? results with
  | case1 a rest ih =>
    obtain ⟨values, hv⟩ := ih (fun hm => hk (List.mem_cons_of_mem _ hm)) hf
    exact ⟨a :: values, by simp [valuesOf?, hv]⟩
  | case2 => simp at hf
  | case3 results hok herr =>
    cases results with
    | nil => exact ⟨[], rfl⟩
    | cons r rest =>
      cases r with
      | none => exact absurd List.mem_cons_self hk
      | some r =>
        cases r with
        | ok a => exact absurd rfl (hok a rest)
        | error e => exact absurd rfl (herr e rest)

/-- The tasks of a hopeful gathering have not all ended, or it has its values. -/
theorem Hopeful.exists_values? (h : g.Hopeful) (hg : g.Numbered) (hr : g.running = []) :
    ∃ values, g.values? = some values :=
  exists_valuesOf?_of_failure? (hg.none_notMem hr) h.1

end ModuleLoader.Gathering
