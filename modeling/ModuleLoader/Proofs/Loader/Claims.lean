import ModuleLoader.Proofs.Loader.Registration
import ModuleLoader.Proofs.Loader.RequestHoldings

/-! # Claims

A definition claims its name while its graph is loaded, and gives it up when it is settled. So the
names that are being defined are those of the definitions in progress.
-/

namespace ModuleLoader.Loader

open Gathering

/-- The name that a definition claims. -/
def Purpose.claim? : Purpose → Option String
  | .define name _ => some name
  | _ => none

/-- The name that a request has claimed. -/
def Activity.claim? : Activity → Option String
  | .graph purpose _ => purpose.claim?
  | _ => none

/-- A request that claims nothing, in a loader with the same claims as before. -/
structure Unclaiming (l : Loader) (c : Activity × Loader) : Prop where
  claim : c.1.claim? = none
  defining : c.2.defining = l.defining

/-- The names being defined are those that a request has claimed and some others. -/
def Claims (others : List String) (a : Activity) (l : Loader) : Prop :=
  l.defining.Perm (a.claim?.toList ++ others)

section Unclaiming

variable {l l₁ : Loader} (h : l₁.defining = l.defining)

include h

theorem settle_unclaiming (r : Except LoadError Answer) : Unclaiming l (l₁.settle r) := by
  cases r <;> exact ⟨rfl, h⟩

theorem runSource_defining (load : Load) (text : String) :
    (l₁.runSource load text).2.defining = l.defining := by
  unfold runSource
  split
  · exact h
  · rename_i load' _
    obtain ⟨maps, hm⟩ := keepMap_eq l₁ load'
    simp only [hm]
    split <;> exact h

theorem receiveScript_unclaiming (load : Load) (address : String) :
    Unclaiming l (l₁.receiveScript load address) := by
  unfold receiveScript
  split
  · exact settle_unclaiming h _
  · exact settle_unclaiming (runSource_defining h _ _) _

theorem startScript_unclaiming (load : Load) : Unclaiming l (l₁.startScript load) := by
  unfold startScript
  split
  · exact settle_unclaiming h _
  · exact settle_unclaiming (runSource_defining h _ _) _
  · rename_i load' address _
    have hn : (l₁.note (.asked address)).defining = l.defining := h
    simp only
    split
    · exact ⟨rfl, hn⟩
    · exact receiveScript_unclaiming hn _ _

theorem startImport_unclaiming (specifier : String) (options : RequestOptions) :
    Unclaiming l (l₁.startImport specifier options) := by
  unfold startImport
  split
  · exact settle_unclaiming h _
  · simp only
    split
    · exact ⟨rfl, (joinAll_grows _ l₁ _).defining.trans h⟩
    · exact ⟨rfl, (join_grows l₁ _ _).defining.trans h⟩

theorem commit_defining (units : List LoadedUnit) : (l₁.commit units).defining = l.defining := by
  induction units generalizing l₁ with
  | nil => exact h
  | cons u rest ih =>
    have hf : (l₁.file u).defining = l.defining := by
      unfold file
      split <;> exact h
    exact @ih (l₁.commitOne u) hf

theorem settleImport_unclaiming (name : String) : Unclaiming l (l₁.settleImport name) := by
  unfold settleImport
  apply settle_unclaiming
  exact h

end Unclaiming

/-! ## Claiming and giving up -/

section Claims

variable {l l' : Loader} {others : List String}

theorem Unclaiming.claims {c : Activity × Loader} (h : Unclaiming l c)
    (hl : l.defining.Perm others) : Claims others c.1 c.2 := by
  unfold Claims
  rw [h.claim, h.defining]
  exact hl

theorem settle_claims (hl : l.defining.Perm others) (r : Except LoadError Answer) :
    Claims others (l.settle r).1 (l.settle r).2 :=
  (settle_unclaiming rfl r).claims hl

theorem unclaim_defining {name : String} (h : l.defining.Perm (name :: others)) :
    (l.unclaim name).defining.Perm others := by
  have hp := h.erase name
  rwa [List.erase_cons_head] at hp

theorem loadInline_defining (l : Loader) (load : Load) (source : String)
    (referrer : Option String) : (l.loadInline load source referrer).2.defining = l.defining := by
  obtain ⟨maps, hm⟩ := linkSource_snd (l.note (.began load.name l.loads.length)) l.loads.length
    { load with source := some source } source referrer
  simp only [loadInline, hm]
  rfl

section Purpose

variable {purpose : Purpose} (h : l.defining.Perm (purpose.claim?.toList ++ others))

include h

theorem rejectGraph_claims (e : LoadError) :
    Claims others (l.rejectGraph purpose e).1 (l.rejectGraph purpose e).2 := by
  cases purpose with
  | define name mode => exact settle_claims (unclaim_defining h) _
  | _ => exact settle_claims h _

theorem settleGraph_claims (g : Graph) :
    Claims others (l.settleGraph purpose g).1 (l.settleGraph purpose g).2 := by
  cases purpose with
  | importModule name =>
    exact (settleImport_unclaiming (commit_defining rfl _) name).claims h
  | module =>
    have hd : ((l.commit g.below).evaluateDetached g.root).2.defining = l.defining :=
      commit_defining rfl g.below
    exact (settle_unclaiming hd _).claims h
  | define name mode =>
    have hf : (l.file g.root).defining = l.defining := by
      unfold file
      split <;> rfl
    have hc := commit_defining hf g.below
    simp only [settleGraph, settleDefine]
    split
    · exact settle_claims (unclaim_defining h) _
    · split
      · apply settle_claims
        apply unclaim_defining
        rw [hc]
        exact h
      · apply settle_claims
        apply unclaim_defining
        exact hc ▸ h

theorem startInline_claims (name source : String) (referrer : Option String)
    (options : RequestOptions) :
    Claims others (l.startInline purpose name source referrer options).1
      (l.startInline purpose name source referrer options).2 := by
  have hd := loadInline_defining l (l.inlineLoad name options) source referrer
  rcases hi : l.loadInline (l.inlineLoad name options) source referrer with ⟨e | root, l₁⟩
  · rw [hi] at hd
    rw [startInline_of_error hi]
    apply rejectGraph_claims
    rwa [hd]
  · rw [hi] at hd
    rw [startInline_of_ok hi]
    have hg := (wantAll_wanted (l.metadataOf options) l₁ [root.name] root.dependencies).grows
    unfold Claims
    exact (hg.defining.trans hd).symm ▸ h

end Purpose

theorem start_claims (hl : l.defining.Perm others) (request : Request) :
    Claims others (l.start request).1 (l.start request).2 := by
  have hs := start_starts l request
  generalize l.start request = c at hs
  cases hs with
  | imports specifier => exact (startImport_unclaiming rfl _ _).claims hl
  | misnamed | taken => exact settle_claims hl _
  | defines =>
    apply startInline_claims
    exact hl.cons _
  | detached =>
    apply startInline_claims
    exact hl
  | script load | namelessScript load => exact (startScript_unclaiming rfl _).claims hl

theorem branchEnds_defining {branch : Branch} {e : LoadError}
    (h : BranchEnds (branch, l) (.error e, l')) : l'.defining = l.defining := by
  cases h with
  | @root id _ _ _ hm =>
    have hg := move_grows l id
    rw [hm] at hg
    exact hg.defining
  | graph he =>
    cases he with
    | fails hf => exact (frontier_fails hf).1.defining

theorem branchesFail_defining {b : Branches} {e : LoadError}
    (h : Fails BranchEnds (b, l) (e, l')) : l'.defining = l.defining := by
  rcases h.tasks_cases with ⟨-, rfl⟩ | ⟨branch, -, he⟩
  · rfl
  · exact branchEnds_defining he

theorem branches_defining {metadata : Metadata} {b b' : Branches}
    (h : Gathering.Step (BranchStep metadata) BranchEnds (b, l) (b', l')) (hl : l.Sound)
    (hb : Branches.Sound l b) : l'.defining = l.defining := by
  obtain ⟨branch, rest, hp, hcase⟩ := h.tasks_cases hb.numbered
  have hm : branch ∈ b.tasks := hp.mem_iff.2 List.mem_cons_self
  rcases hcase with ⟨branch', hs, -⟩ | ⟨r, he, -⟩
  · exact (branchStep_spec hs hl (hb.tasks branch hm)).2.grows.defining
  · cases r with
    | ok g => rw [(branchEnds_ok he (hb.tasks branch hm)).1]
    | error e => exact branchEnds_defining he

/-- No step loses a claim, or leaves one behind. -/
theorem Claims.advance {a a' : Activity} (h : Claims others a l) (hadv : Advance (a, l) (a', l'))
    (hl : l.Sound) (ha : a.Sound l) : Claims others a' l' := by
  have hmove (id : Nat) {r : Option (Except LoadError LoadedUnit)} {l₁ : Loader}
      (hm : l.move id = (r, l₁)) : l₁.defining = l.defining := by
    have hg := move_grows l id
    rw [hm] at hg
    exact hg.defining
  have hreject {e : LoadError} {l₁ : Loader} (hd : l₁.defining = l.defining)
      (hp : l.defining.Perm others) (hr : l₁.reject e = (a', l')) : Claims others a' l' := by
    have hc := settle_claims (hd.symm ▸ hp) (.error e)
    rw [reject] at hr
    rwa [hr] at hc
  cases hadv with
  | tick | scriptWaits | branchesIdle => exact h
  | @start request _ _ _ hs =>
    have hc := start_claims h request
    rwa [hs] at hc
  | @scriptAnswered load address _ _ _ hs =>
    have hc := (receiveScript_unclaiming (l := l) rfl load address).claims h
    rwa [hs] at hc
  | rootWaits hm =>
    unfold Claims
    rw [hmove _ hm]
    exact h
  | rootFails hm hr => exact hreject (hmove _ hm) h hr
  | @rootArrives _ metadata _ u _ _ l₁ _ hm hs =>
    have hg := (wantAll_wanted metadata l₁ [u.name] u.dependencies).grows.defining
    unfold Claims
    rw [show l'.defining = l₁.defining from (congrArg (fun c => c.2.defining) hs).symm.trans hg,
      hmove _ hm]
    exact h
  | @graph purpose task _ _ _ hs =>
    have ht : task.Sound l := by
      cases purpose <;> exact ha
    unfold Claims
    rw [(graphStep_spec hs hl ht).2.2.grows.defining]
    exact h
  | @graphFails purpose task e _ _ l₁ _ he hr =>
    have hb : BranchEnds (.loading task, l) (.error e, l₁) := .graph he
    have hc : Claims others (l₁.rejectGraph purpose e).1 (l₁.rejectGraph purpose e).2 := by
      apply rejectGraph_claims
      rw [branchEnds_defining hb]
      exact h
    rwa [hr] at hc
  | @graphDone purpose task _ _ _ _ _ he hs =>
    cases he with
    | complete hv =>
      have hg := settleGraph_claims h task.graph
      rwa [hs] at hg
  | branches hs =>
    unfold Claims
    rw [branches_defining hs hl ha]
    exact h
  | branchesFail hf hr => exact hreject (branchesFail_defining hf) h hr
  | @branchesDone name metadata b graphs _ _ _ hv hs =>
    have hc : (l.commit (graphs.flatMap Graph.units)).defining = l.defining :=
      commit_defining rfl _
    rw [← commitAll_eq] at hc
    have hi := (settleImport_unclaiming hc name).claims h
    rwa [hs] at hi

end Claims

end ModuleLoader.Loader
