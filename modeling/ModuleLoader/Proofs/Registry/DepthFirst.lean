import Mathlib.Data.List.Chain
import Mathlib.Data.List.Nodup
import ModuleLoader.Proofs.Registry.Passes

/-! # Depth-first traversals

A traversal goes through the records that wait, depth first and in the order of their requests, and
leaves a record when all of its dependencies are evaluated or have been left. It depends on nothing
but the records.
-/

namespace ModuleLoader.Registry

open Dialect Relation

variable {β σ : Type} {r : Registry β} {name : String}

/-- A record waits with its body and has some dependencies. -/
def Opens (r : Registry β) (name : String) (dependencies : List String) : Prop :=
  ∃ record body, r.get? name = some record ∧ record.slot = .waiting body ∧
    record.dependencies.map Dependency.name = dependencies

/-- A name has a record that is evaluated. -/
def IsEvaluated (r : Registry β) (name : String) : Prop :=
  ∃ record ns, r.get? name = some record ∧ record.slot = .evaluated ns

/-- What waits below a name: the records that can be reached through records that wait. -/
def Pending (r : Registry β) (name x : String) : Prop := r.Waits x ∧ ReflTransGen r.Needs name x

/-- Where a traversal stands: the names that it has entered and not left, the last one first and
each with the dependencies that are still to be looked at, and the names that it has left, in that
order. -/
structure Traversal where
  path : List (String × List String)
  order : List String

namespace Traversal

/-- The names that are entered and not left, the last one first. -/
def entered (t : Traversal) : List String := t.path.map Prod.fst

/-- What a traversal does next with the name that it has entered last. -/
inductive Step (r : Registry β) : Traversal → Traversal → Prop where
  | skip {n d : String} {todo : List String} {path : List (String × List String)}
      {order : List String} : d ∈ order ∨ r.IsEvaluated d →
      Step r ⟨(n, d :: todo) :: path, order⟩ ⟨(n, todo) :: path, order⟩
  | enter {n d : String} {todo dependencies : List String} {path : List (String × List String)}
      {order : List String} : r.Opens d dependencies → d ∉ order →
      d ∉ entered ⟨(n, d :: todo) :: path, order⟩ →
      Step r ⟨(n, d :: todo) :: path, order⟩ ⟨(d, dependencies) :: (n, d :: todo) :: path, order⟩
  | leave {n : String} {path : List (String × List String)} {order : List String} :
      Step r ⟨(n, []) :: path, order⟩ ⟨path, order ++ [n]⟩

end Traversal

/-- A traversal that starts with a name leads to some point. -/
def Traverses (r : Registry β) (name : String) (t : Traversal) : Prop :=
  ∃ dependencies, r.Opens name dependencies ∧
    ReflTransGen (Traversal.Step r) ⟨[(name, dependencies)], []⟩ t

/-! ## Records that wait -/

theorem Opens.waits {dependencies : List String} (h : r.Opens name dependencies) :
    r.Waits name := by
  obtain ⟨record, body, hg, hs, -⟩ := h
  exact ⟨record, body, hg, hs⟩

theorem Opens.needs_iff {dependencies : List String} (h : r.Opens name dependencies) {y : String} :
    r.Needs name y ↔ y ∈ dependencies := by
  obtain ⟨record, body, hg, hs, rfl⟩ := h
  simp [Needs, hg, needs, hs]

theorem Opens.unique {l l' : List String} (h : r.Opens name l) (h' : r.Opens name l') : l = l' := by
  obtain ⟨record, -, hg, -, rfl⟩ := h
  obtain ⟨record', -, hg', -, rfl⟩ := h'
  rw [hg, Option.some.injEq] at hg'
  rw [hg']

theorem Waits.not_isEvaluated (h : r.Waits name) : ¬ r.IsEvaluated name := by
  obtain ⟨record, body, hg, hs⟩ := h
  rintro ⟨record', ns, hg', hs'⟩
  rw [hg, Option.some.injEq] at hg'
  rw [← hg', hs] at hs'
  cases hs'

theorem Resting.waits_of_needs (hr : r.Resting) {x y : String} (h : r.Needs x y) : r.Waits x := by
  obtain ⟨record, hg, hy⟩ := h
  cases hs : record.slot with
  | waiting body => exact ⟨record, body, hg, hs⟩
  | evaluating => exact absurd hs (hr x record hg)
  | evaluated ns => simp [needs, hs] at hy

/-! ## Steps -/

namespace Traversal

/-- What holds wherever a traversal stands. -/
structure Sound (r : Registry β) (name : String) (t : Traversal) : Prop where
  nodup : (t.entered ++ t.order).Nodup
  pending : ∀ x ∈ t.entered ++ t.order, r.Pending name x
  start : name ∈ t.entered ++ t.order
  chain : t.entered.IsChain fun x y => r.Needs y x
  looked : ∀ f ∈ t.path, ∃ done, r.Opens f.1 (done ++ f.2) ∧
    ∀ y ∈ done, y ∈ t.order ∨ r.IsEvaluated y
  ordered : ∀ before x after, t.order = before ++ x :: after →
    ∀ y, r.Needs x y → y ∈ before ∨ r.IsEvaluated y

variable {t t' : Traversal} {n d : String} {todo dependencies order : List String}
  {path : List (String × List String)}

theorem Step.unique (h : Step r t t') {u : Traversal} (h' : Step r t u) : t' = u := by
  cases h with
  | skip hd =>
    cases h' with
    | skip => rfl
    | enter ho hn => exact absurd hd (not_or.2 ⟨hn, ho.waits.not_isEvaluated⟩)
  | enter ho hn =>
    cases h' with
    | skip hd => exact absurd hd (not_or.2 ⟨hn, ho.waits.not_isEvaluated⟩)
    | enter ho' => rw [ho.unique ho']
  | leave =>
    cases h'
    rfl

/-- A name that is left stays left, in its place. -/
theorem Step.order_extends (h : Step r t t') : t.order <+: t'.order := by
  cases h with
  | skip | enter => exact List.prefix_rfl
  | leave => exact List.prefix_append _ _

theorem order_extends (h : ReflTransGen (Step r) t t') : t.order <+: t'.order := by
  induction h with
  | refl => exact List.prefix_rfl
  | tail _ hs ih => exact ih.trans hs.order_extends

theorem sound_start (h : r.Opens name dependencies) :
    Sound r name ⟨[(name, dependencies)], []⟩ where
  nodup := List.nodup_singleton name
  pending := List.forall_mem_singleton.2 ⟨h.waits, .refl⟩
  start := List.mem_singleton_self name
  chain := .singleton name
  looked := List.forall_mem_singleton.2 ⟨[], h, List.forall_mem_nil _⟩
  ordered before x after heq := by simp at heq

theorem Sound.skip (h : Sound r name ⟨(n, d :: todo) :: path, order⟩)
    (hd : d ∈ order ∨ r.IsEvaluated d) : Sound r name ⟨(n, todo) :: path, order⟩ := by
  obtain ⟨hnodup, hpending, hstart, hchain, hlooked, hordered⟩ := h
  obtain ⟨⟨done, ho, hdone⟩, hbelow⟩ := List.forall_mem_cons.1 hlooked
  refine ⟨hnodup, hpending, hstart, hchain, List.forall_mem_cons.2 ⟨⟨done ++ [d], ?_, ?_⟩, hbelow⟩,
    hordered⟩
  · rwa [List.append_assoc, List.singleton_append]
  · exact List.forall_mem_append.2 ⟨hdone, List.forall_mem_singleton.2 hd⟩

theorem Sound.enter (h : Sound r name ⟨(n, d :: todo) :: path, order⟩)
    (ho : r.Opens d dependencies) (hn : d ∉ order)
    (he : d ∉ entered ⟨(n, d :: todo) :: path, order⟩) :
    Sound r name ⟨(d, dependencies) :: (n, d :: todo) :: path, order⟩ := by
  obtain ⟨hnodup, hpending, hstart, hchain, hlooked, hordered⟩ := h
  have hneeds : r.Needs n d := by
    obtain ⟨done, hopens, -⟩ := (List.forall_mem_cons.1 hlooked).1
    exact hopens.needs_iff.2 (List.mem_append_right _ List.mem_cons_self)
  refine ⟨List.nodup_cons.2 ⟨?_, hnodup⟩, List.forall_mem_cons.2 ⟨⟨ho.waits, ?_⟩, hpending⟩,
    List.mem_cons_of_mem _ hstart, .cons_cons hneeds hchain,
    List.forall_mem_cons.2 ⟨⟨[], ho, List.forall_mem_nil _⟩, hlooked⟩, hordered⟩
  · exact fun hd => (List.mem_append.1 hd).elim he hn
  · exact (hpending n List.mem_cons_self).2.tail hneeds

theorem Sound.leave (h : Sound r name ⟨(n, []) :: path, order⟩) :
    Sound r name ⟨path, order ++ [n]⟩ := by
  obtain ⟨hnodup, hpending, hstart, hchain, hlooked, hordered⟩ := h
  obtain ⟨⟨done, ho, hdone⟩, hbelow⟩ := List.forall_mem_cons.1 hlooked
  have hperm : (entered ⟨path, order ++ [n]⟩ ++ (order ++ [n])).Perm
      (entered ⟨(n, []) :: path, order⟩ ++ order) := by
    rw [← List.append_assoc]
    exact List.perm_append_singleton _ _
  refine ⟨hperm.nodup_iff.2 hnodup, fun x hx => hpending x (hperm.mem_iff.1 hx),
    hperm.mem_iff.2 hstart, List.IsChain.of_cons hchain, fun f hf => ?_,
    fun before x after heq y hy => ?_⟩
  · obtain ⟨done', ho', hdone'⟩ := hbelow f hf
    exact ⟨done', ho', fun y hy => (hdone' y hy).imp_left (List.mem_append_left _)⟩
  · rcases List.eq_nil_or_concat after with rfl | ⟨after, z, rfl⟩
    · -- the name that has just been left
      obtain ⟨rfl, hx⟩ := List.append_inj' heq rfl
      cases hx
      exact hdone y (by simpa using ho.needs_iff.1 hy)
    · have hsplit : order ++ [n] = (before ++ x :: after) ++ [z] := by simpa using heq
      exact hordered before x after (List.append_inj_left' hsplit rfl) y hy

theorem Step.sound (h : Step r t t') (hs : Sound r name t) : Sound r name t' := by
  cases h with
  | skip hd => exact hs.skip hd
  | enter ho hn he => exact hs.enter ho hn he
  | leave => exact hs.leave

/-! ## Where a traversal stands -/

theorem Sound.needs_next (h : Sound r name ⟨(n, d :: todo) :: path, order⟩) : r.Needs n d := by
  obtain ⟨done, ho, -⟩ := h.looked _ List.mem_cons_self
  exact ho.needs_iff.2 (List.mem_append_right _ List.mem_cons_self)

/-- A traversal that comes back to a name that it has not left has gone around a cycle. -/
theorem Sound.cyclic (h : Sound r name ⟨(n, d :: todo) :: path, order⟩)
    (hd : d ∈ entered ⟨(n, d :: todo) :: path, order⟩) : TransGen r.Needs d d := by
  have hback : (entered ⟨(n, d :: todo) :: path, order⟩).IsChain fun x y =>
      TransGen r.Needs y x := h.chain.imp fun _ _ => .single
  rcases List.mem_cons.1 hd with rfl | hd
  · exact .single h.needs_next
  · have : Trans (fun x y => TransGen r.Needs y x) (fun x y => TransGen r.Needs y x)
        (fun x y => TransGen r.Needs y x) := ⟨fun h h' => h'.trans h⟩
    exact (hback.rel_cons hd).tail h.needs_next

theorem Sound.notMem_order (h : Sound r name ⟨(n, todo) :: path, order⟩) : n ∉ order := fun hn =>
  (List.nodup_append.1 h.nodup).2.2 n List.mem_cons_self n hn rfl

theorem Sound.notMem_entered (h : Sound r name ⟨(n, todo) :: path, order⟩) :
    n ∉ entered ⟨path, order⟩ :=
  (List.nodup_cons.1 (List.nodup_append.1 h.nodup).1).1

/-- The path is no longer than the registry, since no name is entered twice. -/
theorem Sound.length_path_le (h : Sound r name t) : t.path.length ≤ r.size := by
  have hknown : ∀ x ∈ t.entered, r.get? x ≠ none := by
    intro x hx
    obtain ⟨⟨record, body, hg, -⟩, -⟩ := h.pending x (List.mem_append_left _ hx)
    simp [hg]
  have hl := length_le_size (List.nodup_append.1 h.nodup).1 hknown
  rwa [entered, List.length_map] at hl

/-- A traversal that has left all names that it has entered has left everything that waits below
its first one. -/
theorem Sound.mem_order_iff (hr : r.Resting) (h : Sound r name ⟨[], order⟩) {x : String} :
    x ∈ order ↔ r.Pending name x := by
  refine ⟨h.pending x, ?_⟩
  rintro ⟨hw, hreach⟩
  induction hreach with
  | refl => exact h.start
  | @tail y z _ hz ih =>
    have hy : y ∈ order := ih (hr.waits_of_needs hz)
    obtain ⟨before, after, rfl⟩ := List.append_of_mem hy
    rcases h.ordered before y after rfl z hz with hbefore | hevaluated
    · exact List.mem_append_left _ hbefore
    · exact absurd hevaluated hw.not_isEvaluated

end Traversal

theorem Traverses.sound {t : Traversal} (h : r.Traverses name t) : t.Sound r name := by
  obtain ⟨dependencies, ho, hsteps⟩ := h
  induction hsteps with
  | refl => exact Traversal.sound_start ho
  | tail _ hstep ih => exact hstep.sound ih

/-- Two traversals from one name are parts of one. -/
theorem Traverses.total {t u : Traversal} (h : r.Traverses name t) (h' : r.Traverses name u) :
    ReflTransGen (Traversal.Step r) t u ∨ ReflTransGen (Traversal.Step r) u t := by
  obtain ⟨l, ho, ht⟩ := h
  obtain ⟨l', ho', hu⟩ := h'
  rw [ho'.unique ho] at hu
  exact ReflTransGen.total_of_right_unique (fun _ _ _ h h' => h.unique h') ht hu

/-- A name that is about to be left comes next in the order of a traversal that is over. -/
theorem Traverses.order_extends {n : String} {before order : List String}
    {path : List (String × List String)} (h : r.Traverses name ⟨(n, []) :: path, before⟩)
    (h' : r.Traverses name ⟨[], order⟩) : before ++ [n] <+: order := by
  rcases h.total h' with hsteps | hsteps
  · rcases hsteps.cases_head with heq | ⟨t, hstep, hrest⟩
    · cases heq
    · cases hstep
      exact Traversal.order_extends hrest
  · rcases hsteps.cases_head with heq | ⟨t, hstep, -⟩
    · cases heq
    · cases hstep

end ModuleLoader.Registry
