import Mathlib.Logic.Basic
import ModuleLoader.Proofs.Dialect.Acts

/-! # What an expression writes

The bindings that an expression makes anew, in the order in which it makes them. They are all that
an expression changes, and it makes none exactly if no assignment and no increment stands in it.
-/

namespace ModuleLoader.Dialect

namespace Bindings

/-- Bind values one after the other. -/
def writeAll (b : Bindings) (ws : List Write) : Bindings := ws.foldl write b

theorem writeAll_append (b : Bindings) (before after : List Write) :
    b.writeAll (before ++ after) = (b.writeAll before).writeAll after :=
  List.foldl_append

end Bindings

section Steps

variable {α β : Type}

/-- The writes of a step, and those of what goes on from its result. -/
def writesThen (m : Run α) (w : Scope → List Write) (k : α → Scope → List Write) (s : Scope) :
    List Write :=
  w s ++ match m.run.run s with
    | (.ok a, s') => k a s'
    | (.error _, _) => []

theorem writesThen_of_ok {m : Run α} {s s' : Scope} {a : α} (h : m.run.run s = (.ok a, s'))
    (w : Scope → List Write) (k : α → Scope → List Write) :
    writesThen m w k s = w s ++ k a s' := by
  rw [writesThen, h]

theorem writesThen_of_error {m : Run α} {s s' : Scope} {cause : RunCause}
    (h : m.run.run s = (.error cause, s')) (w : Scope → List Write) (k : α → Scope → List Write) :
    writesThen m w k s = w s := by
  rw [writesThen, h, List.append_nil]

/-- A step changes the bindings by some writes and in no other way. -/
def Records (w : Scope → List Write) (m : Run α) : Prop :=
  ∀ s, (m.run.run s).2.bindings = s.bindings.writeAll (w s)

namespace Records

theorem pure (a : α) : Records (fun _ => []) (Pure.pure a) := fun _ => rfl

theorem throw (cause : RunCause) :
    Records (fun _ => []) (MonadExcept.throw cause : Run α) := fun _ => rfl

theorem lift (x : Except RunCause α) : Records (fun _ => []) (liftExcept x) := by
  cases x <;> exact fun _ => rfl

theorem bind {m : Run α} {k : α → Run β} {w : Scope → List Write} {wk : α → Scope → List Write}
    (hm : Records w m) (hk : ∀ a, Records (wk a) (k a)) :
    Records (writesThen m w wk) (m >>= k) := by
  intro s
  have hs := hm s
  rcases hr : m.run.run s with ⟨result, s'⟩
  rw [hr] at hs
  cases result with
  | ok a => rw [run_bind_of_ok hr, writesThen_of_ok hr, hk a s', hs, Bindings.writeAll_append]
  | error cause => rw [run_bind_of_error hr, writesThen_of_error hr, hs]

/-- What goes on without writes adds none. -/
theorem bind_nil {m : Run α} {k : α → Run β} {w : Scope → List Write} (hm : Records w m)
    (hk : ∀ a, Records (fun _ => []) (k a)) : Records w (m >>= k) := by
  intro s
  have hs := hm.bind hk s
  rw [hs, writesThen]
  split <;> rw [List.append_nil]

end Records

end Steps

/-! ## Expressions -/

mutual

/-- What an expression writes. -/
def writes : Expression → Scope → List Write
  | .array elements => writesAll elements
  | .member object _ => writes object
  | .index object key => writesThen (eval key) (writes key) fun _ => writes object
  | .negate operand => writes operand
  | .binary _ left right => writesThen (eval left) (writes left) fun _ => writes right
  | .assign true target value => writesThen (eval value) (writes value) fun v =>
      writesThen (eval target) (writes target) fun current =>
        writesTo target (operate .add current v)
  | .assign false target value => writesThen (eval value) (writes value) (writesTo target)
  | .increment target => writesThen (eval target) (writes target) fun old =>
      writesTo target (.number (toNumber old + 1.0))
  | .number _ | .string _ | .boolean _ | .null | .identifier _ | .self => fun _ => []

/-- What several expressions write, from left to right. -/
def writesAll : List Expression → Scope → List Write
  | [] => fun _ => []
  | e :: rest => writesThen (eval e) (writes e) fun _ => writesAll rest

/-- What the assignment of a value writes. -/
def writesTo : Expression → Value → Scope → List Write
  | .identifier name, v => fun s => [⟨s.placeOf name, v⟩]
  | .member .self name, v => fun _ => [⟨.global name, v⟩]
  | .index .self key, v => writesThen (eval key) (writes key) fun k _ => [⟨.global k.text, v⟩]
  | _, _ => fun _ => []

end

mutual

/-- An expression changes the bindings by its writes and in no other way. -/
theorem records_eval (e : Expression) : Records (writes e) (eval e) := by
  cases e with
  | identifier name =>
    rw [eval, writes]
    intro s
    rw [run_bind_of_ok (run_get s)]
    cases s.lookup? name <;> rfl
  | self =>
    rw [eval, writes]
    exact fun _ => rfl
  | array elements =>
    rw [eval, writes]
    exact (records_evalAll elements).bind_nil fun vs => .pure _
  | member object property =>
    rw [writes]
    by_cases ho : object = .self
    · subst ho
      rw [eval, writes]
      exact fun _ => rfl
    · rw [eval_member ho]
      exact (records_eval object).bind_nil fun v => .lift _
  | index object key =>
    rw [writes]
    by_cases ho : object = .self
    · subst ho
      rw [eval, writes]
      exact (records_eval key).bind fun k => fun _ => rfl
    · rw [eval_index ho]
      exact (records_eval key).bind fun k => (records_eval object).bind_nil fun v => .lift _
  | negate operand =>
    rw [eval, writes]
    exact (records_eval operand).bind_nil fun v => .pure _
  | binary op left right =>
    rw [eval, writes]
    exact (records_eval left).bind fun l => (records_eval right).bind_nil fun r => .pure _
  | assign adding target value =>
    have hassigned (v : Value) : Records (writesTo target v) (assignTo target v >>= fun _ => pure v) :=
      (records_assignTo target v).bind_nil fun _ => .pure v
    cases adding with
    | true =>
      rw [eval, writes]
      refine (records_eval value).bind fun v => ?_
      rw [if_pos rfl]
      refine (records_eval target).bind fun current => ?_
      rw [pure_bind]
      exact hassigned _
    | false =>
      rw [eval, writes]
      exact (records_eval value).bind hassigned
  | increment target =>
    rw [eval, writes]
    exact (records_eval target).bind fun old => (records_assignTo target _).bind_nil fun _ => .pure _
  | _ =>
    rw [eval, writes]
    exact .pure _

theorem records_evalAll (es : List Expression) : Records (writesAll es) (evalAll es) := by
  cases es with
  | nil => exact .pure []
  | cons e rest =>
    rw [evalAll, writesAll]
    exact (records_eval e).bind fun v => (records_evalAll rest).bind_nil fun vs => .pure _

theorem records_assignTo (target : Expression) (v : Value) :
    Records (writesTo target v) (assignTo target v) := by
  cases target with
  | identifier name =>
    rw [assignTo, writesTo]
    exact fun s => s.bindings_store name v
  | member object property =>
    cases object with
    | self => exact fun _ => rfl
    | _ => exact .throw _
  | index object key =>
    cases object with
    | self =>
      rw [assignTo, writesTo]
      exact (records_eval key).bind fun k => fun _ => rfl
    | _ => exact .throw _
  | _ => exact .throw _

end

/-! ## Expressions that assign -/

mutual

/-- An assignment or an increment stands in an expression. -/
def Expression.assigns : Expression → Bool
  | array elements => Expression.assignAny elements
  | member object _ => object.assigns
  | index object key => key.assigns || object.assigns
  | negate operand => operand.assigns
  | binary _ left right => left.assigns || right.assigns
  | assign _ _ _ | increment _ => true
  | number _ | string _ | boolean _ | null | identifier _ | self => false

/-- An assignment or an increment stands in one of several expressions. -/
def Expression.assignAny : List Expression → Bool
  | [] => false
  | e :: rest => e.assigns || Expression.assignAny rest

end

section Assigning

variable {α β : Type}

theorem writesThen_nil {m : Run α} {w : Scope → List Write} {k : α → Scope → List Write}
    {s : Scope} (hw : w s = []) (hk : ∀ a s', k a s' = []) : writesThen m w k s = [] := by
  rw [writesThen, hw]
  split
  · exact hk _ _
  · rfl

mutual

theorem writes_eq_nil (e : Expression) (h : e.assigns = false) (s : Scope) : writes e s = [] := by
  cases e with
  | array elements => exact writesAll_eq_nil elements h s
  | member object property => exact writes_eq_nil object h s
  | index object key =>
    obtain ⟨hk, ho⟩ := Bool.or_eq_false_iff.1 h
    exact writesThen_nil (writes_eq_nil key hk s) fun _ => writes_eq_nil object ho
  | negate operand => exact writes_eq_nil operand h s
  | binary op left right =>
    obtain ⟨hl, hr⟩ := Bool.or_eq_false_iff.1 h
    exact writesThen_nil (writes_eq_nil left hl s) fun _ => writes_eq_nil right hr
  | assign adding target value => cases h
  | increment target => cases h
  | _ => rfl

theorem writesAll_eq_nil (es : List Expression) (h : Expression.assignAny es = false) (s : Scope) :
    writesAll es s = [] := by
  cases es with
  | nil => rfl
  | cons e rest =>
    obtain ⟨he, hrest⟩ := Bool.or_eq_false_iff.1 h
    exact writesThen_nil (writes_eq_nil e he s) fun _ => writesAll_eq_nil rest hrest

end

theorem writesThen_ne_nil {m : Run α} {s s' : Scope} {a : α} (hm : m.run.run s = (.ok a, s'))
    {w : Scope → List Write} {k : α → Scope → List Write} (h : w s ≠ [] ∨ k a s' ≠ []) :
    writesThen m w k s ≠ [] := by
  rw [writesThen_of_ok hm]
  simpa [imp_iff_not_or] using h

theorem writesTo_ne_nil {target : Expression} {v : Value} {s s' : Scope}
    (h : (assignTo target v).run.run s = (.ok (), s')) : writesTo target v s ≠ [] := by
  cases target with
  | identifier name => simp [writesTo]
  | member object property =>
    cases object with
    | self => simp [writesTo]
    | _ => cases h
  | index object key =>
    cases object with
    | self =>
      rw [assignTo, run_bind_eq_ok_iff] at h
      obtain ⟨k, s₁, hk, -⟩ := h
      rw [writesTo]
      exact writesThen_ne_nil hk (.inr (by simp))
    | _ => cases h
  | _ => cases h

mutual

/-- An expression with an assignment that comes to its value has made it. -/
theorem writes_ne_nil (e : Expression) (h : e.assigns = true) {s s' : Scope} {v : Value}
    (hr : (eval e).run.run s = (.ok v, s')) : writes e s ≠ [] := by
  cases e with
  | array elements =>
    rw [eval, run_bind_eq_ok_iff] at hr
    obtain ⟨vs, s₁, hvs, -⟩ := hr
    exact writesAll_ne_nil elements h hvs
  | member object property =>
    have ho : object ≠ .self := by
      rintro rfl
      cases h
    rw [eval_member ho, run_bind_eq_ok_iff] at hr
    obtain ⟨v, s₁, hv, -⟩ := hr
    exact writes_ne_nil object h hv
  | index object key =>
    rw [writes]
    rw [Expression.assigns, Bool.or_eq_true] at h
    by_cases ho : object = .self
    · subst ho
      rw [eval, run_bind_eq_ok_iff] at hr
      obtain ⟨k, s₁, hk, -⟩ := hr
      have hkey : key.assigns = true := h.resolve_right Bool.false_ne_true
      exact writesThen_ne_nil hk (.inl (writes_ne_nil key hkey hk))
    · rw [eval_index ho, run_bind_eq_ok_iff] at hr
      obtain ⟨k, s₁, hk, hr⟩ := hr
      obtain ⟨v, s₂, hv, -⟩ := run_bind_eq_ok_iff.1 hr
      exact writesThen_ne_nil hk
        (h.imp (writes_ne_nil key · hk) (writes_ne_nil object · hv))
  | negate operand =>
    rw [eval, run_bind_eq_ok_iff] at hr
    obtain ⟨v, s₁, hv, -⟩ := hr
    exact writes_ne_nil operand h hv
  | binary op left right =>
    rw [eval, run_bind_eq_ok_iff] at hr
    obtain ⟨l, s₁, hl, hr⟩ := hr
    obtain ⟨r, s₂, hr, -⟩ := run_bind_eq_ok_iff.1 hr
    rw [Expression.assigns, Bool.or_eq_true] at h
    exact writesThen_ne_nil hl (h.imp (writes_ne_nil left · hl) (writes_ne_nil right · hr))
  | assign adding target value =>
    rw [eval, run_bind_eq_ok_iff] at hr
    obtain ⟨v, s₁, hv, hr⟩ := hr
    cases adding with
    | true =>
      rw [if_pos rfl, run_bind_eq_ok_iff] at hr
      obtain ⟨current, s₂, hcurrent, hr⟩ := hr
      rw [pure_bind, run_bind_eq_ok_iff] at hr
      obtain ⟨_, s₃, hassigned, -⟩ := hr
      rw [writes]
      exact writesThen_ne_nil hv (.inr (writesThen_ne_nil hcurrent (.inr
        (writesTo_ne_nil hassigned))))
    | false =>
      rw [if_neg Bool.false_ne_true, pure_bind, run_bind_eq_ok_iff] at hr
      obtain ⟨_, s₂, hassigned, -⟩ := hr
      rw [writes]
      exact writesThen_ne_nil hv (.inr (writesTo_ne_nil hassigned))
  | increment target =>
    rw [eval, run_bind_eq_ok_iff] at hr
    obtain ⟨old, s₁, hold, hr⟩ := hr
    obtain ⟨_, s₂, hassigned, -⟩ := run_bind_eq_ok_iff.1 hr
    rw [writes]
    exact writesThen_ne_nil hold (.inr (writesTo_ne_nil hassigned))
  | _ => cases h

theorem writesAll_ne_nil (es : List Expression) (h : Expression.assignAny es = true)
    {s s' : Scope} {vs : List Value} (hr : (evalAll es).run.run s = (.ok vs, s')) :
    writesAll es s ≠ [] := by
  cases es with
  | nil => cases h
  | cons e rest =>
    rw [evalAll, run_bind_eq_ok_iff] at hr
    obtain ⟨v, s₁, hv, hr⟩ := hr
    obtain ⟨vs, s₂, hvs, -⟩ := run_bind_eq_ok_iff.1 hr
    rw [Expression.assignAny, Bool.or_eq_true] at h
    rw [writesAll]
    exact writesThen_ne_nil hv (h.imp (writes_ne_nil e · hv) (writesAll_ne_nil rest · hvs))

end

end Assigning

/-! ## Expressions that only read -/

section Reading

variable {α α' β β' γ δ : Type}

/-- From the same bindings two steps come to results that are the same to a map, and to the same
bindings. -/
def Alike (g : α → γ) (m m' : Run α) : Prop :=
  ∀ s s', s'.bindings = s.bindings → (m'.run.run s').1.map g = (m.run.run s).1.map g ∧
    (m'.run.run s').2.bindings = (m.run.run s).2.bindings

namespace Alike

theorem pure {g : α → γ} {a a' : α} (h : g a' = g a) : Alike g (Pure.pure a) (Pure.pure a') :=
  fun _ _ hs => ⟨congrArg Except.ok h, hs⟩

theorem lift {g : α → γ} {x x' : Except RunCause α} (h : x'.map g = x.map g) :
    Alike g (liftExcept x) (liftExcept x') := by
  intro s s' hs
  cases x <;> cases x' <;> exact ⟨h, hs⟩

theorem bind {g : α → γ} {g' : β → δ} {m m' : Run α} {k k' : α → Run β} (hm : Alike g m m')
    (hk : ∀ a a', g a' = g a → Alike g' (k a) (k' a')) : Alike g' (m >>= k) (m' >>= k') := by
  intro s s' hs
  obtain ⟨hresult, hscope⟩ := hm s s' hs
  rcases hr : m.run.run s with ⟨result, s₁⟩
  rcases hr' : m'.run.run s' with ⟨result', s₁'⟩
  rw [hr, hr'] at hresult hscope
  cases result with
  | ok a =>
    cases result' with
    | ok a' =>
      rw [run_bind_of_ok hr, run_bind_of_ok hr']
      exact hk a a' (Except.ok.inj hresult) s₁ s₁' hscope
    | error cause => cases hresult
  | error cause =>
    cases result' with
    | ok a' => cases hresult
    | error cause' =>
      cases hresult
      rw [run_bind_of_error hr, run_bind_of_error hr']
      exact ⟨rfl, hscope⟩

end Alike

/-- The value with the same number for all instances. -/
abbrev unnumbered : Value → Value := Value.renumber fun _ => 0

section Unnumbered

variable {v v' w w' : Value}

theorem text_unnumbered (h : unnumbered v' = unnumbered v) : v'.text = v.text := by
  rw [← Value.text_renumber (fun _ => 0) v', ← Value.text_renumber (fun _ => 0) v]
  exact congrArg Value.text h

theorem toNumber_unnumbered (h : unnumbered v' = unnumbered v) : toNumber v' = toNumber v := by
  rw [← toNumber_renumber (fun _ => 0) v', ← toNumber_renumber (fun _ => 0) v]
  exact congrArg toNumber h

theorem operate_unnumbered (op : BinaryOp) (h : unnumbered v' = unnumbered v)
    (hw : unnumbered w' = unnumbered w) :
    unnumbered (operate op v' w') = unnumbered (operate op v w) := by
  rw [unnumbered, ← operate_renumber, ← operate_renumber]
  exact congrArg₂ (operate op) h hw

theorem property_unnumbered (h : unnumbered v' = unnumbered v) (name : String) :
    (property v' name).map unnumbered = (property v name).map unnumbered := by
  rw [← property_renumber, ← property_renumber]
  exact congrArg (property · name) h

theorem element_unnumbered (h : unnumbered v' = unnumbered v)
    (hw : unnumbered w' = unnumbered w) :
    (element v' w').map unnumbered = (element v w).map unnumbered := by
  rw [← element_renumber, ← element_renumber]
  exact congrArg₂ element h hw

end Unnumbered

/-- What is read from the scope depends on its bindings only. -/
theorem Alike.get {g : α → γ} {f : Scope → α} (h : ∀ s s', s'.bindings = s.bindings → f s' = f s) :
    Alike g (MonadState.get >>= fun s => Pure.pure (f s)) (MonadState.get >>= fun s => Pure.pure (f s)) := by
  intro s s' hs
  rw [run_bind_of_ok (run_get s), run_bind_of_ok (run_get s')]
  exact ⟨congrArg (fun a => Except.ok (g a)) (h s s' hs), hs⟩

theorem global_of_bindings {s s' : Scope} (h : s'.bindings = s.bindings) (name : String) :
    s'.global name = s.global name := by
  have hglobals : s'.realm.globals = s.realm.globals := congrArg Bindings.globals h
  rw [Scope.global, Scope.global, hglobals]

theorem lookup?_of_bindings {s s' : Scope} (h : s'.bindings = s.bindings) (name : String) :
    s'.lookup? name = s.lookup? name := by
  obtain ⟨hglobals, hlocals⟩ := Bindings.mk.inj h
  rw [Scope.lookup?, Scope.lookup?, hglobals, hlocals]

theorem snapshot_alike : Alike unnumbered snapshot snapshot := by
  intro s s' hs
  have hglobals : s'.realm.globals = s.realm.globals := congrArg Bindings.globals hs
  refine ⟨?_, hs⟩
  change Except.ok (unnumbered (.ofNamespace s'.realm.instances s'.realm.globals.entries)) =
    Except.ok (unnumbered (.ofNamespace s.realm.instances s.realm.globals.entries))
  rw [hglobals]
  rfl

mutual

/-- An expression that assigns nothing has the same value in the same bindings, up to the numbers of
instances. -/
theorem eval_alike (e : Expression) (h : e.assigns = false) :
    Alike unnumbered (eval e) (eval e) := by
  cases e with
  | identifier name =>
    intro s s' hs
    rw [eval, run_bind_of_ok (run_get s), run_bind_of_ok (run_get s'), lookup?_of_bindings hs]
    cases s.lookup? name <;> exact ⟨rfl, hs⟩
  | self =>
    rw [eval]
    exact snapshot_alike
  | array elements =>
    rw [eval]
    exact (evalAll_alike elements h).bind fun vs vs' hvs => .pure (congrArg Value.array hvs)
  | member object property =>
    by_cases ho : object = .self
    · subst ho
      rw [eval]
      exact .get fun s s' hs => global_of_bindings hs property
    · rw [eval_member ho]
      exact (eval_alike object h).bind fun v v' hv => .lift (property_unnumbered hv property)
  | index object key =>
    obtain ⟨hk, ho⟩ := Bool.or_eq_false_iff.1 h
    by_cases hself : object = .self
    · subst hself
      rw [eval]
      refine (eval_alike key hk).bind fun k k' hk => ?_
      rw [text_unnumbered hk]
      exact .get fun s s' hs => global_of_bindings hs k.text
    · rw [eval_index hself]
      exact (eval_alike key hk).bind fun k k' hk => (eval_alike object ho).bind fun v v' hv =>
        .lift (element_unnumbered hv hk)
  | negate operand =>
    rw [eval]
    refine (eval_alike operand h).bind fun v v' hv => .pure ?_
    rw [toNumber_unnumbered hv]
  | binary op left right =>
    obtain ⟨hl, hr⟩ := Bool.or_eq_false_iff.1 h
    rw [eval]
    exact (eval_alike left hl).bind fun l l' hl => (eval_alike right hr).bind fun r r' hr =>
      .pure (operate_unnumbered op hl hr)
  | assign adding target value => cases h
  | increment target => cases h
  | _ =>
    rw [eval]
    exact .pure rfl

theorem evalAll_alike (es : List Expression) (h : Expression.assignAny es = false) :
    Alike (Value.renumberAll fun _ => 0) (evalAll es) (evalAll es) := by
  cases es with
  | nil => exact .pure rfl
  | cons e rest =>
    obtain ⟨he, hrest⟩ := Bool.or_eq_false_iff.1 h
    rw [evalAll]
    exact (eval_alike e he).bind fun v v' hv => (evalAll_alike rest hrest).bind fun vs vs' hvs =>
      .pure (congrArg₂ List.cons hv hvs)

end

end Reading

end ModuleLoader.Dialect
