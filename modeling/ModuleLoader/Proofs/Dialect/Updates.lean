import ModuleLoader.Proofs.Dialect.Writes

/-! # Updates of a computed place

`this[e] += v` and `this[e]++` read the global binding that `e` names and write one that `e` names.
They evaluate `e` for each of the two. If `e` assigns, its writes are made twice, and the binding
that is written need not be the one that was read.
-/

namespace ModuleLoader.Dialect

/-- How the binding that an expression names is updated: by a sum with a value, or by one. -/
inductive Update where
  | plus (value : Expression)
  | increment

namespace Update

/-- The expression of an update. -/
def expression (key : Expression) : Update → Expression
  | plus value => .assign true (.index .self key) value
  | increment => .increment (.index .self key)

/-- What an update evaluates before it reads. -/
def operand : Update → Run Value
  | plus value => eval value
  | increment => pure .undefined

/-- What the operand writes. -/
def operandWrites : Update → Scope → List Write
  | plus value => writes value
  | increment => fun _ => []

/-- The new value of the binding. -/
def newValue (old v : Value) : Update → Value
  | plus _ => operate .add old v
  | increment => .number (toNumber old + 1.0)

/-- The value of an update. -/
def result (old v : Value) : Update → Value
  | plus _ => operate .add old v
  | increment => .number (toNumber old)

/-- The update of one place: its name is computed once, and what it named is read and written. -/
def once (key : Expression) (u : Update) : Run Value := do
  let v ← u.operand
  let k ← eval key
  let old := (← get).global k.text
  setGlobal k.text (u.newValue old v)
  return u.result old v

/-- What the update of one place writes: what the operand does, what the computation of the name
does, and the new value. -/
def onceWrites (key : Expression) (u : Update) : Scope → List Write :=
  writesThen u.operand u.operandWrites fun v =>
    writesThen (eval key) (writes key) fun k s =>
      [⟨.global k.text, u.newValue (s.global k.text) v⟩]

theorem records_once (key : Expression) (u : Update) : Records (u.onceWrites key) (u.once key) := by
  have hoperand : Records u.operandWrites u.operand := by
    cases u with
    | plus value => exact records_eval value
    | increment => exact .pure _
  exact hoperand.bind fun v => (records_eval key).bind fun k => fun _ => rfl

/-- An update computes the name of the binding again when it has read it. -/
theorem eval_expression (key : Expression) (u : Update) : eval (u.expression key) =
    u.operand >>= fun v => eval key >>= fun k => get >>= fun s =>
      assignTo (.index .self key) (u.newValue (s.global k.text) v) >>= fun _ =>
        pure (u.result (s.global k.text) v) := by
  cases u with
  | plus value =>
    rw [expression, eval]
    refine bind_congr fun v => ?_
    rw [if_pos rfl, eval]
    simp only [bind_assoc, pure_bind]
    rfl
  | increment =>
    rw [expression, eval, eval, operand, pure_bind]
    simp only [bind_assoc, pure_bind]
    rfl

theorem writes_expression (key : Expression) (u : Update) : writes (u.expression key) =
    writesThen u.operand u.operandWrites fun v =>
      writesThen (eval key) (writes key) fun k s =>
        writesTo (.index .self key) (u.newValue (s.global k.text) v) s := by
  have hread (k : Value → Scope → List Write) :
      writesThen (eval (.index .self key)) (writes (.index .self key)) k =
        writesThen (eval key) (writes key) fun v s => k (s.global v.text) s := by
    funext s
    rw [writesThen, writesThen, eval, writes]
    rcases hr : (eval key).run.run s with ⟨result, s'⟩
    cases result with
    | ok v =>
      rw [run_bind_of_ok hr, run_bind_of_ok (run_get s'), writesThen_of_ok hr, writes,
        List.append_nil]
      rfl
    | error cause =>
      rw [run_bind_of_error hr, writesThen_of_error hr]
  cases u with
  | plus value =>
    rw [expression, writes]
    simp only [hread]
    rfl
  | increment =>
    funext s
    have hpure : (increment.operand).run.run s = (.ok .undefined, s) := rfl
    rw [expression, writes, hread, writesThen_of_ok hpure]
    rfl

section Once

variable {u : Update} {key : Expression} {s s₁ s₂ : Scope} {v k : Value}

/-- What an update does once the name of the binding is known: it computes the name again, and
writes where that leads. -/
theorem run_expression (hv : u.operand.run.run s = (.ok v, s₁))
    (hk : (eval key).run.run s₁ = (.ok k, s₂)) :
    (eval (u.expression key)).run.run s =
      (assignTo (.index .self key) (u.newValue (s₂.global k.text) v) >>= fun _ =>
        pure (u.result (s₂.global k.text) v)).run.run s₂ := by
  rw [eval_expression, run_bind_of_ok hv, run_bind_of_ok hk, run_bind_of_ok (run_get s₂)]

theorem writes_expression_of_ok (hv : u.operand.run.run s = (.ok v, s₁))
    (hk : (eval key).run.run s₁ = (.ok k, s₂)) :
    writes (u.expression key) s = u.operandWrites s ++ (writes key s₁ ++ (writes key s₂ ++
      match (eval key).run.run s₂ with
      | (.ok k', _) => [⟨.global k'.text, u.newValue (s₂.global k.text) v⟩]
      | (.error _, _) => [])) := by
  rw [writes_expression, writesThen_of_ok hv, writesThen_of_ok hk, writesTo, writesThen]
  rcases (eval key).run.run s₂ with ⟨_ | _, _⟩ <;> rfl

theorem run_once (hv : u.operand.run.run s = (.ok v, s₁))
    (hk : (eval key).run.run s₁ = (.ok k, s₂)) :
    ((u.once key).run.run s).1 = .ok (u.result (s₂.global k.text) v) := by
  rw [once, run_bind_of_ok hv, run_bind_of_ok hk, run_bind_of_ok (run_get s₂)]
  rfl

theorem onceWrites_of_ok (hv : u.operand.run.run s = (.ok v, s₁))
    (hk : (eval key).run.run s₁ = (.ok k, s₂)) :
    u.onceWrites key s = u.operandWrites s ++ (writes key s₁ ++
      [⟨.global k.text, u.newValue (s₂.global k.text) v⟩]) := by
  rw [onceWrites, writesThen_of_ok hv, writesThen_of_ok hk]

/-- An update whose name cannot be computed stops in both forms alike. -/
theorem once_of_error (h : ∀ k s', (u.operand >>= fun _ => eval key).run.run s ≠ (.ok k, s')) :
    (eval (u.expression key)).run.run s = (u.once key).run.run s ∧
      writes (u.expression key) s = u.onceWrites key s := by
  rw [eval_expression, once, writes_expression, onceWrites]
  rcases hv : u.operand.run.run s with ⟨result, s₁⟩
  cases result with
  | error cause =>
    rw [run_bind_of_error hv, run_bind_of_error hv, writesThen_of_error hv,
      writesThen_of_error hv]
    exact ⟨rfl, rfl⟩
  | ok v =>
    rw [run_bind_of_ok hv, run_bind_of_ok hv, writesThen_of_ok hv, writesThen_of_ok hv]
    rcases hk : (eval key).run.run s₁ with ⟨result, s₂⟩
    cases result with
    | error cause =>
      rw [run_bind_of_error hk, run_bind_of_error hk, writesThen_of_error hk,
        writesThen_of_error hk]
      exact ⟨rfl, rfl⟩
    | ok k => exact absurd (run_bind_eq_ok_iff.2 ⟨v, s₁, hv, hk⟩) (h k s₂)

/-- A name that is computed without assignments is computed again. -/
theorem eval_again (h : key.assigns = false) (hk : (eval key).run.run s₁ = (.ok k, s₂)) :
    ∃ k' s₃, (eval key).run.run s₂ = (.ok k', s₃) ∧ k'.text = k.text := by
  have hs := records_eval key s₁
  rw [hk, writes_eq_nil key h] at hs
  obtain ⟨hresult, -⟩ := eval_alike key h s₁ s₂ hs
  rw [hk] at hresult
  rcases hk' : (eval key).run.run s₂ with ⟨result, s₃⟩
  rw [hk'] at hresult
  cases result with
  | error cause => cases hresult
  | ok k' => exact ⟨k', s₃, rfl, text_unnumbered (Except.ok.inj hresult)⟩

end Once

/-- An update changes the bindings by its writes alone. It acts on one place, that is, it has the
value and the writes of the update that computes the name of the binding once, exactly if nothing in
the expression of the name assigns or that expression never comes to its value. -/
theorem acts_once_iff (u : Update) (key : Expression) (s : Scope) :
    ((eval (u.expression key)).run.run s).2.bindings =
        s.bindings.writeAll (writes (u.expression key) s) ∧
      ((u.once key).run.run s).2.bindings = s.bindings.writeAll (u.onceWrites key s) ∧
      (((eval (u.expression key)).run.run s).1 = ((u.once key).run.run s).1 ∧
          writes (u.expression key) s = u.onceWrites key s ↔
        key.assigns = false ∨
          ∀ k s', (u.operand >>= fun _ => eval key).run.run s ≠ (.ok k, s')) := by
  refine ⟨records_eval _ s, records_once key u s, ?_⟩
  by_cases hread : ∃ k s', (u.operand >>= fun _ => eval key).run.run s = (.ok k, s')
  · obtain ⟨k, s₂, hread⟩ := hread
    obtain ⟨v, s₁, hv, hk⟩ := run_bind_eq_ok_iff.1 hread
    rw [run_expression hv hk, writes_expression_of_ok hv hk, run_once hv hk,
      onceWrites_of_ok hv hk, assignTo, bind_assoc]
    constructor
    · rintro ⟨hresult, hwrites⟩
      refine .inl (Bool.eq_false_iff.2 fun hassigns => ?_)
      rcases hk' : (eval key).run.run s₂ with ⟨result, s₃⟩
      cases result with
      | error cause =>
        rw [run_bind_of_error hk'] at hresult
        cases hresult
      | ok k' =>
        -- the second computation has made at least one write more
        rw [hk'] at hwrites
        have hlength := congrArg List.length
          (List.append_cancel_left (List.append_cancel_left hwrites))
        rw [List.length_append] at hlength
        exact writes_ne_nil key hassigns hk' (List.length_eq_zero_iff.1 (by simpa using hlength))
    · intro h
      have hassigns := h.resolve_right fun hn => hn k s₂ hread
      obtain ⟨k', s₃, hk', htext⟩ := eval_again hassigns hk
      rw [run_bind_of_ok hk', hk', writes_eq_nil key hassigns s₂, List.nil_append]
      refine ⟨rfl, ?_⟩
      simp only [htext]
  · simp only [not_exists] at hread
    obtain ⟨hresult, hwrites⟩ := once_of_error hread
    exact iff_of_true ⟨congrArg Prod.fst hresult, hwrites⟩ (.inr hread)

/-- The name of the second binding is one `x` longer than that of the first. -/
def growing : Expression := .assign true (.identifier "a") (.string "x")

/-- A script in a realm where the name that grows is empty. -/
def growingScope : Scope :=
  ⟨⟨.ofList [("a", .string ""), ("x", .string "1"), ("xx", .string "2")], 0⟩, none⟩

/-- `this[a += "x"] += "y"` appends to `a` twice, reads `x` and writes `xx`. -/
theorem update_moves_on :
    ((eval ((plus (.string "y")).expression growing)).run.run growingScope).2.bindings.globals =
        .ofList [("a", .string "xx"), ("x", .string "1"), ("xx", .string "1y")] ∧
      (((plus (.string "y")).once growing).run.run growingScope).2.bindings.globals =
        .ofList [("a", .string "x"), ("x", .string "1y"), ("xx", .string "2")] ∧
      (writes ((plus (.string "y")).expression growing) growingScope).length = 3 ∧
      ((plus (.string "y")).onceWrites growing growingScope).length = 2 :=
  ⟨rfl, rfl, rfl, rfl⟩

end Update

end ModuleLoader.Dialect
