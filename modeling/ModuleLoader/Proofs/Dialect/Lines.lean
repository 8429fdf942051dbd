import ModuleLoader.Proofs.Dialect.StatementRows

/-! # Lines of canonical text

The canonical text of a well-formed statement stands on one line, whatever its strings hold.
-/

namespace ModuleLoader.Dialect

/-- A text without a line break. -/
def OneLine (text : List Char) : Prop := '\n' ∉ text

instance (text : List Char) : Decidable (OneLine text) := inferInstanceAs (Decidable (_ ∉ text))

section Texts

variable {a b : List Char}

theorem OneLine.append (ha : OneLine a) (hb : OneLine b) : OneLine (a ++ b) := by
  rw [OneLine, List.mem_append, not_or]
  exact ⟨ha, hb⟩

theorem OneLine.cons {c : Char} (hc : c ≠ '\n') (ha : OneLine a) : OneLine (c :: a) := by
  rw [OneLine, List.mem_cons, not_or]
  exact ⟨hc.symm, ha⟩

theorem oneLine_word (h : IsWord a) : OneLine a := by
  obtain ⟨c, rest, rfl, hc, hr⟩ := h
  refine .cons (ne_of_startsName hc (by decide)) fun hm => ?_
  exact absurd (hr _ hm) (by decide)

theorem oneLine_escape (c : Char) : OneLine (escape c) := by
  rw [escape]
  repeat' split
  all_goals first
    | decide
    | simp [OneLine, eq_comm, *]

theorem oneLine_quoted (s : String) : OneLine (quoted s) := by
  refine .cons (by decide) (.append ?_ (by decide))
  intro h
  obtain ⟨c, -, hc⟩ := List.mem_flatMap.1 h
  exact oneLine_escape c hc

theorem oneLine_digits (h : ∀ c ∈ a, c.isDigit) : OneLine a :=
  fun hm => absurd (h _ hm) (by decide)

theorem oneLine_numeral (h : IsNumeral a) : OneLine a := by
  cases h with
  | whole hd => exact oneLine_digits hd
  | pointed hd _ he => exact (oneLine_digits hd).append (.cons (by decide) (oneLine_digits he))

theorem oneLine_commaList {texts : List (List Char)} (h : ∀ t ∈ texts, OneLine t) :
    OneLine (commaList texts) := by
  fun_induction commaList texts with
  | case1 => exact List.not_mem_nil
  | case2 t => exact h t List.mem_cons_self
  | case3 t u rest ih =>
    exact (h t List.mem_cons_self).append (.cons (by decide) (.cons (by decide)
      (ih fun s hs => h s (List.mem_cons_of_mem _ hs))))

theorem oneLine_braced {texts : List (List Char)} (h : ∀ t ∈ texts, OneLine t) :
    OneLine (braced texts) :=
  .cons (by decide) ((oneLine_commaList h).append (by decide))

theorem oneLine_renamed {first second : String} (h : IsName first) (h' : IsName second) :
    OneLine (printRenamed first second) := by
  rw [printRenamed]
  split
  · exact oneLine_word h.isWord
  · exact ((oneLine_word h.isWord).append (by decide)).append (oneLine_word h'.isWord)

end Texts

/-! ## Expressions -/

namespace Expression

theorem oneLine_enclosed {text : List Char} (h : OneLine text) (wanted : Bool) :
    OneLine (enclosed wanted text) := by
  cases wanted with
  | false => exact h
  | true => exact .cons (by decide) (h.append (by decide))

theorem oneLine_number {x : Float} (h : 0.0 ≤ x) : OneLine (Number.display x).toList := by
  by_cases hf : x.isFinite = true
  · exact oneLine_numeral (Number.isNumeral_display h hf)
  · rw [Number.display_infinite h hf]
    decide

mutual

/-- A well-formed expression is written on one line. -/
theorem oneLine_print : ∀ e : Expression, e.WellFormed → OneLine e.print
  | number _, h => oneLine_number h
  | string s, _ => oneLine_quoted s
  | boolean true, _ | boolean false, _ | null, _ | self, _ => by decide
  | identifier _, h => oneLine_word h.isWord
  | array elements, h =>
    .cons (by decide) ((oneLine_commaList (oneLine_printAll elements h)).append (by decide))
  | member object _, h =>
    (oneLine_enclosed (oneLine_print object h.1) _).append
      (.cons (by decide) (oneLine_word h.2.isWord))
  | index object key, h =>
    (oneLine_enclosed (oneLine_print object h.1) _).append
      (.cons (by decide) ((oneLine_print key h.2).append (by decide)))
  | negate operand, h => .cons (by decide) (oneLine_enclosed (oneLine_print operand h) _)
  | binary op left right, h =>
    ((oneLine_enclosed (oneLine_print left h.1) _).append (by cases op <;> decide)).append
      (oneLine_enclosed (oneLine_print right h.2) _)
  | assign true target value, h =>
    ((oneLine_print target h.2.1).append (by decide)).append (oneLine_print value h.2.2)
  | assign false target value, h =>
    ((oneLine_print target h.2.1).append (by decide)).append (oneLine_print value h.2.2)
  | increment target, h => (oneLine_print target h.2).append (by decide)

theorem oneLine_printAll : ∀ es : List Expression, AllWellFormed es →
    ∀ t ∈ printAll es, OneLine t
  | [], _ => List.forall_mem_nil _
  | e :: es, h => List.forall_mem_cons.2 ⟨oneLine_print e h.1, oneLine_printAll es h.2⟩

end

end Expression

/-! ## Statements -/

theorem Declarator.oneLine_print {d : Declarator} (h : d.WellFormed) : OneLine d.print := by
  obtain ⟨name, value⟩ := d
  have hname : OneLine name.toList := oneLine_word h.1.isWord
  cases value with
  | none => exact hname
  | some e => exact (hname.append (by decide)).append (Expression.oneLine_print e (h.2 e rfl))

theorem oneLine_var {declarators : List Declarator} (h : ∀ d ∈ declarators, d.WellFormed) :
    OneLine (printVar declarators) :=
  .append (by decide) (oneLine_commaList
    (List.forall_mem_map.2 fun d hd => Declarator.oneLine_print (h d hd)))

theorem ImportBinding.oneLine_print {b : ImportBinding} (h : b.WellFormed) : OneLine b.print := by
  cases b with
  | named imported bound =>
    obtain ⟨hi, rfl | hb⟩ := h
    · exact oneLine_renamed hi hi
    · exact oneLine_renamed hi (.inl hb)
  | whole bound => exact h.elim

namespace StatementKind

theorem oneLine_bindings {b : ImportBinding} {bs : List ImportBinding}
    (h : ∀ c ∈ b :: bs, c.WellFormed) (source : String) :
    OneLine (importFrom (b :: bs) source).printBody := by
  have hs := OneLine.append (a := "import ".toList) (by decide) (oneLine_braced
    (List.forall_mem_map.2 fun c hc => ImportBinding.oneLine_print (h c hc)))
  cases b with
  | named imported bound =>
    rw [printBody.eq_def]
    exact (hs.append (by decide)).append (oneLine_quoted source)
  | whole bound => exact (h _ List.mem_cons_self).elim

theorem oneLine_printBody : ∀ {kind : StatementKind}, kind.WellFormed → OneLine kind.printBody
  | importFrom [] source, _ => .append (by decide) (oneLine_quoted source)
  | importFrom [.whole _] source, h =>
    ((OneLine.append (by decide) (oneLine_word h.isWord)).append (by decide)).append
      (oneLine_quoted source)
  | importFrom (.named _ _ :: _) source, h => oneLine_bindings h source
  | importFrom (.whole _ :: _ :: _) source, h => oneLine_bindings h source
  | moduleFrom _ source, h =>
    ((OneLine.append (by decide) (oneLine_word h.isWord)).append (by decide)).append
      (oneLine_quoted source)
  | exportVar _, h => .append (by decide) (oneLine_var h.2)
  | exportNamed specifiers source, h => by
    rw [printBody.eq_def]
    refine .append (.append (by decide) (oneLine_braced (List.forall_mem_map.2 fun s hs =>
      oneLine_renamed (h s hs).1 (h s hs).2))) ?_
    cases source with
    | none => exact List.not_mem_nil
    | some source => exact .append (by decide) (oneLine_quoted source)
  | exportAll source, _ => .append (by decide) (oneLine_quoted source)
  | exportDefault value, h => .append (by decide) (Expression.oneLine_print value h)
  | var _, h => oneLine_var h.2
  | expression value, h => Expression.oneLine_print value h

/-- A well-formed statement is written on one line. -/
theorem oneLine_print {kind : StatementKind} (h : kind.WellFormed) : OneLine kind.print :=
  (oneLine_printBody h).append (by decide)

end StatementKind

end ModuleLoader.Dialect
