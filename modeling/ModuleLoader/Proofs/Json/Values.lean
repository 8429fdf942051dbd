import Mathlib.Data.List.TakeWhile
import ModuleLoader.Proofs.Json.Strings
import ModuleLoader.Proofs.Results
import ModuleLoader.Proofs.Text.Segments

/-! # Values in JSON

A value whose strings are texts and whose numbers are counts is read back from its text. The descent
is deep enough, since it goes down at most twice for each character of the text.
-/

namespace ModuleLoader.Json

/-! ## Counts -/

/-- What may stand behind a number: nothing with which it would go on. -/
def Ends (rest : List Char) : Prop :=
  ∀ c ∈ rest.head?, c.isDigit = false ∧ c ≠ '.' ∧ c ≠ 'e' ∧ c ≠ 'E'

section Counts

variable {ds rest : List Char}

theorem ends_nil : Ends [] := fun c hc => by cases hc

theorem digits?_append (hd : ∀ c ∈ ds, c.isDigit = true) (hne : ds ≠ []) (h : Ends rest) :
    digits? (ds ++ rest) = some (ds, rest) := by
  have hstop : ∀ c ∈ rest.head?, c.isDigit = false := fun c hc => (h c hc).1
  rw [digits?, takeWhile_append_stop hd hstop, dropWhile_append_stop hd hstop, if_neg hne]

theorem digits?_of_ends (h : Ends rest) : digits? rest = none := by
  cases rest with
  | nil => rfl
  | cons c rest => simp [digits?, (h c rfl).1]

theorem fraction?_of_ends (h : Ends rest) : fraction? rest = some ([], rest) := by
  rw [fraction?.eq_def]
  split
  · exact absurd rfl (h '.' rfl).2.1
  · rfl

theorem exponent?_of_ends (h : Ends rest) : exponent? rest = some ([], rest) := by
  cases rest with
  | nil => rfl
  | cons c rest => exact if_neg (not_or.2 (h c rfl).2.2)

/-- The digits of a count. Only those of zero begin with a zero. -/
theorem exists_toDigits_eq (n : Nat) : ∃ c ds, Nat.toDigits 10 n = c :: ds ∧
    (∀ d ∈ c :: ds, d.isDigit = true) ∧ (c = '0' → n = 0) := by
  have hdigit : ∀ d ∈ Nat.toDigits 10 n, d.isDigit = true := fun d hd =>
    Nat.isDigit_of_mem_toDigits (by decide) (by decide) hd
  suffices h : ∃ c ds, Nat.toDigits 10 n = c :: ds ∧ (c = '0' → n = 0) by
    obtain ⟨c, ds, hds, hzero⟩ := h
    exact ⟨c, ds, hds, hds ▸ hdigit, hzero⟩
  clear hdigit
  induction n using Nat.strong_induction_on with
  | _ n ih =>
    rw [Nat.toDigits_eq_if (by decide)]
    split_ifs with hlt
    · have hall : ∀ n < 10, n.digitChar = '0' → n = 0 := by decide
      exact ⟨n.digitChar, [], rfl, hall n hlt⟩
    · obtain ⟨c, ds, hds, hzero⟩ := ih (n / 10) (by omega)
      exact ⟨c, ds ++ [(n % 10).digitChar], by rw [hds, List.cons_append], fun hc => by
        have := hzero hc
        omega⟩

theorem whole?_toDigits (n : Nat) (h : Ends rest) :
    whole? (Nat.toDigits 10 n ++ rest) = some (Nat.toDigits 10 n, rest) := by
  obtain ⟨c, ds, hds, hdigit, hzero⟩ := exists_toDigits_eq n
  by_cases hc : c = '0'
  · rw [hzero hc, Nat.toDigits_zero, List.singleton_append, whole?, digits?_of_ends h]
    rfl
  · rw [hds, ← digits?_append hdigit (List.cons_ne_nil c ds) h, List.cons_append, whole?]
    simpa using hc

theorem numeral?_toDigits (n : Nat) (h : Ends rest) :
    numeral? (Nat.toDigits 10 n ++ rest) = some (Nat.toDigits 10 n, rest) := by
  have hmagnitude : magnitude? (Nat.toDigits 10 n ++ rest) = some (Nat.toDigits 10 n, rest) := by
    simp only [magnitude?, whole?_toDigits n h, fraction?_of_ends h, exponent?_of_ends h,
      Option.bind_eq_bind, Option.bind_some, Option.pure_def, List.append_nil]
  obtain ⟨c, ds, hds, hdigit, -⟩ := exists_toDigits_eq n
  have hminus : c ≠ '-' := by
    rintro rfl
    exact absurd (hdigit '-' List.mem_cons_self) (by decide)
  rw [← hmagnitude, hds, List.cons_append, numeral?]
  simpa using hminus

end Counts

/-! ## Values -/

mutual

/-- Whether a value is told by its text: its strings are texts and its numbers are counts. -/
def Told : Json → Prop
  | number numeral => ∃ n, numeral = Nat.toDigits 10 n
  | string s => s.isSome
  | array items => AllTold items
  | object members => AllMembersTold members
  | _ => True

/-- The same of the items of an array. -/
def AllTold : List Json → Prop
  | [] => True
  | j :: rest => j.Told ∧ AllTold rest

/-- The same of the members of an object and of their keys. -/
def AllMembersTold : List (Option String × Json) → Prop
  | [] => True
  | (k, j) :: rest => k.isSome ∧ j.Told ∧ AllMembersTold rest

end

theorem told_array {α : Type} {f : α → Json} (h : ∀ a, (f a).Told) (l : List α) :
    (array (l.map f)).Told := by
  have hall : AllTold (l.map f) := by
    induction l with
    | nil => trivial
    | cons a l ih => exact ⟨h a, ih⟩
  exact hall

theorem told_object {members : List (String × Json)} (h : ∀ m ∈ members, m.2.Told) :
    (object (members.map fun m => (some m.1, m.2))).Told := by
  have hall : AllMembersTold (members.map fun m => (some m.1, m.2)) := by
    induction members with
    | nil => trivial
    | cons m members ih =>
      exact ⟨rfl, h m List.mem_cons_self, ih fun k hk => h k (List.mem_cons_of_mem m hk)⟩
  exact hall

theorem isBlank_of_isDigit {c : Char} (h : c.isDigit = true) : isBlank c = false := by
  rw [Bool.eq_false_iff]
  intro hb
  simp only [isBlank, Bool.or_eq_true, decide_eq_true_eq] at hb
  rcases hb with ((rfl | rfl) | rfl) | rfl <;> cases h

theorem skip_cons {c : Char} (h : isBlank c = false) (cs : List Char) : skip (c :: cs) = c :: cs :=
  List.dropWhile_cons_of_neg (by simp [h])

/-- The text of a value begins with no blank and with no closing bracket. -/
theorem exists_write_eq {j : Json} (h : j.Told) : ∃ c cs, j.write = c :: cs ∧
    isBlank c = false ∧ c ≠ ']' := by
  cases j with
  | number numeral =>
    obtain ⟨n, rfl⟩ := h
    obtain ⟨c, ds, hds, hdigit, -⟩ := exists_toDigits_eq n
    have hc := hdigit c List.mem_cons_self
    refine ⟨c, ds, hds, isBlank_of_isDigit hc, ?_⟩
    rintro rfl
    cases hc
  | bool b => cases b <;> exact ⟨_, _, rfl, rfl, by decide⟩
  | _ => exact ⟨_, _, rfl, rfl, by decide⟩

section Steps

variable {n : Nat} {cs rest : List Char}

theorem value?_digit {c : Char} (hc : c.isDigit = true) (n : Nat) (cs : List Char) :
    value? (n + 1) (c :: cs) = (numeral? (c :: cs)).map fun r => (.number r.1, r.2) := by
  have hskip := skip_cons (isBlank_of_isDigit hc) cs
  rw [value?, hskip]
  split
  all_goals first
    | rfl
    | rename_i heq
      cases heq
      cases hc

theorem value?_quote (n : Nat) (cs : List Char) :
    value? (n + 1) ('"' :: cs) = (string? cs).map fun r => (.string r.1, r.2) := rfl

theorem value?_bracket (n : Nat) (cs : List Char) : value? (n + 1) ('[' :: cs) =
    match skip cs with
    | ']' :: rest => some (.array [], rest)
    | _ => (itemsFrom? n cs).map fun r => (.array r.1, r.2) := rfl

theorem value?_brace (n : Nat) (cs : List Char) : value? (n + 1) ('\x7b' :: '"' :: cs) =
    (membersFrom? n ('"' :: cs)).map fun r => (.object r.1, r.2) := rfl

theorem itemsFrom?_last {j : Json} (h : value? n cs = some (j, ']' :: rest)) :
    itemsFrom? (n + 1) cs = some ([j], rest) := by
  rw [itemsFrom?, h]
  rfl

theorem itemsFrom?_comma {j : Json} {more : List Char} (h : value? n cs = some (j, ',' :: more)) :
    itemsFrom? (n + 1) cs = (itemsFrom? n more).map fun r => (j :: r.1, r.2) := by
  rw [itemsFrom?, h, Option.map_eq_bind]
  rfl

theorem membersFrom?_last {key : Option String} {j : Json} {more : List Char}
    (hkey : string? cs = some (key, ':' :: more)) (h : value? n more = some (j, '\x7d' :: rest)) :
    membersFrom? (n + 1) ('"' :: cs) = some ([(key, j)], rest) := by
  change (string? cs).bind _ = _
  rw [hkey]
  change (value? n more).bind _ = _
  rw [h]
  rfl

theorem membersFrom?_comma {key : Option String} {j : Json} {more others : List Char}
    (hkey : string? cs = some (key, ':' :: more)) (h : value? n more = some (j, ',' :: others)) :
    membersFrom? (n + 1) ('"' :: cs) =
      (membersFrom? n others).map fun r => ((key, j) :: r.1, r.2) := by
  change (string? cs).bind _ = _
  rw [hkey]
  change (value? n more).bind _ = _
  rw [h, Option.map_eq_bind]
  rfl

end Steps

theorem quoted_append (s : String) (rest : List Char) :
    quoted s ++ rest = '"' :: (s.toList.flatMap escape ++ '"' :: rest) := by
  simp [quoted]

theorem ends_of_mark {c : Char} (h : c = ',' ∨ c = ']' ∨ c = '\x7d') (cs : List Char) :
    Ends (c :: cs) := by
  rintro _ ⟨⟩
  rcases h with rfl | rfl | rfl <;> decide

/-- An array is read back from its text if its items are. No item begins with the closing bracket,
which the reader takes for the end of an empty array. -/
theorem value?_array {n : Nat} {rest : List Char} {i : Json} {items : List Json} (hi : i.Told)
    (h : itemsFrom? n (writeItems (i :: items) ++ ']' :: rest) = some (i :: items, rest)) :
    value? (n + 1) ((array (i :: items)).write ++ rest) = some (array (i :: items), rest) := by
  obtain ⟨c, cs, hc, hblank, hbracket⟩ := exists_write_eq hi
  obtain ⟨more, hmore⟩ : ∃ more, writeItems (i :: items) = c :: more := by
    cases items <;> simp [writeItems, hc]
  rw [write, List.cons_append, List.append_assoc, List.singleton_append, value?_bracket]
  rw [hmore, List.cons_append] at h ⊢
  rw [skip_cons hblank, h]
  split
  · rename_i heq
    cases heq
    exact absurd rfl hbracket
  · rfl

theorem value?_object {n : Nat} {rest : List Char} {m : Option String × Json}
    {members : List (Option String × Json)}
    (h : membersFrom? n (writeMembers (m :: members) ++ '\x7d' :: rest) =
      some (m :: members, rest)) :
    value? (n + 1) ((object (m :: members)).write ++ rest) = some (object (m :: members), rest) := by
  obtain ⟨more, hmore⟩ : ∃ more, writeMembers (m :: members) = '"' :: more := by
    cases members <;> simp [writeMembers, quoted]
  rw [write, List.cons_append, List.append_assoc, List.singleton_append]
  rw [hmore, List.cons_append] at h ⊢
  rw [value?_brace, h]
  rfl

mutual

/-- A value is read back from its text. -/
theorem value?_write (j : Json) (hj : j.Told) {n : Nat} (hn : 2 * j.write.length ≤ n)
    {rest : List Char} (hr : Ends rest) : value? n (j.write ++ rest) = some (j, rest) := by
  obtain ⟨c, cs, hc, -, -⟩ := exists_write_eq hj
  match n, j with
  | 0, j =>
    rw [hc, List.length_cons] at hn
    omega
  | n + 1, null => rfl
  | n + 1, bool true => rfl
  | n + 1, bool false => rfl
  | n + 1, number numeral =>
    obtain ⟨k, rfl⟩ := hj
    obtain ⟨d, ds, hds, hdigit, -⟩ := exists_toDigits_eq k
    rw [write, hds, List.cons_append, value?_digit (hdigit d List.mem_cons_self),
      ← List.cons_append, ← hds, numeral?_toDigits k hr]
    rfl
  | n + 1, string s =>
    obtain ⟨s, rfl⟩ := Option.isSome_iff_exists.1 hj
    rw [write, Option.getD_some, quoted_append, value?_quote, string?_escape]
    rfl
  | n + 1, array [] => rfl
  | n + 1, array (i :: items) =>
    rw [write, List.length_cons, List.length_append, List.length_singleton] at hn
    exact value?_array hj.1 (itemsFrom?_write i items hj (by omega) rest)
  | n + 1, object [] => rfl
  | n + 1, object ((key, i) :: members) =>
    rw [write, List.length_cons, List.length_append, List.length_singleton] at hn
    exact value?_object (membersFrom?_write key i members hj (by omega) rest)
termination_by n

/-- So are the items of an array that is not empty. -/
theorem itemsFrom?_write (i : Json) (items : List Json) (hi : AllTold (i :: items)) {n : Nat}
    (hn : 2 * (writeItems (i :: items)).length + 1 ≤ n) (rest : List Char) :
    itemsFrom? n (writeItems (i :: items) ++ ']' :: rest) = some (i :: items, rest) := by
  match n, items with
  | n + 1, [] =>
    exact itemsFrom?_last
      (value?_write i hi.1 (Nat.le_of_succ_le_succ hn) (ends_of_mark (.inr (.inl rfl)) rest))
  | n + 1, k :: items =>
    rw [writeItems, List.length_append, List.length_cons] at hn
    rw [writeItems, List.append_assoc, List.cons_append]
    rw [itemsFrom?_comma (value?_write i hi.1 (by omega) (ends_of_mark (.inl rfl) _)),
      itemsFrom?_write k items hi.2 (by omega)]
    rfl
termination_by n

/-- So are the members of an object that is not empty. -/
theorem membersFrom?_write (key : Option String) (i : Json) (members : List (Option String × Json))
    (hm : AllMembersTold ((key, i) :: members)) {n : Nat}
    (hn : 2 * (writeMembers ((key, i) :: members)).length + 1 ≤ n) (rest : List Char) :
    membersFrom? n (writeMembers ((key, i) :: members) ++ '\x7d' :: rest) =
      some ((key, i) :: members, rest) := by
  match key, n, members with
  | none, _, _ => cases hm.1
  | some k, n + 1, [] =>
    rw [writeMembers, List.length_append, List.length_cons] at hn
    rw [writeMembers, List.append_assoc, Option.getD_some, quoted_append, List.cons_append]
    exact membersFrom?_last (string?_escape k _)
      (value?_write i hm.2.1 (by omega) (ends_of_mark (.inr (.inr rfl)) rest))
  | some k, n + 1, (key', k') :: members =>
    rw [writeMembers, List.length_append, List.length_append, List.length_cons,
      List.length_cons] at hn
    rw [writeMembers, List.append_assoc, List.append_assoc, Option.getD_some, quoted_append,
      List.cons_append, List.cons_append]
    rw [membersFrom?_comma (string?_escape k _)
        (value?_write i hm.2.1 (by omega) (ends_of_mark (.inl rfl) _)),
      membersFrom?_write key' k' members hm.2.2 (by omega)]
    rfl
termination_by n

end

/-- A value that its text tells is read back from the text. -/
theorem read?_write {j : Json} (h : j.Told) : read? j.write = some j := by
  have hvalue := value?_write j h (n := 2 * j.write.length + 2) (by omega) ends_nil
  rw [List.append_nil] at hvalue
  rw [read?, hvalue]
  rfl

end ModuleLoader.Json
