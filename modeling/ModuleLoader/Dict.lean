/-! # Dictionaries in key order

A dictionary lists its entries in strictly increasing key order. Look-up after insertion and
removal follows the usual equations, and two dictionaries with the same look-ups are equal.
-/

namespace ModuleLoader

universe u v

/-- A finite map from strings, listed by increasing key. -/
structure Dict (α : Type u) where
  entries : List (String × α)
  sorted : entries.Pairwise (fun a b => a.1 < b.1)

namespace Dict

variable {α : Type u} {β : Type v}

/-- Put a binding in its place of an ordered list, over an older binding of the key. -/
def place (key : String) (value : α) : List (String × α) → List (String × α)
  | [] => [(key, value)]
  | (k, v) :: rest =>
    if key < k then (key, value) :: (k, v) :: rest
    else if key = k then (key, value) :: rest
    else (k, v) :: place key value rest

theorem lt_of_not_lt_of_ne {a b : String} (h : ¬ b < a) (hne : a ≠ b) : a < b :=
  Decidable.byContradiction fun hn => hne (String.le_antisymm (String.not_lt.1 h)
    (String.not_lt.1 hn))

theorem mem_place {key : String} {value : α} {b : String × α} {l : List (String × α)}
    (h : b ∈ place key value l) : b = (key, value) ∨ b ∈ l := by
  induction l with
  | nil => simpa [place] using h
  | cons head rest ih => grind [place]

theorem sorted_place (key : String) (value : α) {l : List (String × α)}
    (h : l.Pairwise (fun a b => a.1 < b.1)) :
    (place key value l).Pairwise (fun a b => a.1 < b.1) := by
  induction l with
  | nil => simp [place]
  | cons head rest ih =>
    obtain ⟨k, v⟩ := head
    rw [List.pairwise_cons] at h
    rw [place]
    split
    · rename_i hlt
      refine List.pairwise_cons.2 ⟨fun b hb => ?_, List.pairwise_cons.2 h⟩
      rcases List.mem_cons.1 hb with rfl | hb
      · exact hlt
      · exact String.lt_trans hlt (h.1 b hb)
    · split
      · rename_i heq
        subst heq
        exact List.pairwise_cons.2 ⟨h.1, h.2⟩
      · rename_i hlt hne
        refine List.pairwise_cons.2 ⟨fun b hb => ?_, ih h.2⟩
        rcases mem_place hb with rfl | hb
        · exact lt_of_not_lt_of_ne hlt (Ne.symm hne)
        · exact h.1 b hb

/-- The value that a list binds to a key first. -/
def find (key : String) : List (String × α) → Option α
  | [] => none
  | (k, v) :: rest => if key = k then some v else find key rest

/-- The dictionary without bindings. -/
def empty : Dict α := ⟨[], .nil⟩

instance : EmptyCollection (Dict α) := ⟨empty⟩

instance : Inhabited (Dict α) := ⟨empty⟩

/-- The value bound to a key. -/
def get? (d : Dict α) (key : String) : Option α := find key d.entries

/-- Whether a key is bound. -/
def contains (d : Dict α) (key : String) : Bool := (d.get? key).isSome

/-- Bind a key, replacing an older binding. -/
def insert (d : Dict α) (key : String) (value : α) : Dict α :=
  ⟨place key value d.entries, sorted_place key value d.sorted⟩

/-- Remove a key. -/
def erase (d : Dict α) (key : String) : Dict α :=
  ⟨d.entries.filter (·.1 != key), d.sorted.filter _⟩

/-- Keep the bindings whose values pass a test. -/
def filter (keep : α → Bool) (d : Dict α) : Dict α :=
  ⟨d.entries.filter fun b => keep b.2, d.sorted.filter _⟩

/-- The bound keys in increasing order. -/
def keys (d : Dict α) : List String := d.entries.map (·.1)

/-- The number of bindings. -/
def size (d : Dict α) : Nat := d.entries.length

/-- Whether nothing is bound. -/
def isEmpty (d : Dict α) : Bool := d.entries.isEmpty

/-- Bind a list of pairs from left to right: of two bindings of a key the later stays. -/
def ofList (l : List (String × α)) : Dict α := l.foldl (fun d b => d.insert b.1 b.2) empty

/-- Add the bindings of `other`, which win over those of `d`. -/
def merge (d other : Dict α) : Dict α := other.entries.foldl (fun d b => d.insert b.1 b.2) d

/-- Apply a function to every value. -/
def map (f : α → β) (d : Dict α) : Dict β :=
  ⟨d.entries.map fun b => (b.1, f b.2), d.sorted.map _ fun _ _ h => h⟩

theorem find_eq_none_of_lt {key : String} {l : List (String × α)}
    (h : ∀ b ∈ l, key < b.1) : find key l = none := by
  induction l with
  | nil => rfl
  | cons head rest ih =>
    have hk : key < head.1 := h head (by simp)
    have hne : key ≠ head.1 := fun he => String.lt_irrefl key (by rw [← he] at hk; exact hk)
    rw [find, if_neg hne]
    exact ih fun b hb => h b (List.mem_cons_of_mem _ hb)

theorem find_place (key other : String) (value : α) (l : List (String × α)) :
    find other (place key value l) = if other = key then some value else find other l := by
  induction l with
  | nil => simp [place, find]
  | cons head rest ih =>
    obtain ⟨k, v⟩ := head
    rw [place]
    split
    · simp [find]
    · split
      · rename_i heq
        subst heq
        simp only [find]
        split <;> simp_all
      · rename_i hne
        simp only [find, ih]
        grind

theorem find_filter (key other : String) (l : List (String × α)) :
    find other (l.filter (·.1 != key)) = if other = key then none else find other l := by
  induction l with
  | nil => simp [find]
  | cons head rest ih =>
    obtain ⟨k, v⟩ := head
    by_cases hk : k = key
    · rw [List.filter_cons_of_neg (by simpa using hk), ih, find]
      grind
    · rw [List.filter_cons_of_pos (by simpa using hk), find, find, ih]
      grind

@[simp] theorem get?_empty (key : String) : (empty : Dict α).get? key = none := rfl

theorem get?_insert (d : Dict α) (key other : String) (value : α) :
    (d.insert key value).get? other = if other = key then some value else d.get? other :=
  find_place key other value d.entries

@[simp] theorem get?_insert_self (d : Dict α) (key : String) (value : α) :
    (d.insert key value).get? key = some value := by
  simp [get?_insert]

theorem get?_insert_of_ne (d : Dict α) {key other : String} (value : α) (h : other ≠ key) :
    (d.insert key value).get? other = d.get? other := by
  simp [get?_insert, h]

theorem get?_erase (d : Dict α) (key other : String) :
    (d.erase key).get? other = if other = key then none else d.get? other :=
  find_filter key other d.entries

theorem get?_map (f : α → β) (d : Dict α) (key : String) :
    (d.map f).get? key = (d.get? key).map f := by
  obtain ⟨l, hl⟩ := d
  simp only [get?, map]
  clear hl
  induction l with
  | nil => rfl
  | cons head rest ih =>
    simp only [List.map_cons, find]
    split <;> simp_all

theorem find_eq_none_of_notMem {key : String} {l : List (String × α)}
    (h : key ∉ l.map (·.1)) : find key l = none := by
  induction l with
  | nil => rfl
  | cons b l ih =>
    rw [List.map_cons, List.mem_cons, not_or] at h
    rw [find, if_neg h.1, ih h.2]

/-- Insertions from a list without two bindings of a key win over what is there. -/
theorem get?_foldl_insert {l : List (String × α)} (hl : (l.map (·.1)).Nodup)
    (d : Dict α) (key : String) :
    (l.foldl (fun d b => d.insert b.1 b.2) d).get? key = (find key l).or (d.get? key) := by
  induction l generalizing d with
  | nil => rfl
  | cons b l ih =>
    rw [List.map_cons, List.nodup_cons] at hl
    rw [List.foldl_cons, ih hl.2, find, get?_insert]
    split
    · rename_i hk
      rw [hk, find_eq_none_of_notMem hl.1, Option.none_or, Option.some_or]
    · rfl

theorem get?_ofList {l : List (String × α)} (hl : (l.map (·.1)).Nodup) (key : String) :
    (ofList l).get? key = find key l := by
  rw [ofList, get?_foldl_insert hl, get?_empty, Option.or_none]

theorem get?_merge (d other : Dict α) (key : String) :
    (d.merge other).get? key = (other.get? key).or (d.get? key) := by
  have hkeys : (other.entries.map (·.1)).Nodup :=
    List.pairwise_map.2 (other.sorted.imp fun hlt => String.ne_of_lt hlt)
  exact get?_foldl_insert hkeys d key

theorem mem_entries_iff (d : Dict α) (key : String) (value : α) :
    (key, value) ∈ d.entries ↔ d.get? key = some value := by
  obtain ⟨l, hl⟩ := d
  simp only [get?]
  induction l with
  | nil => simp [find]
  | cons head rest ih =>
    obtain ⟨k, v⟩ := head
    rw [List.pairwise_cons] at hl
    have hn : find k rest = none := find_eq_none_of_lt hl.1
    have ih := ih hl.2
    rw [List.mem_cons, ih, find]
    grind

theorem mem_keys_iff (d : Dict α) (key : String) : key ∈ d.keys ↔ (d.get? key).isSome := by
  rw [keys, List.mem_map, Option.isSome_iff_exists]
  constructor
  · rintro ⟨⟨k, v⟩, hb, rfl⟩
    exact ⟨v, (d.mem_entries_iff k v).1 hb⟩
  · rintro ⟨v, hv⟩
    exact ⟨(key, v), (d.mem_entries_iff key v).2 hv, rfl⟩

theorem get?_filter (keep : α → Bool) (d : Dict α) (key : String) :
    (d.filter keep).get? key = (d.get? key).filter keep := by
  have mem (v : α) : (d.filter keep).get? key = some v ↔ d.get? key = some v ∧ keep v := by
    rw [← mem_entries_iff, ← mem_entries_iff]
    simp [filter]
  cases h : d.get? key with
  | none =>
    rw [Option.filter_none, Option.eq_none_iff_forall_ne_some]
    intro v hv
    simp [h] at mem
    exact mem v hv
  | some v =>
    cases hk : keep v with
    | true =>
      rw [Option.filter, if_pos hk]
      exact (mem v).2 ⟨h, hk⟩
    | false =>
      simp only [Option.filter, hk]
      rw [if_neg (by simp), Option.eq_none_iff_forall_ne_some]
      intro w hw
      have := (mem w).1 hw
      rw [h] at this
      obtain ⟨e, hw⟩ := this
      injection e with e
      subst e
      simp [hk] at hw

/-- Ordered lists with the same look-ups are equal. -/
theorem eq_of_find_eq {l m : List (String × α)} (hl : l.Pairwise (fun a b => a.1 < b.1))
    (hm : m.Pairwise (fun a b => a.1 < b.1)) (h : ∀ key, find key l = find key m) : l = m := by
  induction l generalizing m with
  | nil =>
    cases m with
    | nil => rfl
    | cons b rest => simpa [find] using h b.1
  | cons a rest ih =>
    cases m with
    | nil => simpa [find] using h a.1
    | cons b others =>
      rw [List.pairwise_cons] at hl hm
      have below {c : String × α} {tail : List (String × α)} (ht : ∀ d ∈ tail, c.1 < d.1)
          {key : String} (hk : key < c.1) : find key (c :: tail) = none :=
        find_eq_none_of_lt fun d hd => (List.mem_cons.1 hd).elim (fun e => e ▸ hk)
          fun hd => String.lt_trans hk (ht d hd)
      have hkey : a.1 = b.1 := by
        apply Decidable.byContradiction
        intro hne
        by_cases hlt : a.1 < b.1
        · have := h a.1
          rw [below hm.1 hlt] at this
          simp [find] at this
        · have hgt : b.1 < a.1 :=
            lt_of_not_lt_of_ne hlt (Ne.symm hne)
          have := h b.1
          rw [below hl.1 hgt] at this
          simp [find] at this
      have hval : a.2 = b.2 := by
        have := h a.1
        rw [find, find, if_pos rfl, if_pos hkey] at this
        exact Option.some.inj this
      obtain rfl : a = b := Prod.ext hkey hval
      congr 1
      refine ih hl.2 hm.2 fun key => ?_
      by_cases hk : key = a.1
      · rw [hk, find_eq_none_of_lt hl.1, find_eq_none_of_lt hm.1]
      · have := h key
        rwa [find, find, if_neg hk, if_neg hk] at this

/-- Two dictionaries with the same look-ups are equal. -/
theorem ext_get? {d e : Dict α} (h : ∀ key, d.get? key = e.get? key) : d = e := by
  obtain ⟨l, hl⟩ := d
  obtain ⟨m, hm⟩ := e
  obtain rfl := eq_of_find_eq hl hm h
  rfl

end Dict

end ModuleLoader
