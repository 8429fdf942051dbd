import Mathlib.Tactic.SplitIfs
import ModuleLoader.Json.Reader

/-! # Strings in JSON

Every character can be written in a string, and is read back from each way to write it. The codes that
are read are those of the characters, and none of them is half of a surrogate pair.
-/

namespace ModuleLoader.Json

open Text

/-- The ways to write a character in a string: a short escape, its number, or the character itself. -/
inductive Spells : List Char → Char → Prop where
  | short {e c : Char} : e ≠ 'u' → unescape? e = some c → Spells ['\\', e] c
  | number {p q r s c : Char} : hexUnit? p q r s = some c.toNat → Spells ['\\', 'u', p, q, r, s] c
  | plain {c : Char} : 32 ≤ c.toNat → c ≠ '"' → c ≠ '\\' → Spells [c] c

theorem hexValue?_hexDigit {n : Nat} (h : n < 16) : hexValue? (hexDigit n) = some n := by
  have hall : ∀ n < 16, hexValue? (hexDigit n) = some n := by decide
  exact hall n h

theorem hexUnit?_hexDigit {n : Nat} (h : n < 256) :
    hexUnit? '0' '0' (hexDigit (n / 16)) (hexDigit (n % 16)) = some n := by
  have hzero : hexValue? '0' = some 0 := rfl
  have hhigh := hexValue?_hexDigit (n := n / 16) (by omega)
  have hlow := hexValue?_hexDigit (n := n % 16) (by omega)
  simp only [hexUnit?, hzero, hhigh, hlow, Option.bind_eq_bind, Option.bind_some, Option.pure_def,
    Option.some.injEq]
  omega

theorem spells_escape (c : Char) : Spells (escape c) c := by
  unfold escape
  split_ifs with hquote hback hb hf hn hr ht hcontrol
  · subst hquote
    exact .short (by decide) rfl
  · subst hback
    exact .short (by decide) rfl
  · subst hb
    exact .short (by decide) rfl
  · subst hf
    exact .short (by decide) rfl
  · subst hn
    exact .short (by decide) rfl
  · subst hr
    exact .short (by decide) rfl
  · subst ht
    exact .short (by decide) rfl
  · exact .number (hexUnit?_hexDigit (by omega))
  · exact .plain (Nat.le_of_not_lt hcontrol) hquote hback

/-- A character is read back from each way to write it. -/
theorem Spells.stringCodes? {cs : List Char} {c : Char} (h : Spells cs c) (rest : List Char) :
    Json.stringCodes? (cs ++ rest) =
      (Json.stringCodes? rest).map fun r => (c.toNat :: r.1, r.2) := by
  cases h with
  | @short e c hu he =>
    rw [List.cons_append, List.singleton_append, Json.stringCodes?.eq_4 _ _ (by simp [hu]), he]
    rfl
  | @number p q r s c hn =>
    simp only [List.cons_append, List.nil_append, Json.stringCodes?, hn, Option.bind_some]
  | plain hc hquote hback =>
    rw [List.singleton_append, Json.stringCodes?.eq_5 _ _ (by simp [hquote]) (by simp [hback])
      (by simp [hback]), if_neg (not_or.2 ⟨by omega, hback⟩)]

theorem stringCodes?_escape (cs rest : List Char) :
    stringCodes? (cs.flatMap escape ++ '"' :: rest) = some (cs.map Char.toNat, rest) := by
  induction cs with
  | nil => rfl
  | cons c cs ih =>
    rw [List.flatMap_cons, List.append_assoc, (spells_escape c).stringCodes?, ih]
    rfl

theorem toNat_not_surrogate (c : Char) : c.toNat < 0xD800 ∨ 0xDFFF < c.toNat := by
  rcases c.valid with h | ⟨h, -⟩
  · exact .inl h
  · exact .inr h

/-- The codes of characters spell these characters. -/
theorem spell?_toNat (cs : List Char) : spell? (cs.map Char.toNat) = some cs := by
  induction cs with
  | nil => rfl
  | cons c cs ih =>
    have hc := toNat_not_surrogate c
    rw [List.map_cons, spell?.eq_def]
    dsimp only
    rw [if_neg (by omega), if_neg (by omega), ih, Option.map_some, Char.ofNat_toNat]

/-- A text is read back from its string, whatever stands behind the closing quote. -/
theorem string?_escape (s : String) (rest : List Char) :
    string? (s.toList.flatMap escape ++ '"' :: rest) = some (some s, rest) := by
  rw [string?, stringCodes?_escape, Option.map_some, spell?_toNat, Option.map_some,
    String.ofList_toList]

end ModuleLoader.Json
