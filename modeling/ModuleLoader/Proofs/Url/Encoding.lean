import Mathlib.Tactic.IntervalCases
import ModuleLoader.Url.Basic
import ModuleLoader.Proofs.Text.Segments

/-! # Encoded texts

What the encoding writes has only visible characters of ASCII that need no encoding, so it is not
encoded again. A text of ASCII without percent signs is decoded as its own bytes.
-/

namespace ModuleLoader.Url

open Text

/-! ## Visible texts -/

theorem forall_ascii {P : Char → Prop} (h : ∀ n < 128, P (Char.ofNat n)) {c : Char}
    (hc : c.toNat < 128) : P c := by
  have := h c.toNat hc
  rwa [Char.ofNat_toNat] at this

/-- Visible characters of ASCII. -/
def IsVisible (c : Char) : Prop := 32 < c.toNat ∧ c.toNat < 127

/-- Whether a text has only visible characters of ASCII, and none of a set. -/
def Plain (reserved : List Char) (cs : List Char) : Prop := ∀ c ∈ cs, IsVisible c ∧ c ∉ reserved

section Plain

variable {reserved cs ds : List Char}

theorem Plain.append (h : Plain reserved cs) (h' : Plain reserved ds) : Plain reserved (cs ++ ds) :=
  fun c hc => (List.mem_append.1 hc).elim (h c) (h' c)

theorem Plain.mono {reserved' : List Char} (h : Plain reserved cs) (hs : reserved' ⊆ reserved) :
    Plain reserved' cs := fun c hc => ⟨(h c hc).1, fun hr => (h c hc).2 (hs hr)⟩

theorem Plain.sublist (h : Plain reserved cs) (hs : ∀ c ∈ ds, c ∈ cs) : Plain reserved ds :=
  fun c hc => h c (hs c hc)

theorem plain_nil (reserved : List Char) : Plain reserved [] := List.forall_mem_nil _

theorem Plain.not_mem {c : Char} (h : Plain reserved cs) (hc : c ∈ reserved) : c ∉ cs :=
  fun hm => (h c hm).2 hc

theorem encode_append (reserved cs ds : List Char) :
    encode reserved (cs ++ ds) = encode reserved cs ++ encode reserved ds :=
  List.flatMap_append

/-- A text that has nothing to encode stays as it is. -/
theorem encode_plain (h : Plain reserved cs) : encode reserved cs = cs := by
  induction cs with
  | nil => rfl
  | cons c cs ih =>
    obtain ⟨⟨⟨hge, hlt⟩, hc⟩, hcs⟩ := List.forall_mem_cons.1 h
    have hkeep : ¬(c.toNat < 32 ∨ 126 < c.toNat ∨ c ∈ reserved) := by
      rintro (h | h | h)
      · omega
      · omega
      · exact hc h
    rw [encode, List.flatMap_cons, if_neg hkeep, ← encode, ih hcs]
    rfl

end Plain

/-! ## Percent signs -/

/-- The characters that bytes are written in. -/
def byteChars : List Char := '%' :: "0123456789ABCDEF".toList

theorem hexDigit_mem {n : ℕ} (h : n < 16) : hexDigit n ∈ byteChars := by
  interval_cases n <;> decide +kernel

theorem mem_encodeByte {b : UInt8} {c : Char} (h : c ∈ encodeByte b) : c ∈ byteChars := by
  have hb := b.toNat_lt
  simp only [encodeByte, List.mem_cons, List.not_mem_nil, or_false] at h
  rcases h with rfl | rfl | rfl
  · exact List.mem_cons_self
  · exact hexDigit_mem (by omega)
  · exact hexDigit_mem (Nat.mod_lt _ (by decide))

theorem mem_encode {reserved cs : List Char} {c : Char} (h : c ∈ encode reserved cs) :
    c ∈ byteChars ∨ c ∈ cs ∧ 32 ≤ c.toNat ∧ c.toNat ≤ 126 ∧ c ∉ reserved := by
  rw [encode, List.mem_flatMap] at h
  obtain ⟨d, hd, hc⟩ := h
  split at hc
  · obtain ⟨b, -, hb⟩ := List.mem_flatMap.1 hc
    exact .inl (mem_encodeByte hb)
  · rename_i hkeep
    obtain rfl := List.mem_singleton.1 hc
    refine .inr ⟨hd, ?_, ?_, fun hr => hkeep (.inr (.inr hr))⟩ <;> by_contra hn <;>
      exact hkeep (by omega)

/-- What is encoded has nothing left to encode, provided that blanks are. -/
theorem plain_encode {reserved : List Char} (hblank : ' ' ∈ reserved)
    (hbytes : ∀ c ∈ byteChars, IsVisible c ∧ c ∉ reserved) (cs : List Char) :
    Plain reserved (encode reserved cs) := by
  intro c hc
  rcases mem_encode hc with hc | ⟨-, hge, hle, hr⟩
  · exact hbytes c hc
  · have hne : c.toNat ≠ 32 := fun h => hr (by rwa [show c = ' ' from Char.toNat_inj.1 h])
    exact ⟨⟨by omega, by omega⟩, hr⟩

instance (c : Char) : Decidable (IsVisible c) := inferInstanceAs (Decidable (_ ∧ _))

theorem plain_fragment (cs : List Char) : Plain fragmentSet (encode fragmentSet cs) :=
  plain_encode (by decide) (forall_mem_of_all (by decide +kernel)) cs

theorem plain_query (special : Bool) (cs : List Char) :
    Plain (querySet special) (encode (querySet special) cs) := by
  cases special <;> exact plain_encode (by decide) (forall_mem_of_all (by decide +kernel)) cs

theorem plain_path (cs : List Char) : Plain pathSet (encode pathSet cs) :=
  plain_encode (by decide) (forall_mem_of_all (by decide +kernel)) cs

theorem plain_user (cs : List Char) : Plain userSet (encode userSet cs) :=
  plain_encode (by decide) (forall_mem_of_all (by decide +kernel)) cs

/-! ## Bytes -/

theorem ofUtf8?_utf8 (cs : List Char) : ofUtf8? (utf8 cs) = some cs := by
  have hbytes : (⟨(utf8 cs).toArray⟩ : ByteArray) = (String.ofList cs).toByteArray := by
    rw [String.toByteArray_ofList, List.utf8Encode, ← List.data_toByteArray]
    rfl
  rw [ofUtf8?, hbytes, String.fromUTF8?, dif_pos (String.ofList cs).isValidUTF8]
  exact congrArg some String.toList_ofList

theorem decode_of_not_mem {cs : List Char} (h : '%' ∉ cs) : decode cs = utf8 cs := by
  induction cs with
  | nil => rw [decode]; rfl
  | cons c cs ih =>
    obtain ⟨hc, hcs⟩ := List.ne_and_not_mem_of_not_mem_cons h
    rw [decode.eq_2 _ _ fun _ _ _ heq => absurd heq.symm hc, ih hcs, utf8, utf8, utf8,
      ← List.flatMap_append]
    rfl

end ModuleLoader.Url
