import ModuleLoader.Text.Utf8
import Mathlib.Data.List.Pairwise

/-! # Layouts of texts

A text as a row of parts with gaps around them. A part takes up whole characters of the text, at the
bytes where it starts and stops.
-/

namespace ModuleLoader.Text

/-- How parts are laid out: the bytes that they take up, the text that spells a part, and what may
stand before a part and behind the last one. -/
structure Layout (α : Type) where
  start : α → ℕ
  stop : α → ℕ
  spells : List Char → α → Prop
  gap : List Char → Prop
  lastGap : List Char → Prop

/-- Whether a text from a given byte on is laid out as a row of parts. -/
inductive Layout.Covers {α : Type} (l : Layout α) : ℕ → List Char → List α → Prop where
  | last {n : ℕ} {gap : List Char} : l.lastGap gap → Covers l n gap []
  | part {n : ℕ} {gap text rest : List Char} {a : α} {parts : List α} : l.gap gap → text ≠ [] →
      l.start a = n + byteLength gap → l.stop a = l.start a + byteLength text → l.spells text a →
      Covers l (l.stop a) rest parts → Covers l n (gap ++ text ++ rest) (a :: parts)

theorem byteLength_pos {cs : List Char} (h : cs ≠ []) : 0 < byteLength cs := by
  obtain ⟨c, rest, rfl⟩ := List.exists_cons_of_ne_nil h
  exact Nat.add_pos_left c.utf8Size_pos _

namespace Layout.Covers

variable {α : Type} {l : Layout α} {n : ℕ} {cs : List Char} {parts : List α}

theorem length_le (h : l.Covers n cs parts) : parts.length ≤ cs.length := by
  induction h with
  | last => exact Nat.zero_le _
  | @part n gap text rest a parts _ hne _ _ _ _ ih =>
    have := List.length_pos_iff.2 hne
    simp only [List.length_cons, List.length_append]
    omega

/-- Every part stands somewhere in the text. -/
theorem stands (h : l.Covers n cs parts) : ∀ a ∈ parts, ∃ before text after,
    cs = before ++ text ++ after ∧ l.start a = n + byteLength before ∧
      l.stop a = l.start a + byteLength text ∧ text ≠ [] ∧ l.spells text a := by
  induction h with
  | last => exact List.forall_mem_nil _
  | @part n gap text rest a parts _ hne hstart hstop htext _ ih =>
    refine List.forall_mem_cons.2 ⟨⟨gap, text, rest, rfl, hstart, hstop, hne, htext⟩, ?_⟩
    intro b hb
    obtain ⟨before, text', after, hrest, hstart', hother⟩ := ih b hb
    refine ⟨gap ++ text ++ before, text', after, ?_, ?_, hother⟩
    · rw [hrest]
      simp only [List.append_assoc]
    · simp only [hstart', hstop, hstart, byteLength_append, Nat.add_assoc]

theorem le_start (h : l.Covers n cs parts) : ∀ a ∈ parts, n ≤ l.start a := by
  intro a ha
  obtain ⟨before, _, _, _, hstart, _⟩ := h.stands a ha
  exact hstart ▸ Nat.le_add_right _ _

/-- Every part stops before the later ones start. -/
theorem pairwise (h : l.Covers n cs parts) :
    parts.Pairwise fun a b => l.stop a ≤ l.start b := by
  induction h with
  | last => exact .nil
  | part _ _ _ _ _ hrest ih => exact .cons hrest.le_start ih

end Layout.Covers

end ModuleLoader.Text
