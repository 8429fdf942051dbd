import Mathlib.Algebra.Order.Group.Nat
import ModuleLoader.Url.Host
import ModuleLoader.Proofs.Results
import ModuleLoader.Proofs.Text.Segments

/-! # Addresses and their texts

The text of an address of 32 or 128 bits is read as the address. Whatever is read as an address has
as many bits.
-/

namespace ModuleLoader.Url

open Text

/-! ## Addresses of 32 bits -/

/-- The bytes of an address, the highest first. -/
def bytesOf (address : ℕ) : List ℕ :=
  [16777216, 65536, 256, 1].map fun unit => address / unit % 256

theorem ipv4Text_eq (address : ℕ) :
    ipv4Text address = joined '.' ((bytesOf address).map (Nat.toDigits 10)) := rfl

theorem bytesOf_lt {address b : ℕ} (h : b ∈ bytesOf address) : b < 256 := by
  obtain ⟨unit, -, rfl⟩ := List.mem_map.1 h
  exact Nat.mod_lt _ (by decide)

theorem segments_ipv4Text (address : ℕ) :
    segments '.' (ipv4Text address) = (bytesOf address).map (Nat.toDigits 10) := by
  rw [ipv4Text_eq, segments_joined (by simp [bytesOf])]
  intro s hs
  obtain ⟨b, -, rfl⟩ := List.mem_map.1 hs
  intro h
  have := Nat.isDigit_of_mem_toDigits (by decide) (by decide) h
  contradiction

theorem mem_ipv4Text {address : ℕ} {c : Char} (h : c ∈ ipv4Text address) :
    c = '.' ∨ c.isDigit = true := by
  rcases mem_joined (ipv4Text_eq address ▸ h) with rfl | ⟨s, hs, hc⟩
  · exact .inl rfl
  · obtain ⟨b, -, rfl⟩ := List.mem_map.1 hs
    exact .inr (Nat.isDigit_of_mem_toDigits (by decide) (by decide) hc)

theorem nameParts_ipv4Text (address : ℕ) :
    nameParts (ipv4Text address) = (bytesOf address).map (Nat.toDigits 10) := by
  rw [nameParts, segments_ipv4Text, if_neg]
  simp [bytesOf, Nat.toDigits_ne_nil]

theorem endsInNumber_ipv4Text (address : ℕ) : endsInNumber (ipv4Text address) = true := by
  have hall : (Nat.toDigits 10 (address / 1 % 256)).all Char.isDigit = true :=
    List.all_eq_true.2 fun c hc => Nat.isDigit_of_mem_toDigits (by decide) (by decide) hc
  rw [endsInNumber, nameParts_ipv4Text]
  simp only [bytesOf, List.map_cons, List.map_nil, List.getLast?_cons_cons, List.getLast?_singleton,
    hall, Bool.and_true]
  simp [Nat.toDigits_ne_nil]

theorem ipv4Number?_toDigits {b : ℕ} (h : b < 256) : ipv4Number? (Nat.toDigits 10 b) = some b := by
  have hall : ∀ b < 256, ipv4Number? (Nat.toDigits 10 b) = some b := by decide +kernel
  exact hall b h

theorem ipv4?_ipv4Text {address : ℕ} (h : address < 2 ^ 32) :
    ipv4? (ipv4Text address) = some address := by
  have hread : (nameParts (ipv4Text address)).mapM ipv4Number? = some (bytesOf address) := by
    rw [nameParts_ipv4Text, mapM_eq_some_iff, List.map_map]
    exact List.map_congr_left fun b hb => ipv4Number?_toDigits (bytesOf_lt hb)
  rw [ipv4?, hread, Option.bind_some]
  simp [ipv4OfNumbers?, bytesOf]
  omega

theorem ipv4OfNumbers?_lt {numbers : List ℕ} {address : ℕ}
    (h : ipv4OfNumbers? numbers = some address) : address < 2 ^ 32 := by
  match numbers with
  | [] => cases h
  | [a] =>
    simp [ipv4OfNumbers?] at h
    omega
  | [a, b] =>
    simp [ipv4OfNumbers?] at h
    omega
  | [a, b, c] =>
    simp [ipv4OfNumbers?] at h
    omega
  | [a, b, c, d] =>
    simp [ipv4OfNumbers?] at h
    omega
  | _ :: _ :: _ :: _ :: _ :: rest =>
    simp only [ipv4OfNumbers?] at h
    split at h
    · cases h
    · simp at h

/-! ## Pieces of addresses of 128 bits -/

/-- The digits of pieces. -/
def hexDigits : List Char := "0123456789abcdef".toList

theorem hexDigit_step {d : ℕ} (h : d < 16) :
    d.digitChar ∈ hexDigits ∧ hexValue? d.digitChar = some d := by
  have hall : ∀ d < 16, d.digitChar ∈ hexDigits ∧ hexValue? d.digitChar = some d := by
    decide +kernel
  exact hall d h

theorem mem_hexText {n : ℕ} {c : Char} (h : c ∈ hexText n) : c ∈ hexDigits := by
  rw [hexText] at h
  induction n using Nat.strong_induction_on with
  | _ n ih =>
    by_cases hn : n < 16
    · rw [Nat.toDigits_of_lt_base hn, List.mem_singleton] at h
      rw [h]
      exact (hexDigit_step hn).1
    · rw [Nat.toDigits_of_base_le (by decide) (by omega), List.mem_append, List.mem_singleton] at h
      rcases h with h | rfl
      · exact ih (n / 16) (by omega) h
      · exact (hexDigit_step (Nat.mod_lt _ (by decide))).1

/-- Read one more digit. -/
def hexStep (n : Option ℕ) (c : Char) : Option ℕ :=
  n.bind fun n => (hexValue? c).map fun v => 16 * n + v

theorem foldl_hexText (n : ℕ) : (hexText n).foldl hexStep (some 0) = some n := by
  rw [hexText]
  induction n using Nat.strong_induction_on with
  | _ n ih =>
    by_cases hn : n < 16
    · rw [Nat.toDigits_of_lt_base hn, List.foldl_cons, List.foldl_nil, hexStep, Option.bind_some,
        (hexDigit_step hn).2]
      simp
    · have hd := (hexDigit_step (d := n % 16) (Nat.mod_lt _ (by decide))).2
      rw [Nat.toDigits_of_base_le (by decide) (by omega), List.foldl_append, ih (n / 16) (by omega),
        List.foldl_cons, List.foldl_nil, hexStep, Option.bind_some, hd, Option.map_some]
      exact congrArg some (Nat.div_add_mod n 16)

theorem ipv6Piece?_hexText {n : ℕ} (h : n < 65536) : ipv6Piece? (hexText n) = some n := by
  have hlen : (hexText n).length ≤ 4 := (Nat.length_toDigits_le_iff (by decide) (by decide)).2 h
  rw [ipv6Piece?, if_neg]
  · exact foldl_hexText n
  · rintro (hnil | hlong)
    · exact Nat.toDigits_ne_nil hnil
    · omega

theorem hexValue?_lt {c : Char} {v : ℕ} (h : hexValue? c = some v) : v < 16 := by
  rw [hexValue?] at h
  split_ifs at h with hd hl hu
  · cases h
    simp only [Char.isDigit, Bool.and_eq_true, decide_eq_true_eq, UInt32.le_iff_toNat_le] at hd
    have : c.toNat ≤ 57 := hd.2
    omega
  · cases h
    have : c.toNat ≤ 102 := hl.2
    omega
  · cases h
    have : c.toNat ≤ 70 := hu.2
    omega

theorem foldl_hexStep_none (cs : List Char) : cs.foldl hexStep none = none := by
  induction cs with
  | nil => rfl
  | cons c cs ih => exact ih

theorem foldl_hexStep_lt {cs : List Char} {m n k : ℕ} (hm : m < 16 ^ k)
    (h : cs.foldl hexStep (some m) = some n) : n < 16 ^ (k + cs.length) := by
  induction cs generalizing m k with
  | nil =>
    cases h
    exact hm
  | cons c cs ih =>
    rw [List.foldl_cons, hexStep, Option.bind_some] at h
    cases hv : hexValue? c with
    | none =>
      rw [hv, Option.map_none, foldl_hexStep_none] at h
      cases h
    | some v =>
      rw [hv, Option.map_some] at h
      have hlt := hexValue?_lt hv
      have := ih (k := k + 1) (by rw [pow_succ]; omega) h
      rwa [List.length_cons, ← Nat.add_assoc, Nat.add_right_comm]

theorem ipv6Piece?_lt {cs : List Char} {n : ℕ} (h : ipv6Piece? cs = some n) : n < 65536 := by
  rw [ipv6Piece?] at h
  split at h
  · cases h
  · rename_i hlen
    rw [not_or] at hlen
    have hlt := foldl_hexStep_lt (k := 0) (by decide) h
    refine hlt.trans_le ?_
    rw [Nat.zero_add]
    exact Nat.pow_le_pow_right (by decide) (show cs.length ≤ 4 by omega)

theorem decimalByte?_lt {cs : List Char} {n : ℕ} (h : decimalByte? cs = some n) : n < 256 := by
  rw [decimalByte?] at h
  split at h
  · cases h
  · dsimp only at h
    split at h
    · cases h
      assumption
    · cases h

theorem ipv6Pieces?_lt {cs : List Char} {pieces : List ℕ} (h : ipv6Pieces? cs = some pieces) :
    ∀ p ∈ pieces, p < 65536 := by
  have hread {rows : List (List Char)} {pieces : List ℕ} (h : rows.mapM ipv6Piece? = some pieces) :
      ∀ p ∈ pieces, p < 65536 := by
    intro p hp
    obtain ⟨row, -, hrow⟩ := exists_of_mapM h hp
    exact ipv6Piece?_lt hrow
  rw [ipv6Pieces?] at h
  split at h
  · cases h
    exact List.forall_mem_nil _
  · dsimp only at h
    split at h
    · cases h
    · split at h
      · simp only [Option.bind_eq_bind, Option.bind_eq_some_iff] at h
        obtain ⟨front, hfront, bytes, hbytes, h⟩ := h
        have hbyte : ∀ b ∈ bytes, b < 256 := by
          intro b hb
          obtain ⟨row, -, hrow⟩ := exists_of_mapM hbytes hb
          exact decimalByte?_lt hrow
        split at h
        · cases h
          intro p hp
          simp only [List.mem_cons, List.not_mem_nil, or_false, forall_eq_or_imp,
            forall_eq] at hbyte
          rcases List.mem_append.1 hp with hp | hp
          · exact hread hfront p hp
          · simp only [List.mem_cons, List.not_mem_nil, or_false] at hp
            omega
        · cases h
      · exact hread h

theorem ipv6?_spec {cs : List Char} {pieces : List ℕ} (h : ipv6? cs = some pieces) :
    pieces.length = 8 ∧ ∀ p ∈ pieces, p < 65536 := by
  rw [ipv6?] at h
  split at h
  · obtain ⟨read, hread, h⟩ := Option.bind_eq_some_iff.1 h
    split at h
    · cases h
      exact ⟨‹_›, ipv6Pieces?_lt hread⟩
    · cases h
  · split at h
    · cases h
    · simp only [Option.bind_eq_bind, Option.bind_eq_some_iff] at h
      obtain ⟨front, hfront, back, hback, h⟩ := h
      split at h
      · cases h
        refine ⟨by simp; omega, fun p hp => ?_⟩
        simp only [List.mem_append, List.mem_replicate] at hp
        rcases hp with (hp | hp) | hp
        · exact ipv6Pieces?_lt hfront p hp
        · omega
        · exact ipv6Pieces?_lt hback p hp
      · cases h

/-! ## Texts of addresses of 128 bits -/

theorem colon_not_mem_hexText (n : ℕ) : ':' ∉ hexText n := by
  intro h
  have := mem_hexText h
  revert this
  decide +kernel

theorem point_not_mem_hexText (n : ℕ) : '.' ∉ hexText n := by
  intro h
  have := mem_hexText h
  revert this
  decide +kernel

/-- The pieces of an address with colons between them. -/
def piecesText (pieces : List ℕ) : List Char := joined ':' (pieces.map hexText)

theorem point_not_mem_piecesText (pieces : List ℕ) : '.' ∉ piecesText pieces := by
  intro h
  rcases mem_joined h with h | ⟨s, hs, hc⟩
  · cases h
  · obtain ⟨n, -, rfl⟩ := List.mem_map.1 hs
    exact point_not_mem_hexText n hc

theorem ipv6Pieces?_piecesText {pieces : List ℕ} (h : ∀ p ∈ pieces, p < 65536) :
    ipv6Pieces? (piecesText pieces) = some pieces := by
  cases hp : pieces with
  | nil => rfl
  | cons p ps =>
    rw [← hp]
    have hne : pieces.map hexText ≠ [] := by simp [hp]
    have hsegments : segments ':' (piecesText pieces) = pieces.map hexText := by
      refine segments_joined hne fun s hs => ?_
      obtain ⟨n, -, rfl⟩ := List.mem_map.1 hs
      exact colon_not_mem_hexText n
    have hread : (pieces.map hexText).mapM ipv6Piece? = some pieces := by
      rw [mapM_eq_some_iff, List.map_map]
      exact List.map_congr_left fun n hn => ipv6Piece?_hexText (h n hn)
    have hnil : piecesText pieces ≠ [] := by
      intro hnil
      rw [hnil, hp, List.map_cons] at hsegments
      exact Nat.toDigits_ne_nil (List.cons_eq_cons.1 hsegments).1.symm
    obtain ⟨last, hlast⟩ : ∃ last, (pieces.map hexText).getLast? = some last :=
      Option.isSome_iff_exists.1 (List.getLast?_isSome.2 hne)
    have hpoint : last.contains '.' = false := by
      obtain ⟨n, -, rfl⟩ := List.mem_map.1 (List.mem_of_getLast? hlast)
      simpa using point_not_mem_hexText n
    rw [ipv6Pieces?, if_neg hnil, hsegments]
    dsimp only
    rw [hlast]
    dsimp only
    rw [hpoint, if_neg Bool.false_ne_true, hread]

theorem cutAtGap?_append {row : List Char} (h : ':' ∉ row) (cs : List Char) :
    cutAtGap? (row ++ cs) = (cutAtGap? cs).map fun p => (row ++ p.1, p.2) := by
  induction row with
  | nil => simp
  | cons c row ih =>
    obtain ⟨hc, hrow⟩ := List.ne_and_not_mem_of_not_mem_cons h
    rw [List.cons_append, cutAtGap?, ih hrow, Option.map_map]
    · rfl
    · rintro rest rfl
      exact absurd rfl hc

theorem cutAtGap?_colon {c : Char} (h : c ≠ ':') (cs : List Char) :
    cutAtGap? (':' :: c :: cs) = (cutAtGap? (c :: cs)).map fun p => (':' :: p.1, p.2) := by
  rw [cutAtGap?]
  rintro _ rest ⟨rfl, -⟩
  exact h rfl

theorem exists_piecesText (p : ℕ) (ps : List ℕ) :
    ∃ c rest, piecesText (p :: ps) = c :: rest ∧ c ≠ ':' := by
  obtain ⟨c, ds, hds⟩ := List.exists_cons_of_ne_nil (show hexText p ≠ [] from Nat.toDigits_ne_nil)
  have hc : c ≠ ':' :=
    ne_of_mem_of_not_mem (hds ▸ List.mem_cons_self) (colon_not_mem_hexText p)
  cases ps with
  | nil => exact ⟨c, ds, hds, hc⟩
  | cons q ps =>
    refine ⟨c, ds ++ ':' :: piecesText (q :: ps), ?_, hc⟩
    rw [← List.cons_append, ← hds]
    rfl

/-- Pieces with colons between them have no gap before what is behind them has one. -/
theorem cutAtGap?_piecesText {pieces : List ℕ} (hne : pieces ≠ []) (cs : List Char) :
    cutAtGap? (piecesText pieces ++ cs) =
      (cutAtGap? cs).map fun p => (piecesText pieces ++ p.1, p.2) := by
  induction pieces with
  | nil => exact absurd rfl hne
  | cons p ps ih =>
    cases ps with
    | nil => exact cutAtGap?_append (colon_not_mem_hexText p) cs
    | cons q ps =>
      have htext : piecesText (p :: q :: ps) = hexText p ++ ':' :: piecesText (q :: ps) := rfl
      obtain ⟨c, rest, hc⟩ := exists_piecesText q ps
      rw [htext, List.append_assoc, cutAtGap?_append (colon_not_mem_hexText p), List.cons_append,
        hc.1, List.cons_append, cutAtGap?_colon hc.2, ← List.cons_append, ← hc.1, ih (by simp),
        Option.map_map, Option.map_map]
      congr 1
      funext r
      simp

theorem cutAtGap?_gap (front back : List ℕ) :
    cutAtGap? (piecesText front ++ [':', ':'] ++ piecesText back) =
      some (piecesText front, piecesText back) := by
  have hgap : cutAtGap? (':' :: ':' :: piecesText back) = some ([], piecesText back) := rfl
  rw [List.append_assoc]
  cases front with
  | nil => exact hgap
  | cons p ps =>
    refine (cutAtGap?_piecesText (by simp) _).trans ?_
    rw [List.cons_append, List.cons_append, List.nil_append, hgap, Option.map_some, List.append_nil]

/-- Whether pieces have a run of zeros of a length at a position. -/
def ZerosAt (pieces : List ℕ) (gap : ℕ × ℕ) : Prop :=
  ∃ front back, pieces = front ++ List.replicate gap.2 0 ++ back ∧ front.length = gap.1

/-- The search for the longest run finds zeros only. In front of the rest stands a run that may be
the longest. -/
theorem zerosAt_longestZeros {front rest : List ℕ} {run : ℕ} {best : ℕ × ℕ}
    (h : ZerosAt (front ++ List.replicate run 0 ++ rest) best) :
    ZerosAt (front ++ List.replicate run 0 ++ rest)
      (longestZeros (front.length + run) run best rest) := by
  induction rest generalizing front run best with
  | nil =>
    rw [longestZeros]
    split
    · exact ⟨front, [], rfl, (Nat.add_sub_cancel _ _).symm⟩
    · exact h
  | cons p rest ih =>
    rw [longestZeros]
    split
    · rename_i hp
      subst hp
      have hrun : front ++ List.replicate run 0 ++ 0 :: rest =
          front ++ List.replicate (run + 1) 0 ++ rest := by
        rw [List.replicate_succ', List.append_assoc, List.append_assoc, List.append_assoc]
        rfl
      rw [hrun] at h ⊢
      exact ih h
    · have hnext : front ++ List.replicate run 0 ++ p :: rest =
          (front ++ List.replicate run 0 ++ [p]) ++ List.replicate 0 0 ++ rest := by simp
      have hstart : front.length + run + 1 = (front ++ List.replicate run 0 ++ [p]).length + 0 := by
        simp [Nat.add_assoc]
      rw [hnext, hstart]
      refine ih ?_
      rw [← hnext]
      split
      · exact ⟨front, p :: rest, rfl, (Nat.add_sub_cancel _ _).symm⟩
      · exact h

/-- The text of an address is read as the address. -/
theorem ipv6?_ipv6Text {pieces : List ℕ} (hlen : pieces.length = 8)
    (h : ∀ p ∈ pieces, p < 65536) : ipv6? (ipv6Text pieces) = some pieces := by
  obtain ⟨front, back, hpieces, hfront⟩ : ZerosAt pieces (longestZeros 0 0 (0, 0) pieces) :=
    @zerosAt_longestZeros [] pieces 0 (0, 0) ⟨[], pieces, rfl, rfl⟩
  rw [ipv6Text]
  split
  · have hne : pieces ≠ [] := List.ne_nil_of_length_pos (by omega)
    have hcut : cutAtGap? (piecesText pieces) = none := by
      have := cutAtGap?_piecesText hne []
      rwa [List.append_nil] at this
    rw [← piecesText, ipv6?, hcut]
    dsimp only
    rw [ipv6Pieces?_piecesText h, Option.bind_some, if_pos hlen]
  · rename_i hgap
    generalize longestZeros 0 0 (0, 0) pieces = gap at *
    obtain ⟨start, run⟩ := gap
    dsimp only at hpieces hfront hgap ⊢
    have htake : pieces.take start = front := by
      rw [hpieces, ← hfront, List.append_assoc, List.take_left]
    have hdrop : pieces.drop (start + run) = back := by
      have hboth : start + run = (front ++ List.replicate run 0).length := by simp [hfront]
      rw [hboth, hpieces, List.drop_left]
    have hreadFront : ∀ p ∈ front, p < 65536 := fun p hp => h p (by rw [hpieces]; simp [hp])
    have hreadBack : ∀ p ∈ back, p < 65536 := fun p hp => h p (by rw [hpieces]; simp [hp])
    have hused : front.length + run + back.length = 8 := by
      rw [← hlen, hpieces]
      simp [Nat.add_assoc]
    rw [htake, hdrop, ← piecesText, ← piecesText, ipv6?, cutAtGap?_gap]
    dsimp only
    rw [if_neg (by simpa using point_not_mem_piecesText front), ipv6Pieces?_piecesText hreadFront,
      ipv6Pieces?_piecesText hreadBack]
    simp only [Option.bind_eq_bind, Option.bind_some]
    rw [if_pos (by omega), hpieces, show 8 - (front.length + back.length) = run by omega]

theorem mem_ipv6Text {pieces : List ℕ} {c : Char} (h : c ∈ ipv6Text pieces) :
    c ∈ ':' :: hexDigits := by
  have hpieces {ps : List ℕ} (h : c ∈ piecesText ps) : c ∈ ':' :: hexDigits := by
    rcases mem_joined h with rfl | ⟨s, hs, hc⟩
    · exact List.mem_cons_self
    · obtain ⟨n, -, rfl⟩ := List.mem_map.1 hs
      exact List.mem_cons_of_mem _ (mem_hexText hc)
  rw [ipv6Text] at h
  split at h
  · exact hpieces h
  · simp only [List.mem_append, List.mem_cons, List.not_mem_nil, or_false, or_self] at h
    rcases h with (h | rfl) | h
    · exact hpieces h
    · exact List.mem_cons_self
    · exact hpieces h

end ModuleLoader.Url
