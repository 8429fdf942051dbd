import ModuleLoader.Proofs.SourceMap.Mappings
import ModuleLoader.SourceMap.Json

/-! # Maps of any text

The mappings of a map may be any text. Reading them shifts, adds, negates and turns signed words into
unsigned ones, and each of these can be checked. All checks pass exactly if no number is longer than
thirteen letters and the running source, line and column stay from zero to the greatest signed word,
up to the first segment that cannot be read. Then every origin is a line and a column of a listed
source.
-/

namespace ModuleLoader

namespace Vlq

/-- A number is a signed word of 64 bits. -/
def fits (n : ℤ) : Bool := decide (-(2 ^ 63) ≤ n) && decide (n < 2 ^ 63)

/-- No step overflows while a row of letters is read: no letter is shifted by the width of a word or
more, and every sum and every negated number is a word. What is shifted out of a word is lost without
an overflow. -/
def safe (value : ℤ) (shift : ℕ) : List Char → Bool
  | [] => true
  | c :: rest =>
    (value? c).all fun n =>
      let part := word (n % 32 * Nat.pow 2 (shift % 64) : ℕ)
      let sum := word (value + part)
      decide (shift < 64) && fits (value + part) &&
        if 32 ≤ n then safe sum (shift + 5) rest
        else (decide (sum % 2 ≠ 1) || fits (-(sum / 2))) && safe 0 0 rest

/-- All characters are letters of the alphabet. -/
def Readable (cs : List Char) : Prop := ∀ c ∈ cs, (value? c).isSome

/-- The letters in front of the first character beyond the alphabet. -/
def legible (cs : List Char) : List Char := cs.takeWhile fun c => (value? c).isSome

/-- A number goes on behind a letter. -/
def continues (c : Char) : Bool := (value? c).any (32 ≤ ·)

/-- As far as a row can be read, no number in it is longer than thirteen letters. -/
def Short (cs : List Char) : Prop :=
  ∀ run c, run ++ [c] <:+: legible cs → (∀ d ∈ run, continues d) → run.length ≤ 12

section Fitting

variable {n : ℤ}

theorem fits_iff : fits n = true ↔ -(2 ^ 63) ≤ n ∧ n < 2 ^ 63 := by
  rw [fits, Bool.and_eq_true, decide_eq_true_iff, decide_eq_true_iff]

theorem fits_word (n : ℤ) : fits (word n) = true := by
  have hcount : (wordCount : ℤ) = 2 ^ 64 := rfl
  have hl := Int.le_bmod (x := n) (m := wordCount) (by decide)
  have hu := Int.bmod_lt (x := n) (m := wordCount) (by decide)
  rw [fits_iff, word]
  omega

theorem word_of_fits (h : fits n = true) : word n = n := by
  obtain ⟨hl, hu⟩ := fits_iff.1 h
  exact word_eq hl hu

/-- Half a word is small enough to be negated. -/
theorem fits_neg_half (h : fits n = true) : fits (-(n / 2)) = true := by
  rw [fits_iff] at h ⊢
  omega

end Fitting

section Letters

variable {cs rest : List Char} {c : Char} {n k shift : ℕ} {value : ℤ}

theorem isSome_decode?_iff : (decode? value shift cs).isSome = true ↔ Readable cs := by
  induction cs generalizing value shift with
  | nil => simp [decode?, Readable]
  | cons c rest ih =>
    rw [decode?, Readable, List.forall_mem_cons]
    cases hc : value? c with
    | none => simp
    | some n =>
      rw [Option.bind_some, ← Readable]
      split <;> simp [ih]

/-! ## Long numbers -/

/-- With so many letters of a number in front of it, a row has no number that is too long. -/
def ShortAfter (k : ℕ) (cs : List Char) : Prop :=
  (∀ run c, run ++ [c] <+: legible cs → (∀ d ∈ run, continues d) → k + run.length ≤ 12) ∧ Short cs

theorem shortAfter_zero_iff : ShortAfter 0 cs ↔ Short cs := by
  refine and_iff_right_of_imp fun h run c hrun hcontinues => ?_
  rw [Nat.zero_add]
  exact h run c hrun.isInfix hcontinues

theorem legible_cons_of_eq_some (h : value? c = some n) : legible (c :: rest) = c :: legible rest :=
  List.takeWhile_cons_of_pos (by rw [h]; rfl)

theorem legible_cons_of_eq_none (h : value? c = none) : legible (c :: rest) = [] :=
  List.takeWhile_cons_of_neg (by rw [h]; decide)

theorem shortAfter_of_legible_eq_nil (h : legible cs = []) : ShortAfter k cs := by
  have hnil (run : List Char) (c : Char) : ¬ run ++ [c] <:+: legible cs := by
    rw [h, List.infix_nil]
    exact List.append_ne_nil_of_right_ne_nil run (List.cons_ne_nil c [])
  exact ⟨fun run c hrun => absurd hrun.isInfix (hnil run c), fun run c hrun =>
    absurd hrun (hnil run c)⟩

theorem shortAfter_cons_iff (h : value? c = some n) :
    ShortAfter k (c :: rest) ↔ k ≤ 12 ∧ ShortAfter (if 32 ≤ n then k + 1 else 0) rest := by
  have hcontinues : continues c = true ↔ 32 ≤ n := by simp [continues, h]
  rw [ShortAfter, Short, legible_cons_of_eq_some h]
  constructor
  · rintro ⟨hfirst, hall⟩
    have hshort : Short rest := fun run d hrun => hall run d (List.infix_cons hrun)
    refine ⟨hfirst [] c (List.prefix_append [c] _) (by simp), ?_⟩
    split
    · rename_i hn
      refine ⟨fun run d hrun hd => ?_, hshort⟩
      have hlong := hfirst (c :: run) d (List.prefix_cons_inj c |>.2 hrun)
        (List.forall_mem_cons.2 ⟨hcontinues.2 hn, hd⟩)
      rw [List.length_cons] at hlong
      omega
    · exact shortAfter_zero_iff.2 hshort
  · rintro ⟨hk, hrest⟩
    have hfirst (run : List Char) (d : Char) (hrun : run ++ [d] <+: c :: legible rest)
        (hd : ∀ e ∈ run, continues e) : k + run.length ≤ 12 := by
      cases run with
      | nil => simpa using hk
      | cons e run =>
        obtain ⟨rfl, hbehind⟩ := List.cons_prefix_cons.1 hrun
        obtain ⟨he, hd⟩ := List.forall_mem_cons.1 hd
        rw [if_pos (hcontinues.1 he)] at hrest
        have hlong := hrest.1 run d hbehind hd
        rw [List.length_cons]
        omega
    refine ⟨hfirst, fun run d hrun hd => ?_⟩
    rcases List.infix_cons_iff.1 hrun with hrun | hrun
    · exact le_of_add_le_right (hfirst run d hrun hd)
    · exact hrest.2 run d hrun hd

/-- The thirteenth letter of a number is shifted by sixty bits, and what then stays in the word keeps
the sum a word. -/
theorem fits_add_thirteenth {m : ℕ} (hm : m < 32) (hl : 0 ≤ value) (hu : value < 2 ^ 60) :
    fits (value + word (m * 2 ^ 60 : ℕ)) = true := by
  have hpart : ∀ m < 32, -(2 ^ 63) ≤ word (m * 2 ^ 60 : ℕ) ∧ word (m * 2 ^ 60 : ℕ) ≤ 7 * 2 ^ 60 := by
    decide
  obtain ⟨hpl, hpu⟩ := hpart m hm
  rw [fits_iff]
  omega

/-- Before its fourteenth letter no step of a number overflows, and up to its twelfth letter nothing
is lost. -/
theorem fits_add_letter (hk : k ≤ 12) (hl : 0 ≤ value) (hu : value < 2 ^ (5 * k)) :
    fits (value + word (n % 32 * Nat.pow 2 (5 * k % 64) : ℕ)) = true ∧
      (k + 1 ≤ 12 → 0 ≤ word (value + word (n % 32 * Nat.pow 2 (5 * k % 64) : ℕ)) ∧
        word (value + word (n % 32 * Nat.pow 2 (5 * k % 64) : ℕ)) < 2 ^ (5 * (k + 1))) := by
  rw [Nat.mod_eq_of_lt (show 5 * k < 64 by omega), Nat.pow_eq]
  rcases Nat.lt_or_eq_of_le hk with hlt | rfl
  · have hpow : 2 ^ (5 * (k + 1)) = 2 ^ (5 * k) * 32 := by
      rw [Nat.mul_succ, pow_add]
      rfl
    have hbound : 2 ^ (5 * (k + 1)) ≤ 2 ^ 60 := Nat.pow_le_pow_right (by decide) (by omega)
    have hdigit : n % 32 * 2 ^ (5 * k) ≤ 31 * 2 ^ (5 * k) :=
      Nat.mul_le_mul_right _ (Nat.lt_succ_iff.1 (Nat.mod_lt n (by decide)))
    obtain ⟨v, rfl⟩ := Int.eq_ofNat_of_zero_le hl
    have hv : v < 2 ^ (5 * k) := by exact_mod_cast hu
    have hsum : v + n % 32 * 2 ^ (5 * k) < 2 ^ (5 * (k + 1)) := by omega
    have hword : (v : ℤ) + word (n % 32 * 2 ^ (5 * k) : ℕ) = (v + n % 32 * 2 ^ (5 * k) : ℕ) := by
      rw [word_natCast (by omega), Nat.cast_add]
    rw [hword, word_natCast (by omega), fits_iff]
    exact ⟨⟨by omega, by omega⟩, fun _ => ⟨by omega, by exact_mod_cast hsum⟩⟩
  · exact ⟨fits_add_thirteenth (Nat.mod_lt n (by decide)) hl hu, fun h => absurd h (by decide)⟩

/-- The letters of a row are read without an overflow exactly if no number is too long. -/
theorem safe_iff_shortAfter (hk : k ≤ 13) (hv : k ≤ 12 → 0 ≤ value ∧ value < 2 ^ (5 * k)) :
    safe value (5 * k) cs = true ↔ ShortAfter k cs := by
  induction cs generalizing value k with
  | nil => exact iff_of_true rfl (shortAfter_of_legible_eq_nil rfl)
  | cons c rest ih =>
    rw [safe]
    cases hc : value? c with
    | none => exact iff_of_true rfl (shortAfter_of_legible_eq_nil (legible_cons_of_eq_none hc))
    | some n =>
      rw [shortAfter_cons_iff hc, Option.all_some]
      by_cases hlast : k ≤ 12
      · obtain ⟨hl, hu⟩ := hv hlast
        obtain ⟨hfits, hsum⟩ := fits_add_letter (n := n) hlast hl hu
        have hnegated := fits_neg_half (fits_word
          (value + word (n % 32 * Nat.pow 2 (5 * k % 64) : ℕ)))
        have hshift : decide (5 * k < 64) = true := decide_eq_true (by omega)
        simp only [hfits, hnegated, hshift, Bool.or_true, Bool.true_and, hlast, true_and]
        split
        · exact ih (Nat.succ_le_succ hlast) hsum
        · exact ih (Nat.zero_le 13) fun _ => ⟨le_rfl, by decide⟩
      · have hshift : decide (5 * k < 64) = false := decide_eq_false (by omega)
        simp [hshift, hlast]

theorem safe_iff_short : safe 0 0 cs = true ↔ Short cs :=
  (safe_iff_shortAfter (Nat.zero_le 13) fun _ => ⟨le_rfl, by decide⟩).trans shortAfter_zero_iff

end Letters

end Vlq

namespace SourceMap

open Text Vlq

/-! ## Checked reading -/

/-- The segments of a line that hold letters. -/
def piecesOf (line : List Char) : List (List Char) := (segments ',' line).filter (· ≠ [])

/-- No step overflows while the segments of a line are read: every running sum is a signed word, and
none that is turned into an unsigned word is negative. -/
def safeLine (here : Place) : List (List Char) → Bool
  | [] => true
  | raw :: rest =>
    safe 0 0 raw && (Vlq.decode? 0 0 raw).all fun
      | _ :: s :: l :: c :: _ =>
        let next : Place := ⟨word (here.source + s), word (here.line + l), word (here.column + c)⟩
        fits (here.source + s) && fits (here.line + l) && fits (here.column + c) &&
          decide (0 ≤ next.source) && decide (0 ≤ next.line) && decide (0 ≤ next.column) &&
          safeLine next rest
      | _ => safeLine here rest

/-- No step overflows while lines are read. -/
def safeLines (here : Place) : List (List Char) → Bool
  | [] => true
  | line :: rest =>
    safeLine here (piecesOf line) &&
      (decodeLine? here (piecesOf line)).all fun r => safeLines r.2 rest

/-- The place of a line, without the source's name. -/
def placeAt? (m : SourceMap) (line : ℕ) : Option Place :=
  (decode? m.mappings).bind fun lines =>
    if line = 0 then none else (lines[line - 1]?.bind List.head?).join

/-- The place of a line as an origin. -/
def originAt? (m : SourceMap) (place : Place) : Option Origin :=
  m.sources[unsigned place.source]?.map fun source =>
    ⟨source, (unsigned place.line + 1) % wordCount, (unsigned place.column + 1) % wordCount⟩

/-- No step overflows when the origin of a line is looked for. All mappings are read first, whatever
the line is. -/
def safeAt (m : SourceMap) (line : ℕ) : Bool :=
  safeLines ⟨0, 0, 0⟩ (segments ';' m.mappings.toList) &&
    (m.placeAt? line).all fun place => (m.originAt? place).isNone ||
      decide (unsigned place.line + 1 < wordCount ∧ unsigned place.column + 1 < wordCount)

/-- The segments of all lines that hold letters. -/
def pieces (m : SourceMap) : List (List Char) := (segments ';' m.mappings.toList).flatMap piecesOf

/-- Source, line and column are numbers without a sign, and signed words. -/
structure Place.Natural (place : Place) : Prop where
  source : 0 ≤ place.source ∧ place.source < 2 ^ 63
  line : 0 ≤ place.line ∧ place.line < 2 ^ 63
  column : 0 ≤ place.column ∧ place.column < 2 ^ 63

/-- The exact place that the numbers of a segment lead to. -/
def Place.moved (here : Place) : List ℤ → Place
  | _ :: s :: l :: c :: _ => ⟨here.source + s, here.line + l, here.column + c⟩
  | _ => here

/-- The exact place behind segments. -/
def Place.after (here : Place) (pieces : List (List Char)) : Place :=
  pieces.foldl (fun place piece => place.moved ((Vlq.decode? 0 0 piece).getD [])) here

/-- Segments have no number that is too long and lead from a place to natural places only, up to the
first segment that cannot be read. -/
structure TameFrom (here : Place) (pieces : List (List Char)) : Prop where
  short : ∀ before piece, before ++ [piece] <+: pieces → (∀ p ∈ before, Readable p) → Short piece
  natural : ∀ before, before <+: pieces → (∀ p ∈ before, Readable p) → (here.after before).Natural

/-- The mappings of a map have no number that is too long and lead to natural places only, up to the
first segment that cannot be read. -/
def Tame (m : SourceMap) : Prop := TameFrom ⟨0, 0, 0⟩ m.pieces

section Pieces

variable {here : Place} {piece : List Char} {rest : List (List Char)} {numbers : List ℤ}

theorem tameFrom_nil_iff : TameFrom here [] ↔ here.Natural := by
  constructor
  · intro h
    exact h.natural [] List.nil_prefix (by simp)
  · intro h
    refine ⟨fun before piece hp => absurd (List.prefix_nil.1 hp) (by simp), fun before hp _ => ?_⟩
    rw [List.prefix_nil.1 hp]
    exact h

theorem TameFrom.start {pieces : List (List Char)} (h : TameFrom here pieces) : here.Natural :=
  h.natural [] List.nil_prefix (by simp)

/-- Nothing is asked of what stands behind a segment that cannot be read. -/
theorem tameFrom_cons_iff : TameFrom here (piece :: rest) ↔
    here.Natural ∧ Short piece ∧ (Readable piece → TameFrom (here.after [piece]) rest) := by
  constructor
  · intro ht
    refine ⟨ht.start, ht.short [] piece (List.prefix_append [piece] rest) (by simp), fun hr => ?_⟩
    constructor
    · intro before other hp hbefore
      exact ht.short (piece :: before) other ((List.prefix_cons_inj piece).2 hp)
        (List.forall_mem_cons.2 ⟨hr, hbefore⟩)
    · intro before hp hbefore
      exact ht.natural (piece :: before) ((List.prefix_cons_inj piece).2 hp)
        (List.forall_mem_cons.2 ⟨hr, hbefore⟩)
  · rintro ⟨hh, hs, ht⟩
    constructor
    · intro before other hp hbefore
      cases before with
      | nil =>
        obtain ⟨rfl, -⟩ := List.cons_prefix_cons.1 hp
        exact hs
      | cons first before =>
        obtain ⟨rfl, hbehind⟩ := List.cons_prefix_cons.1 hp
        obtain ⟨hr, hbefore⟩ := List.forall_mem_cons.1 hbefore
        exact (ht hr).short before other hbehind hbefore
    · intro before hp hbefore
      cases before with
      | nil => exact hh
      | cons first before =>
        obtain ⟨rfl, hbehind⟩ := List.cons_prefix_cons.1 hp
        obtain ⟨hr, hbefore⟩ := List.forall_mem_cons.1 hbefore
        exact (ht hr).natural before hbehind hbefore

theorem tameFrom_cons_of_decode?_eq_none (h : Vlq.decode? 0 0 piece = none) :
    TameFrom here (piece :: rest) ↔ here.Natural ∧ Short piece := by
  have hunreadable : ¬ Readable piece := fun hr => by
    have hs : (Vlq.decode? 0 0 piece).isSome = true := isSome_decode?_iff.2 hr
    simp [h] at hs
  simp only [tameFrom_cons_iff, hunreadable, false_imp_iff, and_true]

theorem tameFrom_cons_of_decode?_eq_some (h : Vlq.decode? 0 0 piece = some numbers) :
    TameFrom here (piece :: rest) ↔
      here.Natural ∧ Short piece ∧ TameFrom (here.moved numbers) rest := by
  have hreadable : Readable piece := by
    have hs : (Vlq.decode? 0 0 piece).isSome = true := by
      rw [h]
      rfl
    exact isSome_decode?_iff.1 hs
  have hafter : here.after [piece] = here.moved numbers := by
    rw [Place.after, List.foldl_cons, h]
    rfl
  rw [tameFrom_cons_iff, imp_iff_right hreadable, hafter]

/-! ## Safe reading -/

theorem natural_iff {place : Place} : place.Natural ↔
    (0 ≤ place.source ∧ place.source < 2 ^ 63) ∧ (0 ≤ place.line ∧ place.line < 2 ^ 63) ∧
      0 ≤ place.column ∧ place.column < 2 ^ 63 :=
  ⟨fun h => ⟨h.source, h.line, h.column⟩, fun ⟨hs, hl, hc⟩ => ⟨hs, hl, hc⟩⟩

/-- The place that the numbers of a segment lead to in words, and whether no step on the way to it
overflows. -/
theorem natural_moved_iff {g s l c : ℤ} {more : List ℤ} :
    (here.moved (g :: s :: l :: c :: more)).Natural ↔
      (fits (here.source + s) && fits (here.line + l) && fits (here.column + c) &&
        decide (0 ≤ word (here.source + s)) && decide (0 ≤ word (here.line + l)) &&
        decide (0 ≤ word (here.column + c))) = true := by
  rw [natural_iff]
  simp only [Place.moved, Bool.and_eq_true, decide_eq_true_iff]
  constructor
  · rintro ⟨⟨hs, hs'⟩, ⟨hl, hl'⟩, hc, hc'⟩
    have hfits {n : ℤ} (h : 0 ≤ n) (h' : n < 2 ^ 63) : fits n = true :=
      fits_iff.2 ⟨by omega, h'⟩
    refine ⟨⟨⟨⟨⟨hfits hs hs', hfits hl hl'⟩, hfits hc hc'⟩, ?_⟩, ?_⟩, ?_⟩
    · rwa [word_of_fits (hfits hs hs')]
    · rwa [word_of_fits (hfits hl hl')]
    · rwa [word_of_fits (hfits hc hc')]
  · rintro ⟨⟨⟨⟨⟨hfs, hfl⟩, hfc⟩, hs⟩, hl⟩, hc⟩
    rw [word_of_fits hfs] at hs
    rw [word_of_fits hfl] at hl
    rw [word_of_fits hfc] at hc
    exact ⟨⟨hs, (fits_iff.1 hfs).2⟩, ⟨hl, (fits_iff.1 hfl).2⟩, hc, (fits_iff.1 hfc).2⟩

theorem moved_eq_words {g s l c : ℤ} {more : List ℤ}
    (h : (here.moved (g :: s :: l :: c :: more)).Natural) :
    (⟨word (here.source + s), word (here.line + l), word (here.column + c)⟩ : Place) =
      here.moved (g :: s :: l :: c :: more) := by
  have hsteps := natural_moved_iff.1 h
  simp only [Bool.and_eq_true] at hsteps
  obtain ⟨⟨⟨⟨⟨hfs, hfl⟩, hfc⟩, -⟩, -⟩, -⟩ := hsteps
  rw [word_of_fits hfs, word_of_fits hfl, word_of_fits hfc]
  rfl

/-- Segments are read without an overflow exactly if they are tame. -/
theorem safeLine_iff {pieces : List (List Char)} (hh : here.Natural) :
    safeLine here pieces = true ↔ TameFrom here pieces := by
  induction pieces generalizing here with
  | nil => exact iff_of_true rfl (tameFrom_nil_iff.2 hh)
  | cons piece rest ih =>
    rw [safeLine, Bool.and_eq_true, safe_iff_short]
    cases hd : Vlq.decode? 0 0 piece with
    | none => simp [tameFrom_cons_of_decode?_eq_none hd, hh]
    | some numbers =>
      rw [tameFrom_cons_of_decode?_eq_some hd, and_iff_right hh, Option.all_some]
      refine and_congr_right fun _ => ?_
      rcases numbers with _ | ⟨_, _ | ⟨_, _ | ⟨_, _ | ⟨_, _⟩⟩⟩⟩
      case cons.cons.cons.cons =>
        simp only
        rw [Bool.and_eq_true, ← natural_moved_iff]
        constructor
        · rintro ⟨hnext, hrest⟩
          rw [moved_eq_words hnext] at hrest
          exact (ih hnext).1 hrest
        · intro ht
          rw [moved_eq_words ht.start]
          exact ⟨ht.start, (ih ht.start).2 ht⟩
      all_goals exact ih hh

theorem safeLine_append {before after : List (List Char)} :
    safeLine here (before ++ after) = (safeLine here before &&
      (decodeLine? here before).all fun r => safeLine r.2 after) := by
  induction before generalizing here with
  | nil => rfl
  | cons piece rest ih =>
    rw [List.cons_append, safeLine, safeLine, decodeLine?]
    cases hd : Vlq.decode? 0 0 piece with
    | none => simp
    | some numbers =>
      rw [Option.all_some, Option.all_some, Option.bind_some]
      rcases numbers with _ | ⟨_, _ | ⟨_, _ | ⟨_, _ | ⟨_, _⟩⟩⟩⟩
      all_goals simp [ih, Option.all_map, Bool.and_assoc]

/-- Lines make no difference to the arithmetic. -/
theorem safeLines_eq (here : Place) (lines : List (List Char)) :
    safeLines here lines = safeLine here (lines.flatMap piecesOf) := by
  induction lines generalizing here with
  | nil => rfl
  | cons line rest ih => simp only [safeLines, List.flatMap_cons, safeLine_append, ih]

/-! ## Origins of tame maps -/

/-- All places that tame segments are read as are natural. -/
theorem natural_of_decodeLine? {pieces : List (List Char)} (ht : TameFrom here pieces)
    {r : List (Option Place) × Place} (h : decodeLine? here pieces = some r) :
    r.2.Natural ∧ ∀ place, some place ∈ r.1 → place.Natural := by
  induction pieces generalizing here r with
  | nil =>
    cases h
    exact ⟨ht.start, by simp⟩
  | cons piece rest ih =>
    rw [decodeLine?] at h
    cases hd : Vlq.decode? 0 0 piece with
    | none =>
      rw [hd] at h
      cases h
    | some numbers =>
      rw [hd, Option.bind_some] at h
      obtain ⟨-, -, hrest⟩ := (tameFrom_cons_of_decode?_eq_some hd).1 ht
      rcases numbers with _ | ⟨_, _ | ⟨_, _ | ⟨_, _ | ⟨_, _⟩⟩⟩⟩
      case cons.cons.cons.cons =>
        obtain ⟨r, hr, rfl⟩ := Option.map_eq_some_iff.1 h
        rw [moved_eq_words hrest.start] at hr ⊢
        obtain ⟨hlast, hplaces⟩ := ih hrest hr
        refine ⟨hlast, fun place hmem => ?_⟩
        rcases List.mem_cons.1 hmem with heq | hmem
        · rw [Option.some.inj heq]
          exact hrest.start
        · exact hplaces place hmem
      all_goals
        obtain ⟨r, hr, rfl⟩ := Option.map_eq_some_iff.1 h
        obtain ⟨hlast, hplaces⟩ := ih hrest hr
        exact ⟨hlast, fun place hmem => hplaces place (by simpa using hmem)⟩

theorem natural_of_decodeLines? {lines : List (List Char)} (hh : here.Natural)
    (hs : safeLines here lines = true) {r : List (List (Option Place))}
    (h : decodeLines? here lines = some r) :
    ∀ row ∈ r, ∀ place, some place ∈ row → place.Natural := by
  induction lines generalizing here r with
  | nil =>
    cases h
    simp
  | cons line rest ih =>
    rw [safeLines, Bool.and_eq_true] at hs
    obtain ⟨hline, hrest⟩ := hs
    obtain ⟨first, hfirst, h⟩ := Option.bind_eq_some_iff.1 h
    obtain ⟨rows, hrows, rfl⟩ := Option.map_eq_some_iff.1 h
    obtain ⟨hlast, hplaces⟩ := natural_of_decodeLine? ((safeLine_iff hh).1 hline) hfirst
    have hbehind : safeLines first.2 rest = true := by
      rw [piecesOf, hfirst] at hrest
      exact hrest
    exact List.forall_mem_cons.2 ⟨hplaces, ih hlast hbehind hrows⟩

end Pieces

section Maps

variable {m : SourceMap} {line : ℕ} {place : Place}

theorem originOf?_eq (m : SourceMap) (line : ℕ) :
    m.originOf? line = (m.placeAt? line).bind m.originAt? := by
  rw [originOf?, placeAt?]
  cases decode? m.mappings with
  | none => rfl
  | some lines =>
    by_cases h : line = 0
    · simp [h]
    · simp only [Option.bind_eq_bind, Option.bind_some, h, if_false, ← Option.bind_id_eq_join,
        Option.bind_assoc, id_eq]
      refine Option.bind_congr fun row _ => Option.bind_congr fun head _ =>
        Option.bind_congr fun place _ => ?_
      rw [originAt?, Option.map_eq_bind]
      rfl

theorem natural_start : (⟨0, 0, 0⟩ : Place).Natural :=
  ⟨⟨le_rfl, by decide⟩, ⟨le_rfl, by decide⟩, le_rfl, by decide⟩

theorem safeLines_iff_tame :
    safeLines ⟨0, 0, 0⟩ (segments ';' m.mappings.toList) = true ↔ m.Tame := by
  rw [safeLines_eq]
  exact safeLine_iff natural_start

theorem Tame.natural (ht : m.Tame) (h : m.placeAt? line = some place) : place.Natural := by
  obtain ⟨lines, hlines, h⟩ := Option.bind_eq_some_iff.1 h
  by_cases hline : line = 0
  · rw [if_pos hline] at h
    cases h
  · rw [if_neg hline, Option.join_eq_some_iff, Option.bind_eq_some_iff] at h
    obtain ⟨row, hrow, hhead⟩ := h
    exact natural_of_decodeLines? natural_start (safeLines_iff_tame.2 ht) hlines row
      (List.mem_of_getElem? hrow) place (List.mem_of_mem_head? hhead)

theorem unsigned_of_natural {n : ℤ} (h : 0 ≤ n ∧ n < 2 ^ 63) :
    unsigned n = n.toNat ∧ unsigned n + 1 < wordCount := by
  have hcount : (wordCount : ℤ) = 2 ^ 64 := rfl
  have hcount' : wordCount = 2 ^ 64 := rfl
  obtain ⟨hl, hu⟩ := h
  rw [unsigned, Int.emod_eq_of_lt hl (by omega)]
  exact ⟨rfl, by omega⟩

/-- The origin of a natural place is the place itself, counted from one. -/
theorem originAt?_of_natural (h : place.Natural) :
    m.originAt? place = m.sources[place.source.toNat]?.map fun source =>
      ⟨source, place.line.toNat + 1, place.column.toNat + 1⟩ := by
  obtain ⟨hl, hl'⟩ := unsigned_of_natural h.line
  obtain ⟨hc, hc'⟩ := unsigned_of_natural h.column
  rw [originAt?, Nat.mod_eq_of_lt hl', Nat.mod_eq_of_lt hc', hl, hc,
    (unsigned_of_natural h.source).1]

/-- Whatever the mappings of a map are, no step overflows when the origin of a line is looked for
exactly if the map is tame. Then the origin, if there is one, is a line and a column of a listed
source, both at least one: those of the exact place that the line leads to. -/
theorem safeAt_iff_tame (m : SourceMap) (line : ℕ) :
    (m.safeAt line = true ↔ m.Tame) ∧
      (m.Tame → ∀ origin, m.originOf? line = some origin →
        ∃ place, m.placeAt? line = some place ∧ place.Natural ∧
          m.sources[place.source.toNat]? = some origin.source ∧
          origin.line = place.line.toNat + 1 ∧ origin.column = place.column.toNat + 1) := by
  constructor
  · rw [safeAt, Bool.and_eq_true, safeLines_iff_tame, and_iff_left_iff_imp]
    intro ht
    rw [Option.all_eq_true]
    intro place hplace
    have hnatural := ht.natural hplace
    rw [Bool.or_eq_true, decide_eq_true_iff]
    exact .inr ⟨(unsigned_of_natural hnatural.line).2, (unsigned_of_natural hnatural.column).2⟩
  · intro ht origin horigin
    rw [originOf?_eq] at horigin
    obtain ⟨place, hplace, horigin⟩ := Option.bind_eq_some_iff.1 horigin
    have hnatural := ht.natural hplace
    rw [originAt?_of_natural hnatural] at horigin
    obtain ⟨source, hsource, rfl⟩ := Option.map_eq_some_iff.1 horigin
    exact ⟨place, hplace, hnatural, hsource, rfl, rfl⟩

end Maps

/-- Two lines of one source, the second above the first, and a segment with too few numbers. -/
def backwards : SourceMap := ⟨3, "out", ["in"], [none], [], "AAgBC,AA;AADC"⟩

theorem safeAt_iff_tame_backwards :
    backwards.Tame ∧ backwards.originOf? 2 = some ⟨"in", 16, 3⟩ ∧
      ∃ place, backwards.placeAt? 2 = some place ∧ place.Natural ∧
        backwards.sources[place.source.toNat]? = some "in" ∧
        16 = place.line.toNat + 1 ∧ 3 = place.column.toNat + 1 := by
  have hsafe : backwards.safeAt 2 = true := by decide +kernel
  have htame := (safeAt_iff_tame backwards 2).1.1 hsafe
  have horigin : backwards.originOf? 2 = some ⟨"in", 16, 3⟩ := by decide +kernel
  exact ⟨htame, horigin, (safeAt_iff_tame backwards 2).2 htame _ horigin⟩

/-- The document of a map whose only segment leads one line above the first. -/
def aboveFirst : String :=
  "\x7b\"version\":3,\"file\":\"f\",\"sources\":[\"a\"],\"mappings\":\"AADA\"\x7d"

/-- The place is turned into the greatest unsigned word, the number of the line wraps around to zero,
and a line zero is answered. -/
theorem origin_above_first_line :
    ∃ m, read? aboveFirst = some m ∧ m.safeAt 1 = false ∧
      m.placeAt? 1 = some ⟨0, -1, 0⟩ ∧ m.originOf? 1 = some ⟨"a", 0, 1⟩ := by
  refine ⟨⟨3, "f", ["a"], [], [], "AADA"⟩, ?_, ?_, ?_, ?_⟩
  · decide +kernel
  · decide +kernel
  · decide +kernel
  · decide +kernel

end SourceMap

end ModuleLoader
