import Mathlib.Data.List.TakeWhile
import ModuleLoader.Url.Parser
import ModuleLoader.Proofs.Text.Segments
import ModuleLoader.Proofs.Url.Encoding

/-! # Written paths

A path that was written begins with a slash and has only characters that stay as they are. Unless it
belongs to a local file, it has no segments of points, and writing it again changes nothing. The
path of a local file is written again as it is if it has no segments of points either and what
follows its first slash is not taken for a drive.
-/

namespace ModuleLoader

namespace Url

open Text

/-! ## Last segments -/

section LastSegments

variable {path : List Char}

theorem exists_eq_lastSegment (h : '/' ∈ path) :
    ∃ front, path = front ++ '/' :: lastSegment path ∧ '/' ∉ lastSegment path := by
  obtain ⟨a, b, hab, ha⟩ := List.eq_append_cons_of_mem (List.mem_reverse.2 h)
  have hlast : lastSegment path = a.reverse := by
    rw [lastSegment, hab, List.takeWhile_append_of_pos fun c hc => by
      simpa using ne_of_mem_of_not_mem hc ha]
    simp
  refine ⟨b.reverse, ?_, by simpa [hlast] using ha⟩
  rw [hlast, ← List.reverse_reverse path, hab]
  simp

/-- Taking back the last segment leaves what is in front of it, with its slash. -/
theorem shorten_false (h : '/' ∈ path) :
    ∃ front, path = front ++ '/' :: lastSegment path ∧ shorten false path = front ++ ['/'] := by
  obtain ⟨front, hpath, -⟩ := exists_eq_lastSegment h
  have hlen := congrArg List.length hpath
  rw [List.length_append, List.length_cons] at hlen
  have hdrop : path.length - (lastSegment path).length = (front ++ ['/']).length := by
    rw [List.length_append, List.length_singleton]
    omega
  refine ⟨front, hpath, ?_⟩
  rw [shorten, Bool.false_and, if_neg Bool.false_ne_true, hdrop]
  have htake : (front ++ ['/'] ++ lastSegment path).take (front ++ ['/']).length = front ++ ['/'] :=
    List.take_left
  rwa [← List.append_cons, ← hpath] at htake

theorem shorten_eq (file : Bool) (path : List Char) :
    shorten file path = path ∨ shorten file path = shorten false path := by
  rw [shorten, shorten, Bool.false_and, if_neg Bool.false_ne_true]
  split
  · exact .inl rfl
  · exact .inr rfl

/-- Climbing from a path leads to a beginning of it that ends with a slash, or nowhere in the path
of a file. -/
theorem climb_eq (file : Bool) (h : path.head? = some '/') :
    ∃ rest, path = climb file path ++ rest ∧ climb file path ≠ [] ∧ (file = false → ∃ front, climb file path = front ++ ['/']) := by
  have hY : ∃ Y rest, path = Y ++ rest ∧ '/' ∈ Y ∧ climb file path = shorten file Y := by
    rw [climb]
    split
    · rename_i hgo
      rw [Bool.and_eq_true, lastSlashMayGo, Bool.and_eq_true] at hgo
      refine ⟨path.dropLast, path.drop path.dropLast.length, ?_, by simpa using hgo.2.1, rfl⟩
      exact ((List.prefix_iff_eq_append.1 (List.dropLast_prefix path))).symm
    · exact ⟨path, [], (List.append_nil _).symm, List.mem_of_head? h, rfl⟩
  obtain ⟨Y, rest, hpath, hmem, hclimb⟩ := hY
  obtain ⟨front, hfront, hshort⟩ := shorten_false hmem
  have hready : file = false → ∃ front, climb file path = front ++ ['/'] :=
    fun hf => ⟨front, by rw [hclimb, hf, hshort]⟩
  rcases shorten_eq file Y with hsame | hcut
  · rw [hsame] at hclimb
    exact ⟨rest, by rw [hclimb, hpath], by rw [hclimb]; exact List.ne_nil_of_mem hmem, hready⟩
  · rw [hcut, hshort] at hclimb
    refine ⟨lastSegment Y ++ rest, ?_, by simp [hclimb], hready⟩
    rw [hclimb, hpath, ← List.append_assoc, ← List.append_cons, ← hfront]

end LastSegments

/-! ## Paths as they are written -/

/-- What a path may not hold: in special URLs no backslash either. -/
def pathSetFor (special : Bool) : List Char := if special then '\\' :: pathSet else pathSet

/-- Whether a path begins with a slash and has nothing left to encode. -/
structure Wrought (special : Bool) (path : List Char) : Prop where
  plain : Plain (pathSetFor special) path
  head : path.head? = some '/'

/-- Whether a path has no segments of points. -/
def Clean (path : List Char) : Prop := ∀ s ∈ segments '/' path, dots? s = none

/-- Whether a path ends with a slash and has no segments of points in front of it. -/
def Ready (path : List Char) : Prop := ∃ front, path = front ++ ['/'] ∧ Clean front

theorem clean_append_cons {a b : List Char} : Clean (a ++ '/' :: b) ↔ Clean a ∧ Clean b := by
  simp only [Clean, segments_append_cons, List.mem_append, or_imp, forall_and]

theorem clean_nil : Clean [] := by
  intro s hs
  rw [segments, List.mem_singleton] at hs
  rw [hs]
  rfl

theorem clean_of_not_mem {s : List Char} (h : '/' ∉ s) (hd : dots? s = none) : Clean s := by
  intro t ht
  rw [segments_of_not_mem h, List.mem_singleton] at ht
  rwa [ht]

theorem Ready.clean {path : List Char} (h : Ready path) : Clean path := by
  obtain ⟨front, rfl, hf⟩ := h
  exact clean_append_cons.2 ⟨hf, clean_nil⟩

theorem Ready.endsWithSlash {path : List Char} (h : Ready path) : endsWithSlash path = true := by
  obtain ⟨front, rfl, -⟩ := h
  simp [Url.endsWithSlash]

theorem ready_slash : Ready ['/'] := ⟨[], rfl, clean_nil⟩

section Wrought

variable {special : Bool} {path cs : List Char}

theorem mem_pathSetFor {c : Char} (h : c ∈ pathSet) : c ∈ pathSetFor special := by
  rw [pathSetFor]
  split
  · exact List.mem_cons_of_mem _ h
  · exact h

theorem slash_plain (special : Bool) : Plain (pathSetFor special) ['/'] := by
  intro c hc
  rw [List.mem_singleton.1 hc]
  cases special <;> decide +kernel

theorem slash_wrought (special : Bool) : Wrought special ['/'] := ⟨slash_plain _, rfl⟩

/-- Encoding leaves nothing to encode in a path. -/
theorem plain_encode_path (h : special = true → '\\' ∉ cs) :
    Plain (pathSetFor special) (encode pathSet cs) := by
  intro c hc
  obtain ⟨hv, hp⟩ := plain_path cs c hc
  refine ⟨hv, ?_⟩
  cases special with
  | false => exact hp
  | true =>
    refine List.not_mem_cons_of_ne_of_not_mem ?_ hp
    rintro rfl
    rcases mem_encode hc with hb | ⟨hm, -⟩
    · revert hb
      decide +kernel
    · exact h rfl hm

theorem Wrought.append (h : Wrought special path) (hcs : Plain (pathSetFor special) cs) :
    Wrought special (path ++ cs) := by
  obtain ⟨c, path, rfl⟩ := List.exists_cons_of_ne_nil (List.ne_nil_of_mem (List.mem_of_head? h.head))
  exact ⟨h.plain.append hcs, h.head⟩

theorem Wrought.of_append (h : Wrought special (path ++ cs)) (hne : path ≠ []) :
    Wrought special path := by
  obtain ⟨c, path, rfl⟩ := List.exists_cons_of_ne_nil hne
  exact ⟨h.plain.sublist fun c hc => List.mem_append_left _ hc, h.head⟩

theorem Wrought.climb (h : Wrought special path) (file : Bool) :
    Wrought special (climb file path) := by
  obtain ⟨rest, hpath, hne, -⟩ := climb_eq file h.head
  rw [hpath] at h
  exact h.of_append hne

theorem Wrought.shorten (h : Wrought special path) (file : Bool) :
    Wrought special (shorten file path) := by
  rcases shorten_eq file path with hsame | hcut
  · rwa [hsame]
  · obtain ⟨front, hpath, hfront⟩ := shorten_false (List.mem_of_head? h.head)
    rw [hcut, hfront]
    rw [hpath, List.append_cons] at h
    exact h.of_append (by simp)

theorem Clean.shorten (h : Clean path) (hm : '/' ∈ path) : Ready (shorten false path) := by
  obtain ⟨front, hpath, hfront⟩ := shorten_false hm
  rw [hpath, clean_append_cons] at h
  exact ⟨front, hfront, h.1⟩

theorem Ready.climb (h : Ready path) (hh : path.head? = some '/') : Ready (climb false path) := by
  obtain ⟨rest, hpath, -, hfront⟩ := climb_eq false hh
  obtain ⟨front, hfront⟩ := hfront rfl
  have hc := h.clean
  rw [hpath, hfront, ← List.append_cons, clean_append_cons] at hc
  exact ⟨front, hfront, hc.1⟩

end Wrought

/-! ## Writing segments -/

section Segments

variable {special file : Bool} {path segment : List Char}

theorem writeSegment_false (path segment : List Char) :
    writeSegment false path segment = (path ++ encode pathSet segment, path.length) := by
  have hfold (cs : List Char) (start : ℕ) : cs.foldl (fun (r : List Char × ℕ) c =>
      if false && isDrive r.1.tail then (r.1 ++ '/' :: encode pathSet [c], r.2 + 1)
      else (r.1 ++ encode pathSet [c], r.2)) (path, start) =
        (path ++ encode pathSet cs, start) := by
    induction cs generalizing path with
    | nil => simp [encode]
    | cons c cs ih =>
      rw [List.foldl_cons, Bool.false_and, if_neg Bool.false_ne_true, ih, List.append_assoc,
        ← encode_append]
      rfl
  exact hfold segment path.length

/-- Writing a segment puts its encoded characters and slashes behind the path. -/
theorem exists_writeSegment (file : Bool) (hb : special = true → '\\' ∉ segment) :
    ∃ more, (writeSegment file path segment).1 = path ++ more ∧
      Plain (pathSetFor special) more ∧ path.length ≤ (writeSegment file path segment).2 := by
  have hfold (cs : List Char) (start : ℕ) (hcs : special = true → '\\' ∉ cs) :
      ∃ more n, cs.foldl (fun (r : List Char × ℕ) c =>
        if file && isDrive r.1.tail then (r.1 ++ '/' :: encode pathSet [c], r.2 + 1)
        else (r.1 ++ encode pathSet [c], r.2)) (path, start) = (path ++ more, start + n) ∧
          Plain (pathSetFor special) more := by
    induction cs generalizing path start with
    | nil => exact ⟨[], 0, by simp, plain_nil _⟩
    | cons c cs ih =>
      have hc : Plain (pathSetFor special) (encode pathSet [c]) :=
        plain_encode_path fun hs hm => hcs hs (by simpa using List.mem_singleton.1 hm ▸ .inl rfl)
      have htail : special = true → '\\' ∉ cs := fun hs hm => hcs hs (List.mem_cons_of_mem _ hm)
      rw [List.foldl_cons]
      split
      · obtain ⟨more, n, hmore, hp⟩ := @ih (path ++ '/' :: encode pathSet [c]) (start + 1) htail
        refine ⟨'/' :: encode pathSet [c] ++ more, 1 + n, ?_, ?_⟩
        · rw [hmore, List.append_assoc, Nat.add_assoc]
        · exact ((slash_plain special).append hc).append hp
      · obtain ⟨more, n, hmore, hp⟩ := @ih (path ++ encode pathSet [c]) start htail
        exact ⟨encode pathSet [c] ++ more, n, by rw [hmore, List.append_assoc], hc.append hp⟩
  obtain ⟨more, n, hmore, hp⟩ := hfold segment path.length hb
  exact ⟨more, congrArg Prod.fst hmore, hp, by
    rw [show (writeSegment file path segment).2 = path.length + n from congrArg Prod.snd hmore]
    exact Nat.le_add_right _ _⟩

theorem Wrought.drive {start : ℕ} (h : Wrought special path)
    (hd : namesDrive (path.drop start) = true) : Wrought special (path.dropLast ++ [':']) := by
  have hlen : 2 ≤ path.length := by
    have hdrop : (path.drop start).length = 2 := by
      rw [namesDrive.eq_def] at hd
      split at hd
      · rename_i hcd
        rw [hcd]
        rfl
      · cases hd
    rw [List.length_drop] at hdrop
    omega
  have hne : path.dropLast ≠ [] := by
    rw [← List.length_pos_iff, List.length_dropLast]
    omega
  have hcolon : Plain (pathSetFor special) [':'] := by
    intro c hc
    rw [List.mem_singleton.1 hc]
    cases special <;> decide +kernel
  refine Wrought.append ?_ hcolon
  rw [← List.dropLast_concat_getLast (List.ne_nil_of_length_pos (by omega : 0 < path.length))] at h
  exact h.of_append hne

theorem Wrought.addSegment {draft : PathDraft} (h : Wrought special draft.path)
    (hb : special = true → '\\' ∉ segment) (slash : Bool) :
    Wrought special (addSegment file draft segment slash).path := by
  obtain ⟨more, hmore, hp, hle⟩ := @exists_writeSegment special draft.path segment file hb
  have hw := h.append hp
  rw [← hmore] at hw
  have htake : Wrought special
      ((writeSegment file draft.path segment).1.take (writeSegment file draft.path segment).2) := by
    have hne : draft.path ≠ [] := List.ne_nil_of_mem (List.mem_of_head? h.head)
    rw [← List.take_append_drop (writeSegment file draft.path segment).2
      (writeSegment file draft.path segment).1] at hw
    refine hw.of_append fun hnil => ?_
    rw [List.take_eq_nil_iff, hmore] at hnil
    have := List.length_pos_iff.2 hne
    rcases hnil with hnil | hnil
    · omega
    · simp [hne] at hnil
  rw [Url.addSegment]
  dsimp only
  split
  · split
    · exact htake
    · exact htake.append (slash_plain special)
  · split
    · exact (htake.climb file).append (slash_plain special)
    · exact htake.climb file
  · split
    · refine Wrought.append ?_ (slash_plain special)
      split
      · rename_i hd
        exact hw.drive (Bool.and_eq_true_iff.1 hd).2
      · exact hw
    · split
      · rename_i hd
        exact hw.drive (Bool.and_eq_true_iff.1 hd).2
      · exact hw

/-- A segment of a path of no file keeps the path clean. -/
theorem Ready.addSegment {draft : PathDraft} (h : Ready draft.path)
    (hh : draft.path.head? = some '/') (hs : '/' ∉ segment) (slash : Bool) :
    Clean (addSegment false draft segment slash).path ∧
      (slash = true → Ready (addSegment false draft segment slash).path) := by
  obtain ⟨front, hpath, hfront⟩ := h
  have hs' : '/' ∉ encode pathSet segment := by
    intro hm
    rcases mem_encode hm with hm | ⟨hm, -⟩
    · revert hm
      decide +kernel
    · exact hs hm
  rw [Url.addSegment, writeSegment_false]
  dsimp only
  rw [List.drop_left, List.take_left]
  split
  · have hready : Ready draft.path := ⟨front, hpath, hfront⟩
    rw [if_pos hready.endsWithSlash]
    exact ⟨hready.clean, fun _ => hready⟩
  · have hready : Ready (Url.climb false draft.path) := Ready.climb ⟨front, hpath, hfront⟩ hh
    rw [hready.endsWithSlash, Bool.not_true, Bool.and_false, if_neg Bool.false_ne_true]
    exact ⟨hready.clean, fun _ => hready⟩
  · rename_i hdots
    have hclean : Clean (draft.path ++ encode pathSet segment) := by
      rw [hpath, ← List.append_cons]
      exact clean_append_cons.2 ⟨hfront, clean_of_not_mem hs' hdots⟩
    rw [Bool.false_and, Bool.false_and, if_neg Bool.false_ne_true]
    cases slash with
    | false => exact ⟨hclean, fun h => absurd h Bool.false_ne_true⟩
    | true => exact ⟨clean_append_cons.2 ⟨hclean, clean_nil⟩, fun _ => ⟨_, rfl, hclean⟩⟩

theorem Wrought.addSegments {draft : PathDraft} (h : Wrought special draft.path)
    {rows : List (List Char)} (hb : special = true → ∀ s ∈ rows, '\\' ∉ s) :
    Wrought special (addSegments file draft rows).path := by
  induction rows generalizing draft with
  | nil => exact h
  | cons s rows ih =>
    have hs : special = true → '\\' ∉ s := fun hsp => hb hsp s List.mem_cons_self
    cases rows with
    | nil => exact h.addSegment hs false
    | cons t rows =>
      exact ih (h.addSegment hs true) fun hsp s hs => hb hsp s (List.mem_cons_of_mem _ hs)

theorem Ready.addSegments {draft : PathDraft} (h : Ready draft.path)
    (hw : Wrought special draft.path) {rows : List (List Char)} (hs : ∀ s ∈ rows, '/' ∉ s)
    (hb : special = true → ∀ s ∈ rows, '\\' ∉ s) :
    Clean (Url.addSegments false draft rows).path := by
  induction rows generalizing draft with
  | nil => exact h.clean
  | cons s rows ih =>
    have hone := h.addSegment hw.head (hs s List.mem_cons_self)
    cases rows with
    | nil => exact (hone false).1
    | cons t rows =>
      refine ih ((hone true).2 rfl) (hw.addSegment (fun hsp => hb hsp s List.mem_cons_self) true)
        (fun s hm => hs s (List.mem_cons_of_mem _ hm))
        fun hsp s hm => hb hsp s (List.mem_cons_of_mem _ hm)

end Segments

/-! ## Whole paths -/

/-- Whether a path is one that is written for a scheme. -/
structure IsPathOf (scheme path : List Char) : Prop where
  wrought : Wrought (isSpecial scheme) path
  clean : isFile scheme = false → Clean path
  single : isFile scheme = true → ∀ rest, path ≠ '/' :: '/' :: rest

section Whole

variable {scheme path cs : List Char}

theorem isSpecial_of_isFile (h : isFile scheme = true) : isSpecial scheme = true := by
  rw [isFile, decide_eq_true_eq] at h
  rw [h]
  decide +kernel

theorem wrought_rooted (file : Bool) {special : Bool} (h : Wrought special path) :
    Wrought special (rooted file path) := by
  cases file with
  | false => exact h
  | true =>
    refine ⟨?_, rfl⟩
    have hslash := (slash_plain special).append
      (h.plain.sublist fun c hc => (List.dropWhile_sublist (· = '/')).subset hc)
    exact hslash

/-- A path that is written behind a beginning of one is a path again. -/
theorem isPathOf_writePath (hw : Wrought (isSpecial scheme) path)
    (hr : isFile scheme = false → Ready path) (cs : List Char) :
    IsPathOf scheme (writePath scheme path cs).path := by
  set cs' := if isSpecial scheme then cs.map fun c => if c = '\\' then '/' else c else cs with hcs
  have hb : isSpecial scheme = true → ∀ s ∈ segments '/' cs', '\\' ∉ s := by
    intro hsp s hs hm
    have hmem := mem_of_mem_segments hs hm
    rw [hcs, if_pos hsp, List.mem_map] at hmem
    obtain ⟨c, -, hc⟩ := hmem
    split at hc
    · cases hc
    · rename_i hne
      exact hne hc
  have hpath : (writePath scheme path cs).path =
      rooted (isFile scheme)
        (addSegments (isFile scheme) ⟨path, false⟩ (segments '/' cs')).path := rfl
  have hwrought := @Wrought.addSegments _ (isFile scheme) ⟨path, false⟩ hw _ hb
  rw [hpath]
  refine ⟨wrought_rooted _ hwrought, fun hf => ?_, fun hf rest => ?_⟩
  · rw [hf]
    exact Ready.addSegments (hr hf) hw (fun s hs => not_mem_of_mem_segments hs) hb
  · rw [hf, rooted, if_pos rfl]
    intro heq
    have hhead := List.head?_dropWhile_not (· = '/')
      (addSegments true ⟨path, false⟩ (segments '/' cs')).path
    rw [(List.cons_inj_right _).1 heq] at hhead
    simp at hhead

theorem writeWhole_nil (h : isSpecial scheme = false) : (writeWhole scheme []).path = [] := by
  have hf : isFile scheme = false := by
    rw [Bool.eq_false_iff]
    intro hf
    rw [isSpecial_of_isFile hf] at h
    cases h
  simp only [writeWhole, writePath, h, hf]
  rfl

/-- The path behind an authority, which may be missing if the scheme is not special. -/
theorem isPathOf_writeWhole (scheme cs : List Char) : IsPathOf scheme (writeWhole scheme cs).path ∨
    isSpecial scheme = false ∧ (writeWhole scheme cs).path = [] := by
  cases cs with
  | nil =>
    cases hsp : isSpecial scheme with
    | true =>
      rw [writeWhole, hsp, if_pos rfl]
      exact .inl (isPathOf_writePath (slash_wrought _) (fun _ => ready_slash) [])
    | false => exact .inr ⟨rfl, writeWhole_nil hsp⟩
  | cons c cs =>
    refine .inl ?_
    rw [writeWhole]
    split <;> exact isPathOf_writePath (slash_wrought _) (fun _ => ready_slash) _

end Whole

/-! ## Paths that are written again -/

section Again

variable {scheme path segment : List Char}

/-- Whether a file path takes a first segment for a drive: a letter and a colon, or a letter and a
bar alone. -/
def looksLikeDrive : List Char → Bool
  | c :: d :: rest => c.isAlpha && (d = ':' || d = '|' && rest = [])
  | _ => false

/-- Whether no beginning of a segment is taken for a drive behind a path. -/
def Apart (path segment : List Char) : Prop :=
  '/' ∈ path.tail ∨ path = ['/'] ∧ looksLikeDrive segment = false

theorem isDrive_of_mem {cs : List Char} (h : '/' ∈ cs) : isDrive cs = false := by
  rw [isDrive.eq_def]
  split
  · rw [List.mem_cons, List.mem_singleton] at h
    rcases h with rfl | rfl
    · rfl
    · exact Bool.and_false _
  · rfl

theorem namesDrive_of_isDrive {cs : List Char} (h : namesDrive cs = true) :
    looksLikeDrive cs = true := by
  rw [namesDrive.eq_def] at h
  split at h
  · simpa [looksLikeDrive] using h
  · cases h

theorem Apart.ne_nil (h : Apart path segment) : path ≠ [] := by
  rintro rfl
  rcases h with h | ⟨h, -⟩ <;> cases h

theorem Apart.isDrive_false (h : Apart path segment) {front behind : List Char}
    (hs : segment = front ++ behind) : isDrive (path ++ front).tail = false := by
  have hne := h.ne_nil
  rcases h with h | ⟨rfl, h⟩
  · rw [List.tail_append_of_ne_nil hne]
    exact isDrive_of_mem (List.mem_append_left _ h)
  · rw [Bool.eq_false_iff]
    intro hd
    rw [List.singleton_append, List.tail_cons, isDrive.eq_def] at hd
    split at hd
    · obtain ⟨hc, hcolon⟩ := Bool.and_eq_true_iff.1 hd
      rw [hs] at h
      simp [looksLikeDrive, hc, of_decide_eq_true hcolon] at h
    · cases hd

theorem writeSegment_self (file : Bool) (hp : Plain pathSet segment)
    (ha : file = true → Apart path segment) :
    writeSegment file path segment = (path ++ segment, path.length) := by
  have hfold : ∀ front behind, segment = front ++ behind →
      behind.foldl (fun (r : List Char × ℕ) c =>
        if file && isDrive r.1.tail then (r.1 ++ '/' :: encode pathSet [c], r.2 + 1)
        else (r.1 ++ encode pathSet [c], r.2)) (path ++ front, path.length) =
          (path ++ segment, path.length) := by
    intro front behind hs
    induction behind generalizing front with
    | nil => rw [hs, List.append_nil, List.foldl_nil]
    | cons c behind ih =>
      have hc : Plain pathSet [c] := hp.sublist fun d hd => by simp_all
      have hd : (file && isDrive (path ++ front).tail) = false := by
        cases file with
        | false => rfl
        | true => exact (ha rfl).isDrive_false hs
      rw [List.foldl_cons, hd, if_neg Bool.false_ne_true, encode_plain hc, List.append_assoc]
      exact ih (front ++ [c]) (by rw [hs, List.append_assoc, List.singleton_append])
  have h := hfold [] segment rfl
  rwa [List.append_nil] at h

/-- A segment that is clean and no drive is written as it is. -/
theorem addSegment_self {file : Bool} (driveNamed : Bool) (hp : Plain pathSet segment)
    (hd : dots? segment = none) (ha : file = true → Apart path segment) (slash : Bool) :
    addSegment file ⟨path, driveNamed⟩ segment slash =
      ⟨path ++ segment ++ if slash then ['/'] else [], driveNamed⟩ := by
  have hdrive : (file && decide (path.length = 1) && namesDrive segment) = false := by
    cases file with
    | false => rfl
    | true =>
      rw [Bool.true_and, Bool.and_eq_false_iff]
      rcases ha rfl with h | ⟨-, h⟩
      · left
        obtain ⟨c, path, rfl⟩ := List.exists_cons_of_ne_nil (ha rfl).ne_nil
        have := List.length_pos_of_mem h
        simp only [List.tail_cons] at this
        simp only [List.length_cons, decide_eq_false_iff_not]
        omega
      · right
        rw [Bool.eq_false_iff]
        intro hn
        rw [namesDrive_of_isDrive hn] at h
        cases h
  rw [addSegment, writeSegment_self file hp ha]
  dsimp only
  rw [List.drop_left, hd]
  dsimp only
  rw [hdrive, if_neg Bool.false_ne_true, Bool.or_false]
  cases slash <;> simp

theorem addSegments_self {file driveNamed : Bool} {rows : List (List Char)} (hne : rows ≠ [])
    (hp : ∀ s ∈ rows, Plain pathSet s) (hd : ∀ s ∈ rows, dots? s = none)
    (ha : file = true → Apart path (rows.head hne)) :
    addSegments file ⟨path, driveNamed⟩ rows = ⟨path ++ joined '/' rows, driveNamed⟩ := by
  induction rows generalizing path with
  | nil => exact absurd rfl hne
  | cons s rows ih =>
    have hs := addSegment_self driveNamed (hp s List.mem_cons_self) (hd s List.mem_cons_self) ha
    cases rows with
    | nil =>
      rw [addSegments, hs, joined]
      simp
    | cons t rows =>
      rw [addSegments, hs, if_pos rfl, ih (by simp) (fun s h => hp s (List.mem_cons_of_mem _ h))
        (fun s h => hd s (List.mem_cons_of_mem _ h)) ?_, joined]
      · simp
      · intro hf
        rw [Apart, List.append_assoc, List.tail_append_of_ne_nil (ha hf).ne_nil]
        exact .inl (by simp)
      · simp

theorem rooted_slashes (hs : ∀ rest, path ≠ '/' :: rest) (n : ℕ) :
    rooted true (List.replicate n '/' ++ path) = '/' :: path := by
  have hdrop : path.dropWhile (· = '/') = path := by
    cases path with
    | nil => rfl
    | cons c path =>
      have hc : c ≠ '/' := fun hc => hs path (by rw [hc])
      simp [hc]
  rw [rooted, if_pos rfl, List.dropWhile_append_of_pos (by simp), hdrop]

/-- A clean path is written as it is if nothing in it is taken for a drive. -/
theorem writePath_clean (hb : isSpecial scheme = true → '\\' ∉ path) (hp : Plain pathSet path)
    (hclean : Clean path) (hd : isFile scheme = true →
      looksLikeDrive ((segments '/' path).head (segments_ne_nil _ _)) = false) :
    writePath scheme ['/'] path = ⟨rooted (isFile scheme) ('/' :: path), false⟩ := by
  have hback : (if isSpecial scheme then path.map fun c => if c = '\\' then '/' else c else path) =
      path := by
    split
    · rename_i hsp
      exact (List.map_congr_left fun c hc =>
        if_neg (ne_of_mem_of_not_mem hc (hb hsp))).trans (List.map_id path)
    · rfl
  rw [writePath, hback, addSegments_self (segments_ne_nil _ _)
    (fun s hs => hp.sublist fun c => mem_of_mem_segments hs) hclean fun hf => .inr ⟨rfl, hd hf⟩,
    joined_segments]
  rfl

theorem clean_tail (hc : Clean ('/' :: path)) : Clean path :=
  ((clean_append_cons (a := [])).1 hc).2

section Rest

variable (h : IsPathOf scheme ('/' :: path))

include h

theorem IsPathOf.plain_all : Plain pathSet ('/' :: path) :=
  h.wrought.plain.mono fun _ => mem_pathSetFor

theorem IsPathOf.backslash_not_mem (hsp : isSpecial scheme = true) : '\\' ∉ '/' :: path := by
  intro hm
  refine (h.wrought.plain _ hm).2 ?_
  rw [hsp, pathSetFor, if_pos rfl]
  exact List.mem_cons_self

theorem IsPathOf.ne_slash (hf : isFile scheme = true) (rest : List Char) : path ≠ '/' :: rest := by
  rintro rfl
  exact h.single hf rest rfl

/-- Writing a clean path again changes nothing, unless it begins with a drive of a file. -/
theorem writePath_self (hc : Clean ('/' :: path)) (hd : isFile scheme = true →
    looksLikeDrive ((segments '/' path).head (segments_ne_nil _ _)) = false) :
    writePath scheme ['/'] path = ⟨'/' :: path, false⟩ := by
  rw [writePath_clean (fun hsp hm => h.backslash_not_mem hsp (List.mem_cons_of_mem _ hm))
    (h.plain_all.sublist fun _ => List.mem_cons_of_mem _) (clean_tail hc) hd]
  cases hf : isFile scheme with
  | false => rfl
  | true => exact congrArg (PathDraft.mk · false) (rooted_slashes (h.ne_slash hf) 1)

/-- Behind a slash a path of a file is written as it is, even if it begins with a drive. -/
theorem writePath_again (hc : Clean ('/' :: path)) (hf : isFile scheme = true) :
    writePath scheme ['/'] ('/' :: path) = ⟨'/' :: path, false⟩ := by
  have hd : looksLikeDrive ((segments '/' ('/' :: path)).head (segments_ne_nil _ _)) = false := by
    simp [segments, looksLikeDrive]
  rw [writePath_clean h.backslash_not_mem h.plain_all hc fun _ => hd, hf]
  exact congrArg (PathDraft.mk · false) (rooted_slashes (h.ne_slash hf) 2)

end Rest

/-- Writing a clean path again behind an authority changes nothing, unless it begins with a drive of
a file. -/
theorem writeWhole_self (h : IsPathOf scheme path) (hc : Clean path) (hd : isFile scheme = true →
    looksLikeDrive ((segments '/' path.tail).head (segments_ne_nil _ _)) = false) :
    writeWhole scheme path = ⟨path, false⟩ := by
  cases path with
  | nil => cases h.wrought.head
  | cons c path =>
    obtain rfl : '/' = c := by simpa using h.wrought.head.symm
    have hslash : isSlash (isSpecial scheme) '/' = true := rfl
    rw [writeWhole, if_pos hslash, writePath_self h hc hd]

end Again

end Url

end ModuleLoader
