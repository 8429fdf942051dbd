import Mathlib.Logic.Relation
import ModuleLoader.Proofs.Specifiers.CanonicalNames

/-! # Balanced paths

A specifier leads along a path of segments. Two points cancel the segment in front of them, and what
is left in the end is the canonical name. That works out exactly for balanced paths, which nowhere
have more ways up than segments to leave.
-/

namespace ModuleLoader.Specifier

open Relation Text

/-- The segments that lead up or down. -/
def moves (rows : List (List Char)) : List (List Char) :=
  rows.filter fun s => s ≠ [] ∧ s ≠ ['.']

/-- No beginning of a path has more ways up than segments. -/
def Balanced (rows : List (List Char)) : Prop :=
  ∀ front, front <+: rows → front.count ['.', '.'] ≤ front.countP (· ≠ ['.', '.'])

/-- Two points cancel the segment right in front of them. -/
inductive Cancels : List (List Char) → List (List Char) → Prop where
  | mk (before after : List (List Char)) {s : List Char} : s ≠ ['.', '.'] →
      Cancels (before ++ s :: ['.', '.'] :: after) (before ++ after)

/-- What is left of a path when all points have cancelled a segment. -/
def Leaves (rows left : List (List Char)) : Prop :=
  ReflTransGen Cancels rows left ∧ ['.', '.'] ∉ left

/-! ## Balance -/

section Balance

variable {height : ℕ} {rows : List (List Char)} {s : List Char}

/-- The same of a path behind some segments that can be left. -/
def BalancedFrom (height : ℕ) (rows : List (List Char)) : Prop :=
  ∀ front, front <+: rows → front.count ['.', '.'] ≤ height + front.countP (· ≠ ['.', '.'])

theorem balanced_iff : Balanced rows ↔ BalancedFrom 0 rows := by
  simp only [Balanced, BalancedFrom, Nat.zero_add]

theorem balancedFrom_nil : BalancedFrom height [] := by
  intro front hfront
  rw [List.prefix_nil.1 hfront]
  exact Nat.zero_le _

theorem balancedFrom_cons : BalancedFrom height (s :: rows) ↔ ∀ front, front <+: rows →
    (s :: front).count ['.', '.'] ≤ height + (s :: front).countP (· ≠ ['.', '.']) := by
  simp only [BalancedFrom, List.prefix_cons_iff]
  constructor
  · exact fun h front hfront => h _ (.inr ⟨front, rfl, hfront⟩)
  · rintro h _ (rfl | ⟨front, rfl, hfront⟩)
    · exact Nat.zero_le _
    · exact h front hfront

/-- A way up takes one segment. -/
theorem balancedFrom_up :
    BalancedFrom height (['.', '.'] :: rows) ↔ 0 < height ∧ BalancedFrom (height - 1) rows := by
  have hups (front : List (List Char)) : (['.', '.'] :: front).countP (· ≠ ['.', '.']) =
      front.countP (· ≠ ['.', '.']) := List.countP_cons_of_neg (by simp)
  simp only [balancedFrom_cons, List.count_cons_self, hups]
  constructor
  · intro h
    have hpos := h [] List.nil_prefix
    rw [List.count_nil, List.countP_nil] at hpos
    refine ⟨by omega, fun front hfront => ?_⟩
    have := h front hfront
    omega
  · rintro ⟨hpos, h⟩ front hfront
    have := h front hfront
    omega

/-- Any other segment adds one. -/
theorem balancedFrom_down (hs : s ≠ ['.', '.']) :
    BalancedFrom height (s :: rows) ↔ BalancedFrom (height + 1) rows := by
  rw [balancedFrom_cons]
  refine forall₂_congr fun front _ => ?_
  rw [List.count_cons_of_ne hs, List.countP_cons_of_pos (by simpa using hs)]
  omega

end Balance

/-! ## Walks along paths -/

section Walks

variable {rooted : Bool} {dir rows left reached : List (List Char)} {s : List Char}

/-- Whether a row has only segments that lead up or down. -/
def IsMoving (rows : List (List Char)) : Prop := ∀ s ∈ rows, s ≠ [] ∧ s ≠ ['.']

theorem isMoving_moves (rows : List (List Char)) : IsMoving (moves rows) := fun s hs => by
  simpa [moves] using (List.mem_filter.1 hs).2

theorem moves_append (rows rows' : List (List Char)) :
    moves (rows ++ rows') = moves rows ++ moves rows' := List.filter_append _ _

theorem moves_eq_self (h : IsMoving rows) : moves rows = rows :=
  List.filter_eq_self.2 fun s hs => by simpa using h s hs

theorem walk_moves (rooted : Bool) (dir rows : List (List Char)) :
    walk rooted dir (moves rows) = walk rooted dir rows := by
  induction rows generalizing dir with
  | nil => rfl
  | cons s rows ih =>
    by_cases hs : s = [] ∨ s = ['.']
    · have hmoves : moves (s :: rows) = moves rows := by
        rw [moves, List.filter_cons_of_neg (by rcases hs with rfl | rfl <;> simp), moves]
      rw [hmoves, ih, walk, if_pos hs]
    · have hmoves : moves (s :: rows) = s :: moves rows := by
        obtain ⟨hne, hpoint⟩ := not_or.1 hs
        rw [moves, List.filter_cons_of_pos (by simp [hne, hpoint]), moves]
      rw [hmoves, walk, walk]
      simp only [ih]

theorem walk_cancels (hm : IsMoving rows) (h : Cancels rows left) :
    walk false dir rows = walk false dir left := by
  cases h with
  | @mk before after s hs =>
    obtain ⟨hne, hpoint⟩ := hm s (by simp)
    rw [walk_append, walk_append]
    refine congrArg (walk false dir before >>= ·) (funext fun d => ?_)
    simp [walk, hne, hpoint, hs]

theorem IsMoving.of_cancels (hm : IsMoving rows) (h : Cancels rows left) : IsMoving left := by
  cases h with
  | mk before after =>
    refine fun t ht => hm t ?_
    rcases List.mem_append.1 ht with ht | ht <;> simp [ht]

theorem Leaves.isMoving (h : Leaves rows left) (hm : IsMoving rows) : IsMoving left := by
  obtain ⟨h, -⟩ := h
  induction h with
  | refl => exact hm
  | tail _ hc ih => exact ih.of_cancels hc

/-- A walk comes to what is left of its path. -/
theorem Leaves.walk_eq (h : Leaves rows left) (hm : IsMoving rows) :
    walk false [] rows = .ok left := by
  obtain ⟨h, hleft⟩ := h
  induction h using ReflTransGen.head_induction_on with
  | refl =>
    exact walk_still fun s hs => ⟨(hm s hs).1, (hm s hs).2, ne_of_mem_of_not_mem hs hleft⟩
  | head hc _ ih => rw [walk_cancels hm hc, ih (hm.of_cancels hc)]

theorem leaves_of_walk (hm : IsMoving rows) (hdir : ['.', '.'] ∉ dir)
    (h : walk false dir rows = .ok reached) : Leaves (dir ++ rows) reached := by
  induction rows generalizing dir with
  | nil =>
    cases h
    exact ⟨by rw [List.append_nil], hdir⟩
  | cons s rows ih =>
    obtain ⟨⟨hne, hpoint⟩, hrows⟩ := List.forall_mem_cons.1 hm
    rw [walk, if_neg (not_or.2 ⟨hne, hpoint⟩)] at h
    split_ifs at h with hup hempty
    · -- no way up is in the directory, so its last segment is one that can be cancelled
      have hnonempty : dir ≠ [] := by simpa using hempty
      obtain ⟨front, t, rfl⟩ := (List.eq_nil_or_concat' dir).resolve_left hnonempty
      obtain ⟨hfront, ht⟩ : ['.', '.'] ∉ front ∧ t ≠ ['.', '.'] := by
        simpa [eq_comm] using hdir
      rw [List.dropLast_concat] at h
      obtain ⟨hleaves, hreached⟩ := ih hrows hfront h
      refine ⟨.head ?_ hleaves, hreached⟩
      rw [hup, List.append_assoc]
      exact .mk front rows ht
    · rw [List.append_cons]
      refine ih hrows ?_ h
      simpa [hdir] using Ne.symm hup

/-- A walk that starts from a directory gets on as long as there is a segment to leave for each way
up. -/
theorem exists_walk_iff (hm : IsMoving rows) :
    (∃ reached, walk false dir rows = .ok reached) ↔ BalancedFrom dir.length rows := by
  induction rows generalizing dir with
  | nil => simp [walk, balancedFrom_nil]
  | cons s rows ih =>
    obtain ⟨⟨hne, hpoint⟩, hrows⟩ := List.forall_mem_cons.1 hm
    rw [walk, if_neg (not_or.2 ⟨hne, hpoint⟩)]
    split_ifs with hup hempty
    · obtain rfl : dir = [] := by simpa using hempty
      simp [hup, balancedFrom_up]
    · have hpos : 0 < dir.length := List.length_pos_iff.2 (by simpa using hempty)
      rw [ih hrows, List.length_dropLast, hup, balancedFrom_up, and_iff_right hpos]
    · rw [ih hrows, List.length_append, List.length_singleton, balancedFrom_down hup]

theorem walk_eq_ok_iff (hm : IsMoving rows) : walk false [] rows = .ok left ↔ Leaves rows left :=
  ⟨fun h => leaves_of_walk hm List.not_mem_nil h, fun h => h.walk_eq hm⟩

theorem walk_eq_error_iff (hm : IsMoving rows) :
    walk false [] rows = .error .aboveRoot ↔ ¬Balanced rows := by
  have hgoes : (∃ reached, walk false [] rows = .ok reached) ↔ BalancedFrom 0 rows :=
    exists_walk_iff hm
  rw [balanced_iff, ← hgoes]
  cases hw : walk false [] rows with
  | ok reached => simp
  | error cause => simp [cause_of_walk hw]

/-- Of a balanced path there is one thing left. -/
theorem existsUnique_leaves (hm : IsMoving rows) (h : Balanced rows) :
    ∃! left, Leaves rows left := by
  cases hw : walk false [] rows with
  | ok left =>
    refine ⟨left, (walk_eq_ok_iff hm).1 hw, fun left' h' => ?_⟩
    rw [h'.walk_eq hm, Except.ok.injEq] at hw
    exact hw
  | error cause =>
    obtain rfl := cause_of_walk hw
    exact absurd h ((walk_eq_error_iff hm).1 hw)

end Walks

/-! ## Paths from a directory -/

/-- The directory that some segments lead down to, from the root or from nowhere. -/
def directory (rooted : Bool) (rows : List (List Char)) : List (List Char) :=
  if rooted then [] :: rows else rows

section Directories

variable {rooted : Bool} {dir rows : List (List Char)} {path name : List Char}

theorem isMoving_append_moves (hdir : ∀ s ∈ dir, s ≠ [] ∧ IsStill s) (rows : List (List Char)) :
    IsMoving (dir ++ moves rows) :=
  List.forall_mem_append.2 ⟨fun s hs => ⟨(hdir s hs).1, (hdir s hs).2.1⟩, isMoving_moves rows⟩

theorem walk_directory (hdir : ∀ s ∈ dir, s ≠ [] ∧ IsStill s) (rows : List (List Char)) :
    walk ((directory rooted dir).head? = some []) (directory rooted dir) rows =
      (walk false [] (dir ++ moves rows)).map (directory rooted) := by
  have hstart : walk false [] (dir ++ moves rows) = walk false dir rows := by
    rw [walk_append, walk_still hdir, List.nil_append, ← walk_moves false dir rows]
    rfl
  rw [hstart]
  cases rooted with
  | false =>
    have hhead : dir.head? ≠ some [] := fun h => (hdir [] (List.mem_of_mem_head? h)).1 rfl
    have hwalk : walk ((directory false dir).head? = some []) (directory false dir) rows =
        walk false dir rows := by simp [directory, hhead]
    rw [hwalk]
    cases walk false dir rows <;> rfl
  | true =>
    simp only [directory, if_true, List.head?_cons, decide_true]
    exact walk_root dir rows

theorem joined_directory (hne : rows ≠ []) (hrows : ∀ s ∈ rows, s ≠ []) :
    joined '/' (directory rooted rows) = (if rooted then ['/'] else []) ++ joined '/' rows ∧
      joined '/' rows ≠ [] := by
  constructor
  · cases rooted with
    | false => rfl
    | true => exact joined_cons '/' [] hne
  · obtain ⟨s, rest, rfl⟩ := List.exists_cons_of_ne_nil hne
    have hs := hrows s List.mem_cons_self
    cases rest <;> simp [joined, hs]

/-- A name is what is left of a path, if anything is. -/
theorem follow_directory_eq_ok_iff (hdir : ∀ s ∈ dir, s ≠ [] ∧ IsStill s) :
    follow (directory rooted dir) path = .ok name ↔
      ∃ left, Leaves (dir ++ moves (segments '/' path)) left ∧ left ≠ [] ∧
        name = (if rooted then ['/'] else []) ++ joined '/' left := by
  have hm := isMoving_append_moves hdir (segments '/' path)
  rw [follow_eq_ok_iff, walk_directory hdir]
  simp only [map_eq_ok_iff, walk_eq_ok_iff hm]
  constructor
  · rintro ⟨_, ⟨left, hleaves, rfl⟩, rfl, hname⟩
    have hne : left ≠ [] := by
      rintro rfl
      cases rooted <;> exact hname rfl
    exact ⟨left, hleaves, hne, (joined_directory hne fun s hs => (hleaves.isMoving hm s hs).1).1⟩
  · rintro ⟨left, hleaves, hne, rfl⟩
    obtain ⟨heq, hjoined⟩ : joined '/' (directory rooted left) = _ ∧ _ :=
      joined_directory hne fun s hs => (hleaves.isMoving hm s hs).1
    exact ⟨_, ⟨left, hleaves, rfl⟩, heq, List.append_ne_nil_of_right_ne_nil _ hjoined⟩

/-- A path is refused as leading above the root exactly if it is not balanced. -/
theorem follow_directory_eq_error_iff (hdir : ∀ s ∈ dir, s ≠ [] ∧ IsStill s) :
    follow (directory rooted dir) path = .error .aboveRoot ↔
      ¬Balanced (dir ++ moves (segments '/' path)) := by
  rw [← walk_eq_error_iff (isMoving_append_moves hdir _), follow, walk_directory hdir]
  cases walk false [] (dir ++ moves (segments '/' path)) with
  | error cause => simp only [Except.map, bind, Except.bind, Except.error.injEq]
  | ok left =>
    simp only [Except.map, bind, Except.bind, reduceCtorEq, iff_false]
    intro h
    split at h <;> cases h

end Directories

/-! ## Starts -/

/-- A text whose segments are no points, and not empty between the first and the last. -/
structure IsPlain (cs : List Char) : Prop where
  still : ∀ s ∈ segments '/' cs, IsStill s
  filled : ∀ s ∈ (segments '/' cs).tail.dropLast, s ≠ []

/-- The segments that a specifier starts from: those of the directory of its referrer, or of the
base name if it has none. A bare one starts from nowhere. -/
def start (baseName cs : List Char) (referrer : Option (List Char)) : List (List Char) :=
  if kindOf cs = .bare then []
  else match referrer with
    | some r => (segments '/' r).dropLast
    | none => segments '/' baseName

/-- Whether a specifier starts from the root. A bare one does if it says so itself. -/
def startsAtRoot (baseName cs : List Char) (referrer : Option (List Char)) : Bool :=
  (if kindOf cs = .bare then cs else referrer.getD baseName).head? = some '/'

/-- Specifiers that are followed along segments. They are relative or bare and nothing is wrong with
their text, nor with the text that a relative one starts from. -/
structure IsFollowed (baseName cs : List Char) (referrer : Option (List Char)) : Prop where
  kind : kindOf cs = .relative ∨ kindOf cs = .bare
  legal : ∀ c ∈ cs, isIllegal c = false
  closed : 1 < cs.length → cs.getLast? ≠ some '/'
  plain : kindOf cs = .relative → IsPlain (referrer.getD baseName)

/-- The segments that a specifier leads along, those of its start and its own. -/
def trail (baseName cs : List Char) (referrer : Option (List Char)) : List (List Char) :=
  moves (start baseName cs referrer ++ segments '/' cs)

section Starts

variable {baseName cs name : List Char} {referrer : Option (List Char)}

/-- A plain text is no URL, which has an empty segment behind the scheme. -/
theorem IsPlain.isAbsoluteUrl_eq_false (h : IsPlain cs) : isAbsoluteUrl cs = false := by
  rw [Bool.eq_false_iff]
  intro hurl
  obtain ⟨scheme, rest, rfl, -⟩ := isAbsoluteUrl_iff.1 hurl
  refine h.filled [] ?_ rfl
  rw [List.append_cons, segments_append_cons, segments, if_pos rfl,
    List.tail_append_of_ne_nil (segments_ne_nil _ _),
    List.dropLast_append_of_ne_nil (List.cons_ne_nil _ _),
    List.dropLast_cons_of_ne_nil (segments_ne_nil _ _)]
  exact List.mem_append_right _ List.mem_cons_self

/-- The directory of a plain text is one. -/
theorem IsPlain.dropLast_eq (h : IsPlain cs) : (segments '/' cs).dropLast =
    directory (cs.head? = some '/') (moves (segments '/' cs).dropLast) := by
  cases cs with
  | nil => rfl
  | cons c cs =>
    obtain ⟨s, rest, hs⟩ := List.exists_cons_of_ne_nil (segments_ne_nil '/' cs)
    obtain ⟨hstill, hfilled⟩ := h
    by_cases hc : c = '/'
    · rw [segments, if_pos hc] at hstill hfilled ⊢
      have hrest : IsMoving (segments '/' cs).dropLast := fun t ht => ⟨hfilled t ht,
        (hstill t (List.mem_cons_of_mem _ (List.dropLast_subset _ ht))).1⟩
      rw [List.dropLast_cons_of_ne_nil (segments_ne_nil _ _), directory,
        if_pos (by simpa using hc), moves, List.filter_cons_of_neg (by simp), ← moves,
        moves_eq_self hrest]
    · rw [segments, if_neg hc, hs] at hstill hfilled ⊢
      rw [directory, if_neg (by simpa using hc), moves_eq_self]
      intro t ht
      refine ⟨?_, (hstill t (List.dropLast_subset _ ht)).1⟩
      cases rest with
      | nil => cases ht
      | cons u rest =>
        rcases List.mem_cons.1 ht with rfl | ht
        · exact List.cons_ne_nil _ _
        · exact hfilled t ht

/-- So is the one that a plain base name denotes. -/
theorem IsPlain.baseDirectory_eq (h : IsPlain cs) :
    baseDirectory cs = directory (cs.head? = some '/') (moves (segments '/' cs)) := by
  have hmoves : (segments '/' cs).filter (· ≠ []) = moves (segments '/' cs) :=
    List.filter_congr fun s hs => by simp [(h.still s hs).1]
  simp only [baseDirectory, hmoves, directory, decide_eq_true_eq]

theorem moves_segments_dropWhile (cs : List Char) :
    moves (segments '/' (cs.dropWhile (· = '/'))) = moves (segments '/' cs) := by
  induction cs with
  | nil => rfl
  | cons c cs ih =>
    by_cases hc : c = '/'
    · rw [List.dropWhile_cons_of_pos (by simpa using hc), ih, segments, if_pos hc]
      rfl
    · rw [List.dropWhile_cons_of_neg (by simpa using hc)]

theorem still_start (h : IsFollowed baseName cs referrer) :
    ∀ s ∈ moves (start baseName cs referrer), s ≠ [] ∧ IsStill s := by
  intro s hs
  refine ⟨(isMoving_moves _ s hs).1, ?_⟩
  have hmem := (List.mem_filter.1 hs).1
  unfold start at hmem
  rcases h.kind with hkind | hkind
  · rw [if_neg (by simp [hkind])] at hmem
    cases referrer with
    | none => exact (h.plain hkind).still s hmem
    | some r => exact (h.plain hkind).still s (List.dropLast_subset _ hmem)
  · rw [if_pos hkind] at hmem
    cases hmem

/-- A specifier is followed from where it starts. -/
theorem exists_resolve_eq (h : IsFollowed baseName cs referrer) (hne : cs ≠ []) :
    ∃ path, moves (segments '/' path) = moves (segments '/' cs) ∧
      resolve baseName cs referrer = follow (directory (startsAtRoot baseName cs referrer)
        (moves (start baseName cs referrer))) path := by
  have hcheck : check cs = .ok () :=
    check_eq_ok_iff.2 ⟨hne, h.legal, fun hlast => h.closed hlast.1 hlast.2⟩
  unfold start startsAtRoot
  rcases h.kind with hkind | hkind
  · refine ⟨cs, rfl, ?_⟩
    have hrelative : resolve baseName cs referrer = resolveRelative baseName cs referrer := by
      simp only [resolve, hcheck, hkind, bind, Except.bind]
    rw [hrelative, if_neg (by simp [hkind]), if_neg (by simp [hkind])]
    have hplain := h.plain hkind
    cases referrer with
    | none =>
      rw [Option.getD_none] at hplain ⊢
      rw [← hplain.baseDirectory_eq]
      exact if_neg (by simp [hplain.isAbsoluteUrl_eq_false])
    | some r =>
      rw [Option.getD_some] at hplain ⊢
      dsimp only
      rw [← hplain.dropLast_eq]
      exact if_neg (by simp [hplain.isAbsoluteUrl_eq_false])
  · refine ⟨cs.dropWhile (· = '/'), moves_segments_dropWhile cs, ?_⟩
    have hbare : resolve baseName cs referrer =
        follow (if cs.head? = some '/' then [[]] else []) (cs.dropWhile (· = '/')) := by
      simp only [resolve, hcheck, hkind, bind, Except.bind]
    rw [hbare, if_pos hkind, if_pos hkind]
    simp only [directory, decide_eq_true_eq]
    rfl

/-- A specifier without a text leads along nothing. -/
theorem trail_nil : trail baseName [] referrer = [] := rfl

theorem isMoving_trail : IsMoving (trail baseName cs referrer) := isMoving_moves _

theorem resolve_eq_ok_iff (h : IsFollowed baseName cs referrer) :
    resolve baseName cs referrer = .ok name ↔
      ∃ left, Leaves (trail baseName cs referrer) left ∧ left ≠ [] ∧
        name = (if startsAtRoot baseName cs referrer then ['/'] else []) ++ joined '/' left := by
  by_cases hne : cs = []
  · subst hne
    constructor
    · exact fun hok => nomatch hok
    · rintro ⟨left, hleaves, hleft, -⟩
      cases hleaves.walk_eq isMoving_trail
      exact absurd rfl hleft
  · obtain ⟨path, hpath, hresolve⟩ := exists_resolve_eq h hne
    rw [hresolve, follow_directory_eq_ok_iff (still_start h), hpath, trail, moves_append]

theorem resolve_eq_error_iff (h : IsFollowed baseName cs referrer) :
    resolve baseName cs referrer = .error .aboveRoot ↔ ¬Balanced (trail baseName cs referrer) := by
  by_cases hne : cs = []
  · subst hne
    rw [← walk_eq_error_iff isMoving_trail, trail_nil]
    exact ⟨fun herr => (nomatch herr), fun herr => (nomatch herr)⟩
  · obtain ⟨path, hpath, hresolve⟩ := exists_resolve_eq h hne
    rw [hresolve, follow_directory_eq_error_iff (still_start h), hpath, trail, moves_append]

/-- A way up is cancelled by the last segment of the directory. -/
theorem follow_up {d x : List Char} (hd : d ≠ []) (hx : '/' ∉ x) (path : List Char) :
    follow (segments '/' (d ++ '/' :: x)).dropLast (['.', '.'] ++ '/' :: path) =
      follow (segments '/' d).dropLast (['.'] ++ '/' :: path) := by
  have hroot : segments '/' d ≠ [[]] := fun h => hd (by
    rw [← joined_segments '/' d, h]
    rfl)
  rw [segments_append_cons, segments_of_not_mem hx, List.dropLast_concat, follow, follow,
    segments_append (by decide), segments_append (by decide), walk, walk]
  obtain ⟨s, rest, hrows⟩ := List.exists_cons_of_ne_nil (segments_ne_nil '/' d)
  rw [hrows] at hroot ⊢
  cases rest with
  | nil => simp_all
  | cons t rest => simp

/-- So a specifier with a way up means the same as one without, one segment before. -/
theorem resolve_up (base : List Char) {d x : List Char} (hd : d ≠ []) (hx : '/' ∉ x)
    (hurl : isAbsoluteUrl (d ++ '/' :: x) = false) (path : List Char) :
    resolve base (['.', '.'] ++ '/' :: path) (some (d ++ '/' :: x)) =
      resolve base (['.'] ++ '/' :: path) (some d) := by
  have hcheck : check (['.', '.'] ++ '/' :: path) = check (['.'] ++ '/' :: path) := by
    have hpoint : isIllegal '.' = false := by decide
    simp [check, hpoint]
  have hdir : isAbsoluteUrl d = false := by
    rw [Bool.eq_false_iff]
    intro h
    obtain ⟨scheme, rest, rfl, hscheme⟩ := isAbsoluteUrl_iff.1 h
    rw [isAbsoluteUrl_iff.2 ⟨scheme, rest ++ '/' :: x, by simp, hscheme⟩] at hurl
    cases hurl
  rw [resolve, resolve, hcheck]
  refine congrArg (check _ >>= ·) (funext fun _ => ?_)
  have hup : kindOf (['.', '.'] ++ '/' :: path) = .relative :=
    if_pos (by simp [startsWith, dropStart?])
  have hhere : kindOf (['.'] ++ '/' :: path) = .relative :=
    if_pos (by simp [startsWith, dropStart?])
  simp only [hup, hhere, resolveRelative, hurl, hdir, Bool.false_eq_true, if_false]
  exact follow_up hd hx path

end Starts

/-! ## Names at the ends of trails -/

section Trails

variable {baseName specifier : String} {referrer : Option String}

/-- A way up from within a directory means what stands beside the directory. -/
theorem normalize_up {d x : String} (hd : d ≠ "") (hx : '/' ∉ x.toList)
    (hurl : isAbsoluteUrl (d ++ "/" ++ x).toList = false) (p : String) :
    (∀ name, normalize baseName .empty ("../" ++ p) (some (d ++ "/" ++ x)) = .ok name ↔
      normalize baseName .empty ("./" ++ p) (some d) = .ok name) ∧
    ∀ cause, normalize baseName .empty ("../" ++ p) (some (d ++ "/" ++ x)) =
        .error (.resolution ("../" ++ p) cause) ↔
      normalize baseName .empty ("./" ++ p) (some d) = .error (.resolution ("./" ++ p) cause) := by
  have hwithin : (d ++ "/" ++ x).toList = d.toList ++ '/' :: x.toList := by simp
  have hspecifier : resolve baseName.toList ("../" ++ p).toList (some (d ++ "/" ++ x).toList) =
      resolve baseName.toList ("./" ++ p).toList (some d.toList) := by
    rw [hwithin] at hurl ⊢
    rw [String.toList_append, String.toList_append]
    exact resolve_up _ (by simpa using hd) hx hurl _
  simp only [normalize_empty_eq_ok_iff, normalize_empty_eq_error_iff, Option.map_some, hspecifier,
    implies_true, and_self]

/-- A specifier has a name if its trail is balanced and something is left of it. The name is what is
left, from the root if the trail starts there. -/
theorem normalize_eq_ok_iff_balanced
    (h : IsFollowed baseName.toList specifier.toList (referrer.map String.toList)) :
    let path := trail baseName.toList specifier.toList (referrer.map String.toList)
    (∀ name, normalize baseName .empty specifier referrer = .ok name ↔
      Balanced path ∧ ∃ left, Leaves path left ∧ left ≠ [] ∧ name.toList =
        (if startsAtRoot baseName.toList specifier.toList (referrer.map String.toList) then ['/']
          else []) ++ joined '/' left) ∧
    (normalize baseName .empty specifier referrer = .error (.resolution specifier .aboveRoot) ↔
      ¬Balanced path) ∧
    (Balanced path → ∃! left, Leaves path left) ∧
    ∀ d x p : String, d ≠ "" → '/' ∉ x.toList → isAbsoluteUrl (d ++ "/" ++ x).toList = false →
      (∀ name, normalize baseName .empty ("../" ++ p) (some (d ++ "/" ++ x)) = .ok name ↔
        normalize baseName .empty ("./" ++ p) (some d) = .ok name) ∧
      ∀ cause, normalize baseName .empty ("../" ++ p) (some (d ++ "/" ++ x)) =
          .error (.resolution ("../" ++ p) cause) ↔
        normalize baseName .empty ("./" ++ p) (some d) =
          .error (.resolution ("./" ++ p) cause) := by
  intro path
  have hm : IsMoving path := isMoving_trail
  refine ⟨fun name => ?_, ?_, existsUnique_leaves hm, fun d x p hd hx hurl =>
    normalize_up hd hx hurl p⟩
  · rw [normalize_empty_eq_ok_iff, resolve_eq_ok_iff h]
    constructor
    · rintro ⟨left, hleaves, hend⟩
      refine ⟨by_contra fun hnot => ?_, left, hleaves, hend⟩
      have hwalk := hleaves.walk_eq hm
      rw [(walk_eq_error_iff hm).2 hnot] at hwalk
      cases hwalk
    · exact And.right
  · rw [normalize_empty_eq_error_iff, resolve_eq_error_iff h]

/-- One specifier leads to a name, another above the root, and a third beside its package. -/
theorem normalize_eq_ok_iff_balanced_rooted :
    (normalize "" .empty "../a/./b/../c" (some "/d/e/f") = .ok "/d/a/c" ∧
      Balanced (trail "".toList "../a/./b/../c".toList (some "/d/e/f".toList))) ∧
    ¬Balanced (trail "/d".toList "../../x".toList none) ∧
    normalize "" .empty ("../" ++ "sibling") (some ("pkg@0.0.1" ++ "/" ++ "bin")) =
      .ok "sibling" := by
  have hwithin : IsFollowed "".toList "../a/./b/../c".toList (some "/d/e/f".toList) :=
    ⟨.inl (by decide), forall_mem_of_all (by decide), by decide, fun _ => ⟨by decide, by decide⟩⟩
  have habove : IsFollowed "/d".toList "../../x".toList none :=
    ⟨.inl (by decide), forall_mem_of_all (by decide), by decide, fun _ => ⟨by decide, by decide⟩⟩
  have hname : normalize "" .empty "../a/./b/../c" (some "/d/e/f") = .ok "/d/a/c" :=
    normalize_empty_eq_ok_iff.2 rfl
  obtain ⟨hok, -, -, hup⟩ :=
    @normalize_eq_ok_iff_balanced "" "../a/./b/../c" (some "/d/e/f") hwithin
  refine ⟨⟨hname, ((hok _).1 hname).1⟩, ?_, ?_⟩
  · exact (@normalize_eq_ok_iff_balanced "/d" "../../x" none habove).2.1.1
      (normalize_empty_eq_error_iff.2 rfl)
  · exact ((hup "pkg@0.0.1" "bin" "sibling" (by decide) (by decide) (by decide)).1 _).2
      (normalize_empty_eq_ok_iff.2 rfl)

end Trails

end ModuleLoader.Specifier
