import ModuleLoader.Address
import ModuleLoader.Proofs.Specifiers.BalancedPaths

/-! # Addresses below directories

An address is read as a path of steps, from the root or from where one stands. Below a directory that
is no URL the address of a name goes along the directory and then along the name. It starts where the
directory starts, except that a directory of a point and two slashes, which starts from where one
stands, becomes the root.
-/

namespace ModuleLoader

theorem Text.endsWith_iff {ending cs : List Char} :
    Text.endsWith ending cs = true ↔ ending <:+ cs := by
  rw [endsWith, startsWith, Option.isSome_iff_exists, ← List.reverse_prefix]
  exact exists_congr fun rest => dropStart?_eq_some_iff.trans eq_comm

namespace Address

open Text Specifier

/-! ## What is in an address -/

section Parts

theorem prefix_withExtension (extension name : List Char) :
    name <+: withExtension extension name := by
  rw [withExtension]
  split
  · exact List.prefix_rfl
  · exact List.prefix_append _ _

theorem suffix_withExtension (extension name : List Char) :
    extension <:+ withExtension extension name := by
  rw [withExtension]
  split
  · rename_i h
    exact endsWith_iff.1 h
  · exact List.suffix_append _ _

theorem suffix_belowDirectory (base path : List Char) : path <:+ belowDirectory base path := by
  simp only [belowDirectory]
  split
  · exact List.suffix_rfl
  · split
    · exact List.suffix_rfl
    · exact List.suffix_append _ _

/-- The address of a name holds the name, unless it is below a URL. -/
theorem infix_of_locate {extension base name address : String}
    (hb : isAbsoluteUrl base.toList = false) (h : locate extension base name = .ok address) :
    name.toList <:+: address.toList := by
  have hp := (prefix_withExtension extension.toList name.toList).isInfix
  simp only [locate, hb] at h
  split at h
  · cases h
    rwa [String.toList_ofList]
  · cases h
    rw [String.toList_ofList]
    exact hp.trans (suffix_belowDirectory _ _).isInfix

end Parts

/-! ## Routes -/

/-- What a text denotes as a path. -/
@[ext]
structure Route where
  rooted : Bool
  steps : List (List Char)
deriving DecidableEq

namespace Route

/-- The route along a text. Empty segments and single points are no steps. -/
def ofText (cs : List Char) : Route := ⟨cs.head? = some '/', moves (segments '/' cs)⟩

/-- A route that is taken behind another one. From the root it is the same anywhere. -/
def below (route base : Route) : Route :=
  if route.rooted then route else ⟨base.rooted, base.steps ++ route.steps⟩

theorem rooted_ofText_iff {cs : List Char} : (ofText cs).rooted = true ↔ cs.head? = some '/' :=
  decide_eq_true_iff

theorem rooted_ofText_append {a : List Char} (ha : a ≠ []) (b : List Char) :
    (ofText (a ++ b)).rooted = (ofText a).rooted := by
  obtain ⟨c, a, rfl⟩ := List.exists_cons_of_ne_nil ha
  rfl

/-- Behind a slash the steps go on. -/
theorem steps_ofText_append (a b : List Char) :
    (ofText (a ++ '/' :: b)).steps = (ofText a).steps ++ (ofText b).steps := by
  simp only [ofText, segments_append_cons, moves_append]

/-- A slash at the end does not lead anywhere. -/
theorem steps_ofText_concat (a : List Char) : (ofText (a ++ ['/'])).steps = (ofText a).steps :=
  (steps_ofText_append a []).trans (List.append_nil _)

/-- A point in front does not lead anywhere. -/
theorem steps_ofText_point (a : List Char) :
    (ofText ('.' :: '/' :: a)).steps = (ofText a).steps := steps_ofText_append ['.'] a

end Route

/-! ## Routes along addresses -/

section Directories

variable {base path : List Char}

open Route

/-- Whether a directory is written with a point and two slashes in front. -/
def PointsAtRoot (base : List Char) : Prop := ['.', '/', '/'] <+: base

instance (base : List Char) : Decidable (PointsAtRoot base) :=
  inferInstanceAs (Decidable (_ <+: _))

/-- A directory without the point in front that stands for the place where one is. -/
def unpointed (base : List Char) : List Char := (dropStart? ['.', '/'] base).getD base

theorem eq_or_unpointed_eq (base : List Char) : base = '.' :: '/' :: unpointed base ∨
    ¬['.', '/'] <+: base ∧ unpointed base = base := by
  cases h : dropStart? ['.', '/'] base with
  | none =>
    refine .inr ⟨?_, by rw [unpointed, h]; rfl⟩
    rintro ⟨rest, hrest⟩
    rw [dropStart?_eq_some_iff.2 hrest.symm] at h
    cases h
  | some rest =>
    have hrest : unpointed base = rest := by rw [unpointed, h]; rfl
    rw [hrest]
    exact .inl (dropStart?_eq_some_iff.1 h)

theorem unpointed_suffix (base : List Char) : unpointed base <:+ base := by
  rcases eq_or_unpointed_eq base with h | ⟨-, h⟩
  · exact ⟨['.', '/'], h.symm⟩
  · exact ⟨[], h⟩

theorem steps_unpointed (base : List Char) :
    (ofText (unpointed base)).steps = (ofText base).steps := by
  rcases eq_or_unpointed_eq base with h | ⟨-, h⟩
  · conv_rhs => rw [h]
    exact (steps_ofText_point _).symm
  · rw [h]

theorem rooted_unpointed_iff (base : List Char) : (ofText (unpointed base)).rooted = true ↔
    (ofText base).rooted = true ∨ PointsAtRoot base := by
  rcases eq_or_unpointed_eq base with h | ⟨hn, h⟩
  · have hpoint : ¬(ofText base).rooted = true := by
      rw [h, rooted_ofText_iff]
      simp
    rw [or_iff_right hpoint, PointsAtRoot, rooted_ofText_iff]
    conv_rhs => rw [h]
    cases unpointed base <;> simp [eq_comm]
  · have hpoint : ¬PointsAtRoot base := fun hp => hn (List.IsPrefix.trans ⟨['/'], rfl⟩ hp)
    rw [h, or_iff_left hpoint]

theorem belowDirectory_of_rooted (hp : (ofText path).rooted = true) (base : List Char) :
    belowDirectory base path = path := if_pos (.inl (rooted_ofText_iff.1 hp))

theorem belowDirectory_of_unpointed (hb : unpointed base = []) : belowDirectory base path = path := by
  rw [belowDirectory]
  split
  · rfl
  · exact if_pos hb

/-- The address of a path below a directory has the directory in front, with a slash between them. -/
theorem belowDirectory_eq (hb : unpointed base ≠ []) (hp : (ofText path).rooted = false) :
    ∃ front, belowDirectory base path = front ++ '/' :: path ∧
      (front = unpointed base ∨ front ++ ['/'] = unpointed base) := by
  have hbase : base ≠ [] := fun h => hb (by rw [h]; rfl)
  have hpath : ¬(path.head? = some '/' ∨ base = []) :=
    not_or.2 ⟨fun h => by simp [rooted_ofText_iff.2 h] at hp, hbase⟩
  have hbelow : belowDirectory base path =
      unpointed base ++ (if base.getLast? = some '/' then [] else ['/']) ++ path := by
    rw [belowDirectory, if_neg hpath]
    exact if_neg hb
  rw [hbelow]
  split
  · rename_i hslash
    obtain ⟨front, last, hd⟩ := (List.eq_nil_or_concat' (unpointed base)).resolve_left hb
    obtain ⟨more, hmore⟩ := unpointed_suffix base
    rw [← hmore, hd, ← List.append_assoc, List.getLast?_concat, Option.some.injEq] at hslash
    rw [hd, hslash]
    exact ⟨front, by simp, .inr rfl⟩
  · exact ⟨unpointed base, by simp, .inl rfl⟩

theorem steps_belowDirectory (base : List Char) (hp : (ofText path).rooted = false) :
    (ofText (belowDirectory base path)).steps = (ofText base).steps ++ (ofText path).steps := by
  rw [← steps_unpointed base]
  by_cases hb : unpointed base = []
  · rw [belowDirectory_of_unpointed hb, hb]
    rfl
  · obtain ⟨front, hbelow, hfront⟩ := belowDirectory_eq hb hp
    rw [hbelow, steps_ofText_append]
    congr 1
    rcases hfront with rfl | hfront
    · rfl
    · rw [← hfront, steps_ofText_concat]

theorem rooted_belowDirectory_iff (base path : List Char) :
    (ofText (belowDirectory base path)).rooted = true ↔
      (ofText path).rooted = true ∨ (ofText base).rooted = true ∨ PointsAtRoot base := by
  cases hp : (ofText path).rooted with
  | true => simp [belowDirectory_of_rooted hp, hp]
  | false =>
    rw [or_iff_right Bool.false_ne_true, ← rooted_unpointed_iff base]
    by_cases hb : unpointed base = []
    · rw [belowDirectory_of_unpointed hb, hb, hp]
      decide
    · obtain ⟨front, hbelow, hfront⟩ := belowDirectory_eq hb hp
      rcases hfront with rfl | hfront
      · rw [hbelow, rooted_ofText_append hb]
      · rw [hbelow, ← hfront, List.append_cons, rooted_ofText_append (by simp)]

theorem PointsAtRoot.not_rooted (h : PointsAtRoot base) : ¬(ofText base).rooted = true := by
  obtain ⟨rest, rfl⟩ := h
  exact Bool.false_ne_true

/-- An address goes along the directory and then along the path exactly if the path starts from the
root or the directory has no point in front of two slashes. -/
theorem ofText_belowDirectory_iff (base path : List Char) :
    ofText (belowDirectory base path) = (ofText path).below (ofText base) ↔
      (ofText path).rooted = true ∨ ¬PointsAtRoot base := by
  cases hp : (ofText path).rooted with
  | true => simp [belowDirectory_of_rooted hp, Route.below, hp]
  | false =>
    have hrooted := rooted_belowDirectory_iff base path
    rw [hp, or_iff_right Bool.false_ne_true] at hrooted
    have hbelow : (ofText path).below (ofText base) =
        ⟨(ofText base).rooted, (ofText base).steps ++ (ofText path).steps⟩ :=
      if_neg (by rw [hp]; exact Bool.false_ne_true)
    rw [hbelow, Route.ext_iff, and_iff_left (steps_belowDirectory base hp), Bool.eq_iff_iff,
      hrooted, or_iff_left_iff_imp, or_iff_right Bool.false_ne_true]
    exact ⟨fun h hpoints => hpoints.not_rooted (h hpoints), fun h hpoints => absurd hpoints h⟩

end Directories

/-! ## Addresses of names -/

/-- The address of a name below a directory is always found, and has the name with its extension at
its end. It goes along the directory and then along the name, or along the name alone if that starts
from the root, exactly if there is no point in front of two slashes in the directory or the name
starts from the root. Otherwise it starts from the root, although neither of them does. -/
theorem locate_goes_along_iff {extension base name : String}
    (hb : isAbsoluteUrl base.toList = false)
    (hn : isAbsoluteUrl (withExtension extension.toList name.toList) = false) :
    ∃ address, locate extension base name = .ok address ∧
      extension.toList <:+ withExtension extension.toList name.toList ∧
      withExtension extension.toList name.toList <:+ address.toList ∧
      (Route.ofText address.toList =
          (Route.ofText (withExtension extension.toList name.toList)).below
            (Route.ofText base.toList) ↔
        (Route.ofText (withExtension extension.toList name.toList)).rooted = true ∨
          ¬PointsAtRoot base.toList) ∧
      ((Route.ofText address.toList).rooted = true ↔
        (Route.ofText (withExtension extension.toList name.toList)).rooted = true ∨
          (Route.ofText base.toList).rooted = true ∨ PointsAtRoot base.toList) := by
  refine ⟨_, by rw [locate, if_neg (by simp [hn]), if_neg (by simp [hb])], ?_⟩
  rw [String.toList_ofList]
  exact ⟨suffix_withExtension _ _, suffix_belowDirectory _ _, ofText_belowDirectory_iff _ _,
    rooted_belowDirectory_iff _ _⟩

/-- A directory full of points and slashes. -/
theorem locate_goes_along_iff_pointed :
    locate ".js" "././/a/." "./b//c" = .ok ".//a/././b//c.js" ∧
    Route.ofText ".//a/././b//c.js".toList = ⟨false, ["a".toList, "b".toList, "c.js".toList]⟩ ∧
    Route.ofText ".//a/././b//c.js".toList =
      (Route.ofText "./b//c.js".toList).below (Route.ofText "././/a/.".toList) := by
  obtain ⟨address, haddress, -, -, halong, -⟩ :=
    @locate_goes_along_iff ".js" "././/a/." "./b//c" (by decide) (by decide)
  obtain rfl : ".//a/././b//c.js" = address := by
    cases haddress
    rfl
  exact ⟨haddress, by decide, halong.2 (.inr (by decide))⟩

/-- The address of a name that does not start from the root, below a directory that does not start
there either, starts from the root. -/
theorem pointed_directory_leads_to_root :
    isAbsoluteUrl ".//lib".toList = false ∧
    isAbsoluteUrl (withExtension ".js".toList "x".toList) = false ∧
    locate ".js" ".//lib" "x" = .ok "/lib/x.js" ∧
    Route.ofText "/lib/x.js".toList = ⟨true, ["lib".toList, "x.js".toList]⟩ ∧
    (Route.ofText (withExtension ".js".toList "x".toList)).below (Route.ofText ".//lib".toList) =
      ⟨false, ["lib".toList, "x.js".toList]⟩ := by
  refine ⟨?_, ?_, ?_, ?_, ?_⟩
  · decide
  · decide
  · rfl
  · decide
  · decide

end Address

end ModuleLoader
