import ModuleLoader.Proofs.PackageMap.VersionedNames
import ModuleLoader.Proofs.Text.Segments

/-! # Composed names

A versioned name is read as some parts exactly if it is these parts put together. The parts come
apart at the right places because neither the last segment of a package nor a version text holds a
character that a name is cut at.
-/

namespace ModuleLoader

/-! ## Characters of version texts -/

namespace Version

/-- The characters of version texts. -/
def isTextual (c : Char) : Bool := isIdentifier c || c = '.' || c = '+'

/-- Whether a text has no other characters than version texts. -/
def IsTextual (cs : List Char) : Prop := ∀ c ∈ cs, isTextual c = true

section Parts

variable {part : VersionPart} {cs rest text : List Char} {n : ℕ}

theorem isTextual_of_number (h : number part cs = .ok (n, rest)) (hrest : IsTextual rest) :
    IsTextual cs := by
  rw [number_eq_ok h]
  refine List.forall_mem_append.2 ⟨fun c hc => ?_, hrest⟩
  have hdigit := Nat.isDigit_of_mem_toDigits (by decide) (by decide) hc
  simp [isTextual, isIdentifier, Char.isAlphanum, hdigit]

theorem isTextual_of_point (h : point part cs = .ok rest) (hrest : IsTextual rest) :
    IsTextual cs := by
  rw [point_eq_ok h]
  exact List.forall_mem_cons.2 ⟨rfl, hrest⟩

theorem isTextual_of_identifier (h : identifier part cs = .ok (text, rest))
    (hrest : IsTextual rest) : IsTextual cs := by
  obtain ⟨_, -, h⟩ := bind_eq_ok_iff.1 h
  cases h
  rw [← List.take_append_drop (cs.takeWhile fun c => isIdentifier c || c = '.').length cs]
  refine List.forall_mem_append.2 ⟨fun c hc => ?_, hrest⟩
  rw [← List.prefix_iff_eq_take.1 (List.takeWhile_prefix _)] at hc
  have hsegment := List.mem_takeWhile_imp hc
  simp only [isTextual, hsegment, Bool.true_or]

theorem isTextual_of_marked {mark : Char} (hmark : isTextual mark = true)
    (h : marked mark part cs = .ok (text, rest)) (hrest : IsTextual rest) : IsTextual cs := by
  rw [marked] at h
  split at h
  · rename_i hhead
    obtain ⟨tail, rfl⟩ := List.head?_eq_some_iff.1 hhead
    exact List.forall_mem_cons.2 ⟨hmark, isTextual_of_identifier h hrest⟩
  · cases h
    exact hrest

end Parts

theorem isTextual_of_read {cs : List Char} {v : Version} (h : read cs = .ok v) : IsTextual cs := by
  rw [read] at h
  split at h
  · cases h
  · simp only [bind_eq_ok_iff, Prod.exists] at h
    obtain ⟨major, cs₁, hmajor, cs₂, hpoint, minor, cs₃, hminor, cs₄, hpoint', patch, cs₅, hpatch,
      pre, cs₆, hpre, build, cs₇, hbuild, h⟩ := h
    cases cs₇ with
    | nil =>
      have hlast : IsTextual [] := List.forall_mem_nil _
      exact isTextual_of_number hmajor (isTextual_of_point hpoint (isTextual_of_number hminor
        (isTextual_of_point hpoint' (isTextual_of_number hpatch (isTextual_of_marked rfl hpre
          (isTextual_of_marked rfl hbuild hlast))))))
    | cons c cs => cases h

theorem IsTextual.notMem {cs : List Char} (h : IsTextual cs) {c : Char}
    (hc : isTextual c = false) : c ∉ cs := by
  intro hm
  rw [h c hm] at hc
  cases hc

end Version

/-! ## Parts of names -/

namespace VersionedName

/-- A package is a scope, which may be empty, and a segment. -/
theorem exists_cutScope?_eq {p : List Char} (h : IsPackage p) :
    ∃ scope segment, p = scope ++ segment ∧ IsSegment segment ∧
      ∀ behind, cutScope? (p ++ behind) = some (scope, segment ++ behind) := by
  cases h with
  | alone h =>
    refine ⟨[], p, rfl, h, fun behind => cutScope?_eq_some_iff.2 ⟨rfl, .inl ⟨rfl, fun hat => ?_⟩⟩⟩
    obtain ⟨rest, hrest⟩ := List.head?_eq_some_iff.1 hat
    exact h.append_ne behind rest hrest
  | @inScope scope segment hscope h =>
    exact ⟨'@' :: (scope ++ ['/']), segment, by simp, h, fun behind =>
      cutScope?_eq_some_iff.2 ⟨by simp, .inr ⟨scope, hscope, rfl⟩⟩⟩

theorem text_eq (n : VersionedName) :
    n.text = n.package ++ "@" ++ n.versionText ++ (n.subpath.map ("/" ++ ·)).getD "" := by
  rw [text, packageId]
  cases n.subpath <;> rfl

theorem toList_text (n : VersionedName) : n.text.toList = n.package.toList ++
    '@' :: (n.versionText.toList ++ ((n.subpath.map String.toList).map ('/' :: ·)).getD []) := by
  rw [text_eq]
  cases n.subpath <;> simp

/-- A name is the text of what it is read as. -/
theorem text_of_read {name : String} {n : VersionedName} (h : read name = .ok n) :
    n.text = name := by
  obtain ⟨scope, rest, segment, subpath, package, version, v, hscope, hsegment, hat, -, -, rfl⟩ :=
    read_eq_ok_iff.1 h
  obtain ⟨hname, -⟩ := cutScope?_eq_some_iff.1 hscope
  obtain ⟨-, rfl⟩ := Text.cutFirst_eq_iff.1 hsegment
  obtain ⟨-, rfl⟩ := Text.cutFirst_eq_iff.1 hat
  rw [← String.toList_inj, toList_text, hname]
  cases subpath <;> simp

/-- The text of a name is read as the name. -/
theorem read_text {n : VersionedName} (hp : IsPackage n.package.toList)
    (hv : Version.read n.versionText.toList = .ok n.version) : read n.text = .ok n := by
  obtain ⟨scope, segment, hpackage, hsegment, hscope⟩ := exists_cutScope?_eq hp
  have hslash : '/' ∉ segment ++ '@' :: n.versionText.toList := by
    have := (Version.isTextual_of_read hv).notMem (c := '/') (by decide)
    simp [hsegment.noSlash, this]
  refine read_eq_ok_iff.2 ⟨scope, _, segment ++ '@' :: n.versionText.toList,
    n.subpath.map String.toList, segment, n.versionText.toList, n.version, ?_,
    Text.cutFirst_eq_iff.2 ⟨hslash, rfl⟩, Text.cutFirst_eq_iff.2 ⟨hsegment.noAt, rfl⟩,
    hsegment.ne_nil, hv, ?_⟩
  · rw [toList_text, hscope]
    simp
  · obtain ⟨package, v, versionText, subpath⟩ := n
    simp only at hpackage ⊢
    rw [← hpackage, String.ofList_toList, String.ofList_toList]
    cases subpath <;> simp

/-- A name is read as a package, a version and a path exactly if it is the package, an `@`, the
version text and, if there is a path, a slash and the path: for every package of one segment or of a
scope and a segment, every text of a version and every path. -/
theorem read_eq_ok_iff_composed {name : String} {n : VersionedName} : read name = .ok n ↔
    IsPackage n.package.toList ∧ Version.read n.versionText.toList = .ok n.version ∧
      name = n.package ++ "@" ++ n.versionText ++ (n.subpath.map ("/" ++ ·)).getD "" := by
  rw [← text_eq]
  constructor
  · intro h
    have hsound := sound_of_read h
    exact ⟨hsound.package, hsound.version, (text_of_read h).symm⟩
  · rintro ⟨hp, hv, rfl⟩
    exact read_text hp hv

/-- Only the `@` behind the last segment of the package counts, wherever others stand. -/
example : read "@a@1/b@1.0.0-rc.1/c@2/" =
    .ok ⟨"@a@1/b", ⟨1, 0, 0, "rc.1", ""⟩, "1.0.0-rc.1", some "c@2/"⟩ := rfl

end VersionedName

end ModuleLoader
