import Mathlib.Tactic.IntervalCases
import ModuleLoader.Version
import ModuleLoader.Proofs.PackageMap.Rules
import ModuleLoader.Proofs.Results
import ModuleLoader.Proofs.Text.Segments

/-! # Versioned names

A version text begins with the major and the minor number in decimals. The package, the version and
the path of a name come apart in one way only: a package has one segment, or two if it has a scope,
and no `@` in the last.
-/

namespace ModuleLoader

/-! ## Version texts -/

theorem isDigit_iff {c : Char} : c.isDigit = true ↔ 48 ≤ c.toNat ∧ c.toNat ≤ 57 := by
  simp [Char.isDigit, UInt32.le_iff_toNat_le]

theorem toDigits_of_isDigit {c : Char} (h : c.isDigit = true) :
    Nat.toDigits 10 (c.toNat - 48) = [c] := by
  obtain ⟨hge, hle⟩ := isDigit_iff.1 h
  rw [Nat.toDigits_of_lt_base (by omega), ← Char.ofNat_toNat c]
  interval_cases c.toNat <;> rfl

namespace Version

theorem toDigits_numberFrom {part : VersionPart} {value n : ℕ} {cs : List Char}
    (hcs : ∀ c ∈ cs, c.isDigit = true) (h : numberFrom part value cs = .ok n) :
    Nat.toDigits 10 n = Nat.toDigits 10 value ++ cs := by
  induction cs generalizing value with
  | nil =>
    cases h
    exact (List.append_nil _).symm
  | cons c cs ih =>
    obtain ⟨hc, hcs⟩ := List.forall_mem_cons.1 hcs
    rw [numberFrom] at h
    split at h
    · cases h
    · dsimp only at h
      split at h
      · have hd : c.toNat - 48 < 10 := by
          have := (isDigit_iff.1 hc).2
          omega
        rw [ih hcs h, ← Nat.toDigits_append_toDigits (by decide) (by omega) hd,
          toDigits_of_isDigit hc, List.append_assoc, List.singleton_append]
      · cases h

/-- A number is read from its decimal digits. -/
theorem number_eq_ok {part : VersionPart} {cs rest : List Char} {n : ℕ}
    (h : number part cs = .ok (n, rest)) : cs = Nat.toDigits 10 n ++ rest := by
  cases cs with
  | nil => cases h
  | cons c cs =>
    rw [number] at h
    split at h
    · rename_i hc
      obtain ⟨n, hn, hr⟩ := map_eq_ok_iff.1 h
      cases hr
      rw [toDigits_numberFrom (fun _ => List.mem_takeWhile_imp) hn, toDigits_of_isDigit hc,
        List.append_assoc, List.takeWhile_append_dropWhile, List.singleton_append]
    · cases h

theorem point_eq_ok {part : VersionPart} {cs rest : List Char} (h : point part cs = .ok rest) :
    cs = '.' :: rest := by
  cases cs with
  | nil => cases h
  | cons c cs =>
    rw [point] at h
    split at h
    · rename_i hc
      cases h
      rw [hc]
    · cases h

/-- A version text begins with the major and the minor number in decimals, each with a point. -/
theorem exists_of_read {cs : List Char} {v : Version} (h : read cs = .ok v) :
    ∃ rest, cs = Nat.toDigits 10 v.major ++ '.' :: (Nat.toDigits 10 v.minor ++ '.' :: rest) := by
  rw [read] at h
  split at h
  · cases h
  · simp only [bind_eq_ok_iff, Prod.exists] at h
    obtain ⟨major, cs₁, hmajor, cs₂, hpoint, minor, cs₃, hminor, cs₄, hpoint', patch, cs₅, hpatch,
      pre, cs₆, hpre, build, cs₇, hbuild, h⟩ := h
    rw [number_eq_ok hmajor, point_eq_ok hpoint, number_eq_ok hminor, point_eq_ok hpoint']
    cases cs₇ with
    | nil =>
      cases h
      exact ⟨cs₄, rfl⟩
    | cons c cs => cases h

end Version

/-! ## Packages -/

/-- A segment of a package name. -/
structure IsSegment (cs : List Char) : Prop where
  ne_nil : cs ≠ []
  noAt : '@' ∉ cs
  noSlash : '/' ∉ cs

/-- A package name: a segment, alone or behind a scope. -/
inductive IsPackage : List Char → Prop where
  | alone {cs : List Char} : IsSegment cs → IsPackage cs
  | inScope {scope cs : List Char} : '/' ∉ scope → IsSegment cs →
      IsPackage ('@' :: (scope ++ '/' :: cs))

/-- A version behind a package with its `@`, or nothing. -/
structure IsVersionPart (cs : List Char) : Prop where
  behind : Behind '@' cs
  noSlash : '/' ∉ cs

section Packages

variable {p p' w w' s s' : List Char}

theorem IsSegment.unique (hp : IsSegment p) (hp' : IsSegment p') (hw : IsVersionPart w)
    (hw' : IsVersionPart w') (hs : Behind '/' s) (hs' : Behind '/' s')
    (h : p ++ (w ++ s) = p' ++ (w' ++ s')) : p = p' ∧ w = w' ∧ s = s' := by
  rw [← List.append_assoc, ← List.append_assoc] at h
  obtain ⟨hpw, hss⟩ := hs.unique hs' (List.not_mem_append hp.noSlash hw.noSlash)
    (List.not_mem_append hp'.noSlash hw'.noSlash) h
  obtain ⟨hpp, hww⟩ := hw.behind.unique hw'.behind hp.noAt hp'.noAt hpw
  exact ⟨hpp, hww, hss⟩

theorem IsSegment.append_ne (hp : IsSegment p) (s t : List Char) : p ++ s ≠ '@' :: t := by
  obtain ⟨c, cs, rfl⟩ := List.exists_cons_of_ne_nil hp.ne_nil
  rintro ⟨⟩
  exact hp.noAt List.mem_cons_self

/-- A name has one package, one version and one path. -/
theorem IsPackage.unique (hp : IsPackage p) (hp' : IsPackage p') (hw : IsVersionPart w)
    (hw' : IsVersionPart w') (hs : Behind '/' s) (hs' : Behind '/' s')
    (h : p ++ (w ++ s) = p' ++ (w' ++ s')) : p = p' ∧ w = w' ∧ s = s' := by
  cases hp with
  | alone hp =>
    cases hp' with
    | alone hp' => exact hp.unique hp' hw hw' hs hs' h
    | inScope => exact absurd h (hp.append_ne _ _)
  | inScope hscope hp =>
    cases hp' with
    | alone hp' => exact absurd h.symm (hp'.append_ne _ _)
    | inScope hscope' hp' =>
      rw [List.cons_append, List.cons_append, List.append_assoc, List.append_assoc,
        List.cons_append, List.cons_append, List.cons_inj_right] at h
      obtain ⟨rfl, ht⟩ := (behind_cons _ _).unique (behind_cons _ _) hscope hscope' h
      obtain ⟨rfl, hww, hss⟩ := hp.unique hp' hw hw' hs hs' ((List.cons_inj_right _).1 ht)
      exact ⟨rfl, hww, hss⟩

theorem IsPackage.ne_nil (hp : IsPackage p) : p ≠ [] := by
  cases hp with
  | alone hp => exact hp.ne_nil
  | inScope => exact List.cons_ne_nil _ _

/-- No package with a version ends with a slash. -/
theorem IsPackage.getLast?_ne (hp : IsPackage p) (hw : IsVersionPart w) :
    (p ++ w).getLast? ≠ some '/' := by
  intro h
  cases hp with
  | alone hp =>
    exact List.not_mem_append hp.noSlash hw.noSlash (List.mem_of_getLast? h)
  | @inScope scope cs hscope hp =>
    have hne : cs ++ w ≠ [] := List.append_ne_nil_of_left_ne_nil hp.ne_nil w
    have hlast : '@' :: (scope ++ '/' :: cs) ++ w = '@' :: (scope ++ ['/']) ++ (cs ++ w) := by simp
    rw [hlast, List.getLast?_append, List.getLast?_eq_some_getLast hne, Option.some_or,
      ← List.getLast?_eq_some_getLast hne] at h
    exact List.not_mem_append hp.noSlash hw.noSlash (List.mem_of_getLast? h)

end Packages

namespace VersionedName

/-- Package and version of a name that is read. -/
structure Sound (n : VersionedName) : Prop where
  package : IsPackage n.package.toList
  version : Version.read n.versionText.toList = .ok n.version
  noSlash : '/' ∉ n.versionText.toList

/-- A scope is cut off with its slash. Without a scope there is no `@` in front. -/
theorem cutScope?_eq_some_iff {cs scope rest : List Char} :
    cutScope? cs = some (scope, rest) ↔ cs = scope ++ rest ∧
      (scope = [] ∧ cs.head? ≠ some '@' ∨ ∃ s, '/' ∉ s ∧ scope = '@' :: (s ++ ['/'])) := by
  constructor
  · intro h
    rw [cutScope?.eq_def] at h
    split at h
    · split at h
      · rename_i s behind hcut
        cases h
        obtain ⟨hs, rfl⟩ := Text.cutFirst_eq_iff.1 hcut
        exact ⟨by simp, .inr ⟨s, hs, rfl⟩⟩
      · cases h
    · rename_i hhead
      cases h
      refine ⟨rfl, .inl ⟨rfl, fun hat => ?_⟩⟩
      obtain ⟨behind, hcs⟩ := List.head?_eq_some_iff.1 hat
      exact hhead behind hcs
  · rintro ⟨rfl, ⟨rfl, hhead⟩ | ⟨s, hs, rfl⟩⟩
    · rw [List.nil_append] at hhead ⊢
      rw [cutScope?.eq_def]
      split
      · exact absurd rfl hhead
      · rfl
    · have hcut : Text.cutFirst '/' (s ++ ['/'] ++ rest) = (s, some rest) :=
        Text.cutFirst_eq_iff.2 ⟨hs, by simp⟩
      rw [List.cons_append, cutScope?, hcut]

theorem isPackage_of_cutScope? {cs scope rest p : List Char}
    (h : cutScope? cs = some (scope, rest)) (hp : IsSegment p) : IsPackage (scope ++ p) := by
  obtain ⟨-, ⟨rfl, -⟩ | ⟨s, hs, rfl⟩⟩ := cutScope?_eq_some_iff.1 h
  · exact .alone hp
  · simpa using IsPackage.inScope hs hp

/-- How a name is read: the scope is cut off, then the path behind the package, then the version. -/
theorem read_eq_ok_iff {name : String} {n : VersionedName} : read name = .ok n ↔
    ∃ scope rest segment subpath package version v, cutScope? name.toList = some (scope, rest) ∧
      Text.cutFirst '/' rest = (segment, subpath) ∧
      Text.cutFirst '@' segment = (package, some version) ∧ package ≠ [] ∧
      Version.read version = .ok v ∧
      n = ⟨String.ofList (scope ++ package), v, String.ofList version,
        subpath.map String.ofList⟩ := by
  rw [read]
  constructor
  · intro h
    split at h
    · cases h
    · rename_i scope rest hscope
      rcases hsegment : Text.cutFirst '/' rest with ⟨segment, subpath⟩
      simp only [hsegment] at h
      split at h
      · cases h
      · cases h
      · rename_i package version hne hat
        split at h
        · cases h
        · rename_i v hv
          cases h
          exact ⟨scope, rest, segment, subpath, package, version, v, hscope, hsegment, hat, hne, hv,
            rfl⟩
  · rintro ⟨scope, rest, segment, subpath, package, version, v, hscope, hsegment, hat, hne, hv, rfl⟩
    obtain ⟨c, cs, rfl⟩ := List.exists_cons_of_ne_nil hne
    simp only [hscope, hsegment, hat, hv]

theorem sound_of_read {name : String} {n : VersionedName} (h : read name = .ok n) : n.Sound := by
  obtain ⟨scope, rest, segment, subpath, package, version, v, hscope, hsegment, hat, hne, hv, rfl⟩ :=
    read_eq_ok_iff.1 h
  obtain ⟨hslash, -⟩ := Text.cutFirst_eq_iff.1 hsegment
  obtain ⟨hpackage, rfl⟩ := Text.cutFirst_eq_iff.1 hat
  have hp : IsSegment package :=
    ⟨hne, hpackage, fun hm => hslash (List.mem_append_left _ hm)⟩
  exact {
    package := by
      rw [String.toList_ofList]
      exact isPackage_of_cutScope? hscope hp
    version := by rwa [String.toList_ofList]
    noSlash := by
      rw [String.toList_ofList]
      exact fun hm => hslash (by simp [hm]) }

end VersionedName

end ModuleLoader
