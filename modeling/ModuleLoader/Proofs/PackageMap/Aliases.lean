import Mathlib.Data.List.Induction
import Mathlib.Data.List.Nodup
import Mathlib.Data.List.Perm.Basic
import ModuleLoader.Proofs.PackageMap.Rules
import ModuleLoader.Proofs.PackageMap.VersionedNames

/-! # Aliases of versions

The alias maps of names with different packages, merged in any order, lead every alias with every
path behind it to the version that it stands for, and nothing else anywhere. No key of one package
matches a name of another one, and of the keys of a package only one matches.
-/

namespace ModuleLoader

namespace VersionedName

/-! ## Aliases of one name -/

/-- What the aliases of a name have behind its package. -/
def aliasVersions (n : VersionedName) : List String :=
  ["", "@" ++ toString n.version.major,
    "@" ++ toString n.version.major ++ "." ++ toString n.version.minor]

/-- What the aliases of a name replace. -/
def aliasKeys (n : VersionedName) : List String := n.aliasVersions.map (n.package ++ ·)

theorem packageId_eq (n : VersionedName) : n.packageId = n.package ++ ("@" ++ n.versionText) :=
  String.append_assoc

theorem get?_aliases (n : VersionedName) (key : String) : n.aliases.entries.get? key =
    if key ∈ n.aliasKeys then some (.target n.packageId) else none := by
  simp only [aliases, PackageMap.insert, PackageMap.empty, Dict.get?_insert, Dict.get?_empty,
    aliasKeys, aliasVersions, List.map_cons, List.map_nil, List.mem_cons, List.not_mem_nil,
    String.append_empty, String.append_assoc, or_false]
  split_ifs <;> grind

section Sound

variable {n n' : VersionedName} {v s s' : String}

theorem isVersionPart_nil : IsVersionPart [] := ⟨.inl rfl, List.not_mem_nil⟩

theorem isVersionPart_at {cs : List Char} (h : '/' ∉ cs) : IsVersionPart ('@' :: cs) :=
  ⟨behind_cons _ _, List.not_mem_cons_of_ne_of_not_mem (by decide) h⟩

theorem slash_not_mem_toDigits (k : ℕ) : '/' ∉ Nat.toDigits 10 k := by
  intro h
  have := Nat.isDigit_of_mem_toDigits (by decide) (by decide) h
  contradiction

theorem isVersionPart_of_mem (h : v ∈ n.aliasVersions) : IsVersionPart v.toList := by
  have hdigits := slash_not_mem_toDigits
  simp only [aliasVersions, List.mem_cons, List.not_mem_nil, or_false] at h
  rcases h with rfl | rfl | rfl
  · exact isVersionPart_nil
  · rw [String.toList_append]
    exact isVersionPart_at (by simp [hdigits])
  · rw [String.append_assoc, String.append_assoc, String.toList_append]
    exact isVersionPart_at (by simp [hdigits])

theorem Sound.isVersionPart (h : n.Sound) : IsVersionPart ("@" ++ n.versionText).toList := by
  rw [String.toList_append]
  exact isVersionPart_at h.noSlash

/-- A version text is longer than the aliases of its version. -/
theorem Sound.at_versionText_not_mem (h : n.Sound) : "@" ++ n.versionText ∉ n.aliasVersions := by
  obtain ⟨rest, hv⟩ := Version.exists_of_read h.version
  have hlen : ("@" ++ n.versionText).toList.length = 3 + rest.length +
      (Nat.toDigits 10 n.version.major).length + (Nat.toDigits 10 n.version.minor).length := by
    simp only [String.toList_append, hv, List.length_append, List.length_cons, List.length_nil,
      String.reduceToList]
    omega
  intro hm
  simp only [aliasVersions, List.mem_cons, List.not_mem_nil, or_false] at hm
  rcases hm with hm | hm | hm <;> rw [hm] at hlen <;>
    simp only [String.toList_append, String.toList_empty, Nat.toString_eq_repr, Nat.toList_repr,
      List.length_append, List.length_cons, List.length_nil, String.reduceToList] at hlen <;>
    omega

end Sound

end VersionedName

/-! ## Merged aliases -/

open VersionedName

/-- The alias maps of texts merged one after the other. -/
def mergedAliases (names : List String) : PackageMap :=
  names.foldl (fun m name => m.extend (aliasesOf name)) .empty

section Merged

variable {names : List String} {name key : String} {entry : MapEntry} {n : VersionedName}

/-- Whether a text has an alias that leads to its version. -/
def Leads (name key : String) (entry : MapEntry) : Prop :=
  ∃ n, VersionedName.read name = .ok n ∧ key ∈ n.aliasKeys ∧ entry = .target n.packageId

theorem get?_aliasesOf :
    (aliasesOf name).entries.get? key = some entry ↔ Leads name key entry := by
  rw [aliasesOf, Leads]
  cases hread : VersionedName.read name with
  | error e => simp [PackageMap.empty]
  | ok n => simp [n.get?_aliases, eq_comm]

theorem mergedAliases_concat (names : List String) (name : String) :
    mergedAliases (names ++ [name]) = (mergedAliases names).extend (aliasesOf name) :=
  List.foldl_concat _ _ _ _

theorem exists_leads (h : (mergedAliases names).entries.get? key = some entry) :
    ∃ name ∈ names, Leads name key entry := by
  induction names using List.reverseRec with
  | nil => cases h
  | append_singleton names name ih =>
    rw [mergedAliases_concat, PackageMap.extend, Dict.get?_merge, Option.or_eq_some_iff] at h
    rcases h with h | ⟨-, h⟩
    · exact ⟨name, by simp, get?_aliasesOf.1 h⟩
    · obtain ⟨name, hname, hl⟩ := ih h
      exact ⟨name, by simp [hname], hl⟩

theorem exists_get?_of_leads (hname : name ∈ names) (h : Leads name key entry) :
    ∃ entry, (mergedAliases names).entries.get? key = some entry := by
  rw [← Option.isSome_iff_exists]
  induction names using List.reverseRec with
  | nil => cases hname
  | append_singleton names name' ih =>
    rw [mergedAliases_concat, PackageMap.extend, Dict.get?_merge, Option.isSome_or]
    rcases List.mem_append.1 hname with hname | hname
    · rw [ih hname, Bool.or_true]
    · obtain rfl := List.mem_singleton.1 hname
      rw [get?_aliasesOf.2 h, Option.isSome_some, Bool.true_or]

theorem global_mergedAliases (names : List String) : (mergedAliases names).Global := by
  intro context rules h
  obtain ⟨name, -, n, -, -, hentry⟩ := exists_leads h
  cases hentry

/-- Whether versioned names of different packages are what some texts are read as. -/
structure Listed (names : List String) (ns : List VersionedName) : Prop where
  mem_iff : ∀ n, n ∈ ns ↔ ∃ name ∈ names, VersionedName.read name = .ok n
  distinct : (ns.map (·.package)).Nodup

variable {ns : List VersionedName} {v suffix start target : String} {referrer : Option String}

theorem Listed.sound (h : Listed names ns) (hn : n ∈ ns) : n.Sound := by
  obtain ⟨name, -, hread⟩ := (h.mem_iff n).1 hn
  exact sound_of_read hread

/-- Of all rules, only one with an alias of the package and its very version matches. -/
theorem Listed.matches_unique (h : Listed names ns) (hn : n ∈ ns) (hv : IsVersionPart v.toList)
    (hs : Behind '/' suffix.toList)
    (hg : (mergedAliases names).entries.get? start = some (.target target))
    (hm : PackageMap.startMatches start.toList (n.package ++ v ++ suffix).toList = true) :
    v ∈ n.aliasVersions ∧ start = n.package ++ v ∧ target = n.packageId := by
  obtain ⟨name, hname, n', hread, hkey, htarget⟩ := exists_leads hg
  obtain ⟨v', hv', rfl⟩ := List.mem_map.1 hkey
  have hn' : n' ∈ ns := (h.mem_iff n').2 ⟨name, hname, hread⟩
  obtain ⟨-, rest, htext, hrest⟩ := PackageMap.startMatches_iff.1 hm
  have hpart := isVersionPart_of_mem hv'
  simp only [String.toList_append, List.append_assoc] at htext hrest
  obtain ⟨hp, hvv, -⟩ := (h.sound hn).package.unique (h.sound hn').package hv hpart hs
    (hrest.resolve_right ((h.sound hn').package.getLast?_ne hpart)) htext
  obtain rfl : n = n' := List.inj_on_of_nodup_map h.distinct hn hn' (String.toList_inj.1 hp)
  obtain rfl : v = v' := String.toList_inj.1 hvv
  cases htarget
  exact ⟨hv', rfl, rfl⟩

theorem startMatches_append (hne : start ≠ "") (hs : Behind '/' suffix.toList) :
    PackageMap.startMatches start.toList (start ++ suffix).toList = true :=
  PackageMap.startMatches_iff.2 ⟨by simpa using hne, suffix.toList, String.toList_append, .inl hs⟩

theorem Listed.rule?_alias (h : Listed names ns) (hn : n ∈ ns) (hv : v ∈ n.aliasVersions)
    (hs : Behind '/' suffix.toList) :
    (mergedAliases names).rule? (n.package ++ v ++ suffix) referrer =
      some ⟨none, n.package ++ v, n.packageId⟩ := by
  obtain ⟨name, hname, hread⟩ := (h.mem_iff n).1 hn
  have hpart := isVersionPart_of_mem hv
  have hne : n.package ++ v ≠ "" := by
    have hp := (h.sound hn).package.ne_nil
    rw [Ne, String.toList_eq_nil_iff] at hp
    simp [String.append_eq_empty_iff, hp]
  have hm := startMatches_append hne hs
  obtain ⟨entry, hentry⟩ := exists_get?_of_leads hname ⟨n, hread, List.mem_map_of_mem hv, rfl⟩
  obtain ⟨name', -, n', -, -, rfl⟩ := exists_leads hentry
  obtain ⟨-, -, htarget⟩ := h.matches_unique hn hpart hs hentry hm
  rw [htarget] at hentry
  exact (global_mergedAliases names).rule?_eq_some hentry hm
    (fun _ _ hg hm => (h.matches_unique hn hpart hs hg hm).2.1) referrer

theorem Listed.rule?_version (h : Listed names ns) (hn : n ∈ ns) (hs : Behind '/' suffix.toList) :
    (mergedAliases names).rule? (n.packageId ++ suffix) referrer = none := by
  refine (global_mergedAliases names).rule?_eq_none (fun start target hg => ?_) referrer
  rw [Bool.eq_false_iff, packageId_eq]
  intro hm
  exact (h.sound hn).at_versionText_not_mem
    (h.matches_unique hn (h.sound hn).isVersionPart hs hg hm).1

theorem Listed.apply_alias (h : Listed names ns) (hn : n ∈ ns) (hv : v ∈ n.aliasVersions)
    (hs : Behind '/' suffix.toList) :
    (mergedAliases names).apply (n.package ++ v ++ suffix) referrer =
      .ok (n.packageId ++ suffix) := by
  have hreplace : PackageMap.replace ⟨none, n.package ++ v, n.packageId⟩
      (n.package ++ v ++ suffix) = n.packageId ++ suffix := by
    have hdrop := Text.dropStart?_eq_some_iff.2
      (String.toList_append (s := n.package ++ v) (t := suffix))
    rw [PackageMap.replace, hdrop, Option.getD_some, String.ofList_toList]
  have hne : n.packageId ++ suffix ≠ n.package ++ v ++ suffix := by
    rw [packageId_eq, Ne, ← String.toList_inj]
    simp only [String.toList_append, List.append_cancel_right_eq, List.append_cancel_left_eq]
    rw [← String.toList_append, String.toList_inj]
    rintro rfl
    exact (h.sound hn).at_versionText_not_mem hv
  rw [← hreplace] at hne ⊢
  refine PackageMap.apply_of_rule?_eq_some (h.rule?_alias hn hv hs) hne ?_
  rw [hreplace]
  exact h.rule?_version hn hs

end Merged

/-- The aliases of versioned names of different packages do not get in each other's way. In which
order their maps are merged does not matter, nor does the referrer: every alias leads to its
version, whatever path is behind it, a version leads to itself, and any other name stays. -/
theorem apply_mergedAliases {names order : List String} {ns : List VersionedName}
    (hread : names.map VersionedName.read = ns.map .ok) (hdistinct : (ns.map (·.package)).Nodup)
    (horder : order.Perm names) (referrer : Option String) :
    (∀ n ∈ ns, ∀ suffix : String, Behind '/' suffix.toList →
      (mergedAliases order).apply (n.package ++ suffix) referrer = .ok (n.packageId ++ suffix) ∧
      (mergedAliases order).apply (n.package ++ "@" ++ toString n.version.major ++ suffix)
        referrer = .ok (n.packageId ++ suffix) ∧
      (mergedAliases order).apply (n.package ++ "@" ++ toString n.version.major ++ "." ++
        toString n.version.minor ++ suffix) referrer = .ok (n.packageId ++ suffix) ∧
      (mergedAliases order).apply (n.packageId ++ suffix) referrer =
        .ok (n.packageId ++ suffix)) ∧
    ∀ name : String, (∀ n ∈ ns, ∀ key ∈ n.aliasKeys, ∀ rest : String, Behind '/' rest.toList →
      name ≠ key ++ rest) → (mergedAliases order).apply name referrer = .ok name := by
  have h : Listed order ns := by
    refine ⟨fun n => ?_, hdistinct⟩
    have hmem := congrArg (fun l => Except.ok n ∈ l) hread
    simpa [horder.mem_iff] using hmem.symm
  refine ⟨fun n hn suffix hs => ?_, fun name hname => ?_⟩
  · have halias {v : String} (hv : v ∈ n.aliasVersions) :
        (mergedAliases order).apply (n.package ++ v ++ suffix) referrer =
          .ok (n.packageId ++ suffix) := h.apply_alias hn hv hs
    refine ⟨?_, ?_, ?_, PackageMap.apply_of_rule?_eq_none (h.rule?_version hn hs)⟩
    · simpa using halias (v := "") (by simp [aliasVersions])
    · simpa [String.append_assoc] using
        halias (v := "@" ++ toString n.version.major) (by simp [aliasVersions])
    · simpa [String.append_assoc] using
        halias (v := "@" ++ toString n.version.major ++ "." ++ toString n.version.minor)
          (by simp [aliasVersions])
  · refine PackageMap.apply_of_rule?_eq_none
      ((global_mergedAliases order).rule?_eq_none (fun start target hg => ?_) referrer)
    rw [Bool.eq_false_iff]
    intro hm
    obtain ⟨text, htext, n, hread, hkey, -⟩ := exists_leads hg
    have hn : n ∈ ns := (h.mem_iff n).2 ⟨text, htext, hread⟩
    obtain ⟨v, hv, rfl⟩ := List.mem_map.1 hkey
    obtain ⟨-, rest, hrest, hbehind⟩ := PackageMap.startMatches_iff.1 hm
    have hlast := (h.sound hn).package.getLast?_ne (isVersionPart_of_mem hv)
    rw [← String.toList_append] at hlast
    refine hname n hn _ hkey (String.ofList rest) ?_ ?_
    · rw [String.toList_ofList]
      exact hbehind.resolve_right hlast
    · rw [← String.toList_inj, hrest]
      simp only [String.toList_append, String.toList_ofList]

/-- A package whose scope looks like a version of another one. -/
def similarNames : List VersionedName :=
  [⟨"a", ⟨1, 10, 0, "rc.1", "b"⟩, "1.10.0-rc.1+b", some "c"⟩,
    ⟨"@a@1/b", ⟨0, 0, 1, "", ""⟩, "0.0.1", none⟩]

theorem apply_mergedAliases_similar :
    ["a@1.10.0-rc.1+b/c", "@a@1/b@0.0.1"].map VersionedName.read = similarNames.map .ok ∧
      (mergedAliases ["@a@1/b@0.0.1", "a@1.10.0-rc.1+b/c"]).apply "a@1.10/d" (some "@a@1/b") =
        .ok "a@1.10.0-rc.1+b/d" ∧
      (mergedAliases ["@a@1/b@0.0.1", "a@1.10.0-rc.1+b/c"]).apply "a@1.1/d" (some "@a@1/b") =
        .ok "a@1.1/d" := by
  have hread : ["a@1.10.0-rc.1+b/c", "@a@1/b@0.0.1"].map VersionedName.read =
      similarNames.map .ok := by rfl
  have hkeys : ∀ n ∈ similarNames, ∀ key ∈ n.aliasKeys, key ≠ "" ∧
      PackageMap.startMatches key.toList "a@1.1/d".toList = false := by decide +kernel
  obtain ⟨halias, hother⟩ := apply_mergedAliases hread (by decide)
    (.swap "a@1.10.0-rc.1+b/c" "@a@1/b@0.0.1" []) (some "@a@1/b")
  refine ⟨hread, ?_, hother _ fun n hn key hkey rest hrest heq => ?_⟩
  · exact (halias _ List.mem_cons_self "/d" (.inr ⟨_, rfl⟩)).2.2.1
  · obtain ⟨hne, hfalse⟩ := hkeys n hn key hkey
    rw [heq, startMatches_append hne hrest] at hfalse
    cases hfalse

end ModuleLoader
