import Mathlib.Data.List.Basic
import ModuleLoader.Proofs.Url.Authorities

/-! # Reading the text of a URL

Every part of a URL that is read or joined is written as it stays, so its text is read as the URL
again. There are three exceptions: a domain name that is not its own form in ASCII, and the path of
a local file that has segments of points or begins with a drive behind a host.
-/

namespace ModuleLoader

open Text

namespace Url

/-- Whether a written URL is none of the exceptions. -/
structure Stable (u : Url) : Prop where
  domain : isSpecial u.scheme = true → IsOwnForm u.host
  clean : isFile u.scheme = true → Clean u.path
  driveless : isFile u.scheme = true → u.host ≠ .name [] →
    looksLikeDrive ((segments '/' u.path.tail).head (segments_ne_nil _ _)) = false

/-! ## Local files -/

theorem isScheme_file : IsScheme fileScheme := ⟨by decide, forall_mem_of_all (by decide)⟩

theorem toLower_file : ∀ c ∈ fileScheme, c.toLower = c := forall_mem_of_all (by decide)

/-- The URL of a local file is written as it stays. -/
theorem addressed_file {host : Host} (h : IsHost true host ∨ host = .name [])
    (hl : host ≠ .name "localhost".toList) : Addressed { emptyFile with host := host } where
  scheme := isScheme_file
  lower := toLower_file
  username := plain_nil _
  password := plain_nil _
  host := h.imp_right fun h => ⟨rfl, h⟩
  number p hp := by cases hp
  hostOnly _ := ⟨rfl, rfl, rfl⟩
  away _ := hl

theorem written_withoutHost (cs : List Char) :
    Written (readPath emptyFile (writePath fileScheme ['/']) cs).1 :=
  (addressed_file (.inr rfl) (by simp)).readPath
    (fun _ => .inl (isPathOf_writePath (slash_wrought _) (fun _ => ready_slash) _)) cs

theorem Written.withoutHost {u : Url} (h : Written u) (hf : isFile u.scheme = true) :
    Written { u with host := .name [] } :=
  ⟨⟨h.scheme, h.lower, h.username, h.password, .inr ⟨hf, rfl⟩, h.number,
    fun _ => h.hostOnly (.inl hf), fun _ => by simp⟩, h.path, h.query, h.fragment⟩

theorem written_readFile {cs : List Char} {u : Url} (h : readFile cs = .ok u) : Written u := by
  rw [readFile] at h
  split_ifs at h with hdrive hnil
  · cases h
    exact written_withoutHost _
  · cases h
    exact written_withoutHost _
  · obtain ⟨host, hhost, h⟩ := bind_eq_ok_iff.1 h
    split_ifs at h with hlocal
    · cases h
      exact written_withoutHost _
    · have hwritten := (addressed_file (.inl (isHost_readHost hhost)) hlocal).readPath
        (isPathOf_writeWhole fileScheme) (cs.drop (cs.takeWhile (!endsAuthority true ·)).length)
      have hfile : isFile (readPath { emptyFile with host := host } (writeWhole fileScheme)
          (cs.drop (cs.takeWhile (!endsAuthority true ·)).length)).1.scheme = true := by
        exact decide_eq_true rfl
      generalize readPath _ (writeWhole fileScheme) _ = read at h hwritten hfile
      cases h
      split
      · exact hwritten.withoutHost hfile
      · exact hwritten

theorem readFile_text {u : Url} (h : Written u) (hs : Stable u) (hf : isFile u.scheme = true) :
    readFile (hostText u.host ++ (u.path ++ u.tailPart)) = .ok u := by
  have hscheme : u.scheme = fileScheme := of_decide_eq_true hf
  have hsp : isSpecial u.scheme = true := isSpecial_of_isFile hf
  have hpath : IsPathOf u.scheme u.path := h.path.resolve_right fun hno => by
    rw [hsp] at hno
    exact absurd hno.1.symm Bool.false_ne_true
  have hrest : ∀ c ∈ (u.path ++ u.tailPart).head?, (!endsAuthority true c) = false := fun c hc => by
    rw [h.mem_rest_head hc]
    rfl
  have hgo : ∀ c ∈ hostText u.host, (!endsAuthority true c) = true := fun c hc => by
    rw [endsAuthority_false fun hm => (h.plain_hostText c hc).2 (List.mem_append_left ['@'] hm)]
    rfl
  obtain ⟨huser, hpassword, hnumber⟩ := h.hostOnly (.inl hf)
  have hu : u = { emptyFile with
      host := u.host, path := u.path, query := u.query, fragment := u.fragment } := by
    rw [Url.mk.injEq]
    exact ⟨hscheme, huser, hpassword, rfl, hnumber, rfl, rfl, rfl⟩
  have hquery : ∀ q ∈ u.query, Plain (querySet (isSpecial fileScheme)) q := hscheme ▸ h.query
  rw [readFile, takeWhile_append_stop hgo hrest, List.drop_left]
  rcases h.host with hhost | ⟨-, hnil⟩
  · rw [hsp] at hhost
    have hne : hostText u.host ≠ [] := fun hnil =>
      absurd (hhost.eq_of_hostText_nil hnil).1 (by decide)
    have hname : u.host ≠ .name [] := fun hnil => hne (by rw [hnil]; rfl)
    have hread := @readPath_path u { emptyFile with host := u.host } h.endsPath_false hquery
      h.fragment (writeWhole fileScheme)
    rw [hhost.namesDrive_false, if_neg Bool.false_ne_true, if_neg hne]
    refine bind_eq_ok_iff.2 ⟨u.host, readHost_hostText hhost (hs.domain hsp), ?_⟩
    rw [if_neg (h.away hf), hread, writeWhole_self (hscheme ▸ hpath) (hs.clean hf)
      fun _ => hs.driveless hf hname]
    exact congrArg Except.ok hu.symm
  · obtain ⟨rest, hrest⟩ := List.head?_eq_some_iff.1 hpath.wrought.head
    have hread := @readPath_path u emptyFile h.endsPath_false hquery h.fragment
      (writePath fileScheme ['/'])
    have hagain : writePath fileScheme ['/'] u.path = ⟨u.path, false⟩ := by
      rw [hrest]
      exact writePath_again (hrest ▸ hscheme ▸ hpath) (hrest ▸ hs.clean hf) rfl
    rw [hagain] at hread
    rw [hnil, if_neg (by decide), if_pos (show hostText (.name []) = [] from rfl)]
    exact congrArg Except.ok ((congrArg Prod.fst hread).trans (hu.trans (by rw [hnil]; rfl)).symm)

/-! ## Whole URLs -/

theorem isSchemeChar_toLower {c : Char} (h : isSchemeChar c = true) : IsVisible c ∧
    isSchemeChar c.toLower = true ∧ c.toLower.toLower = c.toLower ∧
    (c.isAlpha = true → c.toLower.isAlpha = true) := by
  have hlt : c.toNat < 128 := by
    have hletter {bound : Char} (hle : c.val ≤ bound.val) (hb : bound.toNat < 128) :
        c.toNat < 128 := (UInt32.le_iff_toNat_le.1 hle).trans_lt hb
    simp only [isSchemeChar, Char.isAlphanum, Bool.or_eq_true, decide_eq_true_eq] at h
    rcases h with (((halpha | hdigit) | rfl) | rfl) | rfl
    · rcases Bool.or_eq_true_iff.1 halpha with hupper | hlower
      · have hrange : c.val ≥ 'A'.val ∧ c.val ≤ 'Z'.val := of_decide_eq_true hupper
        exact hletter hrange.2 (by decide)
      · exact hletter (of_decide_eq_true (Bool.and_eq_true_iff.1 hlower).2) (by decide)
    · exact hletter (of_decide_eq_true (Bool.and_eq_true_iff.1 hdigit).2) (by decide)
    all_goals decide
  exact forall_ascii (P := fun c => isSchemeChar c = true → IsVisible c ∧
    isSchemeChar c.toLower = true ∧ c.toLower.toLower = c.toLower ∧
    (c.isAlpha = true → c.toLower.isAlpha = true)) (by decide +kernel) hlt h

/-- A text without blanks and controls is read as it is. -/
theorem cleaned_eq {cs : List Char} (h : ∀ c ∈ cs, 32 < c.toNat) : cleaned cs = cs := by
  have hedge {ds : List Char} (hd : ∀ c ∈ ds, c ∈ cs) :
      ds.dropWhile (fun c => decide (c.toNat ≤ 32)) = ds := by
    refine dropWhile_of_head fun c hc => decide_eq_false ?_
    have := h c (hd c (List.mem_of_head? hc))
    omega
  rw [cleaned, hedge fun _ => id, hedge fun _ => List.mem_reverse.1, List.reverse_reverse,
    List.filter_eq_self]
  intro c hc
  have := h c hc
  refine decide_eq_true ⟨?_, ?_, ?_⟩ <;> rintro rfl <;> revert this <;> decide

theorem takeWhile_scheme {scheme : List Char} (h : IsScheme scheme) (rest : List Char) :
    (scheme ++ ':' :: rest).takeWhile (· ≠ ':') = scheme :=
  takeWhile_append_stop (fun c hc => decide_eq_true fun heq => by
    have := h.chars c hc
    rw [heq, isSchemeChar_colon] at this
    cases this) (by simp)

/-- Whatever is read is written as it stays. -/
theorem written_read {cs : List Char} {u : Url} (h : read cs = .ok u) : Written u := by
  rw [read] at h
  split at h
  · rename_i habsolute
    obtain ⟨scheme, rest, hcs, hs⟩ := isAbsoluteUrl_iff.1 habsolute
    rw [hcs, takeWhile_scheme hs] at h
    have hlower : IsScheme (scheme.map Char.toLower) := by
      refine ⟨?_, fun c hc => ?_⟩
      · cases scheme with
        | nil => exact hs.head
        | cons c scheme =>
          exact (isSchemeChar_toLower (hs.chars c List.mem_cons_self)).2.2.2 hs.head
      · obtain ⟨d, hd, rfl⟩ := List.mem_map.1 hc
        exact (isSchemeChar_toLower (hs.chars d hd)).2.1
    have hfixed : ∀ c ∈ scheme.map Char.toLower, c.toLower = c := by
      intro c hc
      obtain ⟨d, hd, rfl⟩ := List.mem_map.1 hc
      exact (isSchemeChar_toLower (hs.chars d hd)).2.2.1
    dsimp only at h
    split_ifs at h with hf hsp
    · exact written_readFile h
    · exact written_readAuthority hlower hfixed (Bool.eq_false_iff.2 hf) h
    · exact written_readAuthority hlower hfixed (Bool.eq_false_iff.2 hf) h
  · cases h

theorem Written.isVisible_text {u : Url} (h : Written u) : ∀ c ∈ u.text, IsVisible c := by
  have hmarks : ∀ c ∈ [':', '/', '@', '?', '#'], IsVisible c := forall_mem_of_all (by decide)
  have hpath : ∀ c ∈ u.path, IsVisible c := by
    intro c hc
    rcases h.path with hp | ⟨-, hp⟩
    · exact (hp.wrought.plain c hc).1
    · rw [hp] at hc
      cases hc
  have htail : ∀ c ∈ u.tailPart, IsVisible c := by
    intro c hc
    rw [tailPart, List.mem_append] at hc
    rcases hc with hc | hc
    · split at hc
      · rename_i q hq
        rcases List.mem_cons.1 hc with rfl | hc
        · exact hmarks _ (by decide)
        · exact (h.query q hq c hc).1
      · cases hc
    · split at hc
      · rename_i f hf
        rcases List.mem_cons.1 hc with rfl | hc
        · exact hmarks _ (by decide)
        · exact (h.fragment f hf c hc).1
      · cases hc
  intro c hc
  rw [text_eq] at hc
  simp only [List.mem_append, List.mem_cons] at hc
  rcases hc with hc | rfl | rfl | rfl | hc | (hc | hc) | hc | hc
  · exact (isSchemeChar_toLower (h.scheme.chars c hc)).1
  · exact hmarks _ (by decide)
  · exact hmarks _ (by decide)
  · exact hmarks _ (by decide)
  · exact (plain_userPart h.username h.password c hc).1
  · exact (h.plain_hostText c hc).1
  · exact (plain_portPart u c hc).1
  · exact hpath c hc
  · exact htail c hc

/-- The text of a URL is cut behind the scheme. -/
theorem read_text_eq {u : Url} (h : Written u) : read u.text =
    if isFile u.scheme then readFile (hostText u.host ++ (u.path ++ u.tailPart))
    else readAuthority u.scheme
      (u.userPart ++ (hostText u.host ++ u.portPart ++ (u.path ++ u.tailPart))) := by
  have hclean : cleaned u.text = u.text := cleaned_eq fun c hc => (h.isVisible_text c hc).1
  have habsolute : isAbsoluteUrl u.text = true := isAbsoluteUrl_iff.2 ⟨_, _, text_eq u, h.scheme⟩
  have hlower : u.scheme.map Char.toLower = u.scheme :=
    (List.map_congr_left h.lower).trans (List.map_id _)
  have hdrop (rest : List Char) :
      (u.scheme ++ ':' :: '/' :: '/' :: rest).drop (u.scheme.length + 3) = rest := by
    rw [← List.drop_drop, List.drop_left]
    rfl
  rw [read, hclean, if_pos habsolute, text_eq, takeWhile_scheme h.scheme]
  dsimp only
  rw [hdrop, hlower]
  split_ifs with hf hsp
  · obtain ⟨hu, hp, hn⟩ := h.hostOnly (.inl hf)
    rw [userPart, hu, hp, portPart, hn, if_pos ⟨rfl, rfl⟩, List.append_nil]
    rfl
  · have hfront : Plain ['/', '\\', '?', '#'] (u.userPart ++ hostText u.host) :=
      (plain_userPart h.username h.password).append (h.plain_hostText.mono (by decide))
    have hne : u.userPart ++ hostText u.host ≠ [] := by
      intro hnil
      have hhost := h.isHost (Bool.eq_false_iff.2 hf)
      have := (hhost.eq_of_hostText_nil (List.append_eq_nil_iff.1 hnil).2).1
      rw [hsp] at this
      cases this
    have hassoc : u.userPart ++ (hostText u.host ++ u.portPart ++ (u.path ++ u.tailPart)) =
        u.userPart ++ hostText u.host ++ (u.portPart ++ (u.path ++ u.tailPart)) := by
      simp only [List.append_assoc]
    have hslash : ∀ c ∈ (u.userPart ++ (hostText u.host ++ u.portPart ++
        (u.path ++ u.tailPart))).head?, isSlash true c = false := by
      intro c hc
      rw [hassoc, List.head?_append_of_ne_nil _ hne] at hc
      have hset := (hfront c (List.mem_of_head? hc)).2
      simp only [List.mem_cons, List.not_mem_nil, or_false, not_or] at hset
      simp [isSlash, hset]
    rw [dropWhile_of_head hslash]
  · rfl

/-- The text of a URL is read as the URL. -/
theorem read_text {u : Url} (h : Written u) (hs : Stable u) : read u.text = .ok u := by
  rw [read_text_eq h]
  split
  · exact readFile_text h hs ‹_›
  · exact readAuthority_text h (Bool.eq_false_iff.2 ‹_›) hs.domain

/-- A URL of no local file whose text is read as a URL with the same text is no exception. -/
theorem stable_of_read_text {u v : Url} (h : Written u) (hf : isFile u.scheme = false)
    (hread : read u.text = .ok v) (htext : v.text = u.text) : Stable u where
  domain hsp := by
    rw [read_text_eq h, hf, if_neg Bool.false_ne_true, readAuthority_text_iff h hf] at hread
    obtain ⟨host, hhost, rfl⟩ := hread
    rw [hsp, if_pos rfl] at hhost
    refine isOwnForm_of_readHost (hsp ▸ h.isHost hf) hhost ?_
    simpa [text_eq, userPart, portPart, tailPart] using htext
  clean hfile := absurd hfile (by simp [hf])
  driveless hfile := absurd hfile (by simp [hf])

/-! ## References -/

/-- A reference that begins with a point leaves scheme, user, host and number as they are. -/
theorem written_join {base u : Url} {reference : List Char} (h : Written base)
    (hpoint : reference.head? = some '.') (hc : ∀ c ∈ reference, 32 < c.toNat)
    (hj : base.join reference = .ok u) : Written u := by
  obtain ⟨rest, rfl⟩ := List.head?_eq_some_iff.1 hpoint
  rw [join, cleaned_eq hc] at hj
  split at hj
  · rename_i hf
    have hscheme : base.scheme = fileScheme := of_decide_eq_true hf
    have hjoin : joinFile base ('.' :: rest) =
        .ok (readPath base (writePath fileScheme (shorten true base.path)) ('.' :: rest)).1 := by
      cases rest <;> rfl
    rw [hjoin] at hj
    cases hj
    have hpath : IsPathOf base.scheme base.path := h.path.resolve_right fun hno => by
      rw [isSpecial_of_isFile hf] at hno
      exact absurd hno.1.symm Bool.false_ne_true
    refine h.toAddressed.readPath (fun cs => .inl ?_) _
    rw [← hscheme]
    exact isPathOf_writePath (hpath.wrought.shorten true)
      (fun hfile => absurd (hf.symm.trans hfile) (by decide)) cs
  · rename_i hf
    set directory := if shorten false base.path = [] then ['/'] else shorten false base.path
      with hdir
    have hjoin : joinOther base ('.' :: rest) =
        .ok (readPath base (writePath base.scheme directory) ('.' :: rest)).1 := rfl
    have hdirectory : Wrought (isSpecial base.scheme) directory ∧ Ready directory := by
      rcases h.path with hp | ⟨-, hp⟩
      · have hw := hp.wrought.shorten false
        rw [hdir, if_neg (List.ne_nil_of_mem (List.mem_of_head? hw.head))]
        exact ⟨hw, (hp.clean (Bool.eq_false_iff.2 hf)).shorten (List.mem_of_head? hp.wrought.head)⟩
      · have hnil : shorten false base.path = [] := by
          rw [hp]
          rfl
        rw [hdir, if_pos hnil]
        exact ⟨slash_wrought _, ready_slash⟩
    rw [hjoin] at hj
    cases hj
    exact h.toAddressed.readPath
      (fun cs => .inl (isPathOf_writePath hdirectory.1 (fun _ => hdirectory.2) cs)) _

end Url

end ModuleLoader
