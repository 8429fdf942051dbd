import ModuleLoader.Options
import ModuleLoader.Proofs.Specifiers.Walks
import ModuleLoader.Proofs.Url.Rereading

/-! # Canonical names as specifiers

A canonical name is the text of a URL or a row of segments. As a specifier it means itself for every
referrer if it is settled: if it has the form of a specifier, leads nowhere else, and is none of the
URLs whose text is not read as they are. What the base name brings into a name is not checked, so
not every canonical name is settled.
-/

namespace ModuleLoader.Specifier

open Text

/-! ## Forms of canonical names -/

/-- The texts that canonical names have. -/
inductive IsName : List Char → Prop where
  | url {u : Url} (written : u.Written) : IsName u.text
  | row {rows : List (List Char)} (row : IsRow rows) (nonempty : joined '/' rows ≠ []) :
      IsName (joined '/' rows)

section Forms

variable {cs name : List Char} {rows dir : List (List Char)}

theorem isAbsoluteUrl_text {u : Url} (h : u.Written) : isAbsoluteUrl u.text = true :=
  isAbsoluteUrl_iff.2 ⟨_, _, Url.text_eq u, h.scheme⟩

theorem segments_row (h : IsRow rows) (hne : joined '/' rows ≠ []) :
    segments '/' (joined '/' rows) = rows :=
  segments_joined (fun hnil => hne (by rw [hnil]; rfl)) h.apart

/-- A row of segments is no URL, which has an empty segment behind the scheme. -/
theorem isAbsoluteUrl_row (h : IsRow rows) (hne : joined '/' rows ≠ []) :
    isAbsoluteUrl (joined '/' rows) = false := by
  rw [Bool.eq_false_iff]
  intro hurl
  obtain ⟨scheme, rest, htext, -⟩ := isAbsoluteUrl_iff.1 hurl
  have hrows := segments_row h hne
  rw [htext, List.append_cons, segments_append_cons] at hrows
  refine h.filled [] ?_ rfl
  rw [← hrows, List.tail_append_of_ne_nil (segments_ne_nil _ _), segments, if_pos rfl]
  exact List.mem_append_right _ List.mem_cons_self

theorem isName_follow (h : IsRow dir) (hf : follow dir cs = .ok name) : IsName name := by
  obtain ⟨reached, hwalk, rfl, hne⟩ := follow_eq_ok_iff.1 hf
  exact .row (isRow_walk h (fun _ => not_mem_of_mem_segments) hwalk) hne

theorem isRow_baseDirectory (base : List Char) : IsRow (baseDirectory base) := by
  have hdir : ∀ s ∈ (segments '/' base).filter (· ≠ []), '/' ∉ s ∧ s ≠ [] := by
    intro s hs
    obtain ⟨hmem, hne⟩ := List.mem_filter.1 hs
    exact ⟨not_mem_of_mem_segments hmem, of_decide_eq_true hne⟩
  rw [baseDirectory]
  split
  · exact ⟨List.forall_mem_cons.2 ⟨List.not_mem_nil, fun s hs => (hdir s hs).1⟩,
      fun s hs => (hdir s hs).2⟩
  · exact ⟨fun s hs => (hdir s hs).1, fun s hs => (hdir s (List.mem_of_mem_tail hs)).2⟩

/-- What a checked specifier has no characters of. -/
theorem check_eq_ok_iff : check cs = .ok () ↔
    cs ≠ [] ∧ (∀ c ∈ cs, isIllegal c = false) ∧ ¬(1 < cs.length ∧ cs.getLast? = some '/') := by
  rw [check]
  by_cases hnil : cs = []
  · simp [hnil]
  · rw [if_neg hnil]
    cases hfind : cs.find? isIllegal with
    | some c =>
      have hc := List.find?_some hfind
      have hm := List.mem_of_find?_eq_some hfind
      simp only [reduceCtorEq, false_iff]
      exact fun h => absurd (h.2.1 c hm) (by simp [hc])
    | none =>
      rw [List.find?_eq_none] at hfind
      simp only [Bool.not_eq_true] at hfind
      by_cases hlast : 1 < cs.length ∧ cs.getLast? = some '/'
      · simp [hlast]
      · simpa [hlast, hnil] using hfind

theorem lt_of_legal {c : Char} (h : isIllegal c = false) : 32 < c.toNat := by
  simp only [isIllegal, Bool.or_eq_false_iff, isControl, isBlank, decide_eq_false_iff_not,
    beq_eq_false_iff_ne] at h
  omega

/-- A relative specifier begins with a segment of one or two points. -/
theorem exists_of_relative (h : kindOf cs = .relative) :
    ∃ s, (s = ['.'] ∨ s = ['.', '.']) ∧ (cs = s ∨ ∃ rest, cs = s ++ '/' :: rest) := by
  rw [kindOf] at h
  split_ifs at h with hrelative
  simp only [startsWith, Option.isSome_iff_exists, dropStart?_eq_some_iff] at hrelative
  rcases hrelative with rfl | rfl | ⟨rest, rfl⟩ | ⟨rest, rfl⟩
  · exact ⟨['.'], .inl rfl, .inl rfl⟩
  · exact ⟨['.', '.'], .inr rfl, .inl rfl⟩
  · exact ⟨['.'], .inl rfl, .inr ⟨rest, rfl⟩⟩
  · exact ⟨['.', '.'], .inr rfl, .inr ⟨rest, rfl⟩⟩

theorem head_of_relative (h : kindOf cs = .relative) : cs.head? = some '.' := by
  obtain ⟨s, hs, hcs⟩ := exists_of_relative h
  rcases hs with rfl | rfl <;> rcases hcs with rfl | ⟨rest, rfl⟩ <;> rfl

theorem isName_followUrl {base : List Char} (hkind : kindOf cs = .relative)
    (hcheck : check cs = .ok ()) (h : followUrl base cs = .ok name) : IsName name := by
  rw [followUrl] at h
  split at h
  · cases h
  · rename_i u hread
    split at h
    · cases h
    · rename_i v hjoin
      cases h
      have hlegal := (check_eq_ok_iff.1 hcheck).2.1
      exact .url (Url.written_join (Url.written_read hread) (head_of_relative hkind)
        (fun c hc => lt_of_legal (hlegal c hc)) hjoin)

/-- Whatever a specifier means is a name, if the referrer is one. -/
theorem isName_resolve {base : List Char} {referrer : Option (List Char)}
    (hr : ∀ r ∈ referrer, IsName r) (h : resolve base cs referrer = .ok name) : IsName name := by
  obtain ⟨_, hcheck, h⟩ := bind_eq_ok_iff.1 h
  have hroot : IsRow [[]] := ⟨by simp, by simp⟩
  have hnone : IsRow [] := ⟨List.forall_mem_nil _, List.forall_mem_nil _⟩
  match hkind : kindOf cs with
  | .url =>
    simp only [hkind, canonicalUrl] at h
    split at h
    · rename_i u hread
      cases h
      exact .url (Url.written_read hread)
    · cases h
  | .relative =>
    simp only [hkind, resolveRelative] at h
    cases referrer with
    | some r =>
      dsimp only at h
      split at h
      · exact isName_followUrl hkind hcheck h
      · rename_i habsolute
        refine isName_follow ?_ h
        cases hr r rfl with
        | url written => exact absurd (isAbsoluteUrl_text written) habsolute
        | row row nonempty =>
          rw [segments_row row nonempty]
          exact row.dropLast
    | none =>
      dsimp only at h
      split at h
      · exact isName_followUrl hkind hcheck h
      · exact isName_follow (isRow_baseDirectory base) h
  | .scoped =>
    simp only [hkind] at h
    obtain ⟨_, -, h⟩ := bind_eq_ok_iff.1 h
    exact isName_follow hnone h
  | .bare =>
    simp only [hkind] at h
    refine isName_follow ?_ h
    split
    · exact hroot
    · exact hnone

end Forms

/-! ## Settled names -/

/-- Whether a text has the form of a specifier. -/
def IsWellFormed (cs : List Char) : Prop :=
  check cs = .ok () ∧ (kindOf cs = .scoped → checkScoped cs = .ok ())

/-- What a canonical name has to be in order to mean itself. -/
structure Settled (name : List Char) : Prop where
  legal : ∀ c ∈ name, isIllegal c = false
  closed : name.getLast? ≠ some '/'
  scope : name.head? = some '@' → checkScoped name = .ok ()
  still : isAbsoluteUrl name = false → ∀ s ∈ segments '/' name, IsStill s
  stable : ∀ u : Url, u.Written → u.text = name → u.Stable

section Settled

variable {base name : List Char} {rows : List (List Char)}

theorem kindOf_text {u : Url} (h : u.Written) : kindOf u.text = .url := by
  have hhead : ∀ c ∈ u.text.head?, c.isAlpha = true := by
    intro c hc
    have halpha := h.scheme.head
    rw [Url.text_eq] at hc
    cases hs : u.scheme with
    | nil =>
      rw [hs] at halpha
      cases halpha
    | cons d ds =>
      rw [hs] at hc halpha
      obtain rfl : d = c := by simpa using hc
      exact halpha
  rw [kindOf, if_neg, if_neg, if_pos (isAbsoluteUrl_text h)]
  · exact fun hat => absurd (hhead _ hat) (by decide)
  · intro hrelative
    exact absurd (hhead _ (head_of_relative (if_pos hrelative))) (by decide)

theorem kindOf_eq_scoped (h : kindOf name = .scoped) : name.head? = some '@' := by
  rw [kindOf] at h
  split_ifs at h
  assumption

theorem absolute_of_url (h : kindOf name = .url) : isAbsoluteUrl name = true := by
  rw [kindOf] at h
  split_ifs at h
  assumption

/-- A row begins with a slash or has no empty segment. -/
theorem root_or_filled (h : IsRow rows) (hne : joined '/' rows ≠ []) :
    (∃ rest, rest ≠ [] ∧ rows = [] :: rest ∧ (joined '/' rows).head? = some '/') ∨
      (∀ s ∈ rows, s ≠ []) ∧ (joined '/' rows).head? ≠ some '/' := by
  cases rows with
  | nil => exact absurd rfl hne
  | cons s rest =>
    cases s with
    | nil =>
      have hrest : rest ≠ [] := by
        rintro rfl
        exact hne rfl
      exact .inl ⟨rest, hrest, rfl, by rw [joined_cons _ _ hrest]; rfl⟩
    | cons c s =>
      refine .inr ⟨List.forall_mem_cons.2 ⟨List.cons_ne_nil _ _, h.filled⟩, ?_⟩
      have hc : c ≠ '/' := ne_of_mem_of_not_mem List.mem_cons_self (h.apart _ List.mem_cons_self)
      cases rest with
      | nil => simpa [joined] using hc
      | cons t rest => simpa [joined] using hc

theorem not_relative (h : ∀ s ∈ segments '/' name, IsStill s) : kindOf name ≠ .relative := by
  intro hkind
  obtain ⟨s, hs, hname⟩ := exists_of_relative hkind
  have hmem : s ∈ segments '/' name := by
    have hslash : '/' ∉ s := by rcases hs with rfl | rfl <;> decide
    rcases hname with rfl | ⟨rest, rfl⟩
    · rw [segments_of_not_mem hslash]
      exact List.mem_singleton_self _
    · rw [segments_append hslash]
      exact List.mem_cons_self
  rcases hs with rfl | rfl
  · exact (h _ hmem).1 rfl
  · exact (h _ hmem).2 rfl

/-- Segments are followed as they are. -/
theorem follow_row (h : IsRow rows) (hne : joined '/' rows ≠ []) (hfilled : ∀ s ∈ rows, s ≠ [])
    (hstill : ∀ s ∈ rows, IsStill s) : follow [] (joined '/' rows) = .ok (joined '/' rows) :=
  follow_eq_ok_iff.2 ⟨rows, by
    rw [segments_row h hne, walk_still fun s hs => ⟨hfilled s hs, hstill s hs⟩, List.nil_append],
    rfl, hne⟩

/-- So are segments behind the root. -/
theorem follow_root (h : IsRow ([] :: rows)) (hrows : rows ≠ [])
    (hstill : ∀ s ∈ rows, IsStill s) :
    follow [[]] ((joined '/' ([] :: rows)).dropWhile (· = '/')) =
      .ok (joined '/' ([] :: rows)) := by
  have hname : joined '/' ([] :: rows) = '/' :: joined '/' rows := joined_cons _ _ hrows
  have hrest : segments '/' (joined '/' rows) = rows :=
    segments_joined hrows fun s hs => h.apart s (List.mem_cons_of_mem _ hs)
  have hdrop : ('/' :: joined '/' rows).dropWhile (· = '/') = joined '/' rows := by
    rw [List.dropWhile_cons_of_pos (by simp)]
    refine dropWhile_of_head fun c hc => decide_eq_false ?_
    rintro rfl
    obtain ⟨cs, hcs⟩ := List.head?_eq_some_iff.1 hc
    rw [hcs, segments, if_pos rfl] at hrest
    exact h.filled [] (hrest ▸ List.mem_cons_self) rfl
  refine follow_eq_ok_iff.2 ⟨[] :: rows, ?_, rfl, by rw [hname]; exact List.cons_ne_nil _ _⟩
  rw [hname, hdrop, hrest]
  exact walk_still fun s hs => ⟨h.filled s hs, hstill s hs⟩

theorem Settled.check (h : Settled name) (hne : name ≠ []) : check name = .ok () :=
  check_eq_ok_iff.2 ⟨hne, h.legal, fun hlast => h.closed hlast.2⟩

/-- A settled name means itself for every referrer. -/
theorem resolve_settled (h : IsName name) (hs : Settled name) (base : List Char)
    (referrer : Option (List Char)) :
    IsWellFormed name ∧ resolve base name referrer = .ok name := by
  have hne : name ≠ [] := by
    cases h with
    | @url u written =>
      intro hnil
      have := isAbsoluteUrl_text written
      rw [hnil] at this
      cases this
    | row _ nonempty => exact nonempty
  have hcheck := hs.check hne
  refine ⟨⟨hcheck, fun hkind => hs.scope (kindOf_eq_scoped hkind)⟩,
    bind_eq_ok_iff.2 ⟨(), hcheck, ?_⟩⟩
  cases h with
  | url written =>
    rw [kindOf_text written]
    dsimp only
    rw [canonicalUrl, Url.read_text written (hs.stable _ written rfl)]
  | @row rows row nonempty =>
    have habsolute := isAbsoluteUrl_row row nonempty
    have hstill := hs.still habsolute
    rw [segments_row row nonempty] at hstill
    match hkind : kindOf (joined '/' rows) with
    | .url =>
      rw [absolute_of_url hkind] at habsolute
      cases habsolute
    | .relative => exact absurd hkind (not_relative (hs.still habsolute))
    | .scoped =>
      have hat := kindOf_eq_scoped hkind
      refine bind_eq_ok_iff.2 ⟨(), hs.scope hat, ?_⟩
      rcases root_or_filled row nonempty with ⟨rest, -, rfl, hhead⟩ | ⟨hfilled, -⟩
      · rw [hat] at hhead
        cases hhead
      · exact follow_row row nonempty hfilled hstill
    | .bare =>
      dsimp only
      rcases root_or_filled row nonempty with ⟨rest, hrest, rfl, hhead⟩ | ⟨hfilled, hhead⟩
      · rw [if_pos hhead]
        exact follow_root row hrest fun s hs => hstill s (List.mem_cons_of_mem _ hs)
      · have hdrop : (joined '/' rows).dropWhile (· = '/') = joined '/' rows := by
          refine dropWhile_of_head fun c hc => decide_eq_false ?_
          rintro rfl
          exact hhead hc
        rw [if_neg hhead, hdrop]
        exact follow_row row nonempty hfilled hstill

/-! ## Names that mean themselves -/

theorem still_of_follow {dir : List (List Char)} {path : List Char} (h : IsRow dir)
    (hstill : ∀ s ∈ dir, IsStill s) (hf : follow dir path = .ok name) :
    ∀ s ∈ segments '/' name, IsStill s := by
  obtain ⟨reached, hwalk, rfl, hne⟩ := follow_eq_ok_iff.1 hf
  rw [segments_row (isRow_walk h (fun _ => not_mem_of_mem_segments) hwalk) hne]
  exact isStill_walk hstill hwalk

/-- A name that means itself for every referrer is settled, unless it is the URL of a local file. -/
theorem settled_of_resolve (hfile : startsWith "file:".toList name = false)
    (h : ∀ referrer, resolve base name referrer = .ok name) : Settled name := by
  have hroot : IsRow [[]] := ⟨by simp, by simp⟩
  have hnone : IsRow [] := ⟨List.forall_mem_nil _, List.forall_mem_nil _⟩
  obtain ⟨_, hcheck, halone⟩ := bind_eq_ok_iff.1 (h none)
  obtain ⟨_, -, hwithin⟩ := bind_eq_ok_iff.1 (h (some ['a']))
  obtain ⟨hne, hlegal, hclosed⟩ := check_eq_ok_iff.1 hcheck
  refine ⟨hlegal, fun hlast => ?_, fun hat => ?_, fun habsolute => ?_, ?_⟩
  · have hslash : name = ['/'] := by
      obtain ⟨front, rfl⟩ := List.getLast?_eq_some_iff.1 hlast
      cases front with
      | nil => rfl
      | cons c front => exact absurd ⟨by simp, hlast⟩ hclosed
    have hempty : resolve base ['/'] none = .error .emptyName := rfl
    have hself := h none
    rw [hslash, hempty] at hself
    cases hself
  · have hkind : kindOf name = .scoped := by
      rw [kindOf, if_neg, if_pos hat]
      intro hrelative
      have hpoint := head_of_relative (if_pos hrelative)
      rw [hat] at hpoint
      cases hpoint
    rw [hkind] at halone
    obtain ⟨_, hform, -⟩ := bind_eq_ok_iff.1 halone
    exact hform
  · match hkind : kindOf name with
    | .url =>
      rw [absolute_of_url hkind] at habsolute
      cases habsolute
    | .relative =>
      rw [hkind] at hwithin
      exact still_of_follow hnone (List.forall_mem_nil _) hwithin
    | .scoped =>
      rw [hkind] at halone
      obtain ⟨_, -, halone⟩ := bind_eq_ok_iff.1 halone
      exact still_of_follow hnone (List.forall_mem_nil _) halone
    | .bare =>
      simp only [hkind] at halone
      split at halone
      · exact still_of_follow hroot (by decide) halone
      · exact still_of_follow hnone (List.forall_mem_nil _) halone
  · rintro u written rfl
    have hf : Url.isFile u.scheme = false := by
      rw [Bool.eq_false_iff]
      intro hf
      have hscheme : u.scheme = "file".toList := of_decide_eq_true hf
      have hstart : startsWith "file:".toList u.text = true :=
        Option.isSome_iff_exists.2 ⟨_, dropStart?_eq_some_iff.2 (by
          rw [Url.text_eq, hscheme]
          rfl)⟩
      rw [hfile] at hstart
      cases hstart
    simp only [kindOf_text written, canonicalUrl] at halone
    split at halone
    · rename_i v hread
      exact Url.stable_of_read_text written hf hread (Except.ok.inj halone)
    · cases halone

end Settled

/-! ## Canonical names -/

/-- What specifiers mean under the empty package map, alone or for a referrer that is such a name
itself. -/
inductive IsCanonical (baseName : String) : String → Prop where
  | alone {specifier name : String} (means : normalize baseName .empty specifier none = .ok name) :
      IsCanonical baseName name
  | within {specifier referrer name : String} (canonical : IsCanonical baseName referrer)
      (means : normalize baseName .empty specifier (some referrer) = .ok name) :
      IsCanonical baseName name

section Canonical

variable {baseName name : String}

theorem apply_empty (name : String) (referrer : Option String) :
    PackageMap.empty.apply name referrer = .ok name := by
  cases referrer <;> rfl

theorem normalize_empty_eq_ok_iff {specifier : String} {referrer : Option String} :
    normalize baseName .empty specifier referrer = .ok name ↔
      resolve baseName.toList specifier.toList (referrer.map String.toList) = .ok name.toList := by
  rw [normalize]
  split
  · rename_i cause hresolve
    rw [hresolve]
    exact ⟨fun h => (nomatch h), fun h => (nomatch h)⟩
  · rename_i cs hresolve
    rw [hresolve, apply_empty, Except.ok.injEq, Except.ok.injEq]
    constructor
    · rintro rfl
      exact String.toList_ofList.symm
    · rintro rfl
      exact String.ofList_toList

theorem normalize_empty_eq_error_iff {specifier : String} {referrer : Option String}
    {cause : ResolutionCause} :
    normalize baseName .empty specifier referrer = .error (.resolution specifier cause) ↔
      resolve baseName.toList specifier.toList (referrer.map String.toList) = .error cause := by
  rw [normalize]
  split
  · rename_i hresolve
    rw [hresolve]
    simp [throw, throwThe, MonadExceptOf.throw]
  · rename_i cs hresolve
    rw [hresolve, apply_empty]
    exact ⟨fun h => (nomatch h), fun h => (nomatch h)⟩

theorem IsCanonical.isName (h : IsCanonical baseName name) : IsName name.toList := by
  induction h with
  | alone means => exact isName_resolve (by simp) (normalize_empty_eq_ok_iff.1 means)
  | within _ means ih =>
    refine isName_resolve (fun r hr => ?_) (normalize_empty_eq_ok_iff.1 means)
    obtain rfl := Option.some.inj hr
    exact ih

/-- A settled canonical name has the form of a specifier and means itself for every referrer. Only
settled names do, at least of those that are no URLs of local files. -/
theorem canonical_name_means_itself (h : IsCanonical baseName name) :
    (Settled name.toList → IsWellFormed name.toList ∧
      ∀ referrer, normalize baseName .empty name referrer = .ok name) ∧
    (startsWith "file:".toList name.toList = false →
      (∀ referrer, normalize baseName .empty name referrer = .ok name) → Settled name.toList) := by
  refine ⟨fun hs => ⟨(resolve_settled h.isName hs [] none).1, fun referrer =>
    normalize_empty_eq_ok_iff.2 (resolve_settled h.isName hs _ _).2⟩, fun hfile hself => ?_⟩
  have hresolve (referrer : Option (List Char)) :
      resolve baseName.toList name.toList referrer = .ok name.toList := by
    have := normalize_empty_eq_ok_iff.1 (hself (referrer.map String.ofList))
    rwa [Option.map_map, show String.toList ∘ String.ofList = id from
      funext fun _ => String.toList_ofList, Option.map_id] at this
  exact settled_of_resolve hfile hresolve

/-- A name of two segments means itself, and so does a URL with a path. -/
theorem canonical_name_means_itself_filed :
    (Settled "lib/x".toList ∧ IsWellFormed "lib/x".toList ∧
      ∀ referrer, normalize "" .empty "lib/x" referrer = .ok "lib/x") ∧
    Settled "http://example.org/a".toList := by
  have hlib : IsCanonical "" "lib/x" :=
    .within (.alone (normalize_empty_eq_ok_iff.2 (show resolve "".toList "lib//a".toList none =
      .ok "lib/a".toList from rfl)))
      (normalize_empty_eq_ok_iff.2 (show resolve "".toList "./x".toList (some "lib/a".toList) =
        .ok "lib/x".toList from rfl))
  have hurl (base : String) (referrer : Option String) :
      normalize base .empty "http://example.org/a" referrer = .ok "http://example.org/a" :=
    normalize_empty_eq_ok_iff.2 rfl
  have hsettled : Settled "lib/x".toList := by
    refine ⟨forall_mem_of_all (by decide), by decide, by decide, fun _ => by decide,
      fun u written htext => ?_⟩
    have := isAbsoluteUrl_text written
    rw [htext] at this
    cases this
  exact ⟨⟨hsettled, (canonical_name_means_itself hlib).1 hsettled⟩,
    (canonical_name_means_itself (.alone (hurl "" none))).2 (by decide) (hurl "")⟩

/-- A base name of two points is accepted, and the names it leads to are relative. The text of a URL
without a path ends with a slash, which no specifier may. -/
theorem canonical_name_moves :
    ({ Options.default with baseName := ".." }.check =
      .ok { Options.default with baseName := ".." } ∧ IsCanonical ".." "../x" ∧
      normalize ".." .empty "../x" none = .ok "x") ∧
    (Options.default.check = .ok Options.default ∧
      IsCanonical Options.default.baseName "http://example.org/" ∧
      ¬IsWellFormed "http://example.org/".toList) := by
  refine ⟨⟨rfl, @IsCanonical.alone _ "./x" _ (normalize_empty_eq_ok_iff.2 rfl),
    normalize_empty_eq_ok_iff.2 rfl⟩, rfl,
    @IsCanonical.alone _ "http://example.org" _ (normalize_empty_eq_ok_iff.2 rfl), fun h => ?_⟩
  exact (check_eq_ok_iff.1 h.1).2.2 (by decide)

end Canonical

end ModuleLoader.Specifier
