import ModuleLoader.Url.Parser
import ModuleLoader.Proofs.Domain.AsciiNames
import ModuleLoader.Proofs.Url.Addresses
import ModuleLoader.Proofs.Url.Encoding

/-! # Written hosts

The text of a host that was read ends where the authority goes on, and is read as the host again. A
domain name has to be its own form in ASCII for that.
-/

namespace ModuleLoader.Url

open Text Domain

/-- The hosts that are read, in URLs of special schemes and of others. -/
inductive IsHost : Bool → Host → Prop where
  | domain {cs : List Char} (nonempty : cs ≠ []) (chars : ∀ c ∈ cs, IsNameChar c)
      (named : endsInNumber cs = false) : IsHost true (.name cs)
  | name {cs : List Char} (chars : ∀ c ∈ cs, IsVisible c ∧ forbiddenHost c = false) :
      IsHost false (.name cs)
  | ipv4 {address : ℕ} (bound : address < 2 ^ 32) : IsHost true (.ipv4 address)
  | ipv6 {special : Bool} {pieces : List ℕ} (eight : pieces.length = 8)
      (bound : ∀ p ∈ pieces, p < 65536) : IsHost special (.ipv6 pieces)

/-- Whether a host is no domain name other than its own form in ASCII. -/
def IsOwnForm (host : Host) : Prop := ∀ cs ≠ [], host = .name cs → toAscii? cs = some cs

/-! ## Characters of hosts -/

theorem isVisible_of_isNameChar {c : Char} (h : IsNameChar c) :
    IsVisible c ∧ forbiddenHost c = false ∧ c ≠ '%' :=
  forall_ascii (P := fun c => isForbidden c = false →
    IsVisible c ∧ forbiddenHost c = false ∧ c ≠ '%') (by decide +kernel) h.1 h.2

theorem isVisible_of_mem_hexDigits {c : Char} (h : c ∈ ':' :: hexDigits) :
    IsVisible c ∧ c ∉ ['/', '\\', '?', '#', '@', '[', ']'] := by
  have hall : ∀ c ∈ ':' :: hexDigits, IsVisible c ∧ c ∉ ['/', '\\', '?', '#', '@', '[', ']'] :=
    forall_mem_of_all (by decide +kernel)
  exact hall c h

theorem isNameChar_of_isDigit {c : Char} (h : c.isDigit = true) :
    IsNameChar c ∧ c.toLower = c := by
  have hlt : c.toNat < 128 := by
    simp only [Char.isDigit, Bool.and_eq_true, decide_eq_true_eq] at h
    have : c.toNat ≤ 57 := h.2
    omega
  exact forall_ascii (P := fun c => c.isDigit = true →
    (c.toNat < 128 ∧ isForbidden c = false) ∧ c.toLower = c) (by decide +kernel) hlt h

theorem isNameChar_ipv4Text {address : ℕ} {c : Char} (h : c ∈ ipv4Text address) :
    IsNameChar c ∧ c.toLower = c := by
  rcases mem_ipv4Text h with rfl | hd
  · exact ⟨⟨by decide, by decide +kernel⟩, rfl⟩
  · exact isNameChar_of_isDigit hd

/-- The characters that end a host or the authority, or name a drive. -/
def stops : List Char := ['/', '\\', '?', '#', ':', '@', '[', ']', '|']

theorem not_mem_stops {c : Char} (h : forbiddenHost c = false) : c ∉ stops := by
  intro hm
  have hall : ∀ c ∈ stops, forbiddenHost c = true := forall_mem_of_all (by decide +kernel)
  rw [hall c hm] at h
  cases h

theorem plain_hostText_domain {cs : List Char} (h : ∀ c ∈ cs, IsNameChar c) : Plain stops cs :=
  fun c hc => ⟨(isVisible_of_isNameChar (h c hc)).1,
    not_mem_stops (isVisible_of_isNameChar (h c hc)).2.1⟩

/-- The text of a host has none of the characters that end it, unless it is in brackets. -/
theorem IsHost.plain_or {special : Bool} {host : Host} (h : IsHost special host) :
    Plain stops (hostText host) ∨ ∃ cs, hostText host = '[' :: (cs ++ [']']) ∧
      ∀ c ∈ cs, IsVisible c ∧ c ∉ ['/', '\\', '?', '#', '@', '[', ']'] := by
  cases h with
  | domain _ chars _ => exact .inl (plain_hostText_domain chars)
  | name chars => exact .inl fun c hc => ⟨(chars c hc).1, not_mem_stops (chars c hc).2⟩
  | ipv4 _ => exact .inl (plain_hostText_domain fun c hc => (isNameChar_ipv4Text hc).1)
  | @ipv6 _ pieces _ _ =>
    exact .inr ⟨ipv6Text pieces, rfl, fun c hc => isVisible_of_mem_hexDigits (mem_ipv6Text hc)⟩

/-- The text of a host has none of the characters that end the authority, and no user. -/
theorem IsHost.plain {special : Bool} {host : Host} (h : IsHost special host) :
    Plain ['/', '\\', '?', '#', '@'] (hostText host) := by
  rcases h.plain_or with hp | ⟨cs, htext, hcs⟩
  · exact hp.mono (by decide)
  · rw [htext]
    intro c hc
    rw [List.mem_cons, List.mem_append, List.mem_singleton] at hc
    rcases hc with rfl | hc | rfl
    · exact ⟨by decide, by decide⟩
    · exact ⟨(hcs c hc).1, fun hm => (hcs c hc).2 (by simp_all)⟩
    · exact ⟨by decide, by decide⟩

/-- Only a host without a name has no text. -/
theorem IsHost.eq_of_hostText_nil {special : Bool} {host : Host} (h : IsHost special host)
    (hnil : hostText host = []) : special = false ∧ host = .name [] := by
  cases h with
  | domain nonempty _ _ => exact absurd hnil nonempty
  | name _ => exact ⟨rfl, congrArg Host.name hnil⟩
  | @ipv4 address _ =>
    have := endsInNumber_ipv4Text address
    rw [show ipv4Text address = [] from hnil] at this
    exact absurd this (by decide)
  | ipv6 _ _ => cases hnil

theorem IsHost.namesDrive_false {special : Bool} {host : Host} (h : IsHost special host) :
    namesDrive (hostText host) = false := by
  rw [Bool.eq_false_iff]
  intro hd
  rw [namesDrive.eq_def] at hd
  split at hd
  · rename_i c d htext
    simp only [Bool.and_eq_true, Bool.or_eq_true, decide_eq_true_eq] at hd
    rcases h.plain_or with hp | ⟨cs, hcs, -⟩
    · have := (hp d (by simp [htext])).2
      rcases hd.2 with rfl | rfl <;> exact this (by decide)
    · rw [htext] at hcs
      rw [(List.cons_eq_cons.1 hcs).1] at hd
      exact absurd hd.1 (by decide)
  · cases hd

/-! ## Where hosts end -/

theorem endsAuthority_false {special : Bool} {c : Char} (h : c ∉ ['/', '\\', '?', '#']) :
    endsAuthority special c = false := by
  simp only [List.mem_cons, List.not_mem_nil, or_false, not_or] at h
  simp [endsAuthority, isSlash, endsPath, h]

theorem cutHost_plain {special bracket : Bool} {cs rest : List Char}
    (hcs : ∀ c ∈ cs, c ∉ ['/', '\\', '?', '#', '[', ']'] ∧ (c = ':' → bracket = true)) :
    cutHost special bracket (cs ++ rest) =
      (cs ++ (cutHost special bracket rest).1, (cutHost special bracket rest).2) := by
  induction cs with
  | nil => rfl
  | cons c cs ih =>
    obtain ⟨⟨hc, hcolon⟩, hcs⟩ := List.forall_mem_cons.1 hcs
    have hends : endsAuthority special c = false := endsAuthority_false fun hm => hc (by simp_all)
    have hgo : ¬((c = ':' ∧ !bracket) ∨ endsAuthority special c = true) := by
      rw [hends]
      rintro (⟨h, hb⟩ | h)
      · rw [hcolon h] at hb
        cases hb
      · cases h
    simp only [List.mem_cons, List.not_mem_nil, or_false, not_or] at hc
    rw [List.cons_append, cutHost, if_neg hgo]
    dsimp only
    rw [if_neg hc.2.2.2.2.1, if_neg hc.2.2.2.2.2, ih hcs]
    rfl

/-- A host ends where its text does, if the authority ends there or its number follows. -/
theorem cutHost_hostText {special : Bool} {host : Host} (h : IsHost special host)
    {rest : List Char} (hrest : ∀ c ∈ rest.head?, c = ':' ∨ endsAuthority special c = true) :
    cutHost special false (hostText host ++ rest) = (hostText host, rest) := by
  have hstop : cutHost special false rest = ([], rest) := by
    cases rest with
    | nil => rfl
    | cons c rest =>
      rw [cutHost, if_pos]
      simpa using hrest c rfl
  rcases h.plain_or with hp | ⟨cs, htext, hcs⟩
  · rw [cutHost_plain, hstop, List.append_nil]
    intro c hc
    exact ⟨fun hm => (hp c hc).2 (by simp [stops] at *; tauto),
      fun heq => absurd (heq ▸ List.mem_of_elem_eq_true rfl) (hp c hc).2⟩
  · have hopen : endsAuthority special '[' = false := endsAuthority_false (by decide)
    have hclose : endsAuthority special ']' = false := endsAuthority_false (by decide)
    have hinner : ∀ c ∈ cs, c ∉ ['/', '\\', '?', '#', '[', ']'] ∧ (c = ':' → true = true) :=
      fun c hc => ⟨fun hm => (hcs c hc).2 (by simp at *; tauto), fun _ => rfl⟩
    rw [htext, List.cons_append, List.append_assoc, cutHost, hopen, if_neg (by decide)]
    dsimp only
    rw [if_pos rfl, cutHost_plain hinner, List.singleton_append, cutHost, hclose,
      if_neg (by decide)]
    dsimp only
    rw [if_neg (by decide), if_pos rfl, hstop]

/-! ## Reading hosts -/

theorem isHost_bracketedHost {special : Bool} {cs : List Char} {host : Host}
    (h : bracketedHost cs = .ok host) : IsHost special host := by
  rw [bracketedHost] at h
  split at h
  · split at h
    · rename_i pieces hp
      cases h
      exact .ipv6 (ipv6?_spec hp).1 (ipv6?_spec hp).2
    · cases h
  · cases h

theorem isHost_readHost {cs : List Char} {host : Host} (h : readHost cs = .ok host) :
    IsHost true host := by
  rw [readHost] at h
  split at h
  · exact isHost_bracketedHost h
  · split at h
    · cases h
    · rename_i name hname
      obtain ⟨text, -, htext⟩ := Option.bind_eq_some_iff.1 hname
      split at h
      · cases h
      · rename_i hne
        split at h
        · split at h
          · rename_i address haddress
            cases h
            obtain ⟨numbers, -, hnumbers⟩ := Option.bind_eq_some_iff.1 haddress
            exact .ipv4 (ipv4OfNumbers?_lt hnumbers)
          · cases h
        · rename_i hnumber
          cases h
          exact .domain hne (isNameChar_toAscii? htext) (Bool.eq_false_iff.2 hnumber)

theorem isHost_readOpaqueHost {cs : List Char} {host : Host} (h : readOpaqueHost cs = .ok host) :
    IsHost false host := by
  rw [readOpaqueHost] at h
  split at h
  · exact isHost_bracketedHost h
  · split at h
    · cases h
    · rename_i hf
      cases h
      refine .name fun c hc => ?_
      rcases mem_encode hc with hb | ⟨hm, hge, hle, -⟩
      · have hall : ∀ c ∈ byteChars, IsVisible c ∧ forbiddenHost c = false :=
          forall_mem_of_all (by decide +kernel)
        exact hall c hb
      · rw [List.any_eq_true] at hf
        have hc : forbiddenHost c = false := by
          rw [Bool.eq_false_iff]
          exact fun hc => hf ⟨c, hm, hc⟩
        have hne : c.toNat ≠ 32 := by
          intro h
          rw [show c = ' ' from Char.toNat_inj.1 h] at hc
          revert hc
          decide
        exact ⟨⟨by omega, by omega⟩, hc⟩

theorem eq_nil_of_readOpaqueHost {cs : List Char} (h : readOpaqueHost cs = .ok (.name [])) :
    cs = [] := by
  rw [readOpaqueHost] at h
  split at h
  · have hhost : IsHost true (.name []) := isHost_bracketedHost h
    cases hhost with
    | domain nonempty _ _ => exact absurd rfl nonempty
  · split at h
    · cases h
    · cases cs with
      | nil => rfl
      | cons c cs =>
        simp only [encode, List.flatMap_cons, Except.ok.injEq, Host.name.injEq,
          List.append_eq_nil_iff] at h
        obtain ⟨h, -⟩ := h
        split at h
        · obtain ⟨b, bs, hb⟩ := List.exists_cons_of_ne_nil (String.utf8EncodeChar_ne_nil (c := c))
          simp [utf8, hb, encodeByte] at h
        · cases h

theorem bracketedHost_ipv6Text {pieces : List ℕ} (hlen : pieces.length = 8)
    (h : ∀ p ∈ pieces, p < 65536) :
    bracketedHost (hostText (.ipv6 pieces)) = .ok (.ipv6 pieces) := by
  have hlast : (hostText (.ipv6 pieces)).getLast? = some ']' := by
    rw [hostText, ← List.cons_append, List.getLast?_concat]
  have hinner : ((hostText (.ipv6 pieces)).drop 1).dropLast = ipv6Text pieces := by
    rw [hostText, List.drop_one, List.tail_cons, List.dropLast_concat]
  rw [bracketedHost, if_pos hlast, hinner, ipv6?_ipv6Text hlen h]

/-- An address of 32 bits is a name in ASCII. -/
theorem isSimple_ipv4Text (address : ℕ) : IsSimple (ipv4Text address) where
  chars _ hc := (isNameChar_ipv4Text hc).1
  lower _ hc := (isNameChar_ipv4Text hc).2
  labels s hs rest heq := by
    rw [segments_ipv4Text] at hs
    obtain ⟨b, -, hb⟩ := List.mem_map.1 hs
    have hx : 'x' ∈ Nat.toDigits 10 b := by
      rw [hb, heq]
      exact List.mem_append_left _ (by decide)
    have := Nat.isDigit_of_mem_toDigits (by decide) (by decide) hx
    contradiction

theorem readHost_domain {cs : List Char} (hchars : ∀ c ∈ cs, IsNameChar c)
    (hown : toAscii? cs = some cs) (hne : cs ≠ []) :
    readHost cs = if endsInNumber cs then
      match ipv4? cs with
      | some address => .ok (.ipv4 address)
      | none => .error .invalidIpv4
    else .ok (.name cs) := by
  have hbracket : cs.head? ≠ some '[' := fun h =>
    (plain_hostText_domain hchars).not_mem (by decide) (List.mem_of_head? h)
  have hpercent : '%' ∉ cs := fun h => (isVisible_of_isNameChar (hchars _ h)).2.2 rfl
  rw [readHost, if_neg hbracket, decode_of_not_mem hpercent, ofUtf8?_utf8, Option.bind_some, hown]
  exact if_neg hne

/-- A host is read from its text. -/
theorem readHost_hostText {host : Host} (h : IsHost true host) (hown : IsOwnForm host) :
    readHost (hostText host) = .ok host := by
  cases h with
  | @domain cs nonempty chars named =>
    rw [hostText, readHost_domain chars (hown cs nonempty rfl) nonempty, named,
      if_neg Bool.false_ne_true]
  | @ipv4 address bound =>
    have hne : ipv4Text address ≠ [] := fun hnil =>
      absurd ((IsHost.ipv4 bound).eq_of_hostText_nil hnil).1 (by decide)
    have hsimple := isSimple_ipv4Text address
    rw [hostText, readHost_domain hsimple.chars hsimple.toAscii? hne, endsInNumber_ipv4Text,
      if_pos rfl, ipv4?_ipv4Text bound]
  | ipv6 eight bound => exact (if_pos rfl).trans (bracketedHost_ipv6Text eight bound)

/-- A domain name that is read as it is written is its own form. -/
theorem isOwnForm_of_readHost {host read : Host} (h : IsHost true host)
    (hread : readHost (hostText host) = .ok read) (htext : hostText read = hostText host) :
    IsOwnForm host := by
  rintro cs hne rfl
  cases h with
  | domain _ chars named =>
    have hbracket : cs.head? ≠ some '[' := fun h =>
      (plain_hostText_domain chars).not_mem (by decide) (List.mem_of_head? h)
    have hpercent : '%' ∉ cs := fun h => (isVisible_of_isNameChar (chars _ h)).2.2 rfl
    rw [hostText, readHost, if_neg hbracket, decode_of_not_mem hpercent, ofUtf8?_utf8,
      Option.bind_some] at hread
    cases hname : toAscii? cs with
    | none =>
      rw [hname] at hread
      cases hread
    | some name =>
      rw [hname] at hread
      dsimp only at hread
      split_ifs at hread with hnil hnumber
      · split at hread
        · cases hread
          have := endsInNumber_ipv4Text ‹ℕ›
          rw [show ipv4Text _ = cs from htext, named] at this
          cases this
        · cases hread
      · cases hread
        exact congrArg some htext

theorem readOpaqueHost_hostText {host : Host} (h : IsHost false host) :
    readOpaqueHost (hostText host) = .ok host := by
  cases h with
  | @name cs chars =>
    have hbracket : cs.head? ≠ some '[' := by
      intro h
      have := (chars _ (List.mem_of_head? h)).2
      revert this
      decide
    have hany : cs.any forbiddenHost = false := by
      rw [List.any_eq_false]
      intro c hc
      simp [(chars c hc).2]
    have hplain : Plain [] cs := fun c hc => ⟨(chars c hc).1, List.not_mem_nil⟩
    rw [hostText, readOpaqueHost, if_neg hbracket, hany, if_neg Bool.false_ne_true,
      encode_plain hplain]
  | ipv6 eight bound => exact (if_pos rfl).trans (bracketedHost_ipv6Text eight bound)

end ModuleLoader.Url
