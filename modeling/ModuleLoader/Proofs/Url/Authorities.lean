import ModuleLoader.Proofs.Results
import ModuleLoader.Proofs.Url.Parts

/-! # Reading authorities

What an authority that is read is made of. The parts of a URL are found again in its text.
-/

namespace ModuleLoader.Url

open Text

/-! ## Numbers -/

/-- Read the number of a host, if there is one. -/
def readNumber (scheme rest : List Char) : Except UrlError (Option ℕ × List Char) :=
  match rest with
  | ':' :: digits => readPortNumber scheme digits
  | _ => .ok (none, rest)

theorem readNumber_spec {scheme cs rest : List Char} {number : Option ℕ}
    (h : readNumber scheme cs = .ok (number, rest)) : ∀ p ∈ number,
      cs.head? = some ':' ∧ p ≤ 65535 ∧ defaultPortNumber? scheme ≠ some p := by
  intro p hp
  rw [readNumber.eq_def] at h
  split at h
  · rename_i digits
    rw [readPortNumber] at h
    split_ifs at h with hgo hnone
    · cases h
      cases hp
    · cases h
      cases hp
      rw [not_or] at hgo hnone
      exact ⟨rfl, by omega, hnone.2⟩
  · cases h
    cases hp

/-- A number is read as it is written, in front of what ends an authority. -/
theorem readNumber_portPart {u : Url} {rest : List Char}
    (h : ∀ p ∈ u.portNumber, p ≤ 65535 ∧ defaultPortNumber? u.scheme ≠ some p)
    (hrest : ∀ c ∈ rest.head?, endsAuthority true c = true) :
    readNumber u.scheme (u.portPart ++ rest) = .ok (u.portNumber, rest) := by
  rw [portPart]
  cases hu : u.portNumber with
  | none =>
    have hcolon (digits : List Char) (hd : rest = ':' :: digits) : False := by
      have := hrest ':' (by rw [hd]; rfl)
      revert this
      decide
    rw [List.nil_append, readNumber.eq_def]
    split
    · exact absurd rfl (hcolon _)
    · rfl
  | some p =>
    obtain ⟨hle, hdefault⟩ := h p hu
    have hdigits : ∀ c ∈ Nat.toDigits 10 p, c.isDigit = true :=
      fun c hc => Nat.isDigit_of_mem_toDigits (by decide) (by decide) hc
    have hstop : ∀ c ∈ rest.head?, c.isDigit = false := by
      intro c hc
      have := hrest c hc
      simp only [endsAuthority, endsPath, isSlash, Bool.or_eq_true, decide_eq_true_eq,
        Bool.true_and] at this
      rcases this with (rfl | rfl) | rfl | rfl <;> rfl
    have hvalue : (Nat.toDigits 10 p).foldl (fun n c => 10 * n + (c.toNat - 48)) 0 = p :=
      Nat.ofDigitChars_ten_toDigits
    have hkeep : ¬(Nat.toDigits 10 p = [] ∨ defaultPortNumber? u.scheme = some p) := by
      rintro (hnil | hp)
      · exact Nat.toDigits_ne_nil hnil
      · exact hdefault hp
    rw [List.cons_append, readNumber, readPortNumber, takeWhile_append_stop hdigits hstop,
      dropWhile_append_stop hdigits hstop, hvalue, if_neg hkeep, if_neg]
    rintro (hlt | hended)
    · omega
    · cases rest with
      | nil => cases hended
      | cons c rest =>
        have hc : (isSlash true c || endsPath c) = true := hrest c rfl
        simp [hc] at hended

/-! ## Users -/

theorem cutUser?_none {special : Bool} {cs rest : List Char}
    (hcs : ∀ c ∈ cs, endsAuthority special c = false ∧ c ≠ '@')
    (hrest : ∀ c ∈ rest.head?, endsAuthority special c = true) :
    cutUser? special (cs ++ rest) = none := by
  have hgo : ∀ c ∈ cs, (!endsAuthority special c) = true := fun c hc => by rw [(hcs c hc).1]; rfl
  have hstop : ∀ c ∈ rest.head?, (!endsAuthority special c) = false := fun c hc => by
    rw [hrest c hc]; rfl
  rw [cutUser?, takeWhile_append_stop hgo hstop, if_neg]
  simpa using fun hm => (hcs _ hm).2 rfl

theorem cutUser?_some {special : Bool} {user cs rest : List Char}
    (huser : ∀ c ∈ user, endsAuthority special c = false)
    (hcs : ∀ c ∈ cs, endsAuthority special c = false ∧ c ≠ '@')
    (hrest : ∀ c ∈ rest.head?, endsAuthority special c = true) :
    cutUser? special (user ++ '@' :: (cs ++ rest)) = some (user, cs ++ rest) := by
  have hgo : ∀ c ∈ user ++ '@' :: cs, (!endsAuthority special c) = true := by
    intro c hc
    rw [List.mem_append, List.mem_cons] at hc
    rcases hc with hc | rfl | hc
    · rw [huser c hc]; rfl
    · cases special <;> rfl
    · rw [(hcs c hc).1]; rfl
  have hstop : ∀ c ∈ rest.head?, (!endsAuthority special c) = false := fun c hc => by
    rw [hrest c hc]; rfl
  have htake : (user ++ '@' :: (cs ++ rest)).takeWhile (!endsAuthority special ·) =
      user ++ '@' :: cs := by
    have := takeWhile_append_stop hgo hstop
    rwa [List.append_assoc] at this
  have hbehind : ((user ++ '@' :: cs).reverse.takeWhile (· ≠ '@')).reverse = cs := by
    rw [List.reverse_append, List.reverse_cons, List.append_assoc,
      takeWhile_append_stop (fun c hc => by simpa using (hcs c (List.mem_reverse.1 hc)).2)
        (by simp), List.reverse_reverse]
  have hlen : (user ++ '@' :: cs).length - cs.length - 1 = user.length := by
    rw [List.length_append, List.length_cons]
    omega
  rw [cutUser?, htake, if_pos (by simp)]
  dsimp only
  rw [hbehind, hlen, List.take_left, ← List.drop_drop, List.drop_left]
  rfl

/-! ## Authorities -/

/-- What an authority and what follows it are read as. -/
theorem readAuthority_eq_ok_iff {scheme cs user place username name behind : List Char}
    {password : Option (List Char)} {u : Url}
    (hplace : (cutUser? (isSpecial scheme) cs).getD ([], cs) = (user, place))
    (huser : cutFirst ':' user = (username, password))
    (hname : cutHost (isSpecial scheme) false place = (name, behind)) :
    readAuthority scheme cs = .ok u ↔
      ¬((cutUser? (isSpecial scheme) cs).isSome ∧ user = [] ∧
        place.head?.any (endsAuthority (isSpecial scheme))) ∧
      ¬(isSpecial scheme ∧ name = []) ∧
      ∃ host, (if isSpecial scheme then readHost name else readOpaqueHost name) = .ok host ∧
      ¬(name = [] ∧ behind.head? = some ':') ∧
      ∃ number rest, readNumber scheme behind = .ok (number, rest) ∧
      ¬(name = [] ∧ (username ≠ [] ∨ password.getD [] ≠ [])) ∧
      (readPath ⟨scheme, encode userSet username, encode userSet (password.getD []), host, number,
        [], none, none⟩ (writeWhole scheme) rest).1 = u := by
  have hhost {f : Host → Except UrlError Url} (name : List Char) :
      (if isSpecial scheme then readHost name >>= f else readOpaqueHost name >>= f) =
        (if isSpecial scheme then readHost name else readOpaqueHost name) >>= f := by
    split <;> rfl
  simp only [readAuthority, hplace, huser, hname, guarded_eq_ok_iff, hhost, bind_eq_ok_iff,
    readNumber.eq_def]
  refine and_congr_right fun _ => and_congr_right fun _ => exists_congr fun host =>
    and_congr_right fun _ => and_congr_right fun _ => ?_
  split
  · simp only [bind_eq_ok_iff, guarded_eq_ok_iff, Prod.exists]
    exact exists_congr fun number => exists_congr fun rest => by simp [pure, Except.pure]
  · simp only [bind_eq_ok_iff, guarded_eq_ok_iff, Prod.exists]
    exact exists_congr fun number => exists_congr fun rest => by simp [pure, Except.pure]

theorem cutFirst_userText {username password : List Char} (h : ':' ∉ username) :
    ∃ password?, cutFirst ':' (userText username password) = (username, password?) ∧
      password?.getD [] = password := by
  rw [userText, cutFirst_append h]
  split
  · rename_i hnil
    exact ⟨none, by simp [cutFirst], hnil.symm⟩
  · exact ⟨some password, by simp [cutFirst], rfl⟩

/-- An authority that is read is written as it stays. -/
theorem written_readAuthority {scheme cs : List Char} {u : Url} (hs : IsScheme scheme)
    (hl : ∀ c ∈ scheme, c.toLower = c) (hf : isFile scheme = false)
    (h : readAuthority scheme cs = .ok u) : Written u := by
  rcases hplace : (cutUser? (isSpecial scheme) cs).getD ([], cs) with ⟨user, place⟩
  rcases huser : cutFirst ':' user with ⟨username, password⟩
  rcases hname : cutHost (isSpecial scheme) false place with ⟨name, behind⟩
  obtain ⟨-, -, host, hread, hcolon, number, rest, hnumber, hbare, rfl⟩ :=
    (readAuthority_eq_ok_iff hplace huser hname).1 h
  have hhost : IsHost (isSpecial scheme) host := by
    cases hsp : isSpecial scheme with
    | true => exact isHost_readHost (by simpa [hsp] using hread)
    | false => exact isHost_readOpaqueHost (by simpa [hsp] using hread)
  have hnumbers := readNumber_spec hnumber
  have hnameless : host = .name [] → name = [] := by
    rintro rfl
    cases hsp : isSpecial scheme with
    | true =>
      rw [hsp] at hhost
      cases hhost with
      | domain nonempty _ _ => exact absurd rfl nonempty
    | false => exact eq_nil_of_readOpaqueHost (by simpa [hsp] using hread)
  refine Addressed.readPath ⟨hs, hl, plain_user _, plain_user _, .inl hhost,
    fun p hp => (hnumbers p hp).2, ?_, fun hfile => ?_⟩ (isPathOf_writeWhole scheme) rest
  · rintro (hfile | hnil)
    · rw [hf] at hfile
      cases hfile
    · have hn := hnameless hnil
      have hempty : username = [] ∧ password.getD [] = [] := by
        by_contra hne
        exact hbare ⟨hn, by tauto⟩
      dsimp only
      rw [hempty.1, hempty.2]
      refine ⟨rfl, rfl, ?_⟩
      rw [Option.eq_none_iff_forall_not_mem]
      exact fun p hp => hcolon ⟨hn, (hnumbers p hp).1⟩
  · rw [hf] at hfile
    cases hfile

theorem plain_portPart (u : Url) : Plain ['/', '\\', '?', '#', '@'] u.portPart := by
  rw [portPart]
  split
  · rename_i p _
    refine List.forall_mem_cons.2 ⟨by decide, fun c hc => ?_⟩
    have hd := Nat.isDigit_of_mem_toDigits (by decide) (by decide) hc
    have hname := isVisible_of_isNameChar (isNameChar_of_isDigit hd).1
    exact ⟨hname.1, fun hm => not_mem_stops hname.2.1 (by simp [stops] at *; tauto)⟩
  · exact plain_nil _

theorem plain_userText {username password : List Char} (hu : Plain userSet username)
    (hp : Plain userSet password) : Plain ['/', '\\', '?', '#'] (userText username password) := by
  have hset : ['/', '\\', '?', '#'] ⊆ userSet := by decide
  rw [userText]
  refine (hu.mono hset).append ?_
  split
  · exact plain_nil _
  · exact List.forall_mem_cons.2 ⟨by decide, hp.mono hset⟩

theorem plain_userPart {u : Url} (hu : Plain userSet u.username) (hp : Plain userSet u.password) :
    Plain ['/', '\\', '?', '#'] u.userPart := by
  rw [userPart]
  split
  · exact plain_nil _
  · exact (plain_userText hu hp).append (List.forall_mem_singleton.2 (by decide))

theorem Addressed.plain_hostText {u : Url} (h : Addressed u) :
    Plain ['/', '\\', '?', '#', '@'] (hostText u.host) := by
  rcases h.host with hhost | ⟨-, hnil⟩
  · exact hhost.plain
  · rw [hnil]
    exact plain_nil _

theorem Addressed.isHost {u : Url} (h : Addressed u) (hf : isFile u.scheme = false) :
    IsHost (isSpecial u.scheme) u.host :=
  h.host.resolve_right fun hfile => absurd hfile.1 (by simp [hf])

/-- The user is found in front of the host. -/
theorem cutUser?_userPart {u : Url} (hu : Plain userSet u.username) (hp : Plain userSet u.password)
    {special : Bool} {cs rest : List Char} (hcs : Plain ['/', '\\', '?', '#', '@'] cs)
    (hrest : ∀ c ∈ rest.head?, endsAuthority special c = true) :
    ∃ user password?, (cutUser? special (u.userPart ++ (cs ++ rest))).getD
        ([], u.userPart ++ (cs ++ rest)) = (user, cs ++ rest) ∧
      cutFirst ':' user = (u.username, password?) ∧ password?.getD [] = u.password ∧
      ((cutUser? special (u.userPart ++ (cs ++ rest))).isSome = true → user ≠ []) := by
  have hends : ∀ c ∈ cs, endsAuthority special c = false ∧ c ≠ '@' := fun c hc =>
    ⟨endsAuthority_false fun hm => (hcs c hc).2 (List.mem_append_left ['@'] hm),
      ne_of_mem_of_not_mem hc (hcs.not_mem (by decide))⟩
  rw [userPart]
  split
  · rename_i hnone
    rw [List.nil_append, cutUser?_none hends hrest]
    exact ⟨[], none, rfl, by rw [hnone.1]; rfl, hnone.2.symm, fun h => absurd h (by simp)⟩
  · rename_i hsome
    obtain ⟨password?, huser, hpassword⟩ :=
      @cutFirst_userText u.username u.password (hu.not_mem (by decide))
    have htext : ∀ c ∈ userText u.username u.password, endsAuthority special c = false :=
      fun c hc => endsAuthority_false (plain_userText hu hp c hc).2
    rw [List.append_assoc, List.singleton_append, cutUser?_some htext hends hrest]
    refine ⟨_, password?, rfl, huser, hpassword, fun _ hnil => hsome ?_⟩
    rw [userText, List.append_eq_nil_iff] at hnil
    refine ⟨hnil.1, ?_⟩
    by_contra hne
    rw [if_neg hne] at hnil
    exact absurd hnil.2 (by simp)

theorem Written.endsPath_false {u : Url} (h : Written u) : ∀ c ∈ u.path, endsPath c = false := by
  intro c hc
  rcases h.path with hp | ⟨-, hp⟩
  · have hset := (hp.wrought.plain.mono fun _ => mem_pathSetFor) c hc
    rw [endsPath, Bool.or_eq_false_iff]
    exact ⟨decide_eq_false fun h => hset.2 (by rw [h]; decide),
      decide_eq_false fun h => hset.2 (by rw [h]; decide)⟩
  · rw [hp] at hc
    cases hc

theorem Written.writeWhole_path {u : Url} (h : Written u) (hf : isFile u.scheme = false) :
    (writeWhole u.scheme u.path).path = u.path := by
  rcases h.path with hp | ⟨hsp, hp⟩
  · rw [writeWhole_self hp (hp.clean hf) fun h => absurd h (by simp [hf])]
  · rw [hp, writeWhole_nil hsp]

/-- Of the parts of an authority only the host may be read as another. -/
theorem readAuthority_text_iff {u v : Url} (h : Written u) (hf : isFile u.scheme = false) :
    readAuthority u.scheme
        (u.userPart ++ (hostText u.host ++ u.portPart ++ (u.path ++ u.tailPart))) = .ok v ↔
      ∃ host, (if isSpecial u.scheme then readHost (hostText u.host)
        else readOpaqueHost (hostText u.host)) = .ok host ∧ { u with host := host } = v := by
  have hhost : IsHost (isSpecial u.scheme) u.host := h.isHost hf
  have hrest : ∀ special, ∀ c ∈ (u.path ++ u.tailPart).head?, endsAuthority special c = true :=
    fun special c hc => h.mem_rest_head hc special
  have hbehind : ∀ c ∈ (u.portPart ++ (u.path ++ u.tailPart)).head?,
      c = ':' ∨ endsAuthority (isSpecial u.scheme) c = true := by
    intro c hc
    rw [portPart] at hc
    split at hc
    · exact .inl (by simpa using hc.symm)
    · exact .inr (hrest _ c hc)
  obtain ⟨user, password?, hplace, huser, hpassword, hsome⟩ := cutUser?_userPart h.username
    h.password (hhost.plain.append (plain_portPart u)) (hrest (isSpecial u.scheme))
  have hnumber := readNumber_portPart h.number (hrest true)
  have hpath (host : Host) := @readPath_path u ⟨u.scheme, u.username, u.password, host,
    u.portNumber, [], none, none⟩ h.endsPath_false h.query h.fragment (writeWhole u.scheme)
  rw [List.append_assoc] at hplace hsome ⊢
  rw [readAuthority_eq_ok_iff hplace huser (cutHost_hostText hhost hbehind)]
  constructor
  · rintro ⟨-, -, host, hread, -, number, rest, hnumber', -, rfl⟩
    rw [hnumber] at hnumber'
    cases hnumber'
    refine ⟨host, hread, ?_⟩
    rw [hpassword, encode_plain h.username, encode_plain h.password, hpath, h.writeWhole_path hf]
  · rintro ⟨host, hread, rfl⟩
    have hbare : hostText u.host = [] →
        u.username = [] ∧ u.password = [] ∧ u.portNumber = none := fun hnil =>
      h.hostOnly (.inr (hhost.eq_of_hostText_nil hnil).2)
    refine ⟨fun hno => hsome hno.1 hno.2.1, fun hno => ?_, host, hread, fun hno => ?_, u.portNumber,
      u.path ++ u.tailPart, hnumber, fun hno => ?_, ?_⟩
    · have := (hhost.eq_of_hostText_nil hno.2).1
      rw [hno.1] at this
      cases this
    · have hcolon := hno.2
      rw [portPart, (hbare hno.1).2.2, List.nil_append] at hcolon
      exact absurd (hrest false ':' hcolon) (by decide)
    · obtain ⟨hu, hp, -⟩ := hbare hno.1
      rw [hu, hpassword, hp] at hno
      simp at hno
    · rw [hpassword, encode_plain h.username, encode_plain h.password, hpath, h.writeWhole_path hf]

/-- The parts of an authority are read as they are. -/
theorem readAuthority_text {u : Url} (h : Written u) (hf : isFile u.scheme = false)
    (hown : isSpecial u.scheme = true → IsOwnForm u.host) :
    readAuthority u.scheme
      (u.userPart ++ (hostText u.host ++ u.portPart ++ (u.path ++ u.tailPart))) = .ok u := by
  have hhost : IsHost (isSpecial u.scheme) u.host := h.isHost hf
  refine (readAuthority_text_iff h hf).2 ⟨u.host, ?_, rfl⟩
  cases hsp : isSpecial u.scheme with
  | true => exact readHost_hostText (hsp ▸ hhost) (hown hsp)
  | false => exact readOpaqueHost_hostText (hsp ▸ hhost)

end ModuleLoader.Url
