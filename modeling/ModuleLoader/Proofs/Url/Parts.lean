import ModuleLoader.Proofs.Url.Hosts
import ModuleLoader.Proofs.Url.Paths

/-! # Parts of written URLs

The text of a URL is scheme, user, host, number, path, query and fragment in a row. In a URL that
was read each of them is written as it stays, and ends where the next one begins.
-/

namespace ModuleLoader

open Text

/-! ## Schemes -/

/-- The characters of schemes. -/
def isSchemeChar (c : Char) : Bool := c.isAlphanum || c = '+' || c = '-' || c = '.'

theorem isSchemeChar_colon : isSchemeChar ':' = false := by decide

/-- Whether a text is what a URL begins with. -/
structure IsScheme (cs : List Char) : Prop where
  head : cs.head?.any Char.isAlpha = true
  chars : ∀ c ∈ cs, isSchemeChar c = true

/-- A URL is a scheme and what follows `://`. -/
theorem isAbsoluteUrl_iff {cs : List Char} : isAbsoluteUrl cs = true ↔
    ∃ scheme rest, cs = scheme ++ ':' :: '/' :: '/' :: rest ∧ IsScheme scheme := by
  constructor
  · intro h
    rw [isAbsoluteUrl.eq_def] at h
    cases cs with
    | nil => cases h
    | cons c cs =>
      dsimp only at h
      rw [Bool.and_eq_true] at h
      obtain ⟨halpha, hstart⟩ := h
      have hsplit := List.takeWhile_append_dropWhile (p := isSchemeChar) (l := c :: cs)
      have hdrop : (c :: cs).drop ((c :: cs).takeWhile isSchemeChar).length =
          (c :: cs).dropWhile isSchemeChar := by
        conv_lhs => arg 2; rw [← hsplit]
        exact List.drop_left
      change startsWith "://".toList
        ((c :: cs).drop ((c :: cs).takeWhile isSchemeChar).length) = true at hstart
      rw [hdrop, startsWith, Option.isSome_iff_exists] at hstart
      obtain ⟨rest, hrest⟩ := hstart
      rw [dropStart?_eq_some_iff] at hrest
      refine ⟨(c :: cs).takeWhile isSchemeChar, rest, ?_, ?_, ?_⟩
      · exact hsplit.symm.trans (by rw [hrest]; rfl)
      · have hc : isSchemeChar c = true := by simp [isSchemeChar, Char.isAlphanum, halpha]
        rw [List.takeWhile_cons_of_pos hc]
        exact halpha
      · exact fun d hd => List.mem_takeWhile_imp hd
  · rintro ⟨scheme, rest, rfl, hhead, hchars⟩
    cases scheme with
    | nil => cases hhead
    | cons c scheme =>
      have htake : (c :: scheme ++ ':' :: '/' :: '/' :: rest).takeWhile isSchemeChar =
          c :: scheme :=
        takeWhile_append_stop hchars fun d hd => by
          obtain rfl : ':' = d := by simpa using hd
          exact isSchemeChar_colon
      have hdrop : dropStart? "://".toList (':' :: '/' :: '/' :: rest) = some rest :=
        dropStart?_eq_some_iff.2 rfl
      rw [List.cons_append, isAbsoluteUrl, Bool.and_eq_true]
      refine ⟨hhead, ?_⟩
      change startsWith "://".toList ((c :: scheme ++ ':' :: '/' :: '/' :: rest).drop
        ((c :: scheme ++ ':' :: '/' :: '/' :: rest).takeWhile isSchemeChar).length) = true
      rw [htake, List.drop_left, startsWith, hdrop]
      rfl

namespace Url

/-! ## Parts of a URL -/

/-- A user with the password, if there is one. -/
def userText (username password : List Char) : List Char :=
  username ++ if password = [] then [] else ':' :: password

/-- What stands in front of the host. -/
def userPart (u : Url) : List Char :=
  if u.username = [] ∧ u.password = [] then [] else userText u.username u.password ++ ['@']

/-- The number behind the host. -/
def portPart (u : Url) : List Char :=
  match u.portNumber with
  | some p => ':' :: Nat.toDigits 10 p
  | none => []

/-- Query and fragment. -/
def tailPart (u : Url) : List Char :=
  (match u.query with | some q => '?' :: q | none => []) ++
    (match u.fragment with | some f => '#' :: f | none => [])

theorem text_eq (u : Url) : u.text = u.scheme ++ ':' :: '/' :: '/' :: (u.userPart ++
    (hostText u.host ++ u.portPart ++ (u.path ++ u.tailPart))) := by
  simp only [text, userPart, userText, portPart, tailPart, List.append_assoc]
  rfl

/-- Whether scheme, user, host and number of a URL are written as they stay. -/
structure Addressed (u : Url) : Prop where
  scheme : IsScheme u.scheme
  lower : ∀ c ∈ u.scheme, c.toLower = c
  username : Plain userSet u.username
  password : Plain userSet u.password
  host : IsHost (isSpecial u.scheme) u.host ∨ isFile u.scheme = true ∧ u.host = .name []
  number : ∀ p ∈ u.portNumber, p ≤ 65535 ∧ defaultPortNumber? u.scheme ≠ some p
  hostOnly : isFile u.scheme = true ∨ u.host = .name [] →
    u.username = [] ∧ u.password = [] ∧ u.portNumber = none
  away : isFile u.scheme = true → u.host ≠ .name "localhost".toList

/-- Whether every part of a URL is written as it stays. -/
structure Written (u : Url) : Prop extends Addressed u where
  path : IsPathOf u.scheme u.path ∨ isSpecial u.scheme = false ∧ u.path = []
  query : ∀ q ∈ u.query, Plain (querySet (isSpecial u.scheme)) q
  fragment : ∀ f ∈ u.fragment, Plain fragmentSet f

section Tail

variable {u v : Url}

theorem mem_tailPart_head {c : Char} (h : c ∈ u.tailPart.head?) : endsPath c = true := by
  rw [tailPart] at h
  cases hq : u.query with
  | some q =>
    rw [hq] at h
    obtain rfl : '?' = c := by simpa using h
    rfl
  | none =>
    cases hf : u.fragment with
    | some f =>
      rw [hq, hf] at h
      obtain rfl : '#' = c := by simpa using h
      rfl
    | none => simp [hq, hf] at h

/-- Query and fragment are read as they are. -/
theorem readTail_tailPart (hq : ∀ q ∈ u.query, Plain (querySet (isSpecial v.scheme)) q)
    (hf : ∀ f ∈ u.fragment, Plain fragmentSet f) :
    readTail v u.tailPart = { v with query := u.query, fragment := u.fragment } := by
  have hmark : '#' ∈ querySet (isSpecial v.scheme) := by
    rw [querySet]
    exact List.mem_append_left _ (by decide)
  have hfragment : ∀ f, u.fragment = some f → encode fragmentSet f = f :=
    fun f h => encode_plain (hf f h)
  have hquery : ∀ q, u.query = some q → encode (querySet (isSpecial v.scheme)) q = q ∧
      ∀ c ∈ q, decide (c ≠ '#') = true := fun q h =>
    ⟨encode_plain (hq q h), fun c hc =>
      decide_eq_true (ne_of_mem_of_not_mem hc ((hq q h).not_mem hmark))⟩
  cases hu : u.query with
  | none =>
    cases hw : u.fragment with
    | none =>
      rw [show u.tailPart = [] by rw [tailPart, hu, hw]; rfl]
      rfl
    | some f =>
      rw [show u.tailPart = '#' :: f by rw [tailPart, hu, hw]; rfl]
      exact congrArg (Url.mk _ _ _ _ _ _ none <| some ·) (hfragment f hw)
  | some q =>
    obtain ⟨hencode, hne⟩ := hquery q hu
    have hrest : ∀ c ∈ '?' :: q, decide (c ≠ '#') = true := List.forall_mem_cons.2 ⟨rfl, hne⟩
    cases hw : u.fragment with
    | none =>
      rw [show u.tailPart = '?' :: q by rw [tailPart, hu, hw]; exact List.append_nil _,
        readTail.eq_def, List.dropWhile_eq_nil_iff.2 hrest]
      simp only [List.takeWhile_eq_self_iff.2 hne, hencode]
    | some f =>
      rw [show u.tailPart = '?' :: q ++ '#' :: f by rw [tailPart, hu, hw], readTail.eq_def,
        dropWhile_append_stop hrest (by simp)]
      have htake : (q ++ '#' :: f).takeWhile (· ≠ '#') = q := takeWhile_append_stop hne (by simp)
      simp only [List.cons_append, htake, hencode, hfragment f hw]

/-- A path is read in a given way, query and fragment behind it as they are. -/
theorem readPath_path (hp : ∀ c ∈ u.path, endsPath c = false)
    (hq : ∀ q ∈ u.query, Plain (querySet (isSpecial v.scheme)) q)
    (hf : ∀ f ∈ u.fragment, Plain fragmentSet f) (write : List Char → PathDraft) :
    readPath v write (u.path ++ u.tailPart) =
      ({ v with path := (write u.path).path, query := u.query, fragment := u.fragment },
        (write u.path).driveNamed) := by
  have hgo : ∀ c ∈ u.path, (!endsPath c) = true := fun c hc => by rw [hp c hc]; rfl
  have hstop : ∀ c ∈ u.tailPart.head?, (!endsPath c) = false := fun c hc => by
    rw [mem_tailPart_head hc]; rfl
  rw [readPath, takeWhile_append_stop hgo hstop, dropWhile_append_stop hgo hstop]
  exact congrArg (Prod.mk · (write u.path).driveNamed) (readTail_tailPart hq hf)

/-- Whatever follows the number is written as it stays. -/
theorem Addressed.readPath {write : List Char → PathDraft} (h : Addressed v)
    (hw : ∀ cs, IsPathOf v.scheme (write cs).path ∨
      isSpecial v.scheme = false ∧ (write cs).path = []) (cs : List Char) :
    Written (readPath v write cs).1 := by
  have hpath := hw (cs.takeWhile (!endsPath ·))
  refine ⟨⟨h.scheme, h.lower, h.username, h.password, h.host, h.number, h.hostOnly, h.away⟩, hpath,
    fun q hq => ?_, fun f hf => ?_⟩
  · simp only [Url.readPath, readTail] at hq ⊢
    split at hq
    · cases hq
      exact plain_query _ _
    · cases hq
  · simp only [Url.readPath, readTail] at hf
    split at hf
    · cases hf
      exact plain_fragment _
    · cases hf

theorem Written.mem_rest_head (h : Written u) {c : Char} (hc : c ∈ (u.path ++ u.tailPart).head?)
    (special : Bool) : endsAuthority special c = true := by
  rcases h.path with hp | ⟨-, hp⟩
  · rw [List.head?_append, hp.wrought.head] at hc
    obtain rfl : '/' = c := by simpa using hc
    rfl
  · rw [hp, List.nil_append] at hc
    rw [endsAuthority, mem_tailPart_head hc, Bool.or_true]

end Tail

end Url

end ModuleLoader
