import ModuleLoader.Dialect.Token
import ModuleLoader.Text.Blank
import ModuleLoader.Text.Letter
import ModuleLoader.Text.Position

/-! # Tokens of a source text

A source text is a row of tokens with blanks and comments between them. Each reading step returns
what is left of the text, which is never longer, so that the whole text is read in as many steps as
it has tokens.
-/

namespace ModuleLoader.Dialect

open Text

/-- A line comment ends before the line break. -/
def skipLine (cs : List Char) : List Char := cs.dropWhile (· ≠ '\n')

/-- A block comment ends behind its first closing mark, or with the text. -/
def skipBlock : List Char → List Char
  | [] => []
  | '*' :: '/' :: rest => rest
  | _ :: rest => skipBlock rest

theorem length_skipLine_le (cs : List Char) : (skipLine cs).length ≤ cs.length :=
  (List.dropWhile_suffix _).length_le

theorem length_skipBlock_le (cs : List Char) : (skipBlock cs).length ≤ cs.length := by
  fun_induction skipBlock cs with
  | case1 => simp
  | case2 rest => simp; omega
  | case3 c rest _ ih => simp; omega

/-- Leave out blanks and comments. -/
def skipGap : List Char → List Char
  | [] => []
  | c :: rest =>
    if isBlank c then skipGap rest
    else if c = '/' then
      match rest with
      | '/' :: r => skipGap (skipLine r)
      | '*' :: r => skipGap (skipBlock r)
      | _ => c :: rest
    else c :: rest
termination_by cs => cs.length
decreasing_by
  · simp
  · exact Nat.lt_succ_of_lt (Nat.lt_succ_of_le (length_skipLine_le _))
  · exact Nat.lt_succ_of_lt (Nat.lt_succ_of_le (length_skipBlock_le _))

theorem length_skipGap_le (cs : List Char) : (skipGap cs).length ≤ cs.length := by
  fun_induction skipGap cs with
  | case1 => simp
  | case2 c rest _ ih => simp; omega
  | case3 r _ ih =>
    have := length_skipLine_le r
    simp; omega
  | case4 r _ ih =>
    have := length_skipBlock_le r
    simp; omega
  | case5 => simp
  | case6 => simp

/-- The character that an escape stands for. -/
def unescape (c : Char) : Char :=
  if c = 'n' then '\n' else if c = 'r' then '\r' else if c = 't' then '\t'
  else if c = '0' then '\x00' else c

/-- The text of a string literal up to its closing quote, and what follows. Without a closing quote
on the line there is no text. -/
def stringBody (quote : Char) : List Char → Option (List Char) × List Char
  | [] => (none, [])
  | c :: rest =>
    if c = '\n' then (none, rest)
    else if c = quote then (some [], rest)
    else if c = '\\' then
      match rest with
      | [] => (none, [])
      | e :: r => ((stringBody quote r).1.map (unescape e :: ·), (stringBody quote r).2)
    else ((stringBody quote rest).1.map (c :: ·), (stringBody quote rest).2)

/-- Whether a text begins with a digit. -/
def startsWithDigit : List Char → Bool
  | [] => false
  | c :: _ => c.isDigit

/-- The digits of a numeral, with at most one point, which a digit has to follow. -/
def numeral (pointSeen : Bool) : List Char → List Char × List Char
  | [] => ([], [])
  | c :: rest =>
    if c.isDigit then (c :: (numeral pointSeen rest).1, (numeral pointSeen rest).2)
    else if c = '.' && !pointSeen && startsWithDigit rest then
      (c :: (numeral true rest).1, (numeral true rest).2)
    else ([], c :: rest)

/-- Characters that begin an identifier. -/
def startsName (c : Char) : Bool := isAlphabetic c || c = '_' || c = '$'

/-- Characters that continue an identifier. -/
def continuesName (c : Char) : Bool := isAlphanumeric c || c = '_' || c = '$'

/-- A reserved word, or else an identifier. -/
def wordKind (cs : List Char) : TokenKind :=
  match Keyword.ofWord? (String.ofList cs) with
  | some k => .keyword k
  | none => .identifier (String.ofList cs)

/-- The marks of one character that begin no longer token. -/
def simpleMark? (c : Char) : Option Mark :=
  if c = '\x7b' then some .leftBrace
  else if c = '\x7d' then some .rightBrace
  else if c = '(' then some .leftParen
  else if c = ')' then some .rightParen
  else if c = '[' then some .leftBracket
  else if c = ']' then some .rightBracket
  else if c = ';' then some .semicolon
  else if c = ',' then some .comma
  else if c = '-' then some .minus
  else if c = '*' then some .star
  else if c = '/' then some .slash
  else if c = '=' then some .equal
  else none

/-- The token that begins with a character, and what follows it. -/
def lexeme (c : Char) (rest : List Char) : TokenKind × List Char :=
  match simpleMark? c with
  | some m => (.mark m, rest)
  | none =>
    if c = '+' then
      match rest with
      | '+' :: r => (.mark .plusPlus, r)
      | '=' :: r => (.mark .plusEqual, r)
      | _ => (.mark .plus, rest)
    else if c = '.' then
      if startsWithDigit rest then
        (.number (Number.ofNumeral ('.' :: (numeral true rest).1)), (numeral true rest).2)
      else (.mark .dot, rest)
    else if c = '"' || c = '\'' then
      match (stringBody c rest).1 with
      | some s => (.string (String.ofList s), (stringBody c rest).2)
      | none => (.unterminatedString, (stringBody c rest).2)
    else if c.isDigit then
      (.number (Number.ofNumeral (c :: (numeral false rest).1)), (numeral false rest).2)
    else if startsName c then
      (wordKind (c :: rest.takeWhile continuesName), rest.dropWhile continuesName)
    else (.invalid c, rest)

theorem length_stringBody_le (quote : Char) (cs : List Char) :
    (stringBody quote cs).2.length ≤ cs.length := by
  fun_induction stringBody quote cs <;> simp_all <;> omega

theorem length_numeral_le (pointSeen : Bool) (cs : List Char) :
    (numeral pointSeen cs).2.length ≤ cs.length := by
  fun_induction numeral pointSeen cs <;> simp_all <;> omega

theorem length_lexeme_le (c : Char) (rest : List Char) :
    (lexeme c rest).2.length ≤ rest.length := by
  have hs := length_stringBody_le c rest
  have ht := length_numeral_le true rest
  have hf := length_numeral_le false rest
  have hd := (List.dropWhile_suffix continuesName : rest.dropWhile _ <:+ rest).length_le
  unfold lexeme
  repeat' split
  all_goals simp_all

/-- The tokens of the last bytes of a text of `size` bytes. -/
def tokensOf (size : Nat) (cs : List Char) : List Token :=
  match _h : skipGap cs with
  | [] => []
  | c :: rest =>
    ⟨(lexeme c rest).1, size - byteLength (c :: rest), size - byteLength (lexeme c rest).2⟩ ::
      tokensOf size (lexeme c rest).2
termination_by cs.length
decreasing_by
  have hg := length_skipGap_le cs
  have hl := length_lexeme_le c rest
  rw [_h] at hg
  simp at hg
  omega

/-- The tokens of a source text. -/
def tokens (source : List Char) : List Token := tokensOf (byteLength source) source

end ModuleLoader.Dialect
