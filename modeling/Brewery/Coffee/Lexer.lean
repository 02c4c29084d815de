import Brewery.Text.Blank
import Brewery.Text.Letter

/-!
Tokens of CoffeeScript, as far as names are concerned. Strings are one token each and their
text is passed over, but the code inside an interpolation is read as code; its tokens come
before the token of the string around it.

The lexer keeps a stack of what is open: strings, interpolations with their depth of braces,
and a block comment. The empty stack is plain code. One step reads at least one character.
-/

namespace Brewery.Coffee

inductive Token where
  | word (name : Text)
  | operator (spelling : Text)
  | sign (character : Char)
  | literal
  | newline
  deriving DecidableEq

inductive Frame where
  | interpolation (depth : Nat)
  | quoted (quote : Char) (triple : Bool)
  | comment
  deriving DecidableEq

/-- What one step reads: its tokens, what is open after it, and the rest of the text. -/
structure Step where
  tokens : List Token
  frames : List Frame
  rest : Text

/-- Operators of more than one character; the first that fits is read. -/
def operators : List Text :=
  ["...", "||=", "&&=", "->", "=>", "==", "!=", "<=", ">=", "::", "..", "?.", "+=", "-=", "*=",
    "/=", "%=", "?=", "++", "--", "&&", "||"].map String.toList

def commentMark : Text := "###".toList

def isQuote (c : Char) : Bool := c = '\'' || c = '"' || c = Char.ofNat 0x60

def isWordStart (c : Char) : Bool := Text.isLetter c || c = '_' || c = '$'

def isWordCharacter (c : Char) : Bool := Text.isAlphanumeric c || c = '_' || c = '$'

/-- The rest after the further characters of a number; a point counts before a digit. -/
def afterNumber : Text → Text
  | [] => []
  | '.' :: next :: rest =>
      if next.isDigit then afterNumber (next :: rest) else '.' :: next :: rest
  | c :: rest => if c.isAlphanum || c = '_' then afterNumber rest else c :: rest

/-- One step in code, where braces are signs like any other. -/
def codeStep (frames : List Frame) (c : Char) (rest : Text) : Step :=
  if c = '\n' then ⟨[.newline], frames, rest⟩
  else if Text.isBlank c then ⟨[], frames, rest⟩
  else if c = '#' then
    if ['#', '#'].isPrefixOf rest && rest[2]? ≠ some '#' then
      ⟨[], .comment :: frames, rest.drop 2⟩
    else ⟨[], frames, rest.dropWhile (· ≠ '\n')⟩
  else if isQuote c then
    if [c, c].isPrefixOf rest then ⟨[], .quoted c true :: frames, rest.drop 2⟩
    else ⟨[], .quoted c false :: frames, rest⟩
  else if isWordStart c then
    ⟨[.word (c :: rest.takeWhile isWordCharacter)], frames, rest.dropWhile isWordCharacter⟩
  else if c.isDigit then ⟨[.literal], frames, afterNumber rest⟩
  else match operators.find? fun operator => operator.isPrefixOf (c :: rest) with
    | some operator => ⟨[.operator operator], frames, rest.drop (operator.length - 1)⟩
    | none => ⟨[.sign c], frames, rest⟩

/-- One step in a string. A backslash takes the next character with it. -/
def stringStep (quote : Char) (triple : Bool) (outer : List Frame) (c : Char) (rest : Text) :
    Step :=
  if c = '\\' then ⟨[], .quoted quote triple :: outer, rest.drop 1⟩
  else if quote = '"' && c = '#' && rest.head? = some '\x7b' then
    ⟨[], .interpolation 0 :: .quoted quote triple :: outer, rest.drop 1⟩
  else if c = quote && (!triple || [quote, quote].isPrefixOf rest) then
    ⟨[.literal], outer, if triple then rest.drop 2 else rest⟩
  else ⟨[], .quoted quote triple :: outer, rest⟩

def step (frames : List Frame) (c : Char) (rest : Text) : Step :=
  match frames with
  | [] => codeStep [] c rest
  | .comment :: outer =>
      if commentMark.isPrefixOf (c :: rest) then ⟨[], outer, rest.drop 2⟩
      else ⟨[], .comment :: outer, rest⟩
  | .quoted quote triple :: outer => stringStep quote triple outer c rest
  | .interpolation depth :: outer =>
      if c = '\x7b' then ⟨[.sign c], .interpolation (depth + 1) :: outer, rest⟩
      else if c = '\x7d' then
        match depth with
        | 0 => ⟨[], outer, rest⟩
        | depth + 1 => ⟨[.sign c], .interpolation depth :: outer, rest⟩
      else codeStep (.interpolation depth :: outer) c rest

theorem length_dropWhile_le (p : Char → Bool) (text : Text) :
    (text.dropWhile p).length ≤ text.length :=
  (List.dropWhile_suffix p).length_le

theorem afterNumber_length (text : Text) : (afterNumber text).length ≤ text.length := by
  fun_induction afterNumber text <;> simp_all <;> omega

theorem codeStep_length (frames : List Frame) (c : Char) (rest : Text) :
    (codeStep frames c rest).rest.length ≤ rest.length := by
  unfold codeStep
  repeat' split
  all_goals first
    | exact Nat.le_refl _
    | exact length_dropWhile_le _ _
    | exact afterNumber_length _
    | simp

/-- Every step leaves less text than it found. -/
theorem step_length (frames : List Frame) (c : Char) (rest : Text) :
    (step frames c rest).rest.length ≤ rest.length := by
  unfold step
  split
  · exact codeStep_length _ _ _
  · split <;> simp
  · unfold stringStep
    repeat' split
    all_goals simp
  · repeat' split
    all_goals first
      | exact codeStep_length _ _ _
      | simp

/-- The tokens of a text that begins with the given strings and interpolations open. A
string that is still open at the end is a token too. -/
def lex (frames : List Frame) : Text → List Token
  | [] => frames.filterMap fun frame => match frame with
    | .quoted _ _ => some .literal
    | _ => none
  | c :: rest =>
      have := step_length frames c rest
      (step frames c rest).tokens ++ lex (step frames c rest).frames (step frames c rest).rest
termination_by text => text.length
decreasing_by simp only [List.length_cons]; omega

/-- What is open after a text. -/
def framesAfter (frames : List Frame) : Text → List Frame
  | [] => frames
  | c :: rest =>
      have := step_length frames c rest
      framesAfter (step frames c rest).frames (step frames c rest).rest
termination_by text => text.length
decreasing_by simp only [List.length_cons]; omega

def tokens (text : Text) : List Token := lex [] text

end Brewery.Coffee
