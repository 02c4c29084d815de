import Brewery.Json5.Key
import Brewery.Json5.Value
import Brewery.Text.Digit

/-!
Reading a data literal: JSON with comments, unquoted keys, single quotes, commas at the end
and more forms of numbers. Every reader gives the value and the text after it. Nested values
are read with a bound on their depth, which the length of the text supplies: each level
spends at least one character.
-/

namespace Brewery.Json5

def isLineEnd (c : Char) : Bool :=
  c = '\n' || c = '\r' || c.toNat = 0x2028 || c.toNat = 0x2029

def isSpace (c : Char) : Bool :=
  isLineEnd c || c = '\t' || c.toNat = 11 || c.toNat = 12 || c = ' ' || c.toNat = 0xA0 ||
    c.toNat = 0xFEFF || c.toNat = 0x1680 || (0x2000 ≤ c.toNat && c.toNat ≤ 0x200A) ||
    c.toNat = 0x202F || c.toNat = 0x205F || c.toNat = 0x3000

/-- The text after the end of a block comment. -/
def afterComment? : Text → Option Text
  | [] => none
  | '*' :: '/' :: rest => some rest
  | _ :: rest => afterComment? rest

/-- The text after white space and comments. A comment that does not end is left alone. -/
def skipSpaceWithin : Nat → Text → Text
  | 0, text => text
  | bound + 1, text =>
      match text with
      | '/' :: '/' :: rest => skipSpaceWithin bound (rest.dropWhile fun c => !isLineEnd c)
      | '/' :: '*' :: rest =>
          match afterComment? rest with
          | some after => skipSpaceWithin bound after
          | none => text
      | c :: rest => if isSpace c then skipSpaceWithin bound rest else text
      | [] => []

def skipSpace (text : Text) : Text := skipSpaceWithin (text.length + 1) text

/-- What a backslash and the text after it stand for; a line end stands for nothing. -/
def escape? : Text → Option (Text × Text)
  | [] => none
  | 'x' :: rest => (Text.codePoint? 2 rest).map fun read => ([read.1], read.2)
  | 'u' :: rest => (Text.codePoint? 4 rest).map fun read => ([read.1], read.2)
  | '\r' :: '\n' :: rest => some ([], rest)
  | c :: rest =>
      if isLineEnd c then some ([], rest)
      else if c = '0' then some ([Char.ofNat 0], rest)
      else if c.isDigit then none
      else if c = 'b' then some ([Char.ofNat 8], rest)
      else if c = 'f' then some ([Char.ofNat 12], rest)
      else if c = 'n' then some (['\n'], rest)
      else if c = 'r' then some (['\r'], rest)
      else if c = 't' then some (['\t'], rest)
      else if c = 'v' then some ([Char.ofNat 11], rest)
      else some ([c], rest)

/-- The characters of a string up to its closing quote. -/
def stringWithin : Nat → (quote : Char) → Text → Option (Text × Text)
  | 0, _, _ => none
  | _ + 1, _, [] => none
  | bound + 1, quote, c :: rest =>
      if c = quote then some ([], rest)
      else if c = '\\' then do
        let (meant, rest) ← escape? rest
        let (more, rest) ← stringWithin bound quote rest
        some (meant ++ more, rest)
      else if isLineEnd c then none
      else do
        let (more, rest) ← stringWithin bound quote rest
        some (c :: more, rest)

def string? (quote : Char) (text : Text) : Option (Text × Text) :=
  stringWithin (text.length + 1) quote text

def keyWithin : Nat → (first : Bool) → Text → Option (Text × Text)
  | 0, _, _ => none
  | bound + 1, first, text =>
      match text with
      | '\\' :: 'u' :: rest => do
          let (c, rest) ← Text.codePoint? 4 rest
          let (more, rest) ← keyWithin bound false rest
          some (c :: more, rest)
      | c :: rest =>
          if (if first then isKeyStart c else isKeyPart c) then do
            let (more, rest) ← keyWithin bound false rest
            some (c :: more, rest)
          else if first then none else some ([], text)
      | [] => if first then none else some ([], [])

/-- A key, quoted or not. -/
def key? : Text → Option (Text × Text)
  | '"' :: rest => string? '"' rest
  | '\'' :: rest => string? '\'' rest
  | text => keyWithin (text.length + 1) true text

/-- `e`, perhaps a sign, and digits: the exponent and the text after it. -/
def exponent? : Text → Option (Int × Text)
  | c :: rest =>
      if c = 'e' || c = 'E' then
        let (negative, rest) := match rest with
          | '+' :: rest => (false, rest)
          | '-' :: rest => (true, rest)
          | _ => (false, rest)
        let digits := rest.takeWhile Char.isDigit
        if digits.isEmpty then none
        else
          let size : Int := Text.number 10 digits
          some (if negative then -size else size, rest.dropWhile Char.isDigit)
      else none
  | [] => none

/-- A finite number with the given digits before and after its point. -/
def float? (negative : Bool) (whole fraction : Text) (exponent : Int) : Option Value :=
  (Binary64.ofDecimal negative (Text.number 10 (whole ++ fraction))
    (exponent - fraction.length)).map Value.float

/-- A number without point and exponent must fit into 64 bits with a sign. -/
def integer? (negative : Bool) (digits : Text) : Option Value :=
  let size := Text.number 10 digits
  if negative then if size ≤ Nat.pow 2 63 then some (.integer (-size)) else none
  else if size < Nat.pow 2 63 then some (.integer size) else none

def decimal? (negative : Bool) (text : Text) : Option (Value × Text) :=
  let digits := text.takeWhile Char.isDigit
  let whole := if digits.head? = some '0' then ['0'] else digits
  let rest := text.drop whole.length
  let finish (fraction rest : Text) (pointed : Bool) : Option (Value × Text) :=
    match exponent? rest with
    | some (exponent, rest) =>
        (float? negative whole fraction exponent).map fun value => (value, rest)
    | none =>
        if pointed then (float? negative whole fraction 0).map fun value => (value, rest)
        else (integer? negative whole).map fun value => (value, rest)
  match rest with
  | '.' :: after =>
      let fraction := after.takeWhile Char.isDigit
      if whole.isEmpty && fraction.isEmpty then none
      else finish fraction (after.dropWhile Char.isDigit) true
  | _ => if whole.isEmpty then none else finish [] rest false

/-- A number. A hexadecimal one takes no sign and fits into 32 bits; one that is not finite
becomes null, and may not carry a plus sign. -/
def number? (text : Text) : Option (Value × Text) :=
  let (sign, body) : Option Char × Text := match text with
    | '+' :: rest => (some '+', rest)
    | '-' :: rest => (some '-', rest)
    | _ => (none, text)
  match Text.dropPrefix? "Infinity".toList body, Text.dropPrefix? "NaN".toList body with
  | some rest, _ => if sign = some '+' then none else some (.null, rest)
  | _, some rest => if sign = some '+' then none else some (.null, rest)
  | none, none =>
      match body with
      | '0' :: mark :: rest =>
          let digits := rest.takeWhile Text.isHexDigit
          if (mark = 'x' || mark = 'X') && !digits.isEmpty then
            if sign = none && Text.number 16 digits < Nat.pow 2 32 then
              some (.integer (Text.number 16 digits), rest.dropWhile Text.isHexDigit)
            else none
          else decimal? (sign = some '-') body
      | _ => decimal? (sign = some '-') body

mutual

def value? : Nat → Text → Option (Value × Text)
  | 0, _ => none
  | bound + 1, text =>
      match text with
      | '[' :: rest =>
          match skipSpace rest with
          | ']' :: rest => some (.array [], rest)
          | rest => (elements? bound rest).map fun read => (.array read.1, read.2)
      | '\x7b' :: rest =>
          match skipSpace rest with
          | '\x7d' :: rest => some (.object [], rest)
          | rest => (members? bound [] rest).map fun read => (.object read.1, read.2)
      | '"' :: rest => (string? '"' rest).map fun read => (.string read.1, read.2)
      | '\'' :: rest => (string? '\'' rest).map fun read => (.string read.1, read.2)
      | _ =>
          match Text.dropPrefix? "null".toList text, Text.dropPrefix? "true".toList text,
            Text.dropPrefix? "false".toList text with
          | some rest, _, _ => some (.null, rest)
          | _, some rest, _ => some (.bool true, rest)
          | _, _, some rest => some (.bool false, rest)
          | none, none, none => number? text

/-- At least one element and the closing bracket. -/
def elements? : Nat → Text → Option (List Value × Text)
  | 0, _ => none
  | bound + 1, text => do
      let (value, rest) ← value? bound text
      match skipSpace rest with
      | ']' :: rest => some ([value], rest)
      | ',' :: rest =>
          match skipSpace rest with
          | ']' :: rest => some ([value], rest)
          | rest => do
              let (more, rest) ← elements? bound rest
              some (value :: more, rest)
      | _ => none

/-- At least one member and the closing brace. -/
def members? : Nat → List (Text × Value) → Text → Option (List (Text × Value) × Text)
  | 0, _, _ => none
  | bound + 1, members, text => do
      let (key, rest) ← key? text
      match skipSpace rest with
      | ':' :: rest => do
          let (value, rest) ← value? bound (skipSpace rest)
          let members := insertMember key value members
          match skipSpace rest with
          | '\x7d' :: rest => some (members, rest)
          | ',' :: rest =>
              match skipSpace rest with
              | '\x7d' :: rest => some (members, rest)
              | rest => members? bound members rest
          | _ => none
      | _ => none

end

/-- The value of a whole text. -/
def parse? (text : Text) : Option Value :=
  match value? (2 * text.length + 1) (skipSpace text) with
  | some (value, rest) => if (skipSpace rest).isEmpty then some value else none
  | none => none

/-- A module that exports the value of a data literal under a name. -/
def exported? (text name : Text) : Option Text :=
  (parse? text).map fun value =>
    "export const ".toList ++ name ++ " = ".toList ++ value.render 0 ++ ";\n".toList

end Brewery.Json5
