import Brewery.Text.Blank
import Brewery.Toml.Scalar

/-!
Settings given by environment variables. The name of a variable is a mark, then the keys of
a setting with two underscores between them, in letters of either case. Its value is a truth
value, a number, an array, a table or a string in quotes; a value that is none of these is a
string as it stands.
-/

namespace Brewery.Settings.Variable

open Toml (Value Entries)

def mark : Text := "CIELO_".toList

/-- The keys that a variable name gives a value to. A name with an empty key gives none. -/
def keys? (name : Text) : Option (List Text) :=
  let name := (Text.trim name).map Char.toLower
  match Text.dropPrefix? (mark.map Char.toLower) name with
  | none => none
  | some rest =>
      let keys := Text.splitAt '.' (Text.replace "__".toList ['.'] rest)
      if keys.any List.isEmpty then none else some keys

def isSpace (c : Char) : Bool :=
  c = ' ' || c = '\t' || c = '\n' || c = '\r' || c.toNat = 12

def skipSpace (text : Text) : Text := text.dropWhile isSpace

def isSeparator (c : Char) : Bool :=
  c = ',' || c = '\x7b' || c = '\x7d' || c = '[' || c = ']'

def isKeyPart (c : Char) : Bool := c.isAlphanum || c = '_' || c = '-'

/-- Digits with a point among them, before or after which they may lack, and perhaps an
exponent. -/
def isFraction (text : Text) : Bool :=
  let unsigned := match text with
    | '+' :: rest => rest
    | '-' :: rest => rest
    | rest => rest
  let whole := unsigned.takeWhile Char.isDigit
  match unsigned.dropWhile Char.isDigit with
  | '.' :: rest =>
      let fraction := rest.takeWhile Char.isDigit
      let exponent := match rest.dropWhile Char.isDigit with
        | [] => true
        | mark :: rest =>
            (mark = 'e' || mark = 'E') &&
              (match rest with
              | '+' :: rest => !rest.isEmpty && rest.all Char.isDigit
              | '-' :: rest => !rest.isEmpty && rest.all Char.isDigit
              | rest => !rest.isEmpty && rest.all Char.isDigit)
      !(whole.isEmpty && fraction.isEmpty) && exponent
  | _ => false

/-- A whole number that fits into 64 bits. -/
def integer? (text : Text) : Option Int :=
  let digits? (digits : Text) : Option Nat :=
    if !digits.isEmpty && digits.all Char.isDigit then some (Text.number 10 digits) else none
  match text with
  | '-' :: rest => (digits? rest).bind fun size =>
      if size ≤ Nat.pow 2 63 then some (-(size : Int)) else none
  | '+' :: rest => (digits? rest).bind fun size => if size < Nat.pow 2 64 then some size else none
  | rest => (digits? rest).bind fun size => if size < Nat.pow 2 64 then some size else none

/-- A value without quotes and brackets. -/
def plain (text : Text) : Value :=
  let word := Text.trim text
  if isFraction word then .float word
  else match integer? word with
    | some number => .integer number
    | none => .string word

def key? : Text → Option (Text × Text)
  | '"' :: rest => Toml.Scalar.basic? .v10 rest
  | text =>
      let key := text.takeWhile isKeyPart
      if key.isEmpty then none else some (key, text.dropWhile isKeyPart)

mutual

/-- A value and the text after it, white space around the value being skipped. -/
def valueWithin : Nat → Text → Option (Value × Text)
  | 0, _ => none
  | bound + 1, text =>
      let text := skipSpace text
      let read : Option (Value × Text) :=
        match Text.dropPrefix? "true".toList text, Text.dropPrefix? "false".toList text with
        | some rest, _ => some (.bool true, rest)
        | _, some rest => some (.bool false, rest)
        | none, none =>
            match text with
            | '\x7b' :: rest => (membersWithin bound [] rest).map fun read =>
                (.table .braces read.1, read.2)
            | '[' :: rest => (elementsWithin bound rest).map fun read => (.array read.1, read.2)
            | '"' :: rest => (Toml.Scalar.basic? .v10 rest).map fun read =>
                (.string read.1, read.2)
            | '\'' :: c :: '\'' :: rest => some (.string [c], rest)
            | '\'' :: _ => none
            | _ => some (plain (text.takeWhile fun c => !isSeparator c),
                text.dropWhile fun c => !isSeparator c)
      read.map fun read => (read.1, skipSpace read.2)

/-- Elements up to the closing bracket, which may follow a comma. -/
def elementsWithin : Nat → Text → Option (List Value × Text)
  | 0, _ => none
  | bound + 1, text =>
      match text with
      | ']' :: rest => some ([], rest)
      | _ => do
          let (value, rest) ← valueWithin bound text
          match rest with
          | ',' :: rest => do
              let (more, rest) ← elementsWithin bound rest
              some (value :: more, rest)
          | ']' :: rest => some ([value], rest)
          | _ => none

/-- Members up to the closing brace. A key given again takes the later value. -/
def membersWithin : Nat → Entries → Text → Option (Entries × Text)
  | 0, _, _ => none
  | bound + 1, entries, text =>
      match text with
      | '\x7d' :: rest => some (entries, rest)
      | _ => do
          let (key, rest) ← key? (skipSpace text)
          match skipSpace rest with
          | '=' :: rest => do
              let (value, rest) ← valueWithin bound rest
              let entries := if (entries.get? key).isSome then entries.replace key value
                else entries ++ [(key, value)]
              match rest with
              | ',' :: rest => membersWithin bound entries rest
              | '\x7d' :: rest => some (entries, rest)
              | _ => none
          | _ => none

end

/-- The value of a variable. -/
def value (text : Text) : Value :=
  if (Text.trim text).isEmpty then .string text
  else match valueWithin (2 * text.length + 2) text with
    | some (value, []) => value
    | _ => .string text

/-- A value under a path of keys. -/
def nest : List Text → Value → Value
  | [], value => value
  | key :: rest, value => .table .braces [(key, nest rest value)]

end Brewery.Settings.Variable
