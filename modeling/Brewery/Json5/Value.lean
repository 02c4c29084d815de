import Brewery.Decimal.Shortest
import Brewery.Text.Basic

/-!
Values of a data literal and the text in which a module exports them: two spaces for each
level, members in the order of their keys, and the shortest decimal for a number with a
fraction.
-/

namespace Brewery.Json5

inductive Value where
  | null
  | bool (truth : Bool)
  | integer (number : Int)
  | float (number : Binary64)
  | string (characters : Text)
  | array (elements : List Value)
  | object (members : List (Text × Value))

/-- Puts a member where its key belongs; a later member replaces an earlier one. -/
def insertMember (key : Text) (value : Value) : List (Text × Value) → List (Text × Value)
  | [] => [(key, value)]
  | (other, kept) :: rest =>
      if key = other then (key, value) :: rest
      else if Text.le key other then (key, value) :: (other, kept) :: rest
      else (other, kept) :: insertMember key value rest

def hexDigit (number : Nat) : Char := Nat.digitChar number

def escapeCharacter (c : Char) : Text :=
  if c = '"' then ['\\', '"']
  else if c = '\\' then ['\\', '\\']
  else if c = '\n' then ['\\', 'n']
  else if c = '\r' then ['\\', 'r']
  else if c = '\t' then ['\\', 't']
  else if c.toNat = 8 then ['\\', 'b']
  else if c.toNat = 12 then ['\\', 'f']
  else if c.toNat < 32 then
    "\\u00".toList ++ [hexDigit (c.toNat / 16), hexDigit (c.toNat % 16)]
  else [c]

def quoted (characters : Text) : Text := '"' :: characters.flatMap escapeCharacter ++ ['"']

/-- Digits with a point after the first `place` of them, zeros where digits lack. -/
def positional (digits : Text) (place : Int) : Text :=
  if place ≤ 0 then "0.".toList ++ List.replicate (-place).toNat '0' ++ digits
  else if digits.length ≤ place.toNat then
    digits ++ List.replicate (place.toNat - digits.length) '0' ++ ".0".toList
  else digits.take place.toNat ++ '.' :: digits.drop place.toNat

/-- One digit, a point before any others, and the exponent with its sign. -/
def scientific (digits : Text) (exponent : Int) : Text :=
  let mantissa := match digits with
    | first :: second :: rest => first :: '.' :: second :: rest
    | _ => digits
  let power := if exponent < 0 then '-' :: Text.ofNat exponent.natAbs
    else '+' :: Text.ofNat exponent.natAbs
  mantissa ++ 'e' :: power

/-- A number is written with a point from a hundred-thousandth to below ten million
billions, and with an exponent outside that range. -/
def floatText (number : Binary64) : Text :=
  let short := ShortDecimal.ofBinary64 number
  let digits := Text.ofNat short.digits
  let place : Int := digits.length + short.exponent
  let sign : Text := if number.negative then ['-'] else []
  sign ++ (if number.mantissa = 0 then "0.0".toList
    else if -5 < place && place ≤ 16 then positional digits place
    else scientific digits (place - 1))

def indentOf (depth : Nat) : Text := List.replicate (2 * depth) ' '

mutual

def Value.render (depth : Nat) : Value → Text
  | .null => "null".toList
  | .bool true => "true".toList
  | .bool false => "false".toList
  | .integer number => Text.ofInt number
  | .float number => floatText number
  | .string characters => quoted characters
  | .array elements =>
      if elements.isEmpty then "[]".toList
      else '[' :: renderElements (depth + 1) elements ++ '\n' :: indentOf depth ++ [']']
  | .object members =>
      if members.isEmpty then "\x7b\x7d".toList
      else '\x7b' :: renderMembers (depth + 1) members ++ '\n' :: indentOf depth ++ ['\x7d']

def renderElements (depth : Nat) : List Value → Text
  | [] => []
  | value :: rest =>
      '\n' :: indentOf depth ++ value.render depth ++
        (if rest.isEmpty then [] else ',' :: renderElements depth rest)

def renderMembers (depth : Nat) : List (Text × Value) → Text
  | [] => []
  | (key, value) :: rest =>
      '\n' :: indentOf depth ++ quoted key ++ ": ".toList ++ value.render depth ++
        (if rest.isEmpty then [] else ',' :: renderMembers depth rest)

end

end Brewery.Json5
