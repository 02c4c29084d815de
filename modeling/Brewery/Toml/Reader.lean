import Brewery.Toml.Definition
import Brewery.Toml.Scalar

/-!
Reading a settings file: lines that give keys their values and headers that open tables.
Bounds on the loops come from the length of the text, of which every step spends something.
-/

namespace Brewery.Toml

/-- Arrays and tables in braces may be nested less deep than this. -/
def depthLimit : Nat := 80

def isBareKey (c : Char) : Bool := c.isAlphanum || c = '_' || c = '-'

/-- The text after white space, newlines and comments. -/
def skipBlankWithin : Nat → Text → Text
  | 0, text => text
  | bound + 1, text =>
      let text := skipSpace text
      match text with
      | '#' :: rest => skipBlankWithin bound (rest.dropWhile isPlain)
      | _ =>
          match afterNewline? text with
          | some rest => skipBlankWithin bound rest
          | none => text

def skipBlank (text : Text) : Text := skipBlankWithin (text.length + 1) text

/-- The text after the end of a line, which may hold a comment first. -/
def afterLine? (text : Text) : Option Text :=
  let rest := match skipSpace text with
    | '#' :: rest => rest.dropWhile isPlain
    | rest => rest
  if rest.isEmpty then some [] else afterNewline? rest

/-- One part of a key. -/
def keyPart? (edition : Edition) (text : Text) : Option (Text × Text) :=
  match text with
  | '"' :: rest => Scalar.basic? edition rest
  | '\'' :: rest => Scalar.literal? rest
  | _ =>
      let key := text.takeWhile isBareKey
      if key.isEmpty then none else some (key, text.dropWhile isBareKey)

/-- A dotted key: the parts before the last one, the last one, and the text after both. -/
def keyWithin (edition : Edition) : Nat → Text → Option (List Text × Text × Text)
  | 0, _ => none
  | bound + 1, text => do
      let (part, rest) ← keyPart? edition (skipSpace text)
      match skipSpace rest with
      | '.' :: rest => do
          let (path, key, rest) ← keyWithin edition bound rest
          some (part :: path, key, rest)
      | rest => some ([], part, rest)

def key? (edition : Edition) (text : Text) : Option (List Text × Text × Text) :=
  keyWithin edition (text.length + 1) text

/-- What may stand between the parts of a table in braces. -/
def skipGap (edition : Edition) (text : Text) : Text :=
  match edition with
  | .v10 => skipSpace text
  | .v11 => skipBlank text

mutual

def valueWithin (edition : Edition) : (bound room : Nat) → Text → Option (Value × Text)
  | 0, _, _ => none
  | bound + 1, room, text =>
      match text with
      | '[' :: rest =>
          if room = 0 then none
          else (elementsWithin edition bound (room - 1) (skipBlank rest)).map fun read =>
            (.array read.1, read.2)
      | '\x7b' :: rest =>
          if room = 0 then none
          else match skipGap edition rest with
            | '\x7d' :: rest => some (.table .braces [], rest)
            | rest => (membersWithin edition bound (room - 1) [] rest).map fun read =>
                (.table .braces read.1, read.2)
      | c :: _ =>
          if c = '"' || c = '\'' then
            (Scalar.string? edition text).map fun read => (.string read.1, read.2)
          else Scalar.bare? edition text
      | [] => none

/-- Elements up to the closing bracket; a comma may follow the last. -/
def elementsWithin (edition : Edition) : (bound room : Nat) → Text → Option (List Value × Text)
  | 0, _, _ => none
  | bound + 1, room, text =>
      match text with
      | ']' :: rest => some ([], rest)
      | _ => do
          let (value, rest) ← valueWithin edition bound room text
          match skipBlank rest with
          | ',' :: rest => do
              let (more, rest) ← elementsWithin edition bound room (skipBlank rest)
              some (value :: more, rest)
          | ']' :: rest => some ([value], rest)
          | _ => none

/-- At least one member and the closing brace. -/
def membersWithin (edition : Edition) :
    (bound room : Nat) → Entries → Text → Option (Entries × Text)
  | 0, _, _, _ => none
  | bound + 1, room, entries, text => do
      let (path, key, rest) ← key? edition text
      match rest with
      | '=' :: rest => do
          let (value, rest) ← valueWithin edition bound room (skipSpace rest)
          let entries ← entries.define path key value .braces
          match skipGap edition rest with
          | '\x7d' :: rest => some (entries, rest)
          | ',' :: rest =>
              match edition, skipGap edition rest with
              | .v11, '\x7d' :: rest => some (entries, rest)
              | _, rest => membersWithin edition bound room entries rest
          | _ => none
      | _ => none

end

def value? (edition : Edition) (text : Text) : Option (Value × Text) :=
  valueWithin edition (2 * text.length + 1) depthLimit text

/-- A header: its path, the last key of it, and the text after the closing brackets. -/
def header? (edition : Edition) (closing text : Text) : Option (List Text × Text × Text) := do
  let (path, key, rest) ← key? edition text
  some (path, key, ← Text.dropPrefix? closing rest)

/-- Reads lines into the tables that are there; `current` is the path of the open table. -/
def linesWithin (edition : Edition) :
    (bound : Nat) → (current : List Text) → Entries → Text → Option Entries
  | 0, _, _, _ => none
  | bound + 1, current, entries, text =>
      match skipSpace text with
      | [] => some entries
      | '[' :: '[' :: rest => do
          let (path, key, rest) ← header? edition "]]".toList rest
          let entries ← entries.openElement path key
          linesWithin edition bound (path ++ [key]) entries (← afterLine? rest)
      | '[' :: rest => do
          let (path, key, rest) ← header? edition [']'] rest
          let entries ← entries.openTable path key
          linesWithin edition bound (path ++ [key]) entries (← afterLine? rest)
      | text =>
          match afterLine? text with
          | some rest => linesWithin edition bound current entries rest
          | none => do
              let (path, key, rest) ← key? edition text
              match rest with
              | '=' :: rest => do
                  let (value, rest) ← value? edition (skipSpace rest)
                  let entries ← entries.edit false
                    (fun origin inner => inner.define path key value origin) current .header
                  linesWithin edition bound current entries (← afterLine? rest)
              | _ => none

/-- The entries of a whole file. A byte order mark in front of it does not count. -/
def parse? (edition : Edition) (text : Text) : Option Entries :=
  let text := match text with
    | mark :: rest => if mark.toNat = 0xFEFF then rest else text
    | [] => []
  linesWithin edition (text.length + 2) [] [] text

end Brewery.Toml
