import Brewery.Toml.Reader

/-!
How strings, keys and arrays are written. A string gets the plainest quotes in which it needs
no backslash: double, single, three double, three single. Only a string that has none of
these is written with backslashes. A newline makes the three quotes stand on a line of their
own.
-/

namespace Brewery.Toml

/-- Control characters that no quotes let stand for themselves. -/
def needsCode (c : Char) : Bool := (c.toNat < 32 && c ≠ '\t' && c ≠ '\n') || c.toNat = 127

/-- The longest run of a character. -/
def longestRun (wanted : Char) : (run : Nat) → Text → Nat
  | run, [] => run
  | run, c :: rest =>
      if c = wanted then longestRun wanted (run + 1) rest
      else max run (longestRun wanted 0 rest)

def upperHexDigit (number : Nat) : Char :=
  if number < 10 then Char.ofNat (48 + number) else Char.ofNat (55 + number)

def code (c : Char) : Text :=
  "\\u00".toList ++ [upperHexDigit (c.toNat / 16), upperHexDigit (c.toNat % 16)]

/-- A string between double quotes. In three quotes, `long`, newlines stand for themselves
and so do quotes, up to two in a row. -/
def escape (long : Bool) : (run : Nat) → Text → Text
  | _, [] => []
  | run, c :: rest =>
      if c = '"' then
        if long && run < 2 then c :: escape long (run + 1) rest
        else '\\' :: c :: escape long 0 rest
      else if c = '\n' && long then c :: escape long 0 rest
      else
        let written := if c = '\\' then ['\\', '\\']
          else if c = '\t' then ['\\', 't']
          else if c = '\n' then ['\\', 'n']
          else if c = '\r' then ['\\', 'r']
          else if c.toNat = 8 then ['\\', 'b']
          else if c.toNat = 12 then ['\\', 'f']
          else if needsCode c then code c
          else [c]
        written ++ escape long 0 rest

def inBasic (text : Text) : Text := '"' :: escape false 0 text ++ ['"']

def inLiteral (text : Text) : Text := '\'' :: text ++ ['\'']

/-- The three quotes that open a long string. -/
def openLong (quote : Char) (text : Text) : Text :=
  List.replicate 3 quote ++ (if '\n' ∈ text then ['\n'] else [])

def inLongBasic (text : Text) : Text :=
  openLong '"' text ++ escape true 0 text ++ List.replicate 3 '"'

def inLongLiteral (text : Text) : Text := openLong '\'' text ++ text ++ List.replicate 3 '\''

def quoted (text : Text) : Text :=
  let codes := text.any needsCode
  let newline := text.any (· = '\n')
  let backslash := text.any (· = '\\')
  let double := longestRun '"' 0 text
  let single := longestRun '\'' 0 text
  if !codes && !backslash && double = 0 && !newline then inBasic text
  else if !codes && single = 0 && !newline then inLiteral text
  else if !codes && !backslash && double ≤ 2 then inLongBasic text
  else if !codes && single ≤ 2 then inLongLiteral text
  else if newline then inLongBasic text
  else inBasic text

def keyText (key : Text) : Text :=
  let codes := key.any fun c => needsCode c || c = '\n'
  if !key.isEmpty && key.all isBareKey then key
  else if !codes && !key.any fun c => c = '\\' || c = '"' then inBasic key
  else if !codes && !key.any (· = '\'') then inLiteral key
  else inBasic key

/-- An array with more than one element has a line for each. -/
def arrayText (elements : List Text) : Text :=
  match elements with
  | [] => "[]".toList
  | [element] => '[' :: element ++ [']']
  | _ => '[' :: elements.flatMap (fun element => "\n    ".toList ++ element ++ [',']) ++
      "\n]".toList

def line (key : String) (value : Text) : Text :=
  key.toList ++ " = ".toList ++ value ++ ['\n']

def headline (name : String) : Text := "\n[".toList ++ name.toList ++ "]\n".toList

end Brewery.Toml
