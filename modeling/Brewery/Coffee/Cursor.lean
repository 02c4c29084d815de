import Brewery.Coffee.Lexer

/-!
Tokens by position. The lexer as a cursor that moves over the characters of a text: code is read in
turns, a string calls for the code of its interpolations and that for the strings in it. A backslash
takes the next character with it even where there is none, so the cursor may come to stand behind
the end of the text. What must never happen is a breach; a reader that never comes to an end has no
result at all.
-/

namespace Brewery.Coffee

/-- What a reader by position must not do. -/
inductive Breach where
  /-- Take a slice that is not in the text. -/
  | slice (first last : Nat)
  /-- Close a group that is not open. -/
  | depth
  /-- Look at a token that is neither in the list nor at its end. -/
  | index (place : Nat)

/-- A result, a breach, or nothing where there is no end. -/
abbrev Checked := ExceptT Breach Option

/-- The characters from a position up to another. -/
def slice (text : Text) (first last : Nat) : Checked Text :=
  if first ≤ last ∧ last ≤ text.length then pure ((text.drop first).take (last - first))
  else throw (.slice first last)

/-- Whether a pattern stands at a position. -/
def stands (text : Text) (position : Nat) (pattern : Text) : Bool :=
  pattern.zipIdx.all fun entry => text[position + entry.2]? = some entry.1

structure Cursor where
  position : Nat
  tokens : List Token

namespace Cursor

def goTo (cursor : Cursor) (position : Nat) : Cursor := { cursor with position := position }

def ahead (cursor : Cursor) (count : Nat) : Cursor := cursor.goTo (cursor.position + count)

def push (cursor : Cursor) (token : Token) : Cursor :=
  { cursor with tokens := cursor.tokens ++ [token] }

/-- Moves forward for as long as it goes on where the cursor is. -/
def seek (goes : Nat → Bool) (cursor : Cursor) : Checked Cursor :=
  if goes cursor.position then cursor.ahead 1 |>.seek goes else pure cursor
partial_fixpoint

/-- Where the loop over code is after a turn: at an end, or at a depth of braces. -/
structure Turn where
  depth? : Option Nat
  cursor : Cursor

variable (text : Text)

/-- Whether a quote stands three times where the cursor is. -/
def isTriple (quote : Char) (cursor : Cursor) : Bool :=
  text[cursor.position + 1]? = some quote && text[cursor.position + 2]? = some quote

def comment (cursor : Cursor) : Checked Cursor :=
  if stands text cursor.position commentMark && text[cursor.position + 3]? ≠ some '#' then do
    let last ← (cursor.ahead 3).seek fun place =>
      text[place]?.isSome && !stands text place commentMark
    pure (last.goTo (min (last.position + 3) text.length))
  else cursor.seek fun place => text[place]?.any (· ≠ '\n')

def word (cursor : Cursor) : Checked Cursor := do
  let last ← cursor.seek fun place => text[place]?.any isWordCharacter
  let name ← slice text cursor.position last.position
  pure (last.push (.word name))

def number (cursor : Cursor) : Checked Cursor := do
  let last ← cursor.seek fun place => text[place]?.any fun c =>
    c.isAlphanum || c = '_' || (c = '.' && text[place + 1]?.any Char.isDigit)
  pure (last.push .literal)

def operator (cursor : Cursor) : Cursor :=
  match operators.find? (stands text cursor.position) with
  | some spelling => (cursor.ahead spelling.length).push (.operator spelling)
  | none =>
      match text[cursor.position]? with
      | some c => (cursor.ahead 1).push (.sign c)
      | none => cursor

mutual

/-- Reads code to the end of the text, or over the brace that closes an interpolation. -/
def code (inside : Bool) (depth : Nat) (cursor : Cursor) : Checked Cursor :=
  match text[cursor.position]? with
  | none => pure cursor
  | some c => do
      let turned ← cursor |>.turn inside depth c
      match turned.depth? with
      | some depth => turned.cursor |>.code inside depth
      | none => pure turned.cursor
partial_fixpoint

/-- One turn of the loop over code, at a character. -/
def turn (inside : Bool) (depth : Nat) (c : Char) (cursor : Cursor) : Checked Turn :=
  if c = '\n' then pure ⟨some depth, (cursor.ahead 1).push .newline⟩
  else if Text.isBlank c then pure ⟨some depth, cursor.ahead 1⟩
  else if c = '#' then do
    let cursor ← comment text cursor
    pure ⟨some depth, cursor⟩
  else if isQuote c then do
    let triple := isTriple text c cursor
    let cursor ← cursor.ahead (if triple then 3 else 1) |>.string c triple
    pure ⟨some depth, cursor⟩
  else if isWordStart c then do
    let cursor ← word text cursor
    pure ⟨some depth, cursor⟩
  else if c.isDigit then do
    let cursor ← number text cursor
    pure ⟨some depth, cursor⟩
  else if c = '\x7b' then pure ⟨some (depth + 1), (cursor.ahead 1).push (.sign '\x7b')⟩
  else if c = '\x7d' then
    if inside && depth = 0 then pure ⟨none, cursor.ahead 1⟩
    else pure ⟨some (depth - 1), (cursor.ahead 1).push (.sign '\x7d')⟩
  else pure ⟨some depth, operator text cursor⟩
partial_fixpoint

/-- Reads a string behind its opening quotes. -/
def string (quote : Char) (triple : Bool) (cursor : Cursor) : Checked Cursor :=
  match text[cursor.position]? with
  | none => pure (cursor.push .literal)
  | some c =>
      if c = '\\' then cursor.ahead 2 |>.string quote triple
      else if quote = '"' && c = '#' && text[cursor.position + 1]? = some '\x7b' then do
        let cursor ← cursor.ahead 2 |>.code true 0
        cursor |>.string quote triple
      else if c = quote && (!triple || isTriple text quote cursor) then
        pure ((cursor.ahead (if triple then 3 else 1)).push .literal)
      else cursor.ahead 1 |>.string quote triple
partial_fixpoint

end

/-- The tokens of a text. -/
def tokenize : Checked (List Token) := do
  let cursor ← code text false 0 ⟨0, []⟩
  pure cursor.tokens

end Cursor

end Brewery.Coffee
