import Brewery.Coffee.Bindings
import Brewery.Coffee.Cursor

/-!
Names by index. The tokens are walked over from the first to the last; at each the token before it
and those after it are looked at by their indices, groups by the index of the token that closes them,
and an import statement hands back the index behind it. To look is allowed up to the end of the list.
-/

namespace Brewery.Coffee

/-- Tokens that are looked at by their indices. -/
abbrev Tokens := List Token

namespace Tokens

variable (tokens : Tokens)

/-- The token at an index, which has none at the end of the list. -/
def look (place : Nat) : Checked (Option Token) :=
  if place ≤ tokens.length then pure tokens[place]? else throw (.index place)

/-- The token at an index in the list. -/
def fetch (place : Nat) : Checked Token :=
  match tokens[place]? with
  | some token => pure token
  | none => throw (.index place)

/-- The token before an index, which the first has not. -/
def before (place : Nat) : Checked (Option Token) :=
  match place with
  | 0 => pure none
  | place + 1 => look tokens place

/-- The index of the token that closes the last open group of some depth, among tokens that begin at
an index. Brackets of one kind may close those of another. -/
def closeFrom (place depth : Nat) : List Token → Checked (Option Nat)
  | [] => pure none
  | token :: rest =>
      if opens token then closeFrom (place + 1) (depth + 1) rest
      else if closes token then
        match depth with
        | 0 => throw .depth
        | 1 => pure (some place)
        | depth + 2 => closeFrom (place + 1) (depth + 1) rest
      else closeFrom (place + 1) depth rest

/-- The index of the token that closes the group which another opens. -/
def matchingClose (opening : Nat) : Checked (Option Nat) :=
  if opening ≤ tokens.length then closeFrom opening 0 (tokens.drop opening)
  else throw (.slice opening tokens.length)

/-- The name that is bound at an index in a group. -/
def boundAt (place : Nat) : Checked (List Occurrence) := do
  match ← fetch tokens place with
  | .word name =>
      let previous ← before tokens place
      let next ← look tokens (place + 1)
      pure (if previous.any leadsPattern && next ≠ some (.sign ':') then [.declared name] else [])
  | _ => pure []

/-- The names that are bound between two indices. -/
def bindGroup (opening close : Nat) : Checked (List Occurrence) := do
  let found ← (List.range' (opening + 1) (close - (opening + 1))).mapM (boundAt tokens)
  pure found.flatten

/-- The names that a group binds which opens at an index, and which the given tokens may follow. -/
def group (opening : Nat) (follows : Token → Bool) : Checked (List Occurrence) := do
  match ← matchingClose tokens opening with
  | none => pure []
  | some close =>
      let next ← look tokens (close + 1)
      if next.any follows then bindGroup tokens opening close else pure []

/-- The variables of a loop, from an index on. -/
def loopFrom (tokens : Tokens) (place : Nat) : Checked (List Occurrence) := do
  match ← look tokens place with
  | none => pure []
  | some .newline => pure []
  | some (.word name) =>
      if name = "in".toList || name = "of".toList then pure []
      else
        let more ← tokens |>.loopFrom (place + 1)
        pure (if name = "own".toList then more else .declared name :: more)
  | some _ => tokens |>.loopFrom (place + 1)
partial_fixpoint

/-- The local names of an import statement from an index on, and the index behind it. -/
def importFrom (tokens : Tokens) (place depth : Nat) : Checked (List Occurrence × Nat) := do
  match ← look tokens place with
  | none => pure ([], place)
  | some token =>
      if depth = 0 && (token = .newline || token = .sign ';') then pure ([], place + 1)
      else
        let named ← match token with
          | .word name =>
              if name = "from".toList || name = "as".toList then pure []
              else
                let next ← look tokens (place + 1)
                pure (if next = some (.word "as".toList) then [] else [.declared name])
          | _ => pure []
        let depth := if token = .sign '\x7b' then depth + 1
          else if token = .sign '\x7d' then depth - 1 else depth
        let (more, behind) ← tokens |>.importFrom (place + 1) depth
        pure (named ++ more, behind)
partial_fixpoint

/-- What a word that is no keyword of binding says about its own name. -/
def nameAt (place : Nat) (name : Text) : Checked (List Occurrence) := do
  if keywords.elem name then pure []
  else
    let previous ← before tokens place
    if previous.any selects then pure []
    else
      let next ← look tokens (place + 1)
      if next = some (.sign ':') then pure []
      else if next.any assigns then pure [.declared name, .used name]
      else pure [.used name]

/-- What the token at an index says of names. -/
def occurrencesAt (place : Nat) (atStart : Bool) (token : Token) : Checked (List Occurrence) :=
  match token with
  | .word name =>
      if name = "for".toList then loopFrom tokens (place + 1)
      else if name = "class".toList || name = "catch".toList then do
        match ← look tokens (place + 1) with
        | some (.word bound) => pure [.declared bound]
        | _ => pure []
      else nameAt tokens place name
  | .sign c =>
      if c = '(' then
        group tokens place fun next => next = .operator "->".toList || next = .operator "=>".toList
      else if atStart && (c = '\x7b' || c = '[') then
        group tokens place fun next => next = .sign '='
      else pure []
  | _ => pure []

/-- All occurrences of names from an index on, in order. -/
def walk (tokens : Tokens) (place : Nat) (atStart : Bool) : Checked (List Occurrence) :=
  if place < tokens.length then do
    let token ← fetch tokens place
    if token = .newline || token = .sign ';' then tokens |>.walk (place + 1) true
    else if atStart && token = .word "import".toList then
      let (names, behind) ← importFrom tokens (place + 1) 0
      let more ← tokens |>.walk behind true
      pure (names ++ more)
    else
      let found ← occurrencesAt tokens place atStart token
      let more ← tokens |>.walk (place + 1) false
      pure (found ++ more)
  else pure []
partial_fixpoint

end Tokens

/-- The names a text uses and binds, with everything looked up by position and index. -/
def scanByPlace (text : Text) : Checked Bindings := do
  let tokens ← Cursor.tokenize text
  let found ← Tokens.walk tokens 0 true
  pure (Bindings.ofOccurrences found)

end Brewery.Coffee
