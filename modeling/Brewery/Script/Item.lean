import Brewery.Script.Line

/-!
The items of a script: what its lines say before any other file is looked at. Lines that
continue are joined, tokens are replaced by the file's name and the number of the physical
line they stand on, and a block is taken whole with all its lines. A block that is never
closed ends the list, as the end marker does, so nothing after either is an item.
-/

namespace Brewery.Script

inductive Item where
  | blank
  | comment (line : Text)
  | code (line : Text)
  | block (opening : Text) (content : List Text) (closing : Text)
  | inclusion (number : Nat) (directive indent target : Text)
  | unterminated (number : Nat) (directive : Text)
  deriving DecidableEq

/-- The lines of a text; a newline at the very end opens no line. -/
def physicalLines (text : Text) : List Text :=
  let body := (Text.dropSuffix? ['\n'] text).getD text
  if body.isEmpty then [] else Text.splitAt '\n' body

/-- A line under construction, the number of the line after it, and the lines from there. -/
structure Gathered where
  line : Text
  number : Nat
  rest : List Text

/-- Joins lines for as long as the joined line continues. The end marker is never joined. -/
def gather (name : Text) (number : Nat) (line : Text) : List Text → Gathered
  | [] => ⟨line, number, []⟩
  | next :: rest =>
      if continues line && Text.trim next ≠ endMarker then
        gather name (number + 1) (joinContinuation line (substitute name number next)) rest
      else ⟨line, number, next :: rest⟩

/-- The logical line that starts with a physical line of the given number. -/
def logicalLine (name : Text) (number : Nat) (first : Text) (rest : List Text) : Gathered :=
  let line := substitute name number first
  if continues first then gather name (number + 1) line rest else ⟨line, number + 1, rest⟩

/-- The lines up to the first that closes, that line, and the lines after it. -/
def close? (closes : Text → Bool) : List Text → Option (List Text × Text × List Text)
  | [] => none
  | line :: rest =>
      if closes line then some ([], line, rest)
      else (close? closes rest).map fun found => (line :: found.1, found.2)

theorem gather_length (name : Text) (number : Nat) (line : Text) (rest : List Text) :
    (gather name number line rest).rest.length ≤ rest.length := by
  induction rest generalizing number line with
  | nil => simp [gather]
  | cons next rest ih =>
      simp only [gather]
      split
      · exact Nat.le_succ_of_le (ih _ _)
      · simp

theorem logicalLine_length (name : Text) (number : Nat) (first : Text) (rest : List Text) :
    (logicalLine name number first rest).rest.length ≤ rest.length := by
  simp only [logicalLine]
  split
  · exact gather_length _ _ _ _
  · simp

theorem close?_length {closes : Text → Bool} {lines content : List Text} {closing : Text}
    {after : List Text} (found : close? closes lines = some (content, closing, after)) :
    lines.length = content.length + 1 + after.length := by
  induction lines generalizing content with
  | nil => simp [close?] at found
  | cons line rest ih =>
      simp only [close?] at found
      split at found
      · simp only [Option.some.injEq, Prod.mk.injEq] at found
        obtain ⟨rfl, _, rfl⟩ := found
        simp; omega
      · cases next : close? closes rest with
        | none => simp [next] at found
        | some more =>
            obtain ⟨inner, last, tail⟩ := more
            simp only [next, Option.map_some, Option.some.injEq, Prod.mk.injEq] at found
            obtain ⟨rfl, rfl, rfl⟩ := found
            have := ih next
            simp; omega

/-- The items of the lines of the file `name`, the first line having the given number. -/
def items (name : Text) (number : Nat) : List Text → List Item
  | [] => []
  | first :: rest =>
      let logical := logicalLine name number first rest
      have := logicalLine_length name number first rest
      match classify logical.line with
      | .finish => []
      | .blank => .blank :: items name logical.number logical.rest
      | .comment => .comment logical.line :: items name logical.number logical.rest
      | .code => .code logical.line :: items name logical.number logical.rest
      | .inclusion indent target =>
          .inclusion number (Text.trim logical.line) indent target ::
            items name logical.number logical.rest
      | .literal head tag =>
          match found : close? (closesLiteral tag) logical.rest with
          | none => [.unterminated number (Text.trim logical.line)]
          | some (content, closing, after) =>
              .block (head ++ blockQuote) (content.map escapeBlockLine)
                  (Text.indentation closing ++ blockQuote) ::
                items name (logical.number + content.length + 1) after
      | .blockString =>
          match found : close? closesBlockString logical.rest with
          | none => [.unterminated number (Text.trim logical.line)]
          | some (content, closing, after) =>
              .block logical.line content closing ::
                items name (logical.number + content.length + 1) after
termination_by lines => lines.length
decreasing_by
  all_goals simp only [List.length_cons]
  all_goals first
    | omega
    | have := close?_length ‹_›; simp only [logical] at this; omega

/-- The items of a whole script. -/
def itemsOf (name text : Text) : List Item := items name 1 (physicalLines text)

end Brewery.Script
