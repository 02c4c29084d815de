import Brewery.Text.Blank

/-!
The lines of a macro script. A logical line is read as the first of these that fits: the
end marker, the opening of a literal block, the opening of a block string, an include
directive, a blank line, a comment, and code. A line whose first character is `#` opens no
block, but may still be an include directive.
-/

namespace Brewery.Script

def fileToken : Text := "\x7b\x7bFILE\x7d\x7d".toList

def lineToken : Text := "\x7b\x7bLINE\x7d\x7d".toList

/-- A line of this alone ends the script. -/
def endMarker : Text := "__END__".toList

/-- What stands at the end of a line that goes on in the next. -/
def continuation : Char := '\\'

def blockQuote : Text := "\"\"\"".toList

def literalMark : Text := "<<<".toList

def includeWord : Text := "include".toList

inductive LineKind where
  | finish
  | literal (head tag : Text)
  | blockString
  | inclusion (indent target : Text)
  | blank
  | comment
  | code
  deriving DecidableEq

def isComment (line : Text) : Bool := (Text.trimStart line).head? = some '#'

def isTagCharacter (c : Char) : Bool := c.isAlphanum || c = '_'

/-- `head <<<TAG`: what stands before the mark, and the tag at the end of the line. -/
def literalOpening? (line : Text) : Option (Text × Text) :=
  let backwards := (Text.trimEnd line).reverse
  let tag := (backwards.takeWhile isTagCharacter).reverse
  match Text.dropSuffix? literalMark (backwards.dropWhile isTagCharacter).reverse, tag with
  | some head, first :: _ => if first.isDigit then none else some (head, tag)
  | _, _ => none

/-- A target without the one pair of quotes around it. -/
def unquote (target : Text) : Text :=
  let within (opening closing : Char) : Option Text :=
    (Text.dropPrefix? [opening] target).bind (Text.dropSuffix? [closing])
  ((within '"' '"').orElse fun _ => (within '\'' '\'').orElse fun _ => within '<' '>').getD target

/-- `include target` or `#include target`, with its indentation. -/
def inclusion? (line : Text) : Option (Text × Text) :=
  let body := Text.trimStart line
  match Text.dropPrefix? includeWord ((Text.dropPrefix? ['#'] body).getD body) with
  | some (first :: rest) =>
      let raw := Text.trim rest
      if Text.isBlank first && !raw.isEmpty && !raw.elem '\n' then
        some (Text.indentation line, unquote raw)
      else none
  | _ => none

def classify (line : Text) : LineKind :=
  if Text.trim line = endMarker then .finish
  else
    let plain (_ : Unit) : LineKind :=
      match inclusion? line with
      | some (indent, target) => .inclusion indent target
      | none =>
          if (Text.trim line).isEmpty then .blank
          else if isComment line then .comment else .code
    if isComment line then plain ()
    else match literalOpening? line with
      | some (head, tag) => .literal head tag
      | none => if Text.occurrences blockQuote line % 2 = 1 then .blockString else plain ()

def continues (line : Text) : Bool :=
  !isComment line && (Text.trimEnd line).getLast? = some continuation

/-- A continued line and the next one, with one space where they meet. -/
def joinContinuation (head next : Text) : Text :=
  let head := Text.trimEnd head
  let head := Text.trimEnd ((Text.dropSuffix? [continuation] head).getD head)
  head ++ ' ' :: Text.trimStart next

def closesLiteral (tag line : Text) : Bool := Text.trim line = tag

def closesBlockString (line : Text) : Bool := Text.contains blockQuote line

/-- A line of a literal block as block string content: a backslash, three quotes and `#`
before a brace are all that a block string would not read as itself. -/
def escapeBlockLine (line : Text) : Text :=
  Text.replace "#\x7b".toList "\\#\x7b".toList
    (Text.replace blockQuote "\\\"\\\"\\\"".toList
      (Text.replace ['\\'] ['\\', '\\'] line))

/-- Puts the file's name and the line's number in the place of their tokens. -/
def substitute (name : Text) (number : Nat) (line : Text) : Text :=
  Text.replace lineToken (Text.ofNat number) (Text.replace fileToken name line)

end Brewery.Script
