import Brewery.Coffee.Lexer

/-!
Which names a text uses and which it binds. This reads tokens from left to right with the
token before and those after, and knows the forms that bind: assignments, destructuring at
the start of a statement, parameters before an arrow, loop variables, the names of classes
and of caught errors, and imports. A property, an object key and a keyword are no use.
-/

namespace Brewery.Coffee

inductive Occurrence where
  | used (name : Text)
  | declared (name : Text)
  deriving DecidableEq

def keywords : List Text :=
  ["if", "else", "unless", "then", "when", "switch", "while", "until", "loop", "for", "in", "of",
    "by", "own", "return", "break", "continue", "class", "extends", "new", "delete", "typeof",
    "instanceof", "try", "catch", "finally", "throw", "yes", "no", "on", "off", "true", "false",
    "null", "undefined", "this", "super", "and", "or", "not", "is", "isnt", "do", "await",
    "yield", "import", "export", "from", "as", "default", "async", "function", "var", "let",
    "const", "void", "debugger", "with"].map String.toList

def assignments : List Text :=
  ["||=", "&&=", "?=", "+=", "-=", "*=", "/=", "%="].map String.toList

def opens (token : Token) : Bool :=
  token = .sign '(' || token = .sign '\x7b' || token = .sign '['

def closes (token : Token) : Bool :=
  token = .sign ')' || token = .sign '\x7d' || token = .sign ']'

/-- After these a name is a property. -/
def selects (token : Token) : Bool :=
  token = .sign '.' || token = .sign '@' || token = .operator "?.".toList ||
    token = .operator "::".toList

def assigns (token : Token) : Bool :=
  match token with
  | .sign c => c = '='
  | .operator spelling => assignments.elem spelling
  | _ => false

/-- The tokens up to the one that closes `depth` open groups, and the tokens after it.
Brackets of one kind may close those of another. -/
def group? : (depth : Nat) → List Token → Option (List Token × List Token)
  | _, [] => none
  | depth, token :: rest =>
      if closes token then
        match depth with
        | 0 | 1 => some ([], rest)
        | depth + 2 => (group? (depth + 1) rest).map fun found => (token :: found.1, found.2)
      else
        (group? (if opens token then depth + 1 else depth) rest).map fun found =>
          (token :: found.1, found.2)

/-- In a pattern a name is bound after these. -/
def leadsPattern (token : Token) : Bool :=
  opens token || token = .sign ',' || token = .sign ':' || token = .operator "...".toList

/-- The names that the inside of a group of parameters or of a pattern binds. -/
def patternNames (previous : Token) : List Token → List Occurrence
  | [] => []
  | token :: rest =>
      let bound := match token with
        | .word name =>
            if leadsPattern previous && rest.head? ≠ some (.sign ':') then [.declared name] else []
        | _ => []
      bound ++ patternNames token rest

/-- Names bound by a group that opens here and that the given tokens may follow. -/
def groupNames (opening : Token) (follows : Token → Bool) (rest : List Token) :
    List Occurrence :=
  match group? 1 rest with
  | some (inside, next :: _) => if follows next then patternNames opening inside else []
  | _ => []

/-- The variables of a loop: the words up to `in` or `of`. -/
def loopNames : List Token → List Occurrence
  | [] => []
  | .newline :: _ => []
  | .word name :: rest =>
      if name = "in".toList || name = "of".toList then []
      else if name = "own".toList then loopNames rest
      else .declared name :: loopNames rest
  | _ :: rest => loopNames rest

/-- The tokens of an import statement and those after it. It ends at a newline or a
semicolon outside braces. -/
def splitImport : (depth : Nat) → List Token → List Token × List Token
  | _, [] => ([], [])
  | depth, token :: rest =>
      if depth = 0 && (token = .newline || token = .sign ';') then ([], rest)
      else
        let depth := if token = .sign '\x7b' then depth + 1
          else if token = .sign '\x7d' then depth - 1 else depth
        let next := splitImport depth rest
        (token :: next.1, next.2)

/-- The local names of an import statement; a name before `as` is not one of them. -/
def importNames : List Token → List Occurrence
  | [] => []
  | .word name :: rest =>
      if name = "from".toList || name = "as".toList then importNames rest
      else if rest.head? = some (.word "as".toList) then importNames rest
      else .declared name :: importNames rest
  | _ :: rest => importNames rest

/-- What a word that is no keyword of binding says about its own name. -/
def wordOccurrences (previous : Option Token) (name : Text) (rest : List Token) :
    List Occurrence :=
  if keywords.elem name || previous.any selects || rest.head? = some (.sign ':') then []
  else if rest.head?.any assigns then [.declared name, .used name]
  else [.used name]

theorem splitImport_length (depth : Nat) (tokens : List Token) :
    (splitImport depth tokens).2.length ≤ tokens.length := by
  induction tokens generalizing depth with
  | nil => simp [splitImport]
  | cons token rest ih =>
      simp only [splitImport]
      split
      · simp
      · exact Nat.le_succ_of_le (ih _)

/-- What one token says of names, between the token before it and those after it. -/
def tokenOccurrences (previous : Option Token) (atStart : Bool) (token : Token)
    (rest : List Token) : List Occurrence :=
  match token with
  | .word name =>
      if name = "for".toList then loopNames rest
      else if name = "class".toList || name = "catch".toList then
        match rest with
        | .word bound :: _ => [.declared bound]
        | _ => []
      else wordOccurrences previous name rest
  | .sign c =>
      if c = '(' then
        groupNames token (fun next =>
          next = .operator "->".toList || next = .operator "=>".toList) rest
      else if atStart && (c = '\x7b' || c = '[') then
        groupNames token (fun next => next = .sign '=') rest
      else []
  | _ => []

/-- All occurrences of names, in order. -/
def occurrences (previous : Option Token) (atStart : Bool) : List Token → List Occurrence
  | [] => []
  | token :: rest =>
      if token = .newline || token = .sign ';' then occurrences (some token) true rest
      else if atStart && token = .word "import".toList then
        have := splitImport_length 0 rest
        importNames (splitImport 0 rest).1 ++ occurrences none true (splitImport 0 rest).2
      else tokenOccurrences previous atStart token rest ++ occurrences (some token) false rest
termination_by tokens => tokens.length
decreasing_by all_goals simp only [List.length_cons]; omega

/-- The names a text uses, in the order of their first use, and those it binds. -/
structure Bindings where
  used : List Text
  declared : List Text

namespace Bindings

def ofOccurrences (found : List Occurrence) : Bindings where
  used := (found.filterMap fun occurrence => match occurrence with
    | .used name => some name
    | .declared _ => none).eraseDups
  declared := (found.filterMap fun occurrence => match occurrence with
    | .declared name => some name
    | .used _ => none).eraseDups

/-- Names used and not bound. -/
def free (bindings : Bindings) : List Text :=
  bindings.used.filter fun name => !bindings.declared.elem name

/-- The bound names in order. -/
def sortedDeclared (bindings : Bindings) : List Text := bindings.declared.mergeSort Text.le

end Bindings

def scan (text : Text) : Bindings :=
  Bindings.ofOccurrences (occurrences none true (tokens text))

end Brewery.Coffee
