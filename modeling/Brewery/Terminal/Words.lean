import Brewery.Text.Basic

/-!
The words of a command line. Words that begin with a dash are flags: long ones stand alone,
short ones may be joined in one word, and a flag that wants a value takes it from its own
word or from the next. All other words are operands, and so is every word after `--`. A
value or operand is judged only when the next flag, or the end, shows that it is complete;
of two faults this decides which one is told.
-/

namespace Brewery.Terminal

inductive UsageError where
  | help
  | helpInstead
  | version
  | conflict
  | invalidValue
  | tooManyValues
  | unknownArgument
  | missingArgument
  | invalidSubcommand
  | missingSubcommand
  deriving DecidableEq

/-- What a flag does. -/
inductive Effect where
  | switch
  | value
  | help
  | version
  deriving DecidableEq

structure Flag where
  name : String
  letter : Option Char
  effect : Effect

/-- How many operands there may be. -/
inductive Operands where
  | none
  | one
  | many
  deriving DecidableEq

structure Grammar where
  flags : List Flag
  operands : Operands

/-- What has been read and not yet judged. -/
inductive Waiting where
  | nothing
  | option (name : String) (value : Option Text)
  | operands (values : List Text)

structure Words where
  switches : List String
  options : List (String × Text)
  operands : List Text
  waiting : Waiting
  /-- Whether all further words are operands. -/
  literal : Bool

namespace Words

def empty : Words := ⟨[], [], [], .nothing, false⟩

def has (words : Words) (name : String) : Bool := words.switches.elem name

def option? (words : Words) (name : String) : Option Text :=
  (words.options.find? fun option => option.1 = name).map Prod.snd

/-- Whether the next word is the value of a flag. -/
def expectsValue (words : Words) : Bool :=
  match words.waiting with
  | .option _ none => !words.literal
  | _ => false

/-- Takes the value of a flag, which may be given once and not be empty. -/
def giveOption (words : Words) (name : String) (value : Text) : Except UsageError Words :=
  if (words.option? name).isSome then .error .conflict
  else if value.isEmpty then .error .invalidValue
  else .ok { words with options := words.options ++ [(name, value)], waiting := .nothing }

/-- Judges what is waiting. -/
def settle (words : Words) : Except UsageError Words :=
  match words.waiting with
  | .nothing => .ok words
  | .option _ none => .error .invalidValue
  | .option name (some value) => words.giveOption name value
  | .operands values =>
      if values.any List.isEmpty then .error .invalidValue
      else .ok { words with operands := words.operands ++ values, waiting := .nothing }

/-- A flag without a value. A switch may be given once. -/
def flip (words : Words) (flag : Flag) : Except UsageError Words := do
  let words ← words.settle
  match flag.effect with
  | .help => .error .help
  | .version => .error .version
  | _ =>
      if words.has flag.name then .error .conflict
      else .ok { words with switches := words.switches ++ [flag.name] }

/-- A flag that wants a value, with the value that its own word holds. -/
def want (words : Words) (flag : Flag) (attached : Option Text) : Except UsageError Words := do
  let words ← words.settle
  match attached with
  | some value => words.giveOption flag.name value
  | none => .ok { words with waiting := .option flag.name none }

/-- A word after two dashes: a name, and perhaps a value after an equals sign. -/
def long (grammar : Grammar) (words : Words) (word : Text) : Except UsageError Words :=
  let name := word.takeWhile (· ≠ '=')
  let attached := match word.dropWhile (· ≠ '=') with
    | _ :: value => some value
    | [] => none
  match grammar.flags.find? fun flag => flag.name.toList = name with
  | none => .error .unknownArgument
  | some flag =>
      if flag.effect = .value then words.want flag attached
      else if attached.isSome then .error .tooManyValues
      else words.flip flag

/-- The letters after one dash. What follows a flag that wants a value is its value. -/
def short (grammar : Grammar) (words : Words) : Text → Except UsageError Words
  | [] => .ok words
  | letter :: rest =>
      match grammar.flags.find? fun flag => flag.letter = some letter with
      | none => .error .unknownArgument
      | some flag =>
          if flag.effect = .value then
            words.want flag (match rest with
              | [] => none
              | '=' :: value => some value
              | value => some value)
          else do
            let words ← words.flip flag
            short grammar words rest

def operand (grammar : Grammar) (words : Words) (word : Text) : Except UsageError Words :=
  match grammar.operands, words.waiting with
  | .none, _ => .error .unknownArgument
  | .many, .operands values => .ok { words with waiting := .operands (values ++ [word]) }
  | .one, .operands _ => .error .unknownArgument
  | kind, _ =>
      if kind = .one && !words.operands.isEmpty then .error .unknownArgument
      else do
        let words ← words.settle
        .ok { words with waiting := .operands [word] }

/-- Reads one word. -/
def read (grammar : Grammar) (words : Words) (word : Text) : Except UsageError Words :=
  if words.literal then words.operand grammar word
  else match word with
    | ['-', '-'] => .ok { words with literal := true }
    | '-' :: '-' :: rest => words.long grammar rest
    | '-' :: letter :: rest => words.short grammar (letter :: rest)
    | _ =>
        match words.waiting with
        | .option name none => .ok { words with waiting := .option name (some word) }
        | _ => words.operand grammar word

/-- Reads words to the end. -/
def readAll (grammar : Grammar) (words : List Text) : Except UsageError Words := do
  (← words.foldlM (read grammar) empty).settle

end Words
end Brewery.Terminal
