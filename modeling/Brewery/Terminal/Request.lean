import Brewery.Session.Basic
import Brewery.Source.Kind
import Brewery.Terminal.Words

/-!
What a command line asks for: to brew a tree or some files, to expand a file, to list the
symbols that files need, to set up a workspace, or to show the settings. The settings file
may be named before the command or after it; after it counts more.
-/

namespace Brewery.Terminal

inductive Request where
  | brew (paths : List Path) (formats : List SourceKind) (options : SessionOptions)
  | expand (file : Path) (strip noImports : Bool)
  | symbols (files : List Path)
  | init (force : Bool)
  | config

structure Invocation where
  request : Request
  settingsFile : Option Path

inductive Command where
  | brew
  | expand
  | symbols
  | init
  | config
  deriving DecidableEq

namespace Command

def all : List Command := [.brew, .expand, .symbols, .init, .config]

def name : Command → Text
  | .brew => "brew".toList
  | .expand => "expand".toList
  | .symbols => "symbols".toList
  | .init => "init".toList
  | .config => "config".toList

def ofName? (word : Text) : Option Command := all.find? fun command => command.name = word

def settingsFlag : Flag := ⟨"config", some 'c', .value⟩

def helpFlag : Flag := ⟨"help", some 'h', .help⟩

def flags : Command → List Flag
  | .brew =>
      [⟨"cielo", none, .switch⟩, ⟨"coffee", none, .switch⟩, ⟨"starbucks", none, .switch⟩,
        ⟨"data", none, .switch⟩, ⟨"force", some 'f', .switch⟩, ⟨"quiet", some 'q', .switch⟩,
        ⟨"debug", some 'd', .switch⟩, ⟨"watch", some 'w', .switch⟩,
        ⟨"execute", some 'x', .switch⟩]
  | .expand => [⟨"strip", none, .switch⟩, ⟨"no-imports", none, .switch⟩]
  | .symbols => []
  | .init => [⟨"force", some 'f', .switch⟩]
  | .config => []

def operands : Command → Operands
  | .brew => .many
  | .expand => .one
  | .symbols => .many
  | .init => .none
  | .config => .none

def grammar (command : Command) : Grammar :=
  ⟨command.flags ++ [settingsFlag, helpFlag], command.operands⟩

/-- The request that a command and its words make. -/
def request (command : Command) (words : Words) : Except UsageError Request :=
  let paths := words.operands.map Path.mk
  match command with
  | .brew =>
      if words.has "quiet" && words.has "debug" then .error .conflict
      else
        let formats := SourceKind.recognized.filter fun kind =>
          words.has (String.ofList kind.key)
        .ok (.brew paths formats ⟨words.has "force", words.has "quiet", words.has "debug",
          words.has "execute", words.has "watch"⟩)
  | .expand =>
      match paths with
      | file :: _ => .ok (.expand file (words.has "strip") (words.has "no-imports"))
      | [] => .error .missingArgument
  | .symbols => if paths.isEmpty then .error .missingArgument else .ok (.symbols paths)
  | .init => .ok (.init (words.has "force"))
  | .config => .ok .config

end Command

namespace Invocation

def helpWord : Text := "help".toList

/-- What may stand before the command. -/
def outerGrammar : Grammar :=
  ⟨[Command.settingsFlag, Command.helpFlag, ⟨"version", some 'V', .version⟩], .none⟩

def isCommandName (word : Text) : Bool :=
  word = helpWord || (Command.ofName? word).isSome

/-- The words after `help` name at most one command. -/
def helpFor : List Text → UsageError
  | [] => .help
  | [word] => if isCommandName word then .help else .invalidSubcommand
  | _ => .invalidSubcommand

/-- A word before the command that is no flag and no command. -/
def stray (outer : Words) (word : Text) : UsageError :=
  if outer.literal && isCommandName word then .unknownArgument else .invalidSubcommand

/-- Reads the words before the command, then those after it. Faults of the latter are told
first. -/
def readFrom (outer : Words) : List Text → Except UsageError Invocation
  | [] => do
      let outer ← outer.settle
      .error (if outer.options.isEmpty then .helpInstead else .missingSubcommand)
  | word :: rest =>
      let free := !outer.literal && !outer.expectsValue
      match Command.ofName? word with
      | some command =>
          if free then do
            let words ← Words.readAll command.grammar rest
            let request ← command.request words
            let outer ← outer.settle
            let name := Command.settingsFlag.name
            .ok ⟨request, ((words.option? name).or (outer.option? name)).map Path.mk⟩
          else advance word rest
      | none =>
          if free && word = helpWord then .error (helpFor rest) else advance word rest
where
  /-- A word that is not the command. -/
  advance (word : Text) (rest : List Text) : Except UsageError Invocation := do
    let flagged := !outer.literal && word.head? = some '-' && word ≠ ['-']
    if flagged || outer.expectsValue then readFrom (← outer.read outerGrammar word) rest
    else .error (stray outer word)

def read (words : List Text) : Except UsageError Invocation := readFrom Words.empty words

end Invocation
end Brewery.Terminal
