import Brewery.Import.Registry
import Brewery.Session.Execution
import Brewery.Settings.Printer
import Brewery.Settings.Reader
import Brewery.Terminal.Request
import Brewery.Terminal.Starter
import Brewery.Terminal.Targets
import Brewery.Tree.Watching

/-!
Doing what a command line asks for, on a disk and in an environment. The answer holds all
that can be seen afterwards: the disk, the log, what was printed, and the error that ended
the command, if one did.
-/

namespace Brewery.Terminal

inductive CommandError where
  | target (error : TargetError)
  | settings
  | init (message : Text)
  | registry (error : RegistryError)
  | expand (error : ExpandError)
  | build (error : BuildError)
  | scan (error : TreeError)
  | read (path : Path) (fault : Fault)
  deriving DecidableEq

def CommandError.message : CommandError → Text
  | .target error => error.message
  | .settings => "configuration error: ".toList
  | .init message => message
  | .registry error => error.message
  | .expand error => error.message
  | .build error => error.message
  | .scan error => error.message
  | .read path fault => "cannot read ".toList ++ path.text ++ ": ".toList ++ fault.message

structure Answer where
  disk : Disk
  log : Log
  output : Text
  result : Except CommandError Unit

namespace Answer

def failed (disk : Disk) (log : Log) (error : CommandError) : Answer :=
  ⟨disk, log, [], .error error⟩

end Answer

/-- The directory that a file is in, as its path says. -/
def baseDirectory (file : Path) : Path := file.parent?.getD (Path.ofString ".")

/-- A file with its includes in place, without a prelude. -/
def expanded (settings : Settings) (disk : Disk) (file : Path) (policy : LinePolicy) :
    Except ExpandError Text :=
  Expander.expandFile ⟨policy, settings.includePaths (baseDirectory file)⟩ disk file

def tableFor (settings : Settings) (disk : Disk) (file : Path) :
    Log × Except RegistryError SymbolTable :=
  SymbolTable.load disk (settings.symbolsPath disk (baseDirectory file))

/-- Prints one file as it is handed to the script compiler. -/
def performExpand (settings : Settings) (disk : Disk) (file : Path) (strip noImports : Bool) :
    Answer :=
  match expanded settings disk file (if strip then .strip else .retain) with
  | .error error => .failed disk [] (.expand error)
  | .ok text =>
      if noImports then ⟨disk, [], text, .ok ()⟩
      else match tableFor settings disk file with
        | (log, .error error) => .failed disk log (.registry error)
        | (log, .ok table) => ⟨disk, log ++ table.applyLog text, table.apply text, .ok ()⟩

/-- The text of a file as far as its symbols matter: macro scripts are expanded first. -/
def scriptText (settings : Settings) (disk : Disk) (file : Path) : Except CommandError Text :=
  if SourceKind.ofPath file = .macroScript then
    match expanded settings disk file .retain with
    | .ok text => .ok text
    | .error error => .error (.expand error)
  else match disk.readText file with
    | .ok text => .ok text
    | .error fault => .error (.read file fault)

/-- The symbols that a file needs. -/
def neededSymbols (settings : Settings) (disk : Disk) (file : Path) :
    Log × Except CommandError (List Text) :=
  match scriptText settings disk file with
  | .error error => ([], .error error)
  | .ok text =>
      match tableFor settings disk file with
      | (log, .error error) => (log, .error (.registry error))
      | (log, .ok table) => (log, .ok (table.needed text))

/-- The lines that tell which symbols a file needs. -/
def symbolLines (name : Text) (needed : List Text) : Text :=
  if needed.isEmpty then "NO NEEDED SYMBOLS in ".toList ++ name ++ ['\n']
  else
    let word := if needed.length = 1 then " NEEDED SYMBOL in ".toList
      else " NEEDED SYMBOLS in ".toList
    Text.ofNat needed.length ++ word ++ name ++ ":\n".toList ++
      needed.flatMap fun symbol => "   - ".toList ++ symbol ++ ['\n']

/-- Tells of files one by one, until one of them cannot be read. -/
def performSymbols (settings : Settings) (disk : Disk) : List Path → Log → Text → Answer
  | [], log, output => ⟨disk, log, output, .ok ()⟩
  | file :: rest, log, output =>
      match neededSymbols settings disk file with
      | (told, .error error) => ⟨disk, log ++ told, output, .error error⟩
      | (told, .ok needed) =>
          let name := file.shortFor (Place.path disk.current)
          performSymbols settings disk rest (log ++ told) (output ++ symbolLines name needed)

/-- The brewer that the settings describe for a root. -/
def brewerFor (settings : Settings) (root : Path) (formats : Formats) (table : SymbolTable)
    (options : SessionOptions) : Brewer :=
  { classifier := ⟨root, formats.enabled⟩
    expander := ⟨.retain, settings.includePaths root⟩
    table := table
    script := Compiler.scriptCommand settings.commands.script
    template := Compiler.templateCommand settings.commands.template
    stores := settings.storesPath root
    runner := if options.execute then some settings.commands.execute else none }

/-- Brews the named files, or else the whole tree. -/
def brewTargets (brewer : Brewer) (targets : Targets) (quiet : Nat) (outside : Surroundings)
    (progress : Progress) : Progress × Except CommandError Unit :=
  if targets.files.isEmpty then
    match brewer.drive targets.root quiet outside
        (progress.tell [.info "brew" "root" targets.root.text]) with
    | (progress, .ok ()) => (progress, .ok ())
    | (progress, .error error) => (progress, .error (.scan error))
  else match brewer.build targets.files progress with
    | (progress, .ok ()) => (progress, .ok ())
    | (progress, .error error) => (progress, .error (.build error))

/-- The root to brew when the command line names none. -/
def standardRoot (settings : Settings) (disk : Disk) : Path :=
  let here := Place.path disk.current
  (settings.root.map here.join).getD here

/-- What a command line names. The current directory has to be there. -/
def namedTargets (settings : Settings) (disk : Disk) (paths : List Path) :
    Except CommandError Targets :=
  if disk.isDirectoryAt disk.current then
    match Targets.resolve disk paths (standardRoot settings disk) with
    | .ok targets => .ok targets
    | .error error => .error (.target error)
  else .error (.read (Path.ofString ".") .missing)

/-- Brews what a command line names, up to the running of scripts. -/
def brew (settings : Settings) (disk : Disk) (paths : List Path) (selected : List SourceKind)
    (options : SessionOptions) (outside : Surroundings) :
    Progress × Except CommandError Brewer :=
  let start := Progress.start disk options
  match namedTargets settings disk paths with
  | .error error => (start, .error error)
  | .ok targets =>
      let formats := if selected.isEmpty then settings.formats else Formats.only selected
      let keys := Text.joinWith ", ".toList (formats.enabled.map SourceKind.key)
      let start := start.tell [.debug "brew" "formats" keys]
      match SymbolTable.load disk (settings.symbolsPath disk targets.root) with
      | (told, .error error) => (start.tell told, .error (.registry error))
      | (told, .ok table) =>
          let brewer := brewerFor settings targets.root formats table options
          match brewTargets brewer targets settings.debounce outside (start.tell told) with
          | (progress, .error error) => (progress, .error error)
          | (progress, .ok ()) => (progress, .ok brewer)

def performBrew (settings : Settings) (disk : Disk) (paths : List Path)
    (selected : List SourceKind) (options : SessionOptions) (outside : Surroundings) : Answer :=
  match brew settings disk paths selected options outside with
  | (progress, .error error) => .failed progress.disk progress.log error
  | (progress, .ok brewer) =>
      let closing := brewer.finish progress
      ⟨progress.disk, progress.log ++ closing.log, closing.output, .ok ()⟩

/-- The settings as the command `config` shows them. Settings that cannot be written leave
the frame empty. -/
def shownSettings (settings : Settings) : Text :=
  "Current Configuration:\n".toList ++ List.replicate 50 '=' ++ ['\n'] ++
    (match settings.render? with
    | some text => text ++ ['\n']
    | none => [])

def performInit (disk : Disk) (force : Bool) : Answer :=
  let result := Starter.run disk force
  match result.failure with
  | none => ⟨result.disk, [], result.output, .ok ()⟩
  | some message => ⟨result.disk, [], result.output, .error (.init message)⟩

/-- Acts on the settings in force, which have to be valid. -/
def withSettings (disk : Disk) (environment : List (Text × Text)) (file : Option Path)
    (act : Settings → Answer) : Answer :=
  match Settings.load? disk environment file with
  | none => .failed disk [] .settings
  | some settings => act settings

def perform (disk : Disk) (environment : List (Text × Text)) (invocation : Invocation) : Answer :=
  let act := withSettings disk environment invocation.settingsFile
  match invocation.request with
  | .brew paths formats options =>
      act (performBrew · disk paths formats options Surroundings.still)
  | .expand file strip noImports => act (performExpand · disk file strip noImports)
  | .symbols files => act (performSymbols · disk files [] [])
  | .init force => performInit disk force
  | .config => act fun settings => ⟨disk, [], shownSettings settings, .ok ()⟩

end Brewery.Terminal
