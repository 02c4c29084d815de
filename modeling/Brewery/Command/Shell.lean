import Brewery.Command.Tool

/-!
A small shell: simple commands with quotes, parameters and assignments, joined by `;`,
newlines, `&&`, `||` and `|`, and with their outputs sent to each other or away. A script is
read line by line, so the lines before one that cannot be read have already run.
-/

namespace Brewery.Shell

inductive Piece where
  | plain (text : Text)
  | parameter (name : Text) (quoted : Bool)

abbrev Word := List Piece

inductive Token where
  | word (pieces : Word)
  | join (spelling : Text)
  | redirect (descriptor : Nat) (spelling : Text)

structure SyntaxFault where
  message : Text

def unterminated : SyntaxFault := ⟨"Unterminated quoted string".toList⟩

def isNameCharacter (c : Char) : Bool := c.isAlphanum || c = '_'

/-- The parameter after a dollar sign and the text after it; none if the sign is itself. -/
def parameter? : Text → Option (Text × Text)
  | '\x7b' :: rest =>
      match rest.dropWhile isNameCharacter with
      | '\x7d' :: after => some (rest.takeWhile isNameCharacter, after)
      | _ => none
  | c :: rest =>
      if c.isDigit || "$?#@*!".toList.elem c then some ([c], rest)
      else if isNameCharacter c then
        some (c :: rest.takeWhile isNameCharacter, rest.dropWhile isNameCharacter)
      else none
  | [] => none

/-- The inside of double quotes and the text after them. -/
def doubleQuoted : Nat → Text → Except SyntaxFault (Word × Text)
  | 0, _ => .error unterminated
  | _ + 1, [] => .error unterminated
  | _ + 1, '"' :: rest => .ok ([], rest)
  | bound + 1, '\\' :: c :: rest => do
      let kept : Text := if c = '\n' then []
        else if c = '"' || c = '\\' || c = '$' then [c] else ['\\', c]
      let (more, rest) ← doubleQuoted bound rest
      .ok (.plain kept :: more, rest)
  | bound + 1, '$' :: text =>
      match parameter? text with
      | some (name, rest) => do
          let (more, rest) ← doubleQuoted bound rest
          .ok (.parameter name true :: more, rest)
      | none => do
          let (more, rest) ← doubleQuoted bound text
          .ok (.plain ['$'] :: more, rest)
  | bound + 1, c :: rest => do
      let (more, rest) ← doubleQuoted bound rest
      .ok (.plain [c] :: more, rest)

def joins : List Text := ["&&", "||", ";", "|", "&", "(", ")"].map String.toList

def redirects : List Text := [">&", "<&", ">>", ">", "<"].map String.toList

/-- The descriptor a redirection names by the digit in front of it. -/
def descriptor? : Option Word → Option Nat
  | some [.plain [c]] => if c.isDigit then some (c.toNat - 48) else none
  | _ => none

/-- The tokens of one line and the text after it. `word` is the word being read. -/
def lineTokens : Nat → (word : Option Word) → Text → Except SyntaxFault (List Token × Text)
  | 0, _, _ => .ok ([], [])
  | bound + 1, word, text =>
      let done : List Token := match word with
        | some pieces => [.word pieces]
        | none => []
      let extend (pieces : Word) : Option Word := some (word.getD [] ++ pieces)
      let after (tokens : List Token) (rest : Text) : Except SyntaxFault (List Token × Text) := do
        let (more, rest) ← lineTokens bound none rest
        .ok (tokens ++ more, rest)
      match text with
      | [] => .ok (done, [])
      | '\n' :: rest => .ok (done, rest)
      | '\\' :: '\n' :: rest => lineTokens bound word rest
      | '\\' :: c :: rest => lineTokens bound (extend [.plain [c]]) rest
      | '\'' :: rest =>
          match rest.dropWhile (· ≠ '\'') with
          | _ :: tail =>
              lineTokens bound (extend [.plain (rest.takeWhile (· ≠ '\''))]) tail
          | [] => .error unterminated
      | '"' :: rest => do
          let (pieces, rest) ← doubleQuoted (rest.length + 1) rest
          lineTokens bound (extend (.plain [] :: pieces)) rest
      | '$' :: rest =>
          match parameter? rest with
          | some (name, rest) => lineTokens bound (extend [.parameter name false]) rest
          | none => lineTokens bound (extend [.plain ['$']]) rest
      | c :: rest =>
          if c = ' ' || c = '\t' then after done rest
          else if c = '#' && word.isNone then lineTokens bound none (rest.dropWhile (· ≠ '\n'))
          else match redirects.find? (·.isPrefixOf text), joins.find? (·.isPrefixOf text) with
            | some spelling, _ =>
                let rest := text.drop spelling.length
                match descriptor? word with
                | some descriptor => after [.redirect descriptor spelling] rest
                | none =>
                    after (done ++ [.redirect (if c = '<' then 0 else 1) spelling]) rest
            | none, some spelling => after (done ++ [.join spelling]) (text.drop spelling.length)
            | none, none => lineTokens bound (extend [.plain [c]]) rest

structure Simple where
  words : List Word
  redirects : List (Nat × Text × Word)

/-- Commands that feed each other, and what must hold of the status before them. -/
structure Pipeline where
  condition : Option Bool
  commands : List Simple

def unexpected (spelling : Text) : SyntaxFault :=
  ⟨'"' :: spelling ++ "\" unexpected".toList⟩

/-- The tokens of a line as pipelines. `started` holds the pipeline being read. -/
def pipelines (condition : Option Bool) (before : List Simple) (current : Simple) :
    List Token → Except SyntaxFault (List Pipeline)
  | [] =>
      if current.words.isEmpty && current.redirects.isEmpty then
        .ok (if before.isEmpty then [] else [⟨condition, before⟩])
      else .ok [⟨condition, before ++ [current]⟩]
  | .word pieces :: .join spelling :: .word next :: rest =>
      if spelling = ['('] then .error ⟨"word unexpected (expecting \")\")".toList⟩
      else pipelines condition before { current with words := current.words ++ [pieces] }
        (.join spelling :: .word next :: rest)
  | .word pieces :: rest =>
      pipelines condition before { current with words := current.words ++ [pieces] } rest
  | .redirect descriptor spelling :: .word target :: rest =>
      pipelines condition before
        { current with redirects := current.redirects ++ [(descriptor, spelling, target)] } rest
  | .redirect _ _ :: _ => .error ⟨"newline unexpected".toList⟩
  | .join spelling :: rest =>
      if spelling = ['('] || spelling = [')'] then .error (unexpected spelling)
      else if current.words.isEmpty && current.redirects.isEmpty then .error (unexpected spelling)
      else if spelling = ['|'] then pipelines condition (before ++ [current]) ⟨[], []⟩ rest
      else do
        let next : Option Bool := if spelling = ['&', '&'] then some true
          else if spelling = ['|', '|'] then some false else none
        let more ← pipelines next [] ⟨[], []⟩ rest
        .ok (⟨condition, before ++ [current]⟩ :: more)
termination_by tokens => tokens.length

structure State where
  name : Text
  arguments : List Text
  bindings : List (Text × Text)
  line : Nat
  status : Nat
  input : Bytes
  output : Bytes
  errors : Bytes
  ended : Option Ending

/-- The number by which the shell knows itself. -/
def ownNumber : Text := "1000".toList

def State.parameter (state : State) (name : Text) : Text :=
  if name = ['$'] then ownNumber
  else if name = ['?'] then Text.ofNat state.status
  else if name = ['#'] then Text.ofNat state.arguments.length
  else if name = ['@'] || name = ['*'] then Text.joinWith [' '] state.arguments
  else if name = ['0'] then state.name
  else match name with
    | [digit] =>
        if digit.isDigit then (state.arguments[digit.toNat - 49]?).getD []
        else ((state.bindings.find? fun entry => entry.1 = name).map Prod.snd).getD []
    | _ => ((state.bindings.find? fun entry => entry.1 = name).map Prod.snd).getD []

/-- The value of a word; a word of nothing but empty parameters is no argument. -/
def State.expand? (state : State) (word : Word) : Option Text :=
  let value := word.flatMap fun piece => match piece with
    | .plain text => text
    | .parameter name _ => state.parameter name
  let vanishes := word.all fun piece => match piece with
    | .plain _ => false
    | .parameter _ quoted => !quoted
  if value.isEmpty && vanishes then none else some value

/-- A word that sets a variable. -/
def assignment? : Word → Option (Text × Word)
  | pieces =>
      let leading := (pieces.takeWhile fun piece => match piece with
        | .plain [c] => isNameCharacter c
        | _ => false).flatMap fun piece => match piece with
        | .plain text => text
        | _ => []
      match leading, pieces.drop leading.length with
      | first :: _, .plain ['='] :: value =>
          if first.isDigit then none else some (leading, value)
      | _, _ => none

def number? (text : Text) : Option Nat :=
  if !text.isEmpty && text.all Char.isDigit then
    some (text.foldl (fun total c => total * 10 + (c.toNat - 48)) 0)
  else none

def signal? (text : Text) : Option Nat :=
  (number? text).orElse fun _ =>
    (Ending.signalNames.find? fun entry =>
      entry.2.toList = text || entry.2.toList = "SIG".toList ++ text).map Prod.fst

/-- The signal that `kill` sends to the shell itself, if it does. -/
def ownSignal? : List Text → Option Nat
  | [target] => if target = ownNumber then some 15 else none
  | [option, target] =>
      if target = ownNumber && option.head? = some '-' then signal? option.tail else none
  | [option, name, target] =>
      if target = ownNumber && option = "-s".toList then signal? name else none
  | _ => none

/-- How another program is started: its name, arguments and input. -/
abbrev Start := List Text → Bytes → Option Tool.Result

/-- What one command does: what it leaves, and how the shell ends if it ends it. -/
def State.perform (state : State) (disk : Disk) (start : Start) (words : List Text)
    (input : Bytes) : Tool.Result × Option Ending :=
  let quiet (status : Nat) : Tool.Result := ⟨.exited status [] [], input⟩
  match words with
  | [] => (quiet state.status, none)
  | name :: arguments =>
      let complain (status : Nat) (text : Text) : Tool.Result :=
        ⟨.exited status [] (state.name ++ ": ".toList ++ Text.ofNat state.line ++ ": ".toList ++
          text ++ ['\n']), input⟩
      if name = "exit".toList then
        match arguments with
        | [] => (quiet state.status, some (.exited state.status))
        | code :: _ => match number? code with
          | some code => (quiet (code % 256), some (.exited (code % 256)))
          | none =>
              (complain 2 ("exit: Illegal number: ".toList ++ code), some (.exited 2))
      else if name = [':'] then (quiet 0, none)
      else if name = "kill".toList then
        match ownSignal? arguments with
        | some 0 => (quiet 0, none)
        | some signal => (quiet 0, some (.signalled signal))
        | none => (quiet 1, none)
      else if name = "echo".toList then
        (⟨⟨.exited 0, Tool.shellEcho arguments, []⟩, input⟩, none)
      else match Tool.run? disk name arguments input with
        | some result => (result, none)
        | none => match start words input with
          | some result => (result, none)
          | none => (complain 127 (name ++ ": not found".toList), none)

/-- Where the two outputs of a command go. -/
inductive Sink where
  | output
  | errors
  | away

def redirected (disk : Disk) (state : State) (redirects : List (Nat × Text × Word))
    (input : Bytes) : Sink × Sink × Bytes :=
  redirects.foldl (fun (first, second, input) (descriptor, spelling, word) =>
    let target := (state.expand? word).getD []
    if spelling = ['<'] then
      (first, second, match disk.readContents ⟨target⟩ with
        | .ok contents => contents.bytes
        | .error _ => [])
    else
      let sink : Sink := if spelling = ['>', '&'] then
          if target = ['1'] then first else if target = ['2'] then second else .away
        else if target = "/dev/stderr".toList then second
        else if target = "/dev/stdout".toList then first
        else .away
      if descriptor = 2 then (first, sink, input) else (sink, second, input))
    (.output, .errors, input)

def State.simple (state : State) (disk : Disk) (start : Start) (command : Simple)
    (input : Bytes) : Tool.Result × Option Ending × List (Text × Text) :=
  let settings := (command.words.takeWhile fun word => (assignment? word).isSome).filterMap
    fun word => (assignment? word).map fun found => (found.1, (state.expand? found.2).getD [])
  let words := (command.words.drop settings.length).filterMap state.expand?
  let (first, second, input) := redirected disk state command.redirects input
  let (result, ended) := state.perform disk start words input
  let pick (wanted : Sink → Bool) : Bytes :=
    (if wanted first then result.outcome.output else []) ++
      (if wanted second then result.outcome.errors else [])
  let output := pick fun sink => match sink with
    | .output => true
    | _ => false
  let errors := pick fun sink => match sink with
    | .errors => true
    | _ => false
  (⟨⟨result.outcome.ending, output, errors⟩, result.unread⟩, ended,
    if words.isEmpty then settings else [])

/-- Commands of a pipeline; what one writes is what the next reads. -/
def State.feed (state : State) (disk : Disk) (start : Start) (input : Bytes) :
    List Simple → Nat × Bytes × Bytes
  | [] => (0, input, [])
  | command :: rest =>
      let (result, ended, _) := state.simple disk start command input
      let status := ((ended.map Ending.status).getD result.outcome.ending.status)
      match rest with
      | [] => (status, result.outcome.output, result.outcome.errors)
      | _ =>
          let (last, output, errors) := state.feed disk start result.outcome.output rest
          (last, output, result.outcome.errors ++ errors)

def State.pipeline (state : State) (disk : Disk) (start : Start) (pipeline : Pipeline) : State :=
  let skipped := match pipeline.condition with
    | some wanted => (state.status = 0) ≠ wanted
    | none => false
  if state.ended.isSome || skipped then state
  else match pipeline.commands with
    | [command] =>
        let (result, ended, settings) := state.simple disk start command state.input
        { state with
          status := result.outcome.ending.status
          input := result.unread
          output := state.output ++ result.outcome.output
          errors := state.errors ++ result.outcome.errors
          bindings := settings.reverse ++ state.bindings
          ended }
    | commands =>
        let (status, output, errors) := state.feed disk start state.input commands
        { state with status, input := [], output := state.output ++ output,
                     errors := state.errors ++ errors }

/-- Runs a script from its first line that is left. -/
def State.run (disk : Disk) (start : Start) : Nat → State → Text → State
  | 0, state, _ => state
  | bound + 1, state, script =>
      if script.isEmpty || state.ended.isSome then state
      else
        let fail (fault : SyntaxFault) : State :=
          { state with
            ended := some (.exited 2)
            errors := state.errors ++ Text.Utf8.encode (state.name ++ ": ".toList ++
              Text.ofNat state.line ++ ": Syntax error: ".toList ++ fault.message ++ ['\n']) }
        match lineTokens (script.length + 1) none script with
        | .error fault => fail fault
        | .ok (tokens, rest) =>
            match pipelines none [] ⟨[], []⟩ tokens with
            | .error fault => fail fault
            | .ok lines =>
                let read := script.take (script.length - rest.length)
                let ran := lines.foldl (fun state line => state.pipeline disk start line) state
                State.run disk start bound
                  { ran with line := state.line + read.count '\n' } rest

/-- Runs a script under a name with arguments. -/
def runScript (disk : Disk) (start : Start) (name : Text) (arguments : List Text) (script : Text)
    (input : Bytes) : Tool.Result :=
  let state := State.run disk start (script.length + 1)
    ⟨name, arguments, [], 1, 0, input, [], [], none⟩ script
  ⟨⟨state.ended.getD (.exited state.status), state.output, state.errors⟩, state.input⟩

/-- The shell as a program: `sh -c script`, `sh file`, or a script on the input. -/
def program (disk : Disk) (start : Start) (name : Text) (arguments : List Text) (input : Bytes) :
    Tool.Result :=
  match arguments with
  | [] => runScript disk start name [] (Text.Utf8.decodeLossy input) []
  | first :: rest =>
      if first = "-c".toList then
        match rest with
        | [] => ⟨.exited 2 [] (name ++ ": 0: -c requires an argument\n".toList), input⟩
        | [script] => runScript disk start name [] script input
        | script :: own :: arguments => runScript disk start own arguments script input
      else match disk.readContents ⟨first⟩ with
        | .ok contents =>
            runScript disk start first rest (Text.Utf8.decodeLossy contents.bytes) input
        | .error _ =>
            ⟨.exited 2 [] (name ++ ": 0: cannot open ".toList ++ first ++
              ": No such file\n".toList), input⟩

end Brewery.Shell
