import Brewery.Command.Outcome
import Brewery.Text.Blank

/-!
The small tools that settings name as compilers: `cat`, `tr`, `echo`, `printf`, `true` and
`false`. A tool reads its arguments, its standard input and the disk, and writes bytes.
-/

namespace Brewery.Tool

/-- What a tool leaves, with the input it has not read. -/
structure Result where
  outcome : Outcome
  unread : Bytes

def octalValue (digits : Text) : Nat :=
  digits.foldl (fun total c => total * 8 + (c.toNat - 48)) 0

def isOctalDigit (c : Char) : Bool := '0' ≤ c && c ≤ '7'

/-- The byte meant by a letter after a backslash. -/
def escapeLetter? : Char → Option UInt8
  | 'a' => some 7
  | 'b' => some 8
  | 'f' => some 12
  | 'n' => some 10
  | 'r' => some 13
  | 't' => some 9
  | 'v' => some 11
  | '\\' => some 92
  | _ => none

/-- Bytes of a text in which backslash sequences are read; an unknown one stays as it is. -/
def unescape : Text → Bytes
  | [] => []
  | '\\' :: c :: rest =>
      match escapeLetter? c with
      | some byte => byte :: unescape rest
      | none =>
          if isOctalDigit c then
            let more := (rest.take 2).takeWhile isOctalDigit
            UInt8.ofNat (octalValue (c :: more)) :: unescape (rest.drop more.length)
          else Text.Utf8.encode ['\\', c] ++ unescape rest
  | c :: rest => Text.Utf8.encodeChar c ++ unescape rest
termination_by text => text.length
decreasing_by all_goals simp only [List.length_cons, List.length_drop]; omega

/-! `cat` -/

def concatenate (disk : Disk) (input : Bytes) : List Text → Bytes × Text × Bytes
  | [] => ([], [], input)
  | name :: rest =>
      if name = ['-'] then
        let (output, errors, unread) := concatenate disk [] rest
        (input ++ output, errors, unread)
      else
        let (output, errors, unread) := concatenate disk input rest
        match disk.readContents ⟨name⟩ with
        | .ok contents => (contents.bytes ++ output, errors, unread)
        | .error fault =>
            (output, "cat: ".toList ++ name ++ ": ".toList ++ fault.shortMessage ++
              '\n' :: errors, unread)

def cat (disk : Disk) (arguments : List Text) (input : Bytes) : Result :=
  let names := arguments.filter fun argument => argument ≠ "-u".toList && argument ≠ "--".toList
  let (output, errors, unread) := concatenate disk input (if names.isEmpty then [['-']] else names)
  ⟨⟨.exited (if errors.isEmpty then 0 else 1), output, Text.Utf8.encode errors⟩, unread⟩

/-! `tr` -/

def byteRange (first last : UInt8) : Bytes :=
  (List.range (last.toNat + 1 - first.toNat)).map fun offset => UInt8.ofNat (first.toNat + offset)

def lowercase : Bytes := byteRange 97 122

def uppercase : Bytes := byteRange 65 90

def digits : Bytes := byteRange 48 57

def classes : List (String × Bytes) :=
  [("[:lower:]", lowercase), ("[:upper:]", uppercase), ("[:digit:]", digits),
    ("[:alpha:]", uppercase ++ lowercase), ("[:alnum:]", digits ++ uppercase ++ lowercase),
    ("[:space:]", byteRange 9 13 ++ [32]), ("[:blank:]", [9, 32]),
    ("[:punct:]", byteRange 33 47 ++ byteRange 58 64 ++ byteRange 91 96 ++ byteRange 123 126),
    ("[:cntrl:]", byteRange 0 31 ++ [127]), ("[:print:]", byteRange 32 126),
    ("[:graph:]", byteRange 33 126)]

def class? (set : Bytes) : Option (Bytes × Bytes) :=
  classes.findSome? fun entry =>
    let name := Text.Utf8.encode entry.1.toList
    if name.isPrefixOf set then some (entry.2, set.drop name.length) else none

/-- The bytes of a set, in order, with classes and ranges written out. -/
def expandSet : Nat → Bytes → Bytes
  | 0, _ => []
  | _ + 1, [] => []
  | bound + 1, set =>
      match class? set, set with
      | some (members, rest), _ => members ++ expandSet bound rest
      | none, first :: 45 :: last :: rest => byteRange first last ++ expandSet bound rest
      | none, byte :: rest => byte :: expandSet bound rest
      | none, [] => []

def setOf (text : Text) : Bytes :=
  let bytes := unescape text
  expandSet (bytes.length + 1) bytes

def translateByte (source target : Bytes) (byte : UInt8) : UInt8 :=
  match (source.zip (target ++ List.replicate (source.length - target.length)
    (target.getLast?.getD 0))).reverse.find? fun pair => pair.1 = byte with
  | some pair => pair.2
  | none => byte

def squeeze (set : Bytes) : (previous : Option UInt8) → Bytes → Bytes
  | _, [] => []
  | previous, byte :: rest =>
      if previous = some byte && set.elem byte then squeeze set previous rest
      else byte :: squeeze set (some byte) rest

def tr (arguments : List Text) (input : Bytes) : Result :=
  let isOption (argument : Text) : Bool := argument.head? = some '-' && 1 < argument.length
  let options := ((arguments.takeWhile isOption).map List.tail).flatten
  let sets := arguments.dropWhile isOption
  let complement (set : Bytes) : Bytes :=
    if options.elem 'c' || options.elem 'C' then (byteRange 0 255).filter fun byte => !set.elem byte
    else set
  let finish (output : Bytes) : Result := ⟨⟨.exited 0, output, []⟩, []⟩
  match options.elem 'd', options.elem 's', sets.map setOf with
  | true, false, [set] =>
      let set := complement set
      finish (input.filter fun byte => !set.elem byte)
  | true, true, [set, squeezed] =>
      let set := complement set
      finish (squeeze squeezed none (input.filter fun byte => !set.elem byte))
  | false, true, [set] => finish (squeeze (complement set) none input)
  | false, true, [source, target] =>
      finish (squeeze target none (input.map (translateByte (complement source) target)))
  | false, false, [source, target] =>
      finish (input.map (translateByte (complement source) target))
  | _, _, _ =>
      ⟨.exited 1 [] "tr: missing operand\nTry 'tr --help' for more information.\n".toList, input⟩

/-! `echo` -/

def isEchoOption (argument : Text) : Bool :=
  match argument with
  | '-' :: first :: rest => (first :: rest).all fun c => c = 'n' || c = 'e' || c = 'E'
  | _ => false

/-- The echo that reads options; backslashes mean something only after `-e`. -/
def echo (arguments : List Text) : Bytes :=
  let options := ((arguments.takeWhile isEchoOption).map List.tail).flatten
  let line := Text.joinWith [' '] (arguments.dropWhile isEchoOption)
  let escapes := (options.reverse.find? fun c => c = 'e' || c = 'E') = some 'e'
  (if escapes then unescape line else Text.Utf8.encode line) ++
    (if options.elem 'n' then [] else [10])

/-- The echo of a shell: `-n` is its one option, and backslashes always mean something. -/
def shellEcho : List Text → Bytes
  | ['-', 'n'] :: arguments => unescape (Text.joinWith [' '] arguments)
  | arguments => unescape (Text.joinWith [' '] arguments) ++ [10]

/-! `printf` -/

/-- One pass over a format: what it writes, and the arguments it has not used. -/
def formatOnce : Text → List Text → Bytes × List Text
  | [], arguments => ([], arguments)
  | '%' :: '%' :: rest, arguments =>
      let (more, left) := formatOnce rest arguments
      (37 :: more, left)
  | '%' :: c :: rest, arguments =>
      let argument := arguments.headD []
      let written : Bytes :=
        if c = 's' then Text.Utf8.encode argument
        else if c = 'b' then unescape argument
        else if c = 'c' then (Text.Utf8.encode argument).take 1
        else if c = 'd' || c = 'i' || c = 'u' then
          Text.Utf8.encode (if argument.isEmpty then ['0'] else argument)
        else Text.Utf8.encode ['%', c]
      let (more, left) := formatOnce rest arguments.tail
      (written ++ more, left)
  | '\\' :: c :: rest, arguments =>
      match escapeLetter? c with
      | some byte =>
          let (more, left) := formatOnce rest arguments
          (byte :: more, left)
      | none =>
          if isOctalDigit c then
            let octal := (rest.take 2).takeWhile isOctalDigit
            let (more, left) := formatOnce (rest.drop octal.length) arguments
            (UInt8.ofNat (octalValue (c :: octal)) :: more, left)
          else
            let (more, left) := formatOnce rest arguments
            (Text.Utf8.encode (if c = '"' then [c] else ['\\', c]) ++ more, left)
  | c :: rest, arguments =>
      let (more, left) := formatOnce rest arguments
      (Text.Utf8.encodeChar c ++ more, left)
termination_by format => format.length
decreasing_by all_goals simp only [List.length_cons, List.length_drop]; omega

/-- The format is used again for as long as it uses up arguments. -/
def formatAll (format : Text) : Nat → List Text → Bytes
  | 0, _ => []
  | bound + 1, arguments =>
      let (written, left) := formatOnce format arguments
      if left.isEmpty || left.length = arguments.length then written
      else written ++ formatAll format bound left

def printf (arguments : List Text) : Outcome :=
  match arguments with
  | [] => .exited 2 [] "printf: missing operand\n".toList
  | format :: rest => ⟨.exited 0, formatAll format (rest.length + 1) rest, []⟩

/-- Runs a tool, if there is one of that name. -/
def run? (disk : Disk) (name : Text) (arguments : List Text) (input : Bytes) : Option Result :=
  if name = "cat".toList then some (cat disk arguments input)
  else if name = "tr".toList then some (tr arguments input)
  else if name = "echo".toList then some ⟨⟨.exited 0, echo arguments, []⟩, input⟩
  else if name = "printf".toList then some ⟨printf arguments, input⟩
  else if name = "true".toList then some ⟨.exited 0 [] [], input⟩
  else if name = "false".toList then some ⟨.exited 1 [] [], input⟩
  else none

end Brewery.Tool
