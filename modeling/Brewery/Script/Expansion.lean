import Brewery.Disk.Lookup
import Brewery.Script.Item

/-!
Expansion: the items of a script become lines of code, and an include directive becomes the
lines of the file it names. The files that are being expanded form a stack of canonical
paths; a file on it is not entered again, and since a disk holds finitely many files every
expansion ends. An error anywhere is the error of the whole.
-/

namespace Brewery

/-- Where a line came from. Only content, the inside of a block, is never indented. -/
inductive Role where
  | blank
  | comment
  | code
  | content
  deriving DecidableEq

structure OutLine where
  role : Role
  text : Text
  deriving DecidableEq

inductive ExpandError where
  | missingInclude (file : Path) (line : Nat) (directive : Text)
  | unterminatedLiteral (file : Path) (line : Nat) (directive : Text)
  | includeCycle (file : Path) (line : Nat) (directive : Text) (chain : List Path)
  | read (file : Path) (fault : Fault)
  deriving DecidableEq

/-- Whether blank lines and comments stay. -/
inductive LinePolicy where
  | retain
  | strip
  deriving DecidableEq

namespace ExpandError

def file : ExpandError → Path
  | .missingInclude file _ _ => file
  | .unterminatedLiteral file _ _ => file
  | .includeCycle file _ _ _ => file
  | .read file _ => file

def line? : ExpandError → Option Nat
  | .missingInclude _ line _ => some line
  | .unterminatedLiteral _ line _ => some line
  | .includeCycle _ line _ _ => some line
  | .read _ _ => none

def located (file : Path) (line : Nat) (what : String) (directive : Text) : Text :=
  file.text ++ ':' :: Text.ofNat line ++ ": ".toList ++ what.toList ++ ": ".toList ++ directive

def message : ExpandError → Text
  | .missingInclude file line directive =>
      located file line "include target not found" directive
  | .unterminatedLiteral file line directive =>
      located file line "literal block is never terminated" directive
  | .includeCycle file line directive chain =>
      located file line "cyclic include" directive ++ " (chain: ".toList ++
        Text.joinWith " -> ".toList (chain.map Path.text) ++ [')']
  | .read file fault => "cannot read ".toList ++ file.text ++ ": ".toList ++ fault.message

end ExpandError

namespace OutLine

/-- A line as it stands inside an include directive of the given indentation. -/
def indented (indent : Text) (line : OutLine) : OutLine :=
  if line.role = .content || indent.isEmpty || (Text.trim line.text).isEmpty then line
  else { line with text := indent ++ line.text }

/-- Lines as a text; each line ends in a newline. -/
def render (lines : List OutLine) : Text :=
  if lines.isEmpty then []
  else Text.joinWith ['\n'] (lines.map OutLine.text) ++ ['\n']

end OutLine

structure Expander where
  policy : LinePolicy
  /-- Where an include target is looked for after the including file's own directory. -/
  includeDirs : List Path

namespace Expander

open Script

/-- Where an include target may be, in the order of search. -/
def candidates (expander : Expander) (origin : Path) (target : Text) : List Path :=
  let target : Path := ⟨target⟩
  if target.isAbsolute then [target]
  else ((origin.parent?.getD (Path.ofString ".")) :: expander.includeDirs).map (·.join target)

/-- The first candidate that is a file, with its place and contents. -/
def findInclude (expander : Expander) (disk : Disk) (origin : Path) (target : Text) :
    Option (Path × Place × Contents) :=
  (expander.candidates origin target).findSome? fun candidate =>
    (disk.file? candidate).map fun found => (candidate, found)

def onStack (stack : List Path) (path : Path) : Bool := stack.any (Path.same path)

/-- How many nodes of a disk are not on the stack. -/
def unvisited (disk : Disk) (stack : List Path) : Nat :=
  disk.nodes.countP fun entry => !onStack stack entry.1.path

theorem onStack_append (stack : List Path) (pushed path : Path) :
    onStack (stack ++ [pushed]) path = (onStack stack path || Path.same path pushed) := by
  simp [onStack]

theorem unvisited_push {disk : Disk} {stack : List Path} {place : Place} {node : Node}
    (member : (place, node) ∈ disk.nodes) (fresh : onStack stack place.path = false) :
    unvisited disk (stack ++ [place.path]) < unvisited disk stack := by
  unfold unvisited
  generalize disk.nodes = nodes at member
  induction nodes with
  | nil => simp at member
  | cons entry rest ih =>
      have below : rest.countP (fun entry => !onStack (stack ++ [place.path]) entry.1.path) ≤
          rest.countP (fun entry => !onStack stack entry.1.path) := by
        apply List.countP_mono_left
        intro other _ kept
        rw [onStack_append] at kept
        cases before : onStack stack other.1.path <;> simp_all
      rcases List.mem_cons.1 member with head | tail
      · subst head
        have gone : onStack (stack ++ [place.path]) place.path = true := by
          simp [onStack_append, Path.same]
        simp [gone, fresh]; omega
      · have := ih tail
        simp only [List.countP_cons, onStack_append] at *
        cases onStack stack entry.1.path <;> cases Path.same entry.1.path place.path <;>
          simp at * <;> omega

theorem findInclude_member {expander : Expander} {disk : Disk} {origin : Path} {target : Text}
    {path : Path} {place : Place} {contents : Contents}
    (found : expander.findInclude disk origin target = some (path, place, contents)) :
    ∃ node, (place, node) ∈ disk.nodes := by
  obtain ⟨candidate, _, hit⟩ := List.exists_of_findSome?_eq_some found
  cases file : disk.file? candidate with
  | none => simp [file] at hit
  | some pair =>
      simp only [file, Option.map_some, Option.some.injEq, Prod.mk.injEq] at hit
      obtain ⟨_, same⟩ := hit
      subst same
      exact Disk.file?_member file

/-- Expands items of the file `origin`, which is the last of the stack. -/
def expandItems (expander : Expander) (disk : Disk) (stack : List Path) (origin : Path) :
    List Item → Except ExpandError (List OutLine)
  | [] => .ok []
  | .blank :: rest => do
      let lines ← expandItems expander disk stack origin rest
      .ok (if expander.policy = .retain then ⟨.blank, []⟩ :: lines else lines)
  | .comment line :: rest => do
      let lines ← expandItems expander disk stack origin rest
      .ok (if expander.policy = .retain then ⟨.comment, line⟩ :: lines else lines)
  | .code line :: rest => do
      let lines ← expandItems expander disk stack origin rest
      .ok (⟨.code, line⟩ :: lines)
  | .block opening content closing :: rest => do
      let lines ← expandItems expander disk stack origin rest
      .ok (⟨.code, opening⟩ :: content.map (OutLine.mk .content) ++ ⟨.code, closing⟩ :: lines)
  | .unterminated number directive :: _ => .error (.unterminatedLiteral origin number directive)
  | .inclusion number directive indent target :: rest =>
      match found : expander.findInclude disk origin target with
      | none => .error (.missingInclude origin number directive)
      | some (path, place, contents) =>
          if again : onStack stack place.path then
            .error (.includeCycle origin number directive (stack ++ [place.path]))
          else
            have : unvisited disk (stack ++ [place.path]) < unvisited disk stack :=
              (findInclude_member found).elim fun _ member =>
                unvisited_push member (by simpa using again)
            match contents with
            | .raw _ => .error (.read path .notText)
            | .text text => do
                let inner ← expandItems expander disk (stack ++ [place.path]) path
                  (itemsOf path.displayName text)
                let lines ← expandItems expander disk stack origin rest
                .ok (inner.map (OutLine.indented indent) ++ lines)
termination_by items => (unvisited disk stack, items.length)

/-- A path as the include stack knows it. -/
def stackEntry (disk : Disk) (path : Path) : Path :=
  match disk.canonical path with
  | .ok canonical => canonical
  | .error _ => path

/-- The lines that a text expands to when it stands in the file `origin`. -/
def expandLines (expander : Expander) (disk : Disk) (text : Text) (origin : Path) :
    Except ExpandError (List OutLine) :=
  expander.expandItems disk [stackEntry disk origin] origin (itemsOf origin.displayName text)

def expandText (expander : Expander) (disk : Disk) (text : Text) (origin : Path) :
    Except ExpandError Text :=
  (expander.expandLines disk text origin).map OutLine.render

def expandFile (expander : Expander) (disk : Disk) (path : Path) : Except ExpandError Text :=
  match disk.readText path with
  | .error fault => .error (.read path fault)
  | .ok text => expander.expandText disk text path

end Expander
end Brewery
