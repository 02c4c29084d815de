import Brewery.Text.Basic

/-!
Paths as they are written. A path keeps every character it was given, so it prints back
unchanged, and is compared by its components: a doubled slash, a slash at the end and a
`.` that is not the first segment change the spelling of a path and not what it names.
-/

namespace Brewery

structure Path where
  text : Text
  deriving DecidableEq

namespace Path

inductive Component where
  | root
  | here
  | up
  | name (segment : Text)
  deriving DecidableEq

/-- What a path starts from: the root, a leading `.`, or neither. -/
inductive Lead where
  | root
  | here
  | none
  deriving DecidableEq

def ofString (source : String) : Path := ⟨source.toList⟩

/-- Segments that name nothing. -/
def isFiller (segment : Text) : Bool := segment = [] || segment = ['.']

def isAbsolute (path : Path) : Bool := path.text.head? = some '/'

/-- The start of a path and all its further segments, fillers included. -/
def parts (path : Path) : Lead × List Text :=
  match path.text with
  | '/' :: rest => (.root, Text.splitAt '/' rest)
  | text => match Text.splitAt '/' text with
    | ['.'] :: rest => (.here, rest)
    | segments => (.none, segments)

def ofParts : Lead → List Text → Path
  | .root, segments => ⟨'/' :: Text.joinWith ['/'] segments⟩
  | .here, segments => ⟨Text.joinWith ['/'] (['.'] :: segments)⟩
  | .none, segments => ⟨Text.joinWith ['/'] segments⟩

def component (segment : Text) : Component :=
  if segment = ['.', '.'] then .up else .name segment

def named (segments : List Text) : List Component :=
  (segments.filter fun segment => !isFiller segment).map component

def components (path : Path) : List Component :=
  match path.parts with
  | (.root, segments) => .root :: named segments
  | (.here, segments) => .here :: named segments
  | (.none, segments) => named segments

/-- Two spellings of one path. -/
def same (left right : Path) : Bool := left.components = right.components

def dropTrailingFillers (segments : List Text) : List Text :=
  (segments.reverse.dropWhile isFiller).reverse

/-- The path without its last component; the root and the empty path have none. -/
def parent? (path : Path) : Option Path :=
  let (lead, segments) := path.parts
  match segments.reverse.dropWhile isFiller with
  | _ :: before => some (ofParts lead (before.dropWhile isFiller).reverse)
  | [] => if lead = .here then some ⟨[]⟩ else none

/-- The last component, if it is a name. -/
def fileName? (path : Path) : Option Text :=
  match path.parts.2.reverse.dropWhile isFiller with
  | last :: _ => if last = ['.', '.'] then none else some last
  | [] => none

/-- A file name cut at its last dot; a dot in front belongs to the stem. -/
def splitExtension (name : Text) : Text × Option Text :=
  match name.reverse.dropWhile (· ≠ '.') with
  | '.' :: before =>
      if before = [] then (name, none)
      else (before.reverse, some (name.reverse.takeWhile (· ≠ '.')).reverse)
  | _ => (name, none)

def stem? (path : Path) : Option Text := path.fileName?.map fun name => (splitExtension name).1

def extension? (path : Path) : Option Text :=
  path.fileName?.bind fun name => (splitExtension name).2

/-- A path taken from a base; an absolute path stands for itself. -/
def join (base path : Path) : Path :=
  if path.isAbsolute then path
  else if base.text = [] || base.text.getLast? = some '/' then ⟨base.text ++ path.text⟩
  else ⟨base.text ++ '/' :: path.text⟩

/-- The segments left when those of a base are passed over. -/
def dropNames : List Component → List Text → Option (List Text)
  | [], segments => some segments
  | _ :: _, [] => none
  | wanted :: base, segment :: segments =>
      if isFiller segment then dropNames (wanted :: base) segments
      else if component segment = wanted then dropNames base segments
      else none

/-- The rest of a path below a base, in the path's own spelling. -/
def stripPrefix? (base path : Path) : Option Path :=
  let (lead, segments) := path.parts
  let below (rest : List Text) : Path :=
    ofParts .none (dropTrailingFillers (rest.dropWhile isFiller))
  match base.components, lead with
  | [], lead => some (ofParts lead (dropTrailingFillers segments))
  | .root :: base, .root => (dropNames base segments).map below
  | .here :: base, .here => (dropNames base segments).map below
  | base, .none => (dropNames base segments).map below
  | _, _ => none

def startsWith (path base : Path) : Bool := (stripPrefix? base path).isSome

/-- How a path is shown: its file name, or all of it when it has none. -/
def displayName (path : Path) : Text := path.fileName?.getD path.text

/-- A path as shown to someone who stands in `root`. -/
def shortFor (path root : Path) : Text := ((stripPrefix? root path).getD path).text

end Path
end Brewery
