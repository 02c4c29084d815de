import Brewery.Proofs.Disk.Walk
import Brewery.Proofs.Path.Parts
import Mathlib.Data.List.TakeDrop

/-!
Entries of directories. Most paths name an entry: a name in the directory that their folder
leads to. Reading, replacing and removing a path act on this one place, and where it is
depends on directories and links only. An artifact is an entry of the directory of its source.
-/

namespace Brewery.Disk

/-- The place that a path names as an entry of a directory. -/
def entryAt? (disk : Disk) (path : Path) : Option Place :=
  match disk.last path with
  | .ok (.entry place false) => some place
  | _ => none

/-- The directory that the folder of a path leads to. -/
def home? (disk : Disk) (path : Path) : Option Place :=
  match walk disk false linkLimit (disk.start path).1 path.folder with
  | .ok place => if disk.isDirectoryAt place then some place else none
  | .error _ => none

variable {disk : Disk} {path : Path} {place : Place}

theorem start_segments (disk : Disk) (path : Path) : (disk.start path).2 = path.parts.2 := by
  unfold start
  split <;> simp_all

theorem start_place {other : Path} (same : other.parts.1 = path.parts.1) :
    (disk.start other).1 = (disk.start path).1 := by
  unfold start
  split
  · next segments shape =>
      rw [shape] at same
      split
      · rfl
      · next lead _ different shape => rw [shape] at same; exact absurd same.symm different
  · next lead _ different shape =>
      rw [shape] at same
      split
      · next segments shape => rw [shape] at same; exact absurd same different
      · rfl

theorem home?_eq_some_iff : disk.home? path = some place ↔
    Walks disk linkLimit (disk.start path).1 path.folder place ∧
      disk.isDirectoryAt place = true := by
  rw [← walk_eq_ok_iff]
  unfold home?
  split
  · next found arrived =>
      simp only [arrived, Except.ok.injEq]
      split
      · next inside =>
          exact ⟨fun same => by cases same; exact ⟨rfl, inside⟩, fun both => by rw [both.1]⟩
      · next outside =>
          refine ⟨fun no => absurd no (by simp), ?_⟩
          rintro ⟨rfl, inside⟩
          exact absurd inside outside
  · next fault refused => simp [refused]

/-- The last segment of a path, when it is neither empty nor made of dots, is looked up in the
directory that the segments before it lead to. -/
theorem last_of_parts {before : List Text} {name : Text} (shape : path.parts.2 = before ++ [name])
    (filler : Path.isFiller name = false) (up : name ≠ ['.', '.']) (written : path.text ≠ [])
    (plain : Char.ofNat 0 ∉ path.text) :
    disk.last path = (walk disk false linkLimit (disk.start path).1 before).bind fun dir =>
      if disk.isDirectoryAt dir = false then .error .notDirectory
      else if nameLimit < Text.Utf8.size name then .error .nameTooLong
      else .ok (.entry (name :: dir) false) := by
  have ⟨nonempty, undotted⟩ : name ≠ [] ∧ name ≠ ['.'] := by
    constructor <;> rintro rfl <;> simp [Path.isFiller] at filler
  unfold last
  simp only [written, ↓reduceIte, plain, start_segments, shape, List.reverse_append,
    List.reverse_cons, List.reverse_nil, List.nil_append, List.cons_append,
    List.span_eq_takeWhile_dropWhile, List.takeWhile_cons, List.dropWhile_cons, nonempty,
    decide_false, Bool.false_eq_true, List.reverse_reverse, undotted, up, Bool.or_self,
    List.isEmpty_nil, Bool.not_true, Bool.not_eq_true', bind]

theorem text_ne_nil_of_parts {before : List Text} {name : Text}
    (shape : path.parts.2 = before ++ [name]) (filler : Path.isFiller name = false) :
    path.text ≠ [] := by
  intro empty
  have parts : path.parts.2 = [] ++ [[]] := by rw [Path.parts_of_empty empty]; rfl
  rw [parts] at shape
  have same : name = [] := ((List.append_inj' shape rfl).2 |> List.singleton_inj.mp).symm
  simp [same, Path.isFiller] at filler

-- What has to hold for the last segment of a path to be an entry.
theorem last_eq_entry {slash : Bool} (found : disk.last path = .ok (.entry place slash)) :
    Char.ofNat 0 ∉ path.text ∧ ∃ name before dir,
      path.parts.2.reverse.dropWhile (· = []) = name :: before ∧
      Walks disk linkLimit (disk.start path).1 before.reverse dir ∧
      disk.isDirectoryAt dir = true ∧ name ≠ ['.'] ∧ name ≠ ['.', '.'] ∧
      Text.Utf8.size name ≤ nameLimit ∧ place = name :: dir ∧
      slash = !(path.parts.2.reverse.takeWhile (· = [])).isEmpty := by
  unfold last at found
  split at found
  · exact absurd found (by simp)
  split at found
  · exact absurd found (by simp)
  next plain =>
    simp only [start_segments, List.span_eq_takeWhile_dropWhile] at found
    cases cut : path.parts.2.reverse.dropWhile (· = []) with
    | nil => simp [cut] at found
    | cons name before =>
        cases walked : walk disk false linkLimit (disk.start path).1 before.reverse with
        | error fault => simp [cut, walked, bind, Except.bind] at found
        | ok dir =>
            simp only [cut, walked, bind, Except.bind] at found
            split at found
            · exact absurd found (by simp)
            next inside =>
              split at found
              · exact absurd found (by simp)
              next dots =>
                split at found
                · exact absurd found (by simp)
                next long =>
                  simp only [Except.ok.injEq, Last.entry.injEq] at found
                  simp only [Bool.or_eq_true, decide_eq_true_eq, not_or] at dots
                  exact ⟨plain, name, before, dir, rfl, walk_eq_ok_iff.mp walked, by simpa using inside,
                    dots.1, dots.2, Nat.not_lt.mp long, found.1.symm, found.2.symm⟩

theorem entryAt?_eq_some_iff : disk.entryAt? path = some place ↔
    ∃ before name dir, path.parts.2 = before ++ [name] ∧ Char.ofNat 0 ∉ path.text ∧ IsStep name ∧
      Walks disk linkLimit (disk.start path).1 before dir ∧ disk.isDirectoryAt dir = true ∧
      place = name :: dir := by
  constructor
  · intro found
    have last : disk.last path = .ok (.entry place false) := by
      unfold entryAt? at found
      split at found
      · next other last => rw [last, Option.some.inj found]
      · exact absurd found (by simp)
    obtain ⟨plain, name, before, dir, cut, walks, inside, dot, up, short, same, bare⟩ :=
      last_eq_entry last
    have whole := List.takeWhile_append_dropWhile (p := (· = [])) (l := path.parts.2.reverse)
    have none : path.parts.2.reverse.takeWhile (· = []) = [] := by simpa using bare.symm
    rw [cut, none, List.nil_append] at whole
    have written : name ≠ [] := by
      have kept := List.head?_dropWhile_not (· = []) path.parts.2.reverse
      rw [cut] at kept
      simpa using kept
    refine ⟨before.reverse, name, dir, ?_, plain, ⟨?_, up, short⟩, walks, inside, same⟩
    · rw [← List.reverse_reverse path.parts.2, ← whole, List.reverse_cons]
    · simp [Path.isFiller, written, dot]
  · rintro ⟨before, name, dir, shape, plain, step, walks, inside, rfl⟩
    rw [entryAt?, last_of_parts shape step.1 step.2.1 (text_ne_nil_of_parts shape step.1) plain,
      walk_eq_ok_iff.mpr walks]
    simp [Except.bind, inside, Nat.not_lt.mpr step.2.2]

theorem last_of_entry (entry : disk.entryAt? path = some place) :
    disk.last path = .ok (.entry place false) := by
  unfold entryAt? at entry
  split at entry
  · next other last => rw [last, Option.some.inj entry]
  · exact absurd entry (by simp)

theorem entryAt?_home (entry : disk.entryAt? path = some place) :
    ∃ name dir, path.fileName? = some name ∧ IsStep name ∧ disk.home? path = some dir ∧
      place = name :: dir := by
  obtain ⟨before, name, dir, shape, _, step, walks, inside, same⟩ := entryAt?_eq_some_iff.mp entry
  refine ⟨name, dir, ?_, step, ?_, same⟩
  · rw [Path.fileName?_eq_some_iff, shape, List.reverse_append, List.reverse_singleton,
      List.singleton_append, List.dropWhile_cons_of_neg (by simp [step.1])]
    exact ⟨rfl, step.2.1⟩
  · -- The fillers between folder and name change nothing on the way.
    obtain ⟨inner, whole, empty⟩ := Path.folder_append shape step.1
    rw [whole] at walks
    obtain ⟨middle, left, start, rest⟩ := walks.split
    exact home?_eq_some_iff.mpr ⟨rest.fillers empty ▸ start, inside⟩

theorem home?_artifact {name : Text} (stage : Stage) (named : path.fileName? = some name) :
    disk.home? (path.artifact stage) = disk.home? path := by
  have lead : (path.artifact stage).parts.1 = path.parts.1 := by
    rw [Path.artifact_parts stage named]
  have start : (disk.start (path.artifact stage)).1 = (disk.start path).1 := start_place lead
  rw [home?, home?, Path.folder_artifact stage named, start]

/-- Artifacts are siblings of their sources. -/
theorem entryAt?_artifact {name : Text} {dir : Place} {stage : Stage}
    (named : path.fileName? = some name) (home : disk.home? path = some dir)
    (entry : disk.entryAt? (path.artifact stage) = some place) :
    place = stage.artifactName name :: dir := by
  obtain ⟨other, folder, again, _, found, same⟩ := entryAt?_home entry
  rw [Path.fileName?_artifact stage named] at again
  rw [home?_artifact stage named, home] at found
  rw [same, Option.some.inj again, Option.some.inj found]

/-- A path leads where its segments are walked to. -/
theorem locate_eq_ok_iff : disk.locate path = .ok place ↔ path.text ≠ [] ∧
    Char.ofNat 0 ∉ path.text ∧ Walks disk linkLimit (disk.start path).1 path.parts.2 place := by
  rw [← walk_eq_ok_iff, ← start_segments disk path, locate, locateFrom]
  by_cases written : path.text = []
  · simp [written]
  by_cases null : Char.ofNat 0 ∈ path.text
  · simp [written, null]
  · simp [written, null]

/-- A path that leads anywhere has a home. -/
theorem home?_of_locate {name : Text} (named : path.fileName? = some name)
    (located : disk.locate path = .ok place) : ∃ dir, disk.home? path = some dir := by
  obtain ⟨inner, outer, shape, _, _⟩ := Path.parts_split named
  obtain ⟨_, _, walks⟩ := locate_eq_ok_iff.mp located
  rw [shape, List.append_assoc] at walks
  obtain ⟨dir, left, start, rest⟩ := walks.split
  exact ⟨dir, home?_eq_some_iff.mpr ⟨start, rest.directory (by simp)⟩⟩

/-- An artifact that can be found has an entry: its path ends in its name. -/
theorem entryAt?_of_located {name : Text} {stage : Stage} (named : path.fileName? = some name)
    (located : disk.locate (path.artifact stage) = .ok place) :
    ∃ entry, disk.entryAt? (path.artifact stage) = some entry := by
  obtain ⟨ordinary, up⟩ := Path.artifactName_ordinary stage name
  have shape : (path.artifact stage).parts.2 = path.folder ++ [stage.artifactName name] := by
    rw [Path.artifact_parts stage named]
  obtain ⟨_, plain, walks⟩ := locate_eq_ok_iff.mp located
  rw [shape] at walks
  obtain ⟨dir, left, start, last⟩ := walks.split
  have step : IsStep (stage.artifactName name) := by
    generalize stage.artifactName name = ending at last ordinary up ⊢
    cases last with
    | filler _ empty => exact absurd (empty.symm.trans ordinary) (by simp)
    | up => exact absurd rfl up
    | follow _ step => exact step
    | enter _ step => exact step
  exact ⟨_, entryAt?_eq_some_iff.mpr
    ⟨_, _, dir, shape, plain, step, start, last.directory (by simp), rfl⟩⟩

theorem entryAt?_of_stamp {name : Text} {stage : Stage} {stamp : Int}
    (named : path.fileName? = some name)
    (stamped : disk.stamp? (path.artifact stage) = some stamp) :
    ∃ entry, disk.entryAt? (path.artifact stage) = some entry := by
  cases located : disk.locate (path.artifact stage) with
  | error fault => simp [stamp?, node, located, bind, Except.bind] at stamped
  | ok place => exact entryAt?_of_located named located

theorem home?_of_readContents {name : Text} {contents : Contents}
    (named : path.fileName? = some name) (read : disk.readContents path = .ok contents) :
    ∃ dir, disk.home? path = some dir := by
  cases located : disk.locate path with
  | error fault => simp [readContents, node, located, bind, Except.bind] at read
  | ok place => exact home?_of_locate named located

theorem home?_of_readText {name text : Text} (named : path.fileName? = some name)
    (read : disk.readText path = .ok text) : ∃ dir, disk.home? path = some dir := by
  cases held : disk.readContents path with
  | error fault => simp [readText, held, bind, Except.bind] at read
  | ok contents => exact home?_of_readContents named held

section Reading

theorem locateFrom_of_entry (entry : disk.entryAt? path = some place)
    (firm : ∀ target, disk.node? place ≠ some (.link target)) (vacant : Bool) :
    disk.locateFrom vacant path =
      if disk.node? place = none ∧ vacant = false then .error .missing else .ok place := by
  obtain ⟨before, name, dir, shape, plain, step, walks, inside, rfl⟩ := entryAt?_eq_some_iff.mp entry
  rw [locateFrom, if_neg (text_ne_nil_of_parts shape step.1), if_neg plain, start_segments, shape]
  exact walks.concat inside step firm vacant

theorem node_of_entry (entry : disk.entryAt? path = some place)
    (firm : ∀ target, disk.node? place ≠ some (.link target)) :
    disk.node path = match disk.node? place with
      | some node => .ok node
      | none => .error .missing := by
  have located := locateFrom_of_entry entry firm false
  cases held : disk.node? place with
  | none => simp [node, locate, located, held, bind, Except.bind]
  | some node => simp [Disk.node, locate, located, held, bind, Except.bind]

theorem stamp?_of_entry (entry : disk.entryAt? path = some place)
    (firm : ∀ target, disk.node? place ≠ some (.link target)) :
    disk.stamp? path = match disk.node? place with
      | some (.file _ stamp) => some stamp
      | some (.directory stamp) => some stamp
      | _ => none := by
  unfold stamp?
  rw [node_of_entry entry firm]
  cases disk.node? place with
  | none => rfl
  | some node => cases node <;> rfl

theorem readContents_of_file {contents : Contents} {stamp : Int}
    (entry : disk.entryAt? path = some place)
    (held : disk.node? place = some (.file contents stamp)) :
    disk.readContents path = .ok contents := by
  simp [readContents, node_of_entry entry (by simp [held]), held, bind, Except.bind]

theorem readText_of_text {text : Text} {stamp : Int} (entry : disk.entryAt? path = some place)
    (held : disk.node? place = some (.file (.text text) stamp)) :
    disk.readText path = .ok text := by
  simp [readText, readContents_of_file entry held, bind, Except.bind]

theorem readText_eq_ok {text : Text} (entry : disk.entryAt? path = some place)
    (firm : ∀ target, disk.node? place ≠ some (.link target))
    (read : disk.readText path = .ok text) :
    ∃ stamp, disk.node? place = some (.file (.text text) stamp) := by
  simp only [readText, readContents, node_of_entry entry firm, bind, Except.bind] at read
  cases held : disk.node? place with
  | none => simp [held] at read
  | some node =>
      cases node with
      | directory => simp [held] at read
      | link target => exact absurd held (firm target)
      | file contents stamp =>
          cases contents with
          | raw => simp [held] at read
          | text characters =>
              simp only [held, Except.ok.injEq] at read
              exact ⟨stamp, by rw [read]⟩

end Reading

section Writing

/-- The directory path that a write to a path makes sure of. -/
def above (path : Path) : Path :=
  match path.parent? with
  | some parent => if parent.text = [] then Path.ofString "." else parent
  | none => Path.ofString "."

-- The directory path has the segments of the folder, or stands for where the folder starts.
theorem above_parts (disk : Disk) {name : Text} (named : path.fileName? = some name) :
    (above path).text ≠ [] ∧ (disk.start (above path)).1 = (disk.start path).1 ∧
      ((path.folder ≠ [] ∧ (above path).parts.2 = path.folder) ∨
        (path.folder = [] ∧ ((above path).parts.2 = [] ∨ (above path).parts.2 = [[]]))) := by
  have parent := Path.parent?_eq named
  by_cases bare : path.folder = []
  · have shape : (above path).text ≠ [] ∧ ((above path).parts.1 = .root ↔ path.parts.1 = .root) ∧
        ((above path).parts.2 = [] ∨ (above path).parts.2 = [[]]) := by
      rw [above, parent, bare]
      cases path.parts.1 <;> simp [Path.ofParts, Text.joinWith, Path.ofString, Path.parts, Text.splitAt]
    obtain ⟨written, lead, segments⟩ := shape
    refine ⟨written, ?_, Or.inr ⟨bare, segments⟩⟩
    unfold start
    split <;> split <;> simp_all
  · have parts := Path.parts_ofParts bare (Path.folder_follows named)
    have written : (Path.ofParts path.parts.1 path.folder).text ≠ [] := by
      intro empty
      have none := Path.parts_of_empty empty
      have first := (Path.folder_follows named).2
      rw [parts] at none
      obtain ⟨lead, segments⟩ := Prod.mk.inj none
      exact (first lead [] (by rw [segments]; rfl)).1 rfl
    have same : above path = Path.ofParts path.parts.1 path.folder := by
      rw [above, parent]
      exact if_neg written
    rw [same]
    exact ⟨written, start_place (by rw [parts]), Or.inl ⟨bare, by rw [parts]⟩⟩

theorem last_of_up {before : List Text} (shape : path.parts.2 = before ++ [['.', '.']])
    (written : path.text ≠ []) (plain : Char.ofNat 0 ∉ path.text) :
    disk.last path = (walk disk false linkLimit (disk.start path).1 before).bind fun dir =>
      if disk.isDirectoryAt dir = false then .error .notDirectory else .ok .special := by
  unfold last
  simp only [written, ↓reduceIte, plain, start_segments, shape, List.reverse_append,
    List.reverse_cons, List.reverse_nil, List.nil_append, List.cons_append,
    List.span_eq_takeWhile_dropWhile, List.takeWhile_cons, List.dropWhile_cons,
    List.cons_ne_nil, decide_false, Bool.false_eq_true, List.reverse_reverse, decide_true,
    Bool.or_true, Bool.not_eq_true', bind]

theorem last_of_bare (shape : path.parts.2 = [] ∨ path.parts.2 = [[]])
    (written : path.text ≠ []) (plain : Char.ofNat 0 ∉ path.text) :
    disk.last path = .ok .special := by
  unfold last
  rcases shape with shape | shape <;>
    simp [written, plain, start_segments, shape, List.span_eq_takeWhile_dropWhile]

/-- A directory that is there is not made again, nor is one made where files have come in
the way. -/
theorem makeDirectory_above {after : Disk} {name : Text} {dir : Place}
    (named : path.fileName? = some name) (home : disk.home? path = some dir)
    (covers : Overlaid disk after) :
    ∃ fault, after.makeDirectory (above path) = .error fault ∧ fault ≠ .missing := by
  obtain ⟨walks, inside⟩ := home?_eq_some_iff.mp home
  obtain ⟨written, start, segments⟩ := above_parts after named
  have origin : (after.start path).1 = (disk.start path).1 := by
    unfold Disk.start
    rw [covers.1]
  by_cases plain : Char.ofNat 0 ∈ (above path).text
  · exact ⟨.nulInPath, by simp [makeDirectory, last, written, plain, bind, Except.bind], by simp⟩
  rcases segments with ⟨proper, segments⟩ | ⟨_, bare⟩
  · obtain ⟨before, last, shape⟩ := List.eq_nil_or_concat path.folder |>.resolve_left proper
    rw [List.concat_eq_append] at shape
    rw [shape] at walks segments
    have filler : Path.isFiller last = false := Path.folder_getLast? (by rw [shape]; simp)
    obtain ⟨middle, left, first, rest⟩ := walks.split
    have halfway := rest.directory (by simp)
    have met := first.overlaid covers
    rw [← origin, ← start] at met
    -- Either the walk still comes to the directory above, or a file is in the way.
    have ends : ∃ fault, after.makeDirectory (above path) = .error fault ∧ fault ≠ .missing := by
      by_cases up : last = ['.', '.']
      · subst up
        rw [makeDirectory, last_of_up segments written plain]
        rcases met with same | refused | ⟨spot, met, solid⟩
        · simp [same, bind, Except.bind, covers.directory, halfway]
        · simp [refused, bind, Except.bind]
        · simp [met, bind, Except.bind, solid]
      · rw [makeDirectory, last_of_parts segments filler up written plain]
        rcases met with same | refused | ⟨spot, met, solid⟩
        · have held : ∃ node, after.node? (last :: middle) = some node := by
            have before : disk.node? (last :: middle) ≠ none := by
              cases rest with
              | filler _ empty => simp [filler] at empty
              | up => exact absurd rfl up
              | follow _ _ held => simp [held]
              | enter _ _ held => simp [held]
            exact Option.ne_none_iff_exists'.mp (covers.keeps before)
          obtain ⟨node, held⟩ := held
          by_cases long : nameLimit < Text.Utf8.size last
          · simp [same, bind, Except.bind, covers.directory, halfway, long]
          · simp [same, bind, Except.bind, covers.directory, halfway, long, held]
        · simp [refused, bind, Except.bind]
        · simp [met, bind, Except.bind, solid]
    exact ends
  · exact ⟨.present, by simp [makeDirectory, last_of_bare bare written plain, bind, Except.bind],
      by simp⟩

theorem makeDirectories_above {after : Disk} {name : Text} {dir : Place}
    (named : path.fileName? = some name) (home : disk.home? path = some dir)
    (covers : Overlaid disk after) :
    (after.makeDirectories (above path)).1 = after ∧
      (after.isDirectory (above path) = true → after.makeDirectories (above path) = (after, .ok ())) := by
  obtain ⟨fault, refused, present⟩ := makeDirectory_above named home covers
  obtain ⟨written, _⟩ := above_parts after named
  rw [makeDirectories, makeDirectoriesWithin, if_neg written]
  simp only [refused]
  split
  · next missing _ => exact absurd (Except.error.inj missing) present
  · exact ⟨rfl, fun inside => by simp [inside]⟩

/-- The second half of a write, when the directory is there. -/
def replaceEntry (disk : Disk) (path : Path) (text : Text) : Disk × Except Fault Unit :=
  match disk.last path with
  | .error fault => (disk, .error fault)
  | .ok .special => (disk, .error .busy)
  | .ok (.entry _ true) => (disk, .error .notDirectory)
  | .ok (.entry place false) =>
      if disk.isDirectoryAt place then (disk, .error .isDirectory)
      else (disk.putFile place (.text text), .ok ())

theorem replaceFile_eq (disk : Disk) (path : Path) (text : Text) :
    disk.replaceFile path text = match disk.makeDirectories (above path) with
      | (disk, .error fault) => (disk, .error fault)
      | (disk, .ok ()) => disk.replaceEntry path text := rfl

/-- A write to a path whose directory is there replaces the entry, or it is refused and
changes nothing. -/
theorem replaceFile_cases {after : Disk} {name : Text} {dir : Place}
    (named : path.fileName? = some name) (home : disk.home? path = some dir)
    (covers : Overlaid disk after) (text : Text) :
    (∃ fault, after.replaceFile path text = (after, .error fault)) ∨
      ∃ place, after.entryAt? path = some place ∧ after.isDirectoryAt place = false ∧
        after.replaceFile path text = (after.putFile place (.text text), .ok ()) := by
  have same := (makeDirectories_above named home covers).1
  rw [replaceFile_eq]
  cases made : after.makeDirectories (above path) with
  | mk between outcome =>
      rw [made] at same
      subst same
      cases outcome with
      | error fault => exact Or.inl ⟨fault, rfl⟩
      | ok =>
          simp only [replaceEntry]
          cases last : between.last path with
          | error fault => exact Or.inl ⟨fault, rfl⟩
          | ok segment =>
              cases segment with
              | special => exact Or.inl ⟨.busy, rfl⟩
              | entry place slash =>
                  cases slash with
                  | true => exact Or.inl ⟨.notDirectory, rfl⟩
                  | false =>
                      cases inside : between.isDirectoryAt place with
                      | true => exact Or.inl ⟨.isDirectory, by simp [inside]⟩
                      | false =>
                          exact Or.inr ⟨place, by rw [entryAt?, last], inside, by simp [inside]⟩

theorem above_plain {name : Text} (named : path.fileName? = some name)
    (plain : Char.ofNat 0 ∉ path.text) : Char.ofNat 0 ∉ (above path).text := by
  rw [above, Path.parent?_eq named]
  simp only
  split
  · simp [Path.ofString]
  · intro member
    rcases Path.mem_text_ofParts member with slash | dot | ⟨segment, held, inside⟩
    · exact absurd slash (by decide)
    · exact absurd dot (by decide)
    · obtain ⟨inner, outer, shape, _, _⟩ := Path.parts_split named
      exact plain (Path.mem_text_of_mem_parts (by simp [shape, held]) inside)

theorem isDirectory_above (entry : disk.entryAt? path = some place) :
    disk.isDirectory (above path) = true := by
  obtain ⟨_, _, _, _, plain, _⟩ := entryAt?_eq_some_iff.mp entry
  obtain ⟨name, dir, named, _, home, _⟩ := entryAt?_home entry
  obtain ⟨walks, inside⟩ := home?_eq_some_iff.mp home
  obtain ⟨written, start, segments⟩ := above_parts disk named
  have arrives : disk.locate (above path) = .ok dir := by
    refine locate_eq_ok_iff.mpr ⟨written, above_plain named plain, ?_⟩
    rw [start]
    rcases segments with ⟨_, same⟩ | ⟨bare, same | same⟩
    · rw [same]; exact walks
    · rw [same, ← bare]; exact walks
    · rw [bare] at walks
      cases walks
      rw [same]
      exact .filler inside rfl .stay
  obtain ⟨stamp, held⟩ := isDirectoryAt_iff.mp inside
  simp [isDirectory, node, arrives, held, bind, Except.bind]

/-- A write to an entry that is no directory replaces it. -/
theorem replaceFile_of_entry (entry : disk.entryAt? path = some place)
    (solid : disk.isDirectoryAt place = false) (text : Text) :
    disk.replaceFile path text = (disk.putFile place (.text text), .ok ()) := by
  obtain ⟨name, dir, named, _, home, _⟩ := entryAt?_home entry
  have made := (makeDirectories_above named home (Overlaid.refl disk)).2 (isDirectory_above entry)
  simp [replaceFile_eq, made, replaceEntry, last_of_entry entry, solid]

theorem overwrite_of_entry (entry : disk.entryAt? path = some place)
    (firm : ∀ target, disk.node? place ≠ some (.link target))
    (solid : disk.isDirectoryAt place = false) (contents : Contents) :
    disk.overwrite path contents = .ok (disk.putFile place contents) := by
  simp [overwrite, locateFrom_of_entry entry firm true, solid, bind, Except.bind]

theorem removeFile_of_entry {contents : Contents} {stamp : Int}
    (entry : disk.entryAt? path = some place)
    (held : disk.node? place = some (.file contents stamp)) :
    disk.removeFile path = .ok (disk.erase place) := by
  simp [removeFile, last_of_entry entry, held, bind, Except.bind]

theorem removeFile_of_solid (entry : disk.entryAt? path = some place)
    (held : ∃ node, disk.node? place = some node) (solid : disk.isDirectoryAt place = false) :
    disk.removeFile path = .ok (disk.erase place) := by
  obtain ⟨node, held⟩ := held
  cases node with
  | directory stamp => simp [isDirectoryAt, held] at solid
  | _ => simp [removeFile, last_of_entry entry, held, bind, Except.bind]

theorem erase_ne (held : ∃ node, disk.node? place = some node)
    (solid : disk.isDirectoryAt place = false) : disk.erase place ≠ disk := by
  intro same
  obtain ⟨node, held⟩ := held
  have gone := node?_erase disk place place (place_ne_nil solid)
  rw [same, held, if_pos rfl] at gone
  exact absurd gone (by simp)

/-- A removal takes the entry away and nothing else. -/
theorem removeFile_eq_ok {after : Disk} (removed : disk.removeFile path = .ok after) :
    ∃ place, disk.entryAt? path = some place ∧ (∃ node, disk.node? place = some node) ∧
      disk.isDirectoryAt place = false ∧ after = disk.erase place := by
  unfold removeFile at removed
  cases last : disk.last path with
  | error fault => simp [last, bind, Except.bind] at removed
  | ok segment =>
      cases segment with
      | special => simp [last, bind, Except.bind] at removed
      | entry place slash =>
          cases held : disk.node? place with
          | none => simp [last, held, bind, Except.bind] at removed
          | some node =>
              cases node with
              | directory => simp [last, held, bind, Except.bind] at removed
              | _ =>
                  cases slash with
                  | true => simp [last, held, bind, Except.bind] at removed
                  | false =>
                      simp only [last, held, bind, Except.bind, Bool.false_eq_true, ↓reduceIte,
                        Except.ok.injEq] at removed
                      exact ⟨place, by rw [entryAt?, last], ⟨_, held⟩,
                        by simp [isDirectoryAt, held], removed.symm⟩

end Writing

section Ways

/-- Where an entry is depends on directories and links only. -/
theorem entryAt?_back {before after : Disk} (ways : NoNewWays before after)
    (entry : after.entryAt? path = some place) : before.entryAt? path = some place := by
  obtain ⟨segments, name, dir, shape, plain, step, walks, inside, same⟩ :=
    entryAt?_eq_some_iff.mp entry
  have start : (after.start path).1 = (before.start path).1 := by
    unfold Disk.start
    rw [ways.1]
  rw [start] at walks
  exact entryAt?_eq_some_iff.mpr ⟨segments, name, dir, shape, plain, step, walks.back ways inside,
    ways.directory inside, same⟩

theorem home?_back {before after : Disk} (ways : NoNewWays before after)
    (home : after.home? path = some place) : before.home? path = some place := by
  obtain ⟨walks, inside⟩ := home?_eq_some_iff.mp home
  have start : (after.start path).1 = (before.start path).1 := by
    unfold Disk.start
    rw [ways.1]
  rw [start] at walks
  exact home?_eq_some_iff.mpr ⟨walks.back ways inside, ways.directory inside⟩

/-- An entry stays where it is as long as its directory can be reached at all. -/
theorem entryAt?_onward {before after : Disk} {dir : Place} (ways : NoNewWays before after)
    (entry : before.entryAt? path = some place) (home : after.home? path = some dir) :
    after.entryAt? path = some place := by
  obtain ⟨segments, name, parent, shape, plain, step, _, _, rfl⟩ := entryAt?_eq_some_iff.mp entry
  obtain ⟨_, found, _, _, known, same⟩ := entryAt?_home entry
  have reached : parent = dir := by
    rw [home?_back ways home] at known
    exact (List.cons.inj same).2.trans (Option.some.inj known).symm
  obtain ⟨inner, whole, empty⟩ := Path.folder_append shape step.1
  obtain ⟨walks, inside⟩ := home?_eq_some_iff.mp home
  exact entryAt?_eq_some_iff.mpr ⟨segments, name, dir, shape, plain, step,
    whole ▸ walks.pad inside empty, inside, by rw [reached]⟩

end Ways

section Spelling

-- A segment that is no filler can be told from its component.
theorem component_injective {left right : Text} (same : Path.component left = Path.component right) :
    left = right := by
  unfold Path.component at same
  split at same
  · next first =>
      split at same
      · next second => rw [first, second]
      · exact absurd same (by simp)
  · split at same
    · exact absurd same (by simp)
    · exact Path.Component.name.inj same

theorem components_same {left right : Path} (same : left.same right = true) :
    left.parts.1 = right.parts.1 ∧ Walks.names left.parts.2 = Walks.names right.parts.2 := by
  have inner {first second : List Text} (equal : Path.named first = Path.named second) :
      Walks.names first = Walks.names second :=
    (List.map_inj_right fun _ _ => component_injective).mp equal
  have plain (segments : List Text) : ∀ component ∈ Path.named segments,
      component ≠ .root ∧ component ≠ .here := by
    intro component member
    obtain ⟨segment, _, rfl⟩ := List.mem_map.mp member
    unfold Path.component
    split <;> simp
  rw [Path.same, decide_eq_true_eq] at same
  unfold Path.components at same
  cases first : left.parts with
  | mk lead segments =>
      cases second : right.parts with
      | mk other others =>
          rw [first, second] at same
          cases lead <;> cases other <;> simp only [List.cons.injEq] at same
          · exact ⟨rfl, inner same.2⟩
          · exact absurd same.1 (by simp)
          · exact absurd rfl (plain others .root (by simp [← same])).1
          · exact absurd same.1 (by simp)
          · exact ⟨rfl, inner same.2⟩
          · exact absurd rfl (plain others .here (by simp [← same])).2
          · exact absurd rfl (plain segments .root (by simp [same])).1
          · exact absurd rfl (plain segments .here (by simp [same])).2
          · exact ⟨rfl, inner same⟩

/-- Two spellings of one path name one entry. -/
theorem entryAt?_same {left right : Path} {other : Place} (same : left.same right = true)
    (first : disk.entryAt? left = some place) (second : disk.entryAt? right = some other) :
    place = other := by
  obtain ⟨lead, names⟩ := components_same same
  obtain ⟨before, name, dir, shape, _, step, walks, _, rfl⟩ := entryAt?_eq_some_iff.mp first
  obtain ⟨before', name', dir', shape', _, step', walks', _, rfl⟩ := entryAt?_eq_some_iff.mp second
  rw [shape, shape', Walks.names_append, Walks.names_append, Walks.names_cons step.1,
    Walks.names_cons step'.1] at names
  obtain ⟨folders, last⟩ := List.append_inj' names rfl
  rw [start_place lead] at walks
  rw [walks.agree folders walks', (List.cons.inj last).1]

end Spelling

end Brewery.Disk
