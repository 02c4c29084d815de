import Brewery.Proofs.Session.Footprint
import Brewery.Terminal.Perform
import Mathlib.Control.Monad.Basic

/-!
Showing what is brewed. A macro script that is shown goes through an expander and a table of its
own, which are found from the directory of the file; a session finds both from the root of its
tree. The two are the same for a file that lies in the root itself, and for any other file if
nothing in the settings is relative to either directory. Then the text that is shown is the text
that the session writes, and the symbols that are listed are those of its prelude.
-/

namespace Brewery

namespace Brewer

/-- A session deals with one file: it is told that the file is there, or the file was named. -/
inductive Turn (brewer : Brewer) (file : Path) : Progress → Progress → Prop where
  | told {event : Event} (present : event = .added file ∨ event = .changed file)
      (progress : Progress) : Turn brewer file progress (brewer.handle event progress).1
  | named (progress : Progress) : Turn brewer file progress (brewer.buildFile file progress)

variable {brewer : Brewer} {file : Path}

theorem Turn.rewrites {before after : Progress} (turn : brewer.Turn file before after) :
    ∃ count, Rewrites brewer (brewer.classifier.classify file).chain file before.disk after.disk
      count := by
  cases turn with
  | told present =>
      obtain ⟨count, rewrites, _⟩ := handle_present brewer present before
      exact ⟨count, rewrites⟩
  | named => exact buildFile_rewrites brewer file before

/-- A compiled script does not have the name of the text it is compiled from. -/
theorem entryAt?_compiled {disk : Disk} {name : Text} {place spot : Place}
    (named : file.fileName? = some name)
    (entry : disk.entryAt? (file.artifact .preprocess) = some place)
    (compiled : disk.entryAt? ((file.artifact .preprocess).artifact .compileScript) = some spot) :
    spot ≠ place := by
  have middle := Path.fileName?_artifact .preprocess named
  obtain ⟨expanded, _, first, _, _, rfl⟩ := Disk.entryAt?_home entry
  obtain ⟨script, _, second, _, _, rfl⟩ := Disk.entryAt?_home compiled
  obtain rfl := Option.some.inj (first.symm.trans middle)
  obtain rfl := Option.some.inj (second.symm.trans (Path.fileName?_artifact _ middle))
  intro same
  have ends := congrArg List.getLast? (List.cons.inj same).1
  rw [Path.artifactName_getLast?, Path.artifactName_getLast?] at ends
  exact absurd ends (by decide)

/-- A text that has come into the artifact of a macro script is what the preprocessor made. -/
theorem rewrites_expansion {disk after : Disk} {count : Nat} {place : Place} {text : Text}
    {stamp : Int} {name : Text} (named : file.fileName? = some name)
    (rewrites : Rewrites brewer SourceKind.macroScript.chain file disk after count)
    (entry : disk.entryAt? (file.artifact .preprocess) = some place)
    (new : after.node? place ≠ disk.node? place)
    (held : after.node? place = some (.file (.text text) stamp)) :
    ∃ source, disk.readText file = .ok source ∧
      (brewer.transform disk .preprocess source file).2 = .ok text := by
  cases rewrites with
  | leave => exact absurd rfl new
  | pass onward =>
      refine absurd (onward.frame fun artifact member => ?_) new
      obtain rfl := List.mem_singleton.mp member
      exact fun compiled => entryAt?_compiled named entry compiled rfl
  | @replace _ _ _ _ _ _ source output spot read made found solid onward =>
      obtain rfl := Option.some.inj (found.symm.trans entry)
      have ways := Disk.NoNewWays.of_overlaid (Disk.Overlaid.putFile solid (.text output))
      have kept := onward.frame fun artifact member compiled => by
        obtain rfl := List.mem_singleton.mp member
        exact entryAt?_compiled named entry (Disk.entryAt?_back ways compiled) rfl
      rw [held, Disk.node?_putFile_self solid] at kept
      cases kept
      exact ⟨source, read, made⟩

theorem Turn.expansion {before after : Progress} {place : Place} {text : Text} {stamp : Int}
    (turn : brewer.Turn file before after) (script : SourceKind.ofPath file = .macroScript)
    (entry : before.disk.entryAt? (file.artifact .preprocess) = some place)
    (new : after.disk.node? place ≠ before.disk.node? place)
    (held : after.disk.node? place = some (.file (.text text) stamp)) :
    ∃ source body, before.disk.readText file = .ok source ∧
      brewer.expander.expandText before.disk source file = .ok body ∧
      text = brewer.table.apply body := by
  obtain ⟨count, rewrites⟩ := turn.rewrites
  rcases classify_cases brewer.classifier file with recognized | ignored
  · obtain ⟨name, named⟩ := classify_named (by rw [recognized, script]; decide)
    rw [recognized, script] at rewrites
    obtain ⟨source, read, made⟩ := rewrites_expansion named rewrites entry new held
    simp only [transform] at made
    split at made
    · exact absurd made (by simp)
    · next body expands => exact ⟨source, body, read, expands, (Except.ok.inj made).symm⟩
  · rw [ignored] at rewrites
    exact absurd (rewrites.frame (fun _ member => absurd member List.not_mem_nil)) new

end Brewer

theorem Path.join_absolute {path : Path} (absolute : path.isAbsolute = true) (base : Path) :
    base.join path = path := by
  rw [Path.join, if_pos absolute]

namespace Settings

variable {settings : Settings} {base root : Path}

/-- The include directories are the same from both directories: they are one directory, or no
include directory is relative. -/
theorem includePaths_eq
    (agree : base = root ∨ ∀ directory ∈ settings.includeDirs, directory.isAbsolute = true) :
    settings.includePaths base = settings.includePaths root := by
  rcases agree with rfl | absolute
  · rfl
  · refine List.map_congr_left fun directory member => ?_
    rw [Path.join_absolute (absolute directory member), Path.join_absolute (absolute directory member)]

/-- The registry is the same from both directories: they are one directory, or the registry is
looked for in neither. -/
theorem symbolsPath_eq {disk : Disk}
    (agree : base = root ∨ settings.symbols.isAbsolute = true ∨ (workspace? disk).isSome = true) :
    settings.symbolsPath disk base = settings.symbolsPath disk root := by
  rcases agree with rfl | absolute | inside
  · rfl
  · rw [symbolsPath, symbolsPath, Path.join_absolute absolute, Path.join_absolute absolute]
  · obtain ⟨workspace, found⟩ := Option.isSome_iff_exists.mp inside
    rw [symbolsPath, symbolsPath, found]
    rfl

end Settings

namespace Terminal

variable {settings : Settings} {disk : Disk} {paths : List Path} {selected : List SourceKind}
  {options : SessionOptions} {outside : Surroundings}

theorem brew_brewer {last : Progress} {brewer : Brewer}
    (run : brew settings disk paths selected options outside = (last, .ok brewer)) :
    ∃ root formats table, brewer = brewerFor settings root formats table options := by
  simp only [brew] at run
  split at run
  · cases run
  · split at run
    · cases run
    · split at run
      · cases run
      · cases run
        exact ⟨_, _, _, rfl⟩

/-- Whenever a session turns to a macro script and a new text comes into its artifact, the
script is shown as this text, and the symbols that it is said to need are those that the text
was given a prelude for. Shown is the disk of the moment, and the registry has to read as it
did when the session started. -/
theorem expand_shows_brewed {last before after : Progress} {brewer : Brewer} {file : Path}
    {place : Place} {text : Text} {stamp : Int}
    (run : brew settings disk paths selected options outside = (last, .ok brewer))
    (turn : brewer.Turn file before after) (script : SourceKind.ofPath file = .macroScript)
    (entry : before.disk.entryAt? (file.artifact .preprocess) = some place)
    (new : after.disk.node? place ≠ before.disk.node? place)
    (held : after.disk.node? place = some (.file (.text text) stamp))
    (registry : (SymbolTable.load before.disk
      (settings.symbolsPath before.disk brewer.root)).2 = .ok brewer.table)
    (includes : baseDirectory file = brewer.root ∨
      ∀ directory ∈ settings.includeDirs, directory.isAbsolute = true)
    (symbols : baseDirectory file = brewer.root ∨ settings.symbols.isAbsolute = true ∨
      (Settings.workspace? before.disk).isSome = true) :
    (∃ log, performExpand settings before.disk file false false =
      ⟨before.disk, log, text, .ok ()⟩) ∧
    ∃ body, (∃ source, before.disk.readText file = .ok source ∧
        brewer.expander.expandText before.disk source file = .ok body) ∧
      text = brewer.table.apply body ∧
      (neededSymbols settings before.disk file).2 = .ok (brewer.table.needed body) := by
  obtain ⟨source, body, read, expands, rfl⟩ := turn.expansion script entry new held
  obtain ⟨root, formats, table, rfl⟩ := brew_brewer run
  have shown : expanded settings before.disk file .retain = .ok body := by
    rw [expanded, Settings.includePaths_eq includes, Expander.expandFile, read]
    exact expands
  have found : (tableFor settings before.disk file).2 = .ok table := by
    rw [tableFor, Settings.symbolsPath_eq symbols]
    exact registry
  obtain ⟨log, known⟩ : ∃ log, tableFor settings before.disk file = (log, .ok table) :=
    ⟨_, Prod.ext rfl found⟩
  refine ⟨⟨log ++ table.applyLog body, ?_⟩, body, ⟨source, read, expands⟩, rfl, ?_⟩
  · simp [performExpand, shown, known, brewerFor]
  · simp [neededSymbols, scriptText, script, shown, known, brewerFor]

/-- Settings without a compiler. -/
def bareSettings : Settings := { Settings.standard with commands := ⟨[], [], []⟩ }

/-- A workspace with one script, which does not lie in its root. -/
def nestedDisk : Disk :=
  ⟨[([".cielo".toList], .directory 1), (["src".toList], .directory 1),
    (["a.cielo".toList, "src".toList], .file (.text "x = 1\n".toList) 1)], [], 1⟩

def nestedScript : Path := Path.ofString "/src/a.cielo"

def nestedText : Text := "x = 1\n".toList

def nestedBrewer : Brewer := brewerFor bareSettings (Path.ofString "/") Formats.all .empty .plain

def nestedStart : Progress := .start nestedDisk .plain

theorem nested_run : (brew bareSettings nestedDisk [nestedScript] [] .plain .still).2 =
    .ok nestedBrewer := by
  have named : namedTargets bareSettings nestedDisk [nestedScript] =
      .ok ⟨Path.ofString "/", [nestedScript]⟩ := by decide +kernel
  simp only [brew, named]
  rfl

theorem nested_hop : ∃ progress, progress.disk =
      nestedDisk.putFile ["a.coffee".toList, "src".toList] (.text nestedText) ∧
    nestedBrewer.hop nestedScript true .preprocess nestedScript none nestedStart =
      (progress, .passed (some nestedText)) := by
  have read : Brewer.inputText nestedStart.disk nestedScript none = .ok (some nestedText) := by
    decide +kernel
  have items : Script.itemsOf nestedScript.displayName nestedText = [.code "x = 1".toList] := by
    decide +kernel
  have expands : nestedBrewer.expander.expandText nestedStart.disk nestedText nestedScript =
      .ok nestedText := by
    rw [Expander.expandText, Expander.expandLines, items, Expander.expandItems, Expander.expandItems]
    rfl
  have made : nestedBrewer.transform nestedStart.disk .preprocess nestedText nestedScript =
      ([], .ok nestedText) := by
    rw [Brewer.transform, expands]
    decide +kernel
  have written : Artifacts.write nestedStart.disk (nestedScript.artifact .preprocess) nestedText =
      (nestedDisk.putFile ["a.coffee".toList, "src".toList] (.text nestedText), [], .ok ()) := by
    rfl
  simp only [Brewer.hop, read, Brewer.make, made, written]
  exact ⟨_, rfl, rfl⟩

theorem nested_written : (nestedBrewer.buildFile nestedScript nestedStart).disk.node?
    ["a.coffee".toList, "src".toList] = some (.file (.text nestedText) 2) := by
  obtain ⟨progress, disk, first⟩ := nested_hop
  have chain : (nestedBrewer.classifier.classify nestedScript).chain =
      [.preprocess, .compileScript] := by
    decide +kernel
  have last : (nestedBrewer.runChain nestedScript true [.compileScript]
      (nestedScript.artifact .preprocess) (some nestedText) progress).1.disk = progress.disk := by
    rfl
  rw [Brewer.buildFile_disk, chain, Brewer.runChain, first]
  simp only [last, disk]
  decide +kernel

theorem nested_shown : ∃ log, performExpand bareSettings nestedDisk nestedScript false false =
    ⟨nestedDisk, log, nestedText, .ok ()⟩ := by
  have entry : nestedStart.disk.entryAt? (nestedScript.artifact .preprocess) =
      some ["a.coffee".toList, "src".toList] := by decide +kernel
  have absent : nestedStart.disk.node? ["a.coffee".toList, "src".toList] = none := by
    decide +kernel
  exact (expand_shows_brewed (Prod.ext rfl nested_run) (.named nestedStart) (by decide +kernel)
    entry (by rw [nested_written, absent]; simp) nested_written rfl (Or.inr (by decide))
    (Or.inr (Or.inr (by decide +kernel)))).1

end Terminal
end Brewery
