import Brewery.Proofs.Disk.Trail
import Brewery.Proofs.Script.Reading
import Brewery.Proofs.Session.Footprint
import Brewery.Proofs.Session.Layout

/-!
Scripts that are started. The build of a named macro script starts it when both of its artifacts
have just been replaced, and at no other time: not when a stage refuses its text, when an input is
gone or when an artifact cannot be written, and not for a file of another kind. So the scripts that
a session has started are, in the order in which they were named, those that it has just made.
-/

namespace Brewery

namespace Disk

variable {disk : Disk} {links : Nat} {here place spot : Place} {segments : List Text} {path : Path}

theorem Walks.begins (walks : Walks disk links here segments place)
    (inside : disk.isDirectoryAt place = true) : disk.isDirectoryAt here = true := by
  cases segments with
  | nil =>
      cases walks
      exact inside
  | cons segment rest => exact walks.directory (List.cons_ne_nil segment rest)

-- A walk to a directory goes through directories and links.
theorem way_of_trail (walks : Walks disk links here segments place)
    (inside : disk.isDirectoryAt place = true) (member : spot ∈ trail disk links here segments) :
    disk.isDirectoryAt spot = true ∨ ∃ target, disk.node? spot = some (.link target) := by
  induction walks with
  | stay => exact absurd member (by simp)
  | filler within empty _ ih =>
      rw [trail_filler within empty] at member
      exact ih inside member
  | up within onward ih =>
      rw [trail_up within] at member
      rcases List.mem_cons.mp member with rfl | later
      · exact Or.inl (onward.begins inside)
      · exact ih inside later
  | follow within step held _ ih =>
      rw [trail_step within step, held] at member
      rcases List.mem_cons.mp member with rfl | later
      · exact Or.inr ⟨_, held⟩
      · exact ih inside later
  | enter within step held solid onward ih =>
      rw [trail_enter within step held solid] at member
      rcases List.mem_cons.mp member with rfl | later
      · exact Or.inl (onward.begins inside)
      · exact ih inside later

/-- The entry that a path names has been given a text, and the text can be read from the path, unless
the way to the entry led through the entry itself, which was a link. -/
def Placed (before after : Disk) (path : Path) (text : Text) : Prop :=
  ∃ place, before.entryAt? path = some place ∧ after.contentsAt? place = some (.text text) ∧
    (after.readText path = .ok text ∨
      place ∈ trail before linkLimit (before.start path).1 path.folder ∧
        ∃ target, before.node? place = some (.link target))

-- A write changes no way but those through the entry that it replaces, and no way goes through a file.
theorem readText_replaced (entry : disk.entryAt? path = some place)
    (solid : disk.isDirectoryAt place = false) (text : Text) :
    (disk.putFile place (.text text)).readText path = .ok text ∨
      place ∈ trail disk linkLimit (disk.start path).1 path.folder ∧
        ∃ target, disk.node? place = some (.link target) := by
  obtain ⟨name, dir, named, _, home, _⟩ := entryAt?_home entry
  obtain ⟨walks, inside⟩ := home?_eq_some_iff.mp home
  by_cases through : place ∈ trail disk linkLimit (disk.start path).1 path.folder
  · have way := way_of_trail walks inside through
    rw [solid] at way
    exact Or.inr ⟨through, way.resolve_left (by simp)⟩
  · have covers := Overlaid.putFile solid (.text text)
    have alike : SameBut (· = place) disk (disk.putFile place (.text text)) := by
      refine covers.sameBut fun other apart => undated?_of_node? ?_
      rw [node?_putFile (place_ne_nil solid), if_neg apart]
    have still : (disk.putFile place (.text text)).home? path = some dir := by
      rw [home?_eq_some_iff, ← walk_eq_ok_iff, alike.start, alike.directory]
      rw [alike.walk _ _ _ _ fun other member same => through (same ▸ member)]
      exact ⟨walk_eq_ok_iff.mpr walks, inside⟩
    have carries : Carries (disk.putFile place (.text text)) path (some text) := by
      intro held same
      cases same
      exact ⟨disk, place, entry, solid, rfl⟩
    exact Or.inl (carries.readText still)

end Disk

namespace Brewer

variable {brewer : Brewer} {path source input : Path} {stage : Stage} {carried : Option Text}
  {now next progress : Progress} {mid after : Disk} {text expanded output name : Text}
  {argv : List Text}

/-- The last artifact of the chain of a source. -/
def lastArtifact (brewer : Brewer) (path : Path) : Path :=
  path.finalArtifact (brewer.classifier.classify path).chain

/-- What a session tells when the second stage of a macro script is done. -/
def compiledEntry (brewer : Brewer) (path : Path) : LogEntry :=
  .info "brew" "compiled" (brewer.short (path.artifact .preprocess) ++ " => ".toList ++
    brewer.short (brewer.lastArtifact path))

/-- What a session tells when a script is started. -/
def startEntry (brewer : Brewer) (path : Path) : LogEntry :=
  .info "exec" "start" (brewer.lastArtifact path).displayName

/-- Both stages of a macro script make their artifacts: on the disk `mid` the first is made, on the
disk `after` the second, which holds what the expanded script compiles to. -/
structure Rebuilt (brewer : Brewer) (path : Path) (disk mid after : Disk) (text expanded output : Text) :
    Prop where
  script : brewer.classifier.classify path = .macroScript
  read : disk.readText path = .ok text
  expands : (brewer.transform disk .preprocess text path).2 = .ok expanded
  wrote : disk.replaceFile (path.artifact .preprocess) expanded = (mid, .ok ())
  compiles : (brewer.transform mid .compileScript expanded (path.artifact .preprocess)).2 = .ok output
  finished : mid.replaceFile (brewer.lastArtifact path) output = (after, .ok ())

section Hops

/-- What a session has told and remembers when a hop has made its artifact. -/
def made (brewer : Brewer) (stage : Stage) (input : Path) (mid : Disk) (told : Log)
    (progress : Progress) : Progress :=
  { progress with
    disk := mid
    session := (progress.session.recordWrite mid (input.artifact stage)).countProcessed
    log := progress.log ++ told ++ [.info "brew" stage.done
      (brewer.short input ++ " => ".toList ++ brewer.short (input.artifact stage))] }

theorem hop_made (source : Path) (meant : stage ≠ .wrapData)
    (given : inputText progress.disk input carried = .ok (some text))
    (makes : (brewer.transform progress.disk stage text input).2 = .ok output)
    (wrote : progress.disk.replaceFile (input.artifact stage) output = (mid, .ok ())) :
    ∃ told, brewer.hop source true stage input carried progress =
      (brewer.made stage input mid told progress, .passed (some output)) := by
  cases transformed : brewer.transform progress.disk stage text input with
  | mk told result =>
      rw [transformed] at makes
      obtain rfl : result = .ok output := makes
      refine ⟨told, ?_⟩
      simp [hop, meant, given, make, transformed, Artifacts.write, wrote, Brewer.made, Progress.tell]

/-- A hop that is always made passes only when it has made its artifact. -/
theorem hop_passed (source : Path) {handed : Option Text} (meant : stage ≠ .wrapData)
    (passes : (brewer.hop source true stage input carried progress).2 = .passed handed) :
    ∃ text output mid, inputText progress.disk input carried = .ok (some text) ∧
      (brewer.transform progress.disk stage text input).2 = .ok output ∧
      progress.disk.replaceFile (input.artifact stage) output = (mid, .ok ()) := by
  simp only [hop, meant, decide_false, Bool.false_and, Bool.false_eq_true, if_false, Bool.not_true]
    at passes
  cases given : inputText progress.disk input carried with
  | error error => simp [given] at passes
  | ok found =>
      cases found with
      | none => simp [given] at passes
      | some text =>
          simp only [given, make] at passes
          cases transformed : brewer.transform progress.disk stage text input with
          | mk told result =>
              cases result with
              | error error => simp [transformed] at passes
              | ok output =>
                  simp only [transformed, Artifacts.write] at passes
                  cases wrote : progress.disk.replaceFile (input.artifact stage) output with
                  | mk mid outcome =>
                      cases outcome with
                      | error fault => simp [wrote] at passes
                      | ok => exact ⟨text, output, mid, rfl, by rw [transformed], wrote⟩

theorem hop_runs (brewer : Brewer) (source : Path) (always : Bool) (stage : Stage) (input : Path)
    (carried : Option Text) (progress : Progress) :
    (brewer.hop source always stage input carried progress).1.runs = progress.runs := by
  unfold hop make
  simp only
  repeat' split
  all_goals rfl

theorem passed_of_runChain {rest : List Stage}
    (through : (brewer.runChain source true (stage :: rest) input carried progress).2 = .ok true) :
    ∃ next handed, brewer.hop source true stage input carried progress = (next, .passed handed) ∧
      (brewer.runChain source true rest (input.artifact stage) handed next).2 = .ok true := by
  rw [runChain] at through
  cases ended : brewer.hop source true stage input carried progress with
  | mk next hop =>
      cases hop with
      | passed handed => exact ⟨next, handed, rfl, by simpa [ended] using through⟩
      | stopped => simp [ended] at through
      | failed error => simp [ended] at through

theorem runChain_runs (brewer : Brewer) (source : Path) (always : Bool) (stages : List Stage)
    (input : Path) (carried : Option Text) (progress : Progress) :
    (brewer.runChain source always stages input carried progress).1.runs = progress.runs := by
  induction stages generalizing input carried progress with
  | nil => rfl
  | cons stage rest ih =>
      have kept := brewer.hop_runs source always stage input carried progress
      rw [runChain]
      generalize brewer.hop source always stage input carried progress = ended at kept ⊢
      obtain ⟨next, passed | stopped | failed⟩ := ended
      · exact (ih _ _ _).trans kept
      · exact kept
      · exact kept

end Hops

section Rebuilding

variable {disk : Disk}

theorem lastArtifact_script (script : brewer.classifier.classify path = .macroScript) :
    brewer.lastArtifact path = (path.artifact .preprocess).artifact .compileScript := by
  rw [lastArtifact, script]
  rfl

-- A source that could be read has its directory, so nothing but one entry changes.
theorem replaced_entry {before : Disk} {dir : Place} (named : path.fileName? = some name)
    (home : before.home? path = some dir) (covers : Disk.Overlaid before disk)
    (wrote : disk.replaceFile path text = (after, .ok ())) :
    ∃ place, disk.entryAt? path = some place ∧ disk.isDirectoryAt place = false ∧
      after = disk.putFile place (.text text) := by
  rcases Disk.replaceFile_cases named home covers text with ⟨fault, refused⟩ | ⟨place, found⟩
  · rw [wrote] at refused
    exact absurd (congrArg Prod.snd refused) (by simp)
  · obtain ⟨entry, solid, replaced⟩ := found
    rw [wrote] at replaced
    exact ⟨place, entry, solid, congrArg Prod.fst replaced⟩

namespace Rebuilt

theorem placed (rebuilt : Rebuilt brewer path disk mid after text expanded output) :
    Disk.Placed mid after (brewer.lastArtifact path) output := by
  have recognized : brewer.classifier.classify path ≠ .unrecognized := by simp [rebuilt.script]
  obtain ⟨name, named⟩ := classify_named recognized
  obtain ⟨dir, home⟩ := Disk.home?_of_readText named rebuilt.read
  have first := Path.fileName?_artifact .preprocess named
  have home' : disk.home? (path.artifact .preprocess) = some dir := by
    rw [Disk.home?_artifact _ named, home]
  obtain ⟨spot, _, solid, rfl⟩ :=
    replaced_entry first home' (Disk.Overlaid.refl disk) rebuilt.wrote
  have wrote := rebuilt.finished
  rw [lastArtifact_script rebuilt.script] at wrote ⊢
  have home'' : disk.home? ((path.artifact .preprocess).artifact .compileScript) = some dir := by
    rw [Disk.home?_artifact _ first, home']
  obtain ⟨place, entry, solid', rfl⟩ := replaced_entry (Path.fileName?_artifact .compileScript first)
    home'' (Disk.Overlaid.putFile solid (.text expanded)) wrote
  refine ⟨place, entry, ?_, Disk.readText_replaced entry solid' output⟩
  rw [Disk.contentsAt?, Disk.node?_putFile_self solid']

/-- The chain of a script that is rebuilt goes through, and tells of the last artifact last. -/
theorem runChain (rebuilt : Rebuilt brewer path now.disk mid after text expanded output) :
    ∃ told session, session.counters =
        ⟨now.session.counters.processed + 2, now.session.counters.executed⟩ ∧
      brewer.runChain path true (brewer.classifier.classify path).chain path none now =
        (⟨after, session, now.log ++ told ++ [brewer.compiledEntry path], now.runs⟩, .ok true) := by
  have given : inputText now.disk path none = .ok (some text) := by simp [inputText, rebuilt.read]
  obtain ⟨early, first⟩ := hop_made path (by simp) given rebuilt.expands rebuilt.wrote
  have finished := rebuilt.finished
  rw [lastArtifact_script rebuilt.script] at finished
  have onward : inputText mid (path.artifact .preprocess) (some expanded) = .ok (some expanded) := rfl
  obtain ⟨late, second⟩ : ∃ told, brewer.hop path true .compileScript (path.artifact .preprocess)
      (some expanded) (brewer.made .preprocess path mid early now) =
        (brewer.made .compileScript (path.artifact .preprocess) after told
          (brewer.made .preprocess path mid early now), .passed (some output)) :=
    hop_made path (by simp) onward rebuilt.compiles finished
  rw [compiledEntry, lastArtifact_script rebuilt.script, rebuilt.script, SourceKind.chain,
    Brewer.runChain, first]
  simp only [Brewer.runChain, second]
  refine ⟨early ++ [.info "brew" "expanded" (brewer.short path ++ " => ".toList ++
    brewer.short (path.artifact .preprocess))] ++ late, _, ?_, by simp [made, Stage.done]; rfl⟩
  simp [Session.counters_recorded]

end Rebuilt

/-- The chain of a macro script goes through only when it is rebuilt. -/
theorem rebuilt_of_runChain (script : brewer.classifier.classify path = .macroScript)
    (through : (brewer.runChain path true (brewer.classifier.classify path).chain path none now).2 =
      .ok true) :
    ∃ mid after text expanded output,
      Rebuilt brewer path now.disk mid after text expanded output := by
  have final := lastArtifact_script script
  rw [script, SourceKind.chain] at through
  obtain ⟨next, handed, first, through⟩ := passed_of_runChain through
  obtain ⟨text, expanded, mid, given, expands, wrote⟩ := hop_passed path (by simp)
    (congrArg Prod.snd first)
  obtain ⟨told, made⟩ := hop_made path (by simp) given expands wrote
  obtain ⟨rfl, rfl⟩ : brewer.made .preprocess path mid told now = next ∧ some expanded = handed := by
    simpa using made.symm.trans first
  obtain ⟨last, handed, second, _⟩ := passed_of_runChain through
  obtain ⟨held, output, after, given', compiles, finished⟩ := hop_passed path (by simp)
    (congrArg Prod.snd second)
  obtain rfl : expanded = held := by simpa [inputText] using given'
  obtain ⟨_, read⟩ := (inputText_eq_some given).resolve_left (by simp)
  exact ⟨mid, after, text, expanded, output, script, read, expands, wrote, compiles,
    final ▸ finished⟩

end Rebuilding

section Launches

/-- What one named file does to a session that runs scripts, with the scripts that it starts and the
number of artifacts that it replaces. -/
inductive Launch (brewer : Brewer) (path : Path) (now next : Progress) : List Path → Nat → Prop where
  /-- The script has been made of its source just now, and is started next. -/
  | starts {mid : Disk} {text expanded output : Text} (told : Log)
      (rebuilt : Rebuilt brewer path now.disk mid next.disk text expanded output)
      (placed : Disk.Placed mid next.disk (brewer.lastArtifact path) output)
      (log : next.log = now.log ++ told ++ [brewer.compiledEntry path, brewer.startEntry path]) :
      Launch brewer path now next [brewer.lastArtifact path] 2
  /-- No script has been made of the file: it is of another kind, or its text or that of its expanded
  script could not be had, or a stage refused it, or an artifact could not be written. -/
  | passes {count : Nat}
      (never : ∀ mid after text expanded output,
        ¬Rebuilt brewer path now.disk mid after text expanded output) :
      Launch brewer path now next [] count

/-- One file after the other. Each finds what those before it left, and adds to the scripts that were
started and to the counters. -/
inductive Launches (brewer : Brewer) :
    List Path → Progress → Progress → List Path → Nat → Prop where
  | done {now : Progress} : Launches brewer [] now now [] 0
  | next {path : Path} {files begun later : List Path} {now next last : Progress} {count others : Nat}
      (first : Launch brewer path now next begun count)
      (rewrites : Rewrites brewer (brewer.classifier.classify path).chain path now.disk next.disk count)
      (runs : next.runs = now.runs ++ begun)
      (counters : next.session.counters = ⟨now.session.counters.processed + count,
        now.session.counters.executed + begun.length⟩)
      (rest : Launches brewer files next last later others) :
      Launches brewer (path :: files) now last (begun ++ later) (count + others)

/-- A script that was rebuilt is started, and nothing comes between. -/
theorem Rebuilt.buildFile (runner : brewer.runner = some argv)
    (rebuilt : Rebuilt brewer path now.disk mid after text expanded output) :
    ∃ told session, session.counters =
        ⟨now.session.counters.processed + 2, now.session.counters.executed + 1⟩ ∧
      brewer.buildFile path now = ⟨after, session,
        now.log ++ told ++ [brewer.compiledEntry path, brewer.startEntry path],
        now.runs ++ [brewer.lastArtifact path]⟩ := by
  obtain ⟨told, session, counters, through⟩ := rebuilt.runChain
  refine ⟨told, session.countExecuted, by simp [Session.countExecuted, counters], ?_⟩
  simp only [Brewer.buildFile, through, if_pos rebuilt.script, execute, runner]
  simp [Progress.tell, startEntry, lastArtifact]

theorem buildFile_otherwise
    (other : brewer.classifier.classify path = .macroScript →
      (brewer.runChain path true (brewer.classifier.classify path).chain path none now).2 ≠ .ok true) :
    ∃ log, brewer.buildFile path now = (brewer.runChain path true
      (brewer.classifier.classify path).chain path none now).1.tell log := by
  simp only [buildFile]
  generalize brewer.runChain path true (brewer.classifier.classify path).chain path none now = ended
    at other ⊢
  obtain ⟨next, error | ⟨_ | _⟩⟩ := ended
  · exact reportFailure_eq brewer path error next
  · exact ⟨[], (Progress.tell_nil next).symm⟩
  · have elsewise : brewer.classifier.classify path ≠ .macroScript := fun script => other script rfl
    simp only [if_neg elsewise]
    exact ⟨[], (Progress.tell_nil next).symm⟩

theorem buildFile_launch (runner : brewer.runner = some argv)
    (recognized : brewer.classifier.classify path ≠ .unrecognized) (now : Progress) :
    ∃ begun count, Launch brewer path now (brewer.buildFile path now) begun count ∧
      Rewrites brewer (brewer.classifier.classify path).chain path now.disk
        (brewer.buildFile path now).disk count ∧
      (brewer.buildFile path now).runs = now.runs ++ begun ∧
      (brewer.buildFile path now).session.counters = ⟨now.session.counters.processed + count,
        now.session.counters.executed + begun.length⟩ := by
  obtain ⟨name, named⟩ := classify_named recognized
  obtain ⟨count, rewrites, counted⟩ :=
    chain_rewrites (runChain_cases brewer path true _ named (carries_none now.disk path))
  by_cases remade : ∃ mid after text expanded output,
      Rebuilt brewer path now.disk mid after text expanded output
  · obtain ⟨mid, after, text, expanded, output, rebuilt⟩ := remade
    obtain ⟨_, _, twice, through⟩ := rebuilt.runChain
    rw [through] at rewrites counted
    obtain rfl : 2 = count := by simpa [twice] using congrArg Counters.processed counted
    obtain ⟨told, session, counters, built⟩ := rebuilt.buildFile runner
    rw [built]
    exact ⟨_, 2, .starts told rebuilt rebuilt.placed rfl, rewrites, rfl, counters⟩
  · obtain ⟨log, told⟩ := buildFile_otherwise fun script through =>
      remade (rebuilt_of_runChain script through)
    rw [told]
    refine ⟨[], count, .passes ?_, rewrites, ?_, counted⟩
    · intro mid after text expanded output rebuilt
      exact remade ⟨mid, after, text, expanded, output, rebuilt⟩
    · rw [Progress.tell, runChain_runs, List.append_nil]

theorem foldl_launches (runner : brewer.runner = some argv) {files : List Path}
    (recognized : ∀ path ∈ files, brewer.classifier.classify path ≠ .unrecognized) (now : Progress) :
    ∃ begun count, Launches brewer files now
      (files.foldl (fun progress path => brewer.buildFile path progress) now) begun count := by
  induction files generalizing now with
  | nil => exact ⟨[], 0, .done⟩
  | cons path files ih =>
      obtain ⟨begun, count, first, rewrites, runs, counters⟩ :=
        buildFile_launch runner (recognized path List.mem_cons_self) now
      obtain ⟨later, others, rest⟩ :=
        ih (fun other member => recognized other (List.mem_cons_of_mem _ member))
          (brewer.buildFile path now)
      exact ⟨begun ++ later, count + others, .next first rewrites runs counters rest⟩

theorem Launches.total {files begun : List Path} {last : Progress} {count : Nat}
    (launches : Launches brewer files now last begun count) :
    last.runs = now.runs ++ begun ∧ last.disk.clock = now.disk.clock + count ∧
      last.session.counters = ⟨now.session.counters.processed + count,
        now.session.counters.executed + begun.length⟩ := by
  induction launches with
  | done => simp
  | next _ rewrites runs counters _ ih =>
      obtain ⟨later, clock, counted⟩ := ih
      rw [later, clock, counted, rewrites.clock, runs, counters]
      simp [Nat.add_assoc, Int.add_assoc]

/-- A session with a runner builds the named files and starts the scripts that it makes of them: each
macro script whose artifacts were both replaced, right then, and no other file. The scripts started
and the artifacts replaced are those that are counted, and nothing else is written. -/
theorem build_starts {files : List Path} (runner : brewer.runner = some argv)
    (recognized : ∀ path ∈ files, brewer.classifier.classify path ≠ .unrecognized)
    (start : Progress) :
    (brewer.build files start).2 = .ok () ∧
    ∃ begun count, Launches brewer files start (brewer.build files start).1 begun count ∧
      (brewer.build files start).1.runs = start.runs ++ begun ∧
      (brewer.build files start).1.disk.clock = start.disk.clock + count ∧
      (brewer.build files start).1.session.counters = ⟨start.session.counters.processed + count,
        start.session.counters.executed + begun.length⟩ := by
  rw [build_known recognized]
  obtain ⟨begun, count, launches⟩ := foldl_launches runner recognized start
  exact ⟨rfl, begun, count, launches, launches.total⟩

/-- A brewer that hands every text on as it is, and runs what it has made. -/
def running : Brewer := { verbatim with runner := some ["node".toList] }

theorem running_expands (disk : Disk) (path : Path) :
    (running.transform disk .preprocess [] path).2 = .ok [] := by
  have items : Script.itemsOf path.displayName [] = [] := Script.items_nil path.displayName 1
  have expands : running.expander.expandText disk [] path = .ok [] := by
    rw [Expander.expandText, Expander.expandLines, items, Expander.expandItems]
    rfl
  rw [transform, expands]
  decide +kernel

theorem loneDisk_rebuilt : Rebuilt running (.ofString "/a.cielo") loneDisk
    (loneDisk.putFile ["a.coffee".toList] (.text []))
    ((loneDisk.putFile ["a.coffee".toList] (.text [])).putFile ["a.js".toList] (.text [])) [] [] [] where
  script := by decide
  read := by decide +kernel
  expands := running_expands _ _
  wrote := Disk.replaceFile_of_entry (by decide +kernel) (by decide +kernel) []
  compiles := rfl
  finished := Disk.replaceFile_of_entry (by decide +kernel) (by decide +kernel) []

-- A script that is not there is passed over, and what is named after it is built and started.
theorem loneDisk_starts :
    (running.build [.ofString "/b.coffee", .ofString "/a.cielo"] (.start loneDisk .plain)).2 = .ok () ∧
      Launches running [.ofString "/b.coffee", .ofString "/a.cielo"] (.start loneDisk .plain)
        (running.build [.ofString "/b.coffee", .ofString "/a.cielo"] (.start loneDisk .plain)).1
        [.ofString "/a.js"] 2 := by
  have known : ∀ path ∈ [Path.ofString "/b.coffee", .ofString "/a.cielo"],
      running.classifier.classify path ≠ .unrecognized := by decide
  obtain ⟨whole, begun, count, launches, runs, _, counters⟩ :=
    build_starts rfl known (.start loneDisk .plain)
  have absent : (running.buildFile (.ofString "/b.coffee") (.start loneDisk .plain)).disk = loneDisk :=
    rfl
  obtain ⟨_, session, counted, built⟩ := (absent ▸ loneDisk_rebuilt).buildFile rfl
  have last : (running.build [.ofString "/b.coffee", .ofString "/a.cielo"]
      (.start loneDisk .plain)).1 = running.buildFile (.ofString "/a.cielo")
        (running.buildFile (.ofString "/b.coffee") (.start loneDisk .plain)) := by
    rw [build_known known, List.foldl_cons, List.foldl_cons, List.foldl_nil]
  rw [last, built] at runs counters
  obtain rfl : [Path.ofString "/a.js"] = begun := runs
  have before : (running.buildFile (.ofString "/b.coffee") (.start loneDisk .plain)).session.counters =
      ⟨0, 0⟩ := rfl
  rw [before] at counted
  obtain rfl : 2 = count := by
    simpa [Progress.start, Session.start] using
      congrArg Counters.processed (counted.symm.trans counters)
  exact ⟨whole, launches⟩

/-- A directory with a script, and a link to the directory itself where the artifact goes. -/
def loopDisk : Disk where
  nodes := [(["d".toList], .directory 1), (["x.cielo".toList, "d".toList], .file (.text []) 1),
    (["x.js".toList, "d".toList], .link ".".toList)]
  current := []
  clock := 1

theorem loopDisk_rebuilt : Rebuilt running (.ofString "/d/x.js/x.cielo") loopDisk
    (loopDisk.putFile ["x.coffee".toList, "d".toList] (.text []))
    ((loopDisk.putFile ["x.coffee".toList, "d".toList] (.text [])).putFile
      ["x.js".toList, "d".toList] (.text [])) [] [] [] where
  script := by decide
  read := by decide +kernel
  expands := running_expands _ _
  wrote := Disk.replaceFile_of_entry (by decide +kernel) (by decide +kernel) []
  compiles := rfl
  finished := Disk.replaceFile_of_entry (by decide +kernel) (by decide +kernel) []

-- The script replaces the link by which it was named, and is started by a path that leads nowhere.
theorem loopDisk_starts :
    running.classifier.classify (.ofString "/d/x.js/x.cielo") = .macroScript ∧
      (∃ mid, Rebuilt running (.ofString "/d/x.js/x.cielo") loopDisk mid (running.build
        [.ofString "/d/x.js/x.cielo"] (.start loopDisk .plain)).1.disk [] [] []) ∧
      (running.build [.ofString "/d/x.js/x.cielo"] (.start loopDisk .plain)).1.runs =
        [.ofString "/d/x.js/x.js"] ∧
      (running.build [.ofString "/d/x.js/x.cielo"] (.start loopDisk .plain)).1.disk.readText
        (.ofString "/d/x.js/x.js") = .error .notDirectory := by
  have known : ∀ path ∈ [Path.ofString "/d/x.js/x.cielo"],
      running.classifier.classify path ≠ .unrecognized := by decide
  obtain ⟨_, session, _, built⟩ :=
    (show Rebuilt running _ (Progress.start loopDisk .plain).disk _ _ _ _ _ from
      loopDisk_rebuilt).buildFile rfl
  rw [build_known known, List.foldl_cons, List.foldl_nil, built]
  refine ⟨by decide, ⟨_, loopDisk_rebuilt⟩, rfl, ?_⟩
  have blocked : ((loopDisk.putFile ["x.coffee".toList, "d".toList] (.text [])).putFile
      ["x.js".toList, "d".toList] (.text [])).readText (.ofString "/d/x.js/x.js") =
        .error .notDirectory := by
    decide +kernel
  exact blocked

end Launches

end Brewer

end Brewery
