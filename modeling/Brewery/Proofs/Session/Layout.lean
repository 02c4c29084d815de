import Brewery.Proofs.Session.Cases
import Brewery.Proofs.Source.Names

/-!
Sources and the files that go with them. A source brings the artifacts of its chain along, and
an artifact may be the input of the next hop. On a disk where every such file is an entry of its
own, and is a plain file when it is there, a file can be spoken of by its path alone: writing
one or taking one away changes what its path holds and nothing about the others.
-/

namespace Brewery

namespace Brewer

/-- The stages that a session takes a path through. -/
def stages (brewer : Brewer) (path : Path) : List Stage :=
  if brewer.classifier.classify path = .dataLiteral ∧ brewer.inStores path = false then []
  else (brewer.classifier.classify path).chain

end Brewer

/-- The stages of a chain, each with its input. -/
def hops : List Stage → Path → List (Stage × Path)
  | [], _ => []
  | stage :: rest, input => (stage, input) :: hops rest (input.artifact stage)

/-- The files that sources bring along: the sources and the artifacts of their chains. -/
def Family (brewer : Brewer) (sources : Path → Prop) (path : Path) : Prop :=
  ∃ source, sources source ∧ (path = source ∨ path ∈ source.artifacts (brewer.stages source))

/-- Every file of the family has an entry of its own, and no file is written for two reasons: a
source is no artifact, and an artifact has one source. -/
structure Layout (brewer : Brewer) (sources : Path → Prop) (disk : Disk) : Prop where
  entry : ∀ path, Family brewer sources path → ∃ place, disk.entryAt? path = some place
  unique : ∀ left right, Family brewer sources left → Family brewer sources right →
    disk.entryAt? left = disk.entryAt? right → left = right
  apart : ∀ source other artifact, sources source → sources other →
    artifact ∈ other.artifacts (brewer.stages other) → artifact ≠ source
  unshared : ∀ source other artifact, sources source → sources other →
    artifact ∈ source.artifacts (brewer.stages source) →
    artifact ∈ other.artifacts (brewer.stages other) → source = other

/-- What stands at the entry that a path names. -/
def Disk.nodeAt? (disk : Disk) (path : Path) : Option Node :=
  (disk.entryAt? path).bind disk.node?

/-- A layout in which the files of the family are files, and none is from the future. -/
structure Laid (brewer : Brewer) (sources : Path → Prop) (disk : Disk) : Prop
    extends Layout brewer sources disk where
  plain : ∀ path node, Family brewer sources path → disk.nodeAt? path = some node →
    ∃ contents stamp, node = .file contents stamp ∧ stamp ≤ disk.clock

section Chains

variable {brewer : Brewer} {path : Path} {name : Text}

theorem stages_recognized {stage : Stage} {rest : List Stage}
    (shape : brewer.stages path = stage :: rest) :
    brewer.classifier.classify path ≠ .unrecognized := by
  intro unknown
  rw [Brewer.stages, unknown] at shape
  simp [SourceKind.chain] at shape

theorem stages_named {stage : Stage} {rest : List Stage}
    (shape : brewer.stages path = stage :: rest) : ∃ name, path.fileName? = some name :=
  Brewer.classify_named (stages_recognized shape)

-- The stages of a path are those of its extension, or none.
theorem stages_cases (brewer : Brewer) (path : Path) :
    brewer.stages path = [] ∨ brewer.stages path = (SourceKind.ofPath path).chain := by
  unfold Brewer.stages
  split
  · exact Or.inl rfl
  · rcases Brewer.classify_cases brewer.classifier path with kind | unknown
    · rw [kind]
      exact Or.inr rfl
    · rw [unknown]
      exact Or.inl rfl

/-- Only the artifact of a preprocessor goes further, and only to the script compiler. -/
theorem stages_artifact (brewer : Brewer) (stage : Stage) (named : path.fileName? = some name) :
    brewer.stages (path.artifact stage) = [] ∨
      stage = .preprocess ∧ brewer.stages (path.artifact stage) = [.compileScript] := by
  rcases stages_cases brewer (path.artifact stage) with none | chain
  · exact Or.inl none
  rcases SourceKind.ofPath_artifact stage named with given | unknown
  · rw [given] at chain
    cases stage with
    | preprocess => exact Or.inr ⟨rfl, chain⟩
    | _ => exact Or.inl chain
  · rw [unknown] at chain
    exact Or.inl chain

/-- A chain is empty, one stage that is not the preprocessor, or the chain of a macro script. -/
theorem stages_shape (brewer : Brewer) (path : Path) :
    brewer.stages path = [] ∨
      (∃ stage, stage ≠ .preprocess ∧ brewer.stages path = [stage]) ∨
      brewer.stages path = [.preprocess, .compileScript] := by
  rcases stages_cases brewer path with none | chain
  · exact Or.inl none
  · rw [chain]
    cases SourceKind.ofPath path with
    | macroScript => exact Or.inr (Or.inr rfl)
    | intermediateScript => exact Or.inr (Or.inl ⟨.compileScript, by simp, rfl⟩)
    | componentTemplate => exact Or.inr (Or.inl ⟨.compileTemplate, by simp, rfl⟩)
    | dataLiteral => exact Or.inr (Or.inl ⟨.wrapData, by simp, rfl⟩)
    | unrecognized => exact Or.inl rfl

theorem artifacts_nodup (brewer : Brewer) (path : Path) :
    (path :: path.artifacts (brewer.stages path)).Nodup := by
  have apart : path ∉ path.artifacts (brewer.stages path) := by
    intro member
    rcases stages_cases brewer path with none | chain
    · rw [none] at member
      exact absurd member (by simp [Path.artifacts])
    cases shape : brewer.stages path with
    | nil =>
        rw [shape] at member
        exact absurd member (by simp [Path.artifacts])
    | cons stage rest =>
        obtain ⟨name, named⟩ := stages_named shape
        rw [chain] at member
        obtain ⟨other, again, different⟩ := Path.artifacts_renamed named member
        exact different (Option.some.inj (again.symm.trans named))
  refine List.nodup_cons.mpr ⟨apart, ?_⟩
  rcases stages_shape brewer path with none | ⟨stage, _, single⟩ | double
  · rw [none]
    exact List.nodup_nil
  · rw [single]
    simp [Path.artifacts]
  · obtain ⟨name, named⟩ := stages_named double
    have first := Path.fileName?_artifact .preprocess named
    have second := Path.fileName?_artifact .compileScript first
    rw [double]
    refine List.nodup_cons.mpr ⟨fun member => ?_, by simp [Path.artifacts]⟩
    have same : path.artifact .preprocess = (path.artifact .preprocess).artifact .compileScript :=
      List.mem_singleton.mp member
    rw [← same, first] at second
    have ends := congrArg List.getLast? (Option.some.inj second)
    rw [Path.artifactName_getLast?, Path.artifactName_getLast?] at ends
    exact absurd ends (by decide)

/-- An artifact goes no further, unless it is what the preprocessor makes of a macro script. -/
theorem artifact_stages {artifact : Path} (member : artifact ∈ path.artifacts (brewer.stages path)) :
    brewer.stages artifact = [] ∨ brewer.stages path = [.preprocess, .compileScript] ∧
      artifact = path.artifact .preprocess ∧ brewer.stages artifact = [.compileScript] := by
  rcases stages_shape brewer path with none | ⟨stage, final, single⟩ | double
  · rw [none] at member
    exact absurd member List.not_mem_nil
  · obtain ⟨name, named⟩ := stages_named single
    rw [single] at member
    rw [List.mem_singleton.mp member]
    rcases stages_artifact brewer stage named with none | ⟨first, _⟩
    · exact Or.inl none
    · exact absurd first final
  · obtain ⟨name, named⟩ := stages_named double
    rw [double] at member
    rcases List.mem_cons.mp member with rfl | last
    · rcases stages_artifact brewer .preprocess named with none | ⟨_, chain⟩
      · exact Or.inl none
      · exact Or.inr ⟨double, rfl, chain⟩
    · rw [List.mem_singleton.mp last]
      have next := Path.fileName?_artifact .preprocess named
      rcases stages_artifact brewer .compileScript next with none | ⟨first, _⟩
      · exact Or.inl none
      · exact absurd first (by simp)

/-- The artifacts of an artifact are those of its source. -/
theorem artifacts_owned {artifact later : Path} (member : artifact ∈ path.artifacts (brewer.stages path))
    (further : later ∈ artifact.artifacts (brewer.stages artifact)) :
    later ∈ path.artifacts (brewer.stages path) := by
  rcases artifact_stages member with none | ⟨double, rfl, single⟩
  · rw [none] at further
    exact absurd further List.not_mem_nil
  · rw [single] at further
    rw [double]
    exact List.mem_cons_of_mem _ further

end Chains

section Families

variable {brewer : Brewer} {sources : Path → Prop} {disk : Disk} {path source artifact : Path}

theorem Family.of_source (held : sources source) : Family brewer sources source :=
  ⟨source, held, Or.inl rfl⟩

theorem Family.of_artifact (held : sources source)
    (member : artifact ∈ source.artifacts (brewer.stages source)) :
    Family brewer sources artifact :=
  ⟨source, held, Or.inr member⟩

theorem Family.further (family : Family brewer sources path)
    (member : artifact ∈ path.artifacts (brewer.stages path)) : Family brewer sources artifact := by
  obtain ⟨source, held, rfl | inside⟩ := family
  · exact .of_artifact held member
  · exact .of_artifact held (artifacts_owned inside member)

namespace Laid

theorem nodeAt?_eq {place : Place} (entry : disk.entryAt? path = some place) :
    disk.nodeAt? path = disk.node? place := by
  simp [Disk.nodeAt?, entry]

theorem plain_at (laid : Laid brewer sources disk) (family : Family brewer sources path)
    {place : Place} (entry : disk.entryAt? path = some place) :
    ∀ node, disk.node? place = some node → ∃ contents stamp, node = .file contents stamp := by
  intro node held
  rw [← nodeAt?_eq entry] at held
  obtain ⟨contents, stamp, file, _⟩ := laid.plain path node family held
  exact ⟨contents, stamp, file⟩

theorem firm (laid : Laid brewer sources disk) (family : Family brewer sources path)
    {place : Place} (entry : disk.entryAt? path = some place) :
    ∀ target, disk.node? place ≠ some (.link target) := by
  intro target held
  obtain ⟨contents, stamp, file⟩ := laid.plain_at family entry _ held
  exact absurd file (by simp)

theorem solid (laid : Laid brewer sources disk) (family : Family brewer sources path)
    {place : Place} (entry : disk.entryAt? path = some place) :
    disk.isDirectoryAt place = false := by
  cases inside : disk.isDirectoryAt place with
  | false => rfl
  | true =>
      obtain ⟨stamp, held⟩ := Disk.isDirectoryAt_iff.mp inside
      obtain ⟨contents, _, file⟩ := laid.plain_at family entry _ held
      exact absurd file (by simp)

/-- What a path holds can be read off its entry. -/
theorem readText_eq (laid : Laid brewer sources disk) (family : Family brewer sources path) :
    disk.readText path = match disk.nodeAt? path with
      | some (.file (.text text) _) => .ok text
      | some (.file (.raw _) _) => .error .notText
      | _ => .error .missing := by
  obtain ⟨place, entry⟩ := laid.entry path family
  rw [nodeAt?_eq entry, Disk.readText, Disk.readContents,
    Disk.node_of_entry entry (laid.firm family entry)]
  cases held : disk.node? place with
  | none => simp [bind, Except.bind]
  | some node =>
      obtain ⟨contents, stamp, rfl⟩ := laid.plain_at family entry node held
      cases contents <;> simp [bind, Except.bind]

theorem stamp?_eq (laid : Laid brewer sources disk) (family : Family brewer sources path) :
    disk.stamp? path = match disk.nodeAt? path with
      | some (.file _ stamp) => some stamp
      | _ => none := by
  obtain ⟨place, entry⟩ := laid.entry path family
  rw [nodeAt?_eq entry, Disk.stamp?_of_entry entry (laid.firm family entry)]
  cases held : disk.node? place with
  | none => rfl
  | some node =>
      obtain ⟨contents, stamp, rfl⟩ := laid.plain_at family entry node held
      rfl

theorem holds_eq (laid : Laid brewer sources disk) (family : Family brewer sources path) :
    disk.holds path = (disk.nodeAt? path).isSome := by
  obtain ⟨place, entry⟩ := laid.entry path family
  rw [nodeAt?_eq entry, Disk.holds, Disk.node_of_entry entry (laid.firm family entry)]
  cases disk.node? place <;> rfl

theorem stamp?_isSome (laid : Laid brewer sources disk) (family : Family brewer sources path)
    (present : disk.nodeAt? path ≠ none) : (disk.stamp? path).isSome = true := by
  obtain ⟨node, held⟩ := Option.ne_none_iff_exists'.mp present
  obtain ⟨contents, stamp, rfl, _⟩ := laid.plain path node family held
  rw [laid.stamp?_eq family, held]
  rfl

theorem stamp?_le {stamp : Int} (laid : Laid brewer sources disk)
    (family : Family brewer sources path) (stamped : disk.stamp? path = some stamp) :
    stamp ≤ disk.clock := by
  rw [laid.stamp?_eq family] at stamped
  cases held : disk.nodeAt? path with
  | none => simp [held] at stamped
  | some node =>
      obtain ⟨contents, written, rfl, dated⟩ := laid.plain path node family held
      rw [held] at stamped
      cases stamped
      exact dated

theorem stamp?_congr {after : Disk} (laid : Laid brewer sources disk)
    (later : Laid brewer sources after) (family : Family brewer sources path)
    (same : after.nodeAt? path = disk.nodeAt? path) : after.stamp? path = disk.stamp? path := by
  rw [later.stamp?_eq family, laid.stamp?_eq family, same]

theorem readText_congr {after : Disk} (laid : Laid brewer sources disk)
    (later : Laid brewer sources after) (family : Family brewer sources path)
    (same : after.nodeAt? path = disk.nodeAt? path) : after.readText path = disk.readText path := by
  rw [later.readText_eq family, laid.readText_eq family, same]

end Laid

/-- A disk on which one path of the family holds something else and all others what they held. -/
structure Sets (brewer : Brewer) (sources : Path → Prop) (disk : Disk) (path : Path)
    (node : Option Node) (after : Disk) : Prop where
  laid : Laid brewer sources after
  here : after.nodeAt? path = node
  elsewhere : ∀ other, Family brewer sources other → other ≠ path →
    after.nodeAt? other = disk.nodeAt? other
  entries : ∀ other, after.entryAt? other = disk.entryAt? other

theorem Layout.congr {after : Disk} (layout : Layout brewer sources disk)
    (entries : ∀ other, after.entryAt? other = disk.entryAt? other) :
    Layout brewer sources after where
  entry := fun path family => by rw [entries]; exact layout.entry path family
  unique := by
    intro left right first second same
    rw [entries, entries] at same
    exact layout.unique left right first second same
  apart := layout.apart
  unshared := layout.unshared

-- A change at one entry, by something that is no directory and no link, is a change of one path.
theorem Laid.sets (laid : Laid brewer sources disk) (family : Family brewer sources path)
    {place : Place} (entry : disk.entryAt? path = some place) {after : Disk} {node : Option Node}
    (current : after.current = disk.current) (clock : disk.clock ≤ after.clock)
    (set : ∀ other, after.node? other = if other = place then node else disk.node? other)
    (file : ∀ held, node = some held → ∃ contents stamp, held = .file contents stamp ∧
      stamp ≤ after.clock) : Sets brewer sources disk path node after := by
  have forth : Disk.NoNewWays disk after := by
    refine ⟨current, fun other held found leads => ?_⟩
    rw [set] at found
    split at found
    · obtain ⟨contents, stamp, same, _⟩ := file held found
      exact absurd same (leads contents stamp)
    · exact found
  have back : Disk.NoNewWays after disk := by
    refine Disk.NoNewWays.of_plain current.symm fun other held found => ?_
    by_cases here : other = place
    · subst here
      exact Or.inr (laid.plain_at family entry held found)
    · rw [set, if_neg here]
      exact Or.inl rfl
  have entries (other : Path) : after.entryAt? other = disk.entryAt? other := by
    cases found : disk.entryAt? other with
    | some spot => exact Disk.entryAt?_back back found
    | none =>
        cases again : after.entryAt? other with
        | none => rfl
        | some spot => rw [Disk.entryAt?_back forth again] at found; exact absurd found (by simp)
  have here : after.nodeAt? path = node := by
    rw [Disk.nodeAt?, entries, entry, Option.bind_some, set, if_pos rfl]
  have elsewhere (other : Path) (member : Family brewer sources other) (different : other ≠ path) :
      after.nodeAt? other = disk.nodeAt? other := by
    obtain ⟨spot, found⟩ := laid.entry other member
    have apart : spot ≠ place := by
      rintro rfl
      exact different (laid.unique other path member family (found.trans entry.symm))
    rw [Disk.nodeAt?, Disk.nodeAt?, entries, found, Option.bind_some, Option.bind_some, set,
      if_neg apart]
  refine ⟨⟨laid.toLayout.congr entries, fun other held member found => ?_⟩, here, elsewhere, entries⟩
  by_cases same : other = path
  · subst same
    exact file held (here.symm.trans found)
  · rw [elsewhere other member same] at found
    obtain ⟨contents, stamp, same, dated⟩ := laid.plain other held member found
    exact ⟨contents, stamp, same, Int.le_trans dated clock⟩

theorem Laid.put (laid : Laid brewer sources disk) (family : Family brewer sources path)
    {place : Place} (entry : disk.entryAt? path = some place) (contents : Contents) :
    Sets brewer sources disk path (some (.file contents (disk.clock + 1)))
      (disk.putFile place contents) := by
  refine laid.sets family entry rfl (Int.le_of_lt (Int.lt_succ _)) (fun other => ?_) ?_
  · exact Disk.node?_putFile (Disk.place_ne_nil (laid.solid family entry)) contents other
  · rintro held same
    cases same
    exact ⟨contents, disk.clock + 1, rfl, Int.le_refl _⟩

theorem Laid.erase (laid : Laid brewer sources disk) (family : Family brewer sources path)
    {place : Place} (entry : disk.entryAt? path = some place) :
    Sets brewer sources disk path none (disk.erase place) := by
  refine laid.sets family entry rfl (Int.le_refl _) (fun other => ?_) (by simp)
  exact Disk.node?_erase disk place other (Disk.place_ne_nil (laid.solid family entry))

-- Two spellings in the family are one path.
theorem Layout.same_eq {left right : Path} (layout : Layout brewer sources disk)
    (first : Family brewer sources left) (second : Family brewer sources right)
    (same : left.same right = true) : left = right := by
  obtain ⟨place, here⟩ := layout.entry left first
  obtain ⟨other, there⟩ := layout.entry right second
  apply layout.unique left right first second
  rw [here, there, Disk.entryAt?_same same here there]

theorem mem_hops {stages : List Stage} {input : Path} {hop : Stage × Path}
    (member : hop ∈ hops stages input) :
    hop.2 ∈ input :: input.artifacts stages ∧ hop.2.artifact hop.1 ∈ input.artifacts stages := by
  induction stages generalizing input with
  | nil => exact absurd member (by simp [hops])
  | cons stage rest ih =>
      rcases List.mem_cons.mp member with rfl | later
      · exact ⟨List.mem_cons_self, List.mem_cons_self⟩
      · obtain ⟨here, there⟩ := ih later
        exact ⟨List.mem_cons_of_mem _ here, List.mem_cons_of_mem _ there⟩

end Families
section Lone

/-- A brewer of all kinds that hands every text on as it is. -/
def Brewer.verbatim : Brewer where
  classifier := ⟨Path.ofString "/", SourceKind.recognized⟩
  expander := ⟨.retain, []⟩
  table := .empty
  script := Compiler.pure fun text _ => .ok text
  template := Compiler.pure fun text _ => .ok text
  stores := Path.ofString "/"
  runner := none

open Brewer (verbatim)

/-- A macro script at the root, and nothing else. -/
def lone (path : Path) : Prop := path = Path.ofString "/a.cielo"

/-- The macro script has been written, and nothing has been made of it. -/
def loneDisk : Disk := ⟨[(["a.cielo".toList], .file (.text []) 1)], [], 1⟩

theorem lone_family {path : Path} (family : Family verbatim lone path) :
    path = Path.ofString "/a.cielo" ∨ path = Path.ofString "/a.coffee" ∨
      path = Path.ofString "/a.js" := by
  obtain ⟨source, rfl, same | member⟩ := family
  · exact Or.inl same
  · have artifacts : (Path.ofString "/a.cielo").artifacts (verbatim.stages (Path.ofString "/a.cielo")) =
        [Path.ofString "/a.coffee", Path.ofString "/a.js"] := by decide
    rw [artifacts] at member
    simpa using Or.inr member

theorem lone_entry (disk : Disk) {path : Path} (family : Family verbatim lone path) :
    ∃ name, path.fileName? = some name ∧ disk.entryAt? path = some [name] := by
  have root : disk.isDirectoryAt [] = true := by
    simp [Disk.isDirectoryAt, Disk.node?_root]
  rcases lone_family family with rfl | rfl | rfl
  · exact ⟨"a.cielo".toList, by decide, Disk.entryAt?_eq_some_iff.mpr
      ⟨[], _, [], by decide, by decide, ⟨by decide, by decide, by decide⟩, .stay, root, rfl⟩⟩
  · exact ⟨"a.coffee".toList, by decide, Disk.entryAt?_eq_some_iff.mpr
      ⟨[], _, [], by decide, by decide, ⟨by decide, by decide, by decide⟩, .stay, root, rfl⟩⟩
  · exact ⟨"a.js".toList, by decide, Disk.entryAt?_eq_some_iff.mpr
      ⟨[], _, [], by decide, by decide, ⟨by decide, by decide, by decide⟩, .stay, root, rfl⟩⟩

theorem lone_layout (disk : Disk) : Layout verbatim lone disk := by
  constructor
  · intro path family
    obtain ⟨name, _, entry⟩ := lone_entry disk family
    exact ⟨[name], entry⟩
  · intro left right first second same
    obtain ⟨name, named, here⟩ := lone_entry disk first
    obtain ⟨other, again, there⟩ := lone_entry disk second
    rw [here, there] at same
    cases same
    have names : left.fileName? = right.fileName? := named.trans again.symm
    rcases lone_family first with rfl | rfl | rfl <;> rcases lone_family second with rfl | rfl | rfl <;>
      first | rfl | exact absurd names (by decide)
  · rintro source other artifact rfl rfl member rfl
    exact absurd member (by decide)
  · rintro source other artifact rfl rfl _ _
    rfl
end Lone
end Brewery
