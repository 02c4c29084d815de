import Brewery.Proofs.Session.Layout
import Brewery.Proofs.Session.Memory

/-!
Artifacts that say what their inputs say. An artifact is fresh when it holds the output of its
stage on the text that its input holds now; an input without a text, or with one that the stage
refuses, asks for nothing. A chain makes the hops fresh that it goes through, and the hops that
it does not come to are as they were.
-/

namespace Brewery

/-- A compiler whose answer depends on nothing but the text and where it comes from. -/
def Compiler.IsPure {Origin : Type} (compiler : Compiler Origin) : Prop :=
  ∃ compile : Text → Origin → Except StageError Text,
    ∀ disk text origin, (compiler disk text origin).2 = compile text origin

structure Brewer.IsPure (brewer : Brewer) : Prop where
  script : Compiler.IsPure brewer.script
  template : Compiler.IsPure brewer.template

theorem Brewer.verbatim_pure : verbatim.IsPure :=
  ⟨⟨fun text _ => .ok text, fun _ _ _ => rfl⟩, ⟨fun text _ => .ok text, fun _ _ _ => rfl⟩⟩

/-- A macro script that takes in no other file. -/
def IncludeFree (input : Path) (text : Text) : Prop :=
  ∀ item ∈ Script.itemsOf input.displayName text, ∀ number directive indent target,
    item ≠ .inclusion number directive indent target

theorem includeFree_empty (input : Path) : IncludeFree input [] := by
  intro item member
  have blank : Script.physicalLines [] = [] := by decide
  rw [Script.itemsOf, blank, Script.items] at member
  exact absurd member List.not_mem_nil

/-- The artifact of a hop holds what its stage makes of the text that the input holds. -/
def Fresh (brewer : Brewer) (disk : Disk) (stage : Stage) (input : Path) : Prop :=
  ∀ text output, disk.readText input = .ok text →
    (brewer.transform disk stage text input).2 = .ok output →
      disk.readText (input.artifact stage) = .ok output

variable {brewer : Brewer} {sources : Path → Prop} {disk : Disk}

section Purity

-- Without includes the expansion never looks at the disk.
theorem expandItems_steady (expander : Expander) (disk other : Disk) (stack stack' : List Path)
    (origin : Path) {items : List Script.Item}
    (free : ∀ item ∈ items, ∀ number directive indent target,
      item ≠ Script.Item.inclusion number directive indent target) :
    expander.expandItems disk stack origin items =
      expander.expandItems other stack' origin items := by
  induction items with
  | nil => rw [Expander.expandItems, Expander.expandItems]
  | cons item rest ih =>
      have ih := ih fun item member => free item (List.mem_cons_of_mem _ member)
      cases item with
      | inclusion number directive indent target =>
          exact absurd rfl (free _ List.mem_cons_self number directive indent target)
      | unterminated => rw [Expander.expandItems, Expander.expandItems]
      | _ => rw [Expander.expandItems, Expander.expandItems, ih]

theorem transform_steady (pure : brewer.IsPure) {stage : Stage} {input : Path} {text : Text}
    (free : stage = .preprocess → IncludeFree input text) (disk other : Disk) :
    (brewer.transform disk stage text input).2 = (brewer.transform other stage text input).2 := by
  cases stage with
  | preprocess =>
      have same : brewer.expander.expandText disk text input =
          brewer.expander.expandText other text input := by
        rw [Expander.expandText, Expander.expandText, Expander.expandLines, Expander.expandLines,
          expandItems_steady brewer.expander disk other _ _ input (free rfl)]
      simp only [Brewer.transform, same]
  | compileScript =>
      obtain ⟨compile, answers⟩ := pure.script
      simp only [Brewer.transform, answers]
  | compileTemplate =>
      obtain ⟨compile, answers⟩ := pure.template
      simp only [Brewer.transform, answers]
  | wrapData => simp only [Brewer.transform]

end Purity

-- A hop whose texts are what they were is as fresh as it was.
theorem Fresh.of_reads {stage : Stage} {input : Path} {after : Disk} (pure : brewer.IsPure)
    (free : stage = .preprocess → ∀ text, disk.readText input = .ok text → IncludeFree input text)
    (here : after.readText input = disk.readText input)
    (there : after.readText (input.artifact stage) = disk.readText (input.artifact stage))
    (fresh : Fresh brewer disk stage input) : Fresh brewer after stage input := by
  intro text output read made
  rw [here] at read
  rw [there]
  refine fresh text output read ?_
  rw [← made]
  exact transform_steady pure (fun first => free first text read) disk after

/-- The stages of a chain that a session can be in the middle of: everything it will come to is
in the family, no file comes twice, and only the first stage may be the preprocessor. -/
structure Orderly (brewer : Brewer) (sources : Path → Prop) (source : Path) (stages : List Stage)
    (input : Path) (disk : Disk) : Prop where
  family : ∀ path ∈ input :: input.artifacts stages, Family brewer sources path
  nodup : (input :: input.artifacts stages).Nodup
  inside : .wrapData ∈ stages → brewer.inStores source = true
  free : ∀ text, disk.readText input = .ok text → stages.head? = some .preprocess →
    IncludeFree input text
  final : .preprocess ∉ stages.tail

namespace Orderly

variable {source input : Path} {stage : Stage} {rest : List Stage}

theorem start (orderly : Orderly brewer sources source rest input disk) :
    Family brewer sources input :=
  orderly.family input List.mem_cons_self

theorem output (orderly : Orderly brewer sources source (stage :: rest) input disk) :
    Family brewer sources (input.artifact stage) :=
  orderly.family _ (List.mem_cons_of_mem _ List.mem_cons_self)

theorem apart (orderly : Orderly brewer sources source rest input disk) :
    input ∉ input.artifacts rest :=
  (List.nodup_cons.mp orderly.nodup).1

-- After the first stage there is no preprocessor, so includes are no matter any more.
theorem tail (orderly : Orderly brewer sources source (stage :: rest) input disk) (other : Disk) :
    Orderly brewer sources source rest (input.artifact stage) other where
  family := fun path member => orderly.family path (List.mem_cons_of_mem _ member)
  nodup := (List.nodup_cons.mp orderly.nodup).2
  inside := fun data => orderly.inside (List.mem_cons_of_mem _ data)
  free := fun _ _ head => absurd (List.mem_of_head? head) orderly.final
  final := fun member => orderly.final (List.mem_of_mem_tail member)

theorem transform (orderly : Orderly brewer sources source (stage :: rest) input disk)
    (pure : brewer.IsPure) {text : Text} (read : disk.readText input = .ok text) (left right : Disk) :
    (brewer.transform left stage text input).2 = (brewer.transform right stage text input).2 :=
  transform_steady pure (fun first => orderly.free text read (by rw [first]; rfl)) left right

end Orderly

/-- What a chain has done to the files of the family and to the records about them. -/
structure Chained (brewer : Brewer) (sources : Path → Prop) (always : Bool) (stages : List Stage)
    (input : Path) (disk : Disk) (session : Session) (after : Disk) (later : Session) : Prop where
  laid : Laid brewer sources after
  entries : ∀ other, after.entryAt? other = disk.entryAt? other
  clock : disk.clock ≤ after.clock
  options : later.options = session.options
  phase : later.phase = session.phase
  knows : ∀ known, session.Knows known → (∀ artifact ∈ input.artifacts stages, known artifact) →
    later.Knows known
  elsewhere : ∀ other, Family brewer sources other → other ∉ input.artifacts stages →
    after.nodeAt? other = disk.nodeAt? other ∧ later.writtenAt? other = session.writtenAt? other
  written : ∀ artifact ∈ input.artifacts stages,
    after.nodeAt? artifact = disk.nodeAt? artifact ∧
        later.writtenAt? artifact = session.writtenAt? artifact ∨
      ∃ contents stamp, after.nodeAt? artifact = some (.file contents stamp) ∧ disk.clock < stamp
  settled : ∀ hop ∈ hops stages input, Fresh brewer after hop.1 hop.2 ∨
    after.nodeAt? hop.2 = disk.nodeAt? hop.2 ∧
      after.nodeAt? (hop.2.artifact hop.1) = disk.nodeAt? (hop.2.artifact hop.1) ∧
      later.writtenAt? hop.2 = session.writtenAt? hop.2
  first : ∀ stage rest, stages = stage :: rest → Fresh brewer after stage input ∨
    always = false ∧ session.needsRebuild disk input (input.artifact stage) = false
  absent : disk.nodeAt? input = none → ∀ stage rest, stages = stage :: rest →
    after.nodeAt? (input.artifact stage) = disk.nodeAt? (input.artifact stage)

theorem Chained.untouched (laid : Laid brewer sources disk) {always : Bool} {stages : List Stage}
    {input : Path} {session : Session}
    (first : ∀ stage rest, stages = stage :: rest → Fresh brewer disk stage input) :
    Chained brewer sources always stages input disk session disk session where
  laid := laid
  entries := fun _ => rfl
  clock := Int.le_refl _
  options := rfl
  phase := rfl
  knows := fun _ knows _ => knows
  elsewhere := fun _ _ _ => ⟨rfl, rfl⟩
  written := fun _ _ => Or.inl ⟨rfl, rfl⟩
  settled := fun _ _ => Or.inr ⟨rfl, rfl, rfl⟩
  first := fun stage rest shape => Or.inl (first stage rest shape)
  absent := fun _ _ _ _ => rfl

-- Where every artifact can be written, an input is stuck only by what it holds.
theorem Brewer.Stuck.refused {stage : Stage} {input : Path} {text output : Text}
    (stuck : brewer.Stuck disk stage input) (laid : Laid brewer sources disk)
    (family : Family brewer sources (input.artifact stage)) (read : disk.readText input = .ok text) :
    (brewer.transform disk stage text input).2 ≠ .ok output := by
  intro made
  obtain ⟨fault, refused⟩ := stuck text output read made
  obtain ⟨place, entry⟩ := laid.entry _ family
  rw [Disk.replaceFile_of_entry entry (laid.solid family entry)] at refused
  exact absurd refused (by simp)

section Steps

variable {always : Bool} {stage : Stage} {rest : List Stage} {source input : Path} {after : Disk}
  {session later : Session}

-- A chain that passes over its first artifact.
theorem Chained.pass
    (onward : Chained brewer sources always rest (input.artifact stage) disk session after later)
    (orderly : Orderly brewer sources source (stage :: rest) input disk) (lazy : always = false)
    (kept : session.needsRebuild disk input (input.artifact stage) = false) :
    Chained brewer sources always (stage :: rest) input disk session after later := by
  have same := onward.elsewhere _ orderly.output (orderly.tail disk).apart
  have own := onward.elsewhere input orderly.start fun member =>
    orderly.apart (List.mem_cons_of_mem _ member)
  refine ⟨onward.laid, onward.entries, onward.clock, onward.options, onward.phase, ?_, ?_, ?_, ?_, ?_,
    ?_⟩
  · intro known knows new
    exact onward.knows known knows fun artifact member => new artifact (List.mem_cons_of_mem _ member)
  · intro other member away
    exact onward.elsewhere other member fun later => away (List.mem_cons_of_mem _ later)
  · intro artifact member
    rcases List.mem_cons.mp member with rfl | later
    · exact Or.inl same
    · exact onward.written artifact later
  · intro hop member
    rcases List.mem_cons.mp member with rfl | later
    · exact Or.inr ⟨own.1, same.1, own.2⟩
    · exact onward.settled hop later
  · intro first others shape
    cases shape
    exact Or.inr ⟨lazy, kept⟩
  · intro _ first others shape
    cases shape
    exact same.1

end Steps

/-- A hop that has replaced the artifact of its stage, with the chain that goes on from there. -/
structure Replaced (brewer : Brewer) (sources : Path → Prop) (source : Path) (always : Bool)
    (stage : Stage) (rest : List Stage) (input : Path) (disk between after : Disk)
    (session later : Session) (text output : Text) : Prop where
  laid : Laid brewer sources disk
  orderly : Orderly brewer sources source (stage :: rest) input disk
  sets : Sets brewer sources disk (input.artifact stage)
    (some (.file (.text output) (disk.clock + 1))) between
  clock : between.clock = disk.clock + 1
  read : disk.readText input = .ok text
  steady : ∀ other, (brewer.transform other stage text input).2 = .ok output
  onward : Chained brewer sources always rest (input.artifact stage) between
    (session.recordWrite between (input.artifact stage)).countProcessed after later

namespace Replaced

variable {source input : Path} {always : Bool} {stage : Stage} {rest : List Stage}
  {between after : Disk} {session later : Session} {text output : Text}

theorem stamped (hop : Replaced brewer sources source always stage rest input disk between after
      session later text output) :
    between.stamp? (input.artifact stage) = some (disk.clock + 1) := by
  rw [hop.sets.laid.stamp?_eq hop.orderly.output, hop.sets.here]

theorem record (hop : Replaced brewer sources source always stage rest input disk between after
      session later text output)
    {other : Path} (family : Family brewer sources other) (away : other ≠ input.artifact stage) :
    (session.recordWrite between (input.artifact stage)).countProcessed.writtenAt? other =
      session.writtenAt? other := by
  refine (Session.writtenAt?_recordWrite hop.stamped session other).trans (if_neg fun same => ?_)
  exact away (hop.laid.same_eq family hop.orderly.output same)

theorem elsewhere (hop : Replaced brewer sources source always stage rest input disk between after
      session later text output)
    {other : Path} (family : Family brewer sources other)
    (away : other ∉ input.artifacts (stage :: rest)) :
    after.nodeAt? other = disk.nodeAt? other ∧ later.writtenAt? other = session.writtenAt? other := by
  obtain ⟨node, known⟩ := hop.onward.elsewhere other family fun member =>
    away (List.mem_cons_of_mem _ member)
  have away : other ≠ input.artifact stage := fun same => away (List.mem_cons.mpr (Or.inl same))
  exact ⟨node.trans (hop.sets.elsewhere other family away), known.trans (hop.record family away)⟩

-- The rest of the chain does not come back to the artifact.
theorem made (hop : Replaced brewer sources source always stage rest input disk between after
      session later text output) :
    after.nodeAt? (input.artifact stage) = some (.file (.text output) (disk.clock + 1)) :=
  (hop.onward.elsewhere _ hop.orderly.output (hop.orderly.tail between).apart).1.trans hop.sets.here

theorem fresh (hop : Replaced brewer sources source always stage rest input disk between after
      session later text output) : Fresh brewer after stage input := by
  intro other result again done
  have start := hop.orderly.start
  rw [hop.laid.readText_congr hop.onward.laid start (hop.elsewhere start hop.orderly.apart).1,
    hop.read] at again
  cases again
  rw [hop.steady after] at done
  cases done
  rw [hop.onward.laid.readText_eq hop.orderly.output, hop.made]

theorem written (hop : Replaced brewer sources source always stage rest input disk between after
      session later text output)
    {artifact : Path} (member : artifact ∈ input.artifacts (stage :: rest)) :
    after.nodeAt? artifact = disk.nodeAt? artifact ∧
        later.writtenAt? artifact = session.writtenAt? artifact ∨
      ∃ contents stamp, after.nodeAt? artifact = some (.file contents stamp) ∧
        disk.clock < stamp := by
  have family := hop.orderly.family artifact (List.mem_cons_of_mem _ member)
  have step := hop.clock
  rcases List.mem_cons.mp member with rfl | further
  · exact Or.inr ⟨_, _, hop.made, by omega⟩
  · have away : artifact ≠ input.artifact stage := fun same =>
      (hop.orderly.tail between).apart (same ▸ further)
    rcases hop.onward.written artifact further with ⟨node, known⟩ | ⟨contents, stamp, node, dated⟩
    · exact Or.inl ⟨node.trans (hop.sets.elsewhere artifact family away),
        known.trans (hop.record family away)⟩
    · exact Or.inr ⟨contents, stamp, node, by omega⟩

-- The next hop starts from an artifact that is newer than anything it could keep.
theorem next {second : Stage} {others : List Stage}
    (hop : Replaced brewer sources source always stage (second :: others) input disk between after
      session later text output) : Fresh brewer after second (input.artifact stage) := by
  rcases hop.onward.first second others rfl with done | ⟨_, kept⟩
  · exact done
  · have family := (hop.orderly.tail between).output
    have away : (input.artifact stage).artifact second ≠ input.artifact stage := fun same =>
      (hop.orderly.tail between).apart (List.mem_cons.mpr (Or.inl same.symm))
    rw [Session.needsRebuild_newer hop.stamped] at kept
    · exact absurd kept (by simp)
    · intro old known
      rw [hop.laid.stamp?_congr hop.sets.laid family (hop.sets.elsewhere _ family away)] at known
      exact Int.lt_add_one_of_le (hop.laid.stamp?_le family known)

theorem settled (hop : Replaced brewer sources source always stage rest input disk between after
      session later text output)
    {link : Stage × Path} (member : link ∈ hops rest (input.artifact stage)) :
    Fresh brewer after link.1 link.2 ∨
      after.nodeAt? link.2 = disk.nodeAt? link.2 ∧
        after.nodeAt? (link.2.artifact link.1) = disk.nodeAt? (link.2.artifact link.1) ∧
        later.writtenAt? link.2 = session.writtenAt? link.2 := by
  have apart := (hop.orderly.tail between).apart
  obtain ⟨here, there⟩ := mem_hops member
  by_cases follows : link.2 = input.artifact stage
  · cases rest with
    | nil => exact absurd member (by simp [hops])
    | cons second others =>
        rcases List.mem_cons.mp member with rfl | deeper
        · exact Or.inl hop.next
        · exact absurd (follows ▸ (mem_hops deeper).1) apart
  · rcases hop.onward.settled link member with done | ⟨node, output, known⟩
    · exact Or.inl done
    · have family := hop.orderly.family link.2 (List.mem_cons_of_mem _ here)
      have further := hop.orderly.family (link.2.artifact link.1)
        (List.mem_cons_of_mem _ (List.mem_cons_of_mem _ there))
      have away : link.2.artifact link.1 ≠ input.artifact stage := fun same => apart (same ▸ there)
      exact Or.inr ⟨node.trans (hop.sets.elsewhere link.2 family follows),
        output.trans (hop.sets.elsewhere _ further away), known.trans (hop.record family follows)⟩

/-- A chain that has replaced its first artifact and goes on from there. -/
theorem chained (hop : Replaced brewer sources source always stage rest input disk between after
      session later text output) :
    Chained brewer sources always (stage :: rest) input disk session after later := by
  have recorded := Session.recordWrite_same session between (input.artifact stage)
  refine ⟨hop.onward.laid, fun other => (hop.onward.entries other).trans (hop.sets.entries other), ?_,
    hop.onward.options.trans recorded.1, hop.onward.phase.trans recorded.2.1, ?_,
    fun _ family away => hop.elsewhere family away, fun _ member => hop.written member, ?_, ?_, ?_⟩
  · have step := hop.clock
    have further := hop.onward.clock
    omega
  · intro known knows new
    refine hop.onward.knows known (knows.recordWrite between (new _ List.mem_cons_self)) ?_
    exact fun artifact inside => new artifact (List.mem_cons_of_mem _ inside)
  · intro link member
    rcases List.mem_cons.mp member with rfl | further
    · exact Or.inl hop.fresh
    · exact hop.settled further
  · intro first others shape
    cases shape
    exact Or.inl hop.fresh
  · intro vacant
    have read := hop.read
    rw [hop.laid.readText_eq hop.orderly.start, vacant] at read
    exact absurd read (by simp)

end Replaced

theorem chain_effect (pure : brewer.IsPure) {source : Path} {always : Bool} {stages : List Stage}
    {input : Path} {session later : Session} {after : Disk}
    (chain : brewer.ChainCase source always stages input disk session after later)
    (laid : Laid brewer sources disk)
    (orderly : Orderly brewer sources source stages input disk) :
    Chained brewer sources always stages input disk session after later := by
  induction chain with
  | finished => exact .untouched laid (by simp)
  | outside data out =>
      rw [orderly.inside (data ▸ List.mem_cons_self)] at out
      exact absurd out (by simp)
  | stuck stuck =>
      refine .untouched laid fun stage rest shape => ?_
      cases shape
      intro text output read made
      exact absurd made (stuck.refused laid orderly.output read)
  | @current stage rest input disk after session later lazy kept onward ih =>
      exact (ih laid (orderly.tail disk)).pass orderly lazy kept
  | @replaced stage rest input disk after session later text output place read made entry solid
      meant onward ih =>
      have sets := laid.put orderly.output entry (.text output)
      have steady (other : Disk) : (brewer.transform other stage text input).2 = .ok output :=
        (orderly.transform pure read other disk).trans made
      exact Replaced.chained ⟨laid, orderly, sets, rfl, read, steady, ih sets.laid (orderly.tail _)⟩

end Brewery
