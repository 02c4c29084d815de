import Brewery.Proofs.Session.Freshness

/-!
What an event does to the files of a family. An addition or a change runs the chain of its
path, if the session takes it for somebody else's work; a removal may take one artifact away.
Every hop of the family is either fresh afterwards or exactly as it was.
-/

namespace Brewery

variable {brewer : Brewer} {sources : Path → Prop} {disk : Disk} {path source : Path}

/-- No macro script among the sources takes in another file. -/
def IncludesNothing (brewer : Brewer) (sources : Path → Prop) (disk : Disk) : Prop :=
  ∀ source text, sources source → brewer.classifier.classify source = .macroScript →
    disk.readText source = .ok text → IncludeFree source text

section Hops

theorem Brewer.ChainCase.active {always : Bool} {after : Disk} {session later : Session}
    (chain : brewer.ChainCase path always (brewer.classifier.classify path).chain path disk session
      after later) :
    brewer.ChainCase path always (brewer.stages path) path disk session after later := by
  unfold Brewer.stages
  split
  · next outside =>
      rw [outside.1] at chain
      cases chain with
      | outside => exact .finished
      | stuck => exact .finished
      | current _ _ onward =>
          cases onward
          exact .finished
      | replaced _ _ _ _ meant => exact absurd ⟨rfl, outside.2⟩ meant
  · exact chain

theorem stages_inside (data : .wrapData ∈ brewer.stages path) : brewer.inStores path = true := by
  unfold Brewer.stages at data
  split at data
  · exact absurd data (by simp)
  · next meant =>
      cases kind : brewer.classifier.classify path with
      | dataLiteral => simpa [kind] using meant
      | _ => simp [kind, SourceKind.chain] at data

theorem stages_final (brewer : Brewer) (path : Path) : .preprocess ∉ (brewer.stages path).tail := by
  rcases stages_shape brewer path with none | ⟨stage, _, single⟩ | double
  · simp [none]
  · simp [single]
  · simp [double]

theorem macroScript_of_stages (first : (brewer.stages path).head? = some .preprocess) :
    brewer.classifier.classify path = .macroScript := by
  unfold Brewer.stages at first
  split at first
  · exact absurd first (by simp)
  · cases kind : brewer.classifier.classify path <;> simp [kind, SourceKind.chain] at first ⊢

-- No artifact is a macro script.
theorem stages_artifact_head {artifact : Path}
    (member : artifact ∈ path.artifacts (brewer.stages path)) :
    (brewer.stages artifact).head? ≠ some .preprocess := by
  rcases artifact_stages member with none | ⟨_, _, single⟩
  · simp [none]
  · simp [single]

theorem hops_family (held : sources source) {hop : Stage × Path}
    (member : hop ∈ hops (brewer.stages source) source) :
    Family brewer sources hop.2 ∧ Family brewer sources (hop.2.artifact hop.1) := by
  obtain ⟨first, second⟩ := mem_hops member
  refine ⟨?_, .of_artifact held second⟩
  rcases List.mem_cons.mp first with same | further
  · exact ⟨source, held, Or.inl same⟩
  · exact .of_artifact held further

-- The only source among the inputs of a chain is the one it starts from.
theorem hops_source (layout : Layout brewer sources disk) (held : sources source)
    {hop : Stage × Path} (member : hop ∈ hops (brewer.stages source) source)
    (again : sources hop.2) : hop.2 = source := by
  rcases List.mem_cons.mp (mem_hops member).1 with same | further
  · exact same
  · exact absurd rfl (layout.apart hop.2 source hop.2 again held further)

theorem hops_recognized {hop : Stage × Path} (member : hop ∈ hops (brewer.stages source) source) :
    brewer.classifier.classify source ≠ .unrecognized := by
  cases shape : brewer.stages source with
  | nil =>
      rw [shape] at member
      exact absurd member (by simp [hops])
  | cons stage rest => exact stages_recognized shape

theorem hops_preprocess {input : Path}
    (member : (Stage.preprocess, input) ∈ hops (brewer.stages source) source) :
    input = source ∧ brewer.classifier.classify source = .macroScript := by
  rcases stages_shape brewer source with none | ⟨stage, final, single⟩ | double
  · rw [none] at member
    exact absurd member (by simp [hops])
  · rw [single] at member
    cases List.mem_singleton.mp member
    exact absurd rfl final
  · refine ⟨?_, macroScript_of_stages (by rw [double]; rfl)⟩
    rw [double] at member
    rcases List.mem_cons.mp member with same | last
    · exact (Prod.mk.inj same).2
    · exact absurd (Prod.mk.inj (List.mem_singleton.mp last)).1 (by simp)

/-- A hop is one of the chain of its own input, unless the input is of no kind that is brewed. -/
theorem hops_own {hop : Stage × Path} (member : hop ∈ hops (brewer.stages source) source) :
    hop ∈ hops (brewer.stages hop.2) hop.2 ∨
      brewer.classifier.classify hop.2 = .unrecognized := by
  rcases stages_shape brewer source with none | ⟨stage, _, single⟩ | double
  · rw [none] at member
    exact absurd member (by simp [hops])
  · rw [single] at member
    have same : hop = (stage, source) := List.mem_singleton.mp member
    subst same
    rw [single]
    exact Or.inl List.mem_cons_self
  · obtain ⟨name, named⟩ := stages_named double
    rw [double] at member
    rcases List.mem_cons.mp member with rfl | last
    · rw [double]
      exact Or.inl List.mem_cons_self
    · have same : hop = (.compileScript, source.artifact .preprocess) := List.mem_singleton.mp last
      subst same
      rcases Brewer.classify_cases brewer.classifier (source.artifact .preprocess) with kind | unknown
      · rcases SourceKind.ofPath_artifact .preprocess named with given | unknown
        · left
          have chain : brewer.stages (source.artifact .preprocess) = [.compileScript] := by
            rw [Brewer.stages, kind, given]
            rfl
          rw [chain]
          exact List.mem_cons_self
        · exact Or.inr (kind.trans unknown)
      · exact Or.inr unknown

/-- The hops of every chain in the family are hops of sources. -/
theorem hops_inherited (family : Family brewer sources path) {hop : Stage × Path}
    (member : hop ∈ hops (brewer.stages path) path) :
    ∃ source, sources source ∧ hop ∈ hops (brewer.stages source) source := by
  obtain ⟨source, held, rfl | inside⟩ := family
  · exact ⟨path, held, member⟩
  · refine ⟨source, held, ?_⟩
    rcases artifact_stages inside with none | ⟨double, rfl, single⟩
    · rw [none] at member
      exact absurd member List.not_mem_nil
    · rw [single] at member
      rw [double]
      exact List.mem_cons_of_mem _ member

theorem hops_of_stages (family : Family brewer sources path) {stage : Stage} {rest : List Stage}
    (shape : brewer.stages path = stage :: rest) :
    ∃ source, sources source ∧ (stage, path) ∈ hops (brewer.stages source) source := by
  apply hops_inherited family
  rw [shape]
  exact List.mem_cons_self

-- Within one family of files only the chain of a hop's own source, or of its input, goes
-- through the hop.
theorem hops_apart_self {hop : Stage × Path} (member : hop ∈ hops (brewer.stages source) source)
    (inside : path ∈ source.artifacts (brewer.stages source)) :
    hop ∈ hops (brewer.stages path) path ∨
      hop.2 ∉ path.artifacts (brewer.stages path) ∧
        hop.2.artifact hop.1 ∉ path.artifacts (brewer.stages path) := by
  have nodup := artifacts_nodup brewer source
  rcases artifact_stages inside with none | ⟨double, rfl, single⟩
  · rw [none]
    exact Or.inr ⟨List.not_mem_nil, List.not_mem_nil⟩
  · rw [double] at member nodup
    rw [single]
    rcases List.mem_cons.mp member with rfl | second
    · right
      simp only [Path.artifacts, List.nodup_cons, List.mem_cons, not_or] at nodup ⊢
      exact ⟨⟨nodup.1.2.1, List.not_mem_nil⟩, nodup.2.1.1, List.not_mem_nil⟩
    · exact Or.inl second

/-- A chain that is run goes through a hop, or it comes nowhere near its files. -/
theorem hops_apart (layout : Layout brewer sources disk) (held : sources source)
    {hop : Stage × Path} (member : hop ∈ hops (brewer.stages source) source)
    (family : Family brewer sources path) : hop ∈ hops (brewer.stages path) path ∨
      hop.2 ∉ path.artifacts (brewer.stages path) ∧
        hop.2.artifact hop.1 ∉ path.artifacts (brewer.stages path) := by
  obtain ⟨owner, owned, place⟩ := family
  by_cases same : owner = source
  · subst same
    rcases place with rfl | inside
    · exact Or.inl member
    · exact hops_apart_self member inside
  · have owns (artifact : Path) (inside : artifact ∈ path.artifacts (brewer.stages path)) :
        artifact ∈ owner.artifacts (brewer.stages owner) := by
      rcases place with rfl | further
      · exact inside
      · exact artifacts_owned further inside
    obtain ⟨input, output⟩ := mem_hops member
    refine Or.inr ⟨fun inside => ?_, fun inside => ?_⟩
    · rcases List.mem_cons.mp input with first | later
      · exact layout.apart source owner _ held owned (owns _ inside) first
      · exact same (layout.unshared source owner _ held owned later (owns _ inside)).symm
    · exact same (layout.unshared source owner _ held owned output (owns _ inside)).symm

-- No chain of the family writes a source.
theorem source_untouched (layout : Layout brewer sources disk) (held : sources source)
    (family : Family brewer sources path) : source ∉ path.artifacts (brewer.stages path) := by
  intro member
  obtain ⟨owner, owned, rfl | inside⟩ := family
  · exact layout.apart source path source held owned member rfl
  · exact layout.apart source owner source held owned (artifacts_owned inside member) rfl

end Hops

section Effects

variable {progress : Progress}

theorem orderly_stages (includes : IncludesNothing brewer sources disk)
    (family : Family brewer sources path) :
    Orderly brewer sources path (brewer.stages path) path disk where
  nodup := artifacts_nodup brewer path
  inside := stages_inside
  final := stages_final brewer path
  family := by
    intro other member
    rcases List.mem_cons.mp member with rfl | further
    · exact family
    · exact family.further further
  free := by
    intro text read first
    obtain ⟨source, held, rfl | inside⟩ := family
    · exact includes path text held (macroScript_of_stages first) read
    · exact absurd first (stages_artifact_head inside)

/-- An addition or a change is ignored, or it runs the chain of its path. -/
theorem present_chain (brewer : Brewer) (path : Path) (progress : Progress) :
    ((brewer.classifier.classify path = .unrecognized ∨
        progress.session.isOwnWrite progress.disk path = true) ∧
      (brewer.whenPresent path progress).disk = progress.disk ∧
      (brewer.whenPresent path progress).session = progress.session.forgetRemoval path) ∨
    brewer.ChainCase path false (brewer.stages path) path progress.disk
      (progress.session.forgetRemoval path) (brewer.whenPresent path progress).disk
      (brewer.whenPresent path progress).session := by
  have ended := Brewer.whenPresent_cases brewer path progress
  generalize brewer.whenPresent path progress = after at ended ⊢
  cases ended with
  | ignored unknown => exact Or.inl ⟨Or.inl unknown, rfl, rfl⟩
  | own _ _ known => exact Or.inl ⟨Or.inr known, rfl, rfl⟩
  | built log recognized foreign =>
      obtain ⟨name, named⟩ := Brewer.classify_named recognized
      have chain := Brewer.runChain_cases brewer path false (brewer.classifier.classify path).chain
        named (carries_none (Brewer.noted path progress).disk path)
      exact Or.inr chain.active

-- What a removal takes along is the first artifact of the chain.
theorem cascades_first {target : Path}
    (meant : ¬(brewer.classifier.classify path = .dataLiteral ∧ brewer.inStores path = false))
    (cascades : path.cascadeTarget? (brewer.classifier.classify path) = some target) :
    ∃ stage rest, brewer.stages path = stage :: rest ∧ target = path.artifact stage := by
  rw [Brewer.stages, if_neg meant]
  unfold Path.cascadeTarget? at cascades
  cases shape : (brewer.classifier.classify path).chain with
  | nil => simp [shape] at cascades
  | cons stage rest =>
      simp only [shape, List.head?_cons, Option.map_some, Option.some.injEq] at cascades
      exact ⟨stage, rest, rfl, cascades.symm⟩

/-- A removal is the session's own, or it finds the first artifact gone already, or it takes
it away. -/
theorem gone_effect (laid : Laid brewer sources progress.disk) (family : Family brewer sources path) :
    (progress.session.isOwnRemoval path = true ∧
      (brewer.whenGone path progress).disk = progress.disk ∧
      (brewer.whenGone path progress).session = progress.session.forgetRemoval path) ∨
    ((∀ stage rest, brewer.stages path = stage :: rest →
        progress.disk.nodeAt? (path.artifact stage) = none) ∧
      (brewer.whenGone path progress).disk = progress.disk ∧
      (brewer.whenGone path progress).session = progress.session.forgetWrite path) ∨
    ∃ stage rest, brewer.stages path = stage :: rest ∧
      Sets brewer sources progress.disk (path.artifact stage) none
        (brewer.whenGone path progress).disk ∧
      (brewer.whenGone path progress).session =
        (progress.session.forgetWrite path).recordRemoval (path.artifact stage) := by
  have ended := Brewer.whenGone_cases brewer path progress
  have output {stage : Stage} {rest : List Stage} (shape : brewer.stages path = stage :: rest) :
      Family brewer sources (path.artifact stage) :=
    family.further (by rw [shape]; exact List.mem_cons_self)
  generalize brewer.whenGone path progress = after at ended ⊢
  cases ended with
  | own _ known => exact Or.inl ⟨known, rfl, rfl⟩
  | alone _ none =>
      refine Or.inr (Or.inl ⟨fun stage rest shape => ?_, rfl, rfl⟩)
      unfold Brewer.stages at shape
      split at shape
      · exact absurd shape (by simp)
      · next meant =>
          have empty := none.resolve_left meant
          rw [Path.cascadeTarget?, shape] at empty
          exact absurd empty (by simp)
  | kept target fault _ _ meant cascades refused =>
      refine Or.inr (Or.inl ⟨fun stage rest shape => ?_, rfl, rfl⟩)
      obtain ⟨first, others, again, same⟩ := cascades_first meant cascades
      rw [shape] at again
      cases again
      obtain ⟨place, entry⟩ := laid.entry _ (output shape)
      rw [Laid.nodeAt?_eq entry]
      cases held : progress.disk.node? place with
      | none => rfl
      | some node =>
          obtain ⟨contents, stamp, rfl⟩ := laid.plain_at (output shape) entry node held
          rw [same, Disk.removeFile_of_entry entry held] at refused
          exact absurd refused (by simp)
  | erased target place _ _ meant cascades entry _ solid =>
      obtain ⟨stage, rest, shape, rfl⟩ := cascades_first meant cascades
      exact Or.inr (Or.inr ⟨stage, rest, shape, laid.erase (output shape) entry, rfl⟩)

-- One file that changes brings no include, if its new text brings none.
theorem Sets.includes {node : Option Node} {after : Disk}
    (sets : Sets brewer sources disk path node after) (laid : Laid brewer sources disk)
    (free : ∀ text stamp, node = some (.file (.text text) stamp) → sources path →
      brewer.classifier.classify path = .macroScript → IncludeFree path text)
    (includes : IncludesNothing brewer sources disk) : IncludesNothing brewer sources after := by
  intro other text held kind read
  by_cases here : other = path
  · subst here
    rw [sets.laid.readText_eq (.of_source held), sets.here] at read
    obtain ⟨stamp, same⟩ : ∃ stamp, node = some (.file (.text text) stamp) := by
      split at read
      · exact ⟨_, by rw [Except.ok.inj read]⟩
      · exact absurd read (by simp)
      · exact absurd read (by simp)
    exact free text stamp same held kind
  · rw [laid.readText_congr sets.laid (.of_source held)
      (sets.elsewhere other (.of_source held) here)] at read
    exact includes other text held kind read

-- A hop whose files hold what they held is as fresh as it was.
theorem Fresh.congr {stage : Stage} {input : Path} {after : Disk} (pure : brewer.IsPure)
    (laid : Laid brewer sources disk) (later : Laid brewer sources after)
    (includes : IncludesNothing brewer sources disk) (held : sources source)
    (member : (stage, input) ∈ hops (brewer.stages source) source)
    (here : after.nodeAt? input = disk.nodeAt? input)
    (there : after.nodeAt? (input.artifact stage) = disk.nodeAt? (input.artifact stage))
    (fresh : Fresh brewer disk stage input) : Fresh brewer after stage input := by
  obtain ⟨family, output⟩ := hops_family held member
  refine fresh.of_reads pure (fun first text read => ?_) (laid.readText_congr later family here)
    (laid.readText_congr later output there)
  subst first
  obtain ⟨rfl, kind⟩ := hops_preprocess member
  exact includes input text held kind read

end Effects

section Records

variable {session later : Session} {after : Disk}

/-- The paths that a session may come to know: artifacts, never sources. -/
def IsArtifact (brewer : Brewer) (sources : Path → Prop) (path : Path) : Prop :=
  ∃ source, sources source ∧ path ∈ source.artifacts (brewer.stages source)

-- Nothing that a session remembers is about a source.
theorem foreign_source (laid : Laid brewer sources disk)
    (knows : session.Knows (IsArtifact brewer sources)) (source : sources path) (other : Disk) :
    session.isOwnWrite other path = false ∧ session.isOwnRemoval path = false := by
  apply knows.foreign
  rintro artifact ⟨owner, held, member⟩
  cases same : path.same artifact with
  | false => rfl
  | true =>
      have equal := laid.same_eq (.of_source source) (.of_artifact held member) same
      exact absurd equal.symm (laid.apart path owner artifact source held member)

theorem isOwnWrite_congr (record : later.writtenAt? path = session.writtenAt? path)
    (stamp : after.stamp? path = disk.stamp? path) :
    later.isOwnWrite after path = session.isOwnWrite disk path := by
  simp only [Session.isOwnWrite, record, stamp]

/-- What an addition does to a hop of the family: it makes it fresh, or leaves it alone. -/
theorem hop_chained {always : Bool}
    (chained : Chained brewer sources always (brewer.stages path) path disk session after later)
    (laid : Laid brewer sources disk) (family : Family brewer sources path)
    (held : sources source) {hop : Stage × Path}
    (member : hop ∈ hops (brewer.stages source) source) : Fresh brewer after hop.1 hop.2 ∨
      after.nodeAt? hop.2 = disk.nodeAt? hop.2 ∧
        after.nodeAt? (hop.2.artifact hop.1) = disk.nodeAt? (hop.2.artifact hop.1) ∧
        later.writtenAt? hop.2 = session.writtenAt? hop.2 := by
  rcases hops_apart laid.toLayout held member family with mine | ⟨input, output⟩
  · exact chained.settled hop mine
  · obtain ⟨first, second⟩ := hops_family held member
    obtain ⟨node, record⟩ := chained.elsewhere hop.2 first input
    exact Or.inr ⟨node, (chained.elsewhere _ second output).1, record⟩

section Chained

variable {always : Bool}
  (chained : Chained brewer sources always (brewer.stages path) path disk session after later)

include chained

theorem Chained.stays_fresh (pure : brewer.IsPure) (laid : Laid brewer sources disk)
    (includes : IncludesNothing brewer sources disk) (family : Family brewer sources path)
    (held : sources source) {hop : Stage × Path}
    (member : hop ∈ hops (brewer.stages source) source) (fresh : Fresh brewer disk hop.1 hop.2) :
    Fresh brewer after hop.1 hop.2 := by
  rcases hop_chained chained laid family held member with done | ⟨input, output, _⟩
  · exact done
  · exact Fresh.congr pure laid chained.laid includes held member input output fresh

-- A path that is the session's own now was its own before, or is fresh in any case.
theorem Chained.own_fresh (pure : brewer.IsPure) (laid : Laid brewer sources disk)
    (includes : IncludesNothing brewer sources disk) (family : Family brewer sources path)
    (held : sources source) {hop : Stage × Path}
    (member : hop ∈ hops (brewer.stages source) source)
    (before : session.isOwnWrite disk hop.2 = true → Fresh brewer disk hop.1 hop.2)
    (known : later.isOwnWrite after hop.2 = true) : Fresh brewer after hop.1 hop.2 := by
  rcases hop_chained chained laid family held member with done | ⟨input, _, record⟩
  · exact done
  · apply chained.stays_fresh pure laid includes family held member
    apply before
    have stamp := laid.stamp?_congr chained.laid (hops_family held member).1 input
    exact (isOwnWrite_congr record stamp).symm.trans known

theorem Chained.includes (laid : Laid brewer sources disk)
    (includes : IncludesNothing brewer sources disk) (family : Family brewer sources path) :
    IncludesNothing brewer sources after := by
  intro source text held kind read
  have same := (chained.elsewhere source (.of_source held)
    (source_untouched laid.toLayout held family)).1
  rw [laid.readText_congr chained.laid (.of_source held) same] at read
  exact includes source text held kind read

theorem Chained.artifacts_known (family : Family brewer sources path)
    (knows : session.Knows (IsArtifact brewer sources)) :
    later.Knows (IsArtifact brewer sources) := by
  refine chained.knows _ knows fun artifact member => ?_
  obtain ⟨owner, held, rfl | inside⟩ := family
  · exact ⟨path, held, member⟩
  · exact ⟨owner, held, artifacts_owned inside member⟩

end Chained

end Records
end Brewery
