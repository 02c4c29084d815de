import Brewery.Proofs.Session.Footprint
import Brewery.Proofs.Session.Steady
import Brewery.Proofs.Tree.Listing
import Brewery.Tree.Pass
import Mathlib.Logic.Relation

/-!
Passes that build no more than they must. Between passes the stamps can be trusted, whatever the
user edits and takes away: an artifact that is not older than its input is fresh. So a lazy pass
leaves every chain of the tree steady, those that a chain before them has begun included, and a
pass by force right after it writes nothing that is not there.
-/

namespace Brewery

/-- A path that is the path of the entry it names. -/
def Spelled (disk : Disk) (path : Path) : Prop :=
  ∃ place, path = Place.path place ∧ disk.entryAt? path = some place

/-- A tree of which every file that is brewed belongs to the family, with stamps to be trusted. -/
structure Tended (brewer : Brewer) (sources : Path → Prop) (root : Place) (disk : Disk) : Prop where
  laid : Laid brewer sources disk
  sound : disk.Sound
  rooted : disk.Rooted root
  spelled : ∀ path, sources path → Spelled disk path
  known : ∀ spot, Tree.Under disk root.path root spot → brewer.stages spot.path ≠ [] →
    Family brewer sources spot.path
  includes : IncludesNothing brewer sources disk
  trusted : ∀ source, sources source → ∀ hop ∈ hops (brewer.stages source) source,
    Trusted brewer disk hop.1 hop.2

/-- A tree that holds sources and nothing made of them. -/
structure Planted (brewer : Brewer) (sources : Path → Prop) (root : Place) (disk : Disk) : Prop where
  laid : Laid brewer sources disk
  sound : disk.Sound
  rooted : disk.Rooted root
  spelled : ∀ path, sources path → Spelled disk path
  sown : ∀ paths, Tree.files disk root.path = .ok paths → ∀ path ∈ paths,
    brewer.stages path ≠ [] → sources path
  bare : ∀ source artifact, sources source → artifact ∈ source.artifacts (brewer.stages source) →
    disk.nodeAt? artifact = none
  includes : IncludesNothing brewer sources disk

/-- What happens to a tree: the user edits a source, or takes a source or an artifact away, or a
session that is not forced makes its pass. -/
inductive Tree.Step (brewer : Brewer) (sources : Path → Prop) (root : Place) :
    Disk → Disk → Prop where
  | write {disk after : Disk} {path : Path} {contents : Contents} (source : sources path)
      (free : brewer.classifier.classify path = .macroScript →
        ∀ text, contents = .text text → IncludeFree path text)
      (written : disk.overwrite path contents = .ok after) : Step brewer sources root disk after
  | delete {disk after : Disk} {path : Path} (family : Family brewer sources path)
      (removed : disk.removeFile path = .ok after) : Step brewer sources root disk after
  | pass {disk : Disk} {options : SessionOptions} (lazy : options.force = false) :
      Step brewer sources root disk (brewer.pass root.path (.start disk options)).1.disk

variable {brewer : Brewer} {sources : Path → Prop} {root : Place} {disk after : Disk} {path : Path}

section Growth

/-- Two disks that differ in files of the family only. -/
structure Grown (brewer : Brewer) (sources : Path → Prop) (disk after : Disk) : Prop where
  entries : ∀ path, after.entryAt? path = disk.entryAt? path
  ways : Disk.NoNewWays disk after
  directories : ∀ place, after.isDirectoryAt place = disk.isDirectoryAt place
  places : ∀ place, after.node? place = disk.node? place ∨
    ∃ path, Family brewer sources path ∧ disk.entryAt? path = some place

theorem Grown.refl (disk : Disk) : Grown brewer sources disk disk :=
  ⟨fun _ => rfl, .refl disk, fun _ => rfl, fun _ => Or.inl rfl⟩

theorem Grown.trans {last : Disk} (first : Grown brewer sources disk after)
    (second : Grown brewer sources after last) : Grown brewer sources disk last where
  entries := fun path => (second.entries path).trans (first.entries path)
  ways := first.ways.trans second.ways
  directories := fun place => (second.directories place).trans (first.directories place)
  places := by
    intro place
    rcases second.places place with same | ⟨path, family, entry⟩
    · rw [same]
      exact first.places place
    · exact Or.inr ⟨path, family, (first.entries path).symm.trans entry⟩

theorem Spelled.artifact {stage : Stage} {place : Place} (sound : disk.Sound)
    (spelled : Spelled disk path) (entry : disk.entryAt? (path.artifact stage) = some place) :
    Spelled disk (path.artifact stage) := by
  obtain ⟨origin, rfl, start⟩ := spelled
  obtain ⟨name, dir, named, _, home, rfl⟩ := Disk.entryAt?_home start
  have same := Disk.entryAt?_artifact named home entry
  subst same
  exact ⟨_, Place.artifact_path (sound.proper_entry start) stage, entry⟩

theorem Spelled.artifacts {stages : List Stage} (sound : disk.Sound) (spelled : Spelled disk path)
    (entries : ∀ artifact ∈ path.artifacts stages, ∃ place, disk.entryAt? artifact = some place) :
    ∀ artifact ∈ path.artifacts stages, Spelled disk artifact := by
  induction stages generalizing path with
  | nil =>
      intro artifact member
      exact absurd member List.not_mem_nil
  | cons stage rest ih =>
      obtain ⟨place, entry⟩ := entries _ List.mem_cons_self
      have first := spelled.artifact sound entry
      intro artifact member
      rcases List.mem_cons.mp member with rfl | further
      · exact first
      · exact ih first (fun other inside => entries other (List.mem_cons_of_mem _ inside)) artifact further

theorem Tended.family_spelled (tended : Tended brewer sources root disk)
    (family : Family brewer sources path) : Spelled disk path := by
  obtain ⟨source, held, rfl | inside⟩ := family
  · exact tended.spelled path held
  · refine (tended.spelled source held).artifacts tended.sound (fun artifact member => ?_) path inside
    exact tended.laid.entry artifact (.of_artifact held member)

/-- Growth brings nothing into the tree that is not of the family. -/
theorem Tended.grow (tended : Tended brewer sources root disk) (grown : Grown brewer sources disk after)
    (laid : Laid brewer sources after) (sound : after.Sound)
    (includes : IncludesNothing brewer sources after)
    (trusted : ∀ source, sources source → ∀ hop ∈ hops (brewer.stages source) source,
      Trusted brewer after hop.1 hop.2) : Tended brewer sources root after where
  laid := laid
  sound := sound
  rooted := fun above suffix => (grown.directories above).trans (tended.rooted above suffix)
  spelled := by
    intro path source
    obtain ⟨place, same, entry⟩ := tended.spelled path source
    exact ⟨place, same, (grown.entries path).trans entry⟩
  known := by
    intro spot under brewed
    obtain ⟨contents, stamp, held⟩ := under.held
    rcases grown.places spot with same | ⟨path, family, entry⟩
    · exact tended.known spot (under.back grown.ways (same.symm.trans held)) brewed
    · obtain ⟨place, rfl, again⟩ := tended.family_spelled family
      rw [Option.some.inj (entry.symm.trans again)]
      exact family
  includes := includes
  trusted := trusted

end Growth

section Edits

variable {place : Place}

theorem Laid.grown_put (laid : Laid brewer sources disk) (family : Family brewer sources path)
    (entry : disk.entryAt? path = some place) (contents : Contents) :
    Grown brewer sources disk (disk.putFile place contents) where
  entries := (laid.put family entry contents).entries
  ways := .of_overlaid (.putFile (laid.solid family entry) contents)
  directories := Disk.isDirectoryAt_putFile (laid.solid family entry) contents
  places := by
    intro other
    rw [Disk.node?_putFile (Disk.place_ne_nil (laid.solid family entry))]
    by_cases here : other = place
    · exact Or.inr ⟨path, family, here ▸ entry⟩
    · exact Or.inl (if_neg here)

theorem Laid.grown_erase (laid : Laid brewer sources disk) (family : Family brewer sources path)
    (entry : disk.entryAt? path = some place) :
    Grown brewer sources disk (disk.erase place) where
  entries := (laid.erase family entry).entries
  ways := .erase disk (Disk.place_ne_nil (laid.solid family entry))
  directories := by
    intro other
    have proper := Disk.place_ne_nil (laid.solid family entry)
    rw [Disk.isDirectoryAt, Disk.isDirectoryAt, Disk.node?_erase disk place other proper]
    by_cases here : other = place
    · rw [if_pos here, here]
      exact (laid.solid family entry).symm
    · rw [if_neg here]
  places := by
    intro other
    rw [Disk.node?_erase disk place other (Disk.place_ne_nil (laid.solid family entry))]
    by_cases here : other = place
    · exact Or.inr ⟨path, family, here ▸ entry⟩
    · exact Or.inl (if_neg here)

/-- A change of one file by the user leaves the stamps to be trusted. -/
theorem Tended.edit {node : Option Node} (pure : brewer.IsPure)
    (tended : Tended brewer sources root disk)
    (sets : Sets brewer sources disk path node after) (grown : Grown brewer sources disk after)
    (sound : after.Sound) (includes : IncludesNothing brewer sources after)
    (newer : ∀ contents stamp, node = some (.file contents stamp) → disk.clock < stamp)
    (source : sources path ∨ node = none) : Tended brewer sources root after := by
  refine tended.grow grown sets.laid sound includes fun owner held hop member => ?_
  obtain ⟨rest, orderly⟩ := (orderly_stages tended.includes (.of_source held)).hop member
  refine sets.trusted pure tended.laid newer orderly (fun target => ?_)
    (tended.trusted owner held hop member)
  rcases source with source | gone
  · have inside := (mem_hops member).2
    rw [target] at inside
    exact absurd rfl (tended.laid.apart path owner path source held inside)
  · exact gone

theorem Tended.write {contents : Contents} (pure : brewer.IsPure)
    (tended : Tended brewer sources root disk) (source : sources path)
    (free : brewer.classifier.classify path = .macroScript →
      ∀ text, contents = .text text → IncludeFree path text)
    (written : disk.overwrite path contents = .ok after) : Tended brewer sources root after := by
  have family : Family brewer sources path := .of_source source
  obtain ⟨place, entry⟩ := tended.laid.entry path family
  rw [Disk.overwrite_of_entry entry (tended.laid.firm family entry)
    (tended.laid.solid family entry)] at written
  cases written
  have sets := tended.laid.put family entry contents
  apply tended.edit pure sets (tended.laid.grown_put family entry contents)
  · exact tended.sound.putFile (tended.sound.proper_entry entry) contents
  · refine sets.includes tended.laid (fun text stamp same _ kind => ?_) tended.includes
    cases same
    exact free kind text rfl
  · intro kept stamp same
    cases same
    exact Int.lt_succ _
  · exact Or.inl source

theorem Tended.delete (pure : brewer.IsPure) (tended : Tended brewer sources root disk)
    (family : Family brewer sources path) (removed : disk.removeFile path = .ok after) :
    Tended brewer sources root after := by
  obtain ⟨place, entry, _, _, rfl⟩ := Disk.removeFile_eq_ok removed
  have sets := tended.laid.erase family entry
  apply tended.edit pure sets (tended.laid.grown_erase family entry)
  · exact tended.sound.erase place
  · exact sets.includes tended.laid (by simp) tended.includes
  · intro contents stamp same
    exact absurd same (by simp)
  · exact Or.inr rfl

end Edits

section Chains

variable {source artifact : Path} {always : Bool} {session later : Session}

theorem Rewrites.sound {stages : List Stage} {input : Path} {count : Nat}
    (rewrites : Rewrites brewer stages input disk after count) (sound : disk.Sound) :
    after.Sound := by
  induction rewrites with
  | leave => exact sound
  | pass _ ih => exact ih sound
  | replace _ _ entry _ _ ih => exact ih (sound.putFile (sound.proper_entry entry) _)

/-- A chain of the family keeps the stamps of all hops to be trusted. -/
theorem Tended.chain (pure : brewer.IsPure) (tended : Tended brewer sources root disk)
    (family : Family brewer sources path)
    (chain : brewer.ChainCase path always (brewer.stages path) path disk session after later) :
    Tended brewer sources root after ∧ Grown brewer sources disk after := by
  have chained := chain_effect pure chain tended.laid (orderly_stages tended.includes family)
  obtain ⟨count, rewrites, _⟩ := Brewer.chain_rewrites chain
  have grown : Grown brewer sources disk after := by
    refine ⟨chained.entries, .of_overlaid rewrites.overlaid, rewrites.overlaid.directory, ?_⟩
    intro place
    by_cases elsewhere : ∀ artifact ∈ path.artifacts (brewer.stages path),
        disk.entryAt? artifact ≠ some place
    · exact Or.inl (rewrites.frame elsewhere)
    · simp only [not_forall, not_not] at elsewhere
      obtain ⟨artifact, member, entry⟩ := elsewhere
      exact Or.inr ⟨artifact, family.further member, entry⟩
  refine ⟨tended.grow grown chained.laid (rewrites.sound tended.sound)
    (chained.includes tended.laid tended.includes family) ?_, grown⟩
  · intro source held hop member
    rcases hop_chained chained tended.laid family held member with fresh | ⟨input, output, _⟩
    · exact fun _ _ _ _ _ => fresh
    · obtain ⟨rest, orderly⟩ := (orderly_stages tended.includes (.of_source held)).hop member
      exact (tended.trusted source held hop member).congr pure tended.laid chained.laid orderly
        input output

-- The chain of an artifact has one hop at most.
theorem steady_artifact (inside : artifact ∈ source.artifacts (brewer.stages source)) :
    Steady brewer disk (brewer.stages artifact) artifact ↔
      ∀ stage rest, brewer.stages artifact = stage :: rest → Fresh brewer disk stage artifact := by
  rcases artifact_stages inside with none | ⟨_, _, single⟩
  · rw [none]
    exact ⟨fun _ _ _ shape => absurd shape (by simp), fun _ => trivial⟩
  · rw [single]
    constructor
    · intro steady stage rest shape
      cases shape
      exact fun text output read made => (steady text output read made).1
    · intro fresh text output read made
      exact ⟨fresh .compileScript [] rfl text output read made, trivial⟩

end Chains

section Passing

/-- A lazy pass on its way. What it has seen is steady, and so is what it has made. -/
structure Passing (brewer : Brewer) (sources : Path → Prop) (root : Place) (before : Disk)
    (seen : Path → Prop) (progress : Progress) : Prop where
  tended : Tended brewer sources root progress.disk
  grown : Grown brewer sources before progress.disk
  lazy : progress.session.options.force = false
  scanning : progress.session.phase = .scanning
  knows : progress.session.Knows (IsArtifact brewer sources)
  own : ∀ source, sources source → ∀ hop ∈ hops (brewer.stages source) source,
    progress.session.isOwnWrite progress.disk hop.2 = true →
      Fresh brewer progress.disk hop.1 hop.2
  steady : ∀ path, Family brewer sources path →
    seen path ∨ before.nodeAt? path = none ∧ progress.disk.nodeAt? path ≠ none →
      Steady brewer progress.disk (brewer.stages path) path

variable {before : Disk} {seen : Path → Prop} {progress : Progress}

-- What the pass has made itself it need not look at again.
theorem Passing.own_steady (passing : Passing brewer sources root before seen progress)
    (family : Family brewer sources path)
    (known : brewer.classifier.classify path = .unrecognized ∨
      progress.session.isOwnWrite progress.disk path = true) :
    Steady brewer progress.disk (brewer.stages path) path := by
  cases shape : brewer.stages path with
  | nil => trivial
  | cons stage rest =>
      have own := known.resolve_left (stages_recognized shape)
      obtain ⟨source, held, same | inside⟩ := id family
      · subst same
        have foreign := foreign_source passing.tended.laid passing.knows held progress.disk
        exact absurd (own.symm.trans foreign.1) (by simp)
      · rw [← shape, steady_artifact inside]
        intro stage rest shape
        obtain ⟨owner, owned, member⟩ := hops_of_stages family shape
        exact passing.own owner owned (stage, path) member own

theorem Passing.skip (passing : Passing brewer sources root before seen progress)
    (steady : Family brewer sources path → Steady brewer progress.disk (brewer.stages path) path)
    {next : Progress} (disk : next.disk = progress.disk)
    (session : next.session = progress.session.forgetRemoval path) :
    Passing brewer sources root before (fun other => seen other ∨ other = path) next := by
  obtain ⟨tended, grown, lazy, scanning, knows, own, settled⟩ := passing
  constructor
  · rw [disk]
    exact tended
  · rw [disk]
    exact grown
  · rw [session]
    exact lazy
  · rw [session]
    exact scanning
  · rw [session]
    exact knows.forgetRemoval path
  · rw [disk, session]
    exact own
  · rw [disk]
    rintro other family ((old | rfl) | new)
    · exact settled other family (Or.inl old)
    · exact steady family
    · exact settled other family (Or.inr new)

/-- One chain of the pass. A path that the pass has seen before stays steady, because a hop that
the chain goes through ends fresh. -/
theorem Passing.chain (pure : brewer.IsPure)
    (passing : Passing brewer sources root before seen progress)
    (family : Family brewer sources path) {next : Progress}
    (chain : brewer.ChainCase path false (brewer.stages path) path progress.disk
      (progress.session.forgetRemoval path) next.disk next.session) :
    Passing brewer sources root before (fun other => seen other ∨ other = path) next := by
  obtain ⟨tended, grown⟩ := passing.tended.chain pure family chain
  have laid := passing.tended.laid
  have includes := passing.tended.includes
  have orderly := orderly_stages includes family
  have chained := chain_effect pure chain laid orderly
  refine ⟨tended, passing.grown.trans grown, ?_, chained.phase.trans passing.scanning, ?_, ?_, ?_⟩
  · rw [chained.options]
    exact passing.lazy
  · exact chained.artifacts_known family (passing.knows.forgetRemoval path)
  · intro source held hop member known
    exact chained.own_fresh pure laid includes family held member
      (passing.own source held hop member) known
  · intro other member reached
    by_cases here : other = path
    · subst here
      refine chain_steady pure chain passing.lazy passing.scanning laid orderly fun hop inside => ?_
      obtain ⟨source, held, owned⟩ := hops_inherited family inside
      exact passing.tended.trusted source held hop owned
    have kept (same : next.disk.nodeAt? other = progress.disk.nodeAt? other) :
        Steady brewer progress.disk (brewer.stages other) other := by
      apply passing.steady other member
      rcases reached with old | ⟨vacant, present⟩
      · exact Or.inl (old.resolve_right here)
      · exact Or.inr ⟨vacant, fun none => present (same.trans none)⟩
    obtain ⟨source, held, same | inside⟩ := id member
    · subst same
      have same := (chained.elsewhere other member
        (source_untouched laid.toLayout held family)).1
      refine Steady.congr pure (orderly_stages includes member)
        (laid.readText_congr chained.laid member same) (fun hop inside => ?_) (kept same)
      rcases hop_chained chained laid family held inside with fresh | ⟨_, output, _⟩
      · exact Or.inl fresh
      · exact Or.inr (laid.readText_congr chained.laid (hops_family held inside).2 output)
    · rw [steady_artifact inside]
      intro stage rest shape
      obtain ⟨owner, owned, hop⟩ := hops_of_stages member shape
      rcases hop_chained chained laid family owned hop with fresh | ⟨input, _⟩
      · exact fresh
      · apply chained.stays_fresh pure laid includes family owned hop
        exact (steady_artifact inside).mp (kept input) stage rest shape

theorem handleAll_cons (event : Event) (rest : List Event) :
    (brewer.handleAll (event :: rest) progress).1 = match (brewer.handle event progress).2 with
      | .onward => (brewer.handleAll rest (brewer.handle event progress).1).1
      | .stop => (brewer.handle event progress).1 := by
  rw [Brewer.handleAll]
  rcases brewer.handle event progress with ⟨after, flow⟩
  cases flow <;> rfl

theorem handle_scanning (scanning : progress.session.phase = .scanning) (path : Path) :
    brewer.handle (.added path) progress =
      (brewer.whenPresent path (progress.tell [.debug "brew" (Event.added path).label (brewer.short path)]),
        .onward) := by
  simp [Brewer.handle, scanning, Event.path?]

theorem Passing.step (pure : brewer.IsPure)
    (passing : Passing brewer sources root before seen progress)
    (brewed : brewer.stages path ≠ [] → Family brewer sources path) :
    Passing brewer sources root before (fun other => seen other ∨ other = path)
      (brewer.handle (.added path) progress).1 := by
  rw [handle_scanning passing.scanning]
  generalize told : progress.tell _ = next
  have disk : next.disk = progress.disk := by rw [← told]; rfl
  have session : next.session = progress.session := by rw [← told]; rfl
  rcases present_chain brewer path next with ⟨known, same, records⟩ | chain
  · rw [disk, session] at known
    exact passing.skip (fun family => passing.own_steady family known) (same.trans disk)
      (records.trans (by rw [session]))
  · rw [disk, session] at chain
    by_cases idle : brewer.stages path = []
    · rw [idle] at chain
      generalize ended : brewer.whenPresent path next = last at chain ⊢
      obtain ⟨disk, session, log, runs⟩ := last
      cases chain
      refine passing.skip (fun _ => ?_) rfl rfl
      rw [idle]
      trivial
    · exact passing.chain pure (brewed idle) chain

theorem Passing.all {paths : List Path} (pure : brewer.IsPure)
    (passing : Passing brewer sources root before seen progress)
    (brewed : ∀ path ∈ paths, brewer.stages path ≠ [] → Family brewer sources path) :
    ∃ last, Passing brewer sources root before (fun other => seen other ∨ other ∈ paths) last ∧
      (brewer.handleAll (paths.map Event.added ++ [.ready]) progress).1.disk = last.disk := by
  induction paths generalizing seen progress with
  | nil =>
      refine ⟨progress, by simpa using passing, ?_⟩
      have active : progress.session.phase ≠ .done := by simp [passing.scanning]
      have ready : (brewer.handle .ready progress).1.disk = progress.disk := by
        rw [Brewer.handle_active active]
        exact Brewer.whenReady_disk brewer progress
      rw [List.map_nil, List.nil_append, handleAll_cons]
      split
      · exact ready
      · exact ready
  | cons path rest ih =>
      have next := passing.step pure (brewed path List.mem_cons_self)
      obtain ⟨last, done, same⟩ := ih next fun other member => brewed other (List.mem_cons_of_mem _ member)
      refine ⟨last, ?_, ?_⟩
      · simpa [or_assoc] using done
      · rw [List.map_cons, List.cons_append, handleAll_cons, handle_scanning passing.scanning]
        rw [handle_scanning passing.scanning] at same
        exact same

end Passing

section Passes

variable {options : SessionOptions} {progress : Progress}

/-- A pass handles the files that it finds at its start. -/
theorem pass_eq (brewer : Brewer) {paths : List Path} {root : Path}
    (listed : Tree.files disk root = .ok paths) (options : SessionOptions) : ∃ start, start.disk = disk ∧
      start.session = Session.start options ∧
      brewer.pass root (.start disk options) =
        ((brewer.handleAll (paths.map Event.added ++ [.ready]) start).1, .ok ()) := by
  refine ⟨((Progress.start disk options).tell [.info "watch" "scanning" root.text]).tell
    (Tree.foundLog root paths), rfl, rfl, ?_⟩
  have same : Tree.files ((Progress.start disk options).tell [.info "watch" "scanning" root.text]).disk
      root = .ok paths := listed
  rw [Brewer.pass]
  simp only [same]

/-- A lazy pass leaves the stamps to be trusted and every file that it could find steady. -/
theorem pass_lazy (pure : brewer.IsPure) (tended : Tended brewer sources root disk)
    (lazy : options.force = false) : ∃ built,
      brewer.pass root.path (.start disk options) = (built, .ok ()) ∧
      Tended brewer sources root built.disk ∧
      ∀ spot, Tree.Under built.disk root.path root spot → brewer.stages spot.path ≠ [] →
        Steady brewer built.disk (brewer.stages spot.path) spot.path := by
  obtain ⟨paths, listed, found⟩ := Tree.mem_files tended.sound tended.rooted
  obtain ⟨start, same, session, passed⟩ := pass_eq brewer listed options
  have passing : Passing brewer sources root disk (fun _ => False) start := by
    constructor
    · rw [same]
      exact tended
    · rw [same]
      exact .refl disk
    · rw [session]
      exact lazy
    · rw [session]
      rfl
    · rw [session]
      exact ⟨fun _ member => absurd member List.not_mem_nil, fun _ member => absurd member List.not_mem_nil⟩
    · intro source held hop member known
      rw [session] at known
      exact absurd known (by simp [Session.isOwnWrite, Session.writtenAt?, Session.start])
    · rintro path family (seen | ⟨vacant, present⟩)
      · exact seen.elim
      · exact absurd (same ▸ vacant) present
  obtain ⟨last, done, ended⟩ := passing.all pure fun path member brewed => by
    obtain ⟨spot, under, rfl⟩ := (found path).mp member
    exact tended.known spot under brewed
  refine ⟨_, passed, ended ▸ done.tended, ?_⟩
  rw [ended]
  intro spot under brewed
  have family := done.tended.known spot under brewed
  apply done.steady _ family
  have entry := under.entry done.tended.sound done.tended.rooted
  cases before : disk.nodeAt? spot.path with
  | none =>
      refine Or.inr ⟨rfl, ?_⟩
      obtain ⟨contents, stamp, held⟩ := under.held
      rw [Laid.nodeAt?_eq entry, held]
      simp
  | some node =>
      obtain ⟨contents, stamp, rfl, _⟩ := tended.laid.plain _ node family before
      rw [Laid.nodeAt?_eq ((done.grown.entries _).symm.trans entry)] at before
      exact Or.inl (Or.inr ((found _).mpr ⟨spot, under.back done.grown.ways before, rfl⟩))

theorem handleAll_keeps {motive : Progress → Prop} {events : List Event}
    (keeps : ∀ event ∈ events, ∀ progress, motive progress → motive (brewer.handle event progress).1)
    (start : motive progress) : motive (brewer.handleAll events progress).1 := by
  induction events generalizing progress with
  | nil => exact start
  | cons event rest ih =>
      have next := keeps event List.mem_cons_self progress start
      rw [handleAll_cons]
      split
      · exact ih (fun other member => keeps other (List.mem_cons_of_mem _ member)) next
      · exact next

/-- Where everything is steady a session by force changes nothing. -/
theorem present_idle (pure : brewer.IsPure) (tended : Tended brewer sources root disk)
    (steady : brewer.stages path ≠ [] → Family brewer sources path ∧
      Steady brewer disk (brewer.stages path) path)
    (alike : Alike brewer sources disk progress.disk)
    (forced : progress.session.options.force = true) :
    Alike brewer sources disk (brewer.whenPresent path progress).disk ∧
      (brewer.whenPresent path progress).session.options.force = true := by
  rcases present_chain brewer path progress with ⟨_, same, session⟩ | chain
  · rw [same, session]
    exact ⟨alike, forced⟩
  by_cases idle : brewer.stages path = []
  · rw [idle] at chain
    generalize brewer.whenPresent path progress = last at chain ⊢
    obtain ⟨after, session, log, runs⟩ := last
    cases chain
    exact ⟨alike, forced⟩
  · obtain ⟨family, steady⟩ := steady idle
    have same {other : Path} (member : Family brewer sources other) :=
      alike.readText tended.laid member
    have includes : IncludesNothing brewer sources progress.disk := by
      intro source text held kind read
      exact tended.includes source text held kind ((same (.of_source held)).symm.trans read)
    have orderly := orderly_stages includes family
    have steady : Steady brewer progress.disk (brewer.stages path) path := by
      refine steady.congr pure (orderly_stages tended.includes family) (same family) fun hop member => ?_
      exact Or.inr (same (family.further (mem_hops member).2))
    refine ⟨alike.trans (chain_idle pure chain forced alike.laid orderly steady), ?_⟩
    rw [(chain_effect pure chain alike.laid orderly).options]
    exact forced

theorem whenReady_options (brewer : Brewer) (progress : Progress) :
    (brewer.whenReady progress).1.session.options = progress.session.options := by
  have same : progress.session.markReady.options = progress.session.options := by
    unfold Session.markReady
    split <;> rfl
  unfold Brewer.whenReady
  simp only
  split
  · exact same
  · exact same

theorem pass_forced (pure : brewer.IsPure) (tended : Tended brewer sources root disk)
    (steady : ∀ spot, Tree.Under disk root.path root spot → brewer.stages spot.path ≠ [] →
      Steady brewer disk (brewer.stages spot.path) spot.path)
    (forced : options.force = true) : ∃ again,
      brewer.pass root.path (.start disk options) = (again, .ok ()) ∧
      ∀ place, again.disk.contentsAt? place = disk.contentsAt? place := by
  obtain ⟨paths, listed, found⟩ := Tree.mem_files tended.sound tended.rooted
  obtain ⟨start, same, session, passed⟩ := pass_eq brewer listed options
  refine ⟨_, passed, ?_⟩
  have kept : Alike brewer sources disk (brewer.handleAll (paths.map Event.added ++ [.ready]) start).1.disk ∧
      (brewer.handleAll (paths.map Event.added ++ [.ready]) start).1.session.options.force = true := by
    apply handleAll_keeps (motive := fun progress =>
      Alike brewer sources disk progress.disk ∧ progress.session.options.force = true)
    · rintro event member progress ⟨alike, forced⟩
      by_cases done : progress.session.phase = .done
      · rw [Brewer.handle_done done]
        exact ⟨alike, forced⟩
      rw [Brewer.handle_active done]
      rcases List.mem_append.mp member with added | last
      · obtain ⟨path, inside, rfl⟩ := List.mem_map.mp added
        obtain ⟨spot, under, rfl⟩ := (found path).mp inside
        exact present_idle pure tended (fun brewed => ⟨tended.known spot under brewed, steady spot under brewed⟩)
          alike forced
      · rw [List.mem_singleton.mp last]
        simp only [Brewer.whenReady_disk, whenReady_options]
        exact ⟨alike, forced⟩
    · rw [same, session]
      exact ⟨.refl tended.laid, forced⟩
  exact kept.1.contents

end Passes

section Histories

theorem Planted.tended (planted : Planted brewer sources root disk) :
    Tended brewer sources root disk where
  laid := planted.laid
  sound := planted.sound
  rooted := planted.rooted
  spelled := planted.spelled
  includes := planted.includes
  known := by
    intro spot under brewed
    obtain ⟨paths, listed, found⟩ := Tree.mem_files planted.sound planted.rooted
    exact .of_source (planted.sown paths listed _ ((found _).mpr ⟨spot, under, rfl⟩) brewed)
  trusted := by
    intro source held hop member made kept _ older
    have inside := (mem_hops member).2
    rw [planted.laid.stamp?_eq (.of_artifact held inside), planted.bare source _ held inside] at older
    exact absurd older (by simp)

theorem tended_step (pure : brewer.IsPure) (tended : Tended brewer sources root disk)
    (step : Tree.Step brewer sources root disk after) : Tended brewer sources root after := by
  cases step with
  | write source free written => exact tended.write pure source free written
  | delete family removed => exact tended.delete pure family removed
  | pass lazy =>
      obtain ⟨built, passed, kept, _⟩ := pass_lazy pure tended lazy
      rw [passed]
      exact kept

/-- Whatever has happened to a tree since it was planted, after a lazy pass a pass by force finds
every file as it would write it. -/
theorem rebuild_changes_nothing {start : Disk} {options full : SessionOptions} (pure : brewer.IsPure)
    (planted : Planted brewer sources root start)
    (history : Relation.ReflTransGen (Tree.Step brewer sources root) start disk)
    (lazy : options.force = false) (forced : full.force = true) : ∃ built again,
      brewer.pass root.path (.start disk options) = (built, .ok ()) ∧
      brewer.pass root.path (.start built.disk full) = (again, .ok ()) ∧
      ∀ place, again.disk.contentsAt? place = built.disk.contentsAt? place := by
  have tended : Tended brewer sources root disk := by
    induction history with
    | refl => exact planted.tended
    | tail _ step ih => exact tended_step pure ih step
  obtain ⟨built, passed, kept, steady⟩ := pass_lazy pure tended lazy
  obtain ⟨again, repeated, same⟩ := pass_forced pure kept steady forced
  exact ⟨built, again, passed, repeated, same⟩

end Histories

section Lone

open Brewer (verbatim verbatim_pure)

theorem loneDisk_node? {place : Place} {node : Node} (inner : place ≠ [])
    (held : loneDisk.node? place = some node) :
    place = ["a.cielo".toList] ∧ node = .file (.text []) 1 := by
  rw [Disk.node?, if_neg inner] at held
  obtain ⟨entry, found, same⟩ := Option.map_eq_some_iff.mp held
  have member := List.mem_singleton.mp (List.mem_of_find?_eq_some found)
  have key : entry.1 = place := by simpa using List.find?_some found
  rw [← key, ← same, member]
  exact ⟨rfl, rfl⟩

theorem loneDisk_planted : Planted verbatim lone [] loneDisk := by
  have proper : Disk.IsEntryName "a.cielo".toList := ⟨by decide, by decide, by decide, by decide, by decide⟩
  have held {path : Path} {node : Node} (family : Family verbatim lone path)
      (there : loneDisk.nodeAt? path = some node) :
      path.fileName? = some "a.cielo".toList ∧ node = .file (.text []) 1 := by
    obtain ⟨name, named, entry⟩ := lone_entry loneDisk family
    rw [Laid.nodeAt?_eq entry] at there
    obtain ⟨place, file⟩ := loneDisk_node? (List.cons_ne_nil _ _) there
    rw [named, (List.cons.inj place).1]
    exact ⟨rfl, file⟩
  have sound : loneDisk.Sound := by
    refine ⟨by decide, fun place node member => ?_⟩
    have same := (Prod.mk.inj (List.mem_singleton.mp member)).1
    rw [same]
    exact .cons proper fun _ inside => absurd inside List.not_mem_nil
  have rooted : loneDisk.Rooted [] := by
    intro above suffix
    rw [List.suffix_nil.mp suffix]
    rfl
  have laid : Laid verbatim lone loneDisk := by
    refine ⟨lone_layout loneDisk, fun path node family there => ?_⟩
    exact ⟨_, _, (held family there).2, Int.le_refl _⟩
  refine ⟨laid, sound, rooted, ?_, ?_, ?_, ?_⟩
  · rintro path rfl
    obtain ⟨name, named, entry⟩ := lone_entry loneDisk (.of_source rfl)
    exact ⟨["a.cielo".toList], by decide, Disk.entryAt?_path rooted (.cons proper (by simp [Place.Proper]))⟩
  · intro paths listed path member _
    obtain ⟨found, again, spots⟩ := Tree.mem_files sound rooted
    have same : found = paths := Except.ok.inj (again.symm.trans listed)
    subst same
    obtain ⟨spot, under, rfl⟩ := (spots path).mp member
    obtain ⟨contents, stamp, file⟩ := under.held
    have inner : spot ≠ [] := by
      rintro rfl
      exact absurd file (by simp [Disk.node?])
    rw [(loneDisk_node? inner file).1]
    have spelled : Place.path ["a.cielo".toList] = Path.ofString "/a.cielo" := by decide
    exact spelled
  · rintro source artifact rfl inside
    cases there : loneDisk.nodeAt? artifact with
    | none => rfl
    | some node =>
        have named := (held (.of_artifact rfl inside) there).1
        rcases lone_family (.of_artifact rfl inside) with rfl | rfl | rfl
        · exact absurd inside (List.nodup_cons.mp (artifacts_nodup verbatim _)).1
        · exact absurd named (by decide)
        · exact absurd named (by decide)
  · rintro source text rfl _ read
    rw [laid.readText_eq (.of_source rfl)] at read
    split at read
    · next found stamp there =>
        have same := (held (.of_source rfl) there).2
        cases same
        cases read
        exact includeFree_empty _
    · exact absurd read (by simp)
    · exact absurd read (by simp)

/-- The disk after a first pass. -/
def brewedDisk : Disk := (verbatim.pass (Place.path []) (.start loneDisk .plain)).1.disk

theorem brewedDisk_rebuild : ∃ built again,
    verbatim.pass (Place.path []) (.start brewedDisk .plain) = (built, .ok ()) ∧
      verbatim.pass (Place.path []) (.start built.disk { SessionOptions.plain with force := true }) =
        (again, .ok ()) ∧
      ∀ place, again.disk.contentsAt? place = built.disk.contentsAt? place :=
  rebuild_changes_nothing verbatim_pure loneDisk_planted (.single (.pass rfl)) rfl rfl

end Lone
end Brewery
