import Brewery.Proofs.Session.Effects

/-!
Chains that have nothing left to do. A lazy chain trusts the stamps: it makes an artifact only
when its input is newer. If the stamps can be trusted, the chain ends with everything as a chain
by force would make it, and a chain by force that is run then writes what is there already.
-/

namespace Brewery

/-- What a chain would write, as far as it would come, is there. -/
def Steady (brewer : Brewer) (disk : Disk) : List Stage → Path → Prop
  | [], _ => True
  | stage :: rest, input => ∀ text output, disk.readText input = .ok text →
      (brewer.transform disk stage text input).2 = .ok output →
        disk.readText (input.artifact stage) = .ok output ∧
          Steady brewer disk rest (input.artifact stage)

/-- An artifact that is not older than its input is fresh. -/
def Trusted (brewer : Brewer) (disk : Disk) (stage : Stage) (input : Path) : Prop :=
  ∀ made kept, disk.stamp? input = some made → disk.stamp? (input.artifact stage) = some kept →
    made ≤ kept → Fresh brewer disk stage input

/-- Two disks with the same contents everywhere, whatever the stamps. -/
structure Alike (brewer : Brewer) (sources : Path → Prop) (disk after : Disk) : Prop where
  laid : Laid brewer sources after
  entries : ∀ path, after.entryAt? path = disk.entryAt? path
  contents : ∀ place, after.contentsAt? place = disk.contentsAt? place

variable {brewer : Brewer} {sources : Path → Prop} {disk after : Disk} {stage : Stage}
  {stages rest : List Stage} {input path : Path} {session later : Session}

section Alike

theorem Alike.refl (laid : Laid brewer sources disk) : Alike brewer sources disk disk :=
  ⟨laid, fun _ => rfl, fun _ => rfl⟩

theorem Alike.trans {last : Disk} (first : Alike brewer sources disk after)
    (second : Alike brewer sources after last) : Alike brewer sources disk last where
  laid := second.laid
  entries := fun path => (second.entries path).trans (first.entries path)
  contents := fun place => (second.contents place).trans (first.contents place)

theorem Laid.readText_contents {place : Place} (laid : Laid brewer sources disk)
    (family : Family brewer sources path) (entry : disk.entryAt? path = some place) :
    disk.readText path = match disk.contentsAt? place with
      | some (.text text) => .ok text
      | some (.raw _) => .error .notText
      | none => .error .missing := by
  rw [laid.readText_eq family, Laid.nodeAt?_eq entry, Disk.contentsAt?]
  cases held : disk.node? place with
  | none => rfl
  | some node =>
      obtain ⟨contents, stamp, rfl⟩ := laid.plain_at family entry node held
      cases contents <;> rfl

theorem Alike.readText (alike : Alike brewer sources disk after) (laid : Laid brewer sources disk)
    (family : Family brewer sources path) : after.readText path = disk.readText path := by
  obtain ⟨place, entry⟩ := laid.entry path family
  rw [laid.readText_contents family entry,
    alike.laid.readText_contents family ((alike.entries path).trans entry), alike.contents]

-- The write of a text to where it is already.
theorem Alike.rewrite {text : Text} {place : Place} (laid : Laid brewer sources disk)
    (family : Family brewer sources path) (entry : disk.entryAt? path = some place)
    (read : disk.readText path = .ok text) :
    Alike brewer sources disk (disk.putFile place (.text text)) := by
  have sets := laid.put family entry (.text text)
  obtain ⟨stamp, held⟩ := Disk.readText_eq_ok entry (laid.firm family entry) read
  refine ⟨sets.laid, sets.entries, fun other => ?_⟩
  rw [Disk.contentsAt?, Disk.contentsAt?, Disk.node?_putFile (Disk.place_ne_nil (laid.solid family entry))]
  by_cases here : other = place
  · rw [if_pos here, here, held]
  · rw [if_neg here]

end Alike

section Steadiness

/-- A chain stays steady when its first input stays what it was, and every artifact of it does
too or has become fresh. -/
theorem Steady.congr {source : Path} (pure : brewer.IsPure)
    (orderly : Orderly brewer sources source stages input disk)
    (same : after.readText input = disk.readText input)
    (hopwise : ∀ hop ∈ hops stages input, Fresh brewer after hop.1 hop.2 ∨
      after.readText (hop.2.artifact hop.1) = disk.readText (hop.2.artifact hop.1))
    (steady : Steady brewer disk stages input) : Steady brewer after stages input := by
  induction stages generalizing input with
  | nil => trivial
  | cons stage rest ih =>
      intro text output read made
      have before := same.symm.trans read
      rw [orderly.transform pure before after disk] at made
      obtain ⟨kept, onward⟩ := steady text output before made
      have now : after.readText (input.artifact stage) = .ok output := by
        rcases hopwise _ List.mem_cons_self with fresh | unchanged
        · apply fresh text output read
          rw [orderly.transform pure before after disk]
          exact made
        · exact unchanged.trans kept
      refine ⟨now, ih (orderly.tail disk) (now.trans kept.symm) (fun hop member => ?_) onward⟩
      exact hopwise hop (List.mem_cons_of_mem _ member)

/-- A chain by force leaves a steady disk as it is. -/
theorem chain_idle {source : Path} {always : Bool} (pure : brewer.IsPure)
    (chain : brewer.ChainCase source always stages input disk session after later)
    (forced : session.options.force = true) (laid : Laid brewer sources disk)
    (orderly : Orderly brewer sources source stages input disk)
    (steady : Steady brewer disk stages input) : Alike brewer sources disk after := by
  induction chain with
  | finished => exact .refl laid
  | outside => exact .refl laid
  | stuck => exact .refl laid
  | current _ kept =>
      rw [Session.needsRebuild, forced, Bool.true_or, if_pos rfl] at kept
      exact absurd kept (by simp)
  | @replaced stage rest input disk after session later text output place read made entry _ _ _ ih =>
      obtain ⟨kept, onward⟩ := steady text output read made
      have alike := Alike.rewrite laid orderly.output entry kept
      have further := orderly.tail disk
      have same {path : Path} (member : path ∈ (input.artifact stage) :: (input.artifact stage).artifacts rest) :=
        alike.readText laid (further.family path member)
      apply alike.trans
      apply ih
      · exact (Session.recordWrite_same session _ _).1 ▸ forced
      · exact alike.laid
      · exact orderly.tail _
      · refine Steady.congr pure further (same List.mem_cons_self) (fun hop inside => ?_) onward
        exact Or.inr (same (List.mem_cons_of_mem _ (mem_hops inside).2))

-- What a lazy session passes over is fresh, or has no input.
theorem Trusted.fresh (trusted : Trusted brewer disk stage input) (laid : Laid brewer sources disk)
    (family : Family brewer sources input) (lazy : session.options.force = false)
    (scanning : session.phase = .scanning)
    (kept : session.needsRebuild disk input (input.artifact stage) = false) :
    Fresh brewer disk stage input := by
  rw [Session.needsRebuild, lazy, Session.scanComplete, scanning, if_neg (by simp)] at kept
  cases made : disk.stamp? input with
  | none =>
      intro text output read _
      have absent : disk.nodeAt? input = none := by
        by_contra present
        exact absurd (laid.stamp?_isSome family present) (by simp [made])
      rw [laid.readText_eq family, absent] at read
      exact absurd read (by simp)
  | some stamp =>
      rw [made] at kept
      cases older : disk.stamp? (input.artifact stage) with
      | none => simp [older] at kept
      | some bound =>
          rw [older] at kept
          exact trusted stamp bound made older (by simpa using kept)

-- A hop whose files hold what they held is as much to be trusted as it was.
theorem Trusted.congr {source : Path} (pure : brewer.IsPure) (laid : Laid brewer sources disk)
    (later : Laid brewer sources after)
    (orderly : Orderly brewer sources source (stage :: rest) input disk)
    (here : after.nodeAt? input = disk.nodeAt? input)
    (there : after.nodeAt? (input.artifact stage) = disk.nodeAt? (input.artifact stage))
    (trusted : Trusted brewer disk stage input) : Trusted brewer after stage input := by
  intro made kept stamped older newer
  rw [laid.stamp?_congr later orderly.start here] at stamped
  rw [laid.stamp?_congr later orderly.output there] at older
  refine (trusted made kept stamped older newer).of_reads pure (fun first text read => ?_)
    (laid.readText_congr later orderly.start here) (laid.readText_congr later orderly.output there)
  exact orderly.free text read (by rw [first]; rfl)

/-- A new stamp is later than all others, so it casts no doubt on a hop that it is not the artifact
of; and what is gone has no stamp. -/
theorem Sets.trusted {source : Path} {node : Option Node} (pure : brewer.IsPure)
    (laid : Laid brewer sources disk) (sets : Sets brewer sources disk path node after)
    (newer : ∀ contents stamp, node = some (.file contents stamp) → disk.clock < stamp)
    (orderly : Orderly brewer sources source (stage :: rest) input disk)
    (away : input.artifact stage = path → node = none)
    (trusted : Trusted brewer disk stage input) : Trusted brewer after stage input := by
  by_cases target : input.artifact stage = path
  · intro made kept _ older
    rw [sets.laid.stamp?_eq orderly.output, target, sets.here, away target] at older
    exact absurd older (by simp)
  by_cases start : input = path
  · intro made kept stamped older late
    rw [laid.stamp?_congr sets.laid orderly.output (sets.elsewhere _ orderly.output target)] at older
    have bound := laid.stamp?_le orderly.output older
    rw [sets.laid.stamp?_eq orderly.start, start, sets.here] at stamped
    split at stamped
    · next contents stamp =>
        have date := newer contents stamp rfl
        cases stamped
        omega
    · exact absurd stamped (by simp)
  · exact trusted.congr pure laid sets.laid orderly (sets.elsewhere _ orderly.start start)
      (sets.elsewhere _ orderly.output target)

-- The stages after a hop make an orderly chain of their own.
theorem Orderly.hop {source : Path} (orderly : Orderly brewer sources source stages input disk)
    {hop : Stage × Path} (member : hop ∈ hops stages input) :
    ∃ rest, Orderly brewer sources source (hop.1 :: rest) hop.2 disk := by
  induction stages generalizing input with
  | nil => exact absurd member List.not_mem_nil
  | cons stage rest ih =>
      rcases List.mem_cons.mp member with rfl | further
      · exact ⟨rest, orderly⟩
      · exact ih (orderly.tail disk) further

/-- A lazy chain ends steady, if the stamps that it finds can be trusted. -/
theorem chain_steady {source : Path} {always : Bool} (pure : brewer.IsPure)
    (chain : brewer.ChainCase source always stages input disk session after later)
    (lazy : session.options.force = false) (scanning : session.phase = .scanning)
    (laid : Laid brewer sources disk)
    (orderly : Orderly brewer sources source stages input disk)
    (trusted : ∀ hop ∈ hops stages input, Trusted brewer disk hop.1 hop.2) :
    Steady brewer after stages input := by
  induction chain with
  | finished => trivial
  | outside data out =>
      rw [orderly.inside (data ▸ List.mem_cons_self)] at out
      exact absurd out (by simp)
  | stuck stuck =>
      intro text output read made
      exact absurd made (stuck.refused laid orderly.output read)
  | @current stage rest input disk after session later _ kept onward ih =>
      have further := orderly.tail disk
      have effect := chain_effect pure onward laid further
      have here := (effect.elsewhere input orderly.start fun member =>
        orderly.apart (List.mem_cons_of_mem _ member)).1
      have there := (effect.elsewhere _ orderly.output further.apart).1
      have fresh := (trusted _ List.mem_cons_self).fresh laid orderly.start lazy scanning kept
      intro text output read made
      constructor
      · refine fresh.of_reads pure (fun first text read => ?_) (laid.readText_congr effect.laid orderly.start here)
          (laid.readText_congr effect.laid orderly.output there) text output read made
        exact orderly.free text read (by rw [first]; rfl)
      · exact ih lazy scanning laid further fun hop member => trusted hop (List.mem_cons_of_mem _ member)
  | @replaced stage rest input disk after session later text output place read made entry solid
      meant onward ih =>
      have sets := laid.put orderly.output entry (.text output)
      have further := orderly.tail (disk.putFile place (.text output))
      have effect := chain_effect pure onward sets.laid further
      have start : after.readText input = disk.readText input := by
        apply laid.readText_congr effect.laid orderly.start
        refine (effect.elsewhere input orderly.start fun member =>
          orderly.apart (List.mem_cons_of_mem _ member)).1.trans ?_
        exact sets.elsewhere input orderly.start fun same =>
          orderly.apart (List.mem_cons.mpr (Or.inl same))
      have written := (effect.elsewhere _ orderly.output further.apart).1.trans sets.here
      intro other result again done
      rw [start, read] at again
      cases again
      rw [orderly.transform pure read after disk, made] at done
      cases done
      constructor
      · rw [effect.laid.readText_eq orderly.output, written]
      · have same := Session.recordWrite_same session (disk.putFile place (.text output))
          (input.artifact stage)
        refine ih (same.1 ▸ lazy) (same.2.1 ▸ scanning) sets.laid further fun hop member => ?_
        obtain ⟨others, later⟩ := (orderly.tail disk).hop member
        refine sets.trusted pure laid (fun contents stamp same => ?_) later (fun same => ?_)
          (trusted hop (List.mem_cons_of_mem _ member))
        · cases same
          exact Int.lt_succ _
        · exact absurd (same ▸ (mem_hops member).2) further.apart

end Steadiness
end Brewery
