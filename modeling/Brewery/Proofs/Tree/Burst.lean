import Brewery.Proofs.Session.Memory
import Brewery.Tree.Burst
import Mathlib.Data.List.Nodup

/-!
What waits after any calls. The burst of a path is what was recorded of it since it was last
released or removed; this can be told from the calls alone. At every moment exactly the paths with a
burst wait, each once, and those that are taken are exactly the ones that have been quiet for long.
-/

namespace Brewery.Bursts

/-- What is asked of the bursts. -/
inductive Call where
  | added (path : Path)
  | changed (path : Path)
  | removed (path : Path)
  | taken

/-- Calls with their moments, the latest first. -/
abbrev History := List (Nat × Call)

/-- Every call is later than those before it. -/
def Increasing (history : History) : Prop :=
  history.Pairwise fun later earlier => earlier.1 < later.1

def call (bursts : Bursts) (now : Nat) : Call → Bursts
  | .added path => bursts.record now (.added path)
  | .changed path => bursts.record now (.changed path)
  | .removed path => bursts.remove path
  | .taken => (bursts.take now).2

/-- The bursts after calls. -/
def after (quiet : Nat) : History → Bursts
  | [] => start quiet
  | (now, asked) :: earlier => (after quiet earlier).call now asked

/-- An event that was recorded. -/
structure Record where
  moment : Nat
  event : Event

/-- A burst is over when its latest record is old enough. -/
def isOver (quiet now : Nat) : List Record → Bool
  | [] => false
  | latest :: _ => latest.moment + quiet ≤ now

/-- Whether an event is about a path. -/
def regards (path : Path) (event : Event) : Bool := event.path?.any path.same

def noted (path : Path) (record : Record) (burst : List Record) : List Record :=
  if regards path record.event then record :: burst else burst

/-- The burst of a path after calls: its records since its last release or removal, the latest
first. -/
def burstOf (quiet : Nat) (path : Path) : History → List Record
  | [] => []
  | (now, asked) :: earlier =>
      let burst := burstOf quiet path earlier
      match asked with
      | .added other => noted path ⟨now, .added other⟩ burst
      | .changed other => noted path ⟨now, .changed other⟩ burst
      | .removed other => if path.same other then [] else burst
      | .taken => if isOver quiet now burst then [] else burst

def adds : Event → Bool
  | .added _ => true
  | _ => false

/-- What a burst counts as: its first addition, or else its latest event. -/
def verdict (latest : Record) (earlier : List Record) : Event :=
  ((latest :: earlier).reverse.find? fun record => adds record.event).elim latest.event Record.event

/-- A burst as it waits. -/
def waitingFor : List Record → List Burst
  | [] => []
  | latest :: earlier => [⟨latest.moment, verdict latest earlier⟩]

variable {quiet now : Nat} {path other : Path} {history : History} {event : Event} {burst : Burst}
  {bursts : Bursts} {entry latest : Record} {records earlier : List Record} {asked : Call}

theorem absorb_of_adds {before : Event} (first : adds before = true) (after : Event) :
    absorb before after = before := by
  cases before with
  | added path => rfl
  | _ => exact absurd first (by simp [adds])

theorem absorb_of_not_adds {before : Event} (other : adds before = false) (after : Event) :
    absorb before after = after := by
  cases before with
  | added path => exact absurd other (by simp [adds])
  | _ => rfl

theorem of_found (found : records.find? (fun record => adds record.event) = some entry) :
    adds entry.event = true := by
  simpa using List.find?_some found

/-- One more record, and what a burst counts as. -/
theorem absorb_verdict (record latest : Record) (earlier : List Record) :
    absorb (verdict latest earlier) record.event = verdict record (latest :: earlier) := by
  unfold verdict
  rw [List.reverse_cons (a := record), List.find?_append]
  cases found : (latest :: earlier).reverse.find? fun record => adds record.event with
  | some first => exact absorb_of_adds (of_found found) _
  | none =>
      have plain : adds latest.event = false := by
        have none := List.find?_eq_none.mp found latest (by simp)
        simpa using none
      simp only [Option.elim_none, absorb_of_not_adds plain, Option.none_or]
      cases first : adds record.event <;> simp [first]

/-- What waits after calls is what the calls tell. -/
structure Tells (bursts : Bursts) (quiet : Nat) (history : History) : Prop where
  needs : bursts.quiet = quiet
  waits : ∀ path, bursts.waiting.filter (concerns path) = waitingFor (burstOf quiet path history)
  about : ∀ burst ∈ bursts.waiting, ∃ path, burst.event.path? = some path

section Recording

theorem concerns_of_path (about : burst.event.path? = some other) (path : Path) :
    concerns path burst = path.same other := by
  rw [concerns, about, Option.any_some]

-- Paths that one burst concerns are the same.
theorem concerns_of_concerns (found : concerns other burst = true) (path : Path) :
    concerns path burst = path.same other := by
  cases about : burst.event.path? with
  | none => simp [concerns, about] at found
  | some third =>
      rw [concerns_of_path about] at found ⊢
      exact (Path.same_through found path).trans (Path.same_comm other path)

/-- A burst that goes on. -/
def extended (now : Nat) (event : Event) (burst : Burst) : Burst :=
  ⟨now, absorb burst.event event⟩

theorem concerns_extended (about : event.path? = some other) (found : concerns other burst = true) :
    concerns other (extended now event burst) = true := by
  cases first : adds burst.event with
  | true => simpa only [concerns, extended, absorb_of_adds first] using found
  | false =>
      simp only [concerns, extended, absorb_of_not_adds first, about, Option.any_some]
      exact Path.same_self other

theorem record_waiting (about : event.path? = some other) :
    (bursts.record now event).waiting =
      if bursts.waiting.any (concerns other) then
        bursts.waiting.map fun burst =>
          if concerns other burst then extended now event burst else burst
      else bursts.waiting ++ [⟨now, event⟩] := by
  simp only [record, about]
  split <;> rfl

-- An event goes on with the bursts of its path and with no other.
theorem filter_extended (about : event.path? = some other) (path : Path) (waiting : List Burst) :
    (waiting.map fun burst => if concerns other burst then extended now event burst else burst).filter
        (concerns path) =
      if path.same other then (waiting.filter (concerns path)).map (extended now event)
      else waiting.filter (concerns path) := by
  have kept (burst : Burst) :
      concerns path (if concerns other burst then extended now event burst else burst) =
        concerns path burst := by
    split
    · next found =>
        rw [concerns_of_concerns (concerns_extended about found), concerns_of_concerns found]
    · rfl
  rw [List.filter_map, Function.comp_def]
  simp only [kept]
  split
  · next same =>
      refine List.map_congr_left fun burst member => if_pos ?_
      rw [concerns_of_concerns (List.mem_filter.mp member).2, Path.same_comm, same]
  · next apart =>
      refine (List.map_congr_left fun burst member => if_neg fun found => apart ?_).trans
        (List.map_id _)
      rw [← concerns_of_concerns found]
      exact (List.mem_filter.mp member).2

theorem record_same (same : path.same other = true) (about : event.path? = some other) :
    (bursts.record now event).waiting.filter (concerns path) =
      match bursts.waiting.filter (concerns path) with
      | [] => [⟨now, event⟩]
      | found => found.map (extended now event) := by
  have alike : concerns path = concerns other := by
    funext burst
    rw [concerns, concerns]
    congr 1
    funext third
    exact Path.same_congr same third
  rw [record_waiting about]
  split
  · next known =>
      rw [filter_extended about, if_pos same]
      split
      · next none =>
          obtain ⟨burst, member, found⟩ := List.any_eq_true.mp known
          rw [alike] at none
          exact absurd found (List.filter_eq_nil_iff.mp none burst member)
      · rfl
  · next unknown =>
      have none : bursts.waiting.filter (concerns path) = [] := by
        rw [alike]
        refine List.filter_eq_nil_iff.mpr fun burst member found => unknown ?_
        exact List.any_eq_true.mpr ⟨burst, member, found⟩
      have found : concerns path ⟨now, event⟩ = true := by rw [concerns_of_path about, same]
      rw [List.filter_append, none]
      simp [found]

theorem record_other (apart : path.same other = false) (about : event.path? = some other) :
    (bursts.record now event).waiting.filter (concerns path) =
      bursts.waiting.filter (concerns path) := by
  rw [record_waiting about]
  split
  · rw [filter_extended about, if_neg (by simp [apart])]
  · have unconcerned : concerns path ⟨now, event⟩ = false := by rw [concerns_of_path about, apart]
    simp [unconcerned]

theorem path_extended (about : event.path? = some other)
    (named : ∃ path, burst.event.path? = some path) :
    ∃ path, (extended now event burst).event.path? = some path := by
  cases first : adds burst.event with
  | true => simpa only [extended, absorb_of_adds first] using named
  | false => exact ⟨other, by simpa only [extended, absorb_of_not_adds first] using about⟩

/-- One more record is told. -/
theorem Tells.recorded (tells : Tells bursts quiet history) (about : event.path? = some other)
    (told : ∀ path, burstOf quiet path ((now, asked) :: history) =
      noted path ⟨now, event⟩ (burstOf quiet path history)) :
    Tells (bursts.record now event) quiet ((now, asked) :: history) := by
  constructor
  · rw [← tells.needs]
    simp only [record, about]
    split <;> rfl
  · intro path
    rw [told path, noted, regards, about, Option.any_some]
    cases same : path.same other with
    | false => rw [record_other same about, tells.waits path, if_neg (by simp)]
    | true =>
        rw [record_same same about, tells.waits path, if_pos rfl]
        cases burstOf quiet path history with
        | nil => cases first : adds event <;> simp [waitingFor, verdict, first]
        | cons latest earlier =>
            have goes := absorb_verdict ⟨now, event⟩ latest earlier
            simp only [waitingFor, List.map_cons, List.map_nil, extended, ← goes]
  · intro burst member
    rw [record_waiting about] at member
    split at member
    · obtain ⟨before, within, rfl⟩ := List.mem_map.mp member
      split
      · exact path_extended about (tells.about before within)
      · exact tells.about before within
    · rcases List.mem_append.mp member with within | last
      · exact tells.about burst within
      · rw [List.mem_singleton.mp last]
        exact ⟨other, about⟩

end Recording

/-- A removal drops the burst of its path. -/
theorem Tells.dropped (tells : Tells bursts quiet history) (now : Nat) (other : Path) :
    Tells (bursts.remove other) quiet ((now, .removed other) :: history) := by
  refine ⟨tells.needs, fun path => ?_, fun burst member =>
    tells.about burst (List.mem_filter.mp member).1⟩
  rw [remove, List.filter_filter]
  cases same : path.same other with
  | true =>
      simp only [burstOf, same, if_true, waitingFor]
      refine List.filter_eq_nil_iff.mpr fun burst _ both => ?_
      obtain ⟨found, apart⟩ := Bool.and_eq_true_iff.mp both
      rw [concerns_of_concerns found, Path.same_comm, same] at apart
      exact absurd apart (by simp)
  | false =>
      simp only [burstOf, same, Bool.false_eq_true, if_false, ← tells.waits path]
      refine List.filter_congr fun burst _ => ?_
      cases found : concerns path burst with
      | false => rfl
      | true => rw [concerns_of_concerns found, Path.same_comm, same]; rfl

section Taking

/-- A burst is ready when it is over. -/
theorem Tells.isReady (tells : Tells bursts quiet history) (now : Nat) (path : Path)
    (member : burst ∈ waitingFor (burstOf quiet path history)) :
    bursts.isReady now burst = isOver quiet now (burstOf quiet path history) := by
  cases found : burstOf quiet path history with
  | nil => exact absurd member (by simp [found, waitingFor])
  | cons latest earlier =>
      rw [found, waitingFor, List.mem_singleton] at member
      rw [member, Bursts.isReady, isOver, tells.needs]

theorem Tells.ready (tells : Tells bursts quiet history) (now : Nat) (path : Path) :
    (bursts.waiting.filter (bursts.isReady now)).filter (concerns path) =
      if isOver quiet now (burstOf quiet path history) then waitingFor (burstOf quiet path history)
      else [] := by
  rw [List.filter_comm, tells.waits path]
  split
  · next passed =>
      exact List.filter_eq_self.mpr fun burst member => (tells.isReady now path member).trans passed
  · next still =>
      refine List.filter_eq_nil_iff.mpr fun burst member => ?_
      rwa [tells.isReady now path member]

theorem Tells.left (tells : Tells bursts quiet history) (now : Nat) (path : Path) :
    (bursts.take now).2.waiting.filter (concerns path) =
      if isOver quiet now (burstOf quiet path history) then []
      else waitingFor (burstOf quiet path history) := by
  change (bursts.waiting.filter fun burst => !bursts.isReady now burst).filter (concerns path) = _
  rw [List.filter_comm, tells.waits path]
  split
  · next passed =>
      refine List.filter_eq_nil_iff.mpr fun burst member => ?_
      simp [tells.isReady now path member, passed]
  · next still =>
      refine List.filter_eq_self.mpr fun burst member => ?_
      simpa [tells.isReady now path member] using still

theorem Tells.released (tells : Tells bursts quiet history) (now : Nat) :
    Tells (bursts.take now).2 quiet ((now, .taken) :: history) := by
  refine ⟨tells.needs, fun path => ?_, fun burst member =>
    tells.about burst (List.mem_filter.mp member).1⟩
  rw [tells.left now path, burstOf]
  split <;> rfl

/-- What waits after any calls is what the calls tell. -/
theorem tells_after (quiet : Nat) (history : History) : Tells (after quiet history) quiet history := by
  induction history with
  | nil => exact ⟨rfl, fun path => rfl, fun burst member => absurd member (by simp [after, start])⟩
  | cons latest earlier ih =>
      obtain ⟨now, asked⟩ := latest
      cases asked with
      | added path =>
          change Tells ((after quiet earlier).record now (.added path)) quiet _
          exact ih.recorded rfl fun _ => rfl
      | changed path =>
          change Tells ((after quiet earlier).record now (.changed path)) quiet _
          exact ih.recorded rfl fun _ => rfl
      | removed path => exact ih.dropped now path
      | taken => exact ih.released now

end Taking

section Moments

theorem mem_noted {record : Record} (member : entry ∈ noted path record records) :
    (entry = record ∧ regards path record.event = true) ∨ entry ∈ records := by
  unfold noted at member
  split at member
  · next same => exact (List.mem_cons.mp member).imp (fun first => ⟨first, same⟩) id
  · exact Or.inr member

/-- Every record of a burst is one of the calls. -/
theorem burstOf_recorded (member : entry ∈ burstOf quiet path history) :
    ∃ third, path.same third = true ∧
      ((entry.event = .added third ∧ (entry.moment, .added third) ∈ history) ∨
        (entry.event = .changed third ∧ (entry.moment, .changed third) ∈ history)) := by
  induction history with
  | nil => exact absurd member (by simp [burstOf])
  | cons latest earlier ih =>
      obtain ⟨now, asked⟩ := latest
      have before (member : entry ∈ burstOf quiet path earlier) :
          ∃ third, path.same third = true ∧
            ((entry.event = .added third ∧ (entry.moment, .added third) ∈ (now, asked) :: earlier) ∨
              (entry.event = .changed third ∧
                (entry.moment, .changed third) ∈ (now, asked) :: earlier)) := by
        obtain ⟨third, same, found⟩ := ih member
        exact ⟨third, same, found.imp (fun one => ⟨one.1, List.mem_cons_of_mem _ one.2⟩)
          fun one => ⟨one.1, List.mem_cons_of_mem _ one.2⟩⟩
      cases asked with
      | added third =>
          rcases mem_noted member with ⟨rfl, same⟩ | within
          · exact ⟨third, same, Or.inl ⟨rfl, List.mem_cons_self⟩⟩
          · exact before within
      | changed third =>
          rcases mem_noted member with ⟨rfl, same⟩ | within
          · exact ⟨third, same, Or.inr ⟨rfl, List.mem_cons_self⟩⟩
          · exact before within
      | removed third =>
          simp only [burstOf] at member
          split at member
          · exact absurd member List.not_mem_nil
          · exact before member
      | taken =>
          simp only [burstOf] at member
          split at member
          · exact absurd member List.not_mem_nil
          · exact before member

theorem Increasing.unique {one two : Call} (increasing : Increasing history)
    (first : (now, one) ∈ history) (second : (now, two) ∈ history) : one = two := by
  have nodup : (history.map Prod.fst).Nodup := by
    rw [List.Nodup, List.pairwise_map]
    exact increasing.imp fun earlier => Nat.ne_of_gt earlier
  exact congrArg Prod.snd (List.inj_on_of_nodup_map nodup first second rfl)

/-- No two paths were recorded at one moment. -/
theorem Increasing.apart {record : Record} (increasing : Increasing history)
    (first : entry ∈ burstOf quiet path history) (second : record ∈ burstOf quiet other history)
    (moment : entry.moment = record.moment) : path.same other = true := by
  obtain ⟨third, same, one⟩ := burstOf_recorded first
  obtain ⟨fourth, also, two⟩ := burstOf_recorded second
  have alike : third = fourth := by
    rw [← moment] at two
    rcases one with ⟨_, one⟩ | ⟨_, one⟩ <;> rcases two with ⟨_, two⟩ | ⟨_, two⟩ <;>
      simpa using increasing.unique one two
  rw [Path.same_congr same, alike, Path.same_comm, also]

end Moments

section Distinct

/-- No path is concerned by two of these. -/
def Distinct (waiting : List Burst) : Prop :=
  waiting.Pairwise fun one two => ∀ path, concerns path one = true → concerns path two = false

theorem Tells.single (tells : Tells bursts quiet history) (path : Path) :
    (bursts.waiting.filter (concerns path)).length ≤ 1 := by
  rw [tells.waits path]
  cases burstOf quiet path history <;> simp [waitingFor]

theorem distinct_of_single {waiting : List Burst}
    (single : ∀ path, (waiting.filter (concerns path)).length ≤ 1) : Distinct waiting := by
  induction waiting with
  | nil => exact .nil
  | cons burst rest ih =>
      constructor
      · intro later member path found
        have few := single path
        rw [List.filter_cons_of_pos found, List.length_cons] at few
        have none : rest.filter (concerns path) = [] := List.length_eq_zero_iff.mp (by omega)
        simpa using List.filter_eq_nil_iff.mp none later member
      · apply ih
        intro path
        exact Nat.le_trans ((List.sublist_cons_self burst rest).filter _).length_le (single path)

/-- The paths that are pending, each once. -/
def Pending (bursts : Bursts) (quiet : Nat) (history : History) : Prop :=
  ∃ paths : List Path, (paths.Pairwise fun one two => one.same two = false) ∧
    (∀ path, paths.any path.same = true ↔ burstOf quiet path history ≠ []) ∧
    bursts.pending = paths.length ∧ (bursts.hasPending = true ↔ paths ≠ [])

theorem Tells.mem (tells : Tells bursts quiet history) (path : Path) :
    (burst ∈ bursts.waiting ∧ concerns path burst = true) ↔
      burst ∈ waitingFor (burstOf quiet path history) := by
  rw [← tells.waits path, List.mem_filter]

theorem Tells.pending (tells : Tells bursts quiet history) : Pending bursts quiet history := by
  have known (burst : Burst) (member : burst ∈ bursts.waiting) (path : Path) :
      concerns path burst = path.same (burst.event.path?.getD ⟨[]⟩) := by
    obtain ⟨named, about⟩ := tells.about burst member
    rw [concerns_of_path about, about, Option.getD_some]
  refine ⟨bursts.waiting.map fun burst => burst.event.path?.getD ⟨[]⟩, ?_, fun path => ?_, ?_, ?_⟩
  · rw [List.pairwise_map]
    refine (distinct_of_single tells.single).imp_of_mem fun one two apart => ?_
    rw [← known _ two]
    apply apart
    rw [known _ one, Path.same_self]
  · have waits : (∃ burst ∈ bursts.waiting, concerns path burst = true) ↔
        burstOf quiet path history ≠ [] := by
      simp only [tells.mem path]
      cases burstOf quiet path history <;> simp [waitingFor]
    rw [List.any_map, List.any_eq_true, ← waits]
    refine exists_congr fun burst => and_congr_right fun member => ?_
    rw [Function.comp_apply, known burst member]
  · rw [List.length_map, Bursts.pending]
  · simp [hasPending]

/-- A burst waits with the moment of its latest record. -/
theorem Tells.stamped (tells : Tells bursts quiet history) (member : burst ∈ bursts.waiting)
    (found : concerns path burst = true) :
    ∃ earlier : List Record, ∃ record : Record,
      burstOf quiet path history = record :: earlier ∧ burst.latest = record.moment := by
  have waits := (tells.mem path).mp ⟨member, found⟩
  cases told : burstOf quiet path history with
  | nil => exact absurd waits (by simp [told, waitingFor])
  | cons record earlier =>
      rw [told, waitingFor, List.mem_singleton] at waits
      exact ⟨earlier, record, rfl, by rw [waits]⟩

end Distinct

section Released

variable (bursts) in
/-- The bursts that are released, in their order. -/
def released (now : Nat) : List Burst :=
  (bursts.waiting.filter (bursts.isReady now)).mergeSort fun left right => left.latest ≤ right.latest

theorem released_perm (bursts : Bursts) (now : Nat) :
    (bursts.released now).Perm (bursts.waiting.filter (bursts.isReady now)) :=
  List.mergeSort_perm _ _

theorem waits_of_released (member : burst ∈ bursts.released now) : burst ∈ bursts.waiting :=
  (List.mem_filter.mp ((released_perm bursts now).mem_iff.mp member)).1

theorem Tells.filter_released (tells : Tells bursts quiet history) (now : Nat) (path : Path) :
    (bursts.released now).filter (concerns path) =
      if isOver quiet now (burstOf quiet path history) then waitingFor (burstOf quiet path history)
      else [] := by
  have perm := (released_perm bursts now).filter (concerns path)
  rw [tells.ready now path] at perm
  cases passed : isOver quiet now (burstOf quiet path history) with
  | false => simpa [passed] using perm
  | true =>
      rw [passed, if_pos rfl] at perm
      rw [if_pos rfl]
      cases told : burstOf quiet path history with
      | nil => rw [told] at perm; exact perm.eq_nil
      | cons record earlier => rw [told] at perm; exact List.perm_singleton.mp perm

/-- Bursts are released in the order of their latest records. -/
theorem Tells.ordered (tells : Tells bursts quiet history) (increasing : Increasing history)
    (now : Nat) :
    (bursts.released now).Pairwise fun first second => first.latest < second.latest := by
  have sorted : (bursts.released now).Pairwise fun first second =>
      decide (first.latest ≤ second.latest) = true := by
    apply List.pairwise_mergeSort
    · intro one two three
      simpa using Nat.le_trans
    · intro one two
      simpa using Nat.le_total one.latest two.latest
  have apart : Distinct (bursts.released now) := by
    refine distinct_of_single fun path => ?_
    rw [tells.filter_released now path]
    split
    · rw [← tells.waits path]
      exact tells.single path
    · exact Nat.zero_le 1
  refine (sorted.and apart).imp_of_mem fun {first second} one two both => ?_
  obtain ⟨path, about⟩ := tells.about first (waits_of_released one)
  obtain ⟨other, named⟩ := tells.about second (waits_of_released two)
  have here : concerns path first = true := by rw [concerns_of_path about, Path.same_self]
  have there : concerns other second = true := by rw [concerns_of_path named, Path.same_self]
  obtain ⟨_, record, told, latest⟩ := tells.stamped (waits_of_released one) here
  obtain ⟨_, entry, also, later⟩ := tells.stamped (waits_of_released two) there
  refine Nat.lt_of_le_of_ne (by simpa using both.1) fun equal => ?_
  -- Two records of one moment are of one path, which is released only once.
  have same := increasing.apart (told ▸ List.mem_cons_self) (also ▸ List.mem_cons_self)
    (latest.symm.trans (equal.trans later))
  have none := both.2 path here
  rw [concerns_of_concerns there, same] at none
  exact absurd none (by simp)

end Released

section Verdict

theorem verdict_adds (latest : Record) (earlier : List Record) :
    adds (verdict latest earlier) = true ↔ ∃ entry ∈ latest :: earlier, adds entry.event = true := by
  unfold verdict
  cases found : (latest :: earlier).reverse.find? fun record => adds record.event with
  | some first =>
      have member := List.mem_reverse.mp (List.mem_of_find?_eq_some found)
      exact iff_of_true (of_found found) ⟨first, member, of_found found⟩
  | none =>
      have none (entry : Record) (member : entry ∈ latest :: earlier) : adds entry.event = false := by
        simpa using List.find?_eq_none.mp found entry (List.mem_reverse.mpr member)
      refine iff_of_false ?_ ?_
      · simp [none latest List.mem_cons_self]
      · rintro ⟨entry, member, first⟩
        exact absurd (first.symm.trans (none entry member)) (by simp)

theorem verdict_mem (latest : Record) (earlier : List Record) :
    ∃ entry ∈ latest :: earlier, verdict latest earlier = entry.event := by
  unfold verdict
  cases found : (latest :: earlier).reverse.find? fun record => adds record.event with
  | some first => exact ⟨first, List.mem_reverse.mp (List.mem_of_find?_eq_some found), rfl⟩
  | none => exact ⟨latest, List.mem_cons_self, rfl⟩

end Verdict

/-- What a burst counts as: added if one of its records was, and else changed. -/
def CountsAs (event : Event) (records : List Record) : Prop :=
  ((∃ path, event = .added path) ↔ ∃ record ∈ records, adds record.event = true) ∧
    ((∃ path, event = .changed path) ↔ ∀ record ∈ records, adds record.event = false)

theorem verdict_counts (told : burstOf quiet path history = latest :: earlier) :
    CountsAs (verdict latest earlier) (latest :: earlier) := by
  obtain ⟨entry, member, same⟩ := verdict_mem latest earlier
  rw [← told] at member
  obtain ⟨third, _, recorded⟩ := burstOf_recorded member
  have adding := verdict_adds latest earlier
  rw [same] at adding ⊢
  rcases recorded with ⟨event, _⟩ | ⟨event, _⟩
  · rw [event] at adding ⊢
    obtain ⟨first, within, added⟩ := adding.mp rfl
    constructor
    · exact iff_of_true ⟨third, rfl⟩ ⟨first, within, added⟩
    · refine iff_of_false (by simp) fun none => ?_
      exact absurd (added.symm.trans (none first within)) (by simp)
  · rw [event] at adding ⊢
    have none : ¬∃ record ∈ latest :: earlier, adds record.event = true := fun found =>
      absurd (adding.mpr found) (by simp [adds])
    constructor
    · exact iff_of_false (by simp) none
    · refine iff_of_true ⟨third, rfl⟩ fun record within => ?_
      cases added : adds record.event with
      | false => rfl
      | true => exact absurd ⟨record, within, added⟩ none

/-- What is taken at a moment after calls, and what is left. -/
structure Takes (quiet now : Nat) (history : History) (taken : List Event) (before left : Bursts) :
    Prop where
  /-- Of each path whose burst is over there is one event, of no other path there is any. -/
  each : ∀ path, if isOver quiet now (burstOf quiet path history) then
    ∃ event, taken.filter (regards path) = [event] ∧ CountsAs event (burstOf quiet path history)
    else taken.filter (regards path) = []
  about : ∀ event ∈ taken, ∃ path, regards path event = true
  /-- Events come in the order of the latest records of their paths. -/
  ordered : taken.Pairwise fun first second => ∀ path other,
    regards path first = true → regards other second = true →
    ∃ one two : Record, (burstOf quiet path history).head? = some one ∧
      (burstOf quiet other history).head? = some two ∧ one.moment < two.moment
  /-- What is not over waits as it did. -/
  rest : ∀ path, left.waiting.filter (concerns path) =
    if isOver quiet now (burstOf quiet path history) then []
    else before.waiting.filter (concerns path)
  waiting : Pending before quiet history
  remaining : Pending left quiet ((now, .taken) :: history)

/-- After any calls at increasing moments, exactly the bursts that are over are taken. -/
theorem take_exact (increasing : Increasing ((now, .taken) :: history)) :
    Takes quiet now history ((after quiet history).take now).1 (after quiet history)
      ((after quiet history).take now).2 := by
  have tells := tells_after quiet history
  have earlier : Increasing history := (List.pairwise_cons.mp increasing).2
  have filtered (path : Path) : ((after quiet history).take now).1.filter (regards path) =
      (((after quiet history).released now).filter (concerns path)).map Burst.event :=
    List.filter_map
  constructor
  · intro path
    rw [filtered path, tells.filter_released now path]
    cases told : burstOf quiet path history with
    | nil => rfl
    | cons latest older =>
        split
        · exact ⟨_, rfl, verdict_counts told⟩
        · rfl
  · intro event member
    obtain ⟨burst, within, rfl⟩ := List.mem_map.mp member
    obtain ⟨path, about⟩ := tells.about burst (waits_of_released within)
    exact ⟨path, (concerns_of_path about path).trans path.same_self⟩
  · rw [Bursts.take, List.pairwise_map]
    refine (tells.ordered earlier now).imp_of_mem fun {first second} one two before => ?_
    intro path other here there
    obtain ⟨_, record, told, latest⟩ := tells.stamped (waits_of_released one) here
    obtain ⟨_, entry, also, later⟩ := tells.stamped (waits_of_released two) there
    refine ⟨record, entry, by rw [told, List.head?_cons], by rw [also, List.head?_cons], ?_⟩
    rwa [← latest, ← later]
  · intro path
    rw [tells.left now path, tells.waits path]
  · exact tells.pending
  · exact (tells.released now).pending

/-- A path that changed after it was added, one that changed just now, and one that was removed. -/
def busyHistory : History :=
  [(6, .changed ⟨"b".toList⟩), (5, .removed ⟨"c".toList⟩), (4, .changed ⟨"./a".toList⟩),
    (3, .added ⟨"b".toList⟩), (2, .added ⟨"c".toList⟩), (1, .added ⟨"./a".toList⟩)]

theorem busy_taken : Increasing ((7, .taken) :: busyHistory) ∧
    Takes 2 7 busyHistory [.added ⟨"./a".toList⟩] (after 2 busyHistory)
      ((after 2 busyHistory).take 7).2 := by
  have increasing : Increasing ((7, .taken) :: busyHistory) := by
    simp [Increasing, busyHistory]
  have taken : ((after 2 busyHistory).take 7).1 = [.added ⟨"./a".toList⟩] := by decide +kernel
  exact ⟨increasing, taken ▸ take_exact increasing⟩

end Brewery.Bursts
