import Brewery.Session.Basic

/-!
What a session remembers, path by path. A record about one path says nothing about any other,
and the latest record about a path is the only one that counts. Paths are one here when their
components are.
-/

namespace Brewery

theorem Path.same_iff {left right : Path} :
    left.same right = true ↔ left.components = right.components := by
  simp [Path.same]

theorem Path.same_comm (left right : Path) : left.same right = right.same left := by
  simp [Path.same, eq_comm]

theorem Path.same_self (path : Path) : path.same path = true := by
  simp [Path.same]

-- Two spellings of one path are the same to every third path.
theorem Path.same_congr {left right : Path} (same : left.same right = true) (other : Path) :
    left.same other = right.same other := by
  rw [Path.same_iff] at same
  simp [Path.same, same]

theorem Path.same_through {left right : Path} (same : left.same right = true) (other : Path) :
    other.same right = left.same other := by
  rw [Path.same_comm, ← Path.same_congr same]

namespace Session

variable {session : Session} {path other : Path}

theorem find?_withoutEntry (entries : List (Path × Int)) (path other : Path) :
    (withoutEntry path entries).find? (fun entry => other.same entry.1) =
      if other.same path then none else entries.find? (fun entry => other.same entry.1) := by
  rw [withoutEntry, List.find?_filter]
  split
  · next same =>
      rw [List.find?_eq_none]
      intro entry _
      simp [Path.same_congr same]
  · next different =>
      congr 1
      funext entry
      cases hit : other.same entry.1 with
      | false => simp
      | true =>
          rw [Path.same_through hit path]
          simpa using different

theorem writtenAt?_forgetWrite (session : Session) (path other : Path) :
    (session.forgetWrite path).writtenAt? other =
      if other.same path then none else session.writtenAt? other := by
  rw [writtenAt?, forgetWrite]
  simp only
  rw [find?_withoutEntry]
  split <;> rfl

theorem writtenAt?_recordRemoval (session : Session) (path other : Path) :
    (session.recordRemoval path).writtenAt? other =
      if other.same path then none else session.writtenAt? other :=
  writtenAt?_forgetWrite session path other

theorem writtenAt?_recordWrite {disk : Disk} {stamp : Int} (stamped : disk.stamp? path = some stamp)
    (session : Session) (other : Path) : (session.recordWrite disk path).writtenAt? other =
      if other.same path then some stamp else session.writtenAt? other := by
  unfold writtenAt? recordWrite
  simp only [stamped, List.find?_cons]
  cases same : other.same path with
  | true => simp
  | false => simp [find?_withoutEntry, same]

theorem recordWrite_same (session : Session) (disk : Disk) (path : Path) :
    (session.recordWrite disk path).options = session.options ∧
      (session.recordWrite disk path).phase = session.phase ∧
      (session.recordWrite disk path).counters = session.counters := by
  unfold recordWrite
  simp only
  split <;> exact ⟨rfl, rfl, rfl⟩

theorem counters_recorded (session : Session) (disk : Disk) (path : Path) :
    (session.recordWrite disk path).countProcessed.counters =
      ⟨session.counters.processed + 1, session.counters.executed⟩ := by
  simp [countProcessed, (recordWrite_same session disk path).2.2]

theorem any_without (path other : Path) (paths : List Path) :
    (without path paths).any other.same = (paths.any other.same && !other.same path) := by
  rw [without, List.any_filter]
  cases same : other.same path with
  | true =>
      rw [Bool.not_true, Bool.and_false, List.any_eq_false]
      intro found _
      simp [Path.same_congr same]
  | false =>
      rw [Bool.not_false, Bool.and_true]
      congr 1
      funext found
      cases hit : other.same found with
      | false => simp
      | true => rw [Path.same_through hit path, same]; rfl

theorem isOwnRemoval_forgetRemoval (session : Session) (path other : Path) :
    (session.forgetRemoval path).isOwnRemoval other =
      (session.isOwnRemoval other && !other.same path) :=
  any_without path other session.removed

theorem isOwnRemoval_recordRemoval (session : Session) (path other : Path) :
    (session.recordRemoval path).isOwnRemoval other =
      (other.same path || session.isOwnRemoval other) := by
  rw [isOwnRemoval, recordRemoval, List.any_cons, any_without, isOwnRemoval]
  cases other.same path <;> simp

theorem isOwnRemoval_recordWrite (session : Session) (disk : Disk) (path other : Path) :
    (session.recordWrite disk path).isOwnRemoval other =
      (session.isOwnRemoval other && !other.same path) := by
  rw [← isOwnRemoval_forgetRemoval]
  unfold recordWrite
  simp only
  split <;> rfl

/-- A source that is newer than its artifact asks for a new one. -/
theorem needsRebuild_newer {disk : Disk} {source artifact : Path} {made : Int}
    (stamped : disk.stamp? source = some made)
    (older : ∀ kept, disk.stamp? artifact = some kept → kept < made) (session : Session) :
    session.needsRebuild disk source artifact = true := by
  unfold needsRebuild
  split
  · rfl
  · rw [stamped]
    cases known : disk.stamp? artifact with
    | none => rfl
    | some kept => simpa using older kept known

/-- All that a session remembers is about paths of one sort. -/
def Knows (known : Path → Prop) (session : Session) : Prop :=
  (∀ entry ∈ session.written, known entry.1) ∧ ∀ path ∈ session.removed, known path

variable {known : Path → Prop}

theorem Knows.recordWrite (knows : session.Knows known) (disk : Disk) (new : known path) :
    (session.recordWrite disk path).Knows known := by
  have older : ∀ found ∈ without path session.removed, known found :=
    fun found member => knows.2 found (List.mem_filter.mp member).1
  unfold Session.recordWrite
  simp only
  split
  · refine ⟨fun entry member => ?_, older⟩
    rcases List.mem_cons.mp member with rfl | member
    · exact new
    · exact knows.1 entry (List.mem_filter.mp member).1
  · exact ⟨knows.1, older⟩

theorem Knows.forgetWrite (knows : session.Knows known) (path : Path) :
    (session.forgetWrite path).Knows known :=
  ⟨fun entry member => knows.1 entry (List.mem_filter.mp member).1, knows.2⟩

theorem Knows.forgetRemoval (knows : session.Knows known) (path : Path) :
    (session.forgetRemoval path).Knows known :=
  ⟨knows.1, fun found member => knows.2 found (List.mem_filter.mp member).1⟩

theorem Knows.recordRemoval (knows : session.Knows known) (new : known path) :
    (session.recordRemoval path).Knows known := by
  refine ⟨(knows.forgetWrite path).1, fun found member => ?_⟩
  rcases List.mem_cons.mp member with rfl | member
  · exact new
  · exact knows.2 found (List.mem_filter.mp member).1

-- A path of which nothing is known is nobody's but the user's.
theorem Knows.foreign (knows : session.Knows known)
    (apart : ∀ found, known found → path.same found = false) (disk : Disk) :
    session.isOwnWrite disk path = false ∧ session.isOwnRemoval path = false := by
  constructor
  · have none : session.writtenAt? path = none := by
      rw [writtenAt?, Option.map_eq_none_iff, List.find?_eq_none]
      intro entry member
      simp [apart entry.1 (knows.1 entry member)]
    simp [isOwnWrite, none]
  · rw [isOwnRemoval, List.any_eq_false]
    intro found member
    simp [apart found (knows.2 found member)]

end Session
end Brewery
