import Brewery.Proofs.Script.BlockString
import Brewery.Proofs.Script.Cycle
import Brewery.Proofs.Script.Seam

/-!
The line that an error names. An expansion goes through a file line by line and stops at the first
that it cannot get over, so the lines above that one expand by themselves, and the logical line that
begins there is the directive or the opening of the block that the error is about.
-/

namespace Brewery.Script

open Text

variable {name first : Text} {number : Nat} {lines rest below : List Text} {taken : Taken}

theorem close?_eq_none_iff {closes : Text → Bool} :
    close? closes lines = none ↔ ∀ line ∈ lines, closes line = false := by
  induction lines with
  | nil => simp [close?]
  | cons line rest ih =>
      rw [close?, List.forall_mem_cons]
      cases last : closes line with
      | true => simp
      | false => simpa using ih

theorem Stops.of_prefix (stops : Stops lines) (begins : below <+: lines) : Stops below := by
  obtain ⟨more, rfl⟩ := begins
  cases below with
  | nil => exact fun next first => absurd first (by simp)
  | cons line rest => exact stops

section Kinds

variable {line next : Nat} {directive indent target : Text} {after : List Text}

-- A block without an end says so of its opening line, and no line behind it closes it.
theorem settleBlock_unterminated {closes : Text → Bool} {item : List Text → Text → Item}
    {logical : Gathered} (whole : ∀ content closing, (item content closing).Whole)
    (found : settleBlock closes item number logical = ⟨.unterminated line directive, next, after⟩) :
    line = number ∧ directive = trim logical.line ∧ ∀ later ∈ logical.rest, closes later = false := by
  unfold settleBlock at found
  split at found
  · next none =>
      cases found
      exact ⟨rfl, rfl, close?_eq_none_iff.mp none⟩
  · next content closing after _ =>
      have same := congrArg Taken.item found
      exact absurd same (whole content closing line directive)

theorem take?_inclusion (found : take? name number (first :: rest) =
      some ⟨.inclusion line directive indent target, next, after⟩) :
    line = number ∧ directive = trim (logicalLine name number first rest).line ∧
      classify (logicalLine name number first rest).line = .inclusion indent target := by
  rw [take?_cons, settle] at found
  cases kind : classify (logicalLine name number first rest).line with
  | inclusion indent target =>
      rw [kind] at found
      cases found
      exact ⟨rfl, rfl, rfl⟩
  | literal head tag =>
      simp only [kind, settleBlock] at found
      split at found <;> exact absurd found (by simp)
  | blockString =>
      simp only [kind, settleBlock] at found
      split at found <;> exact absurd found (by simp)
  | _ =>
      rw [kind] at found
      exact absurd found (by simp)

theorem take?_unterminated (found : take? name number (first :: rest) =
      some ⟨.unterminated line directive, next, after⟩) :
    line = number ∧ directive = trim (logicalLine name number first rest).line ∧
      ((∃ head tag, classify (logicalLine name number first rest).line = .literal head tag ∧
        ∀ later ∈ (logicalLine name number first rest).rest, trim later ≠ tag) ∨
      classify (logicalLine name number first rest).line = .blockString ∧
        ∀ later ∈ (logicalLine name number first rest).rest, ¬blockQuote <:+: later) := by
  rw [take?_cons, settle] at found
  cases kind : classify (logicalLine name number first rest).line with
  | literal head tag =>
      rw [kind] at found
      obtain ⟨own, spelled, open_⟩ := settleBlock_unterminated
        (fun _ _ _ _ same => by cases same) (Option.some.inj found)
      refine ⟨own, spelled, Or.inl ⟨head, tag, rfl, fun later member => ?_⟩⟩
      exact of_decide_eq_false (open_ later member)
  | blockString =>
      rw [kind] at found
      obtain ⟨own, spelled, open_⟩ := settleBlock_unterminated
        (fun _ _ _ _ same => by cases same) (Option.some.inj found)
      refine ⟨own, spelled, Or.inr ⟨rfl, fun later member quotes => ?_⟩⟩
      have closes : closesBlockString later = true := contains_iff_infix.mpr quotes
      exact absurd (closes.symm.trans (open_ later member)) (by simp)
  | _ =>
      rw [kind] at found
      exact absurd found (by simp)

end Kinds

/-- The lines above others, read: they are the same items whatever further lines of the script follow,
and those are read as if they began there. -/
structure Above (name : Text) (lines above : List Text) (number : Nat) (rest : List Text) : Prop where
  split : lines = above ++ rest
  counted : number = above.length + 1
  apart : ∀ front, front <+: rest →
    items name 1 (above ++ front) = items name 1 above ++ items name number front

theorem above_nil (name : Text) (lines : List Text) : Above name lines [] 1 lines where
  split := rfl
  counted := rfl
  apart := fun front _ => by rw [items_nil]; rfl

/-- Over an item that is whole the reader goes with all of its lines. -/
theorem Above.next {above : List Text} (read : Above name lines above number rest)
    (found : take? name number rest = some taken) (whole : taken.item.Whole) :
    ∃ more, Above name lines (above ++ more) taken.number taken.rest ∧
      items name 1 (above ++ more) = items name 1 above ++ [taken.item] := by
  obtain ⟨used, split, total, again⟩ := take?_elsewhere found whole
  have onward (front : List Text) (begins : front <+: taken.rest) :
      items name 1 (above ++ used ++ front) =
        items name 1 above ++ taken.item :: items name taken.number front := by
    have inside : used ++ front <+: rest := by
      rw [split]
      exact (List.prefix_append_right_inj used).mpr begins
    rw [List.append_assoc, read.apart _ inside, items_eq_take name number,
      again fun stops => stops.of_prefix begins]
  have here : items name 1 (above ++ used) = items name 1 above ++ [taken.item] := by
    simpa using onward [] List.nil_prefix
  refine ⟨used, ⟨?_, ?_, fun front begins => ?_⟩, here⟩
  · rw [List.append_assoc, ← split, read.split]
  · rw [total, read.counted, List.length_append]
    omega
  · rw [onward front begins, here, List.append_assoc, List.singleton_append]

section Lines

variable {script : Text} {above : List Text}

/-- Lines with their newlines are the lines of a text, unless they are one empty line. -/
theorem physicalLines_flatMap {lines : List Text} (free : ∀ line ∈ lines, '\n' ∉ line) :
    physicalLines (lines.flatMap (· ++ ['\n'])) = if lines = [[]] then [] else lines := by
  by_cases none : lines = []
  · subst none
    rfl
  rw [flatMap_lines none]
  by_cases empty : lines = [[]]
  · subst empty
    rfl
  · rw [if_neg empty, physicalLines_closed none free empty]

theorem joinWith_flatMap (separator first : Text) (rest above : List Text) :
    joinWith separator (above ++ first :: rest) =
      above.flatMap (· ++ separator) ++ joinWith separator (first :: rest) := by
  induction above with
  | nil => rfl
  | cons line above ih =>
      rw [List.cons_append, joinWith_cons _ _ (by simp), ih, List.flatMap_cons]
      simp only [List.append_assoc]

theorem flatMap_above (lines : physicalLines script = above ++ first :: rest) :
    above.flatMap (· ++ ['\n']) <+: script := by
  have some : physicalLines script ≠ [] := by
    rw [lines]
    simp
  obtain ⟨finish, whole⟩ := joinWith_physicalLines some
  rw [lines, joinWith_flatMap, List.append_assoc] at whole
  exact ⟨_, whole.symm⟩

end Lines

end Brewery.Script

namespace Brewery.Expander

open Script

variable {expander : Expander} {disk : Disk} {here : Standing} {text : Text} {origin : Path}
  {fault : ExpandError}

/-- The text that is expanded as a file: the given text as its origin, and what the disk holds as
any other file. -/
def scriptOf (disk : Disk) (text : Text) (origin file : Path) : Except Fault Text :=
  if file = origin then .ok text else disk.readText file

/-- What is wrong with a logical line that begins on the line of the given number. -/
inductive Offends (expander : Expander) (disk : Disk) (file : Path) (number : Nat)
    (logical : Gathered) : ExpandError → Prop where
  | missing {indent target : Text} (kind : classify logical.line = .inclusion indent target)
      (nowhere : ∀ candidate ∈ expander.candidates file target, disk.isFile candidate = false) :
      Offends expander disk file number logical (.missingInclude file number (Text.trim logical.line))
  | cycle {indent target : Text} {chain : List Path}
      (kind : classify logical.line = .inclusion indent target) :
      Offends expander disk file number logical
        (.includeCycle file number (Text.trim logical.line) chain)
  | literal {head tag : Text} (kind : classify logical.line = .literal head tag)
      (open_ : ∀ later ∈ logical.rest, Text.trim later ≠ tag) :
      Offends expander disk file number logical
        (.unterminatedLiteral file number (Text.trim logical.line))
  | blockString (kind : classify logical.line = .blockString)
      (open_ : ∀ later ∈ logical.rest, ¬blockQuote <:+: later) :
      Offends expander disk file number logical
        (.unterminatedLiteral file number (Text.trim logical.line))

theorem findInclude_eq_none_iff {target : Text} : expander.findInclude disk origin target = none ↔
    ∀ candidate ∈ expander.candidates origin target, disk.isFile candidate = false := by
  simp [findInclude, Disk.isFile]

/-- The lines of the present file above a standing have been expanded. -/
structure Standing.Advanced (here : Standing) (expander : Expander) (disk : Disk) (text : Text)
    (origin : Path) (script : Text) (above : List Text) : Prop where
  own : scriptOf disk text origin here.origin = .ok script
  read : Above here.origin.displayName (physicalLines script) above here.number here.lines
  expands : ∃ out, expander.expandItems disk here.stack here.origin
    (items here.origin.displayName 1 above) = .ok out

-- The file of the origin is on the stack from the beginning, so it is gone into no more.
theorem Reached.entered_other {number : Nat} {directive indent : Text} {path : Path} {place : Place}
    {contents : Contents} (reached : Reached expander disk text origin here)
    (includes : here.Includes expander disk number directive indent path place contents)
    (fresh : onStack here.stack place.path = false) : path ≠ origin := by
  rintro rfl
  have bottom : place.path ∈ here.stack := by
    rw [← stackEntry_file includes.file]
    exact List.mem_of_head? reached.linked.first
  have again : onStack here.stack place.path = true :=
    List.any_eq_true.mpr ⟨_, bottom, by simp [Path.same]⟩
  exact absurd (again.symm.trans fresh) (by simp)

-- Going on over an item moves the seam behind it; going into a file begins above its first line.
theorem Reached.advanced (reached : Reached expander disk text origin here) :
    ∃ script above, here.Advanced expander disk text origin script above := by
  induction reached with
  | refl =>
      refine ⟨text, [], if_pos rfl, above_nil _ _, [], ?_⟩
      rw [items_nil, expandItems_nil]
  | @tail here there reached step ih =>
      obtain ⟨script, above, own, read, out, expands⟩ := ih
      cases step with
      | @pass taken more next single =>
          have whole : taken.item.Whole := by
            intro number directive open_
            rw [open_, expandItems] at single
            exact absurd single (by simp)
          obtain ⟨further, onward, items⟩ := read.next next whole
          refine ⟨script, above ++ further, own, onward, out ++ more, ?_⟩
          simp only [Standing.past]
          rw [items, expandItems_append, expands, single]
          rfl
      | @enter number directive indent path place raw includes fresh =>
          refine ⟨raw, [], ?_, above_nil _ _, [], ?_⟩
          · rw [Standing.inside, scriptOf, if_neg (Reached.entered_other reached includes fresh)]
            exact Disk.readText_of_file? includes.file
          · rw [items_nil, expandItems_nil]

/-- The lines above a standing expand by themselves as well. -/
theorem Reached.cut {script : Text} {above : List Text}
    (reached : Reached expander disk text origin here)
    (advanced : here.Advanced expander disk text origin script above) :
    ∃ out, expander.expandText disk (above.flatMap (· ++ ['\n'])) here.origin = .ok out := by
  obtain ⟨out, expands⟩ := advanced.expands
  -- By itself the file stands on a shorter stack, and a shorter stack can only spare a cycle.
  have within (path : Path) (active : onStack [stackEntry disk here.origin] path = true) :
      onStack here.stack path = true := by
    have last := List.mem_of_getLast? reached.linked.last
    have same : Path.same path (stackEntry disk here.origin) = true := by
      simpa [onStack] using active
    exact List.any_eq_true.mpr ⟨_, last, same⟩
  have alone : expander.expandItems disk [stackEntry disk here.origin] here.origin
      (items here.origin.displayName 1 above) = .ok out := by
    rcases expandItems_follows within with same | ⟨_, _, _, _, cyclic⟩
    · exact same.symm.trans expands
    · exact absurd (expands.symm.trans cyclic) (by simp)
  have free : ∀ line ∈ above, '\n' ∉ line := by
    intro line member
    have inside : line ∈ physicalLines script := by
      rw [advanced.read.split]
      exact List.mem_append_left _ member
    exact physicalLines_free inside
  rw [expandText, expandLines, itemsOf, physicalLines_flatMap free]
  split
  · exact ⟨[], by rw [items_nil, expandItems_nil]; rfl⟩
  · exact ⟨OutLine.render out, by rw [alone]; rfl⟩

theorem Meets.offends {number : Nat} (meets : Meets expander disk here fault)
    (located : fault.line? = some number) : ∃ first rest, here.lines = first :: rest ∧
      here.number = number ∧ here.origin = fault.file ∧
      Offends expander disk here.origin number
        (logicalLine here.origin.displayName number first rest) fault := by
  have lines {taken : Taken} (next : here.next? = some taken) :
      ∃ first rest, here.lines = first :: rest ∧
        take? here.origin.displayName here.number (first :: rest) = some taken := by
    obtain ⟨first, rest, shape, _⟩ := take?_suffix next
    refine ⟨first, rest, shape, ?_⟩
    rw [← shape]
    exact next
  cases meets with
  | unterminated taken =>
      obtain ⟨first, rest, shape, found⟩ := lines taken
      cases located
      obtain ⟨rfl, rfl, ⟨head, tag, kind, open_⟩ | ⟨kind, open_⟩⟩ := take?_unterminated found
      · exact ⟨first, rest, shape, rfl, rfl, .literal kind open_⟩
      · exact ⟨first, rest, shape, rfl, rfl, .blockString kind open_⟩
  | missing taken absent =>
      obtain ⟨first, rest, shape, found⟩ := lines taken
      cases located
      obtain ⟨rfl, rfl, kind⟩ := take?_inclusion found
      exact ⟨first, rest, shape, rfl, rfl, .missing kind (findInclude_eq_none_iff.mp absent)⟩
  | cycle includes active =>
      obtain ⟨target, last, after, taken, _⟩ := includes
      obtain ⟨first, rest, shape, found⟩ := lines taken
      cases located
      obtain ⟨rfl, rfl, kind⟩ := take?_inclusion found
      exact ⟨first, rest, shape, rfl, rfl, .cycle kind⟩
  | unreadable includes fresh => exact absurd located (by simp [ExpandError.line?])

/-- An error with a line names the first line of a file that its expansion cannot get over: the
lines above it expand by themselves, and the logical line that begins on it is what the error says. -/
theorem error_first {number : Nat} (fails : expander.expandText disk text origin = .error fault)
    (located : fault.line? = some number) :
    ∃ script above first rest, scriptOf disk text origin fault.file = .ok script ∧
      physicalLines script = above ++ first :: rest ∧ number = above.length + 1 ∧
      Offends expander disk fault.file number
        (logicalLine fault.file.displayName number first rest) fault ∧
      above.flatMap (· ++ ['\n']) <+: script ∧
      ∃ out, expander.expandText disk (above.flatMap (· ++ ['\n'])) fault.file = .ok out := by
  obtain ⟨here, reached, meets⟩ := expandText_eq_error_iff.mp fails
  obtain ⟨script, above, advanced⟩ := reached.advanced
  obtain ⟨first, rest, shape, counted, file, offends⟩ := meets.offends located
  have lines := advanced.read.split
  rw [shape] at lines
  have cut := reached.cut advanced
  rw [file] at offends cut
  refine ⟨script, above, first, rest, ?_, lines, ?_, offends, flatMap_above lines, cut⟩
  · rw [← file]
    exact advanced.own
  · rw [← counted]
    exact advanced.read.counted

section Broken

/-- A block that is opened on a line that goes on, and that no line below closes. -/
def brokenText : Text := "x = 1\ns = \\\n  <<<END\nbody\n".toList

def brokenDisk : Disk where
  nodes := [(["a".toList], .file (.text brokenText) 0)]
  current := []
  clock := 0

def includingText : Text := "include a\n".toList

theorem broken_includes : (Standing.outset brokenDisk includingText innerPath).Includes plain
    brokenDisk 1 "include a".toList [] outerPath ["a".toList] (.text brokenText) :=
  ⟨"a".toList, 2, [], by decide +kernel, findInclude_first rfl (outer_held rfl)⟩

/-- Behind the first line of the file that is included. -/
def atBroken : Standing :=
  ((Standing.outset brokenDisk includingText innerPath).inside [] outerPath ["a".toList]
    brokenText).past ⟨.code "x = 1".toList, 2, (physicalLines brokenText).drop 1⟩
      [⟨.code, "x = 1".toList⟩]

theorem atBroken_reached : Reached plain brokenDisk includingText innerPath atBroken := by
  have fresh : onStack (Standing.outset brokenDisk includingText innerPath).stack
      (Place.path ["a".toList]) = false := by decide +kernel
  have entered := Relation.ReflTransGen.single (Step.enter broken_includes fresh)
  exact entered.tail (.pass (by decide +kernel) (expandItems_code _))

theorem broken_fails : plain.expandText brokenDisk includingText innerPath =
    .error (.unterminatedLiteral outerPath 2 "s = <<<END".toList) := by
  have next : atBroken.next? = some ⟨.unterminated 2 "s = <<<END".toList, 4, []⟩ := by
    decide +kernel
  exact expandText_eq_error_iff.mpr ⟨atBroken, atBroken_reached, .unterminated next⟩

theorem broken_first : ∃ above first rest, physicalLines brokenText = above ++ first :: rest ∧
    2 = above.length + 1 ∧
    Offends plain brokenDisk outerPath 2 (logicalLine outerPath.displayName 2 first rest)
      (.unterminatedLiteral outerPath 2 "s = <<<END".toList) ∧
    above.flatMap (· ++ ['\n']) <+: brokenText ∧
    ∃ out, plain.expandText brokenDisk (above.flatMap (· ++ ['\n'])) outerPath = .ok out := by
  obtain ⟨script, above, first, rest, held, error⟩ := error_first broken_fails rfl
  have own : scriptOf brokenDisk includingText innerPath outerPath = .ok brokenText := by
    rw [scriptOf, if_neg (by decide +kernel)]
    exact Disk.readText_of_file? broken_includes.file
  cases held.symm.trans own
  exact ⟨above, first, rest, error⟩

end Broken

end Brewery.Expander
