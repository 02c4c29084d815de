import Brewery.Proofs.Script.Probing
import Brewery.Proofs.Script.Seam

/-!
The end marker. A line that goes on is never joined with it, and above it every block is closed, so
the reader comes to it with nothing in hand and stops. What stands below it is no part of the
script: it is not expanded, and it leads to no file.
-/

namespace Brewery.Script

open Text

variable {name marker above : Text} {number : Nat} {lines below : List Text}

theorem Stops.marked (marks : trim marker = endMarker) (below : List Text) :
    Stops (marker :: below) := by
  intro next first
  cases first
  exact marks

theorem Stops.before (stops : Stops lines) (further : Stops below) : Stops (lines ++ below) := by
  cases lines with
  | nil => exact further
  | cons line rest => exact stops

-- Where a script has ended, it has ended with further lines below as well.
theorem take?_none_before {first : Text} {rest : List Text}
    (ends : take? name number (first :: rest) = none) (stops : Stops below) :
    take? name number (first :: (rest ++ below)) = none := by
  rw [take?_eq_none_iff] at ends ⊢
  obtain ⟨joined, split, _, again⟩ := logicalLine_alike name number first rest
  have same := again (alike_refl (first :: joined)) fun goes stays =>
    (logicalLine_left goes stays).before stops
  rw [← List.append_assoc, ← split, Nat.add_zero] at same
  rw [same]
  exact ends

/-- Below lines in which every block is closed, the marker and all that follows it are no items. -/
theorem items_before (whole : ∀ item ∈ items name number lines, item.Whole) (stops : Stops below)
    (free : ∀ line ∈ below, '\n' ∉ line) :
    items name number (lines ++ below) = items name number lines := by
  induction size : lines.length using Nat.strong_induction_on generalizing number lines with
  | _ length ih =>
      subst size
      cases lines with
      | nil => rw [List.nil_append, items_of_stops stops free, items_nil]
      | cons first rest =>
          rw [items_eq_take, items_eq_take name number (first :: rest)]
          cases found : take? name number (first :: rest) with
          | none =>
              rw [List.cons_append, take?_none_before found stops]
          | some taken =>
              rw [items_eq_take, found] at whole
              obtain ⟨own, further⟩ := List.forall_mem_cons.mp whole
              obtain ⟨used, split, _, again⟩ := take?_elsewhere found own
              have same := again fun left => left.before stops
              rw [← List.append_assoc, ← split] at same
              rw [same]
              exact congrArg (taken.item :: ·) (ih _ (take?_shorter found) further rfl)

theorem items_empty_line (name : Text) (number : Nat) : items name number [[]] = [.blank] := by
  have line : logicalLine name number [] [] = ⟨[], number + 1, []⟩ := by
    simp [logicalLine, substitute, continues, trimEnd]
  have kind : classify [] = .blank := by decide +kernel
  rw [items_eq_take]
  simp [take?, line, kind]

section Lines

/-- The lines of a text above a newline are lines whatever stands below it. -/
theorem physicalLines_above (some : above ≠ []) (below : Text) :
    ∃ more, physicalLines (above ++ '\n' :: below) = splitAt '\n' above ++ more := by
  rcases List.eq_nil_or_concat below with rfl | ⟨front, c, rfl⟩
  · refine ⟨[], ?_⟩
    rw [physicalLines_newline, if_neg some, List.append_nil]
  · rw [List.concat_eq_append]
    by_cases ended : c = '\n'
    · subst ended
      refine ⟨splitAt '\n' front, ?_⟩
      have shape : above ++ '\n' :: (front ++ ['\n']) = above ++ '\n' :: front ++ ['\n'] := by simp
      rw [shape, physicalLines_newline, if_neg (by simp), splitAt_append]
    · refine ⟨splitAt '\n' (front ++ [c]), ?_⟩
      have shape : above ++ '\n' :: (front ++ [c]) = above ++ '\n' :: front ++ [c] := by simp
      rw [shape, physicalLines_open ended, List.append_assoc, List.cons_append, splitAt_append]

/-- The line of the marker comes behind the lines of a text that ends in a newline; an empty line
that is all of the text counts only there. -/
theorem physicalLines_marked (ended : above = [] ∨ above.getLast? = some '\n') (written : marker ≠ [])
    (free : '\n' ∉ marker) :
    ∃ lines, (above ≠ ['\n'] ∧ physicalLines above = lines ∨ above = ['\n'] ∧ lines = [[]]) ∧
      ∀ below, ∃ more, physicalLines (above ++ marker ++ '\n' :: below) = lines ++ marker :: more := by
  have some : above ++ marker ≠ [] := List.append_ne_nil_of_right_ne_nil above written
  have alone : splitAt '\n' marker = [marker] := splitAt_of_not_mem free
  rcases ended with rfl | last
  · refine ⟨[], Or.inl ⟨by simp, rfl⟩, fun below => ?_⟩
    obtain ⟨more, shape⟩ := physicalLines_above some below
    rw [List.nil_append, alone] at shape
    exact ⟨more, shape⟩
  · obtain ⟨body, rfl⟩ := List.getLast?_eq_some_iff.mp last
    refine ⟨splitAt '\n' body, ?_, fun below => ?_⟩
    · rw [physicalLines_newline]
      by_cases empty : body = []
      · subst empty
        exact Or.inr ⟨rfl, rfl⟩
      · exact Or.inl ⟨by simpa using empty, if_neg empty⟩
    · obtain ⟨more, shape⟩ := physicalLines_above some below
      have seam : body ++ ['\n'] ++ marker = body ++ '\n' :: marker := by simp
      have parts : splitAt '\n' (body ++ ['\n'] ++ marker) = splitAt '\n' body ++ [marker] := by
        rw [seam, splitAt_append, alone]
      rw [parts] at shape
      refine ⟨more, shape.trans ?_⟩
      rw [List.append_assoc, List.singleton_append]

/-- A line of the end marker below a text in which every block is closed: the script is that text,
and the empty line if it is nothing else. -/
theorem itemsOf_marked {marker : Text} (below : Text) (ended : above = [] ∨ above.getLast? = some '\n')
    (whole : ∀ item ∈ itemsOf name above, item.Whole) (marks : trim marker = endMarker)
    (free : '\n' ∉ marker) : itemsOf name (above ++ marker ++ '\n' :: below) =
      if above = ['\n'] then [.blank] else itemsOf name above := by
  have written : marker ≠ [] := by
    rintro rfl
    exact absurd marks (by decide)
  obtain ⟨lines, front, shape⟩ := physicalLines_marked ended written free
  obtain ⟨more, split⟩ := shape below
  have flat : ∀ line ∈ marker :: more, '\n' ∉ line := by
    intro line member
    have inside : line ∈ physicalLines (above ++ marker ++ '\n' :: below) := by
      rw [split]
      exact List.mem_append_right _ member
    exact physicalLines_free inside
  rw [itemsOf, split]
  rcases front with ⟨other, rfl⟩ | ⟨rfl, rfl⟩
  · rw [if_neg other, items_before whole (.marked marks more) flat, itemsOf]
  · rw [if_pos rfl, items_before _ (.marked marks more) flat, items_empty_line]
    rw [items_empty_line]
    rintro item member number directive rfl
    exact absurd member (by simp)

end Lines

end Brewery.Script

namespace Brewery.Expander

open Script

variable {expander : Expander} {disk other : Disk} {here there : Standing} {text script : Text}
  {origin : Path}

/-- Two standings that have the same items before them in the same file. -/
structure Standing.Abreast (here there : Standing) : Prop where
  stack : there.stack = here.stack
  origin : there.origin = here.origin
  ahead : items there.origin.displayName there.number there.lines =
    items here.origin.displayName here.number here.lines

-- What is taken in one of them is taken in the other, and they are abreast behind it.
theorem Standing.Abreast.next {taken : Taken} (abreast : here.Abreast there)
    (next : here.next? = some taken) : ∃ last rest, there.next? = some ⟨taken.item, last, rest⟩ ∧
      ∀ out, (here.past taken out).Abreast (there.past ⟨taken.item, last, rest⟩ out) := by
  obtain ⟨stack, origin, ahead⟩ := abreast
  rw [origin] at ahead
  obtain ⟨last, rest, again, further⟩ := take?_of_items next ahead
  refine ⟨last, rest, ?_, fun out => ⟨stack, origin, ?_⟩⟩
  · rw [Standing.next?, origin]
    exact again
  · simp only [Standing.past, origin]
    exact further

theorem Standing.Abreast.includes {number : Nat} {directive indent : Text} {path : Path}
    {place : Place} {contents : Contents} (abreast : here.Abreast there)
    (includes : here.Includes expander disk number directive indent path place contents) :
    there.Includes expander disk number directive indent path place contents := by
  obtain ⟨target, _, _, next, found⟩ := includes
  obtain ⟨last, rest, again, _⟩ := abreast.next next
  refine ⟨target, last, rest, again, ?_⟩
  rw [abreast.origin]
  exact found

theorem Standing.Abreast.step {onward : Standing} (abreast : here.Abreast there)
    (step : Step expander disk here onward) :
    ∃ beside, Step expander disk there beside ∧ onward.Abreast beside := by
  cases step with
  | @pass taken out next expands =>
      obtain ⟨last, rest, again, further⟩ := abreast.next next
      refine ⟨_, .pass again ?_, further out⟩
      rw [abreast.stack, abreast.origin]
      exact expands
  | @enter number directive indent path place raw includes fresh =>
      refine ⟨there.inside indent path place raw, .enter (abreast.includes includes) ?_, ?_⟩
      · rw [abreast.stack]
        exact fresh
      · refine ⟨?_, rfl, rfl⟩
        simp only [Standing.inside, abreast.stack]

/-- Texts with the same items are gone through side by side. -/
theorem Reached.abreast (same : itemsOf origin.displayName script = itemsOf origin.displayName text)
    (reached : Reached expander disk text origin here) :
    ∃ there, Reached expander disk script origin there ∧ here.Abreast there := by
  induction reached with
  | refl => exact ⟨.outset disk script origin, .refl, rfl, rfl, same⟩
  | tail _ step ih =>
      obtain ⟨there, reached, abreast⟩ := ih
      obtain ⟨beside, onward, further⟩ := abreast.step step
      exact ⟨beside, reached.tail onward, further⟩

theorem Probed.of_items {candidate : Path}
    (same : itemsOf origin.displayName script = itemsOf origin.displayName text)
    (probed : Probed expander disk text origin candidate) :
    Probed expander disk script origin candidate := by
  obtain ⟨here, number, directive, indent, target, _, _, reached, next, member⟩ := probed
  obtain ⟨there, again, abreast⟩ := reached.abreast same
  obtain ⟨last, rest, taken, _⟩ := abreast.next next
  refine ⟨there, number, directive, indent, target, last, rest, again, taken, ?_⟩
  rw [abreast.origin]
  exact member

-- Without a directive an expansion comes to none.
theorem Reached.free (free : IncludeFree origin text)
    (reached : Reached expander disk text origin here) :
    ∀ item ∈ items here.origin.displayName here.number here.lines,
      ∀ number directive indent target, item ≠ .inclusion number directive indent target := by
  induction reached with
  | refl => exact free
  | @tail here there reached step ih =>
      rw [items_eq_take] at ih
      cases step with
      | @pass taken out next expands =>
          rw [show take? _ _ _ = some taken from next] at ih
          exact fun item member => ih item (List.mem_cons_of_mem _ member)
      | @enter number directive indent path place raw includes fresh =>
          obtain ⟨target, last, rest, next, found⟩ := includes
          rw [show take? _ _ _ = some _ from next] at ih
          exact absurd rfl (ih _ List.mem_cons_self number directive indent target)

theorem not_probed_of_free {candidate : Path} (free : IncludeFree origin text) :
    ¬Probed expander disk text origin candidate := by
  rintro ⟨here, number, directive, indent, target, last, rest, reached, next, _⟩
  have none := reached.free free
  rw [items_eq_take, show take? _ _ _ = some _ from next] at none
  exact absurd rfl (none _ List.mem_cons_self number directive indent target)

theorem expandText_of_same {disk : Disk}
    (same : itemsOf origin.displayName script = itemsOf origin.displayName text) :
    expander.expandText disk script origin = expander.expandText disk text origin := by
  rw [expandText, expandText, expandLines, expandLines, same]

/-- A text that ends in a newline and expands, a line of the end marker, and any text below it: the
three expand to what the first two expand to, which is what the first expands to unless this is an
empty line alone. Nothing is looked for on the way that is not looked for in the first text by
itself, so of the disk nothing else matters. -/
theorem marker_truncates {above out : Text} (marker below : Text)
    (ended : above = [] ∨ above.getLast? = some '\n')
    (expands : expander.expandText disk above origin = .ok out)
    (marks : Text.trim marker = endMarker) (free : '\n' ∉ marker) :
    expander.expandText disk (above ++ marker ++ '\n' :: below) origin =
        expander.expandText disk (above ++ marker ++ ['\n']) origin ∧
      (above ≠ ['\n'] →
        expander.expandText disk (above ++ marker ++ '\n' :: below) origin = .ok out) ∧
      (∀ candidate, Probed expander disk (above ++ marker ++ '\n' :: below) origin candidate ↔
        Probed expander disk above origin candidate) ∧
      ∀ other : Disk, other.canonical origin = disk.canonical origin →
        (∀ candidate, Probed expander disk above origin candidate →
          other.file? candidate = disk.file? candidate) →
        expander.expandText other (above ++ marker ++ '\n' :: below) origin =
          expander.expandText disk (above ++ marker ++ ['\n']) origin := by
  have whole : ∀ item ∈ itemsOf origin.displayName above, item.Whole := by
    obtain ⟨lines, fine, _⟩ := map_eq_ok.mp expands
    rintro item member number directive rfl
    exact ne_unterminated_of_ok fine member
  have ends (below : Text) := itemsOf_marked below ended whole marks free
  have same := (ends below).trans (ends []).symm
  have asked (candidate : Path) :
      Probed expander disk (above ++ marker ++ '\n' :: below) origin candidate ↔
        Probed expander disk above origin candidate := by
    by_cases alone : above = ['\n']
    · have bare : IncludeFree origin (above ++ marker ++ '\n' :: below) := by
        rw [IncludeFree, ends below, if_pos alone]
        simp
      have empty : IncludeFree origin above := alone ▸ includeFree_empty origin
      exact iff_of_false (not_probed_of_free bare) (not_probed_of_free empty)
    · have own := (ends below).trans (if_neg alone)
      exact ⟨Probed.of_items own.symm, Probed.of_items own⟩
  refine ⟨expandText_of_same same, fun alone => ?_, asked, fun other stays agree => ?_⟩
  · rw [← expands]
    exact expandText_of_same ((ends below).trans (if_neg alone))
  · rw [← expandText_of_same same]
    exact expandText_of_probed stays fun candidate probed => agree candidate ((asked candidate).mp probed)

/-- A line that goes on in the end marker; below it a file that is not there, and a block that is
never closed. -/
theorem continued_truncates :
    plain.expandText (.empty [] 0)
        ("x = 1 + \\\n".toList ++ " __END__".toList ++ '\n' :: "include part\ns = <<<T".toList)
        scriptPath = .ok "x = 1 + \\\n".toList ∧
      ∀ candidate, ¬Probed plain (.empty [] 0)
        ("x = 1 + \\\n".toList ++ " __END__".toList ++ '\n' :: "include part\ns = <<<T".toList)
        scriptPath candidate := by
  have items : itemsOf scriptPath.displayName "x = 1 + \\\n".toList =
      [.code "x = 1 + \\".toList] := by decide +kernel
  have free : IncludeFree scriptPath "x = 1 + \\\n".toList := by
    rw [IncludeFree, items]
    simp
  have expands : plain.expandText (.empty [] 0) "x = 1 + \\\n".toList scriptPath =
      .ok "x = 1 + \\\n".toList := by
    rw [expandText_of_items _ items, expandItems_code]
    rfl
  have truncates := marker_truncates " __END__".toList "include part\ns = <<<T".toList
    (Or.inr (by decide)) expands (by decide) (by decide)
  obtain ⟨_, fine, asked, _⟩ := truncates
  refine ⟨fine (by decide), fun candidate probed => ?_⟩
  exact not_probed_of_free free ((asked candidate).mp probed)

end Brewery.Expander
