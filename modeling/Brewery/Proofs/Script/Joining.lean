import Brewery.Proofs.Coffee.Delimiters
import Brewery.Proofs.Script.Reading
import Brewery.Proofs.Script.Substitution

/-!
The physical lines of a logical line. A bland name that is put in turns no line, and what is cut
where two lines meet holds no quotes, so a logical line begins or ends a block string as often as
its physical lines together.
-/

namespace Brewery.Script

open Text

/-- Puts no quotes next to others and turns no line, neither makes a line a comment nor continues
one, and shows. -/
structure Bland (name : Text) : Prop where
  starts : name.head? ≠ some '"'
  stops : name.getLast? ≠ some '"'
  even : turns name = false
  bare : name.find? seen ≠ some '#'
  ends : name.reverse.find? seen ≠ some continuation
  shows : ∃ c ∈ name, isBlank c = false

/-- The last character that shows on a line is the mark of a continuation. -/
def Continuing (line : Text) : Prop := line.reverse.find? seen = some continuation

variable {name new token line next : Text} {number : Nat}

theorem ofNat_bland (number : Nat) : Bland (ofNat number) := by
  have absent {c : Char} (other : c.isDigit = false) : c ∉ ofNat number :=
    fun member => absurd ((digit_of_mem_ofNat member).symm.trans other) (by simp)
  have quote := absent (show ('"' : Char).isDigit = false by decide)
  obtain ⟨c, member, digit⟩ := exists_digit number
  exact {
    starts := fun first => quote (List.mem_of_head? first)
    stops := fun last => quote (List.mem_of_getLast? last)
    even := turns_of_not_mem quote
    bare := fun found => absent (by decide) (List.mem_of_find?_eq_some found)
    ends := fun found => absent (by decide) (List.mem_reverse.mp (List.mem_of_find?_eq_some found))
    shows := ⟨c, member, not_blank_of_digit digit⟩ }

section Replacing

theorem Bland.ne_nil (bland : Bland name) : name ≠ [] := by
  rintro rfl
  obtain ⟨c, member, _⟩ := bland.shows
  exact absurd member List.not_mem_nil

-- What was replaced and what came for it part the quotes on both sides in the same way.
theorem turns_replaced {result text : Text} (isToken : IsToken token) (bland : Bland new)
    (replaced : Replaced token new text result) (before : Text) :
    turns (before ++ result) = turns (before ++ text) := by
  have even : turns token = false := turns_of_not_mem (isToken.not_mem (by decide))
  induction replaced generalizing before with
  | nil => rfl
  | @hit text result onward ih =>
      have same : turns result = turns text := ih []
      have starts : token.head? ≠ some '"' := by simp [isToken.head]
      have stops : token.getLast? ≠ some '"' := by simp [isToken.last]
      rw [turns_between bland.ne_nil bland.starts bland.stops,
        turns_between isToken.ne_nil starts stops, same, bland.even, even]
  | @miss c text result apart onward ih =>
      have onward := ih (before ++ [c])
      rwa [List.append_assoc, List.append_assoc, List.singleton_append, List.singleton_append] at onward

theorem turns_replace (isToken : IsToken token) (bland : Bland new) :
    turns (replace token new line) = turns line :=
  turns_replaced isToken bland (replaced isToken.ne_nil line) []

theorem isComment_of_replace (isToken : IsToken token) (bland : Bland new)
    (comment : isComment (replace token new line) = true) : isComment line = true := by
  rw [isComment_iff] at comment ⊢
  have replaced : Replaced token new line _ := replaced isToken.ne_nil line
  generalize replace token new line = result at replaced comment
  induction replaced with
  | nil => exact comment
  | hit _ _ =>
      obtain ⟨c, member, shows⟩ := bland.shows
      obtain ⟨first, found⟩ := Option.isSome_iff_exists.mp
        (List.find?_isSome.mpr ⟨c, member, show seen c = true by simp [seen, shows]⟩)
      rw [List.find?_append, found, Option.some_or] at comment
      exact absurd (found.trans comment) bland.bare
  | @miss c text result _ _ ih =>
      rw [List.find?_cons] at comment ⊢
      split at comment
      · exact comment
      · exact ih comment

theorem Continuing.of_replace (isToken : IsToken token) (bland : Bland new)
    (continuing : Continuing (replace token new line)) : Continuing line :=
  (replaced isToken.ne_nil line).last bland.shows bland.ends continuing

end Replacing

section Substituting

variable (bland : fileToken <:+: line → Bland name) (number : Nat)
include bland

-- The name is of no matter to a line without its token.
theorem exists_bland :
    ∃ other, Bland other ∧ substitute name number line = substitute other number line := by
  by_cases inside : fileToken <:+: line
  · exact ⟨name, bland inside, rfl⟩
  · refine ⟨ofNat 0, ofNat_bland 0, ?_⟩
    rw [substitute, substitute, replace_of_not_infix inside, replace_of_not_infix inside]

theorem turns_substitute : turns (substitute name number line) = turns line := by
  obtain ⟨other, bland, same⟩ := exists_bland bland number
  rw [same, substitute, turns_replace .number (ofNat_bland number), turns_replace .file bland]

theorem isComment_of_substitute (comment : isComment (substitute name number line) = true) :
    isComment line = true := by
  obtain ⟨other, bland, same⟩ := exists_bland bland number
  rw [same, substitute] at comment
  exact isComment_of_replace .file bland (isComment_of_replace .number (ofNat_bland number) comment)

theorem Continuing.of_substitute (continuing : Continuing (substitute name number line)) :
    Continuing line := by
  obtain ⟨other, bland, same⟩ := exists_bland bland number
  rw [same, substitute] at continuing
  exact .of_replace .file bland (.of_replace .number (ofNat_bland number) continuing)

end Substituting

section Joining

theorem turns_join (head next : Text) :
    turns (joinContinuation head next) = (turns head != turns next) := by
  obtain ⟨front, dropped, rfl, cut, shape⟩ := joinContinuation_parts head next
  have bare : ∀ c ∈ dropped, c ∉ blockQuote := by
    intro c member
    apply not_mem_blockQuote
    rintro rfl
    exact absurd (cut _ member) (by decide)
  have indent : ∀ c ∈ indentation next, c ∉ blockQuote := by
    intro c member
    apply not_mem_blockQuote
    rintro rfl
    exact absurd (List.mem_takeWhile_imp member) (by decide)
  have before : turns (front ++ dropped) = turns front := by
    rw [turns, turns, occurrences_trailing (by decide) bare]
  have after : turns (trimStart next) = turns next := by
    rw [turns, turns, ← occurrences_skip (by decide) indent, indentation_append_trimStart]
  rw [shape, turns_around (by decide), before, after]

theorem find?_trimStart (text : Text) : (trimStart text).find? seen = text.find? seen := by
  have blank : (indentation text).find? seen = none := by
    rw [List.find?_eq_none]
    intro c member
    simp [seen, List.mem_takeWhile_imp member]
  rw [← indentation_append_trimStart text, List.find?_append, blank, Option.none_or,
    indentation_append_trimStart]

theorem isComment_join {head : Text} (comment : isComment (joinContinuation head next) = true) :
    isComment head = true ∨ isComment next = true := by
  obtain ⟨front, dropped, rfl, _, shape⟩ := joinContinuation_parts head next
  rw [isComment_iff, isComment_iff, List.find?_append]
  rw [isComment_iff, shape, List.find?_append, List.find?_cons_of_neg (by decide),
    find?_trimStart] at comment
  cases first : front.find? seen with
  | none =>
      rw [first, Option.none_or] at comment
      exact Or.inr comment
  | some c =>
      rw [first, Option.some_or] at comment
      exact Or.inl comment

theorem Continuing.of_join {head : Text} (shown : ∃ c ∈ next, isBlank c = false)
    (continuing : Continuing (joinContinuation head next)) : Continuing next := by
  obtain ⟨front, dropped, rfl, _, shape⟩ := joinContinuation_parts head next
  obtain ⟨c, member, dark⟩ := shown
  have inside : c ∈ trimStart next := by
    rw [← indentation_append_trimStart next, List.mem_append] at member
    exact member.resolve_left fun blank => absurd (List.mem_takeWhile_imp blank) (by simp [dark])
  obtain ⟨last, found⟩ := Option.isSome_iff_exists.mp (List.find?_isSome.mpr
    ⟨c, List.mem_reverse.mpr inside, show seen c = true by simp [seen, dark]⟩)
  rw [Continuing, shape, List.reverse_append, List.reverse_cons, List.append_assoc,
    List.find?_append, found, Option.some_or] at continuing
  rw [Continuing, ← indentation_append_trimStart next, List.reverse_append, List.find?_append,
    found, Option.some_or, continuing]

end Joining

/-- Of some lines each that begins or ends a string goes on in the next. -/
def Continued : List Text → Prop
  | line :: next :: rest => (turns line = true → Continuing line) ∧ Continued (next :: rest)
  | _ => True

section Gathering

variable {first last : Text} {rest : List Text}

theorem shows_of_turns (odd : turns line = true) : ∃ c ∈ line, isBlank c = false := by
  refine ⟨'"', ?_, by decide⟩
  by_contra absent
  exact absurd ((turns_of_not_mem absent).symm.trans odd) (by decide)

-- The induction is on the lines that may be joined; `last` is the one that was joined last.
theorem gather_spans (number : Nat) (bland : ∀ next ∈ rest, fileToken <:+: next → Bland name)
    (ends : turns last = true → continues line = true → Continuing last) :
    ∃ joined, rest = joined ++ (gather name number line rest).rest ∧
      turns (gather name number line rest).line = openAfter (turns line) joined ∧
      Continued (last :: joined) ∧
      (isComment (gather name number line rest).line = true →
        joined = [] ∧ isComment line = true ∨
          ∃ front end_, joined = front ++ [end_] ∧ isComment end_ = true) := by
  induction rest generalizing number line last with
  | nil => exact ⟨[], rfl, rfl, trivial, fun comment => Or.inl ⟨rfl, comment⟩⟩
  | cons next rest ih =>
      obtain ⟨here, later⟩ := List.forall_mem_cons.mp bland
      unfold gather
      split
      · next joins =>
          obtain ⟨goes, _⟩ := Bool.and_eq_true_iff.mp joins
          have count := turns_substitute here number
          have still : turns next = true →
              continues (joinContinuation line (substitute name number next)) = true →
              Continuing next := by
            intro odd again
            have shown := shows_of_turns (count.trans odd)
            exact Continuing.of_substitute here number
              (Continuing.of_join shown (continues_iff.mp again).2)
          obtain ⟨joined, shape, total, continued, marked⟩ := ih (number + 1) later still
          refine ⟨next :: joined, congrArg (next :: ·) shape, ?_, ⟨fun odd => ends odd goes, continued⟩,
            fun comment => Or.inr ?_⟩
          · rw [total, turns_join, count]
            rfl
          · rcases marked comment with ⟨rfl, own⟩ | ⟨front, end_, rfl, own⟩
            · rcases isComment_join own with before | after
              · exact absurd ((continues_iff.mp goes).1.symm.trans before) (by simp)
              · exact ⟨[], next, rfl, isComment_of_substitute here number after⟩
            · exact ⟨next :: front, end_, rfl, own⟩
      · exact ⟨[], rfl, rfl, trivial, fun comment => Or.inl ⟨rfl, comment⟩⟩

/-- The physical lines of a logical line. -/
theorem logicalLine_spans (number : Nat)
    (bland : ∀ line ∈ first :: rest, fileToken <:+: line → Bland name) :
    ∃ joined, rest = joined ++ (logicalLine name number first rest).rest ∧
      turns (logicalLine name number first rest).line = openAfter false (first :: joined) ∧
      Continued (first :: joined) ∧
      (isComment (logicalLine name number first rest).line = true →
        ∃ front end_, first :: joined = front ++ [end_] ∧ isComment end_ = true) := by
  obtain ⟨here, later⟩ := List.forall_mem_cons.mp bland
  have count := turns_substitute here number
  have begin_ (joined : List Text) : openAfter false (first :: joined) = openAfter (turns first) joined := by
    cases odd : turns first <;> simp [openAfter, odd]
  unfold logicalLine
  split
  · have ends : turns first = true → continues (substitute name number first) = true →
        Continuing first :=
      fun _ goes => Continuing.of_substitute here number (continues_iff.mp goes).2
    obtain ⟨joined, shape, total, continued, marked⟩ :=
      gather_spans (number + 1) later ends
    refine ⟨joined, shape, ?_, continued, fun comment => ?_⟩
    · rw [total, count, begin_]
    · rcases marked comment with ⟨rfl, own⟩ | ⟨front, end_, rfl, own⟩
      · exact ⟨[], first, rfl, isComment_of_substitute here number own⟩
      · exact ⟨first :: front, end_, rfl, own⟩
  · refine ⟨[], rfl, ?_, trivial, fun comment => ?_⟩
    · rw [begin_, count]
      rfl
    · exact ⟨[], first, rfl, isComment_of_substitute here number comment⟩

end Gathering

end Brewery.Script
