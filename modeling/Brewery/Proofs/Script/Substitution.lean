import Brewery.Proofs.Script.Line
import Brewery.Proofs.Text.Replace
import Brewery.Script.Item

/-!
Tokens. A name or a number that takes the place of a token forms no other token with what stands
around it, unless it looks like a part of one; nor does it make another line of a comment, or
bring a line onto a continuation that it was not on before.
-/

namespace Brewery.Text.Replaced

variable {pattern replacement text result : Text}

-- White space stays white space only where nothing was put that shows.
theorem blank (shows : ∃ c ∈ replacement, isBlank c = false)
    (replaced : Replaced pattern replacement text result) (blank : ∀ c ∈ result, isBlank c = true) :
    ∀ c ∈ text, isBlank c = true := by
  induction replaced with
  | nil => exact blank
  | hit _ _ =>
      obtain ⟨c, new, dark⟩ := shows
      exact absurd ((blank c (List.mem_append_left _ new)).symm.trans dark) (by simp)
  | miss _ _ ih =>
      obtain ⟨here, later⟩ := List.forall_mem_cons.mp blank
      exact List.forall_mem_cons.mpr ⟨here, ih later⟩

theorem last (shows : ∃ c ∈ replacement, isBlank c = false) {mark : Char}
    (other : replacement.reverse.find? seen ≠ some mark)
    (replaced : Replaced pattern replacement text result)
    (last : result.reverse.find? seen = some mark) : text.reverse.find? seen = some mark := by
  induction replaced with
  | nil => exact last
  | @hit text result onward ih =>
      rw [List.reverse_append, List.find?_append] at last ⊢
      cases later : result.reverse.find? seen with
      | some c =>
          rw [later, Option.some_or] at last
          rw [ih (later.trans last), Option.some_or]
      | none =>
          rw [later, Option.none_or] at last
          exact absurd last other
  | @miss c text result apart onward ih =>
      rw [List.reverse_cons, List.find?_append] at last ⊢
      cases later : result.reverse.find? seen with
      | some found =>
          rw [later, Option.some_or] at last
          rw [ih (later.trans last), Option.some_or]
      | none =>
          have before : text.reverse.find? seen = none := by
            rw [List.find?_eq_none] at later ⊢
            have still := onward.blank shows (by simpa [seen] using later)
            simpa [seen] using still
          rwa [later, ← before] at last

end Brewery.Text.Replaced

namespace Brewery.Script

open Text

/-- Stands for itself between any two texts: nothing of it can belong to a token, it neither
continues nor ends a line, and it shows. -/
structure Plain (name : Text) : Prop where
  apart : ∀ c ∈ name, c ≠ '\x7b' ∧ c ≠ '\x7d' ∧ c ≠ continuation ∧ c ≠ '\n'
  own : ∃ c ∈ name, c ∉ fileToken
  shows : ∃ c ∈ name, isBlank c = false

/-- A line in which there is nothing to substitute. -/
structure Settled (line : Text) : Prop where
  file : ¬fileToken <:+: line
  number : ¬lineToken <:+: line
  free : '\n' ∉ line

/-- A line that may name the file, if the file has a plain name. -/
structure Named (name line : Text) : Prop where
  plain : fileToken <:+: line → Plain name
  free : '\n' ∉ line

inductive IsToken : Text → Prop where
  | file : IsToken fileToken
  | number : IsToken lineToken

namespace IsToken

variable {token : Text}

theorem ne_nil (isToken : IsToken token) : token ≠ [] := by
  cases isToken <;> decide

theorem head (isToken : IsToken token) : token.head? = some '\x7b' := by
  cases isToken <;> rfl

theorem last (isToken : IsToken token) : token.getLast? = some '\x7d' := by
  cases isToken <;> rfl

/-- A character that no token holds. -/
theorem not_mem (isToken : IsToken token) {c : Char} (other : c ∉ fileToken ++ lineToken) :
    c ∉ token := by
  rw [List.mem_append, not_or] at other
  cases isToken with
  | file => exact other.1
  | number => exact other.2

-- A token that stands across a character which is not its own stands on one side of it.
theorem infix_between (isToken : IsToken token) {c : Char} (other : c ∉ fileToken ++ lineToken)
    {before after : Text} (inside : token <:+: before ++ c :: after) :
    token <:+: before ∨ token <:+: after := by
  have absent := isToken.not_mem other
  rcases List.infix_append_iff.mp inside with left | right | ⟨front, back, whole, new, old⟩
  · exact Or.inl left
  · rcases List.infix_cons_iff.mp right with here | later
    · obtain ⟨first, rest, rfl⟩ := List.exists_cons_of_ne_nil isToken.ne_nil
      cases (List.cons_prefix_cons.mp here).1
      exact absurd List.mem_cons_self absent
    · exact Or.inr later
  · cases back with
    | nil =>
        rw [whole, List.append_nil]
        exact Or.inl new.isInfix
    | cons d more =>
        cases (List.cons_prefix_cons.mp old).1
        exact absurd (whole ▸ by simp) absent

end IsToken

section Digits

variable {number : Nat} {c : Char}

theorem digit_of_mem_ofNat (member : c ∈ ofNat number) : c.isDigit = true :=
  Nat.isDigit_of_mem_toDigits (by omega) (by omega) member

theorem not_blank_of_digit (digit : c.isDigit = true) : isBlank c = false := by
  have range : 48 ≤ c.toNat ∧ c.toNat ≤ 57 := by
    simpa [Char.isDigit, UInt32.le_iff_toNat_le] using digit
  simp [isBlank]
  omega

theorem digit_not_mem {text : Text} (none : text.any Char.isDigit = false)
    (digit : c.isDigit = true) : c ∉ text := by
  intro member
  rw [List.any_eq_false] at none
  exact none c member digit

theorem exists_digit (number : Nat) : ∃ c ∈ ofNat number, c.isDigit = true := by
  have some : Nat.toDigits 10 number ≠ [] := Nat.toDigits_ne_nil
  obtain ⟨c, rest, digits⟩ := List.exists_cons_of_ne_nil some
  have member : c ∈ ofNat number := by
    rw [ofNat, digits]
    exact List.mem_cons_self
  exact ⟨c, member, digit_of_mem_ofNat member⟩

theorem ofNat_plain (number : Nat) : Plain (ofNat number) := by
  obtain ⟨c, member, digit⟩ := exists_digit number
  refine ⟨fun d inside => ?_, ⟨c, member, digit_not_mem (by decide) digit⟩,
    ⟨c, member, not_blank_of_digit digit⟩⟩
  have digit := digit_of_mem_ofNat inside
  refine ⟨?_, ?_, ?_, ?_⟩ <;> rintro rfl <;> exact absurd digit (by decide)

end Digits

section Replacing

variable {token new line : Text}

theorem isComment_replace (isToken : IsToken token) (comment : isComment line = true) :
    isComment (replace token new line) = true := by
  rw [isComment_iff] at comment ⊢
  have replaced : Replaced token new line _ := replaced isToken.ne_nil line
  generalize replace token new line = result at replaced ⊢
  induction replaced with
  | nil => exact comment
  | hit _ _ =>
      obtain ⟨rest, shape⟩ := List.head?_eq_some_iff.mp isToken.head
      rw [shape, List.cons_append, List.find?_cons, show seen '\x7b' = true by decide] at comment
      exact absurd comment (by simp)
  | @miss c text result _ _ ih =>
      rw [List.find?_cons] at comment ⊢
      split at comment
      · exact comment
      · exact ih comment

theorem continues_replace (plain : Plain new) (isToken : IsToken token)
    (goes : continues (replace token new line) = true) : continues line = true := by
  rw [continues_iff] at goes ⊢
  obtain ⟨code, last⟩ := goes
  constructor
  · cases comment : isComment line with
    | false => rfl
    | true => exact absurd ((isComment_replace isToken comment).symm.trans code) (by simp)
  · have other : new.reverse.find? seen ≠ some continuation := fun found =>
      (plain.apart _ (List.mem_reverse.mp (List.mem_of_find?_eq_some found))).2.2.1 rfl
    exact (replaced isToken.ne_nil line).last plain.shows other last

theorem Plain.not_found (plain : Plain new) (isToken : IsToken token) {search : Text}
    (isSearch : IsToken search) (own : ∃ c ∈ new, c ∉ search)
    (gone : search = token ∨ ¬search <:+: line) : ¬search <:+: replace token new line := by
  apply (replaced isToken.ne_nil line).not_found own
  · intro c member
    rw [isSearch.last]
    exact fun same => (plain.apart c member).2.1 (Option.some.inj same).symm
  · intro c member
    rw [isSearch.head]
    exact fun same => (plain.apart c member).1 (Option.some.inj same).symm
  · exact isSearch.ne_nil
  · exact gone

end Replacing

section Substituting

variable {name line next : Text} {number : Nat}

theorem Settled.substitute (settled : Settled line) : substitute name number line = line := by
  rw [Script.substitute, replace_of_not_infix settled.file, replace_of_not_infix settled.number]

-- The name is of no matter to a line without its token.
theorem Named.exists_plain (named : Named name line) (number : Nat) :
    ∃ other, Plain other ∧ Script.substitute name number line = Script.substitute other number line := by
  by_cases inside : fileToken <:+: line
  · exact ⟨name, named.plain inside, rfl⟩
  · refine ⟨ofNat 0, ofNat_plain 0, ?_⟩
    rw [Script.substitute, Script.substitute, replace_of_not_infix inside,
      replace_of_not_infix inside]

theorem Named.substitute (named : Named name line) (number : Nat) :
    Settled (substitute name number line) := by
  obtain ⟨other, plain, same⟩ := named.exists_plain number
  obtain ⟨digit, member, isDigit⟩ := exists_digit number
  have numbered := ofNat_plain number
  rw [same, Script.substitute]
  constructor
  · exact numbered.not_found .number .file numbered.own
      (Or.inr (plain.not_found .file .file plain.own (Or.inl rfl)))
  · exact numbered.not_found .number .number
      ⟨digit, member, digit_not_mem (by decide) isDigit⟩ (Or.inl rfl)
  · intro ends
    rcases (replaced IsToken.number.ne_nil _).mem ends with before | digit
    · rcases (replaced IsToken.file.ne_nil _).mem before with there | new
      · exact named.free there
      · exact (plain.apart _ new).2.2.2 rfl
    · exact (numbered.apart _ digit).2.2.2 rfl

theorem Named.continues_of_substitute (named : Named name line)
    (goes : continues (Script.substitute name number line) = true) : continues line = true := by
  obtain ⟨other, plain, same⟩ := named.exists_plain number
  rw [same] at goes
  exact continues_replace plain .file (continues_replace (ofNat_plain number) .number goes)

theorem Settled.of_infix {part : Text} (settled : Settled line) (inside : part <:+: line) :
    Settled part where
  file := fun found => settled.file (found.trans inside)
  number := fun found => settled.number (found.trans inside)
  free := fun ends => settled.free (inside.subset ends)

-- No token holds `c`, so none comes to stand across it.
theorem Settled.around {c : Char} (other : c ∉ fileToken ++ lineToken) (inside : c ≠ '\n')
    (before : Settled line) (after : Settled next) : Settled (line ++ c :: next) where
  file := fun found =>
    (IsToken.file.infix_between other found).elim before.file after.file
  number := fun found =>
    (IsToken.number.infix_between other found).elim before.number after.number
  free := by
    simp only [List.mem_append, List.mem_cons, not_or]
    exact ⟨before.free, inside.symm, after.free⟩

-- What goes where a line is continued is white space and the mark of the continuation.
theorem joinContinuation_parts (head next : Text) : ∃ front dropped, head = front ++ dropped ∧
    (∀ c ∈ dropped, isBlank c = true ∨ c = continuation) ∧
    joinContinuation head next = front ++ ' ' :: trimStart next := by
  have tail (text : Text) : ∀ c ∈ trailing text, isBlank c = true := by
    intro c member
    exact List.mem_takeWhile_imp (List.mem_reverse.mp member)
  cases marked : dropSuffix? [continuation] (trimEnd head) with
  | none =>
      refine ⟨trimEnd (trimEnd head), trailing (trimEnd head) ++ trailing head, ?_, ?_, ?_⟩
      · rw [← List.append_assoc, trimEnd_append_trailing, trimEnd_append_trailing]
      · intro c member
        exact Or.inl ((List.mem_append.mp member).elim (tail _ c) (tail _ c))
      · rw [joinContinuation, marked]
        rfl
  | some front =>
      have whole := dropSuffix?_eq_some_iff.mp marked
      refine ⟨trimEnd front, trailing front ++ [continuation] ++ trailing head, ?_, ?_, ?_⟩
      · rw [← List.append_assoc, ← List.append_assoc, trimEnd_append_trailing, ← whole,
          trimEnd_append_trailing]
      · intro c member
        simp only [List.mem_append, List.mem_singleton] at member
        rcases member with (before | mark) | after
        · exact Or.inl (tail _ c before)
        · exact Or.inr mark
        · exact Or.inl (tail _ c after)
      · rw [joinContinuation, marked]
        rfl

theorem Settled.join (settled : Settled line) (after : Settled next) :
    Settled (joinContinuation line next) := by
  obtain ⟨front, dropped, whole, _, shape⟩ := joinContinuation_parts line next
  have before : front <:+: line := whole ▸ (List.prefix_append front dropped).isInfix
  rw [shape]
  exact (settled.of_infix before).around (by decide) (by decide)
    (after.of_infix (trimStart_isSuffix next).isInfix)

theorem Settled.gather {rest : List Text} (settled : Settled line)
    (named : ∀ next ∈ rest, Named name next) : Settled (gather name number line rest).line := by
  induction rest generalizing number line with
  | nil => exact settled
  | cons next more ih =>
      obtain ⟨here, later⟩ := List.forall_mem_cons.mp named
      unfold Script.gather
      split
      · exact ih (settled.join (here.substitute number)) later
      · exact settled

/-- Lines on which a line that continues may be left: none, or the end marker first. -/
def Stops (lines : List Text) : Prop :=
  ∀ next, lines.head? = some next → trim next = endMarker

theorem gather_stops {rest : List Text} (goes : continues (gather name number line rest).line = true) :
    Stops (gather name number line rest).rest := by
  induction rest generalizing number line with
  | nil => exact fun next first => absurd first (by simp [gather])
  | cons next more ih =>
      unfold gather at goes ⊢
      split at goes
      · next joins =>
          rw [if_pos joins]
          exact ih goes
      · next parts =>
          rw [if_neg parts]
          intro other first
          cases first
          simpa [goes] using parts

theorem logicalLine_settled {first : Text} {rest : List Text}
    (named : ∀ next ∈ first :: rest, Named name next) :
    Settled (logicalLine name number first rest).line := by
  obtain ⟨here, later⟩ := List.forall_mem_cons.mp named
  unfold logicalLine
  split
  · exact (here.substitute number).gather later
  · exact here.substitute number

theorem logicalLine_stops {first : Text} {rest : List Text} (named : Named name first)
    (goes : continues (logicalLine name number first rest).line = true) :
    Stops (logicalLine name number first rest).rest := by
  unfold logicalLine at goes ⊢
  split at goes
  · next joins =>
      rw [if_pos joins]
      exact gather_stops goes
  · next alone => exact absurd (named.continues_of_substitute goes) alone

end Substituting

end Brewery.Script
