import Brewery.Proofs.Disk.Rewritten
import Brewery.Proofs.Path.Parts
import Brewery.Proofs.Script.Joining
import Brewery.Proofs.Script.Logical
import Brewery.Proofs.Script.Probing
import Brewery.Proofs.Script.Rendering

/-!
Numbers that are put in by hand. The reader counts the lines that he takes, in logical lines and in
blocks, and puts the number that he has come to in the place of its token. It is the number at which
the line stands in its file: with that number written there to begin with, the file is read as
before.
-/

namespace Brewery.Script

open Text

section Tokens

/-- A text as the tokens in it and the characters between them. -/
inductive Tokenwise : Text → Prop where
  | nil : Tokenwise []
  | number {text : Text} (onward : Tokenwise text) : Tokenwise (lineToken ++ text)
  | file {text : Text} (onward : Tokenwise text) : Tokenwise (fileToken ++ text)
  | other {c : Char} {text : Text} (number : ¬lineToken <+: c :: text) (file : ¬fileToken <+: c :: text)
      (onward : Tokenwise text) : Tokenwise (c :: text)

variable {token search name before text line : Text} {number : Nat}

theorem IsToken.shorter (isToken : IsToken token) (rest : Text) :
    rest.length < (token ++ rest).length := by
  have some := List.length_pos_iff.mpr isToken.ne_nil
  rw [List.length_append]
  omega

theorem tokenwise (text : Text) : Tokenwise text := by
  induction size : text.length using Nat.strong_induction_on generalizing text with
  | _ count ih =>
      subst size
      by_cases number : lineToken <+: text
      · obtain ⟨rest, rfl⟩ := number
        exact .number (ih _ (IsToken.number.shorter rest) rest rfl)
      · by_cases file : fileToken <+: text
        · obtain ⟨rest, rfl⟩ := file
          exact .file (ih _ (IsToken.file.shorter rest) rest rfl)
        · cases text with
          | nil => exact .nil
          | cons c rest => exact .other number file (ih _ (Nat.lt_succ_self _) rest rfl)

-- No token begins with a tail of a token, other than itself with all of it.
theorem IsToken.not_tail (isToken : IsToken token) (isSearch : IsToken search) {tail : Text}
    (suffix : tail <:+ token) (some : tail ≠ []) (apart : tail ≠ token ∨ token ≠ search) :
    ¬tail <+: search := by
  have none : ∀ tail ∈ token.tails, tail ≠ [] → (tail ≠ token ∨ token ≠ search) →
      ¬tail <+: search := by
    cases isToken <;> cases isSearch <;> decide
  exact none tail ((List.mem_tails _ _).mpr suffix) some apart

theorem IsToken.length_eq (isToken : IsToken token) (isSearch : IsToken search) :
    token.length = search.length := by
  cases isToken <;> cases isSearch <;> decide

theorem replace_other (isToken : IsToken token) (isSearch : IsToken search) (other : token ≠ search)
    (new rest : Text) : replace search new (token ++ rest) = token ++ replace search new rest := by
  apply replace_pass
  intro tail suffix some rest begins
  have short : tail.length ≤ search.length := isToken.length_eq isSearch ▸ suffix.length_le
  exact isToken.not_tail isSearch suffix some (Or.inr other)
    (List.prefix_of_prefix_length_le (List.prefix_append _ _) begins short)

theorem replace_before (isToken : IsToken token) (new before rest : Text) :
    replace token new (before ++ (token ++ rest)) =
      replace token new before ++ (new ++ replace token new rest) := by
  rw [replace_seam isToken.ne_nil ?_ before, replace_append isToken.ne_nil]
  intro tail suffix proper some begins
  exact isToken.not_tail isToken suffix some (Or.inl proper)
    (List.prefix_of_prefix_length_le begins (List.prefix_append _ _) suffix.length_le)

section Digits

theorem IsToken.digit_not_mem (isToken : IsToken token) {c : Char} (member : c ∈ ofNat number) :
    c ∉ token :=
  isToken.not_mem (Script.digit_not_mem (by decide) (digit_of_mem_ofNat member))

theorem replace_digits (isToken : IsToken token) (new rest : Text) (number : Nat) :
    replace token new (ofNat number ++ rest) = ofNat number ++ replace token new rest := by
  apply replace_of_head_not_mem _ isToken.ne_nil
  exact fun c member head => isToken.digit_not_mem member (List.mem_of_head? head)

theorem replace_digits_before (isToken : IsToken token) (new before rest : Text) (number : Nat) :
    replace token new (before ++ (ofNat number ++ rest)) =
      replace token new before ++ (ofNat number ++ replace token new rest) := by
  rw [replace_seam isToken.ne_nil ?_ before, replace_digits isToken]
  intro tail suffix _ some begins
  obtain ⟨c, member, _⟩ := exists_digit number
  obtain ⟨digit, digits, shape⟩ := List.exists_cons_of_ne_nil (List.ne_nil_of_mem member)
  obtain ⟨first, more, rfl⟩ := List.exists_cons_of_ne_nil some
  rw [shape, List.cons_append] at begins
  obtain ⟨rfl, _⟩ := List.cons_prefix_cons.mp begins
  exact isToken.digit_not_mem (shape ▸ List.mem_cons_self) (suffix.subset List.mem_cons_self)

end Digits

end Tokens

/-- A line with the number in the place of its token. -/
def numbered (number : Nat) (line : Text) : Text := replace lineToken (ofNat number) line

section Lines

variable {token new name text line : Text} {number : Nat}

/-- The induction is on the tokens of the text; a name that takes the place of a token goes to what
stands before the rest of it. -/
theorem numbered_before (tokenwise : Tokenwise text) (before : Text) :
    numbered number (before ++ replace fileToken name (numbered number text)) =
      numbered number (before ++ replace fileToken name text) := by
  unfold numbered
  induction tokenwise generalizing before with
  | nil => rw [replace_nil]
  | @number text onward ih =>
      have later := ih []
      rw [List.nil_append, List.nil_append] at later
      rw [replace_append IsToken.number.ne_nil, replace_digits .file, replace_digits_before .number,
        later, replace_other .number .file (by decide), replace_before .number]
  | @file text onward ih =>
      rw [replace_other .file .number (by decide), replace_append IsToken.file.ne_nil,
        replace_append IsToken.file.ne_nil, ← List.append_assoc, ih, List.append_assoc]
  | @other c text number_ file onward ih =>
      have digit := (ofNat_plain number).own
      have ends : ∀ c ∈ ofNat number, fileToken.getLast? ≠ some c := by
        intro c member last
        exact IsToken.file.digit_not_mem member (List.mem_of_getLast? last)
      have apart : ¬fileToken <+: c :: replace lineToken (ofNat number) text := by
        intro begins
        exact file (Replaced.prefix_of_prefix digit ends
          (.miss number_ (replaced IsToken.number.ne_nil text)) List.suffix_rfl begins)
      have further := ih (before ++ [c])
      rw [List.append_assoc, List.append_assoc] at further
      rw [replace_cons number_, replace_cons apart, replace_cons file]
      exact further

/-- A number that is put in by hand is the number that would be put in. -/
theorem substitute_numbered (name : Text) (number : Nat) (line : Text) :
    substitute name number (numbered number line) = substitute name number line :=
  numbered_before (tokenwise line) []

theorem isComment_numbered (number : Nat) (line : Text) :
    isComment (numbered number line) = isComment line :=
  Bool.eq_iff_iff.mpr ⟨isComment_of_replace .number (ofNat_bland number), isComment_replace .number⟩

-- There is no token in white space.
theorem replaced_blank {result : Text} (isToken : IsToken token)
    (replaced : Replaced token new text result) (blank : text.reverse.find? seen = none) :
    result = text := by
  induction replaced with
  | nil => rfl
  | hit _ _ =>
      rw [List.reverse_append, List.find?_append, Option.or_eq_none_iff] at blank
      exact absurd blank.2 (by cases isToken <;> decide)
  | miss _ _ ih =>
      rw [List.reverse_cons, List.find?_append, Option.or_eq_none_iff] at blank
      rw [ih blank.1]

-- The last character that shows stays the last, as long as it is not that of a token.
theorem Continuing.replace (isToken : IsToken token) (continuing : Continuing line) :
    Continuing (Text.replace token new line) := by
  unfold Continuing at continuing ⊢
  have replaced : Replaced token new line _ := replaced isToken.ne_nil line
  generalize Text.replace token new line = result at replaced
  induction replaced with
  | nil => exact continuing
  | @hit text result onward ih =>
      rw [List.reverse_append, List.find?_append] at continuing ⊢
      cases later : text.reverse.find? seen with
      | some c =>
          rw [later, Option.some_or] at continuing
          rw [ih (later.trans continuing), Option.some_or]
      | none =>
          rw [later, Option.none_or] at continuing
          exact absurd continuing (by cases isToken <;> decide)
  | @miss c text result apart onward ih =>
      rw [List.reverse_cons, List.find?_append] at continuing ⊢
      cases later : text.reverse.find? seen with
      | some found =>
          rw [later, Option.some_or] at continuing
          rw [ih (later.trans continuing), Option.some_or]
      | none => rwa [replaced_blank isToken onward later]

theorem continues_numbered (number : Nat) (line : Text) :
    continues (numbered number line) = continues line := by
  apply Bool.eq_iff_iff.mpr
  rw [continues_iff, continues_iff, isComment_numbered]
  exact and_congr_right fun _ =>
    ⟨Continuing.of_replace .number (ofNat_bland number), Continuing.replace .number⟩

theorem trim_numbered (number : Nat) (line : Text) :
    trim (numbered number line) = endMarker ↔ trim line = endMarker := by
  have free {text : Text} (marker : trim text = endMarker) {c : Char} (shows : isBlank c = false)
      (other : c ∉ endMarker) : c ∉ text :=
    fun member => other (marker ▸ mem_trim member shows)
  have same (absent : ¬lineToken <:+: line) : numbered number line = line :=
    replace_of_not_infix absent
  constructor
  · intro marker
    rwa [same] at marker
    intro inside
    obtain ⟨c, member, digit⟩ := exists_digit number
    have written : c ∈ numbered number line :=
      (infix_replace IsToken.number.ne_nil inside).subset member
    exact free marker (not_blank_of_digit digit) (digit_not_mem (by decide) digit) written
  · intro marker
    rwa [same]
    intro inside
    have brace : '\x7b' ∈ line := inside.subset (by decide)
    exact free marker (by decide) (by decide) brace

end Lines

section Marks

/-- Which lines begin or go on a logical line: none in a block, and none behind the end. -/
def marks (name : Text) (number : Nat) : List Text → List Bool
  | [] => []
  | first :: rest =>
      let logical := logicalLine name number first rest
      List.replicate (rest.length + 1 - logical.rest.length) true ++
        match _ : take? name number (first :: rest) with
        | none => List.replicate logical.rest.length false
        | some taken =>
            List.replicate (logical.rest.length - taken.rest.length) false ++
              marks name taken.number taken.rest
termination_by lines => lines.length
decreasing_by exact take?_shorter ‹_›

/-- The lines with the number of each put in where it is marked, the first having this number. -/
def numberMarked : Nat → List Bool → List Text → List Text
  | number, mark :: marks, line :: rest =>
      (if mark then numbered number line else line) :: numberMarked (number + 1) marks rest
  | _, _, rest => rest

/-- The lines of the file `name` with the number of each in the place of its token, unless it stands
in a block. -/
def numberLines (name : Text) (number : Nat) (lines : List Text) : List Text :=
  numberMarked number (marks name number lines) lines

variable {name first : Text} {number : Nat} {rest lines joined block before after : List Text}
  {signs : List Bool} {taken : Taken}

@[simp] theorem numberMarked_nil (number : Nat) (signs : List Bool) :
    numberMarked number signs [] = [] := by
  cases signs <;> rfl

theorem numberMarked_append (number : Nat) (before after : List Text) (signs : List Bool) :
    numberMarked number (List.replicate before.length true ++ signs) (before ++ after) =
      numberMarked number (List.replicate before.length true) before ++
        numberMarked (number + before.length) signs after := by
  induction before generalizing number with
  | nil => simp
  | cons line rest ih =>
      simp only [List.length_cons, List.replicate_succ, List.cons_append, numberMarked, ih]
      rw [Nat.add_right_comm, Nat.add_assoc]

theorem numberMarked_block (number : Nat) (block after : List Text) (signs : List Bool) :
    numberMarked number (List.replicate block.length false ++ signs) (block ++ after) =
      block ++ numberMarked (number + block.length) signs after := by
  induction block generalizing number with
  | nil => simp
  | cons line rest ih =>
      simp only [List.length_cons, List.replicate_succ, List.cons_append, numberMarked, ih]
      rw [Nat.add_right_comm, Nat.add_assoc]
      rfl

theorem alike_numbered (name : Text) (number : Nat) (lines : List Text) :
    Alike name 0 number lines (numberMarked number (List.replicate lines.length true) lines) := by
  induction lines generalizing number with
  | nil => exact .nil
  | cons line rest ih =>
      exact .cons (substitute_numbered name number line) (continues_numbered number line)
        (trim_numbered number line) (ih (number + 1))

theorem marks_size (split : rest = joined ++ (logicalLine name number first rest).rest) :
    rest.length + 1 - (logicalLine name number first rest).rest.length = (first :: joined).length := by
  have total := congrArg List.length split
  rw [List.length_append] at total
  rw [List.length_cons]
  omega

/-- The lines when the script ends with a logical line. -/
theorem numberLines_finish (ends : take? name number (first :: rest) = none)
    (split : rest = joined ++ (logicalLine name number first rest).rest) :
    numberLines name number (first :: rest) =
      numberMarked number (List.replicate (first :: joined).length true) (first :: joined) ++
        (logicalLine name number first rest).rest := by
  have signs : marks name number (first :: rest) =
      List.replicate (first :: joined).length true ++
        List.replicate (logicalLine name number first rest).rest.length false := by
    rw [marks, marks_size split]
    congr 1
    split
    · rfl
    · next found => exact absurd (ends.symm.trans found) (by simp)
  have same := numberMarked_block (number + (first :: joined).length)
    (logicalLine name number first rest).rest [] []
  rw [List.append_nil, List.append_nil, numberMarked_nil, List.append_nil] at same
  have whole : first :: rest = first :: joined ++ (logicalLine name number first rest).rest :=
    congrArg (first :: ·) split
  rw [numberLines, signs]
  conv => lhs; rw [whole]
  rw [numberMarked_append, same]

/-- The lines when the script goes on behind a logical line and its block. -/
theorem numberLines_take (found : take? name number (first :: rest) = some taken)
    (split : rest = joined ++ (block ++ taken.rest))
    (left : (logicalLine name number first rest).rest = block ++ taken.rest)
    (total : taken.item.Whole → taken.number = number + (joined.length + 1 + block.length))
    (ends : taken.item.Whole ∨ taken.rest = []) :
    numberLines name number (first :: rest) =
      numberMarked number (List.replicate (first :: joined).length true) (first :: joined) ++
        (block ++ numberLines name taken.number taken.rest) := by
  have size : (logicalLine name number first rest).rest.length - taken.rest.length =
      block.length := by
    rw [left, List.length_append, Nat.add_sub_cancel]
  have signs : marks name number (first :: rest) =
      List.replicate (first :: joined).length true ++
        (List.replicate block.length false ++ marks name taken.number taken.rest) := by
    rw [marks, marks_size (left ▸ split)]
    congr 1
    split
    · next ends => exact absurd (ends.symm.trans found) (by simp)
    · next other again =>
        cases found.symm.trans again
        rw [size]
  have whole : first :: rest = first :: joined ++ (block ++ taken.rest) :=
    congrArg (first :: ·) split
  have later : numberMarked (number + (first :: joined).length + block.length)
      (marks name taken.number taken.rest) taken.rest = numberLines name taken.number taken.rest := by
    rcases ends with own | none
    · rw [numberLines, total own, List.length_cons, Nat.add_assoc]
    · rw [none, numberMarked_nil, numberLines, numberMarked_nil]
  rw [numberLines, signs]
  conv => lhs; rw [whole]
  rw [numberMarked_append, numberMarked_block, later]

theorem numberLines_head (name : Text) (number : Nat) (first : Text) (rest : List Text) :
    ∃ more, numberLines name number (first :: rest) = numbered number first :: more := by
  cases found : take? name number (first :: rest) with
  | none =>
      obtain ⟨joined, split, _⟩ := logicalLine_alike name number first rest
      exact ⟨_, numberLines_finish found split⟩
  | some taken =>
      obtain ⟨joined, block, split, left, total, ends, _⟩ := take?_alike found
      exact ⟨_, numberLines_take found split left total ends⟩

theorem numberMarked_length (number : Nat) (signs : List Bool) (lines : List Text) :
    (numberMarked number signs lines).length = lines.length := by
  induction lines generalizing number signs with
  | nil => rw [numberMarked_nil]
  | cons line rest ih =>
      cases signs with
      | nil => rfl
      | cons sign more => rw [numberMarked, List.length_cons, ih, List.length_cons]

theorem Stops.numbered {number : Nat} (stops : Stops (block ++ lines)) :
    Stops (block ++ numberLines name number lines) := by
  cases block with
  | cons line more => exact stops
  | nil =>
      cases lines with
      | nil => rwa [numberLines, numberMarked_nil]
      | cons first rest =>
          obtain ⟨more, shape⟩ := numberLines_head name number first rest
          rw [shape]
          intro next head
          cases head
          exact (trim_numbered number first).mpr (stops first rfl)

/-- Lines are read as before when their numbers are put in. The induction is on the lines that are
still to come. -/
theorem items_numbered (name : Text) (number : Nat) (lines : List Text) :
    items name number (numberLines name number lines) = items name number lines := by
  induction size : lines.length using Nat.strong_induction_on generalizing number lines with
  | _ count ih =>
      subst size
      cases lines with
      | nil => rw [numberLines, numberMarked_nil]
      | cons first rest =>
          rw [items_eq_take, items_eq_take name number (first :: rest)]
          cases found : take? name number (first :: rest) with
          | none =>
              obtain ⟨joined, split, _, again⟩ := logicalLine_alike name number first rest
              have same := again (alike_numbered name number (first :: joined)) logicalLine_left
              have ends : take? name number (numberLines name number (first :: rest)) = none := by
                rw [numberLines_finish found split]
                exact take?_eq_none_iff.mpr (same ▸ take?_eq_none_iff.mp found)
              rw [ends]
          | some taken =>
              obtain ⟨joined, block, split, left, total, ends, again⟩ := take?_alike found
              have stops (goes : continues first = true)
                  (stays : continues (logicalLine name number first rest).line = true) :
                  Stops (block ++ numberLines name taken.number taken.rest) :=
                (left ▸ logicalLine_left goes stays).numbered
              have last : taken.item.Whole ∨ numberLines name taken.number taken.rest = [] :=
                ends.imp_right fun none => by rw [none, numberLines, numberMarked_nil]
              have same : take? name number (numberLines name number (first :: rest)) =
                  some ⟨taken.item, taken.number, numberLines name taken.number taken.rest⟩ := by
                rw [numberLines_take found split left total ends, ← Item.shifted_zero taken.item]
                exact again (alike_numbered name number (first :: joined)) stops last
              have later := ih _ (take?_shorter found) taken.number taken.rest rfl
              rw [same]
              exact congrArg (taken.item :: ·) later

end Marks

section Texts

variable {name text line : Text} {number : Nat} {lines : List Text} {signs : List Bool}

/-- The text of the file `name` with its lines so numbered. -/
def numberText (name text : Text) : Text :=
  joinWith ['\n'] (numberLines name 1 (physicalLines text)) ++
    if text.getLast? = some '\n' then ['\n'] else []

theorem numbered_free (free : '\n' ∉ line) : '\n' ∉ numbered number line := by
  intro ends
  rcases (replaced IsToken.number.ne_nil line).mem ends with before | digit
  · exact free before
  · exact absurd (digit_of_mem_ofNat digit) (by decide)

theorem numbered_eq_nil (empty : numbered number line = []) : line = [] := by
  cases line with
  | nil => rfl
  | cons c rest =>
      unfold numbered at empty
      by_cases begins : lineToken <+: c :: rest
      · obtain ⟨more, shape⟩ := begins
        obtain ⟨digit, member, _⟩ := exists_digit number
        rw [← shape, replace_append IsToken.number.ne_nil, List.append_eq_nil_iff] at empty
        exact absurd (empty.1 ▸ member) List.not_mem_nil
      · rw [replace_cons begins] at empty
        exact absurd empty (List.cons_ne_nil c _)

theorem numberMarked_free (free : ∀ line ∈ lines, '\n' ∉ line) :
    ∀ line ∈ numberMarked number signs lines, '\n' ∉ line := by
  induction lines generalizing number signs with
  | nil => rwa [numberMarked_nil]
  | cons line rest ih =>
      obtain ⟨here, later⟩ := List.forall_mem_cons.mp free
      cases signs with
      | nil => exact free
      | cons sign more =>
          refine List.forall_mem_cons.mpr ⟨?_, ih later⟩
          cases sign with
          | true => exact numbered_free here
          | false => exact here

theorem numberMarked_last (last : (numberMarked number signs lines).getLast? = some []) :
    lines.getLast? = some [] := by
  induction lines generalizing number signs with
  | nil => rwa [numberMarked_nil] at last
  | cons line rest ih =>
      cases signs with
      | nil => exact last
      | cons sign more =>
          rw [numberMarked] at last
          cases rest with
          | nil =>
              rw [numberMarked_nil] at last
              cases sign with
              | true => rw [numbered_eq_nil (Option.some.inj last)]; rfl
              | false => exact last
          | cons next further =>
              have some : numberMarked (number + 1) more (next :: further) ≠ [] := by
                rw [← List.length_pos_iff, numberMarked_length]
                exact Nat.succ_pos _
              rw [List.getLast?_cons_of_ne_nil some] at last
              rw [List.getLast?_cons_cons]
              exact ih last

-- A text whose last part is empty is empty itself or ends in the separator.
theorem ends_of_splitAt_last {separator : Char} (last : (splitAt separator text).getLast? = some []) :
    text = [] ∨ text.getLast? = some separator := by
  obtain ⟨front, shape⟩ := List.getLast?_eq_some_iff.mp last
  have whole := joinWith_splitAt separator text
  rw [shape] at whole
  cases front with
  | nil => exact Or.inl whole.symm
  | cons part more =>
      rw [joinWith_concat _ _ (List.cons_ne_nil part more), List.append_nil] at whole
      rw [← whole, List.getLast?_concat]
      exact Or.inr rfl

/-- Lines of which the last is empty only where it was empty in a text are the lines of the text
that they are put together to. -/
theorem physicalLines_rewritten {copies : List Text}
    (size : copies.length = (physicalLines text).length) (free : ∀ line ∈ copies, '\n' ∉ line)
    (last : copies.getLast? = some [] → (physicalLines text).getLast? = some []) :
    physicalLines (joinWith ['\n'] copies ++ if text.getLast? = some '\n' then ['\n'] else []) =
      copies := by
  rcases List.eq_nil_or_concat text with rfl | ⟨body, c, rfl⟩
  · rw [List.length_eq_zero_iff.mp size]
    rfl
  rw [List.concat_eq_append] at size last ⊢
  rw [List.getLast?_concat]
  by_cases ended : c = '\n'
  · subst ended
    rw [if_pos rfl]
    rw [physicalLines_newline] at size last
    split at size
    · next none =>
        rw [List.length_eq_zero_iff.mp size]
        rfl
    · next written =>
        rw [if_neg written] at last
        refine physicalLines_closed ?_ free ?_
        · rintro rfl
          exact splitAt_ne_nil '\n' body (List.length_eq_zero_iff.mp size.symm)
        · rintro rfl
          obtain ⟨line, single⟩ := List.length_eq_one_iff.mp size.symm
          have none : line = [] := by simpa [single] using last rfl
          have whole := joinWith_splitAt '\n' body
          rw [single, none] at whole
          exact written whole.symm
  · rw [if_neg (fun same => ended (Option.some.inj same)), List.append_nil]
    rw [physicalLines_open ended] at size last
    refine physicalLines_joined ?_ free fun empty => ?_
    · rintro rfl
      exact splitAt_ne_nil '\n' _ (List.length_eq_zero_iff.mp size.symm)
    · rcases ends_of_splitAt_last (last empty) with none | newline
      · exact absurd none (by simp)
      · rw [List.getLast?_concat] at newline
        exact ended (Option.some.inj newline)

theorem physicalLines_numberText (name text : Text) :
    physicalLines (numberText name text) = numberLines name 1 (physicalLines text) :=
  physicalLines_rewritten (numberMarked_length _ _ _)
    (numberMarked_free fun _ member => physicalLines_free member) numberMarked_last

theorem itemsOf_numbered (name text : Text) : itemsOf name (numberText name text) = itemsOf name text := by
  rw [itemsOf, physicalLines_numberText, items_numbered, itemsOf]

end Texts

end Brewery.Script

namespace Brewery.Expander

open Script

variable {expander : Expander} {disk : Disk} {text : Text} {origin : Path} {here : Standing}
  {rewrite : Place → Text → Text}

/-- Rewrites no file that the expansion includes, other than by putting in its line numbers under
the name by which it is included. -/
def Numbers (expander : Expander) (disk : Disk) (text : Text) (origin : Path)
    (rewrite : Place → Text → Text) : Prop :=
  ∀ here number directive indent path place raw, Reached expander disk text origin here →
    here.Includes expander disk number directive indent path place (.text raw) →
      rewrite place raw = raw ∨ rewrite place raw = numberText path.displayName raw

theorem findInclude_rewritten (origin : Path) (target : Text) :
    expander.findInclude (disk.rewritten rewrite) origin target =
      (expander.findInclude disk origin target).map fun found =>
        (found.1, found.2.1, found.2.2.retext (rewrite found.2.1)) := by
  unfold findInclude
  induction expander.candidates origin target with
  | nil => rfl
  | cons first rest ih =>
      rw [List.findSome?_cons, List.findSome?_cons, Disk.file?_rewritten]
      cases disk.file? first with
      | some found => rfl
      | none => exact ih

/-- Wherever the expansion stands, what it makes of the lines to come is the same on the disk with
the numbers. -/
theorem Reached.result_of_numbers (numbers : Numbers expander disk text origin rewrite)
    (reached : Reached expander disk text origin here) :
    here.result expander (disk.rewritten rewrite) = here.result expander disk := by
  refine reached.result_congr fun here taken reached next inner => ?_
  obtain ⟨item, number, rest⟩ := taken
  cases item with
  | inclusion line directive indent target =>
      rw [expandItems_inclusion, expandItems_inclusion, findInclude_rewritten]
      cases found : expander.findInclude disk here.origin target with
      | none => rfl
      | some file =>
          obtain ⟨path, place, contents⟩ := file
          have includes : here.Includes expander disk line directive indent path place contents :=
            ⟨target, number, rest, next, found⟩
          cases contents with
          | raw bytes => rfl
          | text raw =>
              have same : itemsOf path.displayName (rewrite place raw) =
                  itemsOf path.displayName raw := by
                rcases numbers here _ _ _ _ _ _ reached includes with kept | put
                · rw [kept]
                · rw [put, itemsOf_numbered]
              simp only [Option.map_some, Contents.retext, same]
              cases active : onStack here.stack place.path with
              | true => rfl
              | false =>
                  have entered := inner line directive indent path place raw includes active
                  exact congrArg (Except.map (List.map (OutLine.indented indent))) entered
  | unterminated => rw [expandItems, expandItems]
  | _ => rw [expandItems, expandItems_nil, expandItems, expandItems_nil]

/-- Whatever the text, the disk and the policy: with the number of each line that belongs to a
logical line put in the place of its token, in the text itself or in a file that it includes or in
as many of these files as one likes, it expands to the same. -/
theorem line_numbers_kept (expander : Expander) (disk : Disk) (text : Text) (origin : Path) :
    expander.expandLines disk (numberText origin.displayName text) origin =
        expander.expandLines disk text origin ∧
      (∀ here number directive indent path place raw, Reached expander disk text origin here →
        here.Includes expander disk number directive indent path place (.text raw) →
          (here.inside indent path place (numberText path.displayName raw)).result expander disk =
            (here.inside indent path place raw).result expander disk) ∧
      ∀ rewrite, Numbers expander disk text origin rewrite →
        expander.expandLines (disk.rewritten rewrite) (numberText origin.displayName text) origin =
          expander.expandLines disk text origin := by
  have own (disk : Disk) : expander.expandLines disk (numberText origin.displayName text) origin =
      expander.expandLines disk text origin := by
    rw [expandLines, itemsOf_numbered, expandLines]
  refine ⟨own disk, fun here number directive indent path place raw _ _ => ?_, fun rewrite numbers => ?_⟩
  · exact congrArg (expander.expandItems disk (here.stack ++ [place.path]) path)
      (itemsOf_numbered path.displayName raw)
  · have whole := Reached.result_of_numbers numbers Relation.ReflTransGen.refl
    have entry : stackEntry (disk.rewritten rewrite) origin = stackEntry disk origin := by
      rw [stackEntry, stackEntry, Disk.canonical_rewritten]
    rw [own, expandLines, entry]
    exact whole

section Counted

def countedText : Text := "n = \x7b\x7bLINE\x7d\x7d\n".toList

def countingText : Text := "include a\n".toList

/-- A file of one line, which holds the token. -/
def countedDisk : Disk where
  nodes := [(["a".toList], .file (.text countedText) 0)]
  current := []
  clock := 0

-- Where there is one line, there is one way to number it.
theorem numberText_line {line : Text} (name : Text) (free : '\n' ∉ line) (some : line ≠ []) :
    numberText name (line ++ ['\n']) = numbered 1 line ++ ['\n'] := by
  have lines : physicalLines (line ++ ['\n']) = [line] := by
    rw [physicalLines_newline, if_neg some, Text.splitAt_of_not_mem free]
  have size : (numberLines name 1 [line]).length = 1 := numberMarked_length _ _ _
  obtain ⟨more, shape⟩ := numberLines_head name 1 line []
  rw [shape, List.length_cons, Nat.succ_inj, List.length_eq_zero_iff] at size
  rw [numberText, lines, shape, size, List.getLast?_concat, if_pos rfl]
  rfl

theorem counted_file {place : Place} {raw : Text} {path : Path}
    (held : countedDisk.file? path = some (place, .text raw)) : raw = countedText := by
  obtain ⟨_, inside⟩ := Disk.file?_eq_some_iff.mp held
  obtain ⟨stamp, node⟩ := Disk.contentsAt?_eq_some_iff.mp inside
  unfold Disk.node? at node
  split at node
  · exact absurd node (by simp)
  · obtain ⟨entry, found, same⟩ := Option.map_eq_some_iff.mp node
    obtain rfl := List.mem_singleton.mp (List.mem_of_find?_eq_some found)
    cases same
    rfl

theorem counted_numbered (name : Text) : numberText name countedText = "n = 1\n".toList := by
  have line : countedText = "n = \x7b\x7bLINE\x7d\x7d".toList ++ ['\n'] := by decide
  rw [line, numberText_line name (by decide) (by decide)]
  decide +kernel

theorem counting_numbered (name : Text) : numberText name countingText = countingText := by
  have line : countingText = "include a".toList ++ ['\n'] := by decide
  rw [line, numberText_line name (by decide) (by decide)]
  decide +kernel

theorem counting_includes : (Standing.outset countedDisk countingText innerPath).Includes plain
    countedDisk 1 "include a".toList [] outerPath ["a".toList] (.text countedText) :=
  ⟨"a".toList, 2, [], by decide +kernel, findInclude_first rfl (outer_held rfl)⟩

theorem counted_lines :
    (Standing.outset countedDisk countingText innerPath).Includes plain countedDisk 1
        "include a".toList [] outerPath ["a".toList] (.text countedText) ∧
      (((Standing.outset countedDisk countingText innerPath).inside [] outerPath ["a".toList]
        "n = 1\n".toList).result plain countedDisk =
          ((Standing.outset countedDisk countingText innerPath).inside [] outerPath ["a".toList]
            countedText).result plain countedDisk) ∧
      Numbers plain countedDisk countingText innerPath (fun _ _ => "n = 1\n".toList) ∧
      plain.expandLines (countedDisk.rewritten fun _ _ => "n = 1\n".toList) countingText innerPath =
        plain.expandLines countedDisk countingText innerPath := by
  have numbers : Numbers plain countedDisk countingText innerPath fun _ _ => "n = 1\n".toList := by
    intro here number directive indent path place raw _ leads
    rw [counted_file leads.file, counted_numbered]
    exact Or.inr rfl
  obtain ⟨_, inner, whole⟩ := line_numbers_kept plain countedDisk countingText innerPath
  have same := inner _ _ _ _ _ _ _ Relation.ReflTransGen.refl counting_includes
  rw [counted_numbered] at same
  have both := whole _ numbers
  rw [counting_numbered] at both
  exact ⟨counting_includes, same, numbers, both⟩

end Counted

end Brewery.Expander
