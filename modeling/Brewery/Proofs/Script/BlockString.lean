import Brewery.Proofs.Script.Context
import Brewery.Proofs.Script.Counting
import Brewery.Proofs.Script.Literal

/-!
Strings in three quotes pass through an expansion. Where every line that begins or ends a string
fits, the lexer and the reader of the script find the same strings, so what stands on the lines
after the one that opens a string is written as it is, but for the last of them, which is indented
with the file that it is in.
-/

namespace Brewery.Text

variable {separator : Char} {before after : Text}

theorem exists_splitAt_concat (separator : Char) (text : Text) :
    ∃ lines last, splitAt separator text = lines ++ [last] := by
  rcases List.eq_nil_or_concat (splitAt separator text) with none | ⟨lines, last, shape⟩
  · exact absurd none (splitAt_ne_nil separator text)
  · exact ⟨lines, last, by rw [shape, List.concat_eq_append]⟩

-- Where two texts meet, the last part of the one and the first of the other are one.
theorem splitAt_meet {lines more : List Text} {last first : Text}
    (one : splitAt separator before = lines ++ [last])
    (two : splitAt separator after = first :: more) :
    splitAt separator (before ++ after) = lines ++ (last ++ first) :: more := by
  induction before generalizing lines last with
  | nil =>
      obtain ⟨rfl, rfl⟩ : lines = [] ∧ last = [] := by cases lines <;> simp_all [splitAt]
      exact two
  | cons c rest ih =>
      obtain ⟨inner, end_, shape⟩ := exists_splitAt_concat separator rest
      have onward := ih shape
      simp only [List.cons_append, splitAt, shape, onward] at one ⊢
      split at one
      · next same =>
          obtain ⟨rfl, rfl⟩ : lines = [] :: inner ∧ last = end_ := by cases lines <;> simp_all
          rw [if_pos same]
          rfl
      · next other =>
          rw [if_neg other]
          cases inner with
          | nil =>
              obtain ⟨rfl, rfl⟩ : lines = [] ∧ last = c :: end_ := by cases lines <;> simp_all
              rfl
          | cons part parts =>
              obtain ⟨rfl, rfl⟩ : lines = (c :: part) :: parts ∧ last = end_ := by
                cases lines <;> simp_all
              rfl

theorem flatMap_lines {lines : List Text} (some : lines ≠ []) :
    lines.flatMap (· ++ [separator]) = joinWith [separator] lines ++ [separator] := by
  induction lines with
  | nil => exact absurd rfl some
  | cons line rest ih =>
      cases rest with
      | nil => simp [joinWith]
      | cons next more =>
          rw [List.flatMap_cons, ih (List.cons_ne_nil next more),
            joinWith_cons _ _ (List.cons_ne_nil next more)]
          simp

theorem joinWith_last (separator : Text) (parts : List Text) (last more : Text) :
    joinWith separator (parts ++ [last ++ more]) = joinWith separator (parts ++ [last]) ++ more := by
  cases parts with
  | nil => rfl
  | cons part rest =>
      rw [joinWith_concat _ _ (List.cons_ne_nil part rest),
        joinWith_concat _ _ (List.cons_ne_nil part rest), List.append_assoc _ last more]

end Brewery.Text

namespace Brewery.Script

open Text Coffee

/-- Lines that fit what the lexer makes of them: one after which a string is open that was not
open before it is no comment and is not continued, and after one with three quotes in a string no
string is open. -/
def Aligned (frames : List Frame) : List Text → Prop
  | [] => True
  | line :: rest =>
      (inString frames = false → inString (framesAfter frames (line ++ ['\n'])) = true →
        isComment line = false ∧ continues line = false) ∧
      (inString frames = true → blockQuote <:+: line →
        inString (framesAfter frames (line ++ ['\n'])) = false) ∧
      Aligned (framesAfter frames (line ++ ['\n'])) rest

/-- A string of a text, as the lexer reads it, that goes on after the line that opens it: what is
before it, what is on its first line and on its further lines, and what is after it. -/
structure StringAt (text front head tail rest : Text) : Prop where
  shape : text = front ++ (blockQuote ++ (head ++ '\n' :: (tail ++ (blockQuote ++ rest))))
  flat : '\n' ∉ head
  opens : ∃ spoken, Reads [] text spoken []
    (blockQuote ++ (head ++ '\n' :: (tail ++ (blockQuote ++ rest))))
  closes : Encloses [.quoted '"' true] (head ++ '\n' :: (tail ++ (blockQuote ++ rest))) rest

variable {frames : List Frame} {text front head tail rest : Text} {lines : List Text}

section Lexing

theorem tidy_of_aligned {finish : Text} (quotable : Quotable frames)
    (delimited : Delimited frames (joinWith ['\n'] lines ++ finish))
    (aligned : Aligned frames lines) : Tidy (inString frames) lines := by
  induction lines generalizing frames with
  | nil => trivial
  | cons line rest ih =>
      cases rest with
      | nil => trivial
      | cons next more =>
          rw [joinWith_cons _ _ (List.cons_ne_nil next more), List.append_assoc, List.append_assoc,
            List.singleton_append] at delimited
          obtain ⟨opens, closes, further⟩ := aligned
          obtain ⟨spoken, reads⟩ := reads_line quotable line
            (joinWith ['\n'] (next :: more) ++ finish)
          obtain ⟨used, shape, later, odd⟩ := delimited.inString_reads reads
          have same : line ++ ['\n'] ++ (joinWith ['\n'] (next :: more) ++ finish) =
              used ++ (joinWith ['\n'] (next :: more) ++ finish) := by
            rw [← shape, List.append_assoc, List.singleton_append]
          obtain rfl := List.append_cancel_right same
          rw [turns_newline] at odd
          refine ⟨⟨fun inside found => ?_, fun outside turn => ?_⟩, ?_⟩
          · have quotes := contains_iff_infix.mp found
            rw [closes inside quotes, inside] at odd
            simpa using odd
          · rw [outside, turn] at odd
            exact opens outside odd
          · rw [← odd]
            exact ih (reads.quotable quotable) later further

/-- The lexer reads the inside of a string from behind its quotes. -/
theorem StringAt.reads (string : StringAt text front head tail rest) :
    ∃ spoken, Reads [] text spoken [.quoted '"' true]
      (head ++ '\n' :: (tail ++ (blockQuote ++ rest))) := by
  obtain ⟨spoken, reads⟩ := string.opens
  exact ⟨_, reads.trans (.on .here)⟩

theorem StringAt.delimited (string : StringAt text front head tail rest)
    (delimited : Delimited [] text) :
    Delimited [.quoted '"' true] (head ++ '\n' :: (tail ++ (blockQuote ++ rest))) := by
  obtain ⟨spoken, reads⟩ := string.opens
  obtain ⟨_, _, here, _⟩ := delimited.inString_reads reads
  exact here.within

-- A string holds no three quotes before those that close it.
theorem StringAt.bare (string : StringAt text front head tail rest)
    (delimited : Delimited [] text) : ¬blockQuote <:+: head ++ '\n' :: tail := by
  rintro ⟨before, after, inside⟩
  obtain ⟨_, _, first⟩ := string.closes.first (string.delimited delimited) (by decide)
  refine first (blockQuote ++ (after ++ (blockQuote ++ rest))) ⟨before, ?_⟩ ?_
    (List.prefix_append _ _)
  · calc
      before ++ (blockQuote ++ (after ++ (blockQuote ++ rest))) =
          before ++ blockQuote ++ after ++ (blockQuote ++ rest) := by simp
      _ = head ++ '\n' :: (tail ++ (blockQuote ++ rest)) := by rw [inside]; simp
  · simp only [List.length_append, blockQuote]
    simp
    omega

theorem StringAt.unclosed {content : List Text} {foot : Text}
    (string : StringAt text front head tail rest) (delimited : Delimited [] text)
    (parts : splitAt '\n' tail = content ++ [foot]) :
    ∀ line ∈ content, closesBlockString line = false := by
  intro line member
  cases closes : closesBlockString line with
  | false => rfl
  | true =>
      have within : line <:+: joinWith ['\n'] (content ++ [foot]) :=
        infix_joinWith (List.mem_append_left _ member)
      rw [← parts, joinWith_splitAt] at within
      have later : tail <:+ head ++ '\n' :: tail :=
        (List.suffix_cons '\n' tail).trans (List.suffix_append head _)
      have quotes := contains_iff_infix.mp closes
      exact absurd ((quotes.trans within).trans later.isInfix) (string.bare delimited)

/-- After the line that opens a string the string is open. -/
theorem StringAt.open_after {above : List Text} {first : Text}
    (string : StringAt text front head tail rest) (delimited : Delimited [] text)
    (split : splitAt '\n' (front ++ (blockQuote ++ head)) = above ++ [first]) :
    openAfter false (above ++ [first]) = true := by
  have quotable : Quotable [.quoted '"' true] := by
    rintro quote triple member
    obtain ⟨rfl, rfl⟩ := Frame.quoted.inj (List.mem_singleton.mp member)
    decide
  have even : turns head = false := by
    cases odd : turns head with
    | false => rfl
    | true =>
        exact absurd ((infix_of_turns odd).trans (List.prefix_append head _).isInfix)
          (string.bare delimited)
  obtain ⟨spoken, reads⟩ := string.reads
  obtain ⟨heard, line⟩ := reads_line quotable head (tail ++ (blockQuote ++ rest))
  obtain ⟨inner, shape, _, still⟩ := (string.delimited delimited).inString_reads line
  obtain ⟨used, whole, _, odd⟩ := delimited.inString_reads (reads.trans line)
  have first_line : head ++ ['\n'] ++ (tail ++ (blockQuote ++ rest)) =
      inner ++ (tail ++ (blockQuote ++ rest)) := by
    rw [← shape, List.append_assoc, List.singleton_append]
  obtain rfl := List.append_cancel_right first_line
  have so_far : front ++ (blockQuote ++ head) ++ ['\n'] ++ (tail ++ (blockQuote ++ rest)) =
      used ++ (tail ++ (blockQuote ++ rest)) := by
    rw [← whole, string.shape]
    simp
  obtain rfl := List.append_cancel_right so_far
  rw [still, turns_newline, even] at odd
  rw [openAfter_eq, flatMap_lines (by simp), ← split, joinWith_splitAt]
  exact odd.symm

end Lexing

section Lines

-- The newline at the very end of a text is of no matter to the lines before it.
theorem physicalLines_quote {c : Char} (other : c ≠ '\n') (rest : Text) :
    ∃ body, ∀ front, physicalLines (front ++ c :: rest) = splitAt '\n' (front ++ c :: body) := by
  have dropped (front : Text) : dropSuffix? ['\n'] (front ++ c :: rest) =
      (dropSuffix? ['\n'] rest).map (front ++ c :: ·) := by
    cases found : dropSuffix? ['\n'] rest with
    | some body =>
        rw [Option.map_some, dropSuffix?_eq_some_iff, dropSuffix?_eq_some_iff.mp found]
        simp
    | none =>
        cases whole : dropSuffix? ['\n'] (front ++ c :: rest) with
        | none => rfl
        | some body =>
            have shape := dropSuffix?_eq_some_iff.mp whole
            rcases List.eq_nil_or_concat rest with rfl | ⟨inner, last, rfl⟩
            · exact absurd (List.append_singleton_inj.mp shape).2 other
            · rw [List.concat_eq_append, ← List.cons_append, ← List.append_assoc] at shape
              obtain rfl := (List.append_singleton_inj.mp shape).2
              have here : dropSuffix? ['\n'] (inner.concat '\n') = some inner :=
                dropSuffix?_eq_some_iff.mpr List.concat_eq_append
              exact absurd (here.symm.trans found) (by simp)
  refine ⟨(dropSuffix? ['\n'] rest).getD rest, fun front => ?_⟩
  rw [physicalLines, dropped front]
  cases dropSuffix? ['\n'] rest <;> simp

/-- The lines that a string goes over. -/
theorem StringAt.on_lines (string : StringAt text front head tail rest) :
    ∃ above first content foot further after,
      physicalLines text = above ++ first :: (content ++ (foot ++ (blockQuote ++ further)) :: after) ∧
      splitAt '\n' (front ++ (blockQuote ++ head)) = above ++ [first] ∧ blockQuote <:+: first ∧
      splitAt '\n' tail = content ++ [foot] ∧
      physicalLines (tail ++ (blockQuote ++ rest)) =
        content ++ (foot ++ (blockQuote ++ further)) :: after := by
  obtain ⟨above, first, split⟩ := exists_splitAt_concat '\n' (front ++ (blockQuote ++ head))
  obtain ⟨content, foot, parts⟩ := exists_splitAt_concat '\n' tail
  obtain ⟨before, start, begin_⟩ := exists_splitAt_concat '\n' front
  obtain ⟨body, whole⟩ := physicalLines_quote (show '"' ≠ '\n' by decide) rest
  have lines (front : Text) : physicalLines (front ++ (blockQuote ++ rest)) =
      splitAt '\n' (front ++ (blockQuote ++ body)) := by
    simpa [blockQuote] using whole (front ++ ['"', '"'])
  have quotes : splitAt '\n' blockQuote = [] ++ [blockQuote] := by decide
  obtain ⟨further, after, closing⟩ := List.exists_cons_of_ne_nil (splitAt_ne_nil '\n' body)
  have last := splitAt_meet parts (splitAt_meet quotes closing)
  have opening : splitAt '\n' (blockQuote ++ head) = [blockQuote ++ head] := by
    apply splitAt_of_not_mem
    rw [List.mem_append, not_or]
    exact ⟨by decide, string.flat⟩
  have same := (splitAt_meet begin_ opening).symm.trans split
  refine ⟨above, first, content, foot, further, after, ?_, split, ?_, parts, ?_⟩
  · have shape : text = front ++ (blockQuote ++ head) ++ '\n' :: tail ++ (blockQuote ++ rest) := by
      rw [string.shape]
      simp
    rw [shape, lines, List.append_assoc _ ('\n' :: tail), List.cons_append, splitAt_append, split,
      last]
    simp
  · rw [← (List.append_singleton_inj.mp same).2]
    exact ⟨start, head, by simp⟩
  · rw [lines, last]

theorem joinWith_physicalLines (some : physicalLines text ≠ []) :
    ∃ finish, text = joinWith ['\n'] (physicalLines text) ++ finish := by
  rw [physicalLines] at some ⊢
  split at some
  · exact absurd rfl some
  · next written =>
      rw [if_neg written, joinWith_splitAt]
      cases dropped : dropSuffix? ['\n'] text with
      | none => exact ⟨[], (List.append_nil text).symm⟩
      | some body => exact ⟨['\n'], dropSuffix?_eq_some_iff.mp dropped⟩

/-- A string is opened outside of every other, by a line of an odd number of quotes. -/
theorem StringAt.outside {above below : List Text} {first : Text}
    (string : StringAt text front head tail rest) (delimited : Delimited [] text)
    (aligned : Aligned [] (physicalLines text)) (lines : physicalLines text = above ++ first :: below)
    (more : below ≠ []) (quotes : blockQuote <:+: first)
    (split : splitAt '\n' (front ++ (blockQuote ++ head)) = above ++ [first]) :
    Tidy false (physicalLines text) ∧ openAfter false above = false ∧ turns first = true := by
  have some : physicalLines text ≠ [] := by
    rw [lines]
    simp
  obtain ⟨finish, whole⟩ := joinWith_physicalLines some
  have tidy : Tidy false (physicalLines text) :=
    tidy_of_aligned Quotable.nil (whole ▸ delimited) aligned
  have opened := string.open_after delimited split
  have still := tidy
  rw [lines] at still
  obtain ⟨fits, _⟩ := still.drop.cons more
  rw [openAfter_append, openAfter, List.foldl_cons, List.foldl_nil] at opened
  cases outside : openAfter false above with
  | false => exact ⟨tidy, rfl, by simpa [outside] using opened⟩
  | true =>
      have shut : closesBlockString first = true := contains_iff_infix.mpr quotes
      have odd := fits.closes outside shut
      rw [outside, odd] at opened
      exact absurd opened (by simp)

end Lines

end Brewery.Script

namespace Brewery.Expander

open Script Text Coffee

/-- What stands on the line that closes a string before its quotes is written as it is, or it is
white space alone. -/
def Kept (foot written : Text) : Prop :=
  written = foot ∨ ∀ c ∈ foot ++ written, isBlank c = true

/-- How a string is written that begins on a line before the given ones and is closed behind the
last of them, in a file of the given indentation. -/
structure PassesThrough (indent : Text) (content : List Text) (foot : Text)
    (lines : List OutLine) : Prop where
  written : ∃ earlier opening further later, occurrences blockQuote opening % 2 = 1 ∧
    lines = earlier ++ (⟨.code, indent ++ opening⟩ :: content.map (OutLine.mk .content) ++
      ⟨.code, indent ++ foot ++ blockQuote ++ further⟩ :: later) ∧
    OutLine.render lines = OutLine.render earlier ++ indent ++ opening ++ '\n' ::
      (joinWith ['\n'] (content ++ [indent ++ foot]) ++ (blockQuote ++ further)) ++ '\n' ::
        OutLine.render later
  kept : Kept foot (indent ++ foot) ↔ indent = [] ∨ ∀ c ∈ foot, isBlank c = true

variable {expander : Expander} {disk : Disk} {whole text front head tail rest : Text}
  {origin : Path} {here start : Standing} {lines : List OutLine}

theorem kept_iff {indent foot : Text} (blank : ∀ c ∈ indent, isBlank c = true) :
    Kept foot (indent ++ foot) ↔ indent = [] ∨ ∀ c ∈ foot, isBlank c = true := by
  constructor
  · rintro (same | all)
    · exact Or.inl (List.append_left_eq_self.mp same)
    · exact Or.inr fun c member => all c (List.mem_append_left _ member)
  · rintro (rfl | alone)
    · exact Or.inl rfl
    · refine Or.inr fun c member => ?_
      simp only [List.mem_append] at member
      rcases member with own | outer | own
      · exact alone c own
      · exact blank c outer
      · exact alone c own

theorem Reached.comes {name : Text} {number last : Nat} {before after : List Text}
    (reached : Reached expander disk whole origin here) (comes : Comes name number before last after)
    (expands : expander.expandLines disk whole origin = .ok lines)
    (named : here.origin.displayName = name) (at_ : here.number = number)
    (own : here.lines = before) :
    ∃ there, Reached expander disk whole origin there ∧ there.origin = here.origin ∧
      there.number = last ∧ there.lines = after ∧ there.indents = here.indents := by
  induction comes generalizing here with
  | here => exact ⟨here, reached, rfl, at_, own, rfl⟩
  | @on number last before after taken next further ih =>
      subst named at_ own
      obtain ⟨more, _, fine, _⟩ := reached.output expands
      rw [Standing.result_of_next next, expandItems_cons_eq_ok] at fine
      obtain ⟨out, _, alone, _, _⟩ := fine
      exact @ih (here.past taken out) (reached.tail (.pass next alone)) rfl rfl rfl

/-- What a block string in a reached file is written as. -/
theorem Reached.blockString {line closing : Text} {more content after : List Text}
    (reached : Reached expander disk whole origin here)
    (expands : expander.expandLines disk whole origin = .ok lines)
    (before : here.lines = line :: more)
    (left : (logicalLine here.origin.displayName here.number line more).rest =
      content ++ closing :: after)
    (kind : classify (logicalLine here.origin.displayName here.number line more).line =
      .blockString)
    (open_ : ∀ line ∈ content, closesBlockString line = false)
    (closes : closesBlockString closing = true) :
    ∃ later, lines = here.written ++ (⟨.code, here.indent ++
        (logicalLine here.origin.displayName here.number line more).line⟩ ::
      content.map (OutLine.mk .content) ++ ⟨.code, here.indent ++ closing⟩ :: later) := by
  have block : close? closesBlockString
      (logicalLine here.origin.displayName here.number line more).rest =
        some (content, closing, after) := close?_eq_some_iff.mpr ⟨left, open_, closes⟩
  have next : here.next? = some ⟨.block
      (logicalLine here.origin.displayName here.number line more).line content closing,
      (logicalLine here.origin.displayName here.number line more).number + content.length + 1,
      after⟩ := by
    simp only [Standing.next?, before, take?, kind, block]
  have quote {line : Text} (quotes : closesBlockString line = true) : '"' ∈ line := by
    have inside := contains_iff_infix.mp quotes
    exact inside.subset (by decide)
  exact reached.block expands next (quote (closes_of_turns (turns_of_classify kind))) (quote closes)

/-- Strings in three quotes pass through. In a file of a successful expansion that has no literal
block, every string that the lexer reads and that begins above an end marker is written as it is
from the line after the one that opens it to the line that closes it, and that line with the file's
indentation before it; so it is kept whole if the file is not indented or nothing but white space
stands before the quotes, and not otherwise. -/
theorem block_strings_pass (reached : Reached expander disk whole origin start)
    (begins : start.number = 1) (own : start.lines = physicalLines text)
    (expands : expander.expandLines disk whole origin = .ok lines)
    (delimited : Delimited [] text)
    (free : ∀ number line below,
      Comes start.origin.displayName 1 (physicalLines text) number (line :: below) →
      ∀ head tag, classify (logicalLine start.origin.displayName number line below).line ≠
        .literal head tag)
    (aligned : Aligned [] (physicalLines text))
    (bland : fileToken <:+: text → Bland start.origin.displayName)
    (string : StringAt text front head tail rest)
    (runs : ∀ number line below,
      Comes start.origin.displayName 1 (physicalLines text) number (line :: below) →
      classify (logicalLine start.origin.displayName number line below).line = .finish →
      below.length < (physicalLines (tail ++ (blockQuote ++ rest))).length) :
    ∃ content foot, splitAt '\n' tail = content ++ [foot] ∧
      PassesThrough start.indent content foot lines := by
  obtain ⟨above, first, content, foot, further, after, split, opening, quotes, parts, below⟩ :=
    string.on_lines
  obtain ⟨tidy, outside, opens⟩ := string.outside delimited aligned split (by simp) quotes opening
  have named : ∀ line ∈ physicalLines text, fileToken <:+: line →
      Bland start.origin.displayName :=
    fun line member inside => bland (inside.trans (infix_of_mem_physicalLines member))
  have ahead : Ahead start.origin.displayName 1 (physicalLines text) above first
      (content ++ (foot ++ (blockQuote ++ further)) :: after) := {
    shape := split
    more := by simp
    bland := named
    tidy := tidy
    outside := outside
    opens := opens
    terminated := by
      intro last final taken comes next
      obtain ⟨there, arrived, same, at_, before, _⟩ :=
        reached.comes comes expands rfl begins own
      have found : there.next? = some taken := by
        rw [Standing.next?, same, at_, before]
        exact next
      exact arrived.terminated expands found
    free := fun comes => free _ _ _ comes
    runs := fun comes ends => below ▸ runs _ _ _ comes ends }
  obtain ⟨last, line, more, comes, left, kind⟩ := ahead.comes
  obtain ⟨there, arrived, same, at_, before, indents⟩ :=
    reached.comes comes expands rfl begins own
  rw [← same, ← at_] at left kind
  have inner := string.unclosed delimited parts
  have closes : closesBlockString (foot ++ (blockQuote ++ further)) = true :=
    contains_iff_infix.mpr ⟨foot, further, by simp⟩
  obtain ⟨later, output⟩ := arrived.blockString expands before left kind inner closes
  have indent : there.indent = start.indent := congrArg List.flatten indents
  rw [indent] at output
  refine ⟨content, foot, parts, ⟨there.written, _, further, later,
    of_decide_eq_true (turns_of_classify kind), ?_, ?_⟩, ?_⟩
  · rw [output]
    simp
  · rw [output, OutLine.render_append, List.cons_append, OutLine.render_cons, OutLine.render_lines,
      ← List.append_assoc start.indent foot, joinWith_last]
    simp
  · exact kept_iff reached.indent_blank

section Included

def quotedText : Text := "\"\"\"\n\x7b\x7bLINE\x7d\x7d\n  \"\"\"\n".toList

/-- A file that is nothing but a string. -/
def quotedDisk : Disk where
  nodes := [(["a".toList], .file (.text quotedText) 0)]
  current := []
  clock := 0

/-- Before the first line of the file, which is included with an indentation. -/
def atQuoted : Standing :=
  (Standing.outset quotedDisk "  include a\n".toList innerPath).inside "  ".toList outerPath
    ["a".toList] quotedText

theorem quoted_found : plain.findInclude quotedDisk innerPath "a".toList =
    some (outerPath, ["a".toList], .text quotedText) :=
  findInclude_first rfl (outer_held rfl)

theorem quoted_plain : ∀ c ∈ "\n\x7b\x7bLINE\x7d\x7d\n  ".toList, c ≠ '"' ∧ c ≠ '\\' ∧ c ≠ '#' := by
  have plain : ("\n\x7b\x7bLINE\x7d\x7d\n  ".toList.all fun c =>
    c ≠ '"' ∧ c ≠ '\\' ∧ c ≠ '#') = true := by decide
  exact fun c member => of_decide_eq_true (List.all_eq_true.mp plain c member)

theorem quoted_string : StringAt quotedText [] [] "\x7b\x7bLINE\x7d\x7d\n  ".toList ['\n'] where
  shape := rfl
  flat := List.not_mem_nil
  opens := ⟨[], .here⟩
  closes := Encloses.pass quoted_plain (.ends rfl)

theorem quoted_delimited : Delimited [] quotedText := by
  have newline : Delimited [] ['\n'] := by
    refine .other (fun later suffix _ found => ?_) .done
    exact absurd (found.length_le.trans suffix.length_le) (by decide)
  exact .opening (Delimited.pass quoted_plain (.closing newline))

theorem quoted_lines : physicalLines quotedText =
    ["\"\"\"".toList, "\x7b\x7bLINE\x7d\x7d".toList, "  \"\"\"".toList] := by
  decide +kernel

theorem quoted_aligned : Aligned [] (physicalLines quotedText) := by
  rw [quoted_lines]
  refine ⟨fun _ _ => ⟨by decide, by decide⟩, fun inside => absurd inside (by decide), ?_⟩
  refine ⟨fun outside => absurd outside (by decide +kernel),
    fun _ found => absurd found (by rw [← contains_iff_infix]; decide), ?_⟩
  exact ⟨fun outside => absurd outside (by decide +kernel), fun _ _ => by decide +kernel, trivial⟩

theorem quoted_comes {number : Nat} {line : Text} {below : List Text}
    (comes : Comes outerPath.displayName 1 (physicalLines quotedText) number (line :: below)) :
    classify (logicalLine outerPath.displayName number line below).line = .blockString := by
  rw [quoted_lines] at comes
  cases comes with
  | here => decide +kernel
  | on next further =>
      have taken : take? outerPath.displayName 1 ["\"\"\"".toList,
          "\x7b\x7bLINE\x7d\x7d".toList, "  \"\"\"".toList] = some ⟨.block "\"\"\"".toList
            ["\x7b\x7bLINE\x7d\x7d".toList] "  \"\"\"".toList, 4, []⟩ := by decide +kernel
      cases next.symm.trans taken
      cases further with
      | on next _ => exact absurd next (by simp [take?])

/-- A string in a file that is included with an indentation: the token in it stays. -/
theorem quoted_passes : ∃ lines content foot,
    plain.expandLines quotedDisk "  include a\n".toList innerPath = .ok lines ∧
      splitAt '\n' "\x7b\x7bLINE\x7d\x7d\n  ".toList = content ++ [foot] ∧
      PassesThrough "  ".toList content foot lines := by
  have includes : (Standing.outset quotedDisk "  include a\n".toList innerPath).Includes plain
      quotedDisk 1 "include a".toList "  ".toList outerPath ["a".toList] (.text quotedText) :=
    ⟨"a".toList, 2, [], by decide +kernel, quoted_found⟩
  have reached : Reached plain quotedDisk "  include a\n".toList innerPath atQuoted :=
    .single (.enter includes (by decide +kernel))
  have outer : itemsOf innerPath.displayName "  include a\n".toList =
      [.inclusion 1 "include a".toList "  ".toList "a".toList] := by decide +kernel
  have inner : itemsOf outerPath.displayName quotedText = [.block "\"\"\"".toList
      ["\x7b\x7bLINE\x7d\x7d".toList] "  \"\"\"".toList] := by decide +kernel
  have expands : ∃ lines, plain.expandLines quotedDisk "  include a\n".toList innerPath =
      .ok lines := by
    rw [expandLines, outer, expandItems_inclusion, quoted_found]
    have fresh : onStack [stackEntry quotedDisk innerPath] outerPath = false := by decide +kernel
    simp only [show Place.path ["a".toList] = outerPath from rfl, fresh, inner, expandItems_block]
    exact ⟨_, rfl⟩
  obtain ⟨lines, expands⟩ := expands
  obtain ⟨content, foot, parts, passes⟩ := block_strings_pass reached rfl rfl expands
    quoted_delimited
    (fun _ _ _ comes head tag literal => absurd ((quoted_comes comes).symm.trans literal) (by simp))
    quoted_aligned (fun inside => absurd inside (by rw [← contains_iff_infix]; decide)) quoted_string
    (fun _ _ _ comes ends => absurd ((quoted_comes comes).symm.trans ends) (by simp))
  exact ⟨lines, content, foot, expands, parts, passes⟩

end Included

end Brewery.Expander
