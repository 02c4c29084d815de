import Brewery.Proofs.Path.Parts
import Brewery.Proofs.Script.Line
import Brewery.Proofs.Text.Replace
import Brewery.Text.Letter
import Mathlib.Algebra.Ring.Parity
import Mathlib.Order.Bounds.Basic

/-!
The grammar of lines. `Form` says of each kind of line how such a line is written, without a word
about trimming or searching, and a line is of a kind exactly when it is written so. What the reader
finds from the end of a line or from its front is there in one way only.
-/

namespace Brewery

namespace Text

section Occurrences

variable {pattern text : Text} {count : Nat}

/-- The pattern stands so many times in the text, nowhere over itself. -/
def Holds (pattern text : Text) (count : Nat) : Prop :=
  ∃ parts : List Text, parts.length = count + 1 ∧ joinWith pattern parts = text

theorem joinWith_onto (pattern front part : Text) (parts : List Text) :
    joinWith pattern ((front ++ part) :: parts) = front ++ joinWith pattern (part :: parts) := by
  cases parts with
  | nil => rfl
  | cons next more => simp [joinWith]

theorem holds_occurrences (some : pattern ≠ []) (text : Text) :
    Holds pattern text (occurrences pattern text) := by
  induction text using occurrences.induct pattern with
  | case1 => exact ⟨[[]], by rw [occurrences]; rfl, rfl⟩
  | case2 first rest found ih =>
      obtain ⟨more, shape, further⟩ := drop_found some found
      rw [further] at ih
      obtain ⟨parts, size, joined⟩ := ih
      refine ⟨[] :: parts, ?_, ?_⟩
      · rw [occurrences, if_pos found, further, List.length_cons, size]
      · rw [joinWith_cons _ _ (List.ne_nil_of_length_eq_add_one size), joined, List.nil_append, shape]
  | case3 first rest missing ih =>
      obtain ⟨parts, size, joined⟩ := ih
      obtain ⟨part, parts, rfl⟩ := List.exists_cons_of_length_eq_add_one size
      refine ⟨([first] ++ part) :: parts, ?_, ?_⟩
      · rw [occurrences, if_neg missing, ← size, List.length_cons, List.length_cons]
      · rw [joinWith_onto, joined, List.singleton_append]

theorem Holds.le (holds : Holds pattern text count) (some : pattern ≠ []) :
    count ≤ occurrences pattern text := by
  obtain ⟨parts, size, joined⟩ := holds
  obtain ⟨part, parts, rfl⟩ := List.exists_cons_of_length_eq_add_one size
  obtain rfl : parts.length = count := Nat.succ_inj.mp size
  clear size
  induction text using occurrences.induct pattern generalizing part parts with
  | case1 =>
      cases parts with
      | nil => exact Nat.zero_le _
      | cons next more =>
          rw [joinWith_cons _ _ (List.cons_ne_nil next more)] at joined
          exact absurd joined (by simp [some])
  | case2 first rest found ih =>
      cases parts with
      | nil => exact Nat.zero_le _
      | cons next more =>
          obtain ⟨after, shape, further⟩ := drop_found some found
          rw [further] at ih
          rw [joinWith_cons _ _ (List.cons_ne_nil next more), ← shape] at joined
          -- The first of the parts may be longer, but the pattern behind it is not met earlier.
          obtain ⟨front, back⟩ : ∃ front, after = front ++ joinWith pattern (next :: more) := by
            rcases List.append_eq_append_iff.mp joined with ⟨excess, long, same⟩ | ⟨excess, _, same⟩
            · have size := congrArg List.length long
              simp only [List.length_append] at size
              obtain rfl : excess = [] := List.eq_nil_of_length_eq_zero (by omega)
              exact ⟨[], same.symm⟩
            · exact ⟨excess, same⟩
          have fewer := ih (front ++ next) more (by rw [joinWith_onto, back])
          rw [occurrences, if_pos found, further, List.length_cons]
          exact Nat.succ_le_succ fewer
  | case3 first rest missing ih =>
      cases parts with
      | nil => exact Nat.zero_le _
      | cons next more =>
          rw [occurrences, if_neg missing]
          cases part with
          | nil =>
              rw [joinWith_cons _ _ (List.cons_ne_nil next more), List.nil_append] at joined
              exact absurd (List.isPrefixOf_iff_prefix.mpr ⟨_, joined⟩) missing
          | cons c part =>
              have shorter := (joinWith_onto pattern [c] part (next :: more)).symm.trans joined
              exact ih part (next :: more) (List.cons.inj shorter).2

/-- A search from the left finds a pattern as often as it stands in the text at all. -/
theorem occurrences_isGreatest (some : pattern ≠ []) (text : Text) :
    IsGreatest {count | Holds pattern text count} (occurrences pattern text) :=
  ⟨holds_occurrences some text, fun _ holds => holds.le some⟩

end Occurrences

end Text

namespace Script

open Text

variable {line head tag gap raw target indent : Text}

section Grammar

/-- The end marker between white space. -/
def Ends (line : Text) : Prop :=
  ∃ before after, Blanks before ∧ Blanks after ∧ line = before ++ endMarker ++ after

/-- A line whose first character that shows is `#`. -/
def Marked (line : Text) : Prop := ∃ before rest, Blanks before ∧ line = before ++ '#' :: rest

/-- A letter or an underscore, and then letters, digits and underscores. -/
def IsTag (tag : Text) : Prop :=
  ∃ first rest, tag = first :: rest ∧ (first.isAlpha = true ∨ first = '_') ∧
    ∀ c ∈ rest, c.isAlphanum = true ∨ c = '_'

/-- The mark with a tag at the end of the line, and what stands before and behind them. -/
structure OpensLiteral (line head tag gap : Text) : Prop where
  parts : line = head ++ literalMark ++ tag ++ gap
  named : IsTag tag
  ends : Blanks gap

/-- A line that holds block quotes an odd number of times. -/
def OpensString (line : Text) : Prop :=
  ∃ count, IsGreatest {count | Holds blockQuote line count} count ∧ Odd count

/-- The quotes in which a target may stand. -/
def targetQuotes : List (Char × Char) := [('"', '"'), ('\'', '\''), ('<', '>')]

/-- A target that is in quotes, and what is in them; any other is what it is. -/
inductive Unquoted : Text → Text → Prop where
  | quoted {opening closing : Char} {inner : Text} (pair : (opening, closing) ∈ targetQuotes) :
      Unquoted (opening :: (inner ++ [closing])) inner
  | bare {raw : Text} (apart : ∀ opening closing inner, (opening, closing) ∈ targetQuotes →
      raw ≠ opening :: (inner ++ [closing])) : Unquoted raw raw

/-- The word of a directive, with or without a `#`, and a target at a distance from it. -/
inductive Directive (line indent target : Text) : Prop where
  | intro {mark gap raw after : Text}
      (parts : line = indent ++ mark ++ includeWord ++ gap ++ raw ++ after)
      (indented : Blanks indent) (marked : mark = [] ∨ mark = ['#']) (apart : Blanks gap)
      (wide : gap ≠ []) (tight : Tight raw) (ends : Blanks after) (names : Unquoted raw target)

/-- A line that neither ends the script nor opens a block. -/
structure Lone (line : Text) : Prop where
  runs : ¬Ends line
  opens : Marked line ∨ (∀ head tag gap, ¬OpensLiteral line head tag gap) ∧ ¬OpensString line

/-- How the lines of each kind are written. -/
inductive Form (line : Text) : LineKind → Prop where
  | finish (ends : Ends line) : Form line .finish
  | literal {head tag gap : Text} (runs : ¬Ends line) (bare : ¬Marked line)
      (opens : OpensLiteral line head tag gap) : Form line (.literal head tag)
  | blockString (runs : ¬Ends line) (bare : ¬Marked line)
      (plain : ∀ head tag gap, ¬OpensLiteral line head tag gap) (opens : OpensString line) :
      Form line .blockString
  | inclusion {indent target : Text} (lone : Lone line) (includes : Directive line indent target) :
      Form line (.inclusion indent target)
  | blank (lone : Lone line) (alone : ∀ indent target, ¬Directive line indent target)
      (empty : Blanks line) : Form line .blank
  | comment (lone : Lone line) (alone : ∀ indent target, ¬Directive line indent target)
      (written : ¬Blanks line) (marked : Marked line) : Form line .comment
  | code (lone : Lone line) (alone : ∀ indent target, ¬Directive line indent target)
      (written : ¬Blanks line) (bare : ¬Marked line) : Form line .code

end Grammar

theorem tight_endMarker : Tight endMarker where
  some := by decide
  first := by
    rintro c first
    obtain rfl : '_' = c := Option.some.inj first
    decide
  last := by
    rintro c last
    obtain rfl : '_' = c := Option.some.inj last
    decide

theorem trim_iff_ends : trim line = endMarker ↔ Ends line := trim_eq_iff tight_endMarker

theorem isComment_iff_marked : isComment line = true ↔ Marked line := by
  rw [isComment_iff, List.find?_eq_some_iff_append]
  constructor
  · rintro ⟨_, before, rest, shape, blank⟩
    exact ⟨before, rest, fun c member => by simpa [seen] using blank c member, shape⟩
  · rintro ⟨before, rest, blank, shape⟩
    exact ⟨by decide, before, rest, shape, fun c member => by simpa [seen] using blank c member⟩

theorem odd_occurrences_iff : occurrences blockQuote line % 2 = 1 ↔ OpensString line := by
  have most := occurrences_isGreatest (by decide : blockQuote ≠ []) line
  rw [← Nat.odd_iff]
  constructor
  · intro odd
    exact ⟨_, most, odd⟩
  · rintro ⟨count, greatest, odd⟩
    rwa [most.unique greatest]

section Literals

theorem isTagCharacter_iff (c : Char) : isTagCharacter c = true ↔ c.isAlphanum = true ∨ c = '_' := by
  simp [isTagCharacter]

theorem not_digit_of_alpha {c : Char} (alpha : c.isAlpha = true) : c.isDigit = false := by
  rw [Bool.eq_false_iff, Ne, isDigit_iff]
  rw [isAlpha_iff] at alpha
  omega

theorem isTag_iff : IsTag tag ↔ (∃ first rest, tag = first :: rest ∧ first.isDigit = false) ∧
    ∀ c ∈ tag, isTagCharacter c = true := by
  have letter (first : Char) : first.isAlpha = true ∨ first = '_' ↔
      first.isDigit = false ∧ isTagCharacter first = true := by
    rw [isTagCharacter_iff, Char.isAlphanum, Bool.or_eq_true]
    constructor
    · rintro (alpha | rfl)
      · exact ⟨not_digit_of_alpha alpha, Or.inl (Or.inl alpha)⟩
      · exact ⟨by decide, Or.inr rfl⟩
    · rintro ⟨digit, (alpha | own) | rfl⟩
      · exact Or.inl alpha
      · exact absurd (own.symm.trans digit) (by simp)
      · exact Or.inr rfl
  simp only [IsTag, ← isTagCharacter_iff]
  constructor
  · rintro ⟨first, rest, rfl, own, later⟩
    obtain ⟨other, named⟩ := (letter first).mp own
    exact ⟨⟨first, rest, rfl, other⟩, List.forall_mem_cons.mpr ⟨named, later⟩⟩
  · rintro ⟨⟨first, rest, rfl, other⟩, named⟩
    obtain ⟨own, later⟩ := List.forall_mem_cons.mp named
    exact ⟨first, rest, rfl, (letter first).mpr ⟨other, own⟩, later⟩

theorem not_blank_of_tagCharacter {c : Char} (named : isTagCharacter c = true) : isBlank c = false := by
  have range : 48 ≤ c.toNat ∧ c.toNat ≤ 122 := by
    rcases (isTagCharacter_iff c).mp named with letter | rfl
    · rw [Char.isAlphanum, Bool.or_eq_true, isAlpha_iff, isDigit_iff] at letter
      omega
    · decide
  simp [isBlank]
  omega

theorem literalOpening?_named (opens : literalOpening? line = some (head, tag)) : IsTag tag := by
  simp only [literalOpening?] at opens
  split at opens
  · next first rest _ tail =>
      split at opens
      · exact absurd opens (by simp)
      · next letter =>
          cases opens
          rw [tail]
          refine isTag_iff.mpr ⟨⟨first, rest, rfl, by simpa using letter⟩, fun c member => ?_⟩
          rw [← tail, List.mem_reverse] at member
          exact List.mem_takeWhile_imp member
  · exact absurd opens (by simp)

-- Read from its end, the line is the tag up to the mark, which no tag holds a character of.
theorem OpensLiteral.found (opens : OpensLiteral line head tag gap) :
    literalOpening? line = some (head, tag) := by
  obtain ⟨rfl, named, ends⟩ := opens
  obtain ⟨⟨first, rest, rfl, letter⟩, named⟩ := isTag_iff.mp named
  have last : ∀ c ∈ (head ++ literalMark ++ first :: rest).getLast?, isBlank c = false := by
    intro c member
    rw [List.getLast?_append_of_ne_nil _ (List.cons_ne_nil first rest)] at member
    exact not_blank_of_tagCharacter (named c (List.mem_of_getLast? member))
  have whole : (head ++ literalMark ++ first :: rest).reverse =
      (first :: rest).reverse ++ (literalMark.reverse ++ head.reverse) := by simp
  have backwards : ∀ c ∈ (first :: rest).reverse, isTagCharacter c = true :=
    fun c member => named c (List.mem_reverse.mp member)
  have taken : (head ++ literalMark ++ first :: rest).reverse.takeWhile isTagCharacter =
      (first :: rest).reverse := by
    rw [whole, List.takeWhile_append_of_pos backwards]
    exact List.append_nil _
  have left : (head ++ literalMark ++ first :: rest).reverse.dropWhile isTagCharacter =
      literalMark.reverse ++ head.reverse := by
    rw [whole, List.dropWhile_append_of_pos backwards]
    rfl
  have front : dropSuffix? literalMark (literalMark.reverse ++ head.reverse).reverse = some head := by
    rw [dropSuffix?_eq_some_iff]
    simp
  simp only [literalOpening?, trimEnd_append ends last, taken, left, front, List.reverse_reverse,
    letter]
  rfl

theorem literalOpening?_iff :
    literalOpening? line = some (head, tag) ↔ ∃ gap, OpensLiteral line head tag gap := by
  constructor
  · intro opens
    refine ⟨trailing line, ?_, literalOpening?_named opens, blanks_trailing line⟩
    rw [← literalOpening?_shape opens, trimEnd_append_trailing]
  · rintro ⟨gap, opens⟩
    exact opens.found

/-- A line opens a literal block in one way at most. -/
theorem OpensLiteral.unique {head' tag' gap' : Text} (opens : OpensLiteral line head tag gap)
    (other : OpensLiteral line head' tag' gap') : head = head' ∧ tag = tag' ∧ gap = gap' := by
  cases opens.found.symm.trans other.found
  exact ⟨rfl, rfl, List.append_cancel_left (opens.parts.symm.trans other.parts)⟩

theorem literalOpening?_none_iff :
    literalOpening? line = none ↔ ∀ head tag gap, ¬OpensLiteral line head tag gap := by
  rw [Option.eq_none_iff_forall_ne_some]
  constructor
  · intro none head tag gap opens
    exact none _ (literalOpening?_iff.mpr ⟨gap, opens⟩)
  · rintro none ⟨head, tag⟩ found
    obtain ⟨gap, opens⟩ := literalOpening?_iff.mp found
    exact none head tag gap opens

end Literals

section Directives

theorem within_iff {opening closing : Char} :
    (dropPrefix? [opening] raw).bind (dropSuffix? [closing]) = some target ↔
      raw = opening :: (target ++ [closing]) := by
  rw [Option.bind_eq_some_iff]
  constructor
  · rintro ⟨rest, front, back⟩
    rw [(dropPrefix?_eq_some_iff _ _ _).mp front, dropSuffix?_eq_some_iff.mp back]
    rfl
  · rintro rfl
    exact ⟨_, (dropPrefix?_eq_some_iff _ _ _).mpr rfl, dropSuffix?_eq_some_iff.mpr rfl⟩

theorem Unquoted.unquote (names : Unquoted raw target) : Script.unquote raw = target := by
  cases names with
  | @quoted opening closing _ pair =>
      have found : dropSuffix? [closing] (target ++ [closing]) = some target :=
        dropSuffix?_eq_some_iff.mpr rfl
      simp only [targetQuotes, List.mem_cons, List.not_mem_nil, or_false, Prod.mk.injEq] at pair
      rcases pair with ⟨rfl, rfl⟩ | ⟨rfl, rfl⟩ | ⟨rfl, rfl⟩
      all_goals simp [Script.unquote, found, dropPrefix?]
  | bare apart =>
      have none {opening closing : Char} (pair : (opening, closing) ∈ targetQuotes) :
          (dropPrefix? [opening] raw).bind (dropSuffix? [closing]) = none :=
        Option.eq_none_iff_forall_ne_some.mpr fun inner found =>
          apart opening closing inner pair (within_iff.mp found)
      simp only [Script.unquote, none (show ('"', '"') ∈ targetQuotes by decide),
        none (show ('\'', '\'') ∈ targetQuotes by decide),
        none (show ('<', '>') ∈ targetQuotes by decide)]
      rfl

theorem unquote_iff : unquote raw = target ↔ Unquoted raw target := by
  refine ⟨?_, Unquoted.unquote⟩
  rintro rfl
  by_cases within : ∃ opening closing inner, (opening, closing) ∈ targetQuotes ∧
      raw = opening :: (inner ++ [closing])
  · obtain ⟨opening, closing, inner, pair, rfl⟩ := within
    rw [Unquoted.unquote (.quoted pair)]
    exact .quoted pair
  · have apart : Unquoted raw raw :=
      .bare fun opening closing inner pair same => within ⟨opening, closing, inner, pair, same⟩
    rwa [apart.unquote]

theorem directive_iff {body rest : Text} :
    dropPrefix? includeWord ((dropPrefix? ['#'] body).getD body) = some rest ↔
      ∃ mark, (mark = [] ∨ mark = ['#']) ∧ body = mark ++ includeWord ++ rest := by
  constructor
  · intro directive
    have shape := (dropPrefix?_eq_some_iff _ _ _).mp directive
    cases marked : dropPrefix? ['#'] body with
    | none =>
        rw [marked] at shape
        exact ⟨[], Or.inl rfl, shape⟩
    | some further =>
        rw [marked] at shape
        refine ⟨['#'], Or.inr rfl, ?_⟩
        rw [(dropPrefix?_eq_some_iff _ _ _).mp marked, List.append_assoc, ← shape]
        rfl
  · rintro ⟨mark, rfl | rfl, rfl⟩
    · rfl
    · rfl

theorem inclusion?_eq_some_iff : inclusion? line = some (indent, target) ↔
    ∃ first rest, dropPrefix? includeWord
        ((dropPrefix? ['#'] (trimStart line)).getD (trimStart line)) = some (first :: rest) ∧
      isBlank first = true ∧ trim rest ≠ [] ∧ '\n' ∉ trim rest ∧
      indentation line = indent ∧ unquote (trim rest) = target := by
  simp only [inclusion?]
  split
  · next first rest directive =>
      rw [directive]
      simp [and_assoc]
  · next none =>
      refine iff_of_false (by simp) ?_
      rintro ⟨first, rest, directive, _⟩
      exact none first rest directive

theorem Directive.of_inclusion? (includes : inclusion? line = some (indent, target)) :
    Directive line indent target := by
  obtain ⟨first, rest, directive, blank, written, _, rfl, names⟩ := inclusion?_eq_some_iff.mp includes
  obtain ⟨mark, marked, body⟩ := directive_iff.mp directive
  have tight := tight_trim written
  obtain ⟨before, after, front, back, whole⟩ := (trim_eq_iff tight).mp rfl
  have parts : line = indentation line ++ mark ++ includeWord ++ first :: before ++
      trim rest ++ after := by
    conv_lhs => rw [← indentation_append_trimStart line, body, whole]
    simp
  exact .intro parts (blanks_indentation line) marked (List.forall_mem_cons.mpr ⟨blank, front⟩)
    (List.cons_ne_nil first before) tight back (unquote_iff.mp names)

theorem Directive.found (directive : Directive line indent target) (flat : '\n' ∉ line) :
    inclusion? line = some (indent, target) := by
  obtain @⟨mark, gap, raw, after, parts, indented, marked, apart, wide, tight, ends, names⟩ := directive
  obtain ⟨first, before, rfl⟩ := List.exists_cons_of_ne_nil wide
  obtain ⟨blank, front⟩ := List.forall_mem_cons.mp apart
  obtain ⟨body, shape⟩ : ∃ body, body = mark ++ includeWord ++ first :: (before ++ raw ++ after) :=
    ⟨_, rfl⟩
  have whole : line = indent ++ body := by
    rw [parts, shape]
    simp
  have shows : ∀ c ∈ body.head?, isBlank c = false := by
    rw [shape]
    rcases marked with rfl | rfl
    · rintro _ ⟨⟩
      decide
    · rintro _ ⟨⟩
      decide
  have middle : trim (before ++ raw ++ after) = raw :=
    (trim_eq_iff tight).mpr ⟨before, after, front, ends, rfl⟩
  have single : '\n' ∉ raw := fun member => flat (by simp [parts, member])
  refine inclusion?_eq_some_iff.mpr ⟨first, before ++ raw ++ after, ?_, blank, ?_⟩
  · rw [whole, trimStart_append indented shows]
    exact directive_iff.mpr ⟨mark, marked, shape⟩
  · rw [middle, whole, indentation_append indented shows]
    exact ⟨tight.some, single, rfl, unquote_iff.mpr names⟩

theorem inclusion?_iff (flat : '\n' ∉ line) :
    inclusion? line = some (indent, target) ↔ Directive line indent target :=
  ⟨Directive.of_inclusion?, fun directive => directive.found flat⟩

theorem inclusion?_none_iff (flat : '\n' ∉ line) :
    inclusion? line = none ↔ ∀ indent target, ¬Directive line indent target := by
  rw [Option.eq_none_iff_forall_ne_some, Prod.forall]
  simp only [ne_eq, inclusion?_iff flat]

end Directives

theorem closed_iff_lone : Closed line ↔ Lone line := by
  constructor
  · intro closed
    refine ⟨trim_iff_ends.not.mp closed.runs, ?_⟩
    rw [← isComment_iff_marked, ← literalOpening?_none_iff, ← odd_occurrences_iff]
    exact closed.opens
  · intro lone
    refine ⟨trim_iff_ends.not.mpr lone.runs, ?_⟩
    rw [isComment_iff_marked, literalOpening?_none_iff, Ne, odd_occurrences_iff]
    exact lone.opens

theorem not_marked_iff : isComment line = false ↔ ¬Marked line := by
  rw [← isComment_iff_marked, Bool.not_eq_true]

theorem Form.of_classified {kind : LineKind} (flat : '\n' ∉ line) (found : Classified line kind) :
    Form line kind := by
  cases found with
  | finish ends => exact .finish (trim_iff_ends.mp ends)
  | literal runs bare opens =>
      obtain ⟨gap, opens⟩ := literalOpening?_iff.mp opens
      exact .literal (trim_iff_ends.not.mp runs) (not_marked_iff.mp bare) opens
  | blockString runs bare plain odd =>
      exact .blockString (trim_iff_ends.not.mp runs) (not_marked_iff.mp bare)
        (literalOpening?_none_iff.mp plain) (odd_occurrences_iff.mp odd)
  | inclusion closed includes =>
      exact .inclusion (closed_iff_lone.mp closed) ((inclusion?_iff flat).mp includes)
  | blank closed alone empty =>
      exact .blank (closed_iff_lone.mp closed) ((inclusion?_none_iff flat).mp alone)
        (trim_eq_nil_iff.mp empty)
  | comment closed alone written marked =>
      exact .comment (closed_iff_lone.mp closed) ((inclusion?_none_iff flat).mp alone)
        (trim_eq_nil_iff.not.mp written) (isComment_iff_marked.mp marked)
  | code closed alone written bare =>
      exact .code (closed_iff_lone.mp closed) ((inclusion?_none_iff flat).mp alone)
        (trim_eq_nil_iff.not.mp written) (not_marked_iff.mp bare)

theorem Form.classified {kind : LineKind} (flat : '\n' ∉ line) (form : Form line kind) :
    classify line = kind := by
  cases form with
  | finish ends => rw [classify, if_pos (trim_iff_ends.mpr ends)]
  | literal runs bare opens =>
      exact classify_literal (trim_iff_ends.not.mpr runs) (not_marked_iff.mpr bare) opens.found
  | blockString runs bare plain opens =>
      exact classify_blockString (trim_iff_ends.not.mpr runs) (not_marked_iff.mpr bare)
        (literalOpening?_none_iff.mpr plain) (odd_occurrences_iff.mpr opens)
  | inclusion lone includes =>
      exact (closed_iff_lone.mpr lone).classify_inclusion ((inclusion?_iff flat).mpr includes)
  | blank lone alone empty =>
      rw [(closed_iff_lone.mpr lone).classify_alone ((inclusion?_none_iff flat).mpr alone),
        if_pos (trim_eq_nil_iff.mpr empty)]
  | comment lone alone written marked =>
      rw [(closed_iff_lone.mpr lone).classify_alone ((inclusion?_none_iff flat).mpr alone),
        if_neg (trim_eq_nil_iff.not.mpr written), if_pos (isComment_iff_marked.mpr marked)]
  | code lone alone written bare =>
      rw [(closed_iff_lone.mpr lone).classify_alone ((inclusion?_none_iff flat).mpr alone),
        if_neg (trim_eq_nil_iff.not.mpr written), not_marked_iff.mpr bare, if_neg Bool.false_ne_true]

/-- A line without a newline is of a kind exactly when it is written as the lines of that kind are,
and it opens a literal block in one way at most. -/
theorem classify_grammar (flat : '\n' ∉ line) :
    (∀ kind, classify line = kind ↔ Form line kind) ∧
      ∀ head tag gap head' tag' gap', OpensLiteral line head tag gap →
        OpensLiteral line head' tag' gap' → head = head' ∧ tag = tag' ∧ gap = gap' := by
  refine ⟨fun kind => ⟨?_, Form.classified flat⟩, fun _ _ _ _ _ _ opens => opens.unique⟩
  rintro rfl
  exact .of_classified flat (classified line)

/-- A directive whose target would open a block, and one whose target has a quote at one end only. -/
theorem form_at_edges :
    Form "include <<<X".toList (.literal "include ".toList "X".toList) ∧
      ¬Form "include <<<X".toList (.inclusion [] "<<<X".toList) ∧
      Form " #include \"\"\"x".toList (.inclusion " ".toList "\"\"\"x".toList) := by
  have literal := (classify_grammar (by decide : '\n' ∉ "include <<<X".toList)).1
  have directive := (classify_grammar (by decide : '\n' ∉ " #include \"\"\"x".toList)).1
  refine ⟨(literal _).mp (by decide +kernel), ?_, (directive _).mp (by decide +kernel)⟩
  rw [← literal]
  decide +kernel

end Script
end Brewery
