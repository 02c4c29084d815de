import Brewery.Import.Prelude
import Brewery.Proofs.Coffee.Word

/-!
The contents of comments and of strings. Where code is read, a comment and a string end where they
end whatever stands in them, and what is read behind them is the same. So neither has any part in
the names of a text.
-/

namespace Brewery.Coffee

instance : DecidablePred ReadsCode := fun frames => match frames with
  | [] => isTrue trivial
  | .interpolation _ :: _ => isTrue trivial
  | .quoted _ _ :: _ => isFalse id
  | .comment :: _ => isFalse id

/-- A comment that begins here, with no text left behind what is read of it. -/
def trails (frames : List Frame) (c : Char) (rest : Text) : Bool :=
  decide (ReadsCode frames) && c = '#' && (step frames c rest).rest.isEmpty

/-- Whether a text ends in code: in no string and in no comment, be it one of a line. -/
def leavesCode (frames : List Frame) : Text → Bool
  | [] => decide (ReadsCode frames)
  | c :: rest =>
      have := step_length frames c rest
      !trails frames c rest && leavesCode (step frames c rest).frames (step frames c rest).rest
termination_by text => text.length
decreasing_by simp only [List.length_cons]; omega

/-- What may stand between two quotes of a string. -/
structure Plain (quote : Char) (content : Text) : Prop where
  filled : content ≠ []
  within : quote ∉ content
  bare : '\\' ∉ content
  text : quote = '"' → ¬['#', '\x7b'] <:+: content

/-- The two texts have the same names, and need the same symbols of every table. -/
def SameNames (one two : Text) : Prop :=
  scan one = scan two ∧ ∀ table : SymbolTable, table.needed one = table.needed two

/-- The characters that begin a comment or a string. -/
def isMark (c : Char) : Bool := c = '#' || isQuote c

variable {frames outer : List Frame} {c w quote : Char} {triple : Bool}
  {text rest before content other : Text}

theorem SameNames.of_tokens {one two : Text} (same : tokens one = tokens two) :
    SameNames one two := by
  have scanned : scan one = scan two := by rw [scan, scan, same]
  refine ⟨scanned, fun table => ?_⟩
  rw [SymbolTable.needed, SymbolTable.needed, scanned]

section Before

theorem isMark_cases (mark : isMark c = true) :
    c = '#' ∨ c = '\'' ∨ c = '"' ∨ c = Char.ofNat 0x60 := by
  simpa [isMark, isQuote, or_assoc] using mark

theorem isMark_of_isQuote (quote : isQuote c = true) : isMark c = true := by
  simp [isMark, quote]

theorem stops_mark (mark : isMark w = true) : Stops w := by
  rcases isMark_cases mark with rfl | rfl | rfl | rfl <;>
    exact ⟨by decide, by decide, by decide, by decide⟩

/-- A mark neither opens nor closes a brace. -/
theorem isMark_not_brace (mark : isMark c = true) : c ≠ '\x7b' ∧ c ≠ '\x7d' := by
  rcases isMark_cases mark with rfl | rfl | rfl | rfl <;> decide

theorem leavesCode_nil : leavesCode frames [] = true ↔ ReadsCode frames := by
  rw [leavesCode, decide_eq_true_iff]

theorem leavesCode_cons (code : leavesCode frames (c :: text) = true) :
    trails frames c text = false ∧
      leavesCode (step frames c text).frames (step frames c text).rest = true := by
  rw [leavesCode] at code
  simpa using code

/-- A block comment takes three characters to end. -/
theorem comment_long (code : leavesCode (.comment :: outer) text = true) : 3 ≤ text.length := by
  refine Nat.le_of_not_lt fun short => ?_
  induction text with
  | nil => exact leavesCode_nil.mp code
  | cons c rest ih =>
      rw [List.length_cons] at short
      have unmarked : commentMark.isPrefixOf (c :: rest) = false := by
        rw [← Bool.not_eq_true]
        intro marked
        have long : 3 ≤ (c :: rest).length := (List.isPrefixOf_iff_prefix.mp marked).length_le
        rw [List.length_cons] at long
        omega
      have further := (leavesCode_cons code).2
      simp only [step, unmarked, Bool.false_eq_true, if_false] at further
      apply ih further
      omega

/-- A block string takes more than one character to end. -/
theorem string_long (code : leavesCode (.quoted quote true :: outer) text = true) :
    2 ≤ text.length := by
  refine Nat.le_of_not_lt fun short => ?_
  cases text with
  | nil => exact leavesCode_nil.mp code
  | cons c rest =>
      rw [List.length_cons] at short
      obtain rfl : rest = [] := List.eq_nil_of_length_eq_zero (by omega)
      have open_ : step (.quoted quote true :: outer) c [] = ⟨[], .quoted quote true :: outer, []⟩ := by
        simp [step, stringStep]
      have further := (leavesCode_cons code).2
      rw [open_] at further
      exact leavesCode_nil.mp further

theorem codeStep_quote (mark : isQuote c = true) (text : Text) : codeStep frames c text =
    if [c, c].isPrefixOf text then ⟨[], .quoted c true :: frames, text.drop 2⟩
    else ⟨[], .quoted c false :: frames, text⟩ := by
  have cases : c = '\'' ∨ c = '"' ∨ c = Char.ofNat 0x60 := by
    simpa [isQuote, or_assoc] using mark
  have bare : c ≠ '\n' ∧ Text.isBlank c = false ∧ c ≠ '#' := by
    rcases cases with rfl | rfl | rfl <;> decide
  simp only [codeStep, bare, mark, if_true, if_false, Bool.false_eq_true]

/-- Where a text ends in code, no comment and no string has begun with its last character. -/
theorem code_sides (reads : ReadsCode frames) (coded : step frames c text = codeStep frames c text)
    (code : leavesCode frames (c :: text) = true) :
    (c = '#' → (codeStep frames c text).rest ≠ []) ∧ (isQuote c = true → text ≠ []) := by
  obtain ⟨ends, further⟩ := leavesCode_cons code
  rw [trails, coded] at ends
  rw [coded] at further
  constructor
  · intro hash empty
    simp [reads, hash] at ends
    exact ends (hash ▸ empty)
  · rintro quote rfl
    rw [codeStep_quote quote] at further
    exact absurd (leavesCode_nil.mp further) id

theorem codeStep_hash (frames : List Frame) (text : Text) : codeStep frames '#' text =
    if ['#', '#'].isPrefixOf text && text[2]? ≠ some '#' then ⟨[], .comment :: frames, text.drop 2⟩
    else ⟨[], frames, text.dropWhile (· ≠ '\n')⟩ := by
  have blank : Text.isBlank '#' = false := by decide
  simp [codeStep, blank]

/-- A comment that leaves some of the text looks at nothing behind it. -/
theorem comment_sides (left : (codeStep frames '#' text).rest ≠ []) (rest : Text) :
    (['#', '#'].isPrefixOf (text ++ w :: rest) && (text ++ w :: rest)[2]? ≠ some '#') =
        (['#', '#'].isPrefixOf text && text[2]? ≠ some '#') ∧
      (¬(['#', '#'].isPrefixOf text && text[2]? ≠ some '#') = true →
        (text ++ w :: rest).dropWhile (· ≠ '\n') = text.dropWhile (· ≠ '\n') ++ w :: rest) := by
  rw [codeStep_hash] at left
  constructor
  · rcases text with _ | ⟨x, _ | ⟨y, _ | ⟨z, more⟩⟩⟩
    · simp at left
    · have line : x = '\n' := Decidable.byContradiction fun other => by
        simp [other] at left
      simp [line, List.isPrefixOf]
    · have apart : ¬(x = '#' ∧ y = '#') := by
        rintro ⟨rfl, rfl⟩
        simp at left
      have closed (more : Text) : ['#', '#'].isPrefixOf (x :: y :: more) = false := by
        simp only [List.isPrefixOf, Bool.and_true, Bool.and_eq_false_iff, beq_eq_false_iff_ne]
        refine Decidable.not_and_iff_not_or_not.mp fun both => ?_
        exact apart ⟨both.1.symm, both.2.symm⟩
      simp only [List.cons_append, closed, Bool.false_and]
    · simp [List.isPrefixOf]
  · intro plain
    rw [if_neg plain] at left
    rw [List.dropWhile_append, if_neg (by simpa using left)]

theorem codeStep_mark (mark : isMark w = true) (comment : c = '#' → (codeStep frames c text).rest ≠ [])
    (string : isQuote c = true → text ≠ []) :
    (∀ rest, codeStep frames c (text ++ w :: rest) = (codeStep frames c text).ahead (w :: rest)) ∨
      (isQuote w = true ∧ c = w ∧ text = [w]) := by
  by_cases joined : isQuote c = true ∧ w = c ∧ text = [c]
  · obtain ⟨quote, rfl, same⟩ := joined
    exact Or.inr ⟨quote, rfl, same⟩
  refine Or.inl fun rest => ?_
  apply codeStep_upTo (stops_mark mark)
  · rintro rfl
    exact comment_sides (comment rfl) rest
  · intro quote
    rcases text with _ | ⟨x, _ | ⟨y, more⟩⟩
    · exact absurd rfl (string quote)
    · have apart : ¬(c = x ∧ c = w) := by
        rintro ⟨rfl, rfl⟩
        exact joined ⟨quote, rfl, rfl⟩
      simpa [List.isPrefixOf] using apart
    · simp [List.isPrefixOf]

/-- A string does not look past a mark before which the text ends in code. -/
theorem stringStep_mark (mark : isMark w = true)
    (code : leavesCode (.quoted quote triple :: outer) (c :: text) = true) (rest : Text) :
    stringStep quote triple outer c (text ++ w :: rest) =
      (stringStep quote triple outer c text).ahead (w :: rest) := by
  have further := (leavesCode_cons code).2
  simp only [step] at further
  unfold stringStep at further ⊢
  have brace := (isMark_not_brace mark).1
  have head : ((text ++ w :: rest).head? = some '\x7b') = (text.head? = some '\x7b') := by
    cases text with
    | nil => simp [brace]
    | cons first text => rfl
  simp only [head]
  split
  · next escape =>
      rw [if_pos escape] at further
      cases text with
      | nil => exact absurd (leavesCode_nil.mp further) id
      | cons first text => rfl
  next bare =>
  rw [if_neg bare] at further
  split
  · next opening =>
      cases text with
      | nil => simp at opening
      | cons first text => rfl
  next within =>
  rw [if_neg within] at further
  cases triple with
  | false => simp only [Bool.not_false, Bool.true_or, Bool.and_true]; split <;> rfl
  | true =>
      have two : 2 ≤ text.length := by
        by_cases closed : [quote, quote].isPrefixOf text = true
        · exact (List.isPrefixOf_iff_prefix.mp closed).length_le
        · rw [if_neg (by simp [closed])] at further
          exact string_long further
      rcases text with _ | ⟨first, _ | ⟨second, more⟩⟩
      · simp at two
      · simp at two
      · have same : [quote, quote].isPrefixOf (first :: second :: more ++ w :: rest) =
            [quote, quote].isPrefixOf (first :: second :: more) := by
          simp [List.isPrefixOf]
        rw [same]
        split <;> rfl

/-- A step does not look past a mark before which a text ends in code, but for the third of three
quotes. -/
theorem step_mark (mark : isMark w = true) (code : leavesCode frames (c :: text) = true) :
    (∀ rest, step frames c (text ++ w :: rest) = (step frames c text).ahead (w :: rest)) ∨
      (ReadsCode frames ∧ isQuote w = true ∧ c = w ∧ text = [w]) := by
  have inCode (reads : ReadsCode frames)
      (coded : ∀ text, step frames c text = codeStep frames c text) :
      (∀ rest, step frames c (text ++ w :: rest) = (step frames c text).ahead (w :: rest)) ∨
        (ReadsCode frames ∧ isQuote w = true ∧ c = w ∧ text = [w]) := by
    obtain ⟨comment, string⟩ := code_sides reads (coded text) code
    simp only [coded]
    exact (codeStep_mark mark comment string).imp id fun joined => ⟨reads, joined⟩
  cases frames with
  | nil => exact inCode trivial fun _ => rfl
  | cons frame outer =>
      cases frame with
      | interpolation depth =>
          by_cases open_ : c = '\x7b'
          · exact Or.inl fun rest => by simp only [step, if_pos open_]; rfl
          by_cases close : c = '\x7d'
          · exact Or.inl fun rest => by
              simp only [step, if_neg open_, if_pos close]
              cases depth <;> rfl
          · exact inCode trivial fun _ => step_code trivial open_ close
      | comment =>
          have long := comment_long code
          rcases text with _ | ⟨x, _ | ⟨y, more⟩⟩
          · simp at long
          · simp at long
          · refine Or.inl fun rest => ?_
            have same : commentMark.isPrefixOf (c :: (x :: y :: more ++ w :: rest)) =
                commentMark.isPrefixOf (c :: x :: y :: more) := by
              simp [commentMark, List.isPrefixOf]
            simp only [step, same]
            split <;> rfl
      | quoted quote triple => exact Or.inl (stringStep_mark mark code)

/-- What comes of a mark behind a text that ends in code: it is read as code, or it is the third of
three quotes that begin a block string. -/
inductive Meets (frames : List Frame) (before : Text) (w : Char) : Prop where
  | code (spoken : List Token) (last : List Frame) (reads : ReadsCode last)
      (comes : ∀ rest, Reads frames (before ++ w :: rest) spoken last (w :: rest))
  | third (spoken : List Token) (outer : List Frame) (quote : isQuote w = true)
      (comes : ∀ rest, Reads frames (before ++ w :: rest) spoken (.quoted w true :: outer) rest)

theorem Meets.on (same : ∀ rest, step frames c (text ++ w :: rest) =
    (step frames c text).ahead (w :: rest))
    (meets : Meets (step frames c text).frames (step frames c text).rest w) :
    Meets frames (c :: text) w := by
  have onward {spoken : List Token} {last : List Frame} {rest tail : Text}
      (reads : Reads (step frames c text).frames ((step frames c text).rest ++ w :: rest) spoken
        last tail) :
      Reads frames (c :: text ++ w :: rest) ((step frames c text).tokens ++ spoken) last tail := by
    have first := @Reads.on frames last c (text ++ w :: rest) tail spoken
    rw [same] at first
    exact first reads
  cases meets with
  | code spoken last reads comes => exact .code _ last reads fun rest => onward (comes rest)
  | third spoken outer quote comes => exact .third _ outer quote fun rest => onward (comes rest)

theorem meets_mark (mark : isMark w = true) (code : leavesCode frames before = true) :
    Meets frames before w := by
  induction frames, before using leavesCode.induct with
  | case1 frames => exact .code [] frames (leavesCode_nil.mp code) fun rest => .here
  | case2 frames c text shorter ih =>
      rcases step_mark mark code with same | ⟨reads, quote, rfl, rfl⟩
      · exact .on same (ih (leavesCode_cons code).2)
      · refine .third [] frames quote fun rest => ?_
        obtain ⟨open_, close⟩ := isMark_not_brace mark
        have three : step frames c (c :: c :: rest) = ⟨[], .quoted c true :: frames, rest⟩ := by
          rw [step_code reads open_ close, codeStep_quote quote]
          simp
        have first := @Reads.on frames (.quoted c true :: frames) c (c :: c :: rest) rest []
        rw [three] at first
        exact first .here

end Before

section Inside

/-- A string is read up to the next quote whatever stands before it. -/
theorem lex_content (plain : Plain quote content) (after : Text) :
    lex (.quoted quote triple :: outer) (content ++ quote :: after) =
      lex (.quoted quote triple :: outer) (quote :: after) := by
  obtain ⟨-, within, bare, text⟩ := plain
  induction content with
  | nil => rfl
  | cons c more ih =>
      have quote_ : c ≠ quote := fun same => within (same ▸ List.mem_cons_self)
      have escape : c ≠ '\\' := fun same => bare (same ▸ List.mem_cons_self)
      have still : ¬(quote = '"' ∧ c = '#' ∧ (more ++ quote :: after).head? = some '\x7b') := by
        rintro ⟨rfl, rfl, head⟩
        cases more with
        | nil => simp at head
        | cons next more =>
            obtain rfl : next = '\x7b' := by simpa using head
            exact text rfl ⟨[], more, rfl⟩
      have passed : step (.quoted quote triple :: outer) c (more ++ quote :: after) =
          ⟨[], .quoted quote triple :: outer, more ++ quote :: after⟩ := by
        simp only [step, stringStep, if_neg escape]
        rw [if_neg (by simpa [and_assoc] using still), if_neg (by simp [quote_])]
      rw [List.cons_append, lex, passed, List.nil_append]
      apply ih
      · exact fun member => within (List.mem_cons_of_mem _ member)
      · exact fun member => bare (List.mem_cons_of_mem _ member)
      · exact fun double found => text double (found.trans (List.suffix_cons c more).isInfix)

theorem lex_string (reads : ReadsCode frames) (mark : isQuote quote = true)
    (plain : Plain quote content) (after : Text) :
    lex frames (quote :: content ++ quote :: after) =
      lex (.quoted quote false :: frames) (quote :: after) := by
  obtain ⟨open_, close⟩ := isMark_not_brace (isMark_of_isQuote mark)
  have single : [quote, quote].isPrefixOf (content ++ quote :: after) = false := by
    cases content with
    | nil => exact absurd rfl plain.filled
    | cons c more =>
        have other : quote ≠ c := fun same => plain.within (same ▸ List.mem_cons_self)
        simp [List.isPrefixOf, other]
  have opened : step frames quote (content ++ quote :: after) =
      ⟨[], .quoted quote false :: frames, content ++ quote :: after⟩ := by
    rw [step_code reads open_ close, codeStep_quote mark, single]
    simp
  rw [List.cons_append, lex, opened, List.nil_append, lex_content plain]

theorem lex_remark (reads : ReadsCode frames) {remark : Text} (line : '\n' ∉ remark) (after : Text) :
    lex frames ('#' :: ' ' :: remark ++ '\n' :: after) = lex frames ('\n' :: after) := by
  have passed : (remark ++ '\n' :: after).dropWhile (· ≠ '\n') = '\n' :: after := by
    rw [List.dropWhile_append_of_pos]
    · simp
    · intro c member
      have other : c ≠ '\n' := fun same => line (same ▸ member)
      simp [other]
  have read : step frames '#' (' ' :: remark ++ '\n' :: after) = ⟨[], frames, '\n' :: after⟩ := by
    have blank : Text.isBlank '#' = false := by decide
    rw [step_code reads (by decide) (by decide)]
    simpa [codeStep, blank, List.isPrefixOf] using passed
  rw [List.cons_append, lex, read, List.nil_append]

end Inside

/-- Behind a text that ends in code, the names of a text are the same whatever is written in a
comment up to the end of its line, and whatever is written between two quotes. -/
theorem content_unread (code : leavesCode [] before = true) (after : Text) :
    (∀ remark other, '\n' ∉ remark → '\n' ∉ other →
      SameNames (before ++ '#' :: ' ' :: remark ++ '\n' :: after)
        (before ++ '#' :: ' ' :: other ++ '\n' :: after)) ∧
    ∀ quote, isQuote quote = true → ∀ content other, Plain quote content → Plain quote other →
      SameNames (before ++ quote :: content ++ quote :: after)
        (before ++ quote :: other ++ quote :: after) := by
  constructor
  · intro remark other line also
    apply SameNames.of_tokens
    cases meets_mark (w := '#') (by decide) code with
    | third _ _ quote => exact absurd quote (by decide)
    | code spoken last reads comes =>
        have read (remark : Text) (line : '\n' ∉ remark) :
            tokens (before ++ '#' :: ' ' :: remark ++ '\n' :: after) =
              spoken ++ lex last ('\n' :: after) := by
          rw [tokens, List.append_assoc]
          exact (comes _).lex.trans (congrArg _ (lex_remark reads line after))
        rw [read remark line, read other also]
  · intro quote mark content other plain also
    apply SameNames.of_tokens
    cases meets_mark (isMark_of_isQuote mark) code with
    | code spoken last reads comes =>
        have read (content : Text) (plain : Plain quote content) :
            tokens (before ++ quote :: content ++ quote :: after) =
              spoken ++ lex (.quoted quote false :: last) (quote :: after) := by
          rw [tokens, List.append_assoc]
          exact (comes _).lex.trans (congrArg _ (lex_string reads mark plain after))
        rw [read content plain, read other also]
    | third spoken outer _ comes =>
        have read (content : Text) (plain : Plain quote content) :
            tokens (before ++ quote :: content ++ quote :: after) =
              spoken ++ lex (.quoted quote true :: outer) (quote :: after) := by
          rw [tokens, List.append_assoc]
          exact (comes _).lex.trans (congrArg _ (lex_content plain after))
        rw [read content plain, read other also]

/-- Code in an interpolation, with an empty string at its end. -/
def interpolated : Text := "x = \"#\x7bsay ''".toList

-- The quote behind the two begins a block string, in which the content is read just the same.
theorem interpolated_unread :
    SameNames (interpolated ++ '#' :: ' ' :: "it's".toList ++ '\n' :: "\x7d\" + y".toList)
        (interpolated ++ '#' :: ' ' :: "### (".toList ++ '\n' :: "\x7d\" + y".toList) ∧
      SameNames (interpolated ++ '\'' :: "for a".toList ++ '\'' :: "'')\x7d\"".toList)
        (interpolated ++ '\'' :: "\"\n#".toList ++ '\'' :: "'')\x7d\"".toList) := by
  have code : leavesCode [] interpolated = true := by decide +kernel
  have plain (content : Text) (filled : content ≠ []) (within : '\'' ∉ content)
      (bare : '\\' ∉ content) : Plain '\'' content := ⟨filled, within, bare, by simp⟩
  constructor
  · exact (content_unread code _).1 _ _ (by decide) (by decide)
  · exact (content_unread code _).2 '\'' (by decide) _ _
      (plain _ (by decide) (by decide) (by decide)) (plain _ (by decide) (by decide) (by decide))

end Brewery.Coffee
