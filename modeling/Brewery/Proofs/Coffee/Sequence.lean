import Brewery.Coffee.Bindings

/-!
Texts one after another. A text that leaves no string, interpolation or comment open is read on
its own when a newline comes after it: nothing that the lexer looks ahead for goes past the end
of a line, so what follows cannot change its tokens, and it cannot change those of what follows.
When its brackets are nested as well, no group and no import goes past the newline either, and
the same holds for the names that it uses and binds.
-/

namespace Brewery.Coffee

section Lexing

variable {frames : List Frame} {c : Char} {text rest : Text}

-- A pattern without a mark cannot begin before the mark and end after it.
theorem isPrefixOf_upTo {pattern : Text} {mark : Char} (absent : mark ∉ pattern) (text rest : Text) :
    pattern.isPrefixOf (text ++ mark :: rest) = pattern.isPrefixOf text := by
  induction pattern generalizing text with
  | nil => simp
  | cons wanted pattern ih =>
      simp only [List.mem_cons, not_or] at absent
      cases text with
      | nil => simp [List.isPrefixOf, Ne.symm absent.1]
      | cons found text => simp [List.isPrefixOf, ih absent.2]

theorem takeWhile_upTo {p : Char → Bool} {mark : Char} (stops : p mark = false) (text rest : Text) :
    (text ++ mark :: rest).takeWhile p = text.takeWhile p := by
  induction text with
  | nil => simp [stops]
  | cons first text ih => cases keeps : p first <;> simp [keeps, ih]

theorem dropWhile_upTo {p : Char → Bool} {mark : Char} (stops : p mark = false) (text rest : Text) :
    (text ++ mark :: rest).dropWhile p = text.dropWhile p ++ mark :: rest := by
  induction text with
  | nil => simp [stops]
  | cons first text ih => cases keeps : p first <;> simp [keeps, ih]

theorem drop_within {pattern : Text} {count : Nat} (found : pattern.isPrefixOf text = true)
    (within : count ≤ pattern.length) (rest : Text) :
    (text ++ rest).drop count = text.drop count ++ rest :=
  List.drop_append_of_le_length
    (Nat.le_trans within (List.isPrefixOf_iff_prefix.mp found).length_le)

theorem afterNumber_cons (bare : c ≠ '.') (text : Text) : afterNumber (c :: text) =
    if c.isAlphanum || c = '_' then afterNumber text else c :: text := by
  rw [afterNumber]
  exact fun _ _ same => absurd same bare

theorem afterNumber_upTo {mark : Char} (ends : (mark.isAlphanum || mark = '_') = false)
    (point : mark ≠ '.') (text rest : Text) :
    afterNumber (text ++ mark :: rest) = afterNumber text ++ mark :: rest := by
  have digit : mark.isDigit = false := by
    simp only [Char.isAlphanum, Bool.or_eq_false_iff] at ends
    exact ends.1.2
  induction text using afterNumber.induct with
  | case1 => rw [List.nil_append, afterNumber_cons point, ends, afterNumber, if_neg (by simp),
      List.nil_append]
  | case2 next more digit ih => simp_all [afterNumber]
  | case3 next more point => simp_all [afterNumber]
  | case4 c more alone further ih =>
      have bare : c ≠ '.' := by
        rintro rfl
        exact absurd further (by decide)
      rw [List.cons_append, afterNumber_cons bare, afterNumber_cons bare, if_pos further,
        if_pos further, ih]
  | case5 c more alone ends =>
      by_cases point : c = '.'
      · cases more with
        | nil => simp [point, afterNumber, digit]
        | cons next more => exact absurd rfl (alone next more point)
      · rw [List.cons_append, afterNumber_cons point, afterNumber_cons point, if_neg ends,
          if_neg ends, List.cons_append]

theorem opensComment_upTo {mark : Char} (other : mark ≠ '#') (text rest : Text) :
    (['#', '#'].isPrefixOf (text ++ mark :: rest) && (text ++ mark :: rest)[2]? ≠ some '#') =
      (['#', '#'].isPrefixOf text && text[2]? ≠ some '#') := by
  match text with
  | [] => simp [List.isPrefixOf, other.symm]
  | [first] => simp [List.isPrefixOf, other.symm]
  | [first, second] => simp [List.isPrefixOf, other]
  | first :: second :: third :: more => simp [List.isPrefixOf]

theorem find?_upTo {patterns : List Text} {mark : Char} (absent : ∀ pattern ∈ patterns, mark ∉ pattern)
    (text rest : Text) :
    patterns.find? (fun pattern => pattern.isPrefixOf (text ++ mark :: rest)) =
      patterns.find? (fun pattern => pattern.isPrefixOf text) := by
  induction patterns with
  | nil => rfl
  | cons pattern patterns ih =>
      rw [List.find?_cons, List.find?_cons, isPrefixOf_upTo (absent pattern List.mem_cons_self),
        ih fun other member => absent other (List.mem_cons_of_mem _ member)]

/-- A step when another line comes after the text. -/
def Step.above (step : Step) (rest : Text) : Step :=
  { step with rest := step.rest ++ '\n' :: rest }

/-- A character that goes on no word, no number and no operator. -/
structure Stops (mark : Char) : Prop where
  word : isWordCharacter mark = false
  number : (mark.isAlphanum || mark = '_') = false
  point : mark ≠ '.'
  operator : ∀ operator ∈ operators, mark ∉ operator

/-- A step in code does not look past such a character, unless it is one that the beginning of a
comment or of a string looks for. -/
theorem codeStep_upTo {mark : Char} (stops : Stops mark) (frames : List Frame) (c : Char)
    (text rest : Text)
    (comment : c = '#' →
      (['#', '#'].isPrefixOf (text ++ mark :: rest) && (text ++ mark :: rest)[2]? ≠ some '#') =
        (['#', '#'].isPrefixOf text && text[2]? ≠ some '#') ∧
      (¬(['#', '#'].isPrefixOf text && text[2]? ≠ some '#') = true →
        (text ++ mark :: rest).dropWhile (· ≠ '\n') = text.dropWhile (· ≠ '\n') ++ mark :: rest))
    (quotes : isQuote c = true →
      [c, c].isPrefixOf (text ++ mark :: rest) = [c, c].isPrefixOf text) :
    codeStep frames c (text ++ mark :: rest) =
      { codeStep frames c text with rest := (codeStep frames c text).rest ++ mark :: rest } := by
  unfold codeStep
  split
  · rfl
  split
  · rfl
  split
  · next hash =>
      obtain ⟨same, line⟩ := comment hash
      rw [same]
      split
      · next opened =>
          exact congrArg (Step.mk _ _) (drop_within (Bool.and_eq_true_iff.mp opened).1 (Nat.le_refl 2) _)
      · next plain => exact congrArg (Step.mk _ _) (line plain)
  split
  · next quote =>
      rw [quotes quote]
      split
      · next same => exact congrArg (Step.mk _ _) (drop_within same (Nat.le_refl 2) _)
      · rfl
  split
  · rw [takeWhile_upTo stops.word, dropWhile_upTo stops.word]
  split
  · exact congrArg (Step.mk _ _) (afterNumber_upTo stops.number stops.point text rest)
  · rw [← List.cons_append, find?_upTo stops.operator]
    split
    · next operator found =>
        have fits := List.find?_some found
        cases operator with
        | nil => exact absurd (List.mem_of_find?_eq_some found) (by decide)
        | cons first more =>
            have begins : more.isPrefixOf text = true := (Bool.and_eq_true_iff.mp fits).2
            exact congrArg (Step.mk _ _) (drop_within begins (by simp) _)
    · rfl

theorem codeStep_line (frames : List Frame) (c : Char) (text rest : Text) :
    codeStep frames c (text ++ '\n' :: rest) = (codeStep frames c text).above rest := by
  have stops : Stops '\n' := ⟨by decide, by decide, by decide, by decide⟩
  apply codeStep_upTo stops
  · intro _
    exact ⟨opensComment_upTo (by decide) text rest, fun _ => dropWhile_upTo (by simp) text rest⟩
  · intro quote
    apply isPrefixOf_upTo
    intro inside
    obtain rfl : '\n' = c := by simpa using inside
    exact absurd quote (by decide)

/-- Strings that are open, none of which waits for a newline. -/
def Quotable (frames : List Frame) : Prop :=
  ∀ quote triple, .quoted quote triple ∈ frames → quote ≠ '\n'

theorem Quotable.nil : Quotable [] := fun _ _ member => absurd member List.not_mem_nil

/-- Strings that are open, with quotes of one sort. -/
def Quoting (good : Char → Prop) (frames : List Frame) : Prop :=
  ∀ quote triple, .quoted quote triple ∈ frames → good quote

section Quotes

variable {good : Char → Prop}

theorem Quoting.tail {frame : Frame} (quoting : Quoting good (frame :: frames)) :
    Quoting good frames :=
  fun quote triple member => quoting quote triple (List.mem_cons_of_mem _ member)

theorem Quoting.push {frame : Frame} (quoting : Quoting good frames)
    (front : ∀ quote triple, frame = .quoted quote triple → good quote) :
    Quoting good (frame :: frames) := by
  intro quote triple member
  rcases List.mem_cons.mp member with same | inside
  · exact front quote triple same.symm
  · exact quoting quote triple inside

theorem codeStep_quoting (marks : ∀ c, isQuote c = true → good c) (quoting : Quoting good frames)
    (c : Char) (text : Text) : Quoting good (codeStep frames c text).frames := by
  have quoted {triple : Bool} (mark : isQuote c = true) :
      Quoting good (.quoted c triple :: frames) := by
    apply quoting.push
    rintro quote triple same
    cases same
    exact marks c mark
  have comment : Quoting good (.comment :: frames) := quoting.push (by simp)
  unfold codeStep
  repeat' split
  all_goals first
    | exact quoting
    | exact comment
    | exact quoted (by assumption)

-- Only quotes open strings.
theorem step_quoting (marks : ∀ c, isQuote c = true → good c) (quoting : Quoting good frames)
    (c : Char) (text : Text) : Quoting good (step frames c text).frames := by
  cases frames with
  | nil => exact codeStep_quoting marks quoting c text
  | cons frame outer =>
      have further : Quoting good outer := quoting.tail
      have deeper (depth : Nat) (frames : List Frame) (inner : Quoting good frames) :
          Quoting good (.interpolation depth :: frames) := inner.push (by simp)
      cases frame with
      | comment =>
          simp only [step]
          split
          · exact further
          · exact quoting
      | quoted quote triple =>
          simp only [step, stringStep]
          split
          · exact quoting
          split
          · exact deeper 0 _ quoting
          split
          · exact further
          · exact quoting
      | interpolation depth =>
          simp only [step]
          split
          · exact deeper _ _ further
          split
          · cases depth with
            | zero => exact further
            | succ depth => exact deeper _ _ further
          · exact codeStep_quoting marks quoting c text

end Quotes

theorem step_quotable (quotable : Quotable frames) (c : Char) (text : Text) :
    Quotable (step frames c text).frames := by
  refine @step_quoting _ (· ≠ '\n') ?_ quotable c text
  rintro _ mark rfl
  exact absurd mark (by decide)

/-- A backslash at the end of a text, in a string that is open: the only step that would take a
character of the next line with it. -/
def Reaches (frames : List Frame) (c : Char) (text : Text) : Prop :=
  c = '\\' ∧ text = [] ∧ ∃ quote triple outer, frames = .quoted quote triple :: outer

theorem head?_line {c : Char} (other : c ≠ '\n') (text rest : Text) :
    ((text ++ '\n' :: rest).head? = some c) = (text.head? = some c) := by
  cases text with
  | nil => simp [other.symm]
  | cons first text => rfl

theorem stringStep_line {quote : Char} {triple : Bool} {outer : List Frame} (mark : quote ≠ '\n')
    (within : ¬Reaches (.quoted quote triple :: outer) c text) (rest : Text) :
    stringStep quote triple outer c (text ++ '\n' :: rest) =
      (stringStep quote triple outer c text).above rest := by
  unfold stringStep
  have quotes : '\n' ∉ [quote, quote] := by simp [mark.symm]
  simp only [head?_line (show '\x7b' ≠ '\n' by decide), isPrefixOf_upTo quotes]
  split
  · next escape =>
      cases text with
      | nil => exact absurd ⟨escape, rfl, quote, triple, outer, rfl⟩ within
      | cons first text => rfl
  split
  · next opening =>
      cases text with
      | nil => simp at opening
      | cons first text => rfl
  split
  · next closing =>
      cases triple with
      | false => rfl
      | true =>
          have found : [quote, quote].isPrefixOf text = true := by simpa using (Bool.and_eq_true_iff.mp closing).2
          exact congrArg (Step.mk _ _) (drop_within found (Nat.le_refl 2) _)
  · rfl

theorem step_line (quotable : Quotable frames) (within : ¬Reaches frames c text) (rest : Text) :
    step frames c (text ++ '\n' :: rest) = (step frames c text).above rest := by
  have mark : '\n' ∉ commentMark := by decide
  cases frames with
  | nil => exact codeStep_line [] c text rest
  | cons frame outer =>
      cases frame with
      | comment =>
          simp only [step]
          rw [← List.cons_append, isPrefixOf_upTo mark]
          split
          · next closing =>
              have found : ['#', '#'].isPrefixOf text = true := (Bool.and_eq_true_iff.mp closing).2
              exact congrArg (Step.mk _ _) (drop_within found (Nat.le_refl 2) _)
          · rfl
      | quoted quote triple =>
          exact stringStep_line (quotable quote triple List.mem_cons_self) within rest
      | interpolation depth =>
          simp only [step]
          split
          · rfl
          split
          · cases depth <;> rfl
          · exact codeStep_line _ c text rest

theorem lex_newline (rest : Text) : lex [] ('\n' :: rest) = .newline :: lex [] rest := by
  rw [lex]
  simp [step, codeStep]

-- A text that ends with a backslash in a string leaves the string open.
theorem not_reaches (closed : framesAfter frames (c :: text) = []) : ¬Reaches frames c text := by
  rintro ⟨rfl, rfl, quote, triple, outer, rfl⟩
  simp [framesAfter, step, stringStep] at closed

/-- What is left open after the last line before a text is nothing: the line and the text are
read each on its own. -/
theorem lex_line (quotable : Quotable frames) (closed : framesAfter frames text = []) (rest : Text) :
    lex frames (text ++ '\n' :: rest) = lex frames text ++ .newline :: lex [] rest := by
  induction frames, text using lex.induct with
  | case1 frames =>
      rw [framesAfter] at closed
      subst closed
      rw [List.nil_append, lex_newline, lex]
      rfl
  | case2 frames c text shorter ih =>
      have within := not_reaches closed
      rw [framesAfter] at closed
      rw [List.cons_append, lex, lex, step_line quotable within]
      simp only [Step.above]
      rw [ih (step_quotable quotable c text) closed, List.append_assoc]

end Lexing
end Brewery.Coffee
