import Brewery.Proofs.Coffee.Word
import Brewery.Script.Line
import Mathlib.Data.List.Infix

/-!
Strings in three quotes, counted. Where the lexer takes every three quotes as the beginning or the
end of such a string, it is in one exactly after an odd number of them. So what is open at the end
of a line can be told from the lines alone.
-/

namespace Brewery

namespace Text

variable {pattern before after : Text} {mark : Char}

@[simp] theorem occurrences_nil : occurrences pattern [] = 0 := by
  rw [occurrences]

theorem isPrefixOf_false (some : pattern ≠ []) (absent : mark ∉ pattern) (text : Text) :
    pattern.isPrefixOf (mark :: text) = false := by
  obtain ⟨first, more, rfl⟩ := List.exists_cons_of_ne_nil some
  have other : first ≠ mark := fun same => absent (same ▸ List.mem_cons_self)
  rw [List.isPrefixOf_cons_cons, beq_false_of_ne other, Bool.false_and]

-- A character that the pattern does not hold parts what is found before it and after it.
theorem occurrences_around (some : pattern ≠ []) (absent : mark ∉ pattern) (before after : Text) :
    occurrences pattern (before ++ mark :: after) =
      occurrences pattern before + occurrences pattern after := by
  induction before using occurrences.induct pattern with
  | case1 =>
      rw [List.nil_append, occurrences_nil, occurrences, isPrefixOf_false some absent,
        if_neg Bool.false_ne_true, Nat.zero_add]
  | case2 first rest found ih =>
      have further : (rest ++ mark :: after).drop (pattern.length - 1) =
          rest.drop (pattern.length - 1) ++ mark :: after := by
        obtain ⟨head, tail, rfl⟩ := List.exists_cons_of_ne_nil some
        have inside : tail.isPrefixOf rest = true := (Bool.and_eq_true_iff.mp found).2
        exact Coffee.drop_within inside (by simp) _
      rw [List.cons_append, occurrences, ← List.cons_append, Coffee.isPrefixOf_upTo absent, if_pos found,
        further, ih, occurrences, if_pos found]
      omega
  | case3 first rest missing ih =>
      rw [List.cons_append, occurrences, ← List.cons_append, Coffee.isPrefixOf_upTo absent,
        if_neg missing, ih, occurrences, if_neg missing]

theorem occurrences_skip (some : pattern ≠ []) (absent : ∀ c ∈ before, c ∉ pattern)
    (after : Text) : occurrences pattern (before ++ after) = occurrences pattern after := by
  induction before with
  | nil => rfl
  | cons c rest ih =>
      obtain ⟨here, later⟩ := List.forall_mem_cons.mp absent
      have around := occurrences_around some here [] (rest ++ after)
      rw [List.nil_append, occurrences_nil, Nat.zero_add] at around
      rw [List.cons_append, around, ih later]

theorem occurrences_trailing (some : pattern ≠ []) (absent : ∀ c ∈ after, c ∉ pattern)
    (before : Text) : occurrences pattern (before ++ after) = occurrences pattern before := by
  cases after with
  | nil => rw [List.append_nil]
  | cons c rest =>
      obtain ⟨here, later⟩ := List.forall_mem_cons.mp absent
      have none := occurrences_skip some later []
      rw [List.append_nil, occurrences_nil] at none
      rw [occurrences_around some here, none, Nat.add_zero]

-- Nothing is found in front of a text if the pattern stands nowhere before it.
theorem occurrences_apart (apart : ∀ later, later <:+ before ++ after →
    after.length < later.length → ¬pattern <+: later) :
    occurrences pattern (before ++ after) = occurrences pattern after := by
  induction before with
  | nil => rfl
  | cons c rest ih =>
      have longer : after.length < (c :: rest ++ after).length := by
        rw [List.length_append, List.length_cons]
        omega
      have here := apart _ List.suffix_rfl longer
      rw [List.cons_append, occurrences, if_neg (by simpa using here)]
      exact ih fun later suffix longer => apart later (suffix.trans (List.suffix_cons c _)) longer

end Text

namespace Script

/-- A line with which a string in three quotes begins or ends. -/
def turns (line : Text) : Bool := Text.occurrences blockQuote line % 2 = 1

/-- Whether a string in three quotes is open after some lines. -/
def openAfter (inside : Bool) (lines : List Text) : Bool :=
  lines.foldl (fun inside line => inside != turns line) inside

section Turns

variable {before after : Text} {mark : Char}

@[simp] theorem turns_nil : turns [] = false := by
  rw [turns, Text.occurrences_nil]
  rfl

theorem turns_quotes (after : Text) : turns ('"' :: '"' :: '"' :: after) = !turns after := by
  have one : Text.occurrences blockQuote ('"' :: '"' :: '"' :: after) =
      Text.occurrences blockQuote after + 1 := by
    rw [Text.occurrences, if_pos (by rfl)]
    rfl
  rw [turns, turns, one]
  rcases Nat.mod_two_eq_zero_or_one (Text.occurrences blockQuote after) with even | odd
  · simp [Nat.add_mod, even]
  · simp [Nat.add_mod, odd]

theorem turns_around (other : mark ∉ blockQuote) (before after : Text) :
    turns (before ++ mark :: after) = (turns before != turns after) := by
  rw [turns, turns, turns, Text.occurrences_around (by decide) other, Nat.add_mod]
  rcases Nat.mod_two_eq_zero_or_one (Text.occurrences blockQuote before) with even | odd <;>
    rcases Nat.mod_two_eq_zero_or_one (Text.occurrences blockQuote after) with also | further <;>
    simp_all

theorem not_mem_blockQuote (other : mark ≠ '"') : mark ∉ blockQuote := by
  simpa [blockQuote] using other

theorem turns_of_not_mem {line : Text} (bare : '"' ∉ line) : turns line = false := by
  have absent : ∀ c ∈ line, c ∉ blockQuote := by
    intro c member
    apply not_mem_blockQuote
    rintro rfl
    exact bare member
  have none := Text.occurrences_trailing (by decide) absent []
  rw [List.nil_append, Text.occurrences_nil] at none
  rw [turns, none]
  rfl

-- What neither begins nor ends with a quote is counted apart from what stands around it.
theorem turns_between {middle : Text} (shown : middle ≠ []) (starts : middle.head? ≠ some '"')
    (stops : middle.getLast? ≠ some '"') (before after : Text) :
    turns (before ++ (middle ++ after)) = (turns before != (turns middle != turns after)) := by
  obtain ⟨first, rest, rfl⟩ := List.exists_cons_of_ne_nil shown
  have here : first ∉ blockQuote := not_mem_blockQuote fun same => starts (by rw [same]; rfl)
  have own (text : Text) : turns (first :: text) = turns text := by
    simpa using turns_around here [] text
  rw [List.cons_append, turns_around here, own]
  rcases List.eq_nil_or_concat rest with rfl | ⟨front, last, rfl⟩
  · simp
  · rw [List.concat_eq_append, ← List.cons_append, List.getLast?_concat] at stops
    have there : last ∉ blockQuote := not_mem_blockQuote fun same => stops (by rw [same])
    rw [List.concat_eq_append, List.append_assoc, List.singleton_append, turns_around there,
      turns_around there]
    simp

theorem turns_newline (line : Text) : turns (line ++ ['\n']) = turns line := by
  rw [turns_around (by decide), turns_nil, Bool.bne_false]

theorem turns_apart (apart : ∀ later, later <:+ before ++ after → after.length < later.length →
    ¬blockQuote <+: later) : turns (before ++ after) = turns after := by
  rw [turns, turns, Text.occurrences_apart apart]

theorem openAfter_append (inside : Bool) (lines more : List Text) :
    openAfter inside (lines ++ more) = openAfter (openAfter inside lines) more :=
  List.foldl_append

/-- The lines of a text turn as often as the text. -/
theorem openAfter_eq (inside : Bool) (lines : List Text) :
    openAfter inside lines = (inside != turns (lines.flatMap (· ++ ['\n']))) := by
  induction lines generalizing inside with
  | nil => simp [openAfter]
  | cons line rest ih =>
      have parted := turns_around (show '\n' ∉ blockQuote by decide) line
        (rest.flatMap (· ++ ['\n']))
      rw [List.flatMap_cons, List.append_assoc, List.singleton_append, parted,
        show openAfter inside (line :: rest) = openAfter (inside != turns line) rest from rfl, ih,
        Bool.bne_assoc]

end Turns

end Script

namespace Coffee

open Script

/-- Whether the lexer is in a string in three quotes, or in what is interpolated in one. -/
def inString (frames : List Frame) : Bool := frames.getLast? = some (.quoted '"' true)

/-- The lexer takes every three quotes as the beginning or the end of a string that is not in
anything else. -/
inductive Delimited : List Frame → Text → Prop where
  | done {frames : List Frame} : Delimited frames []
  | opening {rest : Text} (onward : Delimited [.quoted '"' true] rest) :
      Delimited [] ('"' :: '"' :: '"' :: rest)
  | closing {rest : Text} (onward : Delimited [] rest) :
      Delimited [.quoted '"' true] ('"' :: '"' :: '"' :: rest)
  | other {frames : List Frame} {c : Char} {rest : Text}
      (apart : ∀ later, later <:+ c :: rest → (step frames c rest).rest.length < later.length →
        ¬blockQuote <+: later)
      (onward : Delimited (step frames c rest).frames (step frames c rest).rest) :
      Delimited frames (c :: rest)

/-- The lexer, in a string, comes to the end of it before the text that is given last. -/
inductive Encloses : List Frame → Text → Text → Prop where
  | ends {frames : List Frame} {c : Char} {rest : Text} (closed : (step frames c rest).frames = []) :
      Encloses frames (c :: rest) (step frames c rest).rest
  | on {frames : List Frame} {c : Char} {rest last : Text} (open_ : (step frames c rest).frames ≠ [])
      (further : Encloses (step frames c rest).frames (step frames c rest).rest last) :
      Encloses frames (c :: rest) last

variable {frames last : List Frame} {c : Char} {text rest tail : Text} {spoken : List Token}

section Steps

-- What a step leaves is the end of the text before it.
theorem afterNumber_suffix (text : Text) : afterNumber text <:+ text := by
  induction text using afterNumber.induct with
  | case1 => rw [afterNumber]
  | case2 next rest digit ih =>
      rw [afterNumber, if_pos digit]
      exact ih.trans (List.suffix_cons _ _)
  | case3 next rest point => rw [afterNumber, if_neg point]
  | case4 c rest alone further ih =>
      have bare : c ≠ '.' := by
        rintro rfl
        exact absurd further (by decide)
      rw [afterNumber_cons bare, if_pos further]
      exact ih.trans (List.suffix_cons _ _)
  | case5 c rest alone ends =>
      by_cases point : c = '.'
      · cases rest with
        | nil => simp [point, afterNumber]
        | cons next rest => exact absurd rfl (alone next rest point)
      · rw [afterNumber_cons point, if_neg ends]

theorem codeStep_suffix (frames : List Frame) (c : Char) (rest : Text) :
    (codeStep frames c rest).rest <:+ rest := by
  unfold codeStep
  repeat' split
  all_goals first
    | exact List.suffix_rfl
    | exact List.drop_suffix _ _
    | exact List.dropWhile_suffix _
    | exact afterNumber_suffix _

theorem step_suffix (frames : List Frame) (c : Char) (rest : Text) :
    (step frames c rest).rest <:+ rest := by
  unfold step
  split
  · exact codeStep_suffix _ _ _
  · split
    · exact List.drop_suffix _ _
    · exact List.suffix_rfl
  · unfold stringStep
    repeat' split
    all_goals first
      | exact List.suffix_rfl
      | exact List.drop_suffix _ _
  · repeat' split
    all_goals first
      | exact List.suffix_rfl
      | exact codeStep_suffix _ _ _

/-- What a step does with what is open, where it reads no three quotes. -/
inductive Moved : List Frame → List Frame → Prop where
  | still {frames : List Frame} : Moved frames frames
  | push {frames : List Frame} {frame : Frame} (other : frame ≠ .quoted '"' true) :
      Moved frames (frame :: frames)
  | pop {frames : List Frame} {frame : Frame} (other : frame ≠ .quoted '"' true) :
      Moved (frame :: frames) frames
  | deeper {frames : List Frame} {depth count : Nat} :
      Moved (.interpolation depth :: frames) (.interpolation count :: frames)

theorem Moved.inString {frames final : List Frame} (moved : Moved frames final) :
    inString final = inString frames := by
  unfold Coffee.inString
  cases moved with
  | still => rfl
  | push other => cases frames <;> simp [other]
  | pop other => cases final <;> simp [other]
  | @deeper frames depth count => cases frames <;> simp

theorem not_quotes (apart : ¬blockQuote <+: c :: rest) (double : [c, c].isPrefixOf rest = true) :
    c ≠ '"' := by
  rintro rfl
  obtain ⟨more, rfl⟩ := List.isPrefixOf_iff_prefix.mp double
  exact apart ⟨more, rfl⟩

theorem codeStep_moved (apart : ¬blockQuote <+: c :: rest) (frames : List Frame) :
    Moved frames (codeStep frames c rest).frames := by
  unfold codeStep
  repeat' split
  all_goals first
    | exact .still
    | exact .push fun frame => not_quotes apart (by assumption) (Frame.quoted.inj frame).1
    | exact .push (by simp)

theorem stringStep_moved (apart : ¬blockQuote <+: c :: rest) (quote : Char) (triple : Bool)
    (outer : List Frame) :
    Moved (.quoted quote triple :: outer) (stringStep quote triple outer c rest).frames := by
  unfold stringStep
  split
  · exact .still
  split
  · exact .push (by simp)
  split
  · next closing =>
      obtain ⟨same, ends⟩ := Bool.and_eq_true_iff.mp closing
      obtain rfl : c = quote := by simpa using same
      refine .pop fun frame => ?_
      obtain ⟨rfl, rfl⟩ := Frame.quoted.inj frame
      exact not_quotes apart (by simpa using ends) rfl
  · exact .still

theorem step_moved (apart : ¬blockQuote <+: c :: rest) (frames : List Frame) :
    Moved frames (step frames c rest).frames := by
  cases frames with
  | nil => exact codeStep_moved apart []
  | cons frame outer =>
      cases frame with
      | comment =>
          simp only [step]
          split
          · exact .pop (by simp)
          · exact .still
      | quoted quote triple => exact stringStep_moved apart quote triple outer
      | interpolation depth =>
          simp only [step]
          repeat' split
          · exact .deeper
          · exact .pop (by simp)
          · exact .deeper
          · exact codeStep_moved apart _

end Steps

section Runs

theorem Reads.trans {between : List Frame} {middle : Text} {heard : List Token}
    (reads : Reads frames text spoken between middle) (further : Reads between middle heard last tail) :
    Reads frames text (spoken ++ heard) last tail := by
  induction reads with
  | here => exact further
  | on onward ih =>
      rw [List.append_assoc]
      exact .on (ih further)

theorem Reads.quotable {last : List Frame} {tail : Text} {spoken : List Token}
    (reads : Reads frames text spoken last tail) (quotable : Quotable frames) :
    Quotable last := by
  induction reads with
  | here => exact quotable
  | @on frames last c rest tail spoken onward ih => exact ih (step_quotable quotable c rest)

/-- A newline is where the lexer comes to it, whatever is open there. -/
theorem step_newline (quotable : Quotable frames) (rest : Text) :
    (step frames '\n' rest).frames = frames ∧ (step frames '\n' rest).rest = rest := by
  cases frames with
  | nil => exact ⟨rfl, rfl⟩
  | cons frame outer =>
      cases frame with
      | comment => exact ⟨rfl, rfl⟩
      | interpolation depth => exact ⟨rfl, rfl⟩
      | quoted quote triple =>
          have other : '\n' ≠ quote := (quotable quote triple List.mem_cons_self).symm
          simp [step, stringStep, other]

/-- The lexer always comes to the beginning of the next line. -/
theorem reads_line (quotable : Quotable frames) (line rest : Text) :
    ∃ spoken, Reads frames (line ++ '\n' :: rest) spoken
      (Coffee.framesAfter frames (line ++ ['\n'])) rest := by
  induction length : line.length using Nat.strongRecOn generalizing frames line with
  | ind length ih =>
      cases line with
      | nil =>
          obtain ⟨frame, left⟩ := step_newline quotable rest
          obtain ⟨same, none⟩ := step_newline quotable []
          have after : Coffee.framesAfter frames ['\n'] = frames := by
            rw [Coffee.framesAfter, same, none, Coffee.framesAfter]
          have reads := @Reads.on frames frames '\n' rest rest []
          rw [frame, left] at reads
          rw [List.nil_append, List.nil_append, after]
          exact ⟨_, reads .here⟩
      | cons c line =>
          by_cases within : Reaches frames c line
          · obtain ⟨rfl, rfl, quote, triple, outer, rfl⟩ := within
            have after : Coffee.framesAfter (.quoted quote triple :: outer) ['\\', '\n'] =
                .quoted quote triple :: outer := by
              simp [Coffee.framesAfter, step, stringStep]
            have reads := @Reads.on (.quoted quote triple :: outer) (.quoted quote triple :: outer)
              '\\' ('\n' :: rest) rest []
            simp only [step, stringStep] at reads
            rw [List.cons_append, List.nil_append, List.cons_append, List.nil_append, after]
            exact ⟨_, reads .here⟩
          · have shorter := step_length frames c line
            obtain ⟨spoken, onward⟩ := ih _ (by rw [← length, List.length_cons]; omega)
              (step_quotable quotable c line) (step frames c line).rest rfl
            have after : Coffee.framesAfter frames (c :: line ++ ['\n']) =
                Coffee.framesAfter (step frames c line).frames ((step frames c line).rest ++ ['\n']) := by
              rw [List.cons_append, Coffee.framesAfter, step_line quotable within []]
              rfl
            have reads := @Reads.on frames (Coffee.framesAfter (step frames c line).frames
              ((step frames c line).rest ++ ['\n'])) c (line ++ '\n' :: rest) rest spoken
            rw [step_line quotable within rest] at reads
            rw [after]
            exact ⟨_, reads onward⟩

/-- Between two places that the lexer comes to, a string is begun or ended with each three
quotes. -/
theorem Delimited.inString_reads (delimited : Delimited frames text)
    (reads : Reads frames text spoken last tail) :
    ∃ used, text = used ++ tail ∧ Delimited last tail ∧
      inString last = (inString frames != turns used) := by
  induction reads with
  | here => exact ⟨[], rfl, delimited, by simp⟩
  | @on frames last c rest tail spoken onward ih =>
      cases delimited with
      | opening further =>
          obtain ⟨used, shape, after, odd⟩ := ih further
          refine ⟨'"' :: '"' :: '"' :: used, congrArg ('"' :: '"' :: '"' :: ·) shape, after, ?_⟩
          rw [odd, turns_quotes]
          cases turns used <;> rfl
      | closing further =>
          obtain ⟨used, shape, after, odd⟩ := ih further
          refine ⟨'"' :: '"' :: '"' :: used, congrArg ('"' :: '"' :: '"' :: ·) shape, after, ?_⟩
          rw [odd, turns_quotes]
          cases turns used <;> rfl
      | other apart further =>
          obtain ⟨used, shape, after, odd⟩ := ih further
          obtain ⟨taken, left⟩ := step_suffix frames c rest
          have front : c :: rest = (c :: taken) ++ used ++ tail := by
            rw [List.append_assoc, ← shape, List.cons_append, left]
          refine ⟨c :: taken ++ used, front, after, ?_⟩
          have here := apart _ List.suffix_rfl (Nat.lt_succ_of_le (step_length frames c rest))
          rw [odd, (step_moved here frames).inString, turns_apart]
          intro later suffix longer found
          refine apart (later ++ tail) ?_ ?_ (found.trans (List.prefix_append later tail))
          · obtain ⟨before, whole⟩ := suffix
            exact ⟨before, by rw [front, ← whole, List.append_assoc]⟩
          · rw [shape, List.length_append, List.length_append]
            omega

theorem Delimited.within {inner : Text} (delimited : Delimited [] (blockQuote ++ inner)) :
    Delimited [.quoted '"' true] inner := by
  cases delimited with
  | opening onward => exact onward
  | other apart _ =>
      exact absurd (List.prefix_append blockQuote inner)
        (apart _ List.suffix_rfl (Nat.lt_succ_of_le (step_length [] '"' _)))

/-- The end of a string is at the first three quotes. -/
theorem Encloses.first {after : Text} (encloses : Encloses frames text after)
    (delimited : Delimited frames text) (inside : inString frames = true) :
    ∃ body, text = body ++ blockQuote ++ after ∧ ∀ later, later <:+ text →
      (blockQuote ++ after).length < later.length → ¬blockQuote <+: later := by
  induction encloses with
  | @ends frames c rest closed =>
      cases delimited with
      | opening further => exact absurd inside (by decide)
      | closing further =>
          refine ⟨[], rfl, fun later suffix longer => ?_⟩
          exact absurd suffix.length_le (Nat.not_le_of_gt longer)
      | other apart further =>
          have here := apart _ List.suffix_rfl (Nat.lt_succ_of_le (step_length frames c rest))
          have same := (step_moved here frames).inString
          rw [closed, inside] at same
          exact absurd same (by decide)
  | @on frames c rest after open_ further ih =>
      cases delimited with
      | opening further => exact absurd inside (by decide)
      | closing further => exact absurd rfl open_
      | other apart onward =>
          have here := apart _ List.suffix_rfl (Nat.lt_succ_of_le (step_length frames c rest))
          obtain ⟨body, shape, first⟩ := ih onward ((step_moved here frames).inString.trans inside)
          obtain ⟨taken, left⟩ := step_suffix frames c rest
          refine ⟨c :: taken ++ body, ?_, fun later suffix longer => ?_⟩
          · rw [← left, shape]
            simp
          · rcases Nat.lt_or_ge (step frames c rest).rest.length later.length with before | within
            · exact apart later suffix before
            · have inner := (step_suffix frames c rest).trans (List.suffix_cons c rest)
              exact first later (List.suffix_of_suffix_length_le suffix inner within) longer

end Runs

section Content

variable {content : Text} (plain : ∀ c ∈ content, c ≠ '"' ∧ c ≠ '\\' ∧ c ≠ '#')

theorem step_content (plain : c ≠ '"' ∧ c ≠ '\\' ∧ c ≠ '#') (rest : Text) :
    step [.quoted '"' true] c rest = ⟨[], [.quoted '"' true], rest⟩ := by
  simp [step, stringStep, plain]

include plain

theorem Delimited.pass (further : Delimited [.quoted '"' true] rest) :
    Delimited [.quoted '"' true] (content ++ rest) := by
  induction content with
  | nil => exact further
  | cons c more ih =>
      obtain ⟨here, later⟩ := List.forall_mem_cons.mp plain
      have read := step_content here (more ++ rest)
      rw [List.cons_append]
      refine .other (fun end_ suffix longer found => ?_) (by rw [read]; exact ih later)
      rw [read] at longer
      have whole : end_ = c :: (more ++ rest) := suffix.eq_of_length_le (Nat.succ_le_of_lt longer)
      rw [whole] at found
      exact here.1 (List.cons_prefix_cons.mp found).1.symm

theorem Encloses.pass {after : Text} (further : Encloses [.quoted '"' true] rest after) :
    Encloses [.quoted '"' true] (content ++ rest) after := by
  induction content with
  | nil => exact further
  | cons c more ih =>
      obtain ⟨here, later⟩ := List.forall_mem_cons.mp plain
      have read := step_content here (more ++ rest)
      rw [List.cons_append]
      refine .on (by rw [read]; exact List.cons_ne_nil _ _) ?_
      rw [read]
      exact ih later

end Content

end Coffee
end Brewery
