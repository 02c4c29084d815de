import Brewery.Proofs.Coffee.BlockString
import Brewery.Proofs.Coffee.Sequence

/-!
Words in a text. A word stands where the lexer comes to its first character in code. What the
lexer looks ahead for before it comes there is never a letter, so another word in the same place
is read between the same tokens.
-/

namespace Brewery.Coffee

/-- A reading of a text, up to the rest that is given last: its tokens and what is open then. -/
inductive Reads : List Frame → Text → List Token → List Frame → Text → Prop where
  | here {frames : List Frame} {text : Text} : Reads frames text [] frames text
  | on {frames last : List Frame} {c : Char} {rest tail : Text} {tokens : List Token}
      (onward : Reads (step frames c rest).frames (step frames c rest).rest tokens last tail) :
      Reads frames (c :: rest) ((step frames c rest).tokens ++ tokens) last tail

def IsWord (name : Text) : Prop :=
  ∃ first more, name = first :: more ∧ isWordStart first = true ∧
    ∀ c ∈ more, isWordCharacter c = true

/-- A word that stands between two texts, with the tokens before it and after it. -/
structure Stands (before name after : Text) (left right : List Token) : Prop where
  word : IsWord name
  ends : ∀ c, after.head? = some c → isWordCharacter c = false
  reached : ∃ frames, ReadsCode frames ∧
    Reads [] (before ++ name ++ after) left frames (name ++ after) ∧ right = lex frames after

variable {frames last : List Frame} {c w : Char} {text tail rest more before name after : Text}
  {spoken left right : List Token}

theorem Reads.length (reads : Reads frames text spoken last tail) : tail.length ≤ text.length := by
  induction reads with
  | here => exact Nat.le_refl _
  | @on frames last c rest tail tokens onward ih =>
      have shorter := step_length frames c rest
      rw [List.length_cons]
      omega

theorem Reads.lex (reads : Reads frames text spoken last tail) :
    lex frames text = spoken ++ lex last tail := by
  induction reads with
  | here => rfl
  | on _ ih => rw [Coffee.lex, ih, List.append_assoc]

section Letters

-- A character with one of these codes begins no word, if none of the codes does.
theorem not_wordStart {codes : List Nat} (member : c.toNat ∈ codes)
    (none : ∀ code ∈ codes, isWordStart (Char.ofNat code) = false) : isWordStart c = false := by
  have known := none c.toNat member
  rwa [Char.ofNat_toNat] at known

theorem digit_not_wordStart (digit : c.isDigit = true) : isWordStart c = false := by
  refine not_wordStart (show c.toNat ∈ List.range' 48 10 from ?_) (by decide)
  simp only [Char.isDigit, Bool.and_eq_true, decide_eq_true_eq, UInt32.le_iff_toNat_le] at digit
  have low : 48 ≤ c.val.toNat := digit.1
  have high : c.val.toNat ≤ 57 := digit.2
  rw [List.mem_range'_1, Char.toNat]
  omega

theorem blank_not_wordStart (blank : Text.isBlank c = true) : isWordStart c = false := by
  refine not_wordStart (show c.toNat ∈ List.range' 9 5 ++ [32, 0x85, 0xA0, 0x1680] ++
    List.range' 0x2000 11 ++ [0x2028, 0x2029, 0x202F, 0x205F, 0x3000] from ?_) (by decide +kernel)
  simp only [Text.isBlank, Bool.or_eq_true, Bool.and_eq_true, decide_eq_true_eq, beq_iff_eq] at blank
  simp only [List.mem_append, List.mem_range'_1, List.mem_cons, List.not_mem_nil, or_false]
  omega

theorem wordStart_ne {other : Char} (start : isWordStart w = true)
    (none : isWordStart other = false) : w ≠ other := by
  rintro rfl
  exact absurd (start.symm.trans none) (by simp)

theorem wordStart_not_digit (start : isWordStart w = true) : w.isDigit = false :=
  Bool.eq_false_iff.mpr fun digit => wordStart_ne start (digit_not_wordStart digit) rfl

theorem wordStart_not_quote (start : isWordStart w = true) : isQuote w = false := by
  have single := wordStart_ne start (show isWordStart '\'' = false by decide)
  have double := wordStart_ne start (show isWordStart '"' = false by decide)
  have back := wordStart_ne start (show isWordStart (Char.ofNat 0x60) = false by decide)
  simp only [isQuote, Bool.or_eq_false_iff, decide_eq_false_iff_not]
  exact ⟨⟨single, double⟩, back⟩

theorem wordStart_not_operator (start : isWordStart w = true) :
    ∀ operator ∈ operators, w ∉ operator := by
  have plain : (operators.flatten.all fun c => !isWordStart c) = true := by decide
  intro operator member inside
  have other := List.all_eq_true.mp plain w (List.mem_flatten.mpr ⟨operator, member, inside⟩)
  simp [start] at other

end Letters

section Seams

/-- A step before a further text. -/
def Step.ahead (step : Step) (tail : Text) : Step := { step with rest := step.rest ++ tail }

-- What is dropped up to a mark that is not dropped itself is dropped without it.
theorem dropWhile_unread {p : Char → Bool} (text rest : Text)
    (unread : rest.length < ((text ++ w :: rest).dropWhile p).length) :
    (text ++ w :: rest).dropWhile p = text.dropWhile p ++ w :: rest ∧
      (text ++ w :: rest).takeWhile p = text.takeWhile p := by
  induction text with
  | nil =>
      cases stops : p w with
      | false => simp [stops]
      | true =>
          simp only [List.nil_append, List.dropWhile_cons, stops, ↓reduceIte] at unread
          have shorter := length_dropWhile_le p rest
          omega
  | cons first text ih =>
      cases keeps : p first with
      | false => simp [keeps]
      | true =>
          simp only [List.cons_append, List.dropWhile_cons, List.takeWhile_cons, keeps,
            ↓reduceIte] at unread ⊢
          obtain ⟨dropped, taken⟩ := ih unread
          exact ⟨dropped, congrArg _ taken⟩

theorem afterNumber_unread (digit : w.isDigit = false) (point : w ≠ '.') (text rest : Text)
    (unread : rest.length < (afterNumber (text ++ w :: rest)).length) :
    afterNumber (text ++ w :: rest) = afterNumber text ++ w :: rest := by
  induction text using afterNumber.induct with
  | case1 =>
      rw [List.nil_append, afterNumber_cons point] at unread ⊢
      split at unread
      · have shorter := afterNumber_length rest
        omega
      · next stops => rw [if_neg stops, afterNumber, List.nil_append]
  | case2 next more digit ih => simp_all [afterNumber]
  | case3 next more point => simp_all [afterNumber]
  | case4 c more alone further ih =>
      have bare : c ≠ '.' := by
        rintro rfl
        exact absurd further (by decide)
      rw [List.cons_append, afterNumber_cons bare, if_pos further] at unread ⊢
      rw [afterNumber_cons bare, if_pos further, ih unread]
  | case5 c more alone ends =>
      by_cases point : c = '.'
      · cases more with
        | nil => simp [point, afterNumber, digit]
        | cons next more => exact absurd rfl (alone next more point)
      · rw [List.cons_append, afterNumber_cons point, afterNumber_cons point, if_neg ends,
          if_neg ends, List.cons_append]

-- A step that does not come to the word does not look at it.
theorem codeStep_unread (start : isWordStart w = true) (frames : List Frame) (c : Char)
    (text rest : Text)
    (unread : rest.length < (codeStep frames c (text ++ w :: rest)).rest.length) :
    codeStep frames c (text ++ w :: rest) = (codeStep frames c text).ahead (w :: rest) := by
  have absent := wordStart_not_operator start
  unfold codeStep at unread ⊢
  split
  · rfl
  next line =>
    rw [if_neg line] at unread
    split
    · rfl
    next solid =>
      rw [if_neg solid] at unread
      split
      · next hash =>
          rw [if_pos hash] at unread
          rw [opensComment_upTo (wordStart_ne start (by decide))] at unread ⊢
          split
          · next mark =>
              exact congrArg (Step.mk _ _) (drop_within (Bool.and_eq_true_iff.mp mark).1 (Nat.le_refl 2) _)
          · next plain =>
              rw [if_neg plain] at unread
              exact congrArg (Step.mk _ _) (dropWhile_unread text rest unread).1
      next code =>
        rw [if_neg code] at unread
        split
        · next quote =>
            have quotes : w ∉ [c, c] := by
              have other : w ≠ c := by
                rintro rfl
                exact absurd (quote.symm.trans (wordStart_not_quote start)) (by simp)
              simp [other]
            rw [isPrefixOf_upTo quotes]
            split
            · next same => exact congrArg (Step.mk _ _) (drop_within same (Nat.le_refl 2) _)
            · rfl
        next unquoted =>
          rw [if_neg unquoted] at unread
          split
          · next begins =>
              rw [if_pos begins] at unread
              obtain ⟨dropped, taken⟩ := dropWhile_unread text rest unread
              rw [dropped, taken]
              rfl
          next sign =>
            rw [if_neg sign] at unread
            split
            · next number =>
                rw [if_pos number] at unread
                exact congrArg (Step.mk _ _) (afterNumber_unread (wordStart_not_digit start)
                  (wordStart_ne start (by decide)) text rest unread)
            · rw [← List.cons_append, find?_upTo absent]
              split
              · next operator found =>
                  have fits := List.find?_some found
                  cases operator with
                  | nil => exact absurd (List.mem_of_find?_eq_some found) (by decide)
                  | cons first more =>
                      have begins : more.isPrefixOf text = true := (Bool.and_eq_true_iff.mp fits).2
                      exact congrArg (Step.mk _ _) (drop_within begins (by simp) _)
              · rfl

theorem stringStep_unread (start : isWordStart w = true) {quote : Char} (mark : w ≠ quote)
    (triple : Bool) (outer : List Frame) (c : Char) (text rest : Text)
    (unread : rest.length < (stringStep quote triple outer c (text ++ w :: rest)).rest.length) :
    stringStep quote triple outer c (text ++ w :: rest) =
      (stringStep quote triple outer c text).ahead (w :: rest) := by
  have brace := wordStart_ne start (show isWordStart '\x7b' = false by decide)
  have head : ((text ++ w :: rest).head? = some '\x7b') = (text.head? = some '\x7b') := by
    cases text with
    | nil => simp [brace]
    | cons first text => rfl
  have quotes : w ∉ [quote, quote] := by simp [mark]
  unfold stringStep at unread ⊢
  simp only [head, isPrefixOf_upTo quotes] at unread ⊢
  split
  · next escape =>
      rw [if_pos escape] at unread
      cases text with
      | nil => simp at unread
      | cons first text => rfl
  split
  · next opening =>
      cases text with
      | nil => simp at opening
      | cons first text => rfl
  split
  · next closing =>
      cases triple with
      | false => rfl
      | true =>
          have found : [quote, quote].isPrefixOf text = true := by
            simpa using (Bool.and_eq_true_iff.mp closing).2
          exact congrArg (Step.mk _ _) (drop_within found (Nat.le_refl 2) _)
  · rfl

theorem step_unread (start : isWordStart w = true)
    (quoting : Quoting (fun quote => isQuote quote = true) frames) (c : Char) (text rest : Text)
    (unread : rest.length < (step frames c (text ++ w :: rest)).rest.length) :
    step frames c (text ++ w :: rest) = (step frames c text).ahead (w :: rest) := by
  cases frames with
  | nil => exact codeStep_unread start [] c text rest unread
  | cons frame outer =>
      cases frame with
      | comment =>
          have mark : w ∉ commentMark := by
            have other := wordStart_ne start (show isWordStart '#' = false by decide)
            simp [commentMark, other]
          simp only [step]
          rw [← List.cons_append, isPrefixOf_upTo mark]
          split
          · next closing =>
              have found : ['#', '#'].isPrefixOf text = true := (Bool.and_eq_true_iff.mp closing).2
              exact congrArg (Step.mk _ _) (drop_within found (Nat.le_refl 2) _)
          · rfl
      | quoted quote triple =>
          have mark : w ≠ quote := by
            rintro rfl
            have quoted := quoting w triple List.mem_cons_self
            exact absurd (quoted.symm.trans (wordStart_not_quote start)) (by simp)
          exact stringStep_unread start mark triple outer c text rest unread
      | interpolation depth =>
          simp only [step] at unread ⊢
          split
          · rfl
          next inner =>
            rw [if_neg inner] at unread
            split
            · cases depth <;> rfl
            · next code =>
                rw [if_neg code] at unread
                exact codeStep_unread start _ c text rest unread

-- A reading that has not left its text has not come to anything.
theorem Reads.stays (reads : Reads frames text spoken last text) : spoken = [] ∧ last = frames := by
  cases reads with
  | here => exact ⟨rfl, rfl⟩
  | @on _ _ c rest _ _ onward =>
      have shorter := onward.length
      have step := step_length frames c rest
      rw [List.length_cons] at shorter
      omega

theorem Reads.goes (reads : Reads frames (c :: rest) spoken last tail)
    (short : tail.length ≤ rest.length) : ∃ tokens, spoken = (step frames c rest).tokens ++ tokens ∧
      Reads (step frames c rest).frames (step frames c rest).rest tokens last tail := by
  cases reads with
  | here => exact absurd short (Nat.not_succ_le_self _)
  | on onward => exact ⟨_, rfl, onward⟩

theorem Reads.seam {other : Char} {further : Text} {heard : List Token} {final : List Frame}
    (start : isWordStart w = true) (begins : isWordStart other = true)
    (quoting : Quoting (fun quote => isQuote quote = true) frames)
    (reads : Reads frames (before ++ w :: rest) spoken last (w :: rest))
    (again : Reads frames (before ++ other :: further) heard final (other :: further)) :
    heard = spoken ∧ final = last := by
  induction length : before.length using Nat.strongRecOn generalizing before frames spoken heard with
  | ind length ih =>
      cases before with
      | nil =>
          obtain ⟨rfl, rfl⟩ := reads.stays
          exact again.stays
      | cons c text =>
          rw [List.cons_append] at reads again
          -- Neither reading has come to its word yet, so each goes on with a step before it.
          obtain ⟨tokens, rfl, onward⟩ := reads.goes (by simp)
          obtain ⟨others, rfl, further⟩ := again.goes (by simp)
          have one := step_unread start quoting c text rest onward.length
          have two := step_unread begins quoting c text _ further.length
          rw [one] at onward ⊢
          rw [two] at further ⊢
          have shorter := step_length frames c text
          have next := step_quoting (fun _ mark => mark) quoting c text
          obtain ⟨rfl, rfl⟩ := ih _ (by simp at length; omega) next onward further rfl
          exact ⟨rfl, rfl⟩

end Seams

theorem step_code (code : ReadsCode frames) (open_ : c ≠ '\x7b') (close : c ≠ '\x7d') :
    step frames c text = codeStep frames c text := by
  cases frames with
  | nil => rfl
  | cons frame outer =>
      cases frame with
      | interpolation depth => simp only [step, if_neg open_, if_neg close]
      | comment => exact code.elim
      | quoted quote triple => exact code.elim

theorem codeStep_word (start : isWordStart w = true) :
    codeStep frames w text = ⟨[.word (w :: text.takeWhile isWordCharacter)], frames,
      text.dropWhile isWordCharacter⟩ := by
  have line := wordStart_ne start (show isWordStart '\n' = false by decide)
  have hash := wordStart_ne start (show isWordStart '#' = false by decide)
  have solid : ¬Text.isBlank w = true := fun blank =>
    wordStart_ne start (blank_not_wordStart blank) rfl
  have unquoted : ¬isQuote w = true := by simp [wordStart_not_quote start]
  rw [codeStep, if_neg line, if_neg solid, if_neg hash, if_neg unquoted, if_pos start]

theorem takeWhile_ends (further : ∀ c ∈ more, isWordCharacter c = true)
    (ends : ∀ c, after.head? = some c → isWordCharacter c = false) :
    (more ++ after).takeWhile isWordCharacter = more := by
  rw [List.takeWhile_append_of_pos further]
  cases after with
  | nil => rw [List.takeWhile_nil, List.append_nil]
  | cons c after => rw [List.takeWhile_cons_of_neg (by simp [ends c rfl]), List.append_nil]

theorem dropWhile_ends (further : ∀ c ∈ more, isWordCharacter c = true)
    (ends : ∀ c, after.head? = some c → isWordCharacter c = false) :
    (more ++ after).dropWhile isWordCharacter = after := by
  rw [List.dropWhile_append_of_pos further]
  cases after with
  | nil => rfl
  | cons c after => rw [List.dropWhile_cons_of_neg (by simp [ends c rfl])]

theorem lex_word (code : ReadsCode frames) (word : IsWord name)
    (ends : ∀ c, after.head? = some c → isWordCharacter c = false) :
    lex frames (name ++ after) = .word name :: lex frames after := by
  obtain ⟨first, more, rfl, start, further⟩ := word
  have open_ := wordStart_ne start (show isWordStart '\x7b' = false by decide)
  have close := wordStart_ne start (show isWordStart '\x7d' = false by decide)
  have read : step frames first (more ++ after) = ⟨[.word (first :: more)], frames, after⟩ := by
    rw [step_code code open_ close, codeStep_word start, takeWhile_ends further ends,
      dropWhile_ends further ends]
  rw [List.cons_append, Coffee.lex, read]
  rfl

theorem Stands.tokens (stands : Stands before name after left right) :
    tokens (before ++ name ++ after) = left ++ .word name :: right := by
  obtain ⟨word, ends, frames, code, reads, rfl⟩ := stands
  rw [Coffee.tokens, reads.lex, lex_word code word ends]

theorem Stands.unique {other : Text} {spoken heard : List Token}
    (stands : Stands before name after left right)
    (again : Stands before other after spoken heard) : spoken = left ∧ heard = right := by
  obtain ⟨⟨first, more, rfl, start, _⟩, _, frames, _, reads, rfl⟩ := stands
  obtain ⟨⟨one, two, rfl, begins, _⟩, _, final, _, later, rfl⟩ := again
  rw [List.append_assoc, List.cons_append] at reads later
  obtain ⟨rfl, rfl⟩ := reads.seam start begins
    (fun _ _ member => absurd member List.not_mem_nil) later
  exact ⟨rfl, rfl⟩

end Brewery.Coffee
