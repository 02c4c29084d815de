import Brewery.Proofs.Text.Trimming
import Brewery.Script.Line

/-!
What a line is. `Classified` lists the kinds of a line with what makes a line of each kind, in
the order in which they are tried; later proofs are by cases on it and never open `classify`.
-/

namespace Brewery.Script

/-- A line that opens no block and does not end the script. -/
structure Closed (line : Text) : Prop where
  runs : Text.trim line ≠ endMarker
  opens : isComment line = true ∨
    literalOpening? line = none ∧ Text.occurrences blockQuote line % 2 ≠ 1

inductive Classified (line : Text) : LineKind → Prop where
  | finish (ends : Text.trim line = endMarker) : Classified line .finish
  | literal {head tag : Text} (runs : Text.trim line ≠ endMarker) (bare : isComment line = false)
      (opens : literalOpening? line = some (head, tag)) : Classified line (.literal head tag)
  | blockString (runs : Text.trim line ≠ endMarker) (bare : isComment line = false)
      (plain : literalOpening? line = none) (odd : Text.occurrences blockQuote line % 2 = 1) :
      Classified line .blockString
  | inclusion {indent target : Text} (closed : Closed line)
      (includes : inclusion? line = some (indent, target)) :
      Classified line (.inclusion indent target)
  | blank (closed : Closed line) (alone : inclusion? line = none) (empty : Text.trim line = []) :
      Classified line .blank
  | comment (closed : Closed line) (alone : inclusion? line = none) (written : Text.trim line ≠ [])
      (marked : isComment line = true) : Classified line .comment
  | code (closed : Closed line) (alone : inclusion? line = none) (written : Text.trim line ≠ [])
      (bare : isComment line = false) : Classified line .code

section Classification

variable {line : Text}

theorem classify_literal {head tag : Text} (runs : Text.trim line ≠ endMarker)
    (bare : isComment line = false) (opens : literalOpening? line = some (head, tag)) :
    classify line = .literal head tag := by
  simp [classify, runs, bare, opens]

theorem classify_blockString (runs : Text.trim line ≠ endMarker) (bare : isComment line = false)
    (plain : literalOpening? line = none) (odd : Text.occurrences blockQuote line % 2 = 1) :
    classify line = .blockString := by
  simp [classify, runs, bare, plain, odd]

theorem Closed.classify_inclusion (closed : Closed line) {indent target : Text}
    (includes : inclusion? line = some (indent, target)) :
    classify line = .inclusion indent target := by
  rcases closed.opens with marked | ⟨plain, even⟩
  · simp [classify, closed.runs, marked, includes]
  · simp [classify, closed.runs, plain, even, includes]

theorem Closed.classify_alone (closed : Closed line) (alone : inclusion? line = none) :
    classify line = if Text.trim line = [] then .blank
      else if isComment line then .comment else .code := by
  rcases closed.opens with marked | ⟨plain, even⟩
  · simp [classify, closed.runs, marked, alone]
  · simp [classify, closed.runs, plain, even, alone]

theorem classified (line : Text) : Classified line (classify line) := by
  by_cases ends : Text.trim line = endMarker
  · rw [classify, if_pos ends]
    exact .finish ends
  · have kind (closed : Closed line) : Classified line (classify line) := by
      cases includes : inclusion? line with
      | some found =>
          rw [closed.classify_inclusion includes]
          exact .inclusion closed includes
      | none =>
          rw [closed.classify_alone includes]
          split
          · next empty => exact .blank closed includes empty
          · next written =>
              split
              · next marked => exact .comment closed includes written marked
              · next bare => exact .code closed includes written (by simpa using bare)
    cases marked : isComment line with
    | true => exact kind ⟨ends, Or.inl marked⟩
    | false =>
        cases opens : literalOpening? line with
        | some opening =>
            rw [classify_literal ends marked opens]
            exact .literal ends marked opens
        | none =>
            by_cases odd : Text.occurrences blockQuote line % 2 = 1
            · rw [classify_blockString ends marked opens odd]
              exact .blockString ends marked opens odd
            · exact kind ⟨ends, Or.inr ⟨opens, odd⟩⟩

end Classification

section Marks

variable {line head tag : Text}

theorem isComment_iff : isComment line = true ↔ line.find? Text.seen = some '#' := by
  unfold isComment
  rw [Text.head?_trimStart, decide_eq_true_iff]

theorem continues_iff : continues line = true ↔
    isComment line = false ∧ line.reverse.find? Text.seen = some continuation := by
  unfold continues
  rw [Text.getLast?_trimEnd]
  simp

theorem literalOpening?_shape (opens : literalOpening? line = some (head, tag)) :
    Text.trimEnd line = head ++ literalMark ++ tag := by
  simp only [literalOpening?] at opens
  split at opens
  · next found _ =>
      split at opens
      · exact absurd opens (by simp)
      · cases opens
        have front := Text.dropSuffix?_eq_some_iff.mp found
        rw [← front, ← List.reverse_append, List.takeWhile_append_dropWhile, List.reverse_reverse]
  · exact absurd opens (by simp)

/-- The opener of a literal block, as it is written, opens a block string. -/
theorem classify_opener (bare : isComment line = false)
    (opens : literalOpening? line = some (head, tag))
    (odd : Text.occurrences blockQuote (head ++ blockQuote) % 2 = 1) :
    classify (head ++ blockQuote) = .blockString := by
  have quote : '"' ∈ head ++ blockQuote := by simp [blockQuote]
  apply classify_blockString _ _ _ odd
  · intro ends
    have inside := Text.mem_trim quote (by decide)
    rw [ends] at inside
    exact absurd inside (by decide)
  · cases comment : isComment (head ++ blockQuote) with
    | false => rfl
    | true =>
        rw [isComment_iff, List.find?_append] at comment
        cases first : head.find? Text.seen with
        | none =>
            rw [first, Option.none_or] at comment
            exact absurd comment (by decide)
        | some c =>
            have same : isComment line = true := by
              rw [isComment_iff, ← Text.trimEnd_append_trailing line, literalOpening?_shape opens]
              simpa [List.find?_append, first] using comment
            exact absurd (same.symm.trans bare) (by simp)
  · have mark : Text.isBlank '"' = false := by decide
    have word : isTagCharacter '"' = false := by decide
    simp [literalOpening?, Text.trimEnd, blockQuote, mark, word]

end Marks

theorem inclusion?_indent {line indent target : Text}
    (includes : inclusion? line = some (indent, target)) : indent = Text.indentation line := by
  simp only [inclusion?] at includes
  split at includes
  · split at includes
    · exact (Prod.mk.inj (Option.some.inj includes)).1.symm
    · exact absurd includes (by simp)
  · exact absurd includes (by simp)

end Brewery.Script
