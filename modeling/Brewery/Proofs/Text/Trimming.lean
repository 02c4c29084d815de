import Brewery.Text.Blank
import Mathlib.Data.List.Basic
import Mathlib.Data.List.TakeWhile

/-!
Trimming. A text trims to nothing when all of it is white space; otherwise it begins and ends,
once trimmed, with the first and the last of its characters that can be seen.
-/

namespace Brewery.Text

theorem trimEnd_isPrefix (text : Text) : trimEnd text <+: text :=
  ⟨trailing text, trimEnd_append_trailing text⟩

theorem trimStart_isSuffix (text : Text) : trimStart text <:+ text := List.dropWhile_suffix _

theorem trimEnd_eq_nil_iff {text : Text} : trimEnd text = [] ↔ ∀ c ∈ text, isBlank c = true := by
  unfold trimEnd
  rw [List.reverse_eq_nil_iff, List.dropWhile_eq_nil_iff]
  simp

theorem trim_eq_nil_iff {text : Text} : trim text = [] ↔ ∀ c ∈ text, isBlank c = true := by
  unfold trim
  rw [trimEnd_eq_nil_iff]
  constructor
  · intro blank c member
    rw [← indentation_append_trimStart text, List.mem_append] at member
    rcases member with before | after
    · exact List.mem_takeWhile_imp before
    · exact blank c after
  · intro blank c member
    exact blank c ((trimStart_isSuffix text).subset member)

-- What shows is not trimmed away.
theorem mem_trim {text : Text} {c : Char} (member : c ∈ text) (shows : isBlank c = false) :
    c ∈ trim text := by
  rw [← indentation_append_trimStart text, List.mem_append] at member
  rcases member with before | within
  · exact absurd (List.mem_takeWhile_imp before) (by simp [shows])
  · rw [← trimEnd_append_trailing (trimStart text), List.mem_append] at within
    rcases within with inside | after
    · exact inside
    · exact absurd (List.mem_takeWhile_imp (List.mem_reverse.mp after)) (by simp [shows])

/-- A character that shows on a line. -/
def seen (c : Char) : Bool := !isBlank c

theorem head?_trimStart (text : Text) : (trimStart text).head? = text.find? seen := by
  rw [List.find?_eq_head?_dropWhile_not]
  simp [seen, trimStart]

theorem getLast?_trimEnd (text : Text) : (trimEnd text).getLast? = text.reverse.find? seen := by
  rw [List.find?_eq_head?_dropWhile_not]
  simp [seen, trimEnd]

theorem dropSuffix?_eq_some_iff {marker text front : Text} :
    dropSuffix? marker text = some front ↔ text = front ++ marker := by
  unfold dropSuffix?
  rw [Option.map_eq_some_iff]
  constructor
  · rintro ⟨back, found, rfl⟩
    have shape := (dropPrefix?_eq_some_iff _ _ _).mp found
    rw [← List.reverse_reverse text, shape]
    simp
  · rintro rfl
    exact ⟨front.reverse, (dropPrefix?_eq_some_iff _ _ _).mpr (by simp), by simp⟩

section Blanks

variable {text inner before after : Text}

/-- White space and nothing else. -/
def Blanks (text : Text) : Prop := ∀ c ∈ text, isBlank c = true

/-- A text with white space at neither end. -/
structure Tight (text : Text) : Prop where
  some : text ≠ []
  first : ∀ c ∈ text.head?, isBlank c = false
  last : ∀ c ∈ text.getLast?, isBlank c = false

theorem blanks_indentation (text : Text) : Blanks (indentation text) :=
  fun _ member => List.mem_takeWhile_imp member

theorem blanks_trailing (text : Text) : Blanks (trailing text) :=
  fun _ member => List.mem_takeWhile_imp (List.mem_reverse.mp member)

theorem trimStart_append (blanks : Blanks before) (first : ∀ c ∈ text.head?, isBlank c = false) :
    trimStart (before ++ text) = text := by
  rw [trimStart, List.dropWhile_append_of_pos blanks]
  cases text with
  | nil => rfl
  | cons c rest => rw [List.dropWhile_cons_of_neg (by simp [first c rfl])]

theorem indentation_append (blanks : Blanks before) (first : ∀ c ∈ text.head?, isBlank c = false) :
    indentation (before ++ text) = before := by
  have whole := indentation_append_trimStart (before ++ text)
  rw [trimStart_append blanks first] at whole
  exact List.append_cancel_right whole

theorem trimEnd_append (blanks : Blanks after) (last : ∀ c ∈ text.getLast?, isBlank c = false) :
    trimEnd (text ++ after) = text := by
  have backwards : trimStart (after.reverse ++ text.reverse) = text.reverse :=
    trimStart_append (fun c member => blanks c (List.mem_reverse.mp member)) (by simpa using last)
  rw [trimEnd, List.reverse_append]
  exact List.reverse_eq_iff.mpr backwards

theorem tight_trim (written : trim text ≠ []) : Tight (trim text) := by
  refine ⟨written, ?_, ?_⟩
  · intro c first
    obtain ⟨more, shape⟩ := trimEnd_isPrefix (trimStart text)
    have same : (trimStart text).head? = Option.some c := by
      rw [← shape]
      exact List.mem_head?_append_of_mem_head? first
    rw [head?_trimStart] at same
    simpa [seen] using List.find?_some same
  · intro c last
    have same : (trimStart text).reverse.find? seen = Option.some c := by
      rw [← getLast?_trimEnd]
      exact last
    simpa [seen] using List.find?_some same

/-- What a text is trimmed to stands in it between white space. -/
theorem trim_eq_iff (tight : Tight inner) :
    trim text = inner ↔ ∃ before after, Blanks before ∧ Blanks after ∧
      text = before ++ inner ++ after := by
  constructor
  · rintro rfl
    refine ⟨indentation text, trailing (trimStart text), blanks_indentation _, blanks_trailing _, ?_⟩
    rw [trim, List.append_assoc, trimEnd_append_trailing, indentation_append_trimStart]
  · rintro ⟨before, after, front, back, rfl⟩
    have first : ∀ c ∈ (inner ++ after).head?, isBlank c = false := by
      rw [List.head?_append_of_ne_nil _ tight.some]
      exact tight.first
    rw [trim, List.append_assoc, trimStart_append front first, trimEnd_append back tight.last]

end Blanks

end Brewery.Text
