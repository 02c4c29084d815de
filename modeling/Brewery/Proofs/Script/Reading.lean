import Brewery.Proofs.Script.Line
import Brewery.Script.Item

/-!
Reading a script one item at a time. What `items` lists is what a reader meets who takes an item,
goes on from the line after it, and stops where nothing is to be taken. Proofs about a script
follow this reader, who always has fewer lines before him than the last time.
-/

namespace Brewery.Script

/-- An item, and where the reader goes on after it: the number of the next line, and the lines
from there. -/
structure Taken where
  item : Item
  number : Nat
  rest : List Text
  deriving DecidableEq

/-- The item that begins with the first of the lines, unless the script ends there. -/
def take? (name : Text) (number : Nat) : List Text → Option Taken
  | [] => none
  | first :: rest =>
      let logical := logicalLine name number first rest
      match classify logical.line with
      | .finish => none
      | .blank => some ⟨.blank, logical.number, logical.rest⟩
      | .comment => some ⟨.comment logical.line, logical.number, logical.rest⟩
      | .code => some ⟨.code logical.line, logical.number, logical.rest⟩
      | .inclusion indent target =>
          some ⟨.inclusion number (Text.trim logical.line) indent target, logical.number,
            logical.rest⟩
      | .literal head tag =>
          match close? (closesLiteral tag) logical.rest with
          | none => some ⟨.unterminated number (Text.trim logical.line), logical.number, []⟩
          | some (content, closing, after) =>
              some ⟨.block (head ++ blockQuote) (content.map escapeBlockLine)
                (Text.indentation closing ++ blockQuote), logical.number + content.length + 1,
                after⟩
      | .blockString =>
          match close? closesBlockString logical.rest with
          | none => some ⟨.unterminated number (Text.trim logical.line), logical.number, []⟩
          | some (content, closing, after) =>
              some ⟨.block logical.line content closing, logical.number + content.length + 1,
                after⟩

@[simp] theorem items_nil (name : Text) (number : Nat) : items name number [] = [] := by
  rw [items]

theorem items_eq_take (name : Text) (number : Nat) (lines : List Text) :
    items name number lines =
      match take? name number lines with
      | none => []
      | some taken => taken.item :: items name taken.number taken.rest := by
  cases lines with
  | nil => simp [take?]
  | cons first rest =>
      rw [items]
      simp only [take?]
      cases kind : classify (logicalLine name number first rest).line with
      | literal head tag =>
          simp only
          split <;> rename_i found <;> simp [found]
      | blockString =>
          simp only
          split <;> rename_i found <;> simp [found]
      | _ => rfl

-- Lines with the same items are taken as the same item, and there are the same items behind it.
theorem take?_of_items {name : Text} {number other : Nat} {lines copies : List Text} {taken : Taken}
    (found : take? name number lines = some taken)
    (same : items name other copies = items name number lines) :
    ∃ last rest, take? name other copies = some ⟨taken.item, last, rest⟩ ∧
      items name last rest = items name taken.number taken.rest := by
  rw [items_eq_take name other, items_eq_take name number, found] at same
  cases again : take? name other copies with
  | none =>
      rw [again] at same
      exact absurd same (by simp)
  | some copy =>
      rw [again] at same
      obtain ⟨item, onward⟩ := List.cons.inj same
      exact ⟨copy.number, copy.rest, congrArg some (by rw [← item]), onward⟩

section Rest

theorem gather_suffix (name : Text) (number : Nat) (line : Text) (rest : List Text) :
    (gather name number line rest).rest <:+ rest := by
  induction rest generalizing number line with
  | nil => exact List.suffix_rfl
  | cons next rest ih =>
      unfold gather
      split
      · exact (ih _ _).trans (List.suffix_cons next rest)
      · exact List.suffix_rfl

theorem logicalLine_suffix (name : Text) (number : Nat) (first : Text) (rest : List Text) :
    (logicalLine name number first rest).rest <:+ rest := by
  unfold logicalLine
  split
  · exact gather_suffix _ _ _ _
  · exact List.suffix_rfl

theorem close?_eq_some_iff {closes : Text → Bool} {lines content : List Text} {closing : Text}
    {after : List Text} :
    close? closes lines = some (content, closing, after) ↔
      lines = content ++ closing :: after ∧ (∀ line ∈ content, closes line = false) ∧
        closes closing = true := by
  induction lines generalizing content with
  | nil => simp [close?]
  | cons line rest ih =>
      unfold close?
      by_cases last : closes line = true
      · rw [if_pos last]
        constructor
        · intro found
          cases found
          exact ⟨rfl, by simp, last⟩
        · rintro ⟨shape, open_, _⟩
          cases content with
          | nil => cases shape; rfl
          | cons first more =>
              have same := (List.cons.inj shape).1
              rw [same, open_ first List.mem_cons_self] at last
              exact absurd last (by simp)
      · rw [if_neg last]
        constructor
        · intro found
          obtain ⟨⟨inner, tail⟩, next, same⟩ := Option.map_eq_some_iff.mp found
          cases same
          obtain ⟨shape, open_, closed⟩ := ih.mp next
          refine ⟨by rw [shape]; rfl, fun other member => ?_, closed⟩
          rcases List.mem_cons.mp member with rfl | later
          · simpa using last
          · exact open_ other later
        · rintro ⟨shape, open_, closed⟩
          cases content with
          | nil =>
              have same := (List.cons.inj shape).1
              exact absurd (same ▸ closed) last
          | cons first more =>
              obtain ⟨rfl, tail⟩ := List.cons.inj shape
              have found := ih.mpr
                ⟨tail, fun other member => open_ other (List.mem_cons_of_mem _ member), closed⟩
              rw [found]
              rfl

theorem take?_suffix {name : Text} {number : Nat} {lines : List Text} {taken : Taken}
    (found : take? name number lines = some taken) :
    ∃ first rest, lines = first :: rest ∧ taken.rest <:+ rest := by
  cases lines with
  | nil => exact absurd found (by simp [take?])
  | cons first rest =>
      refine ⟨first, rest, rfl, ?_⟩
      have joined := logicalLine_suffix name number first rest
      have closed {closes : Text → Bool} {content after : List Text} {closing : Text}
          (block : close? closes (logicalLine name number first rest).rest =
            some (content, closing, after)) : after <:+ rest := by
        refine List.IsSuffix.trans ⟨content ++ [closing], ?_⟩ joined
        rw [(close?_eq_some_iff.mp block).1]
        simp
      simp only [take?] at found
      split at found
      · exact absurd found (by simp)
      · cases found; exact joined
      · cases found; exact joined
      · cases found; exact joined
      · cases found; exact joined
      · split at found
        · cases found; exact List.nil_suffix
        · next block => cases found; exact closed block
      · split at found
        · cases found; exact List.nil_suffix
        · next block => cases found; exact closed block

/-- The reader never stands where he stood before. -/
theorem take?_shorter {name : Text} {number : Nat} {lines : List Text} {taken : Taken}
    (found : take? name number lines = some taken) : taken.rest.length < lines.length := by
  obtain ⟨first, rest, rfl, suffix⟩ := take?_suffix found
  exact Nat.lt_succ_of_le suffix.length_le

end Rest

/-- A directive is indented by white space. -/
theorem take?_inclusion_blank {name : Text} {number line next : Nat} {lines rest : List Text}
    {directive indent target : Text}
    (taken : take? name number lines = some ⟨.inclusion line directive indent target, next, rest⟩) :
    ∀ c ∈ indent, Text.isBlank c = true := by
  cases lines with
  | nil => exact absurd taken (by simp [take?])
  | cons first rest =>
      simp only [take?] at taken
      have kind := classified (logicalLine name number first rest).line
      split at taken
      case h_5 shape =>
        cases taken
        rw [shape] at kind
        cases kind with
        | inclusion closed includes =>
            rw [inclusion?_indent includes]
            exact fun c member => List.mem_takeWhile_imp member
      case h_6 => split at taken <;> exact absurd taken (by simp)
      case h_7 => split at taken <;> exact absurd taken (by simp)
      all_goals exact absurd taken (by simp)

end Brewery.Script
