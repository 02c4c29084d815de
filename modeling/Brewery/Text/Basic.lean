/-!
A text is the list of its characters. Every rule about lines, names and formats is a
rule about runs of characters, so lists carry the whole library and the strings of the
outside world are read and written at its edge.
-/

namespace Brewery

abbrev Text := List Char

namespace Text

def ofString (source : String) : Text := source.toList

def toString (text : Text) : String := String.ofList text

/-- The text after a marker it begins with. -/
def dropPrefix? : (marker text : Text) → Option Text
  | [], text => some text
  | _ :: _, [] => none
  | wanted :: marker, found :: text =>
      if wanted = found then dropPrefix? marker text else none

/-- The text before a marker it ends with. -/
def dropSuffix? (marker text : Text) : Option Text :=
  (dropPrefix? marker.reverse text.reverse).map List.reverse

/-- Each occurrence of a pattern, met from the left and never overlapping, becomes the
replacement. The empty pattern is never searched for. -/
def replace (pattern replacement : Text) : Text → Text
  | [] => []
  | first :: rest =>
      if pattern.isPrefixOf (first :: rest) then
        replacement ++ replace pattern replacement (rest.drop (pattern.length - 1))
      else first :: replace pattern replacement rest
termination_by text => text.length
decreasing_by
  · simp only [List.length_cons, List.length_drop]; omega
  · simp only [List.length_cons]; omega

def contains (pattern : Text) : Text → Bool
  | [] => pattern.isEmpty
  | first :: rest => pattern.isPrefixOf (first :: rest) || contains pattern rest

/-- How often a pattern occurs when occurrences are met from the left without overlap. -/
def occurrences (pattern : Text) : Text → Nat
  | [] => 0
  | first :: rest =>
      if pattern.isPrefixOf (first :: rest) then
        occurrences pattern (rest.drop (pattern.length - 1)) + 1
      else occurrences pattern rest
termination_by text => text.length
decreasing_by
  · simp only [List.length_cons, List.length_drop]; omega
  · simp only [List.length_cons]; omega

/-- The parts between separators; a text without separators is its only part. -/
def splitAt (separator : Char) : Text → List Text
  | [] => [[]]
  | first :: rest =>
      if first = separator then [] :: splitAt separator rest
      else match splitAt separator rest with
        | [] => [[first]]
        | part :: parts => (first :: part) :: parts

def joinWith (separator : Text) : List Text → Text
  | [] => []
  | [part] => part
  | part :: next :: parts => part ++ separator ++ joinWith separator (next :: parts)

/-- Texts in the order of their code points, which is also that of their UTF-8 bytes. -/
def le : Text → Text → Bool
  | [], _ => true
  | _ :: _, [] => false
  | left :: leftRest, right :: rightRest =>
      left.toNat < right.toNat || (left.toNat == right.toNat && le leftRest rightRest)

def ofNat (number : Nat) : Text := (Nat.toDigits 10 number)

def ofInt (number : Int) : Text :=
  if number < 0 then '-' :: ofNat number.natAbs else ofNat number.natAbs

theorem splitAt_ne_nil (separator : Char) (text : Text) : splitAt separator text ≠ [] := by
  cases text with
  | nil => simp [splitAt]
  | cons first rest =>
      simp only [splitAt]
      split
      · simp
      · split <;> simp

-- A text is its parts with the separators put back.
theorem joinWith_splitAt (separator : Char) (text : Text) :
    joinWith [separator] (splitAt separator text) = text := by
  induction text with
  | nil => rfl
  | cons first rest ih =>
      simp only [splitAt]
      split
      next same =>
        cases parts : splitAt separator rest with
        | nil => exact absurd parts (splitAt_ne_nil separator rest)
        | cons part more =>
            rw [parts] at ih
            simp [joinWith, ih, same]
      next different =>
        cases parts : splitAt separator rest with
        | nil => exact absurd parts (splitAt_ne_nil separator rest)
        | cons part more =>
            rw [parts] at ih
            cases more with
            | nil => simpa [joinWith] using ih
            | cons next more => simpa [joinWith] using ih

theorem dropPrefix?_eq_some_iff (marker text rest : Text) :
    dropPrefix? marker text = some rest ↔ text = marker ++ rest := by
  induction marker generalizing text with
  | nil => simp [dropPrefix?, eq_comm]
  | cons wanted marker ih =>
      cases text with
      | nil => simp [dropPrefix?]
      | cons found text =>
          by_cases same : wanted = found
          · simp [dropPrefix?, same, ih]
          · simp [dropPrefix?, same, Ne.symm same]

end Text
end Brewery
