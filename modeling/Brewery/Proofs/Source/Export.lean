import Brewery.Session.Chain
import Brewery.Proofs.Text.Identifier

/-!
What the module of a data literal binds. The exported name is made of the stem, and whether a
module can bind it is seen from the stem alone: other characters than letters and numerals are
replaced, and a digit in front is covered, but a word stays a word and a letter stays a letter.
-/

namespace Brewery

open Text

/-- The name that a module declares in its front. -/
def Text.declared? (module : Text) : Option Text :=
  (dropPrefix? "export const ".toList module).map fun rest => rest.takeWhile (· ≠ ' ')

/-- A character of a stem as it stands in the exported name. -/
def exportedChar (c : Char) : Char :=
  if isAlphanumeric c || c = '_' || c = '$' then c else '_'

variable {source : Path} {stem word name module text : Text} {c : Char}

theorem exportedChar_named (c : Char) :
    isAlphanumeric (exportedChar c) = true ∨ exportedChar c = '_' ∨ exportedChar c = '$' := by
  unfold exportedChar
  split
  · next named => simpa [or_assoc] using named
  · exact Or.inr (Or.inl rfl)

theorem exportedChar_kept (kept : exportedChar c ≠ '_') : exportedChar c = c := by
  unfold exportedChar at kept ⊢
  split
  · rfl
  · next replaced => exact absurd (if_neg replaced) kept

theorem exportedChar_alphanumeric (alphanumeric : isAlphanumeric c = true) :
    exportedChar c = c := by
  simp [exportedChar, alphanumeric]

theorem exportedChar_mark (plain : ¬isAlphanumeric c = true) :
    exportedChar c = '_' ∨ exportedChar c = '$' :=
  (exportedChar_named c).resolve_left fun alphanumeric => by
    by_cases kept : exportedChar c = '_'
    · rw [kept] at alphanumeric
      exact absurd alphanumeric (by decide)
    · rw [exportedChar_kept kept] at alphanumeric
      exact plain alphanumeric

theorem exportedChar_isDigit (c : Char) : (exportedChar c).isDigit = c.isDigit := by
  by_cases alphanumeric : isAlphanumeric c = true
  · rw [exportedChar_alphanumeric alphanumeric]
  · have plain : c.isDigit = false := by
      rw [← Bool.not_eq_true]
      exact fun digit => alphanumeric (isAlphanumeric_of_isDigit digit)
    rcases exportedChar_mark alphanumeric with mark | mark <;> rw [mark, plain] <;> decide

theorem exportedChar_continues (c : Char) :
    (isContinue (exportedChar c) = true ∨ exportedChar c = '$') ↔ isForeign c = false := by
  by_cases alphanumeric : isAlphanumeric c = true
  · have plain : c ≠ '$' := by
      rintro rfl
      exact absurd alphanumeric (by decide)
    rw [exportedChar_alphanumeric alphanumeric, isContinue_iff alphanumeric]
    simp [plain]
  · simp only [isForeign_of_not_isAlphanumeric alphanumeric, iff_true]
    rcases exportedChar_mark alphanumeric with mark | mark
    · left
      rw [mark]
      decide +kernel
    · exact Or.inr mark

theorem exportedChar_starts (c : Char) :
    (isStart (exportedChar c) = true ∨ exportedChar c = '_' ∨ exportedChar c = '$') ↔
      (isAlphanumeric c = true → isStart c = true) := by
  by_cases alphanumeric : isAlphanumeric c = true
  · have plain : c ≠ '_' ∧ c ≠ '$' := by
      constructor <;> rintro rfl <;> exact absurd alphanumeric (by decide)
    rw [exportedChar_alphanumeric alphanumeric]
    simp [plain, alphanumeric]
  · exact iff_of_true (Or.inr (exportedChar_mark alphanumeric)) fun letter => absurd letter alphanumeric

/-- The stem that a source is exported under. -/
def Path.exportStem (source : Path) : Text := exposedStem (source.stem?.getD [])

theorem Path.exportName_eq (source : Path) :
    source.exportName = match source.exportStem.map exportedChar with
      | [] => ['_']
      | first :: rest => if first.isDigit then '_' :: first :: rest else first :: rest := by
  have spelled : source.exportName = match source.exportStem.map exportedChar with
      | [] => ['_']
      | first :: _ => if first.isDigit then '_' :: source.exportStem.map exportedChar
          else source.exportStem.map exportedChar := rfl
  rw [spelled]
  cases source.exportStem.map exportedChar <;> rfl

/-- How a name is made of a stem. -/
inductive Exports : (stem name : Text) → Prop where
  | blank : Exports [] ['_']
  | covered {first : Char} {rest : Text} (digit : first.isDigit = true) :
      Exports (first :: rest) ('_' :: (first :: rest).map exportedChar)
  | bare {first : Char} {rest : Text} (plain : first.isDigit = false) :
      Exports (first :: rest) ((first :: rest).map exportedChar)

theorem Path.exports (source : Path) : Exports source.exportStem source.exportName := by
  rw [Path.exportName_eq]
  cases source.exportStem with
  | nil => exact .blank
  | cons first rest =>
      simp only [List.map_cons, exportedChar_isDigit]
      split
      · next digit => exact .covered digit
      · next plain => exact .bare (by simpa using plain)

namespace Exports

theorem ne_nil (exports : Exports stem name) : name ≠ [] := by
  cases exports <;> simp

theorem named (exports : Exports stem name) :
    ∀ c ∈ name, isAlphanumeric c = true ∨ c = '_' ∨ c = '$' := by
  have mapped (stem : Text) : ∀ c ∈ stem.map exportedChar,
      isAlphanumeric c = true ∨ c = '_' ∨ c = '$' := by
    intro c member
    obtain ⟨origin, _, rfl⟩ := List.mem_map.mp member
    exact exportedChar_named origin
  cases exports with
  | blank => simp
  | covered digit =>
      intro c member
      rcases List.mem_cons.mp member with rfl | later
      · exact Or.inr (Or.inl rfl)
      · exact mapped _ c later
  | bare plain => exact mapped _

theorem words_lower : (reservedWords.all fun word => word.all fun c =>
    97 ≤ c.toNat && c.toNat ≤ 122) = true := by
  decide +kernel

theorem word_plain (listed : word ∈ reservedWords) (member : c ∈ word) :
    isAlphanumeric c = true ∧ c ≠ '_' ∧ c.isDigit = false := by
  have lower := List.all_eq_true.mp (List.all_eq_true.mp words_lower word listed) c member
  simp only [Bool.and_eq_true, decide_eq_true_eq] at lower
  refine ⟨isAlphanumeric_of_isAlpha (isAlpha_iff.mpr (Or.inr lower)), ?_, ?_⟩
  · rintro rfl
    exact absurd lower (by decide)
  · rw [← Bool.not_eq_true, isDigit_iff]
    omega

/-- Nothing turns into a reserved word, and no reserved word turns into something else. -/
theorem reserved (exports : Exports stem name) : name ∈ reservedWords ↔ stem ∈ reservedWords := by
  cases exports with
  | blank => decide +kernel
  | covered digit =>
      constructor <;> intro listed
      · exact absurd rfl (word_plain listed List.mem_cons_self).2.1
      · have plain := (word_plain listed List.mem_cons_self).2.2
        exact absurd (digit.symm.trans plain) (by decide)
  | @bare first rest plain =>
      have kept (same : ∀ c ∈ first :: rest, exportedChar c = c) :
          (first :: rest).map exportedChar = first :: rest :=
        (List.map_congr_left same).trans (List.map_id _)
      constructor <;> intro listed
      · rw [kept] at listed
        · exact listed
        · intro c member
          exact exportedChar_kept (word_plain listed (List.mem_map_of_mem member)).2.1
      · rw [kept]
        · exact listed
        · intro c member
          exact exportedChar_alphanumeric (word_plain listed member).1

theorem continues (stem : Text) :
    (∀ c ∈ stem.map exportedChar, isContinue c = true ∨ c = '$') ↔
      ∀ c ∈ stem, isForeign c = false := by
  simp only [List.mem_map, forall_exists_index, and_imp, forall_apply_eq_imp_iff₂,
    exportedChar_continues]

/-- A name is spelled as an identifier if no character of its stem is foreign, and the first of
them begins one or is a digit. -/
theorem spelled (exports : Exports stem name) : IsSpelled name ↔
    (∀ c ∈ stem, isForeign c = false) ∧ ∀ first ∈ stem.head?,
      isAlphanumeric first = true → isStart first = true ∨ first.isDigit = true := by
  cases exports with
  | blank => simp [IsSpelled]
  | @covered first rest digit =>
      rw [IsSpelled, continues]
      simp [digit]
  | @bare first rest plain =>
      rw [List.map_cons, IsSpelled, continues, exportedChar_starts]
      simp only [List.mem_cons, forall_eq_or_imp, List.head?_cons, Option.mem_some_iff, forall_eq',
        plain, Bool.false_eq_true, or_false]
      constructor
      · rintro ⟨starts, home⟩
        refine ⟨⟨?_, home⟩, starts⟩
        by_cases alphanumeric : isAlphanumeric first = true
        · exact (isContinue_iff alphanumeric).mp (isContinue_of_isStart (starts alphanumeric))
        · exact isForeign_of_not_isAlphanumeric alphanumeric
      · rintro ⟨⟨_, home⟩, starts⟩
        exact ⟨starts, home⟩

end Exports

/-- A module declares the name that it is made with. -/
theorem Json5.exported?_declared (plain : ' ' ∉ name)
    (written : Json5.exported? text name = some module) : declared? module = some name := by
  obtain ⟨value, _, rfl⟩ := Option.map_eq_some_iff.mp written
  have front : dropPrefix? "export const ".toList ("export const ".toList ++ name ++ " = ".toList ++
      value.render 0 ++ ";\n".toList) =
      some (name ++ ' ' :: ("= ".toList ++ value.render 0 ++ ";\n".toList)) := by
    rw [dropPrefix?_eq_some_iff]
    simp
  rw [declared?, front, Option.map_some, List.takeWhile_append_of_pos, List.takeWhile_cons_of_neg,
    List.append_nil]
  · simp
  · intro c member
    exact decide_eq_true fun blank => plain (blank ▸ member)

/-- What the module of a data literal declares, and when that is a name that it can bind. -/
theorem export_binds (source : Path) :
    (source.exportName ≠ [] ∧
        ∀ c ∈ source.exportName, isAlphanumeric c = true ∨ c = '_' ∨ c = '$') ∧
      (IsBinding source.exportName ↔
        source.exportStem ∉ reservedWords ∧ (∀ c ∈ source.exportStem, isForeign c = false) ∧
          ∀ first ∈ source.exportStem.head?,
            isAlphanumeric first = true → isStart first = true ∨ first.isDigit = true) ∧
      ∀ (brewer : Brewer) disk text log module,
        brewer.transform disk .wrapData text source = (log, .ok module) →
          declared? module = some source.exportName := by
  have exports := source.exports
  refine ⟨⟨exports.ne_nil, exports.named⟩, ?_, ?_⟩
  · rw [← exports.spelled, ← exports.reserved]
    exact ⟨fun binding => ⟨binding.free, binding.spelled⟩, fun ⟨free, spelled⟩ => ⟨spelled, free⟩⟩
  · intro brewer disk text log module made
    have solid : ' ' ∉ source.exportName := by
      intro blank
      rcases exports.named ' ' blank with letter | mark
      · exact absurd letter (by decide)
      · exact absurd mark (by decide)
    simp only [Brewer.transform] at made
    split at made
    · next written =>
        obtain ⟨_, rfl⟩ : _ ∧ _ = module := by simpa using made
        exact Json5.exported?_declared solid written
    · simp at made

-- The module of `class.json5` declares a constant that no module can bind.
example : ¬IsBinding (Path.ofString "stores/class.json5").exportName :=
  fun binding => binding.free (by decide +kernel)

end Brewery
