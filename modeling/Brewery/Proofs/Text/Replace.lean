import Brewery.Text.Basic

/-!
Replacing. `Replaced` is the relation of which `replace` is the function, one clause for a place
where the pattern stands and one for a place where it does not, so what a replacement keeps or
brings is proved by induction on it.
-/

namespace Brewery.Text

variable {pattern replacement text result : Text} {c : Char}

inductive Replaced (pattern replacement : Text) : Text → Text → Prop where
  | nil : Replaced pattern replacement [] []
  | hit {text result : Text} (onward : Replaced pattern replacement text result) :
      Replaced pattern replacement (pattern ++ text) (replacement ++ result)
  | miss {c : Char} {text result : Text} (apart : ¬pattern <+: c :: text)
      (onward : Replaced pattern replacement text result) :
      Replaced pattern replacement (c :: text) (c :: result)

@[simp] theorem replace_nil : replace pattern replacement [] = [] := by
  rw [replace]

theorem replace_append (some : pattern ≠ []) (text : Text) :
    replace pattern replacement (pattern ++ text) =
      replacement ++ replace pattern replacement text := by
  obtain ⟨first, rest, rfl⟩ := List.exists_cons_of_ne_nil some
  rw [List.cons_append, replace, if_pos (by simp)]
  simp

theorem replace_cons (apart : ¬pattern <+: c :: text) :
    replace pattern replacement (c :: text) = c :: replace pattern replacement text := by
  rw [replace, if_neg (by simpa using apart)]

theorem replace_cons_of_ne {first : Char} {pattern : Text} (other : c ≠ first) :
    replace (first :: pattern) replacement (c :: text) =
      c :: replace (first :: pattern) replacement text := by
  apply replace_cons
  rintro ⟨more, same⟩
  exact other (List.cons.inj same).1.symm

-- Where the pattern stands at the front, a search goes on behind it.
theorem drop_found (some : pattern ≠ []) (found : pattern.isPrefixOf (c :: text) = true) :
    ∃ more, pattern ++ more = c :: text ∧ text.drop (pattern.length - 1) = more := by
  obtain ⟨more, shape⟩ := List.isPrefixOf_iff_prefix.mp found
  obtain ⟨head, tail, rfl⟩ := List.exists_cons_of_ne_nil some
  refine ⟨more, shape, ?_⟩
  rw [← (List.cons.inj shape).2]
  simp

theorem replaced (some : pattern ≠ []) (text : Text) :
    Replaced pattern replacement text (replace pattern replacement text) := by
  induction text using replace.induct pattern with
  | case1 => rw [replace_nil]; exact .nil
  | case2 first rest hit ih =>
      obtain ⟨more, shape, further⟩ := drop_found some hit
      rw [further] at ih
      rw [← shape, replace_append some]
      exact .hit ih
  | case3 first rest miss ih =>
      have apart : ¬pattern <+: first :: rest := by simpa using miss
      rw [replace_cons apart]
      exact .miss apart ih

-- A character that no replacement begins with was there before, in front of the same text.
theorem replace_eq_cons {rest : Text} (some : pattern ≠ []) (written : replacement ≠ [])
    (apart : replacement.head? ≠ .some c) (shape : replace pattern replacement text = c :: rest) :
    ∃ more, text = c :: more ∧ rest = replace pattern replacement more := by
  cases text with
  | nil => rw [replace_nil] at shape; exact absurd shape (by simp)
  | cons first more =>
      by_cases hit : pattern <+: first :: more
      · obtain ⟨after, same⟩ := hit
        obtain ⟨head, tail, rfl⟩ := List.exists_cons_of_ne_nil written
        rw [← same, replace_append some] at shape
        exact absurd (congrArg List.head? shape) apart
      · rw [replace_cons hit] at shape
        obtain ⟨rfl, rfl⟩ := List.cons.inj shape
        exact ⟨more, rfl, rfl⟩

theorem replace_of_not_infix (absent : ¬pattern <:+: text) :
    replace pattern replacement text = text := by
  induction text with
  | nil => exact replace_nil
  | cons c rest ih =>
      have apart : ¬pattern <+: c :: rest := fun here => absent here.isInfix
      have further : ¬pattern <:+: rest := fun later => absent (later.trans (List.suffix_cons c rest).isInfix)
      rw [replace_cons apart, ih further]

-- Text in which the pattern begins nowhere, whatever follows, is passed over.
theorem replace_pass {front : Text}
    (apart : ∀ tail, tail <:+ front → tail ≠ [] → ∀ rest, ¬pattern <+: tail ++ rest) (text : Text) :
    replace pattern replacement (front ++ text) = front ++ replace pattern replacement text := by
  induction front with
  | nil => rfl
  | cons c more ih =>
      have here : ¬pattern <+: c :: (more ++ text) :=
        apart (c :: more) List.suffix_rfl (List.cons_ne_nil c more) text
      rw [List.cons_append, replace_cons here,
        ih fun tail suffix => apart tail (suffix.trans (List.suffix_cons c more)), List.cons_append]

theorem replace_of_head_not_mem {front : Text} (apart : ∀ c ∈ front, pattern.head? ≠ some c)
    (found : pattern ≠ []) (text : Text) :
    replace pattern replacement (front ++ text) = front ++ replace pattern replacement text := by
  apply replace_pass
  intro tail suffix more rest here
  obtain ⟨first, onward, rfl⟩ := List.exists_cons_of_ne_nil found
  obtain ⟨c, others, rfl⟩ := List.exists_cons_of_ne_nil more
  cases (List.cons_prefix_cons.mp here).1
  exact apart first (suffix.subset List.mem_cons_self) rfl

-- Where no end of the pattern stands at the seam, the texts on its sides are replaced in by
-- themselves.
theorem replace_seam {back : Text} (some : pattern ≠ [])
    (apart : ∀ tail, tail <:+ pattern → tail ≠ pattern → tail ≠ [] → ¬tail <+: back)
    (front : Text) : replace pattern replacement (front ++ back) =
      replace pattern replacement front ++ replace pattern replacement back := by
  have replaced : Replaced pattern replacement front _ := replaced some front
  generalize replace pattern replacement front = result at replaced ⊢
  induction replaced with
  | nil => rfl
  | hit _ ih => rw [List.append_assoc, replace_append some, ih, List.append_assoc]
  | @miss c text result miss _ ih =>
      have still : ¬pattern <+: c :: (text ++ back) := by
        intro here
        rcases List.prefix_or_prefix_of_prefix here (List.prefix_append (c :: text) back) with
          short | ⟨tail, rfl⟩
        · exact miss short
        · have begins : tail <+: back := (List.prefix_append_right_inj (c :: text)).mp here
          refine apart tail (List.suffix_append _ _) ?_ ?_ begins
          · intro same
            have size := congrArg List.length same
            rw [List.length_append, List.length_cons] at size
            omega
          · rintro rfl
            exact miss (by simp)
      rw [List.cons_append, replace_cons still, ih, List.cons_append]

-- What is replaced somewhere leaves its replacement there.
theorem infix_replace (some : pattern ≠ []) (inside : pattern <:+: text) :
    replacement <:+: replace pattern replacement text := by
  have replaced : Replaced pattern replacement text _ := replaced some text
  generalize replace pattern replacement text = result at replaced ⊢
  induction replaced with
  | nil => exact absurd (List.infix_nil.mp inside) some
  | hit _ _ => exact (List.prefix_append _ _).isInfix
  | @miss c text result apart _ ih =>
      have later := (List.infix_cons_iff.mp inside).resolve_left apart
      exact (ih later).trans (List.suffix_cons c result).isInfix

theorem contains_iff_infix : contains pattern text = true ↔ pattern <:+: text := by
  induction text with
  | nil => simp [contains]
  | cons c rest ih => rw [contains, Bool.or_eq_true, ih, List.infix_cons_iff]; simp

namespace Replaced

theorem mem (replaced : Replaced pattern replacement text result) (inside : c ∈ result) :
    c ∈ text ∨ c ∈ replacement := by
  induction replaced with
  | nil => exact Or.inl inside
  | hit _ ih =>
      rcases List.mem_append.mp inside with new | later
      · exact Or.inr new
      · exact (ih later).imp_left (List.mem_append_right _)
  | miss _ _ ih =>
      rcases List.mem_cons.mp inside with rfl | later
      · exact Or.inl List.mem_cons_self
      · exact (ih later).imp_left (List.mem_cons_of_mem _)

-- A search finds nothing that reaches into a replacement which holds a character of its own, and
-- neither the first nor the last character of what is searched for.
section Search

variable {search : Text} (own : ∃ c ∈ replacement, c ∉ search)
  (ends : ∀ c ∈ replacement, search.getLast? ≠ some c)
include own ends

theorem prefix_of_prefix (replaced : Replaced pattern replacement text result) {tail : Text}
    (suffix : tail <:+ search) (found : tail <+: result) : tail <+: text := by
  induction replaced generalizing tail with
  | nil => exact found
  | hit _ ih =>
      rcases List.prefix_or_prefix_of_prefix found (List.prefix_append _ _) with short | long
      · rcases List.eq_nil_or_concat tail with rfl | ⟨front, last, rfl⟩
        · exact List.nil_prefix
        · obtain ⟨before, rfl⟩ := suffix
          refine absurd ?_ (ends last (short.subset (by simp)))
          simp
      · obtain ⟨c, new, other⟩ := own
        exact absurd (suffix.subset (long.subset new)) other
  | @miss first text result _ _ ih =>
      cases tail with
      | nil => exact List.nil_prefix
      | cons c rest =>
          obtain ⟨rfl, later⟩ := List.cons_prefix_cons.mp found
          exact List.cons_prefix_cons.mpr ⟨rfl, ih ((List.suffix_cons c rest).trans suffix) later⟩

theorem not_found (replaced : Replaced pattern replacement text result)
    (begins : ∀ c ∈ replacement, search.head? ≠ some c) (some : search ≠ [])
    (gone : search = pattern ∨ ¬search <:+: text) : ¬search <:+: result := by
  induction replaced with
  | nil => exact fun found => some (List.infix_nil.mp found)
  | @hit text result _ ih =>
      have onward := ih (gone.imp_right fun absent later =>
        absent (later.trans (List.suffix_append pattern text).isInfix))
      obtain ⟨first, rest, rfl⟩ := List.exists_cons_of_ne_nil some
      intro found
      rcases List.infix_append_iff.mp found with inside | later | ⟨front, back, whole, new, old⟩
      · exact begins first (inside.subset List.mem_cons_self) rfl
      · exact onward later
      · cases front with
        | nil => exact onward (whole ▸ old.isInfix)
        | cons c more =>
            cases (List.cons.inj whole).1
            exact begins first (new.subset List.mem_cons_self) rfl
  | @miss c text result apart onward ih =>
      intro found
      rcases List.infix_cons_iff.mp found with here | later
      · have before := prefix_of_prefix own ends (.miss apart onward) List.suffix_rfl here
        rcases gone with rfl | absent
        · exact apart before
        · exact absent before.isInfix
      · exact ih (gone.imp_right fun absent later =>
          absent (later.trans (List.suffix_cons c text).isInfix)) later

end Search

end Replaced

end Brewery.Text
