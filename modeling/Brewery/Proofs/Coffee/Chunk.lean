import Brewery.Proofs.Coffee.Scope
import Mathlib.Data.List.Basic

/-!
The names of a text that nothing is left open in. Such a text may stand on the lines above any other:
what the two say of names is what the one says and then what the other says, so a scan of them binds
what either binds and uses what the first uses, and then what is new in the second.
-/

namespace Brewery.Coffee

/-- What a text by itself says of names. -/
def names (text : Text) : List Occurrence := occurrences none true (tokens text)

variable {text rest : Text} {name : Text}

theorem mem_declared : name ∈ (scan text).declared ↔ .declared name ∈ names text := by
  simp only [scan, names, Bindings.ofOccurrences, List.mem_eraseDups, List.mem_filterMap]
  constructor
  · rintro ⟨occurrence, member, same⟩
    cases occurrence with
    | used other => exact absurd same (by simp)
    | declared other => exact Option.some.inj same ▸ member
  · exact fun member => ⟨_, member, rfl⟩

theorem mem_used : name ∈ (scan text).used ↔ .used name ∈ names text := by
  simp only [scan, names, Bindings.ofOccurrences, List.mem_eraseDups, List.mem_filterMap]
  constructor
  · rintro ⟨occurrence, member, same⟩
    cases occurrence with
    | used other => exact Option.some.inj same ▸ member
    | declared other => exact absurd same (by simp)
  · exact fun member => ⟨_, member, rfl⟩

theorem mem_free : name ∈ (scan text).free ↔
    .used name ∈ names text ∧ .declared name ∉ names text := by
  rw [Bindings.free, List.mem_filter, mem_used, ← mem_declared]
  simp

theorem names_newline (text : Text) : names ('\n' :: text) = names text := by
  rw [names, tokens, lex_newline, occurrences_break (by decide), occurrences_newline]
  rfl

/-- A text that leaves nothing open, neither a string nor a bracket. -/
structure Closed (text : Text) : Prop where
  closed : framesAfter [] text = []
  nested : nested [] (tokens text) = true

theorem Closed.names_line (closed : Closed text) (rest : Text) :
    names (text ++ '\n' :: rest) = names text ++ names rest := by
  rw [names, tokens, lex_line Quotable.nil closed.closed]
  exact occurrences_line closed.nested none true (lex [] rest)

theorem names_lines {lines : List Text} (closed : ∀ line ∈ lines, Closed line) (some : lines ≠ [])
    (rest : Text) :
    names (Text.joinWith ['\n'] lines ++ '\n' :: rest) = lines.flatMap names ++ names rest := by
  induction lines with
  | nil => exact absurd rfl some
  | cons line lines ih =>
      have first := closed line List.mem_cons_self
      cases lines with
      | nil => simp [Text.joinWith, first.names_line]
      | cons next lines =>
          have further := ih (fun other member => closed other (List.mem_cons_of_mem _ member))
            (by simp)
          simp only [Text.joinWith, List.append_assoc, List.cons_append, List.nil_append]
          rw [first.names_line, further]
          simp only [List.flatMap_cons, List.append_assoc]

section Chunks

variable {above below : Text}

-- Below a text that leaves nothing open, frames are as if the lines there were all.
theorem framesAfter_line {frames : List Frame} (quotable : Quotable frames)
    (closed : framesAfter frames text = []) (rest : Text) :
    framesAfter frames (text ++ '\n' :: rest) = framesAfter [] rest := by
  induction frames, text using lex.induct with
  | case1 frames =>
      rw [framesAfter] at closed
      subst closed
      rw [List.nil_append, framesAfter]
      simp [step, codeStep]
  | case2 frames c text shorter ih =>
      have within := not_reaches closed
      rw [framesAfter] at closed
      rw [List.cons_append, framesAfter, step_line quotable within]
      exact ih (step_quotable quotable c text) closed

/-- Behind tokens that close all that is awaited, brackets are nested as if they began there. -/
theorem nested_append {awaited : List Char} {left : List Token} (within : nested awaited left = true)
    (right : List Token) : nested awaited (left ++ right) = nested [] right := by
  induction left generalizing awaited with
  | nil =>
      obtain rfl : awaited = [] := by simpa [nested] using within
      rfl
  | cons token rest ih =>
      cases nested_cases within with
      | opening bracket closer inner =>
          simp only [List.cons_append, nested, closer]
          exact ih inner
      | closing outer bracket shape same closer further =>
          subst shape same
          have open_ : closer? (.sign bracket) = none := by
            rw [Option.eq_none_iff_forall_ne_some]
            intro other opening
            have opens := opens_not_closes (opens_iff.mpr ⟨other, opening⟩)
            exact absurd (closer.symm.trans opens) (by simp)
          simp only [List.cons_append, nested, open_, closer, decide_true, Bool.true_and, if_true]
          exact ih further
      | plain open_ close further =>
          simp only [List.cons_append, nested, open_, close]
          exact ih further

/-- Lines below a closed text are closed by themselves or not at all. -/
theorem Closed.line_iff (closed : Closed above) :
    Closed (above ++ '\n' :: below) ↔ Closed below := by
  have frames := framesAfter_line Quotable.nil closed.closed below
  have tokens : Coffee.nested [] (tokens (above ++ '\n' :: below)) =
      Coffee.nested [] (tokens below) := by
    rw [Coffee.tokens, lex_line Quotable.nil closed.closed]
    exact nested_append closed.nested _
  constructor
  · rintro ⟨ends, nests⟩
    exact ⟨frames.symm.trans ends, tokens.symm.trans nests⟩
  · rintro ⟨ends, nests⟩
    exact ⟨frames.trans ends, tokens.trans nests⟩

theorem eraseDups_filter {α : Type} [BEq α] [LawfulBEq α] (p : α → Bool) (values : List α) :
    (values.filter p).eraseDups = values.eraseDups.filter p := by
  induction size : values.length using Nat.strongRecOn generalizing values with
  | _ length ih =>
      subst size
      cases values with
      | nil => rfl
      | cons value rest =>
          have fewer : (rest.filter fun other => !other == value).length < (value :: rest).length :=
            Nat.lt_succ_of_le (List.length_filter_le _ _)
          have further := ih _ fewer _ rfl
          rw [List.eraseDups_cons]
          by_cases kept : p value = true
          · rw [List.filter_cons_of_pos kept, List.filter_cons_of_pos kept, List.eraseDups_cons,
              ← further, List.filter_comm]
          · rw [List.filter_cons_of_neg kept, List.filter_cons_of_neg kept, ← further, List.filter_comm]
            -- What is kept is never the value that is not.
            congr 1
            refine (List.filter_eq_self.mpr fun other member => ?_).symm
            have differs : other ≠ value := by
              rintro rfl
              exact kept (List.mem_filter.mp member).2
            simpa using differs

/-- Of two lists one after the other, the second adds what is not in the first. -/
theorem eraseDups_joined {α : Type} [BEq α] [LawfulBEq α] (left right : List α) :
    (left ++ right).eraseDups =
      left.eraseDups ++ right.eraseDups.filter fun value => !left.eraseDups.elem value := by
  have same (value : α) : left.eraseDups.elem value = left.elem value := by
    rw [Bool.eq_iff_iff, List.elem_iff, List.elem_iff, List.mem_eraseDups]
  simp only [List.eraseDups_append, List.removeAll, eraseDups_filter, same]

/-- A scan of a closed text and of lines below it binds what either of them binds, and uses what the
first uses and then what only the second uses. The two are closed together if the second is. -/
theorem scan_line (closed : Closed above) (below : Text) :
    (∀ name, name ∈ (scan (above ++ '\n' :: below)).declared ↔
      name ∈ (scan above).declared ∨ name ∈ (scan below).declared) ∧
    (scan (above ++ '\n' :: below)).used = (scan above).used ++
      (scan below).used.filter (fun name => !(scan above).used.elem name) ∧
    (Closed (above ++ '\n' :: below) ↔ Closed below) := by
  refine ⟨fun name => ?_, ?_, closed.line_iff⟩
  · rw [mem_declared, mem_declared, mem_declared, closed.names_line, List.mem_append]
  · change (Bindings.ofOccurrences (names _)).used = _
    rw [closed.names_line]
    simp only [Bindings.ofOccurrences, List.filterMap_append, eraseDups_joined]
    rfl

/-- An import, an interpolation and a group, all closed. -/
def groupedText : Text := "import \x7ba as b\x7d from 'm'\ng = \"#\x7bsay b\x7d\" + (k)".toList

/-- An arrow on the next line makes no parameters of the group. -/
theorem grouped_scanned :
    (scan (groupedText ++ '\n' :: "-> k\nb = c".toList)).used =
        ["g", "say", "b", "k", "c"].map String.toList ∧
      "k".toList ∉ (scan (groupedText ++ '\n' :: "-> k\nb = c".toList)).declared := by
  have closed : Closed groupedText := ⟨by decide +kernel, by decide +kernel⟩
  obtain ⟨declared, used, _⟩ := scan_line closed "-> k\nb = c".toList
  have first : (scan groupedText).used = ["g", "say", "b", "k"].map String.toList := by decide +kernel
  have second : (scan "-> k\nb = c".toList).used = ["k", "b", "c"].map String.toList := by
    decide +kernel
  constructor
  · rw [used, first, second]
    decide +kernel
  · rw [declared]
    decide +kernel

end Chunks

end Brewery.Coffee
