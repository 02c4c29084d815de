import Brewery.Import.Prelude
import Brewery.Proofs.Coffee.Chunk
import Mathlib.Data.List.Basic

/-!
The prelude closes a text. Each statement of the table binds the symbol it is there for and uses
nothing that it does not bind; a prelude of such statements stands on lines of its own, so the
names of the whole are those of its statements and of the text, and nothing is needed any more.
The text itself may be anything: a string or a comment that it leaves open begins after the
prelude.
-/

namespace Brewery

namespace Coffee

theorem names_return (text : Text) : names ('\r' :: text) = names text := by
  rw [names, tokens, lex]
  simp [step, codeStep, Text.isBlank, names, tokens]

theorem names_trimmed (text : Text) :
    names (text.dropWhile fun c => c = '\n' || c = '\r') = names text := by
  induction text with
  | nil => rfl
  | cons first text ih =>
      rw [List.dropWhile_cons]
      split
      · next ends =>
          rcases Bool.or_eq_true_iff.mp ends with newline | back
          · cases of_decide_eq_true newline
            rw [names_newline, ih]
          · cases of_decide_eq_true back
            rw [names_return, ih]
      · rfl

end Coffee

-- Values without repetition, in the order in which they are first met.
theorem firsts_ordered {α β : Type} [BEq β] [LawfulBEq β] [DecidableEq β] (keys : List α)
    (value? : α → Option β) :
    ((keys.filterMap value?).eraseDups).Pairwise fun first second =>
      (keys.findIdx fun key => value? key = some first) <
        keys.findIdx fun key => value? key = some second := by
  induction keys generalizing value? with
  | nil => simp
  | cons key keys ih =>
      cases found : value? key with
      | none =>
          rw [List.filterMap_cons_none found]
          refine (ih value?).imp fun earlier => ?_
          simpa [List.findIdx_cons, found] using earlier
      | some value =>
          rw [List.filterMap_cons_some found, List.eraseDups_cons, List.pairwise_cons]
          constructor
          · intro other member
            have different : other ≠ value := by
              have kept := List.mem_eraseDups.mp member
              simpa using (List.mem_filter.mp kept).2
            simp [List.findIdx_cons, found, different.symm]
          · -- The keys that give this value again count no more, so they may as well give none.
            rw [List.filter_filterMap]
            refine (ih fun key => (value? key).filter fun other => !other == value).imp_of_mem ?_
            intro first second here there earlier
            have elsewhere {other : β} (member : other ∈ (keys.filterMap fun key =>
                (value? key).filter fun other => !other == value).eraseDups) :
                ((key :: keys).findIdx fun key => value? key = some other) =
                  (keys.findIdx fun key => (value? key).filter (fun other => !other == value) =
                    some other) + 1 := by
              obtain ⟨_, _, kept⟩ := List.mem_filterMap.mp (List.mem_eraseDups.mp member)
              have different : other ≠ value := by
                simpa using (Option.filter_eq_some_iff.mp kept).2
              have same (key : α) : value? key = some other ↔
                  (value? key).filter (fun other => !other == value) = some other := by
                rw [Option.filter_eq_some_iff]
                simp [different]
              have first : decide (value? key = some other) = false := by
                simp [found, different.symm]
              rw [List.findIdx_cons, first, cond_false]
              simp only [same]
            rw [elsewhere here, elsewhere there]
            exact Nat.succ_lt_succ earlier

namespace SymbolTable

/-- A statement that stands alone on a line for the sake of a name: it is closed, binds the name,
and needs nothing. -/
structure Importable (name statement : Text) : Prop extends Coffee.Closed statement where
  declares : name ∈ (Coffee.scan statement).declared
  free : (Coffee.scan statement).free = []

variable {table : SymbolTable} {text name statement : Text}

theorem get?_mem (found : table.get? name = some statement) :
    (name, statement) ∈ table.entries := by
  obtain ⟨entry, hit, rfl⟩ := Option.map_eq_some_iff.mp found
  have named : entry.1 = name := by simpa using List.find?_some hit
  exact named ▸ List.mem_of_find?_eq_some hit

theorem get?_of_mem {entry : Text × Text} (member : entry ∈ table.entries) :
    ∃ statement, table.get? entry.1 = some statement := by
  rw [get?]
  cases found : table.entries.find? fun other => other.1 = entry.1 with
  | some hit => exact ⟨hit.2, rfl⟩
  | none => exact absurd (List.find?_eq_none.mp found entry member) (by simp)

theorem mem_needed : name ∈ table.needed text ↔
    (∃ statement, table.get? name = some statement) ∧ name ∈ (Coffee.scan text).free := by
  rw [needed, List.mem_filter, List.mem_map, List.elem_eq_mem, decide_eq_true_iff]
  constructor
  · rintro ⟨⟨entry, member, rfl⟩, free⟩
    exact ⟨get?_of_mem member, free⟩
  · rintro ⟨⟨statement, found⟩, free⟩
    exact ⟨⟨_, get?_mem found, rfl⟩, free⟩

theorem mem_statements : statement ∈ table.statements text ↔
    ∃ name ∈ table.needed text, table.get? name = some statement := by
  rw [statements, List.mem_eraseDups, List.mem_filterMap]

/-- Where in the table the first needed symbol is that a statement binds. -/
def firstUse (table : SymbolTable) (text statement : Text) : Nat :=
  (table.entries.map Prod.fst).findIdx fun name =>
    (table.needed text).elem name && table.get? name = some statement

/-- A table whose statements are importable, each for its own symbol. -/
def Sound (table : SymbolTable) : Prop := ∀ entry ∈ table.entries, Importable entry.1 entry.2

theorem Importable.ne_nil (importable : Importable name statement) : statement ≠ [] := by
  rintro rfl
  have none : Coffee.names [] = [] := by
    rw [Coffee.names, Coffee.tokens, Coffee.lex, List.filterMap_nil, Coffee.occurrences]
  have declared := Coffee.mem_declared.mp importable.declares
  exact absurd (none ▸ declared) List.not_mem_nil

theorem Sound.importable (sound : table.Sound) (found : table.get? name = some statement) :
    Importable name statement :=
  sound _ (get?_mem found)

theorem statements_ne_nil (needs : table.needed text ≠ []) : table.statements text ≠ [] := by
  obtain ⟨name, member⟩ := List.exists_mem_of_ne_nil _ needs
  obtain ⟨⟨statement, found⟩, _⟩ := mem_needed.mp member
  exact List.ne_nil_of_mem (mem_statements.mpr ⟨name, member, found⟩)

/-- A text that needs something gets its statements, an empty line, and then follows itself. -/
theorem apply_needed (sound : table.Sound) (needs : table.needed text ≠ []) :
    table.apply text = Text.joinWith ['\n'] (table.statements text) ++ ['\n', '\n'] ++
      text.dropWhile fun c => c = '\n' || c = '\r' := by
  have shown : (table.prelude text).isEmpty = false := by
    rw [prelude]
    cases shape : table.statements text with
    | nil => exact absurd shape (statements_ne_nil needs)
    | cons line lines =>
        obtain ⟨name, _, found⟩ := mem_statements.mp (shape ▸ List.mem_cons_self)
        have line_ne := (sound.importable found).ne_nil
        cases lines <;> simp [Text.joinWith, line_ne]
  rw [apply]
  simp only [shown, Bool.false_eq_true, if_false]
  rfl

theorem apply_unneeded (needs : table.needed text = []) : table.apply text = text := by
  simp [apply, prelude, statements, needs, Text.joinWith]

/-- The names of a text with its prelude are those of the statements and those of the text. -/
theorem names_apply (sound : table.Sound) (needs : table.needed text ≠ []) :
    Coffee.names (table.apply text) =
      (table.statements text).flatMap Coffee.names ++ Coffee.names text := by
  have closed : ∀ line ∈ table.statements text, Coffee.Closed line := by
    intro line member
    obtain ⟨name, _, found⟩ := mem_statements.mp member
    exact (sound.importable found).toClosed
  rw [apply_needed sound needs, List.append_assoc, List.cons_append, List.cons_append,
    List.nil_append, Coffee.names_lines closed (statements_ne_nil needs), Coffee.names_newline,
    Coffee.names_trimmed]

/-- Nothing is left to need: what a statement uses it binds, and what the text uses and the table
knows is bound by the statement for it. -/
theorem needed_apply (sound : table.Sound) (text : Text) : table.needed (table.apply text) = [] := by
  by_cases needs : table.needed text = []
  · rw [apply_unneeded needs, needs]
  refine List.eq_nil_iff_forall_not_mem.mpr fun name member => ?_
  obtain ⟨⟨statement, found⟩, free⟩ := mem_needed.mp member
  obtain ⟨used, unbound⟩ := Coffee.mem_free.mp free
  rw [names_apply sound needs] at used unbound
  simp only [List.mem_append, List.mem_flatMap, not_or, not_exists, not_and] at used unbound
  rcases used with ⟨line, inside, used⟩ | used
  · obtain ⟨other, _, binds⟩ := mem_statements.mp inside
    have own : name ∈ (Coffee.scan line).free :=
      Coffee.mem_free.mpr ⟨used, unbound.1 line inside⟩
    rw [(sound.importable binds).free] at own
    exact absurd own List.not_mem_nil
  · have needed : name ∈ table.needed text :=
      mem_needed.mpr ⟨⟨statement, found⟩, Coffee.mem_free.mpr ⟨used, unbound.2⟩⟩
    have inside := mem_statements.mpr ⟨name, needed, found⟩
    exact unbound.1 statement inside (Coffee.mem_declared.mp (sound.importable found).declares)

/-- The statement that a text needs for a name. -/
def provided? (table : SymbolTable) (text name : Text) : Option Text :=
  if (Coffee.scan text).free.elem name then table.get? name else none

theorem provided?_eq_some_iff : table.provided? text name = some statement ↔
    name ∈ table.needed text ∧ table.get? name = some statement := by
  rw [provided?, mem_needed, List.elem_eq_mem]
  constructor
  · intro found
    split at found
    · next free => exact ⟨⟨⟨statement, found⟩, of_decide_eq_true free⟩, found⟩
    · exact absurd found (by simp)
  · rintro ⟨⟨_, free⟩, found⟩
    rw [if_pos (decide_eq_true free), found]

theorem statements_ordered (table : SymbolTable) (text : Text) :
    (table.statements text).Pairwise fun first second =>
      table.firstUse text first < table.firstUse text second := by
  have shape : table.statements text =
      ((table.entries.map Prod.fst).filterMap (table.provided? text)).eraseDups := by
    rw [statements, needed, List.filterMap_filter]
    rfl
  have place (statement : Text) : table.firstUse text statement =
      (table.entries.map Prod.fst).findIdx fun name => table.provided? text name = some statement := by
    rw [firstUse]
    congr 1
    funext name
    rw [Bool.eq_iff_iff, decide_eq_true_iff, provided?_eq_some_iff]
    simp
  rw [shape]
  simp only [place]
  exact firsts_ordered _ (table.provided? text)

/-- Of a table of importable statements, a text with its prelude needs nothing, and another
prelude changes nothing. The prelude is there only if something is needed. It holds the
statements of what is needed, each on a line of its own, once, and where in the table the first
of its symbols is; an empty line parts it from the text, whose own empty lines in front go. -/
theorem apply_closes (sound : table.Sound) (text : Text) :
    table.needed (table.apply text) = [] ∧ table.apply (table.apply text) = table.apply text ∧
      (table.needed text = [] ∧ table.apply text = text ∨
        table.needed text ≠ [] ∧ ∃ lines : List Text,
          (∀ line, line ∈ lines ↔ ∃ name ∈ table.needed text, table.get? name = some line) ∧
          lines.Pairwise (fun first second =>
            table.firstUse text first < table.firstUse text second) ∧
          table.apply text = Text.joinWith ['\n'] lines ++ ['\n', '\n'] ++
            text.dropWhile fun c => c = '\n' || c = '\r') := by
  have closes := needed_apply sound text
  refine ⟨closes, apply_unneeded closes, ?_⟩
  by_cases needs : table.needed text = []
  · exact Or.inl ⟨needs, apply_unneeded needs⟩
  · exact Or.inr ⟨needs, table.statements text, fun line => mem_statements,
      statements_ordered table text, apply_needed sound needs⟩

/-- Two symbols that share a statement, and one whose statement has a comment after it. -/
def utilities : SymbolTable where
  entries :=
    [("undef".toList, "import \x7bundef, say as say\x7d from 'utils'".toList),
      ("say".toList, "import \x7bundef, say as say\x7d from 'utils'".toList),
      ("log".toList, "import log from 'log' # \"".toList)]

/-- A text with a string and an interpolation that never end. -/
def unfinished : Text := "\r\n\nlog say, \"(#\x7bundef + [".toList

theorem utilities_sound : utilities.Sound := by
  intro entry member
  simp only [utilities, List.mem_cons, List.not_mem_nil, or_false] at member
  rcases member with rfl | rfl | rfl
  · exact ⟨⟨by decide +kernel, by decide +kernel⟩, by decide +kernel, by decide +kernel⟩
  · exact ⟨⟨by decide +kernel, by decide +kernel⟩, by decide +kernel, by decide +kernel⟩
  · exact ⟨⟨by decide +kernel, by decide +kernel⟩, by decide +kernel, by decide +kernel⟩

theorem unfinished_closes : utilities.Sound ∧
    utilities.needed unfinished = ["undef".toList, "say".toList, "log".toList] ∧
    utilities.needed (utilities.apply unfinished) = [] ∧
    utilities.apply (utilities.apply unfinished) = utilities.apply unfinished :=
  have closes := apply_closes utilities_sound unfinished
  ⟨utilities_sound, by decide +kernel, closes.1, closes.2.1⟩

end SymbolTable
end Brewery
