import Brewery.Proofs.Script.Grammar
import Brewery.Proofs.Script.Joining
import Brewery.Proofs.Script.Rereading

/-!
What is kept when everything is kept. A line is ordinary when an expansion has nothing to do on it:
it is blank, a comment or code, holds no token and does not go on in the next line. A script of
ordinary lines is written line by line, blank lines emptied and all others as they are. Only of the
script that is a single newline nothing is written, for its line is not read.
-/

namespace Brewery

namespace Text

/-- Lines as a text: each of them, in order, with a newline behind it. -/
def written (lines : List Text) : Text := lines.flatMap (· ++ ['\n'])

theorem written_cons (line : Text) (lines : List Text) :
    written (line :: lines) = line ++ '\n' :: written lines := by
  simp [written]

end Text

theorem OutLine.render_eq_written (lines : List OutLine) :
    render lines = Text.written (lines.map text) := by
  induction lines with
  | nil => rfl
  | cons line rest ih => rw [render_cons, ih, List.map_cons, Text.written_cons]

namespace Script

open Text

variable {line name : Text} {number : Nat} {lines rest : List Text}

/-- A line on which there is nothing to expand. -/
structure Ordinary (line : Text) : Prop where
  settled : Settled line
  kind : Form line .blank ∨ Form line .comment ∨ Form line .code
  ends : Marked line ∨ ¬Continuing line

/-- A line as it is kept: white space that stands alone is dropped. -/
def retained (line : Text) : Text := if line.all isBlank then [] else line

/-- The item that an ordinary line is. -/
def ordinaryItem (line : Text) : Item :=
  match classify line with
  | .blank => .blank
  | .comment => .comment line
  | _ => .code line

namespace Ordinary

theorem kinds (ordinary : Ordinary line) :
    classify line = .blank ∨ classify line = .comment ∨ classify line = .code :=
  ordinary.kind.imp (·.classified ordinary.settled.free)
    (Or.imp (·.classified ordinary.settled.free) (·.classified ordinary.settled.free))

theorem not_continues (ordinary : Ordinary line) : continues line = false := by
  rw [← Bool.not_eq_true, continues_iff]
  rintro ⟨bare, last⟩
  rcases ordinary.ends with marked | stops
  · exact absurd (isComment_iff_marked.mpr marked) (by simp [bare])
  · exact stops last

theorem of_classify (settled : Settled line)
    (kinds : classify line = .blank ∨ classify line = .comment ∨ classify line = .code)
    (stops : continues line = false) : Ordinary line where
  settled := settled
  kind := by
    have form := Form.of_classified settled.free (classified line)
    rcases kinds with kind | kind | kind <;> rw [kind] at form <;> simp [form]
  ends := by
    rw [← isComment_iff_marked]
    cases marked : isComment line with
    | true => exact Or.inl rfl
    | false =>
        refine Or.inr fun last => ?_
        exact absurd (continues_iff.mpr ⟨marked, last⟩) (by simp [stops])

/-- An ordinary line is read alone, as its own item. -/
theorem items_cons (ordinary : Ordinary line) (rest : List Text) :
    items name number (line :: rest) = ordinaryItem line :: items name (number + 1) rest := by
  have alone : logicalLine name number line rest = ⟨line, number + 1, rest⟩ :=
    ordinary.settled.logicalLine fun goes => absurd goes (by simp [ordinary.not_continues])
  rcases ordinary.kinds with kind | kind | kind <;>
    simp [items_eq_take name number, take?, alone, kind, ordinaryItem]

theorem rereadable (ordinary : Ordinary line) {rest : List Item} (onward : Rereadable rest) :
    Rereadable (ordinaryItem line :: rest) := by
  rcases ordinary.kinds with kind | kind | kind <;> simp only [ordinaryItem, kind]
  · exact .blank onward
  · exact .comment ordinary.settled kind onward
  · exact .code ordinary.settled kind
      (fun goes => absurd goes (by simp [ordinary.not_continues])) onward

theorem output (ordinary : Ordinary line) : (ordinaryItem line).lines = [retained line] := by
  have shape := classified line
  have blank : line.all isBlank = true ↔ trim line = [] := by
    rw [trim_eq_nil_iff, List.all_eq_true]
  rcases ordinary.kinds with kind | kind | kind <;> rw [kind] at shape <;> cases shape
  · next empty => simp [ordinaryItem, kind, Item.lines, Item.output, retained, blank, empty]
  all_goals
    next written _ => simp [ordinaryItem, kind, Item.lines, Item.output, retained, blank, written]

end Ordinary

/-- Every ordinary line is an item, and there are no others. -/
theorem items_ordinary (ordinary : ∀ line ∈ lines, Ordinary line) (name : Text) (number : Nat) :
    items name number lines = lines.map ordinaryItem ∧ Rereadable (lines.map ordinaryItem) ∧
      (lines.map ordinaryItem).flatMap Item.lines = lines.map retained := by
  induction lines generalizing number with
  | nil => exact ⟨items_nil name number, .nil, rfl⟩
  | cons line rest ih =>
      obtain ⟨here, later⟩ := List.forall_mem_cons.mp ordinary
      obtain ⟨read, rereadable, output⟩ := ih later (number + 1)
      refine ⟨?_, here.rereadable rereadable, ?_⟩
      · rw [here.items_cons, read, List.map_cons]
      · rw [List.map_cons, List.flatMap_cons, here.output, output, List.map_cons,
          List.singleton_append]

end Script

namespace Expander

open Script Text

variable {expander : Expander} {disk : Disk} {origin : Path} {body : Text}

theorem keptBy_retain (item : Item) : item.keptBy .retain = true := by
  cases item <;> rfl

/-- The empty line before a newline that stands alone is not read. -/
theorem expandText_newline : expander.expandText disk ['\n'] origin = .ok [] := by
  have none : itemsOf origin.displayName ['\n'] = [] := items_nil _ _
  rw [expandText, expandLines, none, expandItems_nil]
  rfl

/-- A text that ends in a newline, and whose lines are ordinary, is expanded to as many lines in the
same order, blank ones emptied and all others unchanged, unless it is that newline alone. -/
theorem expandText_retains (retains : expander.policy = .retain)
    (ordinary : ∀ line ∈ splitAt '\n' body, Ordinary line) :
    expander.expandText disk (body ++ ['\n']) origin =
      .ok (written ((splitAt '\n' body).map retained)) ↔ body ≠ [] := by
  constructor
  · rintro kept rfl
    rw [List.nil_append, expandText_newline] at kept
    exact absurd (Except.ok.inj kept) (by simp [splitAt, written])
  · intro some
    have lines : physicalLines (body ++ ['\n']) = splitAt '\n' body := by
      rw [physicalLines_newline, if_neg some]
    obtain ⟨read, rereadable, output⟩ := items_ordinary ordinary origin.displayName 1
    have all : ((splitAt '\n' body).map ordinaryItem).filter (Item.keptBy expander.policy) =
        (splitAt '\n' body).map ordinaryItem :=
      List.filter_eq_self.mpr fun item _ => by rw [retains, keptBy_retain]
    rw [expandText, expandLines, itemsOf, lines, read, expandItems_rereadable rereadable, all,
      Except.map, OutLine.render_eq_written, List.map_flatMap, ← output]
    rfl

/-- Blank lines at both ends, a comment that looks like a continuation and one that looks like a
block are kept; the blank line that is the whole text is not. -/
theorem headed_retained :
    Expander.expandText ⟨.retain, []⟩ (.empty [] 0)
        "\n# header \\\n  # s = <<<EOT\n \t \nx = \"\"\"1\"\"\"\n\n".toList scriptPath =
        .ok "\n# header \\\n  # s = <<<EOT\n\nx = \"\"\"1\"\"\"\n\n".toList ∧
      Expander.expandText ⟨.retain, []⟩ (.empty [] 0) ['\n'] scriptPath ≠ .ok ['\n'] := by
  have ordinary : ∀ line ∈
      splitAt '\n' "\n# header \\\n  # s = <<<EOT\n \t \nx = \"\"\"1\"\"\"\n".toList,
      Ordinary line := by
    have lines : splitAt '\n' "\n# header \\\n  # s = <<<EOT\n \t \nx = \"\"\"1\"\"\"\n".toList =
        ["", "# header \\", "  # s = <<<EOT", " \t ", "x = \"\"\"1\"\"\"", ""].map String.toList := by
      decide +kernel
    rw [lines]
    simp only [List.map_cons, List.map_nil, List.mem_cons, List.not_mem_nil, or_false]
    rintro line (rfl | rfl | rfl | rfl | rfl | rfl) <;>
      exact .of_classify ⟨by decide +kernel, by decide +kernel, by decide +kernel⟩
        (by decide +kernel) (by decide +kernel)
  constructor
  · exact (expandText_retains rfl ordinary).mpr (by simp)
  · intro kept
    refine (expandText_retains rfl (?_ : ∀ line ∈ splitAt '\n' [], Ordinary line)).mp kept rfl
    intro line member
    rw [List.mem_singleton.mp member]
    exact .of_classify settled_nil (by decide +kernel) (by decide +kernel)

end Expander
end Brewery
