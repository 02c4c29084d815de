import Brewery.Proofs.Script.Reading
import Brewery.Proofs.Text.Trimming
import Brewery.Script.Expansion
import Mathlib.Logic.Relation

/-!
The way of an expansion through its files. It stands in a file, before some of its lines; it goes
on behind an item that it has expanded, or into the file of a directive. What it has written when
it stands somewhere, and what it makes of the lines before it, is the beginning of the whole
output; an error that it meets is the error of the whole.
-/

namespace Brewery

namespace OutLine

@[simp] theorem indented_nil : indented [] = id := by
  funext line
  simp [indented]

/-- Content and blank lines stay where they are. -/
theorem indented_of_kept {line : OutLine} (indent : Text)
    (kept : line.role = .content ∨ Text.trim line.text = []) : indented indent line = line := by
  unfold indented
  rcases kept with content | blank
  · simp [content]
  · simp [blank]

theorem indented_of_moved {line : OutLine} (indent : Text) (code : line.role ≠ .content)
    (written : Text.trim line.text ≠ []) :
    indented indent line = { line with text := indent ++ line.text } := by
  cases indent with
  | nil => rw [indented_nil]; rfl
  | cons c more => simp [indented, code, written]

theorem indented_content (indent : Text) (content : List Text) :
    content.map (indented indent ∘ OutLine.mk .content) = content.map (OutLine.mk .content) :=
  List.map_congr_left fun _ _ => indented_of_kept indent (Or.inl rfl)

-- A line that holds a quote is not blank.
theorem indented_quote {line : Text} (indent : Text) (quote : '"' ∈ line) :
    indented indent ⟨.code, line⟩ = ⟨.code, indent ++ line⟩ := by
  apply indented_of_moved indent (by simp)
  intro blank
  exact absurd (Text.trim_eq_nil_iff.mp blank '"' quote) (by decide)

-- A file in a file: the outer directive's indentation comes before the inner one's.
theorem indented_indented (outer inner : Text) (line : OutLine) :
    indented outer (indented inner line) = indented (outer ++ inner) line := by
  by_cases kept : line.role = .content ∨ Text.trim line.text = []
  · rw [indented_of_kept inner kept, indented_of_kept outer kept, indented_of_kept _ kept]
  · obtain ⟨code, written⟩ := not_or.mp kept
    have still : Text.trim (inner ++ line.text) ≠ [] := by
      intro blank
      apply written
      rw [Text.trim_eq_nil_iff] at blank ⊢
      exact fun c member => blank c (List.mem_append_right _ member)
    have moved : indented outer { line with text := inner ++ line.text } =
        { line with text := outer ++ (inner ++ line.text) } := indented_of_moved outer code still
    rw [indented_of_moved inner code written, indented_of_moved _ code written, moved,
      List.append_assoc]

end OutLine

namespace Expander

open Script

section Outcomes

variable {Output : Type} {result : Except ExpandError (List OutLine)}
  {move : List OutLine → Output}

theorem map_eq_ok {output : Output} :
    result.map move = .ok output ↔ ∃ own, result = .ok own ∧ move own = output := by
  cases result <;> simp [Except.map]

theorem map_eq_error {fault : ExpandError} :
    result.map move = .error fault ↔ result = .error fault := by
  cases result <;> simp [Except.map]

end Outcomes

section Items

variable {expander : Expander} {disk : Disk} {stack : List Path} {origin : Path}

@[simp] theorem expandItems_nil : expander.expandItems disk stack origin [] = .ok [] := by
  rw [expandItems]

theorem expandItems_cons (item : Item) (rest : List Item) :
    expander.expandItems disk stack origin (item :: rest) = (do
      let out ← expander.expandItems disk stack origin [item]
      let lines ← expander.expandItems disk stack origin rest
      .ok (out ++ lines)) := by
  cases item with
  | inclusion number directive indent target =>
      rw [expandItems, expandItems]
      split
      · rfl
      · split
        · rfl
        · split
          · rfl
          · cases expander.expandItems disk _ _ _ with
            | error fault => rfl
            | ok inner => simp [bind, Except.bind]
  | unterminated number directive =>
      rw [expandItems, expandItems]
      rfl
  | _ =>
      rw [expandItems, expandItems, expandItems_nil]
      cases expander.expandItems disk stack origin rest with
      | error fault => rfl
      | ok lines => simp [bind, Except.bind] <;> split <;> rfl

theorem expandItems_code (line : Text) :
    expander.expandItems disk stack origin [.code line] = .ok [⟨.code, line⟩] := by
  rw [expandItems, expandItems_nil]
  rfl

theorem expandItems_block (opening : Text) (content : List Text) (closing : Text) :
    expander.expandItems disk stack origin [.block opening content closing] =
      .ok (⟨.code, opening⟩ :: content.map (OutLine.mk .content) ++ [⟨.code, closing⟩]) := by
  rw [expandItems, expandItems_nil]
  rfl

-- A script expands when its first item and the others do, and not otherwise.
theorem expandItems_cons_eq_ok {item : Item} {rest : List Item} {lines : List OutLine} :
    expander.expandItems disk stack origin (item :: rest) = .ok lines ↔
      ∃ own more, expander.expandItems disk stack origin [item] = .ok own ∧
        expander.expandItems disk stack origin rest = .ok more ∧ lines = own ++ more := by
  rw [expandItems_cons]
  cases expander.expandItems disk stack origin [item] with
  | error fault => simp [bind, Except.bind]
  | ok own =>
      cases expander.expandItems disk stack origin rest with
      | error fault => simp [bind, Except.bind]
      | ok more => simp [bind, Except.bind, eq_comm]

/-- A directive by itself. -/
theorem expandItems_inclusion (number : Nat) (directive indent target : Text) :
    expander.expandItems disk stack origin [.inclusion number directive indent target] =
      match expander.findInclude disk origin target with
      | none => .error (.missingInclude origin number directive)
      | some (path, place, contents) =>
          if onStack stack place.path then
            .error (.includeCycle origin number directive (stack ++ [place.path]))
          else match contents with
            | .raw _ => .error (.read path .notText)
            | .text text =>
                (expander.expandItems disk (stack ++ [place.path]) path
                  (itemsOf path.displayName text)).map (List.map (OutLine.indented indent)) := by
  rw [expandItems]
  split
  · next none => rw [none]
  · next path place contents found =>
      simp only [found]
      split
      · rfl
      · cases contents with
        | raw bytes => rfl
        | text text =>
            simp only [expandItems_nil]
            cases expander.expandItems disk (stack ++ [place.path]) path
              (itemsOf path.displayName text) with
            | error fault => rfl
            | ok inner => simp [bind, Except.bind, Except.map]

end Items

/-- A place in a file at which an expansion stands. -/
structure Standing where
  /-- The files that are being expanded, this one last. -/
  stack : List Path
  origin : Path
  number : Nat
  /-- The lines of the file that are still to come. -/
  lines : List Text
  /-- The indentations of the directives that led here, the outermost first. -/
  indents : List Text
  /-- What has been written so far. -/
  written : List OutLine

namespace Standing

def next? (here : Standing) : Option Taken :=
  take? here.origin.displayName here.number here.lines

def indent (here : Standing) : Text := here.indents.flatten

/-- What becomes of the lines that are still to come in this file. -/
def result (here : Standing) (expander : Expander) (disk : Disk) :
    Except ExpandError (List OutLine) :=
  expander.expandItems disk here.stack here.origin
    (items here.origin.displayName here.number here.lines)

/-- The beginning of the expansion of a text. -/
def outset (disk : Disk) (text : Text) (origin : Path) : Standing :=
  ⟨[stackEntry disk origin], origin, 1, physicalLines text, [], []⟩

/-- Behind an item that was taken and expanded. -/
def past (here : Standing) (taken : Taken) (out : List OutLine) : Standing :=
  { here with
    number := taken.number
    lines := taken.rest
    written := here.written ++ out.map (OutLine.indented here.indent) }

/-- In front of the first line of the file that a directive leads to. -/
def inside (here : Standing) (indent : Text) (path : Path) (place : Place) (text : Text) :
    Standing :=
  ⟨here.stack ++ [place.path], path, 1, physicalLines text, here.indents ++ [indent],
    here.written⟩

/-- The expansion takes a directive here that leads to a file. -/
def Includes (here : Standing) (expander : Expander) (disk : Disk) (number : Nat)
    (directive indent : Text) (path : Path) (place : Place) (contents : Contents) : Prop :=
  ∃ target next rest, here.next? = some ⟨.inclusion number directive indent target, next, rest⟩ ∧
    expander.findInclude disk here.origin target = some (path, place, contents)

end Standing

/-- One step of an expansion: over an item that expands, or into a file that is not on the
stack. -/
inductive Step (expander : Expander) (disk : Disk) (here : Standing) : Standing → Prop where
  | pass {taken : Taken} {out : List OutLine} (next : here.next? = some taken)
      (expands : expander.expandItems disk here.stack here.origin [taken.item] = .ok out) :
      Step expander disk here (here.past taken out)
  | enter {number : Nat} {directive indent : Text} {path : Path} {place : Place} {text : Text}
      (includes : here.Includes expander disk number directive indent path place (.text text))
      (fresh : onStack here.stack place.path = false) :
      Step expander disk here (here.inside indent path place text)

/-- The standings of the expansion of a text. -/
def Reached (expander : Expander) (disk : Disk) (text : Text) (origin : Path) : Standing → Prop :=
  Relation.ReflTransGen (Step expander disk) (.outset disk text origin)

variable {expander : Expander} {disk : Disk} {here there : Standing}

namespace Standing

theorem result_of_end (done : here.next? = none) : here.result expander disk = .ok [] := by
  unfold result
  rw [items_eq_take]
  simp only [next?] at done
  simp [done]

theorem result_of_next {taken : Taken} (next : here.next? = some taken) :
    here.result expander disk = expander.expandItems disk here.stack here.origin
      (taken.item :: items here.origin.displayName taken.number taken.rest) := by
  unfold result
  rw [items_eq_take]
  simp only [next?] at next
  simp only [next]

theorem result_of_failing {taken : Taken} {fault : ExpandError} (next : here.next? = some taken)
    (fails : expander.expandItems disk here.stack here.origin [taken.item] = .error fault) :
    here.result expander disk = .error fault := by
  rw [result_of_next next, expandItems_cons, fails]
  rfl

theorem result_of_passing {taken : Taken} {out : List OutLine} (next : here.next? = some taken)
    (expands : expander.expandItems disk here.stack here.origin [taken.item] = .ok out) :
    here.result expander disk =
      ((here.past taken out).result expander disk).map (out ++ ·) := by
  rw [result_of_next next, expandItems_cons, expands]
  rfl

end Standing

namespace Standing.Includes

variable {number : Nat} {directive indent : Text} {path : Path} {place : Place}
  {contents : Contents} {text : Text} {taken : Taken}

theorem next (includes : here.Includes expander disk number directive indent path place contents) :
    ∃ taken, here.next? = some taken := by
  obtain ⟨target, number, rest, taken, _⟩ := includes
  exact ⟨_, taken⟩

theorem item (includes : here.Includes expander disk number directive indent path place contents)
    (next : here.next? = some taken) : ∃ target,
      taken.item = .inclusion number directive indent target ∧
        expander.findInclude disk here.origin target = some (path, place, contents) := by
  obtain ⟨target, number, rest, found, leads⟩ := includes
  cases next.symm.trans found
  exact ⟨target, rfl, leads⟩

/-- A file that is being expanded already is a cycle. -/
theorem again (includes : here.Includes expander disk number directive indent path place contents)
    (next : here.next? = some taken) (active : onStack here.stack place.path = true) :
    expander.expandItems disk here.stack here.origin [taken.item] =
      .error (.includeCycle here.origin number directive (here.stack ++ [place.path])) := by
  obtain ⟨target, item, leads⟩ := includes.item next
  rw [item, expandItems_inclusion]
  simp only [leads, active, if_true]

theorem unreadable {bytes : List UInt8}
    (includes : here.Includes expander disk number directive indent path place (.raw bytes))
    (next : here.next? = some taken) (fresh : onStack here.stack place.path = false) :
    expander.expandItems disk here.stack here.origin [taken.item] = .error (.read path .notText) := by
  obtain ⟨target, item, leads⟩ := includes.item next
  rw [item, expandItems_inclusion]
  simp only [leads, fresh, Bool.false_eq_true, if_false]

/-- Any other file is expanded in the place of its directive. -/
theorem entered
    (includes : here.Includes expander disk number directive indent path place (.text text))
    (next : here.next? = some taken) (fresh : onStack here.stack place.path = false) :
    expander.expandItems disk here.stack here.origin [taken.item] =
      ((here.inside indent path place text).result expander disk).map
        (List.map (OutLine.indented indent)) := by
  obtain ⟨target, item, leads⟩ := includes.item next
  rw [item, expandItems_inclusion]
  simp only [leads, fresh, Bool.false_eq_true, if_false]
  rfl

end Standing.Includes

theorem Step.error {fault : ExpandError} (step : Step expander disk here there)
    (fails : there.result expander disk = .error fault) :
    here.result expander disk = .error fault := by
  cases step with
  | pass next expands =>
      rw [Standing.result_of_passing next expands, fails]
      rfl
  | enter includes fresh =>
      obtain ⟨taken, next⟩ := includes.next
      apply Standing.result_of_failing next
      rw [includes.entered next fresh, fails]
      rfl

theorem Step.output {lines : List OutLine} (step : Step expander disk here there)
    (expands : here.result expander disk = .ok lines) :
    ∃ more after, there.result expander disk = .ok more ∧
      here.written ++ lines.map (OutLine.indented here.indent) =
        there.written ++ more.map (OutLine.indented there.indent) ++ after := by
  cases step with
  | @pass taken out next alone =>
      rw [Standing.result_of_passing next alone] at expands
      obtain ⟨more, later, rfl⟩ := map_eq_ok.mp expands
      refine ⟨more, [], later, ?_⟩
      simp [Standing.past, Standing.indent]
  | @enter number directive indent path place text includes fresh =>
      obtain ⟨taken, next⟩ := includes.next
      rw [Standing.result_of_next next, expandItems_cons_eq_ok, includes.entered next fresh] at expands
      obtain ⟨_, more, entered, _, rfl⟩ := expands
      obtain ⟨own, inner, rfl⟩ := map_eq_ok.mp entered
      refine ⟨own, more.map (OutLine.indented here.indent), inner, ?_⟩
      simp [Standing.inside, Standing.indent, OutLine.indented_indented, Function.comp_def]

variable {text : Text} {origin : Path}

/-- An error that an expansion comes to is the error of the whole. -/
theorem Reached.error {fault : ExpandError} (reached : Reached expander disk text origin here)
    (fails : here.result expander disk = .error fault) :
    expander.expandLines disk text origin = .error fault := by
  induction reached with
  | refl => exact fails
  | tail _ step ih => exact ih (step.error fails)

/-- Where a successful expansion stands, what it has written and what it makes of the file's
further lines is where the output begins. -/
theorem Reached.output {lines : List OutLine} (reached : Reached expander disk text origin here)
    (expands : expander.expandLines disk text origin = .ok lines) :
    ∃ more after, here.result expander disk = .ok more ∧
      lines = here.written ++ more.map (OutLine.indented here.indent) ++ after := by
  induction reached with
  | refl =>
      refine ⟨lines, [], expands, ?_⟩
      simp [Standing.outset, Standing.indent]
  | tail _ step ih =>
      obtain ⟨more, after, here, shape⟩ := ih
      obtain ⟨inner, between, there, split⟩ := step.output here
      exact ⟨inner, between ++ after, there, by rw [shape, split, List.append_assoc]⟩

-- An expansion that succeeds comes to no block that is never closed.
theorem Reached.terminated {lines : List OutLine} {taken : Taken}
    (reached : Reached expander disk text origin here)
    (expands : expander.expandLines disk text origin = .ok lines)
    (next : here.next? = some taken) (line : Nat) (directive : Text) :
    taken.item ≠ .unterminated line directive := by
  intro open_
  have fails : here.result expander disk = .error _ :=
    Standing.result_of_failing next (by rw [open_, expandItems])
  obtain ⟨_, _, fine, _⟩ := reached.output expands
  exact absurd (fine.symm.trans fails) (by simp)

/-- What a block in a reached file is written as, where its two ends hold quotes. -/
theorem Reached.block {lines : List OutLine} {opening closing : Text} {content rest : List Text}
    {number : Nat} (reached : Reached expander disk text origin here)
    (expands : expander.expandLines disk text origin = .ok lines)
    (next : here.next? = some ⟨.block opening content closing, number, rest⟩)
    (opens : '"' ∈ opening) (closes : '"' ∈ closing) :
    ∃ later, lines = here.written ++ (⟨.code, here.indent ++ opening⟩ ::
      content.map (OutLine.mk .content) ++ ⟨.code, here.indent ++ closing⟩ :: later) := by
  obtain ⟨more, later, _, output⟩ :=
    Reached.output (reached.tail (.pass next (expandItems_block _ _ _))) expands
  refine ⟨more.map (OutLine.indented here.indent) ++ later, ?_⟩
  have still := OutLine.indented_content here.indent content
  have first := OutLine.indented_quote here.indent opens
  have last := OutLine.indented_quote here.indent closes
  rw [output]
  simp only [Standing.past, Standing.indent, List.map_append, List.map_cons, List.map_nil,
    List.map_map] at still first last ⊢
  rw [still, first, last]
  simp

end Expander
end Brewery
