import Brewery.Proofs.Script.Visit

/-!
Stripping. A policy that drops blank lines and comments takes the same way through a script and
the files it includes as one that keeps them, fails where that one fails, and writes what that one
writes but for the lines of blank lines and comments.
-/

namespace Brewery

/-- A line that every policy writes. -/
def OutLine.isFirm (line : OutLine) : Bool := line.role = .code || line.role = .content

@[simp] theorem OutLine.isFirm_indented (indent : Text) (line : OutLine) :
    (indented indent line).isFirm = line.isFirm := by
  unfold indented
  split <;> rfl

theorem OutLine.filter_indented (indent : Text) (lines : List OutLine) :
    (lines.map (indented indent)).filter isFirm = (lines.filter isFirm).map (indented indent) := by
  rw [List.filter_map]
  congr 2
  funext line
  exact isFirm_indented indent line

namespace Expander

open Script

/-- What a script is written as in full, and what is left when the lines of its blank lines and
comments are taken out, in it and in every file that it includes. -/
inductive Stripped (includeDirs : List Path) (disk : Disk) :
    Path → List Item → List OutLine → List OutLine → Prop where
  | nil {origin : Path} : Stripped includeDirs disk origin [] [] []
  | blank {origin : Path} {rest : List Item} {full left : List OutLine}
      (onward : Stripped includeDirs disk origin rest full left) :
      Stripped includeDirs disk origin (.blank :: rest) (⟨.blank, []⟩ :: full) left
  | comment {origin : Path} {line : Text} {rest : List Item} {full left : List OutLine}
      (onward : Stripped includeDirs disk origin rest full left) :
      Stripped includeDirs disk origin (.comment line :: rest) (⟨.comment, line⟩ :: full) left
  | code {origin : Path} {line : Text} {rest : List Item} {full left : List OutLine}
      (onward : Stripped includeDirs disk origin rest full left) :
      Stripped includeDirs disk origin (.code line :: rest) (⟨.code, line⟩ :: full)
        (⟨.code, line⟩ :: left)
  | block {origin : Path} {opening closing : Text} {content : List Text} {rest : List Item}
      {full left : List OutLine} (onward : Stripped includeDirs disk origin rest full left) :
      Stripped includeDirs disk origin (.block opening content closing :: rest)
        (⟨.code, opening⟩ :: content.map (OutLine.mk .content) ++ ⟨.code, closing⟩ :: full)
        (⟨.code, opening⟩ :: content.map (OutLine.mk .content) ++ ⟨.code, closing⟩ :: left)
  | inclusion {origin path : Path} {number : Nat} {directive indent target text : Text}
      {place : Place} {rest : List Item} {own bare full left : List OutLine}
      (found : Expander.findInclude ⟨.retain, includeDirs⟩ disk origin target =
        some (path, place, .text text))
      (inner : Stripped includeDirs disk path (itemsOf path.displayName text) own bare)
      (onward : Stripped includeDirs disk origin rest full left) :
      Stripped includeDirs disk origin (.inclusion number directive indent target :: rest)
        (own.map (OutLine.indented indent) ++ full) (bare.map (OutLine.indented indent) ++ left)

/-- How the expansions with and without blank lines and comments end. -/
inductive Strips (includeDirs : List Path) (disk : Disk) (origin : Path) (items : List Item) :
    Except ExpandError (List OutLine) → Except ExpandError (List OutLine) → Prop where
  | fails (fault : ExpandError) : Strips includeDirs disk origin items (.error fault) (.error fault)
  | writes {full left : List OutLine} (stripped : Stripped includeDirs disk origin items full left) :
      Strips includeDirs disk origin items (.ok full) (.ok left)

variable {includeDirs : List Path} {disk : Disk} {stack : List Path} {origin : Path}
  {items : List Item}

-- What is taken out is what the roles of the lines say.
theorem Stripped.eq_filter {full left : List OutLine}
    (stripped : Stripped includeDirs disk origin items full left) :
    left = full.filter OutLine.isFirm := by
  induction stripped with
  | nil => rfl
  | blank _ ih | comment _ ih => exact ih
  | code _ ih =>
      rw [ih]
      rfl
  | @block origin opening closing content rest full left onward ih =>
      have firm : (content.map (OutLine.mk .content)).filter OutLine.isFirm =
          content.map (OutLine.mk .content) := by
        simp [List.filter_eq_self, OutLine.isFirm]
      rw [ih, List.cons_append, List.cons_append, List.filter_cons_of_pos rfl, List.filter_append,
        firm, List.filter_cons_of_pos rfl]
  | inclusion found inner onward ihInner ih =>
      rw [ihInner, ih, List.filter_append, OutLine.filter_indented]

-- Which lines a policy keeps is of no matter to the search for a file.
theorem findInclude_policy (policy other : LinePolicy) (target : Text) :
    findInclude ⟨policy, includeDirs⟩ disk origin target =
      findInclude ⟨other, includeDirs⟩ disk origin target := rfl

/-- The induction follows the expansion that keeps all lines: into the file of a directive, and on
behind it. -/
theorem expandItems_strips : Strips includeDirs disk origin items
    (expandItems ⟨.retain, includeDirs⟩ disk stack origin items)
    (expandItems ⟨.strip, includeDirs⟩ disk stack origin items) := by
  induction stack, origin, items using expandItems.induct ⟨.retain, includeDirs⟩ disk with
  | case1 stack origin =>
      rw [expandItems_nil, expandItems_nil]
      exact .writes .nil
  | case2 stack origin rest ih =>
      rw [expandItems, expandItems]
      generalize expandItems ⟨.retain, includeDirs⟩ disk stack origin rest = whole at ih ⊢
      generalize expandItems ⟨.strip, includeDirs⟩ disk stack origin rest = bare at ih ⊢
      cases ih with
      | fails fault => exact .fails fault
      | writes onward => exact .writes (.blank onward)
  | case3 stack origin line rest ih =>
      rw [expandItems, expandItems]
      generalize expandItems ⟨.retain, includeDirs⟩ disk stack origin rest = whole at ih ⊢
      generalize expandItems ⟨.strip, includeDirs⟩ disk stack origin rest = bare at ih ⊢
      cases ih with
      | fails fault => exact .fails fault
      | writes onward => exact .writes (.comment onward)
  | case4 stack origin line rest ih =>
      rw [expandItems, expandItems]
      generalize expandItems ⟨.retain, includeDirs⟩ disk stack origin rest = whole at ih ⊢
      generalize expandItems ⟨.strip, includeDirs⟩ disk stack origin rest = bare at ih ⊢
      cases ih with
      | fails fault => exact .fails fault
      | writes onward => exact .writes (.code onward)
  | case5 stack origin opening content closing rest ih =>
      rw [expandItems, expandItems]
      generalize expandItems ⟨.retain, includeDirs⟩ disk stack origin rest = whole at ih ⊢
      generalize expandItems ⟨.strip, includeDirs⟩ disk stack origin rest = bare at ih ⊢
      cases ih with
      | fails fault => exact .fails fault
      | writes onward => exact .writes (.block onward)
  | case6 stack origin number directive rest =>
      rw [expandItems, expandItems]
      exact .fails _
  | case7 stack origin number directive indent target rest missing =>
      rw [expandItems_cons, expandItems_inclusion, missing, expandItems_cons, expandItems_inclusion,
        findInclude_policy .strip .retain, missing]
      exact .fails _
  | case8 stack origin number directive indent target rest path place contents found again =>
      rw [expandItems_cons, expandItems_inclusion, found, expandItems_cons, expandItems_inclusion,
        findInclude_policy .strip .retain, found]
      simp only [again, if_true]
      exact .fails _
  | case9 stack origin number directive indent target rest path place fresh bytes found =>
      rw [expandItems_cons, expandItems_inclusion, found, expandItems_cons, expandItems_inclusion,
        findInclude_policy .strip .retain, found]
      simp only [fresh]
      exact .fails _
  | case10 stack origin number directive indent target rest path place fresh text found _ _ inner ih =>
      rw [expandItems_cons, expandItems_inclusion, found, expandItems_cons, expandItems_inclusion,
        findInclude_policy .strip .retain, found]
      simp only [fresh]
      generalize expandItems ⟨.retain, includeDirs⟩ disk (stack ++ [place.path]) path
        (itemsOf path.displayName text) = whole at inner ⊢
      generalize expandItems ⟨.strip, includeDirs⟩ disk (stack ++ [place.path]) path
        (itemsOf path.displayName text) = bare at inner ⊢
      generalize expandItems ⟨.retain, includeDirs⟩ disk stack origin rest = wholeRest at ih ⊢
      generalize expandItems ⟨.strip, includeDirs⟩ disk stack origin rest = bareRest at ih ⊢
      cases inner with
      | fails fault => exact .fails fault
      | writes inner =>
          cases ih with
          | fails fault => exact .fails fault
          | writes onward => exact .writes (.inclusion found inner onward)

/-- Whatever the disk and the script: without its blank lines and comments it fails in the same
error as with them, or it is written as the same lines, less those of blank lines and comments. -/
theorem strip_drops (includeDirs : List Path) (disk : Disk) (text : Text) (origin : Path) :
    (∃ fault, expandLines ⟨.retain, includeDirs⟩ disk text origin = .error fault ∧
      expandLines ⟨.strip, includeDirs⟩ disk text origin = .error fault) ∨
    ∃ full left, expandLines ⟨.retain, includeDirs⟩ disk text origin = .ok full ∧
      expandLines ⟨.strip, includeDirs⟩ disk text origin = .ok left ∧
      Stripped includeDirs disk origin (itemsOf origin.displayName text) full left ∧
      left = full.filter OutLine.isFirm := by
  have strips : Strips includeDirs disk origin (itemsOf origin.displayName text)
      (expandLines ⟨.retain, includeDirs⟩ disk text origin)
      (expandLines ⟨.strip, includeDirs⟩ disk text origin) := expandItems_strips
  generalize expandLines ⟨.retain, includeDirs⟩ disk text origin = whole at strips ⊢
  generalize expandLines ⟨.strip, includeDirs⟩ disk text origin = bare at strips ⊢
  cases strips with
  | fails fault => exact Or.inl ⟨fault, rfl, rfl⟩
  | writes stripped => exact Or.inr ⟨_, _, rfl, rfl, stripped, stripped.eq_filter⟩

end Expander
end Brewery
