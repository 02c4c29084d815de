import Brewery.Proofs.Script.Rendering
import Brewery.Proofs.Script.Substitution
import Brewery.Proofs.Script.Visit
import Brewery.Proofs.Session.Freshness

/-!
Expanding what was expanded. `Rereadable` is the normal form of a list of items: written as lines
they are read as the same items again, and leaving out blank lines and comments keeps it. A script
without directives comes to that form if its blocks are written as block strings that close where
they did, and then its expansion expands to itself.
-/

namespace Brewery.Script

open Text

/-- An item that can be read again: no directive, no block that is never closed, and blocks that
open and close where a block string does. -/
def Item.Readable : Item → Prop
  | .blank | .comment _ | .code _ => True
  | .block opening content _ =>
      occurrences blockQuote opening % 2 = 1 ∧ ∀ line ∈ content, closesBlockString line = false
  | .inclusion .. | .unterminated .. => False

/-- The lines of an item that needs no other file. -/
def Item.output : Item → List OutLine
  | .blank => [⟨.blank, []⟩]
  | .comment line => [⟨.comment, line⟩]
  | .code line => [⟨.code, line⟩]
  | .block opening content closing =>
      ⟨.code, opening⟩ :: content.map (OutLine.mk .content) ++ [⟨.code, closing⟩]
  | .inclusion .. | .unterminated .. => []

def Item.lines (item : Item) : List Text := item.output.map OutLine.text

theorem Item.block_lines (opening : Text) (content : List Text) (closing : Text) :
    (Item.block opening content closing).lines = opening :: (content ++ [closing]) := by
  simp [lines, output, Function.comp_def]

/-- Whether a policy keeps an item. -/
def Item.keptBy (policy : LinePolicy) : Item → Bool
  | .blank | .comment _ => policy = .retain
  | _ => true

/-- Items that are read as themselves from their own lines. -/
inductive Rereadable : List Item → Prop where
  | nil : Rereadable []
  | blank {rest : List Item} (onward : Rereadable rest) : Rereadable (.blank :: rest)
  | comment {line : Text} {rest : List Item} (settled : Settled line)
      (kind : classify line = .comment) (onward : Rereadable rest) :
      Rereadable (.comment line :: rest)
  | code {line : Text} {rest : List Item} (settled : Settled line) (kind : classify line = .code)
      (last : continues line = true → rest = []) (onward : Rereadable rest) :
      Rereadable (.code line :: rest)
  | block {opening : Text} {content : List Text} {closing : Text} {rest : List Item}
      (settled : Settled opening) (kind : classify opening = .blockString)
      (stops : continues opening = true → Stops (content ++ [closing]))
      (open_ : ∀ line ∈ content, closesBlockString line = false)
      (closes : closesBlockString closing = true) (free : ∀ line ∈ content ++ [closing], '\n' ∉ line)
      (onward : Rereadable rest) : Rereadable (.block opening content closing :: rest)

section Second

variable {items rest : List Item} {name line : Text} {number : Nat}

theorem Rereadable.filter (rereadable : Rereadable items) (keeps : Item → Bool) :
    Rereadable (items.filter keeps) := by
  induction rereadable with
  | nil => exact .nil
  | @blank rest onward ih =>
      rw [List.filter_cons]
      split
      · exact .blank ih
      · exact ih
  | @comment line rest settled kind onward ih =>
      rw [List.filter_cons]
      split
      · exact .comment settled kind ih
      · exact ih
  | @code line rest settled kind last onward ih =>
      rw [List.filter_cons]
      split
      · exact .code settled kind (fun goes => by rw [last goes]; rfl) ih
      · exact ih
  | @block opening content closing rest settled kind stops open_ closes free onward ih =>
      rw [List.filter_cons]
      split
      · exact .block settled kind stops open_ closes free ih
      · exact ih

/-- A settled line is a logical line by itself, unless it goes on in a line that it may be joined
with. -/
theorem Settled.logicalLine (settled : Settled line) {below : List Text}
    (stops : continues line = true → Stops below) :
    logicalLine name number line below = ⟨line, number + 1, below⟩ := by
  unfold Script.logicalLine
  rw [settled.substitute]
  split
  · next goes =>
      cases below with
      | nil => rfl
      | cons next more =>
          have marker := stops goes next rfl
          rw [Script.gather, if_neg (by simp [marker])]
  · rfl

theorem settled_nil : Settled [] := by
  constructor <;> decide

theorem isComment_of_classify (kind : classify line = .comment) : isComment line = true := by
  have shape := classified line
  rw [kind] at shape
  cases shape with
  | comment _ _ _ marked => exact marked

theorem Rereadable.reads (rereadable : Rereadable items) (name : Text) (number : Nat) :
    Script.items name number (items.flatMap Item.lines) = items := by
  have next {item : Item} {rest : List Item} {number onward : Nat}
      (taken : take? name number ((item :: rest).flatMap Item.lines) =
        some ⟨item, onward, rest.flatMap Item.lines⟩)
      (ih : Script.items name onward (rest.flatMap Item.lines) = rest) :
      Script.items name number ((item :: rest).flatMap Item.lines) = item :: rest := by
    rw [items_eq_take, taken]
    exact congrArg (item :: ·) ih
  induction rereadable generalizing number with
  | nil => exact items_nil name number
  | @blank rest onward ih =>
      refine next ?_ (ih (number + 1))
      have alone : logicalLine name number [] (rest.flatMap Item.lines) = _ :=
        settled_nil.logicalLine fun goes => absurd goes (by decide)
      have kind : classify [] = .blank := by decide +kernel
      simp [Item.lines, Item.output, take?, alone, kind]
  | @comment line rest settled kind onward ih =>
      refine next ?_ (ih (number + 1))
      have alone : logicalLine name number line (rest.flatMap Item.lines) = _ :=
        settled.logicalLine fun goes =>
          absurd (continues_iff.mp goes).1 (by simp [isComment_of_classify kind])
      simp [Item.lines, Item.output, take?, alone, kind]
  | @code line rest settled kind last onward ih =>
      refine next ?_ (ih (number + 1))
      have alone : logicalLine name number line (rest.flatMap Item.lines) = _ :=
        settled.logicalLine fun goes next first => by
          rw [last goes] at first
          exact absurd first (by simp)
      simp [Item.lines, Item.output, take?, alone, kind]
  | @block opening content closing rest settled kind stops open_ closes free onward ih =>
      refine next ?_ (ih (number + 1 + content.length + 1))
      have alone : logicalLine name number opening
          (content ++ closing :: rest.flatMap Item.lines) = _ :=
        settled.logicalLine fun goes next first =>
          stops goes next (by cases content <;> exact first)
      have block : close? closesBlockString (content ++ closing :: rest.flatMap Item.lines) =
          some (content, closing, rest.flatMap Item.lines) :=
        close?_eq_some_iff.mpr ⟨rfl, open_, closes⟩
      simp [Item.block_lines, take?, alone, kind, block]

theorem Rereadable.free (rereadable : Rereadable items) :
    ∀ line ∈ items.flatMap Item.output, '\n' ∉ line.text := by
  have own {item : Item} {rest : List Item} (here : ∀ line ∈ item.lines, '\n' ∉ line)
      (ih : ∀ line ∈ rest.flatMap Item.output, '\n' ∉ line.text) :
      ∀ line ∈ (item :: rest).flatMap Item.output, '\n' ∉ line.text := by
    intro line member
    rw [List.flatMap_cons, List.mem_append] at member
    rcases member with inside | later
    · exact here line.text (List.mem_map_of_mem inside)
    · exact ih line later
  induction rereadable with
  | nil => exact fun line member => absurd member List.not_mem_nil
  | blank _ ih => exact own (by simp [Item.lines, Item.output]) ih
  | comment settled _ _ ih | code settled _ _ _ ih =>
      exact own (by simpa [Item.lines, Item.output] using settled.free) ih
  | block settled _ _ _ _ free _ ih =>
      refine own ?_ ih
      intro line member
      rw [Item.block_lines, List.mem_cons] at member
      rcases member with rfl | inside
      · exact settled.free
      · exact free line inside

theorem Rereadable.itemsOf_render (rereadable : Rereadable items)
    (some : OutLine.render (items.flatMap Item.output) ≠ ['\n']) :
    itemsOf name (OutLine.render (items.flatMap Item.output)) = items := by
  rw [itemsOf, physicalLines_render rereadable.free some, List.map_flatMap]
  exact rereadable.reads name 1

end Second

section First

variable {name line : Text} {number : Nat} {lines : List Text}

/-- Where a line that continues may be left, the script ends. -/
theorem items_of_stops (stops : Stops lines) (free : ∀ line ∈ lines, '\n' ∉ line) :
    items name number lines = [] := by
  cases lines with
  | nil => exact items_nil name number
  | cons first rest =>
      have marker := stops first rfl
      have absent {c : Char} (shows : isBlank c = false) (other : c ∉ endMarker) : c ∉ first :=
        fun member => other (marker ▸ mem_trim member shows)
      have settled : Settled first := by
        have brace : '\x7b' ∉ first := absent (by decide) (by decide)
        constructor
        · exact fun found => brace (found.subset (by decide))
        · exact fun found => brace (found.subset (by decide))
        · exact free first List.mem_cons_self
      have alone : logicalLine name number first rest = _ :=
        settled.logicalLine fun goes =>
          have last := List.mem_of_find?_eq_some (continues_iff.mp goes).2
          absurd (List.mem_reverse.mp last) (absent (by decide) (by decide))
      have kind : classify first = .finish := by rw [classify, if_pos marker]
      rw [items_eq_take]
      simp [take?, alone, kind]

theorem escapeBlockLine_free (free : '\n' ∉ line) : '\n' ∉ escapeBlockLine line := by
  intro ends
  rcases (replaced (by decide) _).mem ends with before | new
  · rcases (replaced (by decide) _).mem before with earlier | new
    · rcases (replaced (by decide) _).mem earlier with there | new
      · exact free there
      · exact absurd new (by decide)
    · exact absurd new (by decide)
  · exact absurd new (by decide)

theorem closesBlockString_quotes (front : Text) : closesBlockString (front ++ blockQuote) = true :=
  contains_iff_infix.mpr (List.suffix_append front blockQuote).isInfix

-- A line that ends in quotes is not on a continuation.
theorem continues_quotes (front : Text) : continues (front ++ blockQuote) = false := by
  cases goes : continues (front ++ blockQuote) with
  | false => rfl
  | true =>
      have last := (continues_iff.mp goes).2
      rw [List.reverse_append, List.find?_append, show blockQuote.reverse.find? seen = some '"' by
        decide, Option.some_or] at last
      exact absurd last (by decide)

theorem Settled.opener {head tag : Text} (settled : Settled line)
    (opens : literalOpening? line = some (head, tag)) : Settled (head ++ blockQuote) := by
  have front : head <+: line := by
    apply List.IsPrefix.trans _ (trimEnd_isPrefix line)
    rw [literalOpening?_shape opens, List.append_assoc]
    exact List.prefix_append _ _
  have quotes : Settled ['"', '"'] := by constructor <;> decide
  exact (settled.of_infix front.isInfix).around (by decide) (by decide) quotes

-- One item: the case analysis of the reader, with what each case asks of the lines behind it.
theorem take?_rereadable {taken : Taken} (named : ∀ line ∈ lines, Named name line)
    (found : take? name number lines = some taken) (own : taken.item.Readable)
    (onward : Rereadable (items name taken.number taken.rest)) :
    Rereadable (taken.item :: items name taken.number taken.rest) := by
  obtain ⟨first, rest, rfl, _⟩ := take?_suffix found
  have settled : Settled (logicalLine name number first rest).line := logicalLine_settled named
  have stops : continues (logicalLine name number first rest).line = true →
      Stops (logicalLine name number first rest).rest :=
    logicalLine_stops (named first List.mem_cons_self)
  have below : ∀ line ∈ (logicalLine name number first rest).rest, '\n' ∉ line :=
    fun line member => (named line (List.mem_cons_of_mem _
      ((logicalLine_suffix name number first rest).subset member))).free
  have shape := classified (logicalLine name number first rest).line
  simp only [take?] at found
  split at found
  · exact absurd found (by simp)
  · cases found
    exact .blank onward
  · next kind =>
      cases found
      exact .comment settled kind onward
  · next kind =>
      cases found
      exact .code settled kind (fun goes => items_of_stops (stops goes) below) onward
  · cases found
    exact absurd own id
  · next head tag kind =>
      rw [kind] at shape
      split at found
      · cases found
        exact absurd own id
      · next content closing after block =>
          cases found
          cases shape with
          | literal runs bare opens =>
              obtain ⟨split, _, _⟩ := close?_eq_some_iff.mp block
              rw [split] at below
              refine .block (settled.opener opens) (classify_opener bare opens own.1) ?_
                own.2 (closesBlockString_quotes _) ?_ onward
              · intro goes
                exact absurd (goes.symm.trans (continues_quotes head)) (by simp)
              · intro line member
                rcases List.mem_append.mp member with inside | last
                · obtain ⟨raw, within, rfl⟩ := List.mem_map.mp inside
                  exact escapeBlockLine_free (below raw (List.mem_append_left _ within))
                · cases List.mem_singleton.mp last
                  have free := below closing (by simp)
                  rw [List.mem_append, not_or]
                  exact ⟨fun ends => free ((List.takeWhile_prefix _).subset ends), by decide⟩
  · next kind =>
      split at found
      · cases found
        exact absurd own id
      · next content closing after block =>
          cases found
          obtain ⟨split, open_, closes⟩ := close?_eq_some_iff.mp block
          rw [split] at below stops
          refine .block settled kind ?_ open_ closes ?_ onward
          · intro goes next head
            exact stops goes next (by cases content <;> exact head)
          · intro line member
            apply below line
            rcases List.mem_append.mp member with inside | last
            · exact List.mem_append_left _ inside
            · simp [List.mem_singleton.mp last]

/-- A script of named lines, if it is readable, is rereadable. -/
theorem items_rereadable (named : ∀ line ∈ lines, Named name line)
    (readable : ∀ item ∈ items name number lines, item.Readable) :
    Rereadable (items name number lines) := by
  induction size : lines.length using Nat.strong_induction_on generalizing number lines with
  | _ count ih =>
      subst size
      rw [items_eq_take] at readable ⊢
      cases found : take? name number lines with
      | none => exact .nil
      | some taken =>
          rw [found] at readable
          obtain ⟨own, further⟩ := List.forall_mem_cons.mp readable
          obtain ⟨first, rest, shape, suffix⟩ := take?_suffix found
          have later : ∀ line ∈ taken.rest, Named name line := by
            intro line member
            exact named line (shape ▸ List.mem_cons_of_mem _ (suffix.subset member))
          exact take?_rereadable named found own (ih _ (take?_shorter found) later further rfl)

end First

end Brewery.Script

namespace Brewery.Expander

open Script Text

variable {expander : Expander} {disk : Disk} {stack : List Path} {origin : Path}
  {items : List Item}

/-- A rereadable script becomes the lines of the items that the policy keeps. -/
theorem expandItems_rereadable (rereadable : Rereadable items) :
    expander.expandItems disk stack origin items =
      .ok ((items.filter (Item.keptBy expander.policy)).flatMap Item.output) := by
  induction rereadable with
  | nil => exact expandItems_nil
  | blank _ ih | comment _ _ _ ih =>
      rw [expandItems, ih]
      cases policy : expander.policy <;> rfl
  | code _ _ _ _ ih =>
      rw [expandItems, ih, List.filter_cons_of_pos rfl]
      rfl
  | block _ _ _ _ _ _ _ ih =>
      rw [expandItems, ih, List.filter_cons_of_pos rfl, List.flatMap_cons]
      simp [Item.output, bind, Except.bind]

/-- A script that expands closes all of its blocks. -/
theorem ne_unterminated_of_ok {lines : List OutLine}
    (fine : expander.expandItems disk stack origin items = .ok lines) {number : Nat}
    {directive : Text} : .unterminated number directive ∉ items := by
  induction items generalizing lines with
  | nil => exact List.not_mem_nil
  | cons item rest ih =>
      obtain ⟨own, more, here, onward, rfl⟩ := expandItems_cons_eq_ok.mp fine
      intro member
      rcases List.mem_cons.mp member with rfl | later
      · rw [expandItems] at here
        exact absurd here (by simp)
      · exact ih onward later

/-- A script without directives, whose blocks are written with an opener that opens a block
string and a content that does not close it, expands to what expands to itself; only a newline
that stands alone is lost. -/
theorem expandText_fixed_iff {text result : Text} {other : Disk}
    (free : IncludeFree origin text)
    (plain : fileToken <:+: text → Plain origin.displayName)
    (blocks : ∀ opening content closing,
      .block opening content closing ∈ itemsOf origin.displayName text →
        occurrences blockQuote opening % 2 = 1 ∧
          ∀ line ∈ content, closesBlockString line = false)
    (expands : expander.expandText disk text origin = .ok result) :
    expander.expandText other result origin = .ok result ↔ result ≠ ['\n'] := by
  obtain ⟨lines, fine, rfl⟩ := map_eq_ok.mp expands
  have named : ∀ line ∈ physicalLines text, Named origin.displayName line := fun line member =>
    ⟨fun inside => plain (inside.trans (infix_of_mem_physicalLines member)), physicalLines_free member⟩
  have readable : ∀ item ∈ itemsOf origin.displayName text, item.Readable := by
    intro item member
    cases item with
    | inclusion number directive indent target => exact free _ member _ _ _ _ rfl
    | unterminated number directive => exact ne_unterminated_of_ok fine member
    | block opening content closing => exact blocks opening content closing member
    | _ => trivial
  have first := items_rereadable named readable
  have kept := first.filter (Item.keptBy expander.policy)
  rw [expandLines, itemsOf, expandItems_rereadable first] at fine
  cases fine
  constructor
  · intro again alone
    have empty : itemsOf origin.displayName ['\n'] = [] := items_nil _ _
    rw [alone, expandText, expandLines, empty, expandItems_nil] at again
    exact absurd again (by simp [Except.map])
  · intro some
    rw [expandText, expandLines, kept.itemsOf_render some, expandItems_rereadable kept,
      List.filter_filter]
    simp [Except.map]

section Runs

def scriptPath : Path := .ofString "a.cielo"

def scriptText : Text := "x = \\\n  \x7b\x7bFILE\x7d\x7d\ny = <<<T\n#\x7bz\x7d\nT\n".toList

def scriptOutput : Text := "x = a.cielo\ny = \"\"\"\n\\#\x7bz\x7d\n\"\"\"\n".toList

theorem scriptText_items : itemsOf scriptPath.displayName scriptText =
    [.code "x = a.cielo".toList,
      .block "y = \"\"\"".toList ["\\#\x7bz\x7d".toList] "\"\"\"".toList] := by
  decide +kernel

/-- A script with a continuation, a token and a literal block expands to what expands to itself; a
blank line alone does not. -/
theorem scriptOutput_fixed :
    Expander.expandText ⟨.retain, []⟩ (.empty [] 0) scriptText scriptPath = .ok scriptOutput ∧
      Expander.expandText ⟨.retain, []⟩ (.empty [] 0) scriptOutput scriptPath = .ok scriptOutput ∧
      Expander.expandText ⟨.retain, []⟩ (.empty [] 0) [' '] scriptPath = .ok ['\n'] ∧
      Expander.expandText ⟨.retain, []⟩ (.empty [] 0) ['\n'] scriptPath ≠ .ok ['\n'] := by
  have name : scriptPath.displayName = "a.cielo".toList := by decide +kernel
  have plain : Plain scriptPath.displayName := by
    rw [name]
    exact ⟨by simp [continuation], ⟨'a', by decide, by decide⟩, ⟨'a', by decide, by decide⟩⟩
  have expands : Expander.expandText ⟨.retain, []⟩ (.empty [] 0) scriptText scriptPath =
      .ok scriptOutput := by
    rw [expandText, expandLines, scriptText_items, expandItems, expandItems_block]
    rfl
  have blank_items : itemsOf scriptPath.displayName [' '] = [.blank] := by decide +kernel
  have blank : Expander.expandText ⟨.retain, []⟩ (.empty [] 0) [' '] scriptPath = .ok ['\n'] := by
    rw [expandText, expandLines, blank_items, expandItems, expandItems_nil]
    rfl
  refine ⟨expands, (expandText_fixed_iff ?_ (fun _ => plain) ?_ expands).mpr (by decide), blank,
    fun again => (expandText_fixed_iff ?_ (fun _ => plain) ?_ blank).mp again rfl⟩
  · intro item member
    rw [scriptText_items] at member
    simp only [List.mem_cons, List.not_mem_nil, or_false] at member
    rcases member with rfl | rfl <;> simp
  · intro opening content closing member
    rw [scriptText_items] at member
    simp only [List.mem_cons, List.not_mem_nil, or_false, reduceCtorEq, false_or] at member
    cases member
    exact ⟨by decide +kernel, by decide +kernel⟩
  · intro item member
    rw [blank_items] at member
    simp [List.mem_singleton.mp member]
  · intro opening content closing member
    rw [blank_items] at member
    exact absurd member (by simp)

/-- Escaping leaves two quotes of five, which close the block with the one before them when the
output is read again; what follows in the block is then code, and its tokens are replaced. -/
theorem five_quotes_close (expander : Expander) (disk : Disk) :
    expander.expandText disk "x = <<<T\n\"\"\"\"\"\ny = \x7b\x7bLINE\x7d\x7d\nT\n".toList scriptPath =
        .ok "x = \"\"\"\n\\\"\\\"\\\"\"\"\ny = \x7b\x7bLINE\x7d\x7d\n\"\"\"\n".toList ∧
      expander.expandText disk
          "x = \"\"\"\n\\\"\\\"\\\"\"\"\ny = \x7b\x7bLINE\x7d\x7d\n\"\"\"\n".toList scriptPath =
        .error (.unterminatedLiteral scriptPath 4 "\"\"\"".toList) := by
  have once : itemsOf scriptPath.displayName
      "x = <<<T\n\"\"\"\"\"\ny = \x7b\x7bLINE\x7d\x7d\nT\n".toList =
      [.block "x = \"\"\"".toList
        ["\\\"\\\"\\\"\"\"".toList, "y = \x7b\x7bLINE\x7d\x7d".toList] "\"\"\"".toList] := by
    decide +kernel
  have twice : itemsOf scriptPath.displayName
      "x = \"\"\"\n\\\"\\\"\\\"\"\"\ny = \x7b\x7bLINE\x7d\x7d\n\"\"\"\n".toList =
      [.block "x = \"\"\"".toList [] "\\\"\\\"\\\"\"\"".toList, .code "y = 3".toList,
        .unterminated 4 "\"\"\"".toList] := by
    decide +kernel
  constructor
  · rw [expandText, expandLines, once, expandItems_block]
    rfl
  · rw [expandText, expandLines, twice, expandItems_cons, expandItems_block, expandItems_cons,
      expandItems_code, expandItems]
    rfl

end Runs

end Brewery.Expander
