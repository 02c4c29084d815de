import Brewery.Proofs.Script.Reading
import Brewery.Proofs.Script.Substitution

/-!
The lines that are taken with an item: those of a logical line, and those of the block that it
opens. Of the lines behind them nothing is looked at, except whether they begin with the end marker
where the line would go on. So the reader takes the same item from lines that become the same, and
goes on from whatever stands behind them.
-/

namespace Brewery.Script

open Text

/-- Copies of the lines from a number on that become the same as part of a logical line, when they
stand so many lines further down. -/
inductive Alike (name : Text) (count : Nat) : Nat → List Text → List Text → Prop where
  | nil {number : Nat} : Alike name count number [] []
  | cons {number : Nat} {line copy : Text} {rest copies : List Text}
      (same : substitute name (number + count) copy = substitute name number line)
      (goes : continues copy = continues line)
      (ends : trim copy = endMarker ↔ trim line = endMarker)
      (onward : Alike name count (number + 1) rest copies) :
      Alike name count number (line :: rest) (copy :: copies)

/-- The same item, so many lines further down. -/
def Item.shifted (count : Nat) : Item → Item
  | .inclusion number directive indent target => .inclusion (number + count) directive indent target
  | .unterminated number directive => .unterminated (number + count) directive
  | item => item

/-- An item that is not a block without an end. -/
def Item.Whole (item : Item) : Prop := ∀ number directive, item ≠ .unterminated number directive

@[simp] theorem Item.shifted_zero (item : Item) : item.shifted 0 = item := by
  cases item <;> rfl

theorem Item.Whole.shifted {item : Item} (whole : item.Whole) (count : Nat) :
    (item.shifted count).Whole := by
  intro number directive
  cases item with
  | unterminated line directive => exact absurd rfl (whole line directive)
  | _ => exact fun same => by cases same

variable {name line next first : Text} {number count : Nat} {rest lines copies below : List Text}

theorem alike_refl (lines : List Text) : Alike name 0 number lines lines := by
  induction lines generalizing number with
  | nil => exact .nil
  | cons line rest ih => exact .cons rfl rfl Iff.rfl ih

section LogicalLines

theorem gather_left (stops : continues line = true → Stops below) :
    gather name number line below = ⟨line, number, below⟩ := by
  cases below with
  | nil => rfl
  | cons next more =>
      rw [gather, if_neg]
      intro joins
      obtain ⟨goes, runs⟩ := Bool.and_eq_true_iff.mp joins
      exact of_decide_eq_true runs (stops goes next rfl)

theorem gather_join (goes : continues line = true) (runs : trim next ≠ endMarker) :
    gather name number line (next :: rest) =
      gather name (number + 1) (joinContinuation line (substitute name number next)) rest := by
  rw [gather, if_pos (by simp [goes, runs])]

/-- What is joined to a line, and that it is joined the same from copies. -/
theorem gather_alike (name : Text) (number : Nat) (line : Text) (rest : List Text) :
    ∃ joined, rest = joined ++ (gather name number line rest).rest ∧
      (gather name number line rest).number = number + joined.length ∧
      ∀ {count copies below}, Alike name count number joined copies →
        (continues (gather name number line rest).line = true → Stops below) →
        gather name (number + count) line (copies ++ below) =
          ⟨(gather name number line rest).line, (gather name number line rest).number + count,
            below⟩ := by
  induction rest generalizing number line with
  | nil =>
      refine ⟨[], rfl, rfl, fun alike stops => ?_⟩
      cases alike
      exact gather_left stops
  | cons next rest ih =>
      by_cases joins : continues line = true ∧ trim next ≠ endMarker
      · rw [gather_join joins.1 joins.2]
        obtain ⟨joined, split, total, onward⟩ :=
          ih (number + 1) (joinContinuation line (substitute name number next))
        refine ⟨next :: joined, congrArg (next :: ·) split, ?_, fun alike stops => ?_⟩
        · rw [total, List.length_cons]
          omega
        · cases alike with
          | cons same _ ends further =>
              have again := onward further stops
              rw [List.cons_append, gather_join joins.1 (fun marker => joins.2 (ends.mp marker)),
                same, ← again, Nat.add_right_comm]
      · have left : continues line = true → Stops (next :: rest) := by
          intro goes other first
          cases first
          exact Decidable.of_not_not fun runs => joins ⟨goes, runs⟩
        rw [gather_left left]
        refine ⟨[], rfl, rfl, fun alike stops => ?_⟩
        cases alike
        exact gather_left stops

/-- The physical lines of a logical line, and that it is the same from copies of them, whatever
stands behind those, as long as it is left where it was. -/
theorem logicalLine_alike (name : Text) (number : Nat) (first : Text) (rest : List Text) :
    ∃ joined, rest = joined ++ (logicalLine name number first rest).rest ∧
      (logicalLine name number first rest).number = number + joined.length + 1 ∧
      ∀ {count copy copies below}, Alike name count number (first :: joined) (copy :: copies) →
        (continues first = true → continues (logicalLine name number first rest).line = true →
          Stops below) →
        logicalLine name (number + count) copy (copies ++ below) =
          ⟨(logicalLine name number first rest).line,
            (logicalLine name number first rest).number + count, below⟩ := by
  unfold logicalLine
  split
  · next goes =>
      obtain ⟨joined, split, total, onward⟩ :=
        gather_alike name (number + 1) (substitute name number first) rest
      refine ⟨joined, split, total.trans (by omega), fun alike stops => ?_⟩
      cases alike with
      | cons same still _ further =>
          rw [if_pos (still.trans goes), same, Nat.add_right_comm]
          exact onward further (stops goes)
  · next alone =>
      refine ⟨[], rfl, rfl, fun alike _ => ?_⟩
      cases alike with
      | cons same still _ further =>
          cases further
          rw [if_neg (by rwa [still]), same, Nat.add_right_comm]
          rfl

-- Where a line that goes on is left, the lines end or the end marker stands.
theorem logicalLine_left (goes : continues first = true)
    (left : continues (logicalLine name number first rest).line = true) :
    Stops (logicalLine name number first rest).rest := by
  unfold logicalLine at left ⊢
  rw [if_pos goes] at left ⊢
  exact gather_stops left

end LogicalLines

section Blocks

/-- The block that a logical line opens, unless nothing closes it. -/
def settleBlock (closes : Text → Bool) (item : List Text → Text → Item) (number : Nat)
    (logical : Gathered) : Taken :=
  match close? closes logical.rest with
  | none => ⟨.unterminated number (trim logical.line), logical.number, []⟩
  | some (content, closing, after) =>
      ⟨item content closing, logical.number + content.length + 1, after⟩

/-- The item that begins with a logical line, whose first line has the given number. -/
def settle (number : Nat) (logical : Gathered) : Option Taken :=
  match classify logical.line with
  | .finish => none
  | .blank => some ⟨.blank, logical.number, logical.rest⟩
  | .comment => some ⟨.comment logical.line, logical.number, logical.rest⟩
  | .code => some ⟨.code logical.line, logical.number, logical.rest⟩
  | .inclusion indent target =>
      some ⟨.inclusion number (trim logical.line) indent target, logical.number, logical.rest⟩
  | .literal head tag =>
      some (settleBlock (closesLiteral tag) (fun content closing =>
        .block (head ++ blockQuote) (content.map escapeBlockLine)
          (indentation closing ++ blockQuote)) number logical)
  | .blockString =>
      some (settleBlock closesBlockString (.block logical.line) number logical)

theorem take?_cons (name : Text) (number : Nat) (first : Text) (rest : List Text) :
    take? name number (first :: rest) = settle number (logicalLine name number first rest) := by
  simp only [take?, settle, settleBlock]
  cases classify (logicalLine name number first rest).line with
  | literal head tag =>
      dsimp only
      cases close? (closesLiteral tag) (logicalLine name number first rest).rest <;> rfl
  | blockString =>
      dsimp only
      cases close? closesBlockString (logicalLine name number first rest).rest <;> rfl
  | _ => rfl

theorem settle_eq_none_iff {logical : Gathered} :
    settle number logical = none ↔ classify logical.line = .finish := by
  unfold settle
  cases classify logical.line <;> simp

/-- An item of a logical line has these lines of a block, and is the same with any lines behind
them. -/
structure Spans (number : Nat) (logical : Gathered) (taken : Taken) (block : List Text) : Prop where
  split : logical.rest = block ++ taken.rest
  total : taken.item.Whole → taken.number = logical.number + block.length
  ends : taken.item.Whole ∨ taken.rest = []
  again : ∀ {below : List Text}, taken.item.Whole ∨ below = [] → ∀ count,
    settle (number + count) ⟨logical.line, logical.number + count, block ++ below⟩ =
      some ⟨taken.item.shifted count, taken.number + count, below⟩

variable {logical : Gathered} {taken : Taken}

theorem spans_alone {item : Item} (whole : item.Whole)
    (again : ∀ below count, settle (number + count) ⟨logical.line, logical.number + count, below⟩ =
      some ⟨item.shifted count, logical.number + count, below⟩) :
    Spans number logical ⟨item, logical.number, logical.rest⟩ [] where
  split := rfl
  total := fun _ => rfl
  ends := Or.inl whole
  again := fun {below} _ count => again below count

theorem spans_block {closes : Text → Bool} {item : List Text → Text → Item}
    (fixed : ∀ content closing count, (item content closing).shifted count = item content closing)
    (whole : ∀ content closing, (item content closing).Whole)
    (again : ∀ number next below, settle number ⟨logical.line, next, below⟩ =
      some (settleBlock closes item number ⟨logical.line, next, below⟩)) :
    ∃ block, Spans number logical (settleBlock closes item number logical) block := by
  cases found : close? closes logical.rest with
  | none =>
      have open_ (number next : Nat) : settleBlock closes item number ⟨logical.line, next, logical.rest⟩ =
          ⟨.unterminated number (trim logical.line), next, []⟩ := by
        simp only [settleBlock, found]
      have here := open_ number logical.number
      have never : ¬(Item.unterminated number (trim logical.line)).Whole :=
        fun whole => whole _ _ rfl
      rw [here]
      refine ⟨logical.rest, ?_, fun whole => absurd whole never, Or.inr rfl, fun last count => ?_⟩
      · rw [List.append_nil]
      · cases last.resolve_left never
        rw [List.append_nil, again, open_]
        rfl
  | some block =>
      obtain ⟨content, closing, after⟩ := block
      obtain ⟨split, inside, last⟩ := close?_eq_some_iff.mp found
      have here : settleBlock closes item number logical =
          ⟨item content closing, logical.number + content.length + 1, after⟩ := by
        simp only [settleBlock, found]
      rw [here]
      refine ⟨content ++ [closing], ?_, fun _ => ?_, Or.inl (whole _ _), fun {below} _ count => ?_⟩
      · rw [split, List.append_assoc, List.singleton_append]
      · rw [List.length_append, List.length_singleton, Nat.add_assoc]
      · have closed : close? closes (content ++ [closing] ++ below) =
            some (content, closing, below) :=
          close?_eq_some_iff.mpr ⟨by simp, inside, last⟩
        rw [again]
        simp only [settleBlock, closed, fixed]
        congr 2
        omega

theorem settle_spans (found : settle number logical = some taken) :
    ∃ block, Spans number logical taken block := by
  have kind (number next : Nat) (below : List Text) := settle.eq_def number ⟨logical.line, next, below⟩
  have here := settle.eq_def number logical
  rw [found] at here
  cases shape : classify logical.line with
  | finish =>
      rw [shape] at here
      exact absurd here (by simp)
  | literal head tag =>
      rw [shape] at here
      cases Option.some.inj here
      apply spans_block (fun _ _ _ => rfl) (fun _ _ _ _ same => by cases same)
      intro number next below
      rw [kind, shape]
  | blockString =>
      rw [shape] at here
      cases Option.some.inj here
      apply spans_block (fun _ _ _ => rfl) (fun _ _ _ _ same => by cases same)
      intro number next below
      rw [kind, shape]
  | _ =>
      rw [shape] at here
      cases Option.some.inj here
      refine ⟨[], spans_alone (fun _ _ same => by cases same) fun below count => ?_⟩
      rw [kind, shape]
      rfl

end Blocks

section Reading

variable {taken : Taken}

theorem take?_eq_none_iff : take? name number (first :: rest) = none ↔
    classify (logicalLine name number first rest).line = .finish := by
  rw [take?_cons, settle_eq_none_iff]

/-- The lines that are taken with an item, of its logical line and of its block, and that it is
taken from copies of them, whatever stands below. -/
theorem take?_alike (found : take? name number (first :: rest) = some taken) :
    ∃ joined block, rest = joined ++ (block ++ taken.rest) ∧
      (logicalLine name number first rest).rest = block ++ taken.rest ∧
      (taken.item.Whole → taken.number = number + (joined.length + 1 + block.length)) ∧
      (taken.item.Whole ∨ taken.rest = []) ∧
      ∀ {count copy copies below}, Alike name count number (first :: joined) (copy :: copies) →
        (continues first = true → continues (logicalLine name number first rest).line = true →
          Stops (block ++ below)) →
        (taken.item.Whole ∨ below = []) →
        take? name (number + count) (copy :: (copies ++ (block ++ below))) =
          some ⟨taken.item.shifted count, taken.number + count, below⟩ := by
  obtain ⟨joined, split, total, again⟩ := logicalLine_alike name number first rest
  obtain ⟨block, spans⟩ := settle_spans ((take?_cons name number first rest).symm.trans found)
  refine ⟨joined, block, ?_, spans.split, fun whole => ?_, spans.ends, fun alike stops last => ?_⟩
  · rw [← spans.split, ← split]
  · rw [spans.total whole, total]
    omega
  · rw [take?_cons, again alike stops, spans.again last]

/-- The lines that are taken with a whole item: the same item is taken from them before any other
lines, if these begin with the end marker where the lines behind the item did. -/
theorem take?_elsewhere (found : take? name number lines = some taken) (whole : taken.item.Whole) :
    ∃ used, lines = used ++ taken.rest ∧ taken.number = number + used.length ∧
      ∀ {below}, (Stops taken.rest → Stops below) →
        take? name number (used ++ below) = some ⟨taken.item, taken.number, below⟩ := by
  cases lines with
  | nil => exact absurd found (by simp [take?])
  | cons first rest =>
      obtain ⟨joined, block, split, left, total, _, again⟩ := take?_alike found
      refine ⟨first :: (joined ++ block), ?_, ?_, fun {below} marker => ?_⟩
      · rw [split, List.cons_append, List.append_assoc]
      · rw [total whole, List.length_cons, List.length_append]
        omega
      · have stops (goes : continues first = true)
            (stays : continues (logicalLine name number first rest).line = true) :
            Stops (block ++ below) := by
          have here := logicalLine_left goes stays
          rw [left] at here
          cases block with
          | nil => exact marker here
          | cons line more => exact here
        have same := again (alike_refl (first :: joined)) stops (Or.inl whole)
        rw [Item.shifted_zero] at same
        rw [List.cons_append, List.append_assoc]
        exact same

end Reading

end Brewery.Script
