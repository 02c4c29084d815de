import Brewery.Proofs.Script.Joining

/-!
The reader of a script counts the quotes of its lines. Where a line that ends a string begins no
other, and a line that begins one is no comment and is not continued, it is in no string when it
goes on from an item, so it comes to every line that begins one and takes the lines after it as a
block.
-/

namespace Brewery.Script

open Text

/-- A reader comes from some lines to others, taking one item after another. -/
inductive Comes (name : Text) : Nat → List Text → Nat → List Text → Prop where
  | here {number : Nat} {lines : List Text} : Comes name number lines number lines
  | on {number last : Nat} {lines final : List Text} {taken : Taken}
      (next : take? name number lines = some taken)
      (further : Comes name taken.number taken.rest last final) : Comes name number lines last final

/-- A line that closes a string opens no other, and one that opens a string is no comment and is
not continued. -/
structure Fits (inside : Bool) (line : Text) : Prop where
  closes : inside = true → closesBlockString line = true → turns line = true
  opens : inside = false → turns line = true → isComment line = false ∧ continues line = false

/-- Lines of which all but the last fit. -/
def Tidy : (inside : Bool) → List Text → Prop
  | inside, line :: next :: rest => Fits inside line ∧ Tidy (inside != turns line) (next :: rest)
  | _, _ => True

variable {name line first closing : Text} {number : Nat} {inside : Bool}
  {above below front back rest lines content after : List Text}

section Tidiness

theorem Tidy.cons (tidy : Tidy inside (line :: rest)) (more : rest ≠ []) :
    Fits inside line ∧ Tidy (inside != turns line) rest := by
  obtain ⟨next, rest, rfl⟩ := List.exists_cons_of_ne_nil more
  exact tidy

theorem Continued.cons (continued : Continued (line :: rest)) (more : rest ≠ []) :
    (turns line = true → Continuing line) ∧ Continued rest := by
  obtain ⟨next, rest, rfl⟩ := List.exists_cons_of_ne_nil more
  exact continued

theorem Tidy.drop (tidy : Tidy inside (front ++ back)) : Tidy (openAfter inside front) back := by
  induction front generalizing inside with
  | nil => exact tidy
  | cons line rest ih =>
      cases both : rest ++ back with
      | nil =>
          rw [(List.append_eq_nil_iff.mp both).2]
          trivial
      | cons next more =>
          have some : rest ++ back ≠ [] := by
            rw [both]
            exact List.cons_ne_nil next more
          exact ih (tidy.cons some).2

-- A line that opens a string is not continued, so the lines of a logical line before its last
-- open none.
theorem Tidy.outside (tidy : Tidy false (front ++ line :: (back ++ below)))
    (continued : Continued (front ++ line :: back)) : openAfter false front = false := by
  induction front with
  | nil => rfl
  | cons first rest ih =>
      obtain ⟨fits, further⟩ := tidy.cons (by simp)
      obtain ⟨goes, later⟩ := continued.cons (by simp)
      have even : turns first = false := by
        cases odd : turns first with
        | false => rfl
        | true =>
            obtain ⟨bare, alone⟩ := fits.opens rfl odd
            have again : continues first = true := continues_iff.mpr ⟨bare, goes odd⟩
            exact absurd (again.symm.trans alone) (by simp)
      rw [even] at further
      have onward := ih further later
      rwa [openAfter, List.foldl_cons, even]

theorem infix_of_turns (odd : turns line = true) : blockQuote <:+: line := by
  by_cases found : blockQuote <:+: line
  · exact found
  · have apart : ∀ later, later <:+ line ++ [] → ([] : Text).length < later.length →
        ¬blockQuote <+: later := by
      intro later suffix _ here
      rw [List.append_nil] at suffix
      exact found (here.isInfix.trans suffix.isInfix)
    have even := turns_apart apart
    rw [List.append_nil, odd, turns_nil] at even
    exact absurd even (by simp)

theorem closes_of_turns (odd : turns line = true) : closesBlockString line = true :=
  contains_iff_infix.mpr (infix_of_turns odd)

end Tidiness

section Walk

theorem classify_turned (odd : turns line = true) (bare : isComment line = false)
    (runs : classify line ≠ .finish) (free : ∀ head tag, classify line ≠ .literal head tag) :
    classify line = .blockString := by
  have shape := classified line
  have opens (closed : Closed line) : False := by
    rcases closed.opens with marked | ⟨_, even⟩
    · exact absurd (marked.symm.trans bare) (by simp)
    · exact even (of_decide_eq_true odd)
  generalize kind : classify line = result at shape
  cases shape with
  | finish => exact absurd kind runs
  | literal => exact absurd kind (free _ _)
  | blockString => rfl
  | inclusion closed | blank closed | comment closed | code closed => exact (opens closed).elim

theorem turns_of_classify (kind : classify line = .blockString) : turns line = true := by
  have shape := classified line
  rw [kind] at shape
  cases shape with
  | blockString _ _ _ odd => exact decide_eq_true odd

theorem take?_even (even : turns (logicalLine name number first rest).line = false)
    (runs : classify (logicalLine name number first rest).line ≠ .finish)
    (free : ∀ head tag, classify (logicalLine name number first rest).line ≠ .literal head tag) :
    ∃ taken, take? name number (first :: rest) = some taken ∧
      taken.rest = (logicalLine name number first rest).rest := by
  have shape := classified (logicalLine name number first rest).line
  simp only [take?]
  generalize classify (logicalLine name number first rest).line = kind at *
  cases shape with
  | finish => exact absurd rfl runs
  | literal => exact absurd rfl (free _ _)
  | blockString runs bare plain odd => exact absurd odd (of_decide_eq_false even)
  | inclusion | blank | comment | code => exact ⟨_, rfl, rfl⟩

/-- What a logical line is made of, among tidy lines: the lines before its last open no string, so
it opens one if its last line does, and then it is no comment. -/
theorem logicalLine_opens (number : Nat)
    (bland : ∀ line ∈ first :: rest, fileToken <:+: line → Bland name)
    (tidy : Tidy false (first :: rest)) :
    ∃ joined, rest = joined ++ (logicalLine name number first rest).rest ∧
      turns (logicalLine name number first rest).line = openAfter false (first :: joined) ∧
      (∀ front line back, first :: joined = front ++ line :: back → openAfter false front = false) ∧
      ((logicalLine name number first rest).rest ≠ [] →
        turns (logicalLine name number first rest).line = true →
        isComment (logicalLine name number first rest).line = false) := by
  obtain ⟨joined, shape, total, continued, marked⟩ := logicalLine_spans number bland
  have whole (front : List Text) (line : Text) (back : List Text)
      (split : first :: joined = front ++ line :: back) :
      first :: rest = front ++ line :: (back ++ (logicalLine name number first rest).rest) :=
    calc
      first :: rest = first :: joined ++ (logicalLine name number first rest).rest :=
        congrArg (first :: ·) shape
      _ = front ++ line :: (back ++ (logicalLine name number first rest).rest) := by
        rw [split, List.append_assoc, List.cons_append]
  have outside (front : List Text) (line : Text) (back : List Text)
      (split : first :: joined = front ++ line :: back) : openAfter false front = false := by
    rw [whole front line back split] at tidy
    rw [split] at continued
    exact tidy.outside continued
  refine ⟨joined, shape, total, outside, fun more odd => ?_⟩
  cases comment : isComment (logicalLine name number first rest).line with
  | false => rfl
  | true =>
      obtain ⟨front, last, split, own⟩ := marked comment
      rw [whole front last [] split] at tidy
      have closed := outside front last [] split
      have later := tidy.drop
      rw [closed] at later
      obtain ⟨fits, _⟩ := later.cons more
      rw [total, split, openAfter_append, closed] at odd
      exact absurd (own.symm.trans (fits.opens rfl (by simpa [openAfter] using odd)).1) (by simp)

theorem openAfter_unclosed (open_ : ∀ line ∈ lines, closesBlockString line = false) :
    openAfter inside lines = inside := by
  induction lines generalizing inside with
  | nil => rfl
  | cons line rest ih =>
      obtain ⟨here, later⟩ := List.forall_mem_cons.mp open_
      have even : turns line = false := by
        cases odd : turns line with
        | false => rfl
        | true => exact absurd ((closes_of_turns odd).symm.trans here) (by simp)
      rw [openAfter, List.foldl_cons, even, Bool.bne_false]
      exact ih later

-- A string that is open is closed before a line that does not stand in one.
theorem closed_before (open_ : ∀ line ∈ content, closesBlockString line = false)
    (outside : openAfter true above = false)
    (shape : above ++ first :: below = content ++ closing :: after) :
    ∃ beyond, above = content ++ closing :: beyond ∧ after = beyond ++ first :: below := by
  have short {lines : List Text} (inner : ∀ line ∈ lines, line ∈ content) :
      openAfter true lines = true :=
    openAfter_unclosed fun line member => open_ line (inner line member)
  rcases List.append_eq_append_iff.mp shape with ⟨more, rfl, _⟩ | ⟨more, rfl, tail⟩
  · rw [short fun line member => List.mem_append_left _ member] at outside
    exact absurd outside (by simp)
  · cases more with
    | nil =>
        rw [List.append_nil, short fun line member => member] at outside
        exact absurd outside (by simp)
    | cons next beyond =>
        obtain ⟨rfl, rfl⟩ := List.cons.inj tail
        exact ⟨beyond, rfl, rfl⟩

/-- A line that the reader has not come to opens a string: the lines above it and below it, and
what the reader makes of those that it comes to before. -/
structure Ahead (name : Text) (number : Nat) (lines above : List Text) (first : Text)
    (below : List Text) : Prop where
  shape : lines = above ++ first :: below
  more : below ≠ []
  bland : ∀ line ∈ lines, fileToken <:+: line → Bland name
  tidy : Tidy false lines
  outside : openAfter false above = false
  opens : turns first = true
  terminated : ∀ {last final taken}, Comes name number lines last final →
    take? name last final = some taken → ∀ line directive, taken.item ≠ .unterminated line directive
  free : ∀ {last line more}, Comes name number lines last (line :: more) →
    ∀ head tag, classify (logicalLine name last line more).line ≠ .literal head tag
  runs : ∀ {last line more}, Comes name number lines last (line :: more) →
    classify (logicalLine name last line more).line = .finish → more.length < below.length

theorem Ahead.pass {taken : Taken} {beyond : List Text}
    (ahead : Ahead name number lines above first below)
    (next : take? name number lines = some taken) (left : taken.rest = beyond ++ first :: below)
    (tidy : Tidy false taken.rest) (outside : openAfter false beyond = false) :
    Ahead name taken.number taken.rest beyond first below where
  shape := left
  more := ahead.more
  bland := by
    obtain ⟨line, rest, rfl, suffix⟩ := take?_suffix next
    exact fun line member => ahead.bland line (List.mem_cons_of_mem _ (suffix.subset member))
  tidy := tidy
  outside := outside
  opens := ahead.opens
  terminated := fun comes => ahead.terminated (.on next comes)
  free := fun comes => ahead.free (.on next comes)
  runs := fun comes => ahead.runs (.on next comes)

-- Lines that were taken before the line are taken with all of the strings that they open.
theorem Ahead.take {beyond joined : List Text}
    (ahead : Ahead name number (line :: rest) above first below)
    (split : rest = joined ++ (logicalLine name number line rest).rest)
    (total : turns (logicalLine name number line rest).line = openAfter false (line :: joined))
    (bare : (logicalLine name number line rest).rest ≠ [] →
      turns (logicalLine name number line rest).line = true →
      isComment (logicalLine name number line rest).line = false)
    (runs : classify (logicalLine name number line rest).line ≠ .finish)
    (front : above = line :: joined ++ beyond)
    (left : (logicalLine name number line rest).rest = beyond ++ first :: below) :
    ∃ taken farther, take? name number (line :: rest) = some taken ∧
      Ahead name taken.number taken.rest farther first below := by
  have free := ahead.free .here
  have outer : openAfter (turns (logicalLine name number line rest).line) beyond = false := by
    rw [total, ← openAfter_append, ← front]
    exact ahead.outside
  have later : Tidy (turns (logicalLine name number line rest).line)
      (logicalLine name number line rest).rest := by
    rw [total]
    apply Tidy.drop
    rw [List.cons_append, ← split]
    exact ahead.tidy
  cases odd : turns (logicalLine name number line rest).line with
  | false =>
      rw [odd] at outer later
      obtain ⟨taken, next, same⟩ := take?_even odd runs free
      exact ⟨taken, beyond, next, ahead.pass next (same.trans left) (same ▸ later) outer⟩
  | true =>
      rw [odd] at outer later
      have kind := classify_turned odd (bare (by rw [left]; simp) odd) runs free
      cases block : close? closesBlockString (logicalLine name number line rest).rest with
      | none =>
          have next : take? name number (line :: rest) = some ⟨.unterminated number
              (trim (logicalLine name number line rest).line),
              (logicalLine name number line rest).number, []⟩ := by
            simp only [take?, kind, block]
          exact absurd rfl (ahead.terminated .here next _ _)
      | some found =>
          obtain ⟨content, closing, after⟩ := found
          obtain ⟨shape, open_, closed⟩ := close?_eq_some_iff.mp block
          obtain ⟨farther, rfl, rfl⟩ := closed_before open_ outer (left.symm.trans shape)
          have next : take? name number (line :: rest) = some ⟨.block
              (logicalLine name number line rest).line content closing,
              (logicalLine name number line rest).number + content.length + 1,
              farther ++ first :: below⟩ := by
            simp only [take?, kind, block]
          rw [shape] at later
          have still := later.drop
          rw [openAfter_unclosed open_] at still
          obtain ⟨fits, further⟩ := still.cons (by simp)
          rw [fits.closes rfl closed] at further
          rw [openAfter_append, openAfter_unclosed open_, openAfter, List.foldl_cons,
            fits.closes rfl closed] at outer
          exact ⟨_, farther, next, ahead.pass next rfl further outer⟩

theorem Ahead.next (ahead : Ahead name number (line :: rest) above first below) :
    ((logicalLine name number line rest).rest = below ∧
      classify (logicalLine name number line rest).line = .blockString) ∨
    ∃ taken farther, take? name number (line :: rest) = some taken ∧
      Ahead name taken.number taken.rest farther first below := by
  obtain ⟨joined, split, total, outside, bare⟩ := logicalLine_opens number
    ahead.bland ahead.tidy
  have whole : line :: joined ++ (logicalLine name number line rest).rest = above ++ first :: below := by
    rw [List.cons_append, ← split]
    exact ahead.shape
  have runs : classify (logicalLine name number line rest).line ≠ .finish := by
    intro ends
    have shorter := ahead.runs .here ends
    have length := congrArg List.length ahead.shape
    simp only [List.length_cons, List.length_append] at length
    omega
  have opened : openAfter false (above ++ [first]) = true := by
    rw [openAfter_append, ahead.outside, openAfter, List.foldl_cons, ahead.opens]
    rfl
  rcases List.append_eq_append_iff.mp whole with ⟨beyond, front, left⟩ | ⟨more, front, left⟩
  · exact Or.inr (ahead.take split total bare runs front left)
  cases more with
  | nil =>
      have front : above = line :: joined ++ [] := by rw [front, List.append_nil, List.append_nil]
      exact Or.inr (ahead.take split total bare runs front left.symm)
  | cons next more =>
      obtain ⟨rfl, tail⟩ := List.cons.inj left
      cases more with
      | nil =>
          have left : (logicalLine name number line rest).rest = below := tail.symm
          have odd : turns (logicalLine name number line rest).line = true := by
            rw [total, front, opened]
          have bare := bare (by rw [left]; exact ahead.more) odd
          exact Or.inl ⟨left, classify_turned odd bare runs (ahead.free .here)⟩
      | cons next more =>
          have closed := outside (above ++ [first]) next more (by rw [front]; simp)
          exact absurd (opened.symm.trans closed) (by simp)

/-- The reader comes to the line that opens a string, and takes the string as a block. -/
theorem Ahead.comes (ahead : Ahead name number lines above first below) :
    ∃ last line more, Comes name number lines last (line :: more) ∧
      (logicalLine name last line more).rest = below ∧
      classify (logicalLine name last line more).line = .blockString := by
  induction size : lines.length using Nat.strongRecOn generalizing number lines above with
  | ind size ih =>
      cases lines with
      | nil => exact absurd ahead.shape (by simp)
      | cons line rest =>
          rcases ahead.next with ⟨left, kind⟩ | ⟨taken, beyond, next, later⟩
          · exact ⟨number, line, rest, .here, left, kind⟩
          · obtain ⟨last, found, more, comes, block⟩ :=
              ih _ (size ▸ take?_shorter next) later rfl
            exact ⟨last, found, more, .on next comes, block⟩

end Walk

end Brewery.Script
