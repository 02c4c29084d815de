import Brewery.Coffee.Cursor
import Brewery.Proofs.Coffee.Content
import Brewery.Proofs.Coffee.Delimiters

/-!
The cursor always comes to an end. Each turn over code moves it forward, though a string that is read
on the way may carry it behind the end of the text; so what is left of the text falls, and with it
the calls between code and strings end. What the cursor reads is what the lexer reads, which keeps a
stack of what is open in the place of those calls.
-/

namespace Brewery.Coffee

variable {text rest : Text} {frames outer : List Frame} {c : Char} {position : Nat} {cursor : Cursor}

theorem drop_of_getElem? (here : text[position]? = some c) :
    text.drop position = c :: text.drop (position + 1) := by
  obtain ⟨inside, rfl⟩ := List.getElem?_eq_some_iff.mp here
  exact List.drop_eq_getElem_cons inside

theorem drop_of_none (none : text[position]? = none) : text.drop position = [] :=
  List.drop_eq_nil_of_le (List.getElem?_eq_none_iff.mp none)

section Seeking

/-- The rest of a text behind all positions at which a search goes on. -/
def passOver (goes : Text → Bool) : Text → Text
  | [] => []
  | c :: rest => if goes (c :: rest) then passOver goes rest else c :: rest

theorem passOver_dropWhile (p : Char → Bool) (text : Text) :
    passOver (fun rest => rest.head?.any p) text = text.dropWhile p := by
  induction text with
  | nil => rfl
  | cons c rest ih => simp only [passOver, List.head?_cons, Option.any_some, ih, List.dropWhile_cons]

/-- A search that does not go on at the end of the text comes to an end in it. -/
theorem seek_eq {goes : Nat → Bool} {further : Text → Bool} (ends : further [] = false)
    (same : ∀ place, goes place = further (text.drop place)) (cursor : Cursor) :
    ∃ last, cursor.seek goes = pure (cursor.goTo last) ∧ cursor.position ≤ last ∧
      last ≤ max cursor.position text.length ∧
      text.drop last = passOver further (text.drop cursor.position) := by
  induction left : text.length - cursor.position generalizing cursor with
  | zero =>
      have past : text.drop cursor.position = [] := List.drop_eq_nil_of_le (by omega)
      refine ⟨cursor.position, ?_, Nat.le_refl _, Nat.le_max_left _ _, ?_⟩
      · rw [Cursor.seek, same, past, ends]
        rfl
      · rw [past]
        rfl
  | succ count ih =>
      have shape : text.drop cursor.position =
          text[cursor.position] :: text.drop (cursor.position + 1) :=
        List.drop_eq_getElem_cons (by omega)
      rw [Cursor.seek, same]
      cases goes : further (text.drop cursor.position) with
      | true =>
          obtain ⟨last, found, onward, within, rest⟩ := ih (cursor.ahead 1)
            (show text.length - (cursor.position + 1) = count by omega)
          simp only [Cursor.ahead, Cursor.goTo] at onward within rest
          refine ⟨last, by rw [if_pos rfl, found]; rfl, by omega, by omega, ?_⟩
          rw [shape] at goes ⊢
          rw [passOver, if_pos goes, rest]
      | false =>
          refine ⟨cursor.position, rfl, Nat.le_refl _, Nat.le_max_left _ _, ?_⟩
          rw [shape] at goes ⊢
          rw [passOver, if_neg (by rw [goes]; exact Bool.false_ne_true)]

/-- A search that goes on where it begins moves on, and not out of the text. -/
theorem seek_past {goes : Nat → Bool} {further : Text → Bool} (ends : further [] = false)
    (same : ∀ place, goes place = further (text.drop place))
    (begins : further (text.drop cursor.position) = true) :
    ∃ last, cursor.seek goes = pure (cursor.goTo last) ∧ cursor.position < last ∧
      last ≤ text.length ∧ text.drop last = passOver further (text.drop cursor.position) := by
  have inside : cursor.position < text.length := by
    refine Nat.lt_of_not_le fun past => ?_
    rw [List.drop_eq_nil_of_le past, ends] at begins
    exact absurd begins Bool.false_ne_true
  have shape : text.drop cursor.position =
      text[cursor.position] :: text.drop (cursor.position + 1) :=
    List.drop_eq_getElem_cons inside
  obtain ⟨last, found, onward, within, behind⟩ := seek_eq ends same (cursor.ahead 1)
  simp only [Cursor.ahead, Cursor.goTo] at onward within behind
  refine ⟨last, ?_, by omega, by omega, ?_⟩
  · rw [Cursor.seek, same, begins, if_pos rfl, found]
    rfl
  · rw [shape] at begins ⊢
    rw [behind, passOver, if_pos begins]

theorem slice_eq {first last : Nat} {p : Char → Bool} (onward : first ≤ last)
    (within : last ≤ text.length) (behind : text.drop last = (text.drop first).dropWhile p) :
    slice text first last = pure ((text.drop first).takeWhile p) := by
  rw [slice, if_pos ⟨onward, within⟩]
  have parts : (text.drop first).take (last - first) ++ (text.drop first).dropWhile p =
      (text.drop first).takeWhile p ++ (text.drop first).dropWhile p := by
    rw [List.takeWhile_append_dropWhile, ← behind]
    have rest : text.drop last = (text.drop first).drop (last - first) := by
      rw [List.drop_drop]
      congr 1
      omega
    rw [rest, List.take_append_drop]
  rw [List.append_cancel_right parts]

theorem stands_eq (text : Text) (position : Nat) (pattern : Text) :
    stands text position pattern = pattern.isPrefixOf (text.drop position) := by
  have from_ (skipped : Nat) : ((pattern.zipIdx skipped).all fun entry =>
      text[position + entry.2]? = some entry.1) =
      pattern.isPrefixOf (text.drop (position + skipped)) := by
    induction pattern generalizing skipped with
    | nil => rfl
    | cons first more ih =>
        rw [List.zipIdx_cons, List.all_cons, ih]
        cases here : text[position + skipped]? with
        | none => simp [drop_of_none here]
        | some c =>
            simp only [drop_of_getElem? here, Option.some.injEq, List.isPrefixOf]
            exact congrArg (· && _) (decide_eq_decide.mpr eq_comm)
  exact from_ 0

end Seeking

/-- A way of the cursor from where it reads with some frames open to where it reads with others: the
tokens that the lexer finds between are pushed, and the cursor is never further than one character
behind the text. -/
structure Reached (text : Text) (frames : List Frame) (before : Cursor) (last : List Frame)
    (after : Cursor) : Prop where
  onward : before.position ≤ after.position
  within : after.position ≤ max before.position (text.length + 1)
  spoken : ∃ tokens, after.tokens = before.tokens ++ tokens ∧
    lex frames (text.drop before.position) = tokens ++ lex last (text.drop after.position)

namespace Reached

variable {middle last : List Frame} {before between after : Cursor}

theorem trans (first : Reached text frames before middle between)
    (second : Reached text middle between last after) : Reached text frames before last after where
  onward := Nat.le_trans first.onward second.onward
  within := by
    have one := first.within
    have two := second.within
    omega
  spoken := by
    obtain ⟨tokens, pushed, read⟩ := first.spoken
    obtain ⟨more, further, onward⟩ := second.spoken
    refine ⟨tokens ++ more, ?_, ?_⟩
    · rw [further, pushed, List.append_assoc]
    · rw [read, onward, List.append_assoc]

/-- One step of the lexer, as the cursor takes it. -/
theorem step {spoken : List Token} (here : text[before.position]? = some c)
    (onward : before.position ≤ after.position) (within : after.position ≤ text.length + 1)
    (taken : Coffee.step frames c (text.drop (before.position + 1)) =
      ⟨spoken, last, text.drop after.position⟩)
    (pushed : after.tokens = before.tokens ++ spoken) : Reached text frames before last after where
  onward := onward
  within := Nat.le_trans within (Nat.le_max_right _ _)
  spoken := by
    refine ⟨spoken, pushed, ?_⟩
    rw [drop_of_getElem? here, lex, taken]

end Reached

namespace Cursor

section Leaves

/-- A search over characters, from one at which it goes on. -/
theorem seek_characters {p : Char → Bool} (here : text[cursor.position]? = some c)
    (goes : p c = true) :
    ∃ last, cursor.seek (fun place => text[place]?.any p) = pure (cursor.goTo last) ∧
      cursor.position < last ∧ last ≤ text.length ∧
      text.drop last = (text.drop cursor.position).dropWhile p := by
  have begins : (text.drop cursor.position).head?.any p = true := by
    rw [List.head?_drop, here, Option.any_some, goes]
  rw [← passOver_dropWhile]
  exact seek_past rfl (fun place => by rw [List.head?_drop]) begins

theorem word_reached (here : text[cursor.position]? = some c) (start : isWordStart c = true)
    (taken : step frames c (text.drop (cursor.position + 1)) =
      ⟨[.word (c :: (text.drop (cursor.position + 1)).takeWhile isWordCharacter)], frames,
        (text.drop (cursor.position + 1)).dropWhile isWordCharacter⟩) :
    ∃ after, word text cursor = pure after ∧ cursor.position < after.position ∧
      Reached text frames cursor frames after := by
  have goes : isWordCharacter c = true := by
    simp only [isWordStart, isWordCharacter, Text.isAlphanumeric, Bool.or_eq_true] at start ⊢
    exact start.imp_left (Or.imp_left Or.inl)
  obtain ⟨last, found, onward, within, behind⟩ := seek_characters here goes
  have name := slice_eq (Nat.le_of_lt onward) within behind
  refine ⟨(cursor.goTo last).push (.word ((text.drop cursor.position).takeWhile isWordCharacter)),
    ?_, onward, ?_⟩
  · rw [word, found, pure_bind, show (cursor.goTo last).position = last from rfl, name]
    rfl
  · refine .step here (Nat.le_of_lt onward) (Nat.le_succ_of_le within) ?_ rfl
    rw [drop_of_getElem? here] at behind ⊢
    rw [taken, List.takeWhile_cons_of_pos goes, ← List.dropWhile_cons_of_pos goes, ← behind]
    rfl

/-- A character of a number, or a point before a digit. -/
def counts (text : Text) : Bool :=
  text.head?.any fun c => c.isAlphanum || c = '_' || (c = '.' && text[1]?.any Char.isDigit)

theorem passOver_counts (text : Text) : passOver counts text = afterNumber text := by
  induction text using afterNumber.induct with
  | case1 => rfl
  | case2 next rest digit ih => simp_all [passOver, counts, afterNumber]
  | case3 next rest point => simp_all [passOver, counts, afterNumber]
  | case4 c rest alone further ih =>
      have bare : c ≠ '.' := by
        rintro rfl
        exact absurd further (by decide)
      have goes : counts (c :: rest) = true := by
        rw [counts, List.head?_cons, Option.any_some, further, Bool.true_or]
      rw [afterNumber_cons bare, if_pos further, passOver, if_pos goes, ih]
  | case5 c rest alone ends =>
      by_cases point : c = '.'
      · cases rest with
        | nil => simp [point, passOver, counts, afterNumber]
        | cons next more => exact absurd rfl (alone next more point)
      · have stays : counts (c :: rest) = false := by simpa [counts, point] using ends
        rw [afterNumber_cons point, if_neg ends, passOver, if_neg (by simp [stays])]

theorem number_reached (here : text[cursor.position]? = some c) (digit : c.isDigit = true)
    (taken : step frames c (text.drop (cursor.position + 1)) =
      ⟨[.literal], frames, afterNumber (text.drop (cursor.position + 1))⟩) :
    ∃ after, number text cursor = pure after ∧ cursor.position < after.position ∧
      Reached text frames cursor frames after := by
  have goes (rest : Text) : counts (c :: rest) = true := by
    simp [counts, Char.isAlphanum, digit]
  have same (place : Nat) : (text[place]?.any fun c =>
      c.isAlphanum || c = '_' || (c = '.' && text[place + 1]?.any Char.isDigit)) =
        counts (text.drop place) := by
    simp [counts, List.head?_drop]
  have begins : counts (text.drop cursor.position) = true := by rw [drop_of_getElem? here, goes]
  obtain ⟨last, found, onward, within, behind⟩ := seek_past rfl same begins
  refine ⟨(cursor.goTo last).push .literal, ?_, onward, ?_⟩
  · rw [number, found]
    rfl
  · refine .step here (Nat.le_of_lt onward) (Nat.le_succ_of_le within) ?_ rfl
    rw [drop_of_getElem? here, passOver, if_pos (goes _), passOver_counts] at behind
    rw [taken, ← behind]
    rfl

/-- A place in a block comment that does not end it. -/
def remarks (text : Text) : Bool := text.head?.isSome && !commentMark.isPrefixOf text

theorem lex_comment (outer : List Frame) (text : Text) :
    lex (.comment :: outer) text = lex outer ((passOver remarks text).drop 3) := by
  induction text with
  | nil => simp [lex, passOver]
  | cons c rest ih =>
      rw [lex, passOver]
      cases marked : commentMark.isPrefixOf (c :: rest) with
      | true => simp [step, marked, remarks]
      | false => simp [step, marked, remarks, ih]

theorem comment_reached (here : text[cursor.position]? = some '#')
    (taken : step frames '#' (text.drop (cursor.position + 1)) =
      codeStep frames '#' (text.drop (cursor.position + 1))) :
    ∃ after, comment text cursor = pure after ∧ cursor.position < after.position ∧
      Reached text frames cursor frames after := by
  have shape := drop_of_getElem? here
  have mark : stands text cursor.position commentMark =
      ['#', '#'].isPrefixOf (text.drop (cursor.position + 1)) := by
    rw [stands_eq, shape]
    rfl
  have fourth : text[cursor.position + 3]? = (text.drop (cursor.position + 1))[2]? := by
    rw [List.getElem?_drop]
  rw [codeStep_hash] at taken
  rw [comment, mark, fourth]
  split at taken
  · next block =>
      rw [if_pos block]
      rw [List.drop_drop] at taken
      have long : 2 ≤ (text.drop (cursor.position + 1)).length :=
        (List.isPrefixOf_iff_prefix.mp (Bool.and_eq_true_iff.mp block).1).length_le
      rw [List.length_drop] at long
      have same (place : Nat) : (text[place]?.isSome && !stands text place commentMark) =
          remarks (text.drop place) := by
        rw [remarks, stands_eq, List.head?_drop]
      obtain ⟨last, found, onward, within, behind⟩ := seek_eq rfl same (cursor.ahead 3)
      simp only [ahead, goTo] at onward within behind
      have opened : Reached text frames cursor (.comment :: frames) (cursor.ahead 3) := by
        refine .step here (Nat.le_add_right _ _) ?_ taken (List.append_nil _).symm
        simp only [ahead, goTo]
        omega
      have closed : Reached text (.comment :: frames) (cursor.ahead 3) frames
          (cursor.goTo (min (last + 3) text.length)) := by
        refine ⟨?_, ?_, [], (List.append_nil _).symm, ?_⟩
        · simp only [ahead, goTo]
          omega
        · simp only [ahead, goTo]
          omega
        · rw [lex_comment, List.nil_append]
          congr 1
          simp only [ahead, goTo]
          rw [← behind, List.drop_drop, List.drop_eq_drop_iff]
          omega
      refine ⟨cursor.goTo (min (last + 3) text.length), by rw [found]; rfl, ?_, opened.trans closed⟩
      simp only [goTo]
      omega
  · next line =>
      rw [if_neg line]
      obtain ⟨last, found, onward, within, behind⟩ :=
        seek_characters (p := (· ≠ '\n')) here (by decide)
      refine ⟨cursor.goTo last, found, onward, ?_⟩
      rw [shape, List.dropWhile_cons_of_pos (by decide)] at behind
      rw [← behind] at taken
      exact .step here (Nat.le_of_lt onward) (Nat.le_succ_of_le within) taken (by simp [goTo])

theorem operator_reached (here : text[cursor.position]? = some c)
    (taken : step frames c (text.drop (cursor.position + 1)) =
      match operators.find? fun operator =>
          operator.isPrefixOf (c :: text.drop (cursor.position + 1)) with
      | some operator =>
          ⟨[.operator operator], frames,
            (text.drop (cursor.position + 1)).drop (operator.length - 1)⟩
      | none => ⟨[.sign c], frames, text.drop (cursor.position + 1)⟩) :
    cursor.position < (operator text cursor).position ∧
      Reached text frames cursor frames (operator text cursor) := by
  have searched : operators.find? (stands text cursor.position) =
      operators.find? fun operator => operator.isPrefixOf (c :: text.drop (cursor.position + 1)) := by
    rw [← drop_of_getElem? here]
    congr 1
    funext pattern
    exact stands_eq text cursor.position pattern
  rw [← searched] at taken
  rw [operator]
  cases found : operators.find? (stands text cursor.position) with
  | none =>
      rw [found] at taken
      have inside := (List.getElem?_eq_some_iff.mp here).1
      simp only [here]
      refine ⟨Nat.lt_succ_self _, .step here (Nat.le_succ _) ?_ taken rfl⟩
      exact Nat.le_succ_of_le inside
  | some spelling =>
      rw [found] at taken
      have inside : spelling.isPrefixOf (text.drop cursor.position) = true := by
        rw [← stands_eq]
        exact List.find?_some found
      have fits := (List.isPrefixOf_iff_prefix.mp inside).length_le
      rw [List.length_drop] at fits
      have long : 0 < spelling.length := by
        have all : ∀ operator ∈ operators, 0 < operator.length := by decide
        exact all spelling (List.mem_of_find?_eq_some found)
      have within : cursor.position + spelling.length ≤ text.length + 1 := by
        omega
      have behind : cursor.position + 1 + (spelling.length - 1) =
          cursor.position + spelling.length := by
        omega
      dsimp only at taken ⊢
      rw [List.drop_drop, behind] at taken
      exact ⟨Nat.lt_add_of_pos_right long, .step here (Nat.le_add_right _ _) within taken rfl⟩

end Leaves

section Turns

/-- What is open where code is read: an interpolation at a depth of braces, or nothing. -/
def opened (inside : Bool) (outer : List Frame) (depth : Nat) : List Frame :=
  if inside then .interpolation depth :: outer else []

theorem opened_readsCode (inside : Bool) (outer : List Frame) (depth : Nat) :
    ReadsCode (opened inside outer depth) := by
  cases inside <;> trivial

/-- A turn as it has to be: it moves on, and reads what the lexer reads. -/
structure Turned (text : Text) (inside : Bool) (outer : List Frame) (depth : Nat) (before : Cursor)
    (turned : Turn) : Prop where
  onward : before.position < turned.cursor.position
  reached : Reached text (opened inside outer depth) before
    (turned.depth?.elim outer (opened inside outer)) turned.cursor
  ends : turned.depth? = none → inside = true

/-- The strings that begin behind a cursor come to an end. -/
def StringsEnd (text : Text) (position : Nat) : Prop :=
  ∀ (quote : Char) (triple : Bool) (outer : List Frame) (cursor : Cursor),
    position < cursor.position → ∃ after, string text quote triple cursor = pure after ∧
      Reached text (.quoted quote triple :: outer) cursor outer after

variable {inside : Bool} {depth : Nat}

theorem Turned.stays {after : Cursor} (onward : cursor.position < after.position)
    (reached : Reached text (opened inside outer depth) cursor (opened inside outer depth) after) :
    Turned text inside outer depth cursor ⟨some depth, after⟩ :=
  ⟨onward, reached, by simp⟩

theorem isTriple_eq (text : Text) (quote : Char) (cursor : Cursor) :
    isTriple text quote cursor = [quote, quote].isPrefixOf (text.drop (cursor.position + 1)) := by
  unfold isTriple
  cases first : text[cursor.position + 1]? with
  | none => simp [drop_of_none first]
  | some c =>
      rw [drop_of_getElem? first]
      cases second : text[cursor.position + 2]? with
      | none => simp [drop_of_none second, List.isPrefixOf]
      | some d =>
          rw [drop_of_getElem? second, Bool.eq_iff_iff]
          simp [List.isPrefixOf, eq_comm (a := quote)]

/-- The lexer reads a brace as a sign where it reads code that no brace closes. -/
theorem codeStep_brace (frames : List Frame) {brace : Char} (is : brace = '\x7b' ∨ brace = '\x7d')
    (rest : Text) : codeStep frames brace rest = ⟨[.sign brace], frames, rest⟩ := by
  have bare : ∀ operator ∈ operators, operator ≠ [] ∧ '\x7b' ∉ operator ∧ '\x7d' ∉ operator := by
    decide
  have none : operators.find? (fun operator => operator.isPrefixOf (brace :: rest)) = none := by
    rw [List.find?_eq_none]
    intro operator member
    obtain ⟨some, first, last⟩ := bare operator member
    rw [Text.isPrefixOf_false some (by rcases is with rfl | rfl <;> assumption)]
    exact Bool.false_ne_true
  have plain : brace ≠ '\n' ∧ Text.isBlank brace = false ∧ brace ≠ '#' ∧ isQuote brace = false ∧
      isWordStart brace = false ∧ brace.isDigit = false := by
    rcases is with rfl | rfl <;> decide
  simp only [codeStep, plain, none, if_false, Bool.false_eq_true]

theorem turn_brace (here : text[cursor.position]? = some c) (is : c = '\x7b' ∨ c = '\x7d')
    (inside : Bool) (outer : List Frame) (depth : Nat) :
    ∃ turned, turn text inside depth c cursor = pure turned ∧
      Turned text inside outer depth cursor turned := by
  have inText := (List.getElem?_eq_some_iff.mp here).1
  have plain : c ≠ '\n' ∧ Text.isBlank c = false ∧ c ≠ '#' ∧ isQuote c = false ∧
      isWordStart c = false ∧ c.isDigit = false := by
    rcases is with rfl | rfl <;> decide
  have sign := codeStep_brace [] is (text.drop (cursor.position + 1))
  rw [turn]
  simp only [plain, if_false, Bool.false_eq_true]
  rcases is with rfl | rfl
  · rw [if_pos rfl]
    refine ⟨_, rfl, Nat.lt_succ_self _, ?_, by simp⟩
    refine .step here (Nat.le_succ _) (Nat.le_succ_of_le inText) ?_ rfl
    cases inside with
    | true => simp [opened, step, ahead, goTo, push]
    | false => exact sign
  · rw [if_neg (by decide), if_pos rfl]
    split
    · next last =>
        obtain ⟨rfl, rfl⟩ : inside = true ∧ depth = 0 := by simpa using last
        refine ⟨_, rfl, Nat.lt_succ_self _, ?_, fun _ => rfl⟩
        refine .step here (Nat.le_succ _) (Nat.le_succ_of_le inText) ?_ (List.append_nil _).symm
        simp [opened, step, ahead, goTo]
    · next more =>
        refine ⟨_, rfl, Nat.lt_succ_self _, ?_, by simp⟩
        refine .step here (Nat.le_succ _) (Nat.le_succ_of_le inText) ?_ rfl
        cases inside with
        | true =>
            cases depth with
            | zero => exact absurd rfl more
            | succ depth => simp [opened, step, ahead, goTo, push]
        | false => exact sign

/-- The opening quotes of a string and the string behind them. -/
theorem turn_string (strings : StringsEnd text cursor.position)
    (here : text[cursor.position]? = some c) (mark : isQuote c = true)
    (taken : step frames c (text.drop (cursor.position + 1)) =
      codeStep frames c (text.drop (cursor.position + 1))) :
    ∃ after, string text c (isTriple text c cursor)
        (cursor.ahead (if isTriple text c cursor then 3 else 1)) = pure after ∧
      cursor.position < after.position ∧ Reached text frames cursor frames after := by
  have inText := (List.getElem?_eq_some_iff.mp here).1
  have begun : Reached text frames cursor (.quoted c (isTriple text c cursor) :: frames)
      (cursor.ahead (if isTriple text c cursor then 3 else 1)) := by
    rw [codeStep_quote mark, ← isTriple_eq] at taken
    cases triple : isTriple text c cursor with
    | true =>
        rw [isTriple_eq] at triple
        have long := (List.isPrefixOf_iff_prefix.mp triple).length_le
        simp only [List.length_drop, List.length_cons, List.length_nil] at long
        rw [isTriple_eq, triple, if_pos rfl, List.drop_drop] at taken
        exact .step here (Nat.le_add_right _ _) (by simp only [ahead, goTo, if_true]; omega) taken
          (List.append_nil _).symm
    | false =>
        rw [triple, if_neg Bool.false_ne_true] at taken
        exact .step here (Nat.le_add_right _ _) (Nat.le_succ_of_le inText) taken
          (List.append_nil _).symm
  have past : cursor.position < (cursor.ahead (if isTriple text c cursor then 3 else 1)).position := by
    simp only [ahead, goTo]
    split <;> omega
  obtain ⟨after, read, reached⟩ := strings c (isTriple text c cursor) frames _ past
  exact ⟨after, read, Nat.lt_of_lt_of_le past reached.onward, begun.trans reached⟩

theorem turn_total (strings : StringsEnd text cursor.position)
    (here : text[cursor.position]? = some c) (inside : Bool) (outer : List Frame) (depth : Nat) :
    ∃ turned, turn text inside depth c cursor = pure turned ∧
      Turned text inside outer depth cursor turned := by
  by_cases braced : c = '\x7b' ∨ c = '\x7d'
  · exact turn_brace here braced inside outer depth
  obtain ⟨noOpening, noClosing⟩ := not_or.mp braced
  have inText := (List.getElem?_eq_some_iff.mp here).1
  have coded : step (opened inside outer depth) c (text.drop (cursor.position + 1)) =
      codeStep (opened inside outer depth) c (text.drop (cursor.position + 1)) :=
    step_code (opened_readsCode inside outer depth) noOpening noClosing
  have one {token : List Token} (after : Cursor) (next : after.position = cursor.position + 1)
      (pushed : after.tokens = cursor.tokens ++ token)
      (taken : codeStep (opened inside outer depth) c (text.drop (cursor.position + 1)) =
        ⟨token, opened inside outer depth, text.drop (cursor.position + 1)⟩) :
      Turned text inside outer depth cursor ⟨some depth, after⟩ := by
    refine .stays (by omega) (.step here (by omega) (by omega) ?_ pushed)
    rw [coded, taken, next]
  rw [turn]
  by_cases newline : c = '\n'
  · rw [if_pos newline]
    exact ⟨_, rfl, one _ rfl rfl (by simp [codeStep, newline])⟩
  rw [if_neg newline]
  by_cases blank : Text.isBlank c = true
  · rw [if_pos blank]
    exact ⟨_, rfl, one _ rfl (List.append_nil _).symm (by simp [codeStep, newline, blank])⟩
  rw [if_neg blank]
  by_cases hash : c = '#'
  · rw [if_pos hash]
    subst hash
    obtain ⟨after, read, onward, reached⟩ := comment_reached here coded
    exact ⟨_, by rw [read]; rfl, .stays onward reached⟩
  rw [if_neg hash]
  by_cases quote : isQuote c = true
  · rw [if_pos quote]
    obtain ⟨after, read, onward, reached⟩ := turn_string strings here quote coded
    exact ⟨_, by dsimp only; rw [read]; rfl, .stays onward reached⟩
  rw [if_neg quote]
  by_cases start : isWordStart c = true
  · rw [if_pos start]
    rw [codeStep_word start] at coded
    obtain ⟨after, read, onward, reached⟩ := word_reached here start coded
    exact ⟨_, by rw [read]; rfl, .stays onward reached⟩
  rw [if_neg start]
  by_cases digit : c.isDigit = true
  · rw [if_pos digit]
    rw [codeStep, if_neg newline, if_neg blank, if_neg hash, if_neg quote, if_neg start,
      if_pos digit] at coded
    obtain ⟨after, read, onward, reached⟩ := number_reached here digit coded
    exact ⟨_, by rw [read]; rfl, .stays onward reached⟩
  rw [if_neg digit, if_neg noOpening, if_neg noClosing]
  rw [codeStep, if_neg newline, if_neg blank, if_neg hash, if_neg quote, if_neg start,
    if_neg digit] at coded
  obtain ⟨onward, reached⟩ := operator_reached here coded
  exact ⟨_, rfl, .stays onward reached⟩

end Turns

section Ending

variable {inside triple : Bool} {depth : Nat} {quote : Char}

/-- What is open behind the code: what was open around the interpolation, or nothing. -/
def closed (inside : Bool) (outer : List Frame) : List Frame := if inside then outer else []

/-- The code at a cursor comes to an end, that of the text at its end. -/
def CodeEnds (text : Text) (cursor : Cursor) : Prop :=
  ∀ (inside : Bool) (outer : List Frame) (depth : Nat),
    ∃ after, code text inside depth cursor = pure after ∧
      Reached text (opened inside outer depth) cursor (closed inside outer) after ∧
      (inside = false → text.length ≤ after.position)

/-- The string at a cursor comes to an end. -/
def StringEnds (text : Text) (cursor : Cursor) : Prop :=
  ∀ (quote : Char) (triple : Bool) (outer : List Frame),
    ∃ after, string text quote triple cursor = pure after ∧
      Reached text (.quoted quote triple :: outer) cursor outer after

theorem codeEnds_end (none : text[cursor.position]? = none) : CodeEnds text cursor := by
  intro inside outer depth
  refine ⟨cursor, by rw [code, none], ?_, fun _ => List.getElem?_eq_none_iff.mp none⟩
  refine ⟨Nat.le_refl _, Nat.le_max_left _ _, [], (List.append_nil _).symm, ?_⟩
  rw [drop_of_none none]
  cases inside <;> simp [opened, closed, lex]

theorem stringEnds_end (none : text[cursor.position]? = none) : StringEnds text cursor := by
  intro quote triple outer
  refine ⟨cursor.push .literal, by rw [string, none], ?_⟩
  refine ⟨Nat.le_refl _, Nat.le_max_left _ _, [.literal], rfl, ?_⟩
  simp only [push]
  rw [drop_of_none none]
  simp [lex]

theorem codeEnds_turn (here : text[cursor.position]? = some c)
    (strings : StringsEnd text cursor.position)
    (further : ∀ after : Cursor, cursor.position < after.position → CodeEnds text after) :
    CodeEnds text cursor := by
  intro inside outer depth
  obtain ⟨turned, read, onward, reached, ends⟩ := turn_total strings here inside outer depth
  cases next : turned.depth? with
  | none =>
      have within := ends next
      subst within
      rw [next] at reached
      exact ⟨turned.cursor, by rw [code, here]; simp [read, next], reached, by simp⟩
  | some deeper =>
      rw [next] at reached
      obtain ⟨after, later, rest, last⟩ := further turned.cursor onward inside outer deeper
      exact ⟨after, by rw [code, here]; simp [read, next, later], reached.trans rest, last⟩

theorem stringEnds_step (here : text[cursor.position]? = some c)
    (codes : ∀ after : Cursor, cursor.position < after.position → CodeEnds text after)
    (strings : ∀ after : Cursor, cursor.position < after.position → StringEnds text after) :
    StringEnds text cursor := by
  intro quote triple outer
  have inText := (List.getElem?_eq_some_iff.mp here).1
  have taken : step (.quoted quote triple :: outer) c (text.drop (cursor.position + 1)) =
      stringStep quote triple outer c (text.drop (cursor.position + 1)) := rfl
  have past (count : Nat) : cursor.position < (cursor.ahead (count + 1)).position :=
    Nat.lt_add_of_pos_right (Nat.succ_pos count)
  have brace : text[cursor.position + 1]? = some '\x7b' ↔
      (text.drop (cursor.position + 1)).head? = some '\x7b' := by
    rw [List.head?_drop]
  rw [stringStep] at taken
  rw [string, here]
  simp only [brace, isTriple_eq]
  by_cases escape : c = '\\'
  · rw [if_pos escape] at taken ⊢
    rw [List.drop_drop] at taken
    obtain ⟨after, read, rest⟩ := strings (cursor.ahead 2) (past 1) quote triple outer
    refine ⟨after, read, .trans (.step here (Nat.le_add_right _ _) ?_ taken ?_) rest⟩
    · exact Nat.succ_le_succ inText
    · exact (List.append_nil _).symm
  rw [if_neg escape] at taken ⊢
  by_cases opens : (quote = '"' && c = '#' &&
      (text.drop (cursor.position + 1)).head? = some '\x7b') = true
  · rw [if_pos opens] at taken ⊢
    rw [List.drop_drop] at taken
    obtain ⟨between, inner, reached, _⟩ := codes (cursor.ahead 2) (past 1) true
      (.quoted quote triple :: outer) 0
    obtain ⟨after, read, rest⟩ := strings between (Nat.lt_of_lt_of_le (past 1) reached.onward) quote
      triple outer
    refine ⟨after, by rw [inner]; exact read,
      .trans (.trans (.step here (Nat.le_add_right _ _) ?_ taken ?_) reached) rest⟩
    · exact Nat.succ_le_succ inText
    · exact (List.append_nil _).symm
  rw [if_neg opens] at taken ⊢
  by_cases closes : (c = quote &&
      (!triple || [quote, quote].isPrefixOf (text.drop (cursor.position + 1)))) = true
  · rw [if_pos closes] at taken ⊢
    refine ⟨_, rfl, .step here (Nat.le_add_right _ _) ?_ ?_ rfl⟩
    · cases triple with
      | true =>
          have long : 2 ≤ (text.drop (cursor.position + 1)).length := by
            simp only [Bool.not_true, Bool.false_or, Bool.and_eq_true] at closes
            exact (List.isPrefixOf_iff_prefix.mp closes.2).length_le
          simp only [ahead, goTo, push, if_true, List.length_drop] at long ⊢
          omega
      | false => exact Nat.le_succ_of_le inText
    · rw [taken]
      cases triple with
      | true => simp [ahead, goTo, push]
      | false => rfl
  · rw [if_neg closes] at taken ⊢
    obtain ⟨after, read, rest⟩ := strings (cursor.ahead 1) (past 0) quote triple outer
    refine ⟨after, read, .trans (.step here (Nat.le_add_right _ _) ?_ taken ?_) rest⟩
    · exact Nat.le_succ_of_le inText
    · exact (List.append_nil _).symm

/-- What is left of the text falls from one call to the next, whether it is code or a string. -/
theorem ends (text : Text) (cursor : Cursor) : CodeEnds text cursor ∧ StringEnds text cursor := by
  induction left : text.length - cursor.position using Nat.strong_induction_on generalizing cursor with
  | _ count ih =>
      cases here : text[cursor.position]? with
      | none => exact ⟨codeEnds_end here, stringEnds_end here⟩
      | some c =>
          have inText := (List.getElem?_eq_some_iff.mp here).1
          have later (after : Cursor) (onward : cursor.position < after.position) :
              CodeEnds text after ∧ StringEnds text after :=
            ih (text.length - after.position) (by omega) after rfl
          refine ⟨codeEnds_turn here ?_ fun after onward => (later after onward).1, ?_⟩
          · intro quote triple outer after onward
            exact (later after onward).2 quote triple outer
          · exact stringEnds_step here (fun after onward => (later after onward).1)
              fun after onward => (later after onward).2

/-- Wherever the cursor stands on a character of code, a turn moves it on. -/
theorem turn_onward (here : text[cursor.position]? = some c) (inside : Bool) (depth : Nat) :
    ∃ turned, turn text inside depth c cursor = pure turned ∧
      cursor.position < turned.cursor.position := by
  have strings : StringsEnd text cursor.position :=
    fun quote triple outer after _ => (ends text after).2 quote triple outer
  obtain ⟨turned, read, total⟩ := turn_total strings here inside [] depth
  exact ⟨turned, read, total.onward⟩

/-- Every text has its tokens, which are those of the lexer. -/
theorem tokenize_eq (text : Text) : tokenize text = pure (Coffee.tokens text) := by
  obtain ⟨after, read, reached, last⟩ := (ends text ⟨0, []⟩).1 false [] 0
  obtain ⟨tokens, pushed, lexed⟩ := reached.spoken
  have past : text.drop after.position = [] := List.drop_eq_nil_of_le (last rfl)
  have all : Coffee.tokens text = after.tokens := by
    rw [pushed, Coffee.tokens]
    simpa [opened, closed, past, lex] using lexed
  rw [tokenize, read, all]
  rfl

end Ending

end Cursor

end Brewery.Coffee
