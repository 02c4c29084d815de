import Brewery.Proofs.Coffee.Sequence

/-!
Names of texts one after another. A binding reaches over more than one token: to the end of a
group, of an import or of the head of a loop. In a text whose brackets are nested none of these
goes past the newline after it, so the occurrences of names are those of the text and then those
of what follows.
-/

namespace Brewery.Coffee

/-- The bracket that closes what a token opens. -/
def closer? (token : Token) : Option Char :=
  if token = .sign '(' then some ')'
  else if token = .sign '\x7b' then some '\x7d'
  else if token = .sign '[' then some ']'
  else none

/-- Whether the brackets of the tokens are nested, when the given ones are still to be closed,
the innermost first. -/
def nested : (awaited : List Char) → List Token → Bool
  | awaited, [] => awaited.isEmpty
  | awaited, token :: rest =>
      match closer? token with
      | some bracket => nested (bracket :: awaited) rest
      | none =>
          if closes token then
            match awaited with
            | [] => false
            | bracket :: outer => token = .sign bracket && nested outer rest
          else nested awaited rest

variable {awaited : List Char} {token : Token} {rest more : List Token}

/-- The ways a token can stand among nested brackets. -/
inductive NestedCase (awaited : List Char) (token : Token) (rest : List Token) : Prop where
  | opening (bracket : Char) (closer : closer? token = some bracket)
      (inner : nested (bracket :: awaited) rest = true)
  | closing (outer : List Char) (bracket : Char) (shape : awaited = bracket :: outer)
      (same : token = .sign bracket) (closer : closes token = true)
      (further : nested outer rest = true)
  | plain (open_ : closer? token = none) (close : closes token = false)
      (further : nested awaited rest = true)

theorem nested_cases (within : nested awaited (token :: rest) = true) :
    NestedCase awaited token rest := by
  simp only [nested] at within
  split at within
  · next bracket closer => exact .opening bracket closer within
  next open_ =>
    split at within
    · next close =>
        cases awaited with
        | nil => exact absurd within (by simp)
        | cons bracket outer =>
            obtain ⟨same, further⟩ := Bool.and_eq_true_iff.mp within
            exact .closing outer bracket rfl (by simpa using same) close further
    · next close => exact .plain open_ (by simpa using close) within

-- What an opening bracket opens is nested up to the bracket that closes it.
theorem nested_open {bracket : Char} (within : nested awaited (token :: rest) = true)
    (closer : closer? token = some bracket) : nested (bracket :: awaited) rest = true := by
  simpa only [nested, closer] using within

theorem opens_iff : opens token = true ↔ ∃ bracket, closer? token = some bracket := by
  unfold opens closer?
  split
  · simp_all
  split
  · simp_all
  split <;> simp_all

theorem opens_not_closes (opening : opens token = true) : closes token = false := by
  unfold opens at opening
  unfold closes
  simp only [Bool.or_eq_true, decide_eq_true_eq] at opening
  rcases opening with (rfl | rfl) | rfl <;> decide

section Groups

variable {depth : Nat} {inside after : List Token}

theorem group?_close (close : closes token = true) (rest : List Token) :
    group? 1 (token :: rest) = some ([], rest) := by
  simp [group?, close]

theorem group?_inner (close : closes token = true) (depth : Nat) (rest : List Token) :
    group? (depth + 2) (token :: rest) =
      (group? (depth + 1) rest).map fun found => (token :: found.1, found.2) := by
  simp [group?, close]

theorem group?_pass (close : closes token = false) (depth : Nat) (rest : List Token) :
    group? depth (token :: rest) =
      (group? (if opens token then depth + 1 else depth) rest).map fun found =>
        (token :: found.1, found.2) := by
  simp [group?, close]

/-- Among nested brackets every group closes, and what comes later does not change it. -/
theorem group?_nested {inner : List Char} {last : Char}
    (within : nested (inner ++ last :: awaited) rest = true) :
    ∃ inside after, group? (inner.length + 1) rest = some (inside, after) ∧
      ∀ more, group? (inner.length + 1) (rest ++ more) = some (inside, after ++ more) := by
  induction rest generalizing inner with
  | nil => simp [nested] at within
  | cons token rest ih =>
      cases nested_cases within with
      | opening bracket closer further =>
          have opening : opens token = true := opens_iff.mpr ⟨bracket, closer⟩
          obtain ⟨inside, after, found, onward⟩ := @ih (bracket :: inner) further
          refine ⟨token :: inside, after, ?_, fun more => ?_⟩
          · rw [group?_pass (opens_not_closes opening), if_pos opening]
            simp only [List.length_cons] at found
            rw [found]
            rfl
          · rw [List.cons_append, group?_pass (opens_not_closes opening), if_pos opening]
            have later := onward more
            simp only [List.length_cons] at later
            rw [later]
            rfl
      | closing outer bracket shape same closer further =>
          cases inner with
          | nil => exact ⟨[], rest, group?_close closer rest, fun more => group?_close closer _⟩
          | cons first inner =>
              obtain ⟨rfl, rfl⟩ := List.cons.inj shape
              obtain ⟨inside, after, found, onward⟩ := ih further
              refine ⟨token :: inside, after, ?_, fun more => ?_⟩
              · rw [List.length_cons, group?_inner closer, found]
                rfl
              · rw [List.cons_append, List.length_cons, group?_inner closer, onward more]
                rfl
      | plain open_ close further =>
          have still : opens token = false := by
            rw [Bool.eq_false_iff]
            intro opening
            obtain ⟨bracket, closer⟩ := opens_iff.mp opening
            exact absurd (closer.symm.trans open_) (by simp)
          obtain ⟨inside, after, found, onward⟩ := ih further
          refine ⟨token :: inside, after, ?_, fun more => ?_⟩
          · rw [group?_pass close, still]
            simp [found]
          · rw [List.cons_append, group?_pass close, still]
            simp [onward more]

/-- A group that no newline ends binds the same names on its line and before further lines. -/
theorem groupNames_line {bracket : Char} (within : nested (bracket :: awaited) rest = true)
    (opening : Token) {follows : Token → Bool} (newline : follows .newline = false) :
    groupNames opening follows (rest ++ .newline :: more) = groupNames opening follows rest := by
  obtain ⟨inside, after, found, onward⟩ := @group?_nested awaited rest [] bracket within
  simp only [List.length_nil, Nat.zero_add] at found onward
  unfold groupNames
  rw [found, onward]
  cases after with
  | nil => simp [newline]
  | cons next after => rfl

end Groups

section Statements

theorem loopNames_line (rest more : List Token) :
    loopNames (rest ++ .newline :: more) = loopNames rest := by
  induction rest with
  | nil => simp [loopNames]
  | cons token rest ih => cases token <;> simp [loopNames, ih]

theorem wordOccurrences_line (previous : Option Token) (name : Text) (rest more : List Token) :
    wordOccurrences previous name (rest ++ .newline :: more) = wordOccurrences previous name rest := by
  cases rest with
  | nil => simp [wordOccurrences, assigns]
  | cons first rest => rfl

theorem tokenOccurrences_line (within : nested awaited (token :: rest) = true)
    (previous : Option Token) (atStart : Bool) (more : List Token) :
    tokenOccurrences previous atStart token (rest ++ .newline :: more) =
      tokenOccurrences previous atStart token rest := by
  cases token with
  | word name =>
      simp only [tokenOccurrences, loopNames_line, wordOccurrences_line]
      cases rest with
      | nil => rfl
      | cons first rest => cases first <;> rfl
  | sign c =>
      simp only [tokenOccurrences]
      split
      · next round =>
          subst round
          exact groupNames_line (nested_open within rfl) _ (by decide)
      split
      · next bracket =>
          rcases Bool.or_eq_true_iff.mp (Bool.and_eq_true_iff.mp bracket).2 with brace | square
          · cases of_decide_eq_true brace
            exact groupNames_line (nested_open within rfl) _ (by decide)
          · cases of_decide_eq_true square
            exact groupNames_line (nested_open within rfl) _ (by decide)
      · rfl
  | operator => rfl
  | literal => rfl
  | newline => rfl

-- An import counts braces alone, and never one that closes more than was opened before.
theorem nested_braces {depth : Nat} (within : nested awaited (token :: rest) = true)
    (open_ : depth ≤ awaited.count '\x7d') : ∃ outer, nested outer rest = true ∧
      (if token = .sign '\x7b' then depth + 1
        else if token = .sign '\x7d' then depth - 1 else depth) ≤ outer.count '\x7d' := by
  cases nested_cases within with
  | opening bracket closer further =>
      refine ⟨bracket :: awaited, further, ?_⟩
      have shut := opens_not_closes (opens_iff.mpr ⟨bracket, closer⟩)
      split
      · next brace =>
          subst brace
          cases closer
          simpa using open_
      · have other : token ≠ .sign '\x7d' := by
          rintro rfl
          exact absurd shut (by decide)
        rw [if_neg other]
        exact Nat.le_trans open_ (List.count_le_count_cons)
  | closing outer bracket shape same closer further =>
      subst shape same
      refine ⟨outer, further, ?_⟩
      have closing : Token.sign bracket ≠ .sign '\x7b' := by
        intro brace
        rw [brace] at closer
        exact absurd closer (by decide)
      rw [if_neg closing]
      by_cases brace : bracket = '\x7d'
      · subst brace
        rw [if_pos rfl]
        simp only [List.count_cons_self] at open_
        omega
      · have other : Token.sign bracket ≠ .sign '\x7d' := fun same => brace (Token.sign.inj same)
        rw [if_neg other]
        rwa [List.count_cons_of_ne brace] at open_
  | plain still close further =>
      refine ⟨awaited, further, ?_⟩
      have opening : token ≠ .sign '\x7b' := by
        rintro rfl
        exact absurd still (by decide)
      have closing : token ≠ .sign '\x7d' := by
        rintro rfl
        exact absurd close (by decide)
      rwa [if_neg opening, if_neg closing]

/-- The brackets that are still to be closed are as many braces at least as an import has open,
so an import that nothing else ends is ended by the newline after its line. -/
theorem splitImport_line {depth : Nat} (within : nested awaited rest = true)
    (open_ : depth ≤ awaited.count '\x7d') (more : List Token) :
    ∃ after, splitImport depth (rest ++ .newline :: more) = ((splitImport depth rest).1, after) ∧
      (after = (splitImport depth rest).2 ++ .newline :: more ∨
        (splitImport depth rest).2 = [] ∧ after = more) ∧
      ∃ outer, nested outer (splitImport depth rest).2 = true := by
  induction rest generalizing depth awaited with
  | nil =>
      have none : awaited = [] := List.isEmpty_iff.mp within
      subst none
      have zero : depth = 0 := Nat.le_zero.mp open_
      exact ⟨more, by simp [splitImport, zero], Or.inr ⟨rfl, rfl⟩, [], rfl⟩
  | cons token rest ih =>
      rw [List.cons_append]
      by_cases ends : (depth = 0 && (token = .newline || token = .sign ';')) = true
      · have outer : nested awaited rest = true := by
          have mark := (Bool.and_eq_true_iff.mp ends).2
          rcases Bool.or_eq_true_iff.mp mark with line | semicolon
          · cases of_decide_eq_true line
            simpa [nested, closer?, closes] using within
          · cases of_decide_eq_true semicolon
            simpa [nested, closer?, closes] using within
        exact ⟨rest ++ .newline :: more, by simp only [splitImport, if_pos ends],
          Or.inl (by simp only [splitImport, if_pos ends]),
          awaited, by simpa only [splitImport, if_pos ends] using outer⟩
      · obtain ⟨outer, further, still⟩ := nested_braces within open_
        obtain ⟨after, split, ended, nesting⟩ := ih further still
        refine ⟨after, ?_, ?_, ?_⟩
        · simp only [splitImport, if_neg ends, split]
        · simpa only [splitImport, if_neg ends] using ended
        · simpa only [splitImport, if_neg ends] using nesting

theorem occurrences_break {previous : Option Token} {atStart : Bool}
    (ends : (decide (token = .newline) || decide (token = .sign ';')) = true) (rest : List Token) :
    occurrences previous atStart (token :: rest) = occurrences (some token) true rest := by
  rw [occurrences, if_pos ends]

theorem occurrences_import {previous : Option Token} {atStart : Bool}
    (inside : ¬(decide (token = .newline) || decide (token = .sign ';')) = true)
    (begins : (atStart && decide (token = .word "import".toList)) = true) (rest : List Token) :
    occurrences previous atStart (token :: rest) =
      importNames (splitImport 0 rest).1 ++ occurrences none true (splitImport 0 rest).2 := by
  rw [occurrences, if_neg inside, if_pos begins]

theorem occurrences_token {previous : Option Token} {atStart : Bool}
    (inside : ¬(decide (token = .newline) || decide (token = .sign ';')) = true)
    (begins : ¬(atStart && decide (token = .word "import".toList)) = true) (rest : List Token) :
    occurrences previous atStart (token :: rest) =
      tokenOccurrences previous atStart token rest ++ occurrences (some token) false rest := by
  rw [occurrences, if_neg inside, if_neg begins]

-- After a newline a name is as little a property as at the very beginning.
theorem occurrences_newline (more : List Token) :
    occurrences (some .newline) true more = occurrences none true more := by
  cases more with
  | nil => rw [occurrences, occurrences]
  | cons token more =>
      have same : tokenOccurrences (some .newline) true token more =
          tokenOccurrences none true token more := by
        cases token <;> rfl
      rw [occurrences, occurrences, same]

/-- A line whose brackets are nested has the same names alone and before further lines, and the
further lines have theirs. -/
theorem occurrences_line (within : nested awaited rest = true) (previous : Option Token)
    (atStart : Bool) (more : List Token) :
    occurrences previous atStart (rest ++ .newline :: more) =
      occurrences previous atStart rest ++ occurrences none true more := by
  have line (previous : Option Token) (atStart : Bool) :
      occurrences previous atStart (.newline :: more) = occurrences none true more := by
    rw [occurrences_break (by decide), occurrences_newline]
  induction previous, atStart, rest using occurrences.induct generalizing awaited with
  | case1 previous atStart => rw [List.nil_append, line, occurrences, List.nil_append]
  | case2 previous atStart token rest ends ih =>
      obtain ⟨outer, further, _⟩ := nested_braces within (Nat.zero_le _)
      rw [List.cons_append, occurrences_break ends, occurrences_break ends, ih further]
  | case3 previous atStart token rest inside begins shorter ih =>
      obtain ⟨outer, further, _⟩ := nested_braces within (Nat.zero_le _)
      obtain ⟨after, split, ended, last, nesting⟩ := splitImport_line further (Nat.zero_le _) more
      rw [List.cons_append, occurrences_import inside begins, occurrences_import inside begins, split,
        List.append_assoc]
      rcases ended with rfl | ⟨none, rfl⟩
      · rw [ih nesting]
      · rw [none, occurrences, List.nil_append]
  | case4 previous atStart token rest inside begins ih =>
      obtain ⟨outer, further, _⟩ := nested_braces within (Nat.zero_le _)
      rw [List.cons_append, occurrences_token inside begins, occurrences_token inside begins,
        tokenOccurrences_line within, ih further, List.append_assoc]

end Statements
end Brewery.Coffee
