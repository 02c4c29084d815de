import Brewery.Coffee.Walk
import Brewery.Proofs.Coffee.Cursor
import Brewery.Proofs.Coffee.Scope

/-!
No name is looked for out of the list. At an index that is in the list or its end, what the walk looks
at are the tokens from there on; a group that opens in the list closes behind that in the list or not at
all, and an import ends behind where it begins. So the walk is defined for all lists of tokens, whatever
their brackets are, and what it finds are the occurrences of names in them.
-/

namespace Brewery.Coffee

namespace Tokens

variable {tokens rest inside later : List Token} {token opening previous : Token}
  {place close depth : Nat} {name : Text}

/-- The tokens from an index on, which is one of the list or its end. -/
structure Ahead (tokens : List Token) (place : Nat) (rest : List Token) : Prop where
  within : place ≤ tokens.length
  shape : tokens.drop place = rest

namespace Ahead

theorem here (ahead : Ahead tokens place rest) : tokens[place]? = rest.head? := by
  rw [← ahead.shape, List.head?_drop]

theorem lt (ahead : Ahead tokens place (token :: rest)) : place < tokens.length :=
  (List.getElem?_eq_some_iff.mp ahead.here).1

theorem next (ahead : Ahead tokens place (token :: rest)) : Ahead tokens (place + 1) rest := by
  refine ⟨ahead.lt, ?_⟩
  rw [← List.tail_drop, ahead.shape, List.tail_cons]

theorem look (ahead : Ahead tokens place rest) : look tokens place = pure rest.head? := by
  rw [Tokens.look, if_pos ahead.within, ahead.here]

theorem fetch (ahead : Ahead tokens place (token :: rest)) : fetch tokens place = pure token := by
  rw [Tokens.fetch, ahead.here]
  rfl

theorem skip (ahead : Ahead tokens place (inside ++ rest)) :
    Ahead tokens (place + inside.length) rest := by
  induction inside generalizing place with
  | nil => exact ahead
  | cons token inside ih =>
      have further := ih ahead.next
      rwa [List.length_cons, Nat.add_comm inside.length, ← Nat.add_assoc]

end Ahead

theorem ahead_of_getElem? (here : tokens[place]? = some token) :
    Ahead tokens place (token :: tokens.drop (place + 1)) := by
  obtain ⟨inside, rfl⟩ := List.getElem?_eq_some_iff.mp here
  exact ⟨Nat.le_of_lt inside, List.drop_eq_getElem_cons inside⟩

theorem ahead_of_le (within : place ≤ tokens.length) : Ahead tokens place (tokens.drop place) :=
  ⟨within, rfl⟩

/-- The token before an index. -/
def prior (tokens : List Token) : (place : Nat) → Option Token
  | 0 => none
  | place + 1 => tokens[place]?

theorem before_eq (within : place ≤ tokens.length) :
    before tokens place = pure (prior tokens place) := by
  cases place with
  | zero => rfl
  | succ place => exact if_pos (Nat.le_of_succ_le within)

section Groups

theorem closeFrom_eq (place depth : Nat) (rest : List Token) :
    closeFrom place (depth + 1) rest =
      pure ((group? (depth + 1) rest).map fun found => place + found.1.length) := by
  induction rest generalizing place depth with
  | nil => rfl
  | cons token rest ih =>
      have behind (found : Option (List Token × List Token)) :
          (found.map fun found => place + 1 + found.1.length) =
            (found.map fun found => (token :: found.1, found.2)).map fun found =>
              place + found.1.length := by
        rw [Option.map_map]
        congr 1
        funext found
        simp only [Function.comp, List.length_cons]
        omega
      rw [closeFrom.eq_def]
      dsimp only
      by_cases opening : opens token = true
      · rw [if_pos opening, ih, group?_pass (opens_not_closes opening), if_pos opening, behind]
      rw [if_neg opening]
      by_cases closing : closes token = true
      · rw [if_pos closing]
        cases depth with
        | zero => rw [group?_close closing]; rfl
        | succ depth => rw [group?_inner closing, ← behind]; exact ih (place + 1) depth
      · rw [if_neg closing, ih, group?_pass (Bool.eq_false_iff.mpr closing), if_neg opening, behind]

theorem group?_split (found : group? depth rest = some (inside, later)) :
    ∃ closing, closes closing = true ∧ rest = inside ++ closing :: later := by
  induction rest generalizing depth inside with
  | nil => simp [group?] at found
  | cons token rest ih =>
      have onward {deeper : Nat}
          (found : (group? deeper rest).map (fun found => (token :: found.1, found.2)) =
            some (inside, later)) :
          ∃ closing, closes closing = true ∧ token :: rest = inside ++ closing :: later := by
        obtain ⟨⟨inner, last⟩, further, same⟩ := Option.map_eq_some_iff.mp found
        obtain ⟨rfl, rfl⟩ := Prod.mk.inj same
        obtain ⟨closing, closes, rfl⟩ := ih further
        exact ⟨closing, closes, rfl⟩
      by_cases closing : closes token = true
      · rcases depth with _ | _ | depth
        · obtain ⟨rfl, rfl⟩ : [] = inside ∧ rest = later := by simpa [group?, closing] using found
          exact ⟨token, closing, rfl⟩
        · obtain ⟨rfl, rfl⟩ : [] = inside ∧ rest = later := by simpa [group?, closing] using found
          exact ⟨token, closing, rfl⟩
        · exact onward (group?_inner closing depth rest ▸ found)
      · exact onward (group?_pass (Bool.eq_false_iff.mpr closing) depth rest ▸ found)

/-- What a group ends with is found by the count of brackets, which is above zero in the group. -/
theorem matchingClose_eq (ahead : Ahead tokens place (opening :: rest))
    (opens : opens opening = true) : matchingClose tokens place =
      pure ((group? 1 rest).map fun found => place + 1 + found.1.length) := by
  rw [matchingClose, if_pos ahead.within, ahead.shape, closeFrom, if_pos opens, closeFrom_eq]

/-- Behind the bracket that opens a group and in the list. -/
theorem matchingClose_within (here : tokens[place]? = some opening) (opens : opens opening = true) :
    ∃ close?, matchingClose tokens place = pure close? ∧
      ∀ close ∈ close?, place < close ∧ close < tokens.length := by
  have ahead := ahead_of_getElem? here
  refine ⟨_, matchingClose_eq ahead opens, fun close member => ?_⟩
  obtain ⟨⟨inside, later⟩, found, rfl⟩ := Option.map_eq_some_iff.mp member
  obtain ⟨closing, _, shape⟩ := group?_split found
  have last : Ahead tokens (place + 1 + inside.length) (closing :: later) :=
    (shape ▸ ahead.next : Ahead tokens (place + 1) (inside ++ closing :: later)).skip
  exact ⟨by omega, last.lt⟩

/-- The name that is bound at an index, if it is one in the list. -/
def bound (tokens : List Token) (place : Nat) : List Occurrence :=
  match tokens[place]? with
  | some (.word name) =>
      if (prior tokens place).any leadsPattern && tokens[place + 1]? ≠ some (.sign ':') then
        [.declared name]
      else []
  | _ => []

theorem boundAt_eq (inside : place < tokens.length) :
    boundAt tokens place = pure (bound tokens place) := by
  have ahead := ahead_of_getElem? (List.getElem?_eq_getElem inside)
  rw [boundAt, bound, ahead.fetch, pure_bind, List.getElem?_eq_getElem inside]
  cases shape : tokens[place] with
  | word name =>
      simp only
      rw [before_eq (Nat.le_of_lt inside), ahead.next.look, ahead.next.here, pure_bind, pure_bind]
  | _ => rfl

theorem mapM_eq {places : List Nat} {find : Nat → Checked (List Occurrence)}
    {found : Nat → List Occurrence} (each : ∀ place ∈ places, find place = pure (found place)) :
    places.mapM find = pure (places.map found) := by
  induction places with
  | nil => rfl
  | cons place places ih =>
      obtain ⟨first, others⟩ := List.forall_mem_cons.mp each
      rw [List.mapM_cons, first, ih others]
      rfl

theorem bindGroup_eq (opening : Nat) (within : close ≤ tokens.length) : bindGroup tokens opening close =
    pure ((List.range' (opening + 1) (close - (opening + 1))).flatMap (bound tokens)) := by
  have inside : ∀ place ∈ List.range' (opening + 1) (close - (opening + 1)),
      boundAt tokens place = pure (bound tokens place) := by
    intro place member
    have := List.mem_range'_1.mp member
    exact boundAt_eq (by omega)
  rw [bindGroup, mapM_eq inside, pure_bind, List.flatMap_def]

-- The bracket that closes the group is no colon, so the last name in it is a key as little in the
-- list as in the group.
theorem flatMap_bound {closing : Token} (before : prior tokens place = some previous)
    (ahead : Ahead tokens place (inside ++ closing :: later)) (closes : closes closing = true) :
    (List.range' place inside.length).flatMap (bound tokens) = patternNames previous inside := by
  induction inside generalizing place previous with
  | nil => rfl
  | cons token inside ih =>
      have colon : tokens[place + 1]? = some (.sign ':') ↔ inside.head? = some (.sign ':') := by
        rw [ahead.next.here]
        cases inside with
        | nil =>
            have other : closing ≠ .sign ':' := by
              rintro rfl
              exact absurd closes (by decide)
            simp [other]
        | cons => rfl
      have next : prior tokens (place + 1) = some token := ahead.here
      rw [List.length_cons, List.range'_succ, List.flatMap_cons, ih next ahead.next, bound,
        show tokens[place]? = some token from ahead.here, before]
      cases token with
      | word name => simp only [patternNames, Option.any_some, ne_eq, colon]
      | _ => rfl

theorem group_eq (ahead : Ahead tokens place (opening :: rest)) (opens : opens opening = true)
    (follows : Token → Bool) : group tokens place follows = pure (groupNames opening follows rest) := by
  rw [group, matchingClose_eq ahead opens, groupNames, pure_bind]
  cases found : group? 1 rest with
  | none => rfl
  | some parts =>
      obtain ⟨inside, later⟩ := parts
      obtain ⟨closing, closes, rfl⟩ := group?_split found
      have last : Ahead tokens (place + 1 + inside.length) (closing :: later) := ahead.next.skip
      have names := flatMap_bound (show prior tokens (place + 1) = some opening from ahead.here)
        ahead.next closes
      simp only [Option.map_some]
      rw [last.next.look, pure_bind, bindGroup_eq place last.within]
      cases later with
      | nil => rfl
      | cons next later => 
          rw [Nat.add_sub_cancel_left, names]
          exact (apply_ite pure (follows next = true) _ _).symm

end Groups

section Statements

theorem loopFrom_eq (ahead : Ahead tokens place rest) :
    loopFrom tokens place = pure (loopNames rest) := by
  induction rest generalizing place with
  | nil =>
      rw [loopFrom, ahead.look]
      rfl
  | cons token rest ih =>
      rw [loopFrom, ahead.look, pure_bind]
      cases token with
      | newline => rfl
      | word name =>
          simp only [List.head?_cons, loopNames]
          split
          · rfl
          · rw [ih ahead.next, pure_bind]
      | _ => exact ih ahead.next

theorem splitImport_head {word : Text} (depth : Nat) (rest : List Token) :
    (splitImport depth rest).1.head? = some (.word word) ↔ rest.head? = some (.word word) := by
  cases rest with
  | nil => rfl
  | cons token rest =>
      rw [splitImport]
      split
      · next ends =>
          have mark : token ≠ .word word := by
            rintro rfl
            simp at ends
          simp [mark]
      · rfl

/-- An import ends behind where it begins, either with the list or after a newline or a semicolon. -/
theorem importFrom_eq (ahead : Ahead tokens place rest) (depth : Nat) : ∃ behind,
    importFrom tokens place depth = pure (importNames (splitImport depth rest).1, behind) ∧
      place ≤ behind ∧ Ahead tokens behind (splitImport depth rest).2 ∧
      ((splitImport depth rest).2 ≠ [] → (prior tokens behind).any selects = false) := by
  induction rest generalizing place depth with
  | nil =>
      refine ⟨place, ?_, Nat.le_refl _, ahead, by simp [splitImport]⟩
      rw [importFrom, ahead.look]
      rfl
  | cons token rest ih =>
      rw [importFrom, ahead.look, pure_bind, splitImport]
      simp only [List.head?_cons]
      by_cases ends : (depth = 0 && (token = .newline || token = .sign ';')) = true
      · rw [if_pos ends, if_pos ends]
        refine ⟨place + 1, rfl, Nat.le_succ _, ahead.next, fun _ => ?_⟩
        rw [prior, ahead.here]
        rcases Bool.or_eq_true_iff.mp (Bool.and_eq_true_iff.mp ends).2 with line | semicolon
        · rw [of_decide_eq_true line]
          rfl
        · rw [of_decide_eq_true semicolon]
          rfl
      · rw [if_neg ends, if_neg ends]
        obtain ⟨behind, found, onward, further, last⟩ := ih ahead.next
          (if token = .sign '\x7b' then depth + 1
            else if token = .sign '\x7d' then depth - 1 else depth)
        refine ⟨behind, ?_, Nat.le_of_succ_le onward, further, last⟩
        rw [found]
        cases token with
        | word name =>
            simp only [importNames, splitImport_head, ahead.next.look, pure_bind]
            split
            · rfl
            split <;> rfl
        | _ => rfl

theorem nameAt_eq (ahead : Ahead tokens place (.word name :: rest)) {previous : Option Token}
    (same : (prior tokens place).any selects = previous.any selects) :
    nameAt tokens place name = pure (wordOccurrences previous name rest) := by
  rw [nameAt, wordOccurrences, before_eq ahead.within, ahead.next.look, pure_bind, pure_bind, same]
  cases keywords.elem name with
  | true => rfl
  | false =>
      cases previous.any selects with
      | true => rfl
      | false =>
          by_cases key : rest.head? = some (.sign ':')
          · simp [key]
          · by_cases left : rest.head?.any assigns = true <;> simp [key, left]

theorem occurrencesAt_eq (ahead : Ahead tokens place (token :: rest)) {previous : Option Token}
    (same : (prior tokens place).any selects = previous.any selects) (atStart : Bool) :
    occurrencesAt tokens place atStart token =
      pure (tokenOccurrences previous atStart token rest) := by
  cases token with
  | word name =>
      simp only [occurrencesAt, tokenOccurrences, loopFrom_eq ahead.next, nameAt_eq ahead same,
        ahead.next.look, pure_bind]
      split
      · rfl
      split
      · cases rest with
        | nil => rfl
        | cons next rest => cases next <;> rfl
      · rfl
  | sign c =>
      simp only [occurrencesAt, tokenOccurrences]
      split
      · next round =>
          subst round
          exact group_eq ahead rfl _
      split
      · next bracket =>
          rcases Bool.or_eq_true_iff.mp (Bool.and_eq_true_iff.mp bracket).2 with brace | square
          · cases of_decide_eq_true brace
            exact group_eq ahead rfl _
          · cases of_decide_eq_true square
            exact group_eq ahead rfl _
      · rfl
  | _ => rfl

theorem walk_eq (ahead : Ahead tokens place rest) {previous : Option Token}
    (same : rest ≠ [] → (prior tokens place).any selects = previous.any selects) (atStart : Bool) :
    walk tokens place atStart = pure (occurrences previous atStart rest) := by
  -- An import is one step. Behind it the walk sees the token that ended it where the occurrences start
  -- anew with none, and neither of these makes a property of the next name.
  induction previous, atStart, rest using occurrences.induct generalizing place with
  | case1 previous atStart =>
      have past : place = tokens.length :=
        Nat.le_antisymm ahead.within (List.drop_eq_nil_iff.mp ahead.shape)
      rw [walk, if_neg (Nat.not_lt.mpr (Nat.le_of_eq past.symm)), occurrences]
  | case2 previous atStart token rest ends ih =>
      have next : prior tokens (place + 1) = some token := ahead.here
      rw [walk, if_pos ahead.lt, ahead.fetch, pure_bind, if_pos (by simpa using ends),
        occurrences_break ends]
      exact ih ahead.next fun _ => congrArg (Option.any selects) next
  | case3 previous atStart token rest inside begins shorter ih =>
      obtain ⟨behind, found, _, further, last⟩ := importFrom_eq ahead.next 0
      rw [walk, if_pos ahead.lt, ahead.fetch, pure_bind, if_neg (by simpa using inside),
        if_pos begins, found, pure_bind, occurrences_import inside begins]
      dsimp only
      rw [ih further last]
      rfl
  | case4 previous atStart token rest inside begins ih =>
      have next : prior tokens (place + 1) = some token := ahead.here
      rw [walk, if_pos ahead.lt, ahead.fetch, pure_bind, if_neg (by simpa using inside),
        if_neg begins, occurrencesAt_eq ahead (same (List.cons_ne_nil _ _)),
        ih ahead.next fun _ => congrArg (Option.any selects) next, occurrences_token inside begins]
      rfl

end Statements

end Tokens

/-- Whatever a text leaves open, its scan by position comes to its end and finds the names in it. Each
turn of the lexer, wherever the cursor stands, moves it forward and takes no slice out of the text. In
any list of tokens no bracket is closed that is not open, no token is looked at behind the end of the
list, a group closes in the list behind the bracket that opens it, and an import ends in the list or
with it. -/
theorem scanByPlace_total (text : Text) (tokens : List Token) :
    scanByPlace text = pure (scan text) ∧
    Cursor.tokenize text = pure (Coffee.tokens text) ∧
    (∀ inside depth (cursor : Cursor) c, text[cursor.position]? = some c →
      ∃ turned, Cursor.turn text inside depth c cursor = pure turned ∧
        cursor.position < turned.cursor.position) ∧
    Tokens.walk tokens 0 true = pure (occurrences none true tokens) ∧
    (∀ place opening, tokens[place]? = some opening → opens opening = true →
      ∃ close?, Tokens.matchingClose tokens place = pure close? ∧
        ∀ close ∈ close?, place < close ∧ close < tokens.length) ∧
    (∀ opening close, close < tokens.length →
      ∃ names, Tokens.bindGroup tokens opening close = pure names) ∧
    ∀ place depth, place ≤ tokens.length →
      ∃ names behind, Tokens.importFrom tokens place depth = pure (names, behind) ∧
        place ≤ behind ∧ behind ≤ tokens.length := by
  have walked (tokens : List Token) :
      Tokens.walk tokens 0 true = pure (occurrences none true tokens) :=
    Tokens.walk_eq (Tokens.ahead_of_le (Nat.zero_le _)) (fun _ => rfl) true
  refine ⟨?_, Cursor.tokenize_eq text, ?_, walked tokens, ?_, ?_, ?_⟩
  · rw [scanByPlace, Cursor.tokenize_eq, pure_bind, walked, pure_bind, scan]
  · exact fun inside depth cursor c here => Cursor.turn_onward here inside depth
  · exact fun place opening here opens => Tokens.matchingClose_within here opens
  · exact fun opening close within => ⟨_, Tokens.bindGroup_eq opening (Nat.le_of_lt within)⟩
  · intro place depth within
    obtain ⟨behind, found, onward, further, _⟩ := Tokens.importFrom_eq (Tokens.ahead_of_le within) depth
    exact ⟨_, behind, found, onward, further.within⟩

/-- An interpolation in another, neither of them closed, and a backslash at the end. -/
def openText : Text := "\"#\x7b\"#\x7bf (a] \"\\".toList

/-- A group that a bracket of another kind closes, in an import that ends with the list. -/
def mixedTokens : List Token := [.sign '(', .word "a".toList, .sign ']', .operator "->".toList]

theorem open_scanned :
    (scanByPlace openText = pure (scan openText) ∧
      (scan openText).used = ["f".toList, "a".toList]) ∧
    (openText[0]? = some '"' ∧ ∃ turned, Cursor.turn openText false 0 '"' ⟨0, []⟩ = pure turned ∧
      0 < turned.cursor.position) ∧
    (mixedTokens[0]? = some (.sign '(') ∧ opens (.sign '(') = true ∧
      ∃ close?, Tokens.matchingClose mixedTokens 0 = pure close? ∧
        ∀ close ∈ close?, 0 < close ∧ close < mixedTokens.length) ∧
    (2 < mixedTokens.length ∧ ∃ names, Tokens.bindGroup mixedTokens 0 2 = pure names) ∧
    1 ≤ mixedTokens.length ∧ ∃ names behind, Tokens.importFrom mixedTokens 1 0 = pure (names, behind) ∧
      1 ≤ behind ∧ behind ≤ mixedTokens.length := by
  obtain ⟨scanned, _, turns, _, closes, binds, imports⟩ := scanByPlace_total openText mixedTokens
  refine ⟨⟨scanned, by decide +kernel⟩, ?_, ?_, ?_, ?_⟩
  · exact ⟨rfl, turns false 0 ⟨0, []⟩ '"' rfl⟩
  · exact ⟨rfl, rfl, closes 0 (.sign '(') rfl rfl⟩
  · exact ⟨by decide, binds 0 2 (by decide)⟩
  · exact ⟨by decide, imports 1 0 (by decide)⟩

end Brewery.Coffee
