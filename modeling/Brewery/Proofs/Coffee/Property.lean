import Brewery.Proofs.Coffee.Word
import Brewery.Proofs.Import.Closure

/-!
Names of properties and of object keys. Such a name is no use and no binding of its own, so
another name in its place leaves the uses as they are. The spellings that bind the words after
them do so in every place, also after a point or before a colon: what is bound besides is all
that one name can differ from another in.
-/

namespace Brewery.Coffee

/-- The words that bind what comes after them. -/
def binders : List Text := ["for", "class", "catch"].map String.toList

/-- What a word binds by its spelling alone. -/
def binds (name : Text) (rest : List Token) : List Occurrence :=
  if name = "for".toList then loopNames rest
  else if name = "class".toList || name = "catch".toList then
    match rest with
    | .word bound :: _ => [.declared bound]
    | _ => []
  else []

/-- The name after this token and before these is that of a property or of an object key. -/
def Inert (previous : Option Token) (rest : List Token) : Prop :=
  previous.any selects = true ∨ rest.head? = some (.sign ':')

/-- The variables of a loop end here. -/
def EndsLoop (token : Token) : Prop :=
  token = .newline ∨ token = .word "in".toList ∨ token = .word "of".toList

/-- Tokens after which no head of a loop and no import is open, and no name of a class or of a
caught error is awaited, with whether a statement begins before them and after them. -/
inductive Clear : (atStart : Bool) → List Token → (start : Bool) → Prop where
  | done {start : Bool} : Clear start [] start
  | break_ {atStart start : Bool} {token : Token} {rest : List Token}
      (ends : (token = .newline || token = .sign ';') = true) (further : Clear true rest start) :
      Clear atStart (token :: rest) start
  | statement {start : Bool} {token : Token} {inside rest : List Token}
      (ends : (token = .newline || token = .sign ';') = true)
      (split : splitImport 0 (inside ++ token :: rest) = (inside, rest))
      (further : Clear true rest start) :
      Clear true (.word "import".toList :: (inside ++ token :: rest)) start
  | token {atStart start : Bool} {token : Token} {rest : List Token}
      (within : ¬(token = .newline || token = .sign ';') = true)
      (begins : ¬(atStart && token = .word "import".toList) = true)
      (head : token = .word "for".toList → ∃ stop ∈ rest, EndsLoop stop)
      (named : token = .word "class".toList ∨ token = .word "catch".toList → rest ≠ [])
      (further : Clear false rest start) : Clear atStart (token :: rest) start

variable {atStart start : Bool} {previous last : Option Token} {token opening : Token}
  {name other bound before after : Text} {rest left right inside later : List Token}

theorem binds_plain (plain : name ∉ binders) (rest : List Token) : binds name rest = [] := by
  simp only [binders, List.map_cons, List.map_nil, List.mem_cons, List.not_mem_nil, or_false,
    not_or] at plain
  simp only [binds, plain, decide_false, Bool.or_false, if_false, Bool.false_eq_true]

theorem loopNames_cons (runs : ¬EndsLoop token) (rest : List Token) :
    loopNames (token :: rest) = loopNames [token] ++ loopNames rest := by
  cases token with
  | newline => exact absurd (Or.inl rfl) runs
  | word name =>
      have further : ¬(name = "in".toList ∨ name = "of".toList) := by simpa [EndsLoop] using runs
      by_cases own : name = "own".toList
      · simp [loopNames, own]
      · simp_all [loopNames]
  | operator spelling => rfl
  | sign c => rfl
  | literal => rfl

theorem loopNames_ends (ends : EndsLoop token) (rest : List Token) :
    loopNames (token :: rest) = [] := by
  rcases ends with rfl | rfl | rfl <;> rfl

theorem loopNames_declared (rest : List Token) : .used name ∉ loopNames rest := by
  induction rest with
  | nil => exact List.not_mem_nil
  | cons token rest ih =>
      by_cases ends : EndsLoop token
      · rw [loopNames_ends ends]
        exact List.not_mem_nil
      · rw [loopNames_cons ends, List.mem_append]
        rintro (here | later)
        · cases token with
          | word bound => grind [loopNames]
          | _ => exact absurd here List.not_mem_nil
        · exact ih later

theorem binds_declared (name : Text) (rest : List Token) : .used bound ∉ binds name rest := by
  unfold binds
  split
  · exact loopNames_declared rest
  split
  · split <;> simp
  · exact List.not_mem_nil

-- What comes after the end of the head of a loop is none of its variables.
theorem loopNames_stops (stops : ∃ stop ∈ rest, EndsLoop stop) (later : List Token) :
    loopNames (rest ++ later) = loopNames rest := by
  induction rest with
  | nil => simp at stops
  | cons token rest ih =>
      by_cases ends : EndsLoop token
      · rw [List.cons_append, loopNames_ends ends, loopNames_ends ends]
      · obtain ⟨stop, member, halts⟩ := stops
        rcases List.mem_cons.mp member with rfl | further
        · exact absurd halts ends
        · rw [List.cons_append, loopNames_cons ends, ih ⟨stop, further, halts⟩, ← loopNames_cons ends]

theorem splitImport_more {depth : Nat}
    (split : splitImport depth (inside ++ token :: rest) = (inside, rest)) (later : List Token) :
    splitImport depth (inside ++ token :: (rest ++ later)) = (inside, rest ++ later) := by
  induction inside generalizing depth with
  | nil =>
      rw [List.nil_append, splitImport] at split ⊢
      split at split
      · next stops => rw [if_pos stops]
      · exact absurd (congrArg Prod.fst split) (by simp)
  | cons first inside ih =>
      rw [List.cons_append, splitImport] at split ⊢
      split at split
      · exact absurd (congrArg Prod.fst split) (by simp)
      · next further =>
          obtain ⟨names, tail⟩ := Prod.mk.inj split
          rw [if_neg further]
          dsimp only
          rw [ih (Prod.ext (List.cons.inj names).2 tail)]

section Groups

variable {depth : Nat}

/-- How a group that is open before a word in the middle ends: before the word, around it, or
never. -/
inductive Around (depth : Nat) (left right : List Token) : Prop where
  | before (inside after : List Token)
      (found : ∀ name, group? depth (left ++ .word name :: right) =
        some (inside, after ++ .word name :: right))
  | around (inside after : List Token)
      (colon : right.head? = some (.sign ':') → inside.head? = some (.sign ':'))
      (found : ∀ name, group? depth (left ++ .word name :: right) =
        some (left ++ .word name :: inside, after))
  | never (found : ∀ name, group? depth (left ++ .word name :: right) = none)

-- A token closes the group or stands in it.
theorem group?_cases (depth : Nat) (token : Token) :
    (closes token = true ∧ ∀ rest, group? depth (token :: rest) = some ([], rest)) ∨
      ∃ deeper, ∀ rest, group? depth (token :: rest) =
        (group? deeper rest).map fun found => (token :: found.1, found.2) := by
  cases close : closes token with
  | false => exact Or.inr ⟨_, group?_pass close depth⟩
  | true =>
      match depth with
      | 0 => exact Or.inl ⟨rfl, fun rest => by simp [group?, close]⟩
      | 1 => exact Or.inl ⟨rfl, group?_close close⟩
      | depth + 2 => exact Or.inr ⟨_, group?_inner close depth⟩

theorem group?_colon (found : group? depth right = some (inside, later))
    (colon : right.head? = some (.sign ':')) : inside.head? = some (.sign ':') := by
  cases right with
  | nil => exact absurd colon (by simp)
  | cons token rest =>
      obtain rfl := Option.some.inj colon
      rcases group?_cases depth (.sign ':') with ⟨close, _⟩ | ⟨deeper, inner⟩
      · exact absurd close (by decide)
      · rw [inner] at found
        obtain ⟨further, _, same⟩ := Option.map_eq_some_iff.mp found
        obtain ⟨rfl, rfl⟩ := Prod.mk.inj same
        rfl

theorem group?_around (depth : Nat) (left right : List Token) : Around depth left right := by
  induction left generalizing depth with
  | nil =>
      have within (name : Text) : group? depth (.word name :: right) =
          (group? depth right).map fun found => (.word name :: found.1, found.2) :=
        group?_pass rfl depth right
      cases found : group? depth right with
      | none => exact .never fun name => by rw [List.nil_append, within, found, Option.map_none]
      | some pair =>
          obtain ⟨inside, after⟩ := pair
          exact .around inside after (group?_colon found)
            fun name => by rw [List.nil_append, within, found, Option.map_some, List.nil_append]
  | cons token left ih =>
      rcases group?_cases depth token with ⟨_, closed⟩ | ⟨deeper, inner⟩
      · exact .before [] left fun name => closed _
      · cases ih deeper with
        | before inside after found =>
            exact .before (token :: inside) after
              fun name => by rw [List.cons_append, inner, found, Option.map_some]
        | around inside after colon found =>
            exact .around inside after colon
              fun name => by rw [List.cons_append, inner, found, Option.map_some, List.cons_append]
        | never found =>
            exact .never fun name => by rw [List.cons_append, inner, found, Option.map_none]

theorem selects_not_leadsPattern (selected : selects token = true) : leadsPattern token = false := by
  unfold selects at selected
  simp only [Bool.or_eq_true, decide_eq_true_eq] at selected
  rcases selected with ((rfl | rfl) | rfl) | rfl <;> decide

theorem getLast?_over (token : Token) (left : List Token) (previous : Option Token) :
    (token :: left).getLast?.or previous = left.getLast?.or (some token) := by
  rw [List.getLast?_cons]
  cases left.getLast? <;> rfl

-- A name of a property is bound by no pattern, and no name after it is bound because of it.
theorem patternNames_inert (inert : Inert (left.getLast?.or (some opening)) inside)
    (name other : Text) : patternNames opening (left ++ .word name :: inside) =
      patternNames opening (left ++ .word other :: inside) := by
  induction left generalizing opening with
  | nil =>
      have unbound : (leadsPattern opening && inside.head? ≠ some (.sign ':')) = false := by
        rcases inert with selected | colon
        · rw [selects_not_leadsPattern selected, Bool.false_and]
        · rw [decide_eq_false (not_not_intro colon), Bool.and_false]
      have after (word : Text) : patternNames (.word word) inside = patternNames .newline inside := by
        cases inside <;> rfl
      simp only [List.nil_append, patternNames, unbound, after, Bool.false_eq_true, if_false]
  | cons token left ih =>
      rw [getLast?_over] at inert
      simp only [List.cons_append, patternNames, ih inert]
      cases left with
      | nil => simp
      | cons next left => rfl

theorem groupNames_inert {follows : Token → Bool} (words : ∀ word, follows (.word word) = false)
    (inert : Inert (left.getLast?.or (some opening)) right) (name other : Text) :
    groupNames opening follows (left ++ .word name :: right) =
      groupNames opening follows (left ++ .word other :: right) := by
  unfold groupNames
  cases group?_around 1 left right with
  | before inside after found =>
      rw [found name, found other]
      cases after with
      | nil => simp only [List.nil_append, words]
      | cons next after => rfl
  | around inside after colon found =>
      have inner : Inert (left.getLast?.or (some opening)) inside := inert.imp id colon
      rw [found name, found other]
      cases after with
      | nil => rfl
      | cons next after => simp only [patternNames_inert inner name other]
  | never found => rw [found name, found other]

end Groups

section Words

variable {depth : Nat}

-- What a token before the name says does not depend on the name.
theorem tokenOccurrences_inert
    (head : token = .word "for".toList → ∃ stop ∈ left, EndsLoop stop)
    (named : token = .word "class".toList ∨ token = .word "catch".toList → left ≠ [])
    (inert : Inert (left.getLast?.or (some token)) right) (name other : Text) :
    tokenOccurrences previous atStart token (left ++ .word name :: right) =
      tokenOccurrences previous atStart token (left ++ .word other :: right) := by
  cases token with
  | newline => rfl
  | literal => rfl
  | operator spelling => rfl
  | sign c =>
      simp only [tokenOccurrences]
      split
      · exact groupNames_inert (by simp) inert name other
      split
      · exact groupNames_inert (by simp) inert name other
      · rfl
  | word here =>
      simp only [tokenOccurrences]
      split
      · next loops =>
          have stops := head (congrArg Token.word loops)
          rw [loopNames_stops stops, loopNames_stops stops]
      split
      · next names =>
          cases left with
          | nil => simp_all
          | cons next left => cases next <;> rfl
      · cases left with
        | nil => simp [wordOccurrences, assigns]
        | cons next left => rfl

-- Between these neighbours a word says what its spelling binds and nothing else.
theorem tokenOccurrences_name (inert : Inert previous right) (name : Text) :
    tokenOccurrences previous start (.word name) right = binds name right := by
  have silent : wordOccurrences previous name right = [] := by
    rcases inert with selected | colon
    · simp [wordOccurrences, selected]
    · simp [wordOccurrences, colon]
  dsimp only [tokenOccurrences]
  rw [silent]
  rfl

-- Nor do the tokens after a name depend on it.
theorem occurrences_after (name other : Text) (right : List Token) :
    occurrences (some (.word name)) false right = occurrences (some (.word other)) false right := by
  cases right with
  | nil => simp only [occurrences]
  | cons token rest =>
      by_cases ends : (token = .newline || token = .sign ';') = true
      · rw [occurrences_break ends, occurrences_break ends]
      · rw [occurrences_token ends (by simp), occurrences_token ends (by simp)]
        cases token with
        | word here => rfl
        | _ => rfl

/-- The tokens before a name say the same whatever the name is. -/
theorem Clear.occurrences (clear : Clear atStart left start)
    (inert : Inert (left.getLast?.or previous) right) :
    ∃ found last, Inert last right ∧ ∀ name,
      Coffee.occurrences previous atStart (left ++ .word name :: right) =
        found ++ Coffee.occurrences last start (.word name :: right) := by
  induction clear generalizing previous with
  | done => exact ⟨[], previous, inert, fun name => rfl⟩
  | @break_ atStart start token rest ends further ih =>
      rw [getLast?_over] at inert
      obtain ⟨found, last, same, onward⟩ := ih inert
      refine ⟨found, last, same, fun name => ?_⟩
      rw [List.cons_append, occurrences_break ends, onward name]
  | @statement start token inside rest ends split further ih =>
      have later : Inert (rest.getLast?.or none) right := by
        rw [getLast?_over, List.getLast?_append, Option.or_assoc, getLast?_over] at inert
        cases stands : rest.getLast? with
        | some final => rwa [stands] at inert
        | none =>
            rw [stands] at inert
            refine Or.inr (inert.resolve_left fun selected => ?_)
            simp only [Bool.or_eq_true, decide_eq_true_eq] at ends
            rcases ends with rfl | rfl <;> exact absurd selected (by decide)
      obtain ⟨found, last, same, onward⟩ := ih later
      refine ⟨importNames inside ++ found, last, same, fun name => ?_⟩
      rw [List.cons_append, List.append_assoc, List.cons_append,
        occurrences_import (by decide) (by decide), splitImport_more split, onward name,
        List.append_assoc]
  | @token atStart start token rest within begins head named further ih =>
      rw [getLast?_over] at inert
      obtain ⟨found, last, same, onward⟩ := ih inert
      refine ⟨tokenOccurrences previous atStart token (rest ++ .word [] :: right) ++ found, last,
        same, fun name => ?_⟩
      rw [List.cons_append, occurrences_token within begins, onward name, List.append_assoc,
        tokenOccurrences_inert head named inert name []]

end Words

/-- All that is said of names in a text with a name among its tokens: what the name binds, and
what is said whatever the name is. -/
theorem Clear.names (clear : Clear true left start) (inert : Inert left.getLast? right) :
    ∃ front back, ∀ name, (start = true → name ≠ "import".toList) →
      Coffee.occurrences none true (left ++ .word name :: right) =
        front ++ (binds name right ++ back) := by
  have first : Inert (left.getLast?.or none) right := by rwa [Option.or_none]
  obtain ⟨front, last, same, onward⟩ := clear.occurrences first
  refine ⟨front, Coffee.occurrences (some (.word [])) false right, fun name other => ?_⟩
  have begins : ¬(start && Token.word name = .word "import".toList) = true := by
    simpa using other
  rw [onward name, occurrences_token (by simp) begins, tokenOccurrences_name same,
    occurrences_after name []]

theorem used_binds (front back : List Occurrence) (name : Text) (rest : List Token) :
    (Bindings.ofOccurrences (front ++ (binds name rest ++ back))).used =
      (Bindings.ofOccurrences (front ++ back)).used := by
  have silent (read : Occurrence → Option Text) (mute : ∀ bound, read (.declared bound) = none) :
      (binds name rest).filterMap read = [] := by
    refine List.filterMap_eq_nil_iff.mpr fun occurrence member => ?_
    cases occurrence with
    | used bound => exact absurd member (binds_declared name rest)
    | declared bound => exact mute bound
  simp only [Bindings.ofOccurrences, List.filterMap_append]
  rw [silent _ fun _ => rfl, List.nil_append]

/-- A name of a property or of an object key that is replaced by another leaves the uses of a
text as they are, and of the bindings all but those that one of the two names makes by its
spelling. So a symbol that was needed still is, unless the new name binds it. -/
theorem property_replaced {spoken heard : List Token}
    (stands : Stands before name after left right)
    (again : Stands before other after spoken heard)
    (clear : Clear true left start) (inert : Inert left.getLast? right)
    (begins : start = true → name ≠ "import".toList ∧ other ≠ "import".toList) :
    (scan (before ++ other ++ after)).used = (scan (before ++ name ++ after)).used ∧
    (∃ kept : List Occurrence,
      (∀ bound, bound ∈ (scan (before ++ name ++ after)).declared ↔
        .declared bound ∈ kept ∨ .declared bound ∈ binds name right) ∧
      ∀ bound, bound ∈ (scan (before ++ other ++ after)).declared ↔
        .declared bound ∈ kept ∨ .declared bound ∈ binds other right) ∧
    (name ∉ binders → other ∉ binders →
      scan (before ++ other ++ after) = scan (before ++ name ++ after)) ∧
    ∀ (table : SymbolTable), ∀ symbol ∈ table.needed (before ++ name ++ after),
      .declared symbol ∉ binds other right → symbol ∈ table.needed (before ++ other ++ after) := by
  obtain ⟨rfl, rfl⟩ := stands.unique again
  obtain ⟨front, back, said⟩ := clear.names inert
  have one : names (before ++ name ++ after) = front ++ (binds name heard ++ back) := by
    rw [names, stands.tokens, said name fun statement => (begins statement).1]
  have two : names (before ++ other ++ after) = front ++ (binds other heard ++ back) := by
    rw [names, again.tokens, said other fun statement => (begins statement).2]
  have used : (scan (before ++ other ++ after)).used = (scan (before ++ name ++ after)).used := by
    change (Bindings.ofOccurrences (names _)).used = (Bindings.ofOccurrences (names _)).used
    rw [one, two, used_binds, used_binds]
  refine ⟨used, ⟨front ++ back, fun bound => ?_, fun bound => ?_⟩, fun plain also => ?_,
    fun table symbol needed unbound => ?_⟩
  · rw [mem_declared, one]
    simp only [List.mem_append]
    tauto
  · rw [mem_declared, two]
    simp only [List.mem_append]
    tauto
  · change Bindings.ofOccurrences (names _) = Bindings.ofOccurrences (names _)
    rw [one, two, binds_plain plain, binds_plain also]
  · obtain ⟨known, free⟩ := SymbolTable.mem_needed.mp needed
    obtain ⟨uses, undeclared⟩ := mem_free.mp free
    refine SymbolTable.mem_needed.mpr ⟨known, mem_free.mpr ⟨?_, ?_⟩⟩
    · rwa [← mem_used, used, mem_used]
    · rw [one] at undeclared
      rw [two]
      simp only [List.mem_append] at undeclared ⊢
      tauto

/-- A text that begins with a property of its own object. -/
theorem stands_own (word : IsWord name)
    (ends : ∀ c, after.head? = some c → isWordCharacter c = false) :
    Stands ['@'] name after [.sign '@'] (lex [] after) := by
  refine ⟨word, ends, [], trivial, ?_, rfl⟩
  have step : step [] '@' (name ++ after) = ⟨[.sign '@'], [], name ++ after⟩ := by
    rfl
  have reads := @Reads.on [] [] '@' (name ++ after) (name ++ after) []
  rw [step] at reads
  exact reads .here

theorem done_replaced : scan "@done say\n".toList = scan "@then say\n".toList := by
  have word (name : Text) (first : name.head?.any isWordStart = true)
      (further : name.tail.all isWordCharacter = true) : IsWord name := by
    cases name with
    | nil => exact absurd first (by simp)
    | cons c more => exact ⟨c, more, rfl, by simpa using first, by simpa using further⟩
  have ends : ∀ c, " say\n".toList.head? = some c → isWordCharacter c = false := by
    rintro c same
    obtain rfl := Option.some.inj same
    decide +kernel
  have clear : Clear true [.sign '@'] false :=
    .token (by decide) (by decide) (by simp) (by simp) .done
  exact (property_replaced (stands_own (word "then".toList (by decide +kernel) (by decide +kernel)) ends)
    (stands_own (word "done".toList (by decide +kernel) (by decide +kernel)) ends) clear
    (Or.inl (by decide)) (by simp)).2.2.1 (by decide) (by decide)

end Brewery.Coffee
