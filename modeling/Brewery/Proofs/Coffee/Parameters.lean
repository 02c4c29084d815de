import Mathlib.Data.List.Basic
import Brewery.Proofs.Coffee.Scope

/-!
Lists of parameters. The grammar says of every name in such a list whether it is a variable, a
key or a property, and where the expression of a default begins and ends. A scan goes by the
neighbours of a word alone: it binds every variable and no key and no property, and besides these
the words of default expressions that stand there as variables stand in a pattern.
-/

namespace Brewery.Coffee

/-- A part of a list of parameters: its tokens, the variables it binds and the expressions of its
defaults. -/
structure Piece where
  tokens : List Token
  bound : List Text
  defaults : List (List Token)

inductive Category where
  | pattern
  | field
  | parameter

/-- The tokens of pieces with commas between them. -/
def separated : List Piece → List Token
  | [] => []
  | [piece] => piece.tokens
  | piece :: next :: rest => piece.tokens ++ .sign ',' :: separated (next :: rest)

def Piece.bracketed (opening closing : Char) (pieces : List Piece) : Piece where
  tokens := .sign opening :: (separated pieces ++ [.sign closing])
  bound := pieces.flatMap Piece.bound
  defaults := pieces.flatMap Piece.defaults

/-- The grammar of parameters. Brackets are nested in the expression of a default, which may be
anything else. -/
inductive Derives : Category → Piece → Prop where
  | name (name : Text) : Derives .pattern ⟨[.word name], [name], []⟩
  | property (name : Text) : Derives .pattern ⟨[.sign '@', .word name], [], []⟩
  | object {fields : List Piece} (each : ∀ field ∈ fields, Derives .field field) :
      Derives .pattern (.bracketed '\x7b' '\x7d' fields)
  | array {items : List Piece} (each : ∀ item ∈ items, Derives .pattern item) :
      Derives .pattern (.bracketed '[' ']' items)
  | short (name : Text) : Derives .field ⟨[.word name], [name], []⟩
  | keyed (key : Text) {value : Piece} (pattern : Derives .pattern value) :
      Derives .field ⟨.word key :: .sign ':' :: value.tokens, value.bound, value.defaults⟩
  | fallback (name : Text) {expression : List Token} (balanced : nested [] expression = true) :
      Derives .field ⟨.word name :: .sign '=' :: expression, [name], [expression]⟩
  | plain {piece : Piece} (pattern : Derives .pattern piece) : Derives .parameter piece
  | rest {piece : Piece} (pattern : Derives .pattern piece) :
      Derives .parameter { piece with tokens := piece.tokens ++ [.operator "...".toList] }
  | spread {piece : Piece} (pattern : Derives .pattern piece) :
      Derives .parameter { piece with tokens := .operator "...".toList :: piece.tokens }
  | default_ {piece : Piece} {expression : List Token} (pattern : Derives .pattern piece)
      (balanced : nested [] expression = true) :
      Derives .parameter ⟨piece.tokens ++ .sign '=' :: expression, piece.bound,
        piece.defaults ++ [expression]⟩

/-- A word of an expression that stands there like a variable in a pattern. -/
def Mistaken (name : Text) (expression : List Token) : Prop :=
  ∃ before lead after, expression = before ++ lead :: .word name :: after ∧
    leadsPattern lead = true ∧ after.head? ≠ some (.sign ':')

variable {name : Text} {token previous : Token} {tokens left right expression : List Token}
  {category : Category} {piece : Piece} {pieces : List Piece}

section Balance

/-- Tokens that are passed over as a whole by a search for the end of a group around them. -/
def Balanced (tokens : List Token) : Prop :=
  ∀ depth rest, group? (depth + 1) (tokens ++ rest) =
    (group? (depth + 1) rest).map fun found => (tokens ++ found.1, found.2)

theorem Balanced.nil : Balanced [] := by
  intro depth rest
  simp

theorem Balanced.append (first : Balanced left) (second : Balanced right) :
    Balanced (left ++ right) := by
  intro depth rest
  rw [List.append_assoc, first, second, Option.map_map]
  simp [Function.comp_def]

theorem Balanced.single (open_ : opens token = false) (close : closes token = false) :
    Balanced [token] := by
  intro depth rest
  rw [List.singleton_append, group?_pass close, open_]
  rfl

theorem Balanced.cons (open_ : opens token = false) (close : closes token = false)
    (further : Balanced tokens) : Balanced (token :: tokens) :=
  (Balanced.single open_ close).append further

theorem Balanced.group {closing : Token} (open_ : opens token = true)
    (close : closes closing = true) (inner : Balanced tokens) :
    Balanced (token :: (tokens ++ [closing])) := by
  intro depth rest
  rw [List.cons_append, List.append_assoc, group?_pass (opens_not_closes open_), if_pos open_,
    inner, List.singleton_append, group?_inner close, Option.map_map, Option.map_map]
  simp [Function.comp_def]

-- The induction is on the tokens; brackets that are still to be closed are open groups.
theorem group?_balanced {awaited : List Char} (within : nested awaited tokens = true)
    (depth : Nat) (rest : List Token) : group? (awaited.length + depth + 1) (tokens ++ rest) =
      (group? (depth + 1) rest).map fun found => (tokens ++ found.1, found.2) := by
  induction tokens generalizing awaited with
  | nil =>
      obtain rfl : awaited = [] := by simpa [nested] using within
      simp
  | cons token tokens ih =>
      rw [List.cons_append]
      cases nested_cases within with
      | opening bracket closer inner =>
          have opening : opens token = true := opens_iff.mpr ⟨bracket, closer⟩
          have onward := ih inner
          rw [List.length_cons, Nat.add_right_comm _ 1] at onward
          rw [group?_pass (opens_not_closes opening), if_pos opening, onward, Option.map_map]
          rfl
      | closing outer bracket shape same closer further =>
          subst shape
          rw [List.length_cons, Nat.add_right_comm _ 1, group?_inner closer, ih further,
            Option.map_map]
          rfl
      | plain open_ close further =>
          have still : opens token = false := by
            rw [Bool.eq_false_iff]
            intro opening
            obtain ⟨bracket, closer⟩ := opens_iff.mp opening
            exact absurd (closer.symm.trans open_) (by simp)
          rw [group?_pass close, still, if_neg (by simp), ih further, Option.map_map]
          rfl

theorem Balanced.of_nested (balanced : nested [] tokens = true) : Balanced tokens := by
  intro depth rest
  simpa using group?_balanced balanced depth rest

theorem separated_balanced (each : ∀ piece ∈ pieces, Balanced piece.tokens) :
    Balanced (separated pieces) := by
  induction pieces with
  | nil => exact .nil
  | cons piece rest ih =>
      have first := each piece List.mem_cons_self
      have further := ih fun other member => each other (List.mem_cons_of_mem _ member)
      cases rest with
      | nil => exact first
      | cons next rest => exact first.append (.cons (by decide) (by decide) further)

theorem Derives.balanced (derives : Derives category piece) : Balanced piece.tokens := by
  induction derives with
  | name | short => exact .single rfl rfl
  | property => exact .cons (by decide) (by decide) (.single rfl rfl)
  | object _ ih => exact .group (by decide) (by decide) (separated_balanced ih)
  | array _ ih => exact .group (by decide) (by decide) (separated_balanced ih)
  | keyed _ _ ih => exact .cons rfl rfl (.cons (by decide) (by decide) ih)
  | fallback _ balanced => exact .cons rfl rfl (.cons (by decide) (by decide) (.of_nested balanced))
  | plain _ ih => exact ih
  | rest _ ih => exact ih.append (.single rfl rfl)
  | spread _ ih => exact .cons rfl rfl ih
  | default_ _ balanced ih =>
      exact ih.append (.cons (by decide) (by decide) (.of_nested balanced))

end Balance

section Names

theorem mem_patternNames_cons : .declared name ∈ patternNames previous (token :: tokens) ↔
    (token = .word name ∧ leadsPattern previous = true ∧ tokens.head? ≠ some (.sign ':')) ∨
      .declared name ∈ patternNames token tokens := by
  show _ ∈ _ ++ patternNames token tokens ↔ _
  rw [List.mem_append]
  refine or_congr_left ?_
  cases token with
  | word bound =>
      dsimp only
      split
      · next binding =>
          obtain ⟨leads, free⟩ := Bool.and_eq_true_iff.mp binding
          rw [List.mem_singleton]
          constructor
          · rintro ⟨⟩
            exact ⟨rfl, leads, of_decide_eq_true free⟩
          · rintro ⟨⟨⟩, -⟩
            rfl
      · next binding =>
          constructor
          · exact fun member => absurd member List.not_mem_nil
          · rintro ⟨-, leads, free⟩
            exact absurd (Bool.and_eq_true_iff.mpr ⟨leads, decide_eq_true free⟩) binding
  | _ => simp

theorem mem_patternNames : .declared name ∈ patternNames previous tokens ↔
    ∃ before after, tokens = before ++ .word name :: after ∧
      leadsPattern (before.getLast?.getD previous) = true ∧ after.head? ≠ some (.sign ':') := by
  induction tokens generalizing previous with
  | nil => simp [patternNames]
  | cons token tokens ih =>
      rw [mem_patternNames_cons, ih]
      constructor
      · rintro (⟨rfl, leads, free⟩ | ⟨before, after, rfl, leads, free⟩)
        · exact ⟨[], tokens, rfl, leads, free⟩
        · refine ⟨token :: before, after, rfl, ?_, free⟩
          rwa [List.getLast?_cons, Option.getD_some]
      · rintro ⟨before, after, shape, leads, free⟩
        cases before with
        | nil =>
            obtain ⟨rfl, rfl⟩ := List.cons.inj shape
            exact Or.inl ⟨rfl, leads, free⟩
        | cons first before =>
            obtain ⟨rfl, rfl⟩ := List.cons.inj shape
            refine Or.inr ⟨before, after, rfl, ?_, free⟩
            rwa [List.getLast?_cons, Option.getD_some] at leads

theorem patternNames_declared (previous : Token) (tokens : List Token) :
    .used name ∉ patternNames previous tokens := by
  induction tokens generalizing previous with
  | nil => exact List.not_mem_nil
  | cons token tokens ih =>
      show _ ∉ _ ++ patternNames token tokens
      rw [List.mem_append, not_or]
      refine ⟨?_, ih token⟩
      cases token with
      | word bound =>
          dsimp only
          split <;> simp
      | _ => exact List.not_mem_nil

/-- Between two runs of tokens that are divided by anything but a word or a colon no name belongs
to both. -/
theorem mem_patternNames_divided (word : ∀ name, token ≠ .word name) (colon : token ≠ .sign ':') :
    .declared name ∈ patternNames previous (left ++ token :: right) ↔
      .declared name ∈ patternNames previous left ∨ .declared name ∈ patternNames token right := by
  induction left generalizing previous with
  | nil =>
      rw [List.nil_append, mem_patternNames_cons]
      simp [word, patternNames]
  | cons first left ih =>
      have after : (left ++ token :: right).head? ≠ some (.sign ':') ↔
          left.head? ≠ some (.sign ':') := by
        cases left with
        | nil => simp [colon]
        | cons next left => rfl
      rw [List.cons_append, mem_patternNames_cons, mem_patternNames_cons, ih, after, or_assoc]

-- An expression comes after an equals sign, which leads no pattern.
theorem mem_patternNames_expression :
    .declared name ∈ patternNames (.sign '=') expression ↔ Mistaken name expression := by
  rw [mem_patternNames]
  constructor
  · rintro ⟨before, after, rfl, leads, free⟩
    rcases List.eq_nil_or_concat before with rfl | ⟨front, lead, rfl⟩
    · exact absurd leads (by decide)
    · rw [List.concat_eq_append] at leads ⊢
      refine ⟨front, lead, after, by simp, ?_, free⟩
      rwa [List.getLast?_concat, Option.getD_some] at leads
  · rintro ⟨front, lead, after, rfl, leads, free⟩
    refine ⟨front ++ [lead], after, by simp, ?_, free⟩
    rwa [List.getLast?_concat, Option.getD_some]

/-- What a scan binds in a piece that stands where a pattern may begin. -/
def Binds (piece : Piece) : Prop :=
  ∀ name previous, leadsPattern previous = true →
    (.declared name ∈ patternNames previous piece.tokens ↔
      name ∈ piece.bound ∨ ∃ expression ∈ piece.defaults, Mistaken name expression)

theorem separated_binds (each : ∀ piece ∈ pieces, Binds piece) (name : Text)
    (leads : leadsPattern previous = true) :
    .declared name ∈ patternNames previous (separated pieces) ↔
      (∃ piece ∈ pieces, name ∈ piece.bound) ∨
        ∃ piece ∈ pieces, ∃ expression ∈ piece.defaults, Mistaken name expression := by
  induction pieces generalizing previous with
  | nil => simp [separated, patternNames]
  | cons piece rest ih =>
      have first := each piece List.mem_cons_self name
      have further {previous : Token} := @ih previous fun other member =>
        each other (List.mem_cons_of_mem _ member)
      cases rest with
      | nil => simpa [separated] using first previous leads
      | cons next rest =>
          have extended (holds : Piece → Prop) : (∃ one ∈ piece :: next :: rest, holds one) ↔
              holds piece ∨ ∃ one ∈ next :: rest, holds one := List.exists_mem_cons_iff ..
          rw [separated, mem_patternNames_divided (by simp) (by simp), first previous leads,
            further (by decide), extended, extended, or_or_or_comm]

theorem bracketed_binds {opening closing : Char} (each : ∀ piece ∈ pieces, Binds piece)
    (open_ : leadsPattern (.sign opening) = true) (colon : closing ≠ ':') :
    Binds (.bracketed opening closing pieces) := by
  intro name previous _
  have closes : .declared name ∉ patternNames (.sign closing) [] := List.not_mem_nil
  simp only [Piece.bracketed, List.mem_flatMap]
  rw [mem_patternNames_cons, mem_patternNames_divided (by simp) (by simpa using colon),
    separated_binds each name open_, or_iff_left closes, or_iff_right (by simp)]
  constructor
  · rintro (variable_ | ⟨piece, member, expression, default_, mistaken⟩)
    · exact Or.inl variable_
    · exact Or.inr ⟨expression, ⟨piece, member, default_⟩, mistaken⟩
  · rintro (variable_ | ⟨expression, ⟨piece, member, default_⟩, mistaken⟩)
    · exact Or.inl variable_
    · exact Or.inr ⟨piece, member, expression, default_, mistaken⟩

/-- The induction follows the grammar: every piece binds its variables, and of its defaults what
is mistaken for variables. -/
theorem Derives.binds (derives : Derives category piece) : Binds piece := by
  induction derives with
  | name | short =>
      intro name previous leads
      simp [patternNames, leads]
  | property =>
      intro name previous _
      have bare : leadsPattern (.sign '@') = false := by decide
      simp [patternNames, bare]
  | object _ ih => exact bracketed_binds ih (by decide) (by decide)
  | array _ ih => exact bracketed_binds ih (by decide) (by decide)
  | keyed _ _ ih =>
      intro name previous _
      simpa [patternNames] using ih name (.sign ':') (by decide)
  | fallback bound _ =>
      intro name previous leads
      simp [patternNames, leads, mem_patternNames_expression]
  | plain _ ih => exact ih
  | @rest piece _ ih =>
      intro name previous leads
      have last : .declared name ∉ patternNames (.operator "...".toList) [] := List.not_mem_nil
      rw [mem_patternNames_divided (by simp) (by simp), or_iff_left last]
      exact ih name previous leads
  | spread _ ih =>
      intro name previous _
      simpa [patternNames] using ih name (.operator "...".toList) (by decide)
  | @default_ piece expression _ _ ih =>
      intro name previous leads
      rw [mem_patternNames_divided (by simp) (by simp), ih name previous leads,
        mem_patternNames_expression]
      simp only [List.mem_append, List.mem_singleton]
      constructor
      · rintro ((variable_ | ⟨other, member, mistaken⟩) | mistaken)
        · exact Or.inl variable_
        · exact Or.inr ⟨other, Or.inl member, mistaken⟩
        · exact Or.inr ⟨expression, Or.inr rfl, mistaken⟩
      · rintro (variable_ | ⟨other, member | rfl, mistaken⟩)
        · exact Or.inl (Or.inl variable_)
        · exact Or.inl (Or.inr ⟨other, member, mistaken⟩)
        · exact Or.inr mistaken

end Names

section Parameters

variable {parameters : List Piece} {arrow : Token}

theorem tokenOccurrences_parameters
    (each : ∀ parameter ∈ parameters, Derives .parameter parameter)
    (follows : arrow = .operator "->".toList ∨ arrow = .operator "=>".toList)
    (previous : Option Token) (atStart : Bool) (rest : List Token) :
    tokenOccurrences previous atStart (.sign '(')
        (separated parameters ++ .sign ')' :: arrow :: rest) =
      patternNames (.sign '(') (separated parameters) := by
  have group : group? 1 (separated parameters ++ .sign ')' :: arrow :: rest) =
      some (separated parameters, arrow :: rest) := by
    have passed := separated_balanced (fun parameter member => (each parameter member).balanced) 0
      (.sign ')' :: arrow :: rest)
    rw [passed, group?_close (by decide)]
    simp
  simp only [tokenOccurrences, if_true, groupNames, group]
  rw [if_pos (by simpa using follows)]

/-- A list of parameters before an arrow uses no name. It binds every variable of its patterns,
and besides these only what stands in a default after an opening bracket, a comma, a colon or an
ellipsis and before no colon. -/
theorem parameters_bind (each : ∀ parameter ∈ parameters, Derives .parameter parameter)
    (follows : arrow = .operator "->".toList ∨ arrow = .operator "=>".toList)
    (previous : Option Token) (atStart : Bool) (rest : List Token) (name : Text) :
    .used name ∉ tokenOccurrences previous atStart (.sign '(')
        (separated parameters ++ .sign ')' :: arrow :: rest) ∧
      (.declared name ∈ tokenOccurrences previous atStart (.sign '(')
          (separated parameters ++ .sign ')' :: arrow :: rest) ↔
        (∃ parameter ∈ parameters, name ∈ parameter.bound) ∨
          ∃ parameter ∈ parameters, ∃ expression ∈ parameter.defaults,
            Mistaken name expression) := by
  rw [tokenOccurrences_parameters each follows]
  exact ⟨patternNames_declared _ _,
    separated_binds (fun parameter member => (each parameter member).binds) name (by decide)⟩

-- `({a, b: [c]}, @g, h = wrap(say), rest...)`
def wrapping : List Piece :=
  let wrapped := [.word "wrap".toList, .sign '(', .word "say".toList, .sign ')']
  [.bracketed '\x7b' '\x7d' [⟨[.word "a".toList], ["a".toList], []⟩,
      ⟨[.word "b".toList, .sign ':', .sign '[', .word "c".toList, .sign ']'], ["c".toList], []⟩],
    ⟨[.sign '@', .word "g".toList], [], []⟩,
    ⟨.word "h".toList :: .sign '=' :: wrapped, ["h".toList], [wrapped]⟩,
    ⟨[.word "rest".toList, .operator "...".toList], ["rest".toList], []⟩]

theorem wrapping_derives : ∀ parameter ∈ wrapping, Derives .parameter parameter := by
  simp only [wrapping, List.forall_mem_cons]
  refine ⟨.plain (.object ?_), .plain (.property _),
    .default_ (.name "h".toList) (by decide), .rest (.name _), by simp⟩
  have inner : Derives .pattern ⟨[.sign '[', .word "c".toList, .sign ']'], ["c".toList], []⟩ :=
    @Derives.array [⟨[.word "c".toList], ["c".toList], []⟩] (by simpa using .name _)
  simpa using And.intro (Derives.short "a".toList) (Derives.keyed "b".toList inner)

-- `c` is a variable of the list; `say` is none, and after the bracket of the call it is bound.
theorem wrapping_binds :
    Coffee.tokens "(\x7ba, b: [c]\x7d, @g, h = wrap(say), rest...) -> a".toList =
        .sign '(' :: (separated wrapping ++
          .sign ')' :: .operator "->".toList :: [.word "a".toList]) ∧
      .declared "c".toList ∈ tokenOccurrences none true (.sign '(') (separated wrapping ++
          .sign ')' :: .operator "->".toList :: [.word "a".toList]) ∧
      .declared "say".toList ∈ tokenOccurrences none true (.sign '(') (separated wrapping ++
          .sign ')' :: .operator "->".toList :: [.word "a".toList]) := by
  have binds := parameters_bind wrapping_derives (Or.inl rfl) none true [.word "a".toList]
  have mistaken : Mistaken "say".toList [.word "wrap".toList, .sign '(', .word "say".toList,
      .sign ')'] :=
    ⟨[.word "wrap".toList], .sign '(', [.sign ')'], rfl, rfl, by simp⟩
  refine ⟨by decide +kernel, (binds _).2.mpr (Or.inl ?_), (binds _).2.mpr (Or.inr ?_)⟩
  · exact ⟨_, List.mem_cons_self, by decide⟩
  · simp only [wrapping, List.exists_mem_cons_iff, List.mem_singleton, exists_eq_left]
    exact Or.inr (Or.inr (Or.inl mistaken))

end Parameters

end Brewery.Coffee
