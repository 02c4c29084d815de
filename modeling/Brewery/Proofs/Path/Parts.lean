import Brewery.Source.Artifact

/-!
Paths as folders and names. The parts of a path can be put together again, so joining a name
to a folder gives a path whose parts are those of the folder and then the name. An artifact
is such a path: it keeps the folder of its source and replaces the last name only.
-/

namespace Brewery

namespace Text

theorem splitAt_of_not_mem {separator : Char} {text : Text} (absent : separator ∉ text) :
    splitAt separator text = [text] := by
  induction text with
  | nil => rfl
  | cons first rest ih =>
      simp only [List.mem_cons, not_or] at absent
      rw [splitAt, if_neg (Ne.symm absent.1), ih absent.2]

theorem splitAt_append (separator : Char) (left right : Text) :
    splitAt separator (left ++ separator :: right) =
      splitAt separator left ++ splitAt separator right := by
  induction left with
  | nil => simp [splitAt]
  | cons first rest ih =>
      simp only [List.cons_append, splitAt, ih]
      split
      · rfl
      · cases parts : splitAt separator rest with
        | nil => exact absurd parts (splitAt_ne_nil separator rest)
        | cons part more => rfl

theorem not_mem_of_mem_splitAt {separator : Char} {text part : Text}
    (member : part ∈ splitAt separator text) : separator ∉ part := by
  induction text generalizing part with
  | nil => simp only [splitAt, List.mem_singleton] at member; simp [member]
  | cons first rest ih =>
      simp only [splitAt] at member
      split at member
      · rcases List.mem_cons.mp member with same | later
        · simp [same]
        · exact ih later
      · next different =>
          cases parts : splitAt separator rest with
          | nil => exact absurd parts (splitAt_ne_nil separator rest)
          | cons head more =>
              rw [parts] at member ih
              rcases List.mem_cons.mp member with same | later
              · subst same
                simp only [List.mem_cons, not_or]
                exact ⟨Ne.symm different, ih List.mem_cons_self⟩
              · exact ih (List.mem_cons_of_mem _ later)

theorem joinWith_cons (separator part : Text) {parts : List Text} (some : parts ≠ []) :
    joinWith separator (part :: parts) = part ++ separator ++ joinWith separator parts := by
  cases parts with
  | nil => exact absurd rfl some
  | cons next rest => rfl

theorem joinWith_concat (separator : Text) {parts : List Text} (last : Text) (some : parts ≠ []) :
    joinWith separator (parts ++ [last]) = joinWith separator parts ++ separator ++ last := by
  induction parts with
  | nil => exact absurd rfl some
  | cons part rest ih =>
      cases rest with
      | nil => rfl
      | cons next more =>
          have tail := ih (List.cons_ne_nil next more)
          rw [List.cons_append] at tail
          simp only [List.cons_append, joinWith, tail, List.append_assoc]

-- The converse of `joinWith_splitAt`, for parts that hold no separator themselves.
theorem splitAt_joinWith {separator : Char} {parts : List Text} (some : parts ≠ [])
    (free : ∀ part ∈ parts, separator ∉ part) :
    splitAt separator (joinWith [separator] parts) = parts := by
  induction parts with
  | nil => exact absurd rfl some
  | cons part rest ih =>
      have head : separator ∉ part := free part List.mem_cons_self
      cases rest with
      | nil => exact splitAt_of_not_mem head
      | cons next more =>
          have tail := ih (by simp) fun other member => free other (List.mem_cons_of_mem _ member)
          rw [joinWith_cons _ _ (by simp), List.append_assoc, List.singleton_append,
            splitAt_append, splitAt_of_not_mem head, tail]
          rfl

theorem mem_joinWith {separator : Text} {parts : List Text} {c : Char}
    (member : c ∈ joinWith separator parts) : c ∈ separator ∨ ∃ part ∈ parts, c ∈ part := by
  induction parts with
  | nil => simp [joinWith] at member
  | cons part rest ih =>
      cases rest with
      | nil => exact Or.inr ⟨part, by simp, member⟩
      | cons next more =>
          rw [joinWith_cons _ _ (by simp), List.mem_append, List.mem_append] at member
          rcases member with (here | between) | later
          · exact Or.inr ⟨part, by simp, here⟩
          · exact Or.inl between
          · rcases ih later with between | ⟨other, inside, hit⟩
            · exact Or.inl between
            · exact Or.inr ⟨other, List.mem_cons_of_mem _ inside, hit⟩

theorem mem_of_mem_splitAt {separator c : Char} {text part : Text}
    (member : part ∈ splitAt separator text) (inside : c ∈ part) : c ∈ text := by
  induction text generalizing part with
  | nil => simp only [splitAt, List.mem_singleton] at member; simp [member] at inside
  | cons first rest ih =>
      simp only [splitAt] at member
      split at member
      · rcases List.mem_cons.mp member with same | later
        · simp [same] at inside
        · exact List.mem_cons_of_mem _ (ih later inside)
      · cases parts : splitAt separator rest with
        | nil => exact absurd parts (splitAt_ne_nil separator rest)
        | cons head more =>
            rw [parts] at member ih
            rcases List.mem_cons.mp member with same | later
            · subst same
              rcases List.mem_cons.mp inside with first | tail
              · exact List.mem_cons.mpr (Or.inl first)
              · exact List.mem_cons_of_mem _ (ih List.mem_cons_self tail)
            · exact List.mem_cons_of_mem _ (ih (List.mem_cons_of_mem _ later) inside)

end Text

/-- The name of the artifact that a stage makes of a file of the given name. -/
def Stage.artifactName (stage : Stage) (name : Text) : Text :=
  let stem := (Path.splitExtension name).1
  (if stage.exposes then exposedStem stem else stem) ++ '.' :: stage.outputExtension

namespace Path

/-- Segments that a path with this lead can have: no slash is left in one, and without a
lead the first could not be read as one. -/
def Follows (lead : Lead) (segments : List Text) : Prop :=
  (∀ segment ∈ segments, '/' ∉ segment) ∧
    (lead = .none → ∀ first, segments.head? = some first → first ≠ [] ∧ first ≠ ['.'])

theorem parts_of_empty {path : Path} (empty : path.text = []) : path.parts = (.none, [[]]) := by
  simp [parts, empty, Text.splitAt]

theorem parts_follow (path : Path) (written : path.text ≠ []) :
    Follows path.parts.1 path.parts.2 := by
  unfold parts
  split
  · exact ⟨fun _ => Text.not_mem_of_mem_splitAt, by simp⟩
  · next relative =>
      have free : ∀ segment ∈ Text.splitAt '/' path.text, '/' ∉ segment :=
        fun _ => Text.not_mem_of_mem_splitAt
      split
      · next rest cut =>
          rw [cut] at free
          exact ⟨fun segment member => free segment (List.mem_cons_of_mem _ member), by simp⟩
      · next segments plain =>
          refine ⟨free, fun _ first head => ⟨?_, ?_⟩⟩
          · rintro rfl
            cases shape : path.text with
            | nil => exact written shape
            | cons c more =>
                by_cases slash : c = '/'
                · exact relative more (by rw [shape, slash])
                · rw [shape, Text.splitAt, if_neg slash] at head
                  split at head <;> simp at head
          · rintro rfl
            cases shape : Text.splitAt '/' path.text with
            | nil => exact Text.splitAt_ne_nil _ _ shape
            | cons part more =>
                rw [shape, List.head?_cons, Option.some.injEq] at head
                exact plain more (by rw [shape, head])

theorem parts_ofParts {lead : Lead} {segments : List Text} (some : segments ≠ [])
    (follows : Follows lead segments) : (ofParts lead segments).parts = (lead, segments) := by
  obtain ⟨free, opening⟩ := follows
  have cut := Text.splitAt_joinWith some free
  cases lead with
  | root => simp only [ofParts, parts, cut]
  | here =>
      have dotted : Text.splitAt '/' (Text.joinWith ['/'] (['.'] :: segments)) = ['.'] :: segments :=
        Text.splitAt_joinWith (by simp) (by simpa using free)
      have start : ∃ rest, Text.joinWith ['/'] (['.'] :: segments) = '.' :: rest :=
        ⟨_, by rw [Text.joinWith_cons _ _ some]; rfl⟩
      obtain ⟨rest, start⟩ := start
      simp only [ofParts, parts]
      rw [start] at dotted ⊢
      simp [dotted]
  | none =>
      cases segments with
      | nil => exact absurd rfl some
      | cons first more =>
          obtain ⟨written, undotted⟩ := opening rfl first rfl
          obtain ⟨c, tail, shape⟩ := List.exists_cons_of_ne_nil written
          have unslashed : c ≠ '/' := by
            rintro rfl
            exact free first List.mem_cons_self (by simp [shape])
          have start : ∃ rest, Text.joinWith ['/'] (first :: more) = c :: rest := by
            cases more with
            | nil => exact ⟨tail, shape⟩
            | cons next others => exact ⟨_, by rw [Text.joinWith, shape]; rfl⟩
          obtain ⟨rest, start⟩ := start
          simp only [ofParts, parts]
          rw [start] at cut ⊢
          split
          · next heads => simp only [List.cons.injEq] at heads; exact absurd heads.1 unslashed
          · rw [cut]
            split
            · next heads => simp only [List.cons.injEq] at heads; exact absurd heads.1 undotted
            · rfl

theorem mem_text_of_mem_parts {path : Path} {segment : Text} {c : Char}
    (member : segment ∈ path.parts.2) (inside : c ∈ segment) : c ∈ path.text := by
  unfold parts at member
  split at member
  · next rest shape =>
      rw [shape]
      exact List.mem_cons_of_mem _ (Text.mem_of_mem_splitAt member inside)
  · split at member
    · next rest cut =>
        exact Text.mem_of_mem_splitAt (by rw [cut]; exact List.mem_cons_of_mem _ member) inside
    · exact Text.mem_of_mem_splitAt member inside

theorem mem_text_ofParts {lead : Lead} {segments : List Text} {c : Char}
    (member : c ∈ (ofParts lead segments).text) :
    c = '/' ∨ c = '.' ∨ ∃ segment ∈ segments, c ∈ segment := by
  cases lead with
  | root =>
      rcases List.mem_cons.mp member with slash | inside
      · exact Or.inl slash
      · rcases Text.mem_joinWith inside with slash | held
        · exact Or.inl (List.mem_singleton.mp slash)
        · exact Or.inr (Or.inr held)
  | here =>
      rcases Text.mem_joinWith member with slash | ⟨segment, held, hit⟩
      · exact Or.inl (List.mem_singleton.mp slash)
      · rcases List.mem_cons.mp held with dot | held
        · subst dot
          exact Or.inr (Or.inl (List.mem_singleton.mp hit))
        · exact Or.inr (Or.inr ⟨segment, held, hit⟩)
  | none =>
      rcases Text.mem_joinWith member with slash | held
      · exact Or.inl (List.mem_singleton.mp slash)
      · exact Or.inr (Or.inr held)

/-- The segments that lead to the directory a path is in, without the fillers at their end. -/
def folder (path : Path) : List Text :=
  (((path.parts.2.reverse.dropWhile isFiller).drop 1).dropWhile isFiller).reverse

theorem fileName?_eq_some_iff {path : Path} {name : Text} :
    path.fileName? = some name ↔
      (path.parts.2.reverse.dropWhile isFiller).head? = some name ∧ name ≠ ['.', '.'] := by
  unfold fileName?
  cases path.parts.2.reverse.dropWhile isFiller with
  | nil => simp
  | cons last before =>
      by_cases up : last = ['.', '.']
      · simp only [up, ↓reduceIte, reduceCtorEq, List.head?_cons, Option.some.injEq, false_iff]
        rintro ⟨same, different⟩
        exact different same.symm
      · simp only [up, ↓reduceIte, Option.some.injEq, List.head?_cons]
        exact ⟨fun same => ⟨same, same ▸ up⟩, fun both => both.1⟩

theorem fileName?_not_filler {path : Path} {name : Text} (named : path.fileName? = some name) :
    isFiller name = false := by
  have head := (fileName?_eq_some_iff.mp named).1
  have kept := List.head?_dropWhile_not isFiller path.parts.2.reverse
  rw [head] at kept
  simpa using kept

-- A path is its folder and its name, and fillers that change neither.
theorem parts_split {path : Path} {name : Text} (named : path.fileName? = some name) :
    ∃ inner outer, path.parts.2 = path.folder ++ inner ++ name :: outer ∧
      (∀ segment ∈ inner, isFiller segment = true) ∧
      (∀ segment ∈ outer, isFiller segment = true) := by
  obtain ⟨head, _⟩ := fileName?_eq_some_iff.mp named
  obtain ⟨before, shape⟩ : ∃ before, path.parts.2.reverse.dropWhile isFiller = name :: before := by
    cases shape : path.parts.2.reverse.dropWhile isFiller with
    | nil => simp [shape] at head
    | cons last before =>
        simp only [shape, List.head?_cons, Option.some.injEq] at head
        exact ⟨before, by rw [head]⟩
  refine ⟨(before.takeWhile isFiller).reverse,
    (path.parts.2.reverse.takeWhile isFiller).reverse, ?_, ?_, ?_⟩
  · have whole : path.parts.2.reverse =
        path.parts.2.reverse.takeWhile isFiller ++ name ::
          (before.takeWhile isFiller ++ before.dropWhile isFiller) := by
      rw [List.takeWhile_append_dropWhile, ← shape, List.takeWhile_append_dropWhile]
    have turned := (List.reverse_reverse path.parts.2).symm.trans (congrArg List.reverse whole)
    refine turned.trans ?_
    simp only [folder, shape, List.drop_one, List.tail_cons, List.reverse_append,
      List.reverse_cons, List.append_assoc, List.cons_append, List.nil_append]
  · intro segment member
    exact List.all_eq_true.mp List.all_takeWhile segment (List.mem_reverse.mp member)
  · intro segment member
    exact List.all_eq_true.mp List.all_takeWhile segment (List.mem_reverse.mp member)

theorem folder_append {path : Path} {before : List Text} {name : Text}
    (shape : path.parts.2 = before ++ [name]) (kept : isFiller name = false) :
    ∃ inner, before = path.folder ++ inner ∧ ∀ segment ∈ inner, isFiller segment = true := by
  have turned : path.parts.2.reverse.dropWhile isFiller = name :: before.reverse := by
    rw [shape, List.reverse_append, List.reverse_singleton, List.singleton_append,
      List.dropWhile_cons_of_neg (by simp [kept])]
  refine ⟨(before.reverse.takeWhile isFiller).reverse, ?_, fun segment member => ?_⟩
  · rw [folder, turned, List.drop_one, List.tail_cons, ← List.reverse_append,
      List.takeWhile_append_dropWhile, List.reverse_reverse]
  · exact List.all_eq_true.mp List.all_takeWhile segment (List.mem_reverse.mp member)

theorem folder_getLast? {path : Path} {last : Text} (ends : path.folder.getLast? = some last) :
    isFiller last = false := by
  unfold folder at ends
  rw [List.getLast?_reverse] at ends
  have kept := List.head?_dropWhile_not isFiller
    ((path.parts.2.reverse.dropWhile isFiller).drop 1)
  rw [ends] at kept
  simpa using kept

theorem parent?_eq {path : Path} {name : Text} (named : path.fileName? = some name) :
    path.parent? = some (ofParts path.parts.1 path.folder) := by
  have head := (fileName?_eq_some_iff.mp named).1
  unfold parent? folder
  cases shape : path.parts.2.reverse.dropWhile isFiller with
  | nil => simp [shape] at head
  | cons last before => simp [shape]

theorem text_ne_nil {path : Path} {name : Text} (named : path.fileName? = some name) :
    path.text ≠ [] := by
  intro empty
  have none : path.fileName? = none := by
    simp [fileName?, parts_of_empty empty, isFiller]
  rw [none] at named
  exact absurd named (by simp)

theorem folder_follows {path : Path} {name : Text} (named : path.fileName? = some name) :
    Follows path.parts.1 path.folder := by
  obtain ⟨free, opening⟩ := parts_follow path (text_ne_nil named)
  obtain ⟨inner, outer, shape, _, _⟩ := parts_split named
  refine ⟨fun segment member => free segment (by simp [shape, member]), ?_⟩
  intro bare first head
  apply opening bare first
  rw [shape, List.append_assoc, List.head?_append, head]
  rfl

theorem splitExtension_append {name stem extension : Text}
    (cut : splitExtension name = (stem, some extension)) : name = stem ++ '.' :: extension := by
  unfold splitExtension at cut
  split at cut
  · next before shape =>
      split at cut
      · simp at cut
      · simp only [Prod.mk.injEq, Option.some.injEq] at cut
        obtain ⟨rfl, rfl⟩ := cut
        have whole := List.takeWhile_append_dropWhile (p := (· ≠ '.')) (l := name.reverse)
        rw [shape] at whole
        have turned := congrArg List.reverse whole
        simpa using turned.symm
  · simp at cut

theorem mem_of_mem_stem {name : Text} {c : Char} (member : c ∈ (splitExtension name).1) :
    c ∈ name := by
  cases cut : splitExtension name with
  | mk stem extension =>
      rw [cut] at member
      cases extension with
      | some extension =>
          rw [splitExtension_append cut]
          exact List.mem_append_left _ member
      | none =>
          unfold splitExtension at cut
          split at cut
          · split at cut
            · simp only [Prod.mk.injEq, and_true] at cut; rwa [cut]
            · simp at cut
          · simp only [Prod.mk.injEq, and_true] at cut; rwa [cut]

theorem mem_artifactName {stage : Stage} {name : Text} {c : Char}
    (member : c ∈ stage.artifactName name) :
    c ∈ name ∨ c = '.' ∨ c ∈ stage.outputExtension := by
  simp only [Stage.artifactName, List.mem_append, List.mem_cons] at member
  rcases member with stem | dot | extension
  · left
    apply mem_of_mem_stem
    split at stem
    · unfold exposedStem at stem
      cases cut : Text.dropPrefix? ['_'] (splitExtension name).1 with
      | none => simpa [cut] using stem
      | some rest =>
          rw [(Text.dropPrefix?_eq_some_iff _ _ _).mp cut]
          simp only [cut, Option.getD_some] at stem
          exact List.mem_append_right _ stem
    · exact stem
  · exact Or.inr (Or.inl dot)
  · exact Or.inr (Or.inr extension)

theorem artifactName_getLast? (stage : Stage) (name : Text) :
    (stage.artifactName name).getLast? = stage.outputExtension.getLast? := by
  have written : stage.outputExtension ≠ [] := by
    cases stage <;> decide
  obtain ⟨first, rest, shape⟩ := List.exists_cons_of_ne_nil written
  rw [Stage.artifactName, shape]
  simp only [List.getLast?_append, List.getLast?_cons_cons]
  simp [List.getLast?_cons]

-- An artifact name ends like its extension, so it is neither empty nor made of dots.
theorem artifactName_ordinary (stage : Stage) (name : Text) :
    isFiller (stage.artifactName name) = false ∧ stage.artifactName name ≠ ['.', '.'] := by
  have ends := artifactName_getLast? stage name
  have letter : stage.outputExtension.getLast? ≠ none ∧ stage.outputExtension.getLast? ≠ some '.' := by
    cases stage <;> decide
  rw [← ends] at letter
  refine ⟨?_, ?_⟩
  · rw [isFiller, Bool.or_eq_false_iff, decide_eq_false_iff_not, decide_eq_false_iff_not]
    constructor
    · intro same
      exact letter.1 (by rw [same]; rfl)
    · intro same
      exact letter.2 (by rw [same]; rfl)
  · intro same
    exact letter.2 (by rw [same]; rfl)

/-- A name that can stand for an entry of a directory. -/
def IsName (name : Text) : Prop := '/' ∉ name ∧ isFiller name = false ∧ name ≠ ['.', '.']

theorem fileName?_isName {path : Path} {name : Text} (named : path.fileName? = some name) :
    IsName name := by
  refine ⟨?_, fileName?_not_filler named, (fileName?_eq_some_iff.mp named).2⟩
  obtain ⟨inner, outer, shape, _, _⟩ := parts_split named
  exact (parts_follow path (text_ne_nil named)).1 name (by simp [shape])

theorem artifactName_isName (stage : Stage) {name : Text} (unslashed : '/' ∉ name) :
    IsName (stage.artifactName name) := by
  refine ⟨?_, artifactName_ordinary stage name⟩
  intro slash
  rcases mem_artifactName slash with inside | dot | extension
  · exact unslashed inside
  · simp at dot
  · have plain : '/' ∉ stage.outputExtension := by
      cases stage <;> decide
    exact plain extension

theorem IsName.ne_nil {name : Text} (proper : IsName name) : name ≠ [] := by
  rintro rfl
  exact absurd proper.2.1 (by simp [isFiller])

theorem IsName.not_absolute {name : Text} (proper : IsName name) :
    isAbsolute ⟨name⟩ = false := by
  obtain ⟨c, rest, rfl⟩ := List.exists_cons_of_ne_nil proper.ne_nil
  have different : c ≠ '/' := by
    rintro rfl
    exact proper.1 List.mem_cons_self
  simpa [isAbsolute] using different

theorem follows_concat {lead : Lead} {segments : List Text} {name : Text}
    (follows : Follows lead segments) (proper : IsName name) :
    Follows lead (segments ++ [name]) := by
  refine ⟨?_, ?_⟩
  · intro segment member
    rcases List.mem_append.mp member with before | last
    · exact follows.1 segment before
    · rw [List.mem_singleton.mp last]; exact proper.1
  · intro bare first head
    cases segments with
    | nil =>
        simp only [List.nil_append, List.head?_cons, Option.some.injEq] at head
        subst head
        refine ⟨proper.ne_nil, ?_⟩
        rintro rfl
        exact absurd proper.2.1 (by simp [isFiller])
    | cons segment rest => exact follows.2 bare first head

theorem ofParts_join {lead : Lead} {segments : List Text} {name : Text} (proper : IsName name)
    (follows : Follows lead segments)
    (ends : ∀ last, segments.getLast? = some last → last ≠ []) :
    (ofParts lead segments).join ⟨name⟩ = ofParts lead (segments ++ [name]) := by
  rw [join, proper.not_absolute]
  rcases List.eq_nil_or_concat segments with rfl | ⟨before, last, rfl⟩
  · cases lead <;> simp [ofParts, Text.joinWith]
  · simp only [List.concat_eq_append] at follows ends ⊢
    have written : last ≠ [] := ends last (by simp)
    have unslashed : '/' ∉ last := follows.1 last (by simp)
    -- The text of the folder ends in a character of its last segment, which is no slash.
    have tail : ∀ front : Text, (front ++ last).getLast? ≠ some '/' := by
      intro front slash
      rw [List.getLast?_append, List.getLast?_eq_some_getLast written, Option.some_or,
        Option.some.injEq] at slash
      exact unslashed (slash ▸ List.getLast_mem written)
    have text : ∃ front, (ofParts lead (before ++ [last])).text = front ++ last := by
      cases lead with
      | root =>
          by_cases empty : before = []
          · exact ⟨['/'], by simp [ofParts, empty, Text.joinWith]⟩
          · exact ⟨_, by rw [ofParts, Text.joinWith_concat _ _ empty, ← List.cons_append]⟩
      | here =>
          exact ⟨_, by rw [ofParts, ← List.cons_append, Text.joinWith_concat _ _ (by simp)]⟩
      | none =>
          by_cases empty : before = []
          · exact ⟨[], by simp [ofParts, empty, Text.joinWith]⟩
          · exact ⟨_, by rw [ofParts, Text.joinWith_concat _ _ empty]⟩
    obtain ⟨front, text⟩ := text
    have unfinished : ¬((ofParts lead (before ++ [last])).text = [] ∨
        (ofParts lead (before ++ [last])).text.getLast? = some '/') := by
      rw [text]
      rintro (empty | slash)
      · exact written (List.append_eq_nil_iff.mp empty).2
      · exact tail front slash
    rw [if_neg (by simp), if_neg (by simpa using unfinished)]
    cases lead <;> simp only [ofParts]
    · rw [Text.joinWith_concat _ name (by simp)]; simp
    · have dotted := Text.joinWith_concat ['/'] name (List.cons_ne_nil ['.'] (before ++ [last]))
      rw [List.cons_append] at dotted
      rw [dotted]; simp
    · rw [Text.joinWith_concat _ name (by simp)]; simp

theorem artifact_eq {path : Path} {name : Text} (stage : Stage)
    (named : path.fileName? = some name) :
    path.artifact stage =
      ofParts path.parts.1 (path.folder ++ [stage.artifactName name]) := by
  have proper := artifactName_isName stage (fileName?_isName named).1
  have joined := ofParts_join proper (folder_follows named) fun last ends empty => by
    have kept := folder_getLast? ends
    simp [empty, isFiller] at kept
  rw [← joined]
  simp [artifact, stem?, named, parent?_eq named, Stage.artifactName]

theorem artifact_parts {path : Path} {name : Text} (stage : Stage)
    (named : path.fileName? = some name) :
    (path.artifact stage).parts =
      (path.parts.1, path.folder ++ [stage.artifactName name]) := by
  rw [artifact_eq stage named]
  exact parts_ofParts (by simp) (follows_concat (folder_follows named)
    (artifactName_isName stage (fileName?_isName named).1))

theorem fileName?_artifact {path : Path} {name : Text} (stage : Stage)
    (named : path.fileName? = some name) :
    (path.artifact stage).fileName? = some (stage.artifactName name) := by
  obtain ⟨kept, up⟩ := artifactName_ordinary stage name
  rw [fileName?_eq_some_iff, artifact_parts stage named]
  simp [kept, up]

theorem folder_artifact {path : Path} {name : Text} (stage : Stage)
    (named : path.fileName? = some name) : (path.artifact stage).folder = path.folder := by
  obtain ⟨kept, _⟩ := artifactName_ordinary stage name
  have bare : path.folder.reverse.dropWhile isFiller = path.folder.reverse := by
    cases turned : path.folder.reverse with
    | nil => rfl
    | cons last before =>
        have ends : path.folder.getLast? = some last := by
          rw [← List.head?_reverse, turned]; rfl
        simp [folder_getLast? ends]
  rw [folder, artifact_parts stage named]
  simp [kept, bare]

end Path
end Brewery
