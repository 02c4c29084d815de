import Brewery.Proofs.Disk.Place
import Brewery.Proofs.Script.Visit

/-!
Files apart from where they are included. What a file expands to depends on the stack of files
around it in one respect only: a larger stack may turn the expansion into a cycle. So what a file
contributes to an output is what it expands to by itself, moved to the right as far as all
directives on the way to it are indented.
-/

namespace Brewery

/-- A line below directives of the given indentations, the outermost first. -/
def OutLine.below (indents : List Text) (line : OutLine) : OutLine :=
  if line.role = .content ∨ Text.trim line.text = [] then line
  else { line with text := indents.flatten ++ line.text }

theorem OutLine.indented_flatten (indents : List Text) :
    indented indents.flatten = below indents := by
  funext line
  unfold below
  split
  · next kept => exact indented_of_kept _ kept
  · next moved => exact indented_of_moved _ (not_or.mp moved).1 (not_or.mp moved).2

namespace Disk

variable {disk : Disk} {path : Path} {place : Place} {contents : Contents}

theorem file?_eq_some_iff : disk.file? path = some (place, contents) ↔
    disk.locate path = .ok place ∧ disk.contentsAt? place = some contents := by
  unfold file?
  constructor
  · intro found
    split at found
    · next there located =>
        obtain ⟨held, inside, same⟩ := Option.map_eq_some_iff.mp found
        cases same
        exact ⟨located, inside⟩
    · exact absurd found (by simp)
  · rintro ⟨located, inside⟩
    simp [located, inside]

theorem contentsAt?_eq_some_iff :
    disk.contentsAt? place = some contents ↔ ∃ stamp, disk.node? place = some (.file contents stamp) := by
  unfold contentsAt?
  split
  · next held stamp there => simp [there]
  · next none =>
      simp only [reduceCtorEq, false_iff, not_exists]
      exact fun stamp there => none contents stamp there

theorem readContents_of_file? (found : disk.file? path = some (place, contents)) :
    disk.readContents path = .ok contents := by
  obtain ⟨located, inside⟩ := file?_eq_some_iff.mp found
  obtain ⟨stamp, held⟩ := contentsAt?_eq_some_iff.mp inside
  simp [readContents, node, located, held, bind, Except.bind]

theorem readText_of_file? {text : Text} (found : disk.file? path = some (place, .text text)) :
    disk.readText path = .ok text := by
  rw [readText, readContents_of_file? found]
  rfl

theorem readText_of_raw {bytes : List UInt8} (found : disk.file? path = some (place, .raw bytes)) :
    disk.readText path = .error .notText := by
  rw [readText, readContents_of_file? found]
  rfl

theorem file?_path {dir : Place} {name : Text} {stamp : Int} (rooted : disk.Rooted dir)
    (proper : Place.Proper (name :: dir))
    (held : disk.node? (name :: dir) = some (.file contents stamp)) :
    disk.file? (Place.path (name :: dir)) = some (name :: dir, contents) := by
  have located : disk.locate (Place.path (name :: dir)) = .ok (name :: dir) := by
    have walks := walks_place rooted proper.tail
    have firm : ∀ target, disk.node? (name :: dir) ≠ some (.link target) := by simp [held]
    rw [locate, locateFrom, if_neg (by simp [Place.path]), if_neg (Place.path_plain proper), start,
      Place.path_parts proper (by simp), List.reverse_cons,
      walks.concat (rooted dir List.suffix_rfl) proper.head.2.2 firm, if_neg (by simp [held])]
  exact file?_eq_some_iff.mpr ⟨located, contentsAt?_eq_some_iff.mpr ⟨stamp, held⟩⟩

theorem file?_root {name : Text} {stamp : Int} (proper : IsEntryName name)
    (held : disk.node? [name] = some (.file contents stamp)) :
    disk.file? (Place.path [name]) = some ([name], contents) := by
  refine file?_path ?_ (.cons proper fun _ inside => absurd inside List.not_mem_nil) held
  intro above suffix
  rw [List.suffix_nil.mp suffix]
  rfl

end Disk

namespace Expander

open Script

variable {expander : Expander} {disk : Disk}

theorem findInclude_file {origin : Path} {target : Text} {path : Path} {place : Place}
    {contents : Contents}
    (found : expander.findInclude disk origin target = some (path, place, contents)) :
    disk.file? path = some (place, contents) := by
  obtain ⟨candidate, _, hit⟩ := List.exists_of_findSome?_eq_some found
  obtain ⟨pair, held, same⟩ := Option.map_eq_some_iff.mp hit
  cases same
  exact held

theorem findInclude_first {expander : Expander} {disk : Disk} {origin path : Path} {target : Text}
    {others : List Path} {place : Place} {contents : Contents}
    (order : expander.candidates origin target = path :: others)
    (held : disk.file? path = some (place, contents)) :
    expander.findInclude disk origin target = some (path, place, contents) := by
  rw [findInclude, order, List.findSome?_cons, held]
  rfl

theorem stackEntry_file {path : Path} {place : Place} {contents : Contents}
    (held : disk.file? path = some (place, contents)) : stackEntry disk path = place.path := by
  simp [stackEntry, Disk.canonical, (Disk.file?_eq_some_iff.mp held).1, Except.map]

/-- An expansion that ends in an include cycle. -/
def Cyclic (result : Except ExpandError (List OutLine)) : Prop :=
  ∃ file number directive chain, result = .error (.includeCycle file number directive chain)

/-- An expansion that comes to what another comes to, unless it ends in a cycle. -/
def Follows (result alone : Except ExpandError (List OutLine)) : Prop :=
  result = alone ∨ Cyclic result

theorem Follows.bind {result alone : Except ExpandError (List OutLine)}
    {onward further : List OutLine → Except ExpandError (List OutLine)}
    (first : Follows result alone) (next : ∀ lines, Follows (onward lines) (further lines)) :
    Follows (result >>= onward) (alone >>= further) := by
  rcases first with rfl | ⟨file, number, directive, chain, rfl⟩
  · cases result with
    | error fault => exact Or.inl rfl
    | ok lines => exact next lines
  · exact Or.inr ⟨file, number, directive, chain, rfl⟩

theorem Follows.map {result alone : Except ExpandError (List OutLine)}
    (follows : Follows result alone) (move : List OutLine → List OutLine) :
    Follows (result.map move) (alone.map move) := by
  rcases follows with rfl | ⟨file, number, directive, chain, rfl⟩
  · exact Or.inl rfl
  · exact Or.inr ⟨file, number, directive, chain, rfl⟩

/-- On a larger stack an expansion comes to the same, or to a cycle. -/
theorem expandItems_follows {small big : List Path} {origin : Path} {items : List Item}
    (within : ∀ path, onStack small path = true → onStack big path = true) :
    Follows (expander.expandItems disk big origin items)
      (expander.expandItems disk small origin items) := by
  induction small, origin, items using expandItems.induct expander disk generalizing big with
  | case1 small origin =>
      rw [expandItems_nil, expandItems_nil]
      exact Or.inl rfl
  | case2 small origin rest ih | case3 small origin line rest ih | case4 small origin line rest ih
  | case5 small origin opening content closing rest ih =>
      rw [expandItems, expandItems]
      exact (ih within).bind fun lines => Or.inl rfl
  | case6 small origin number directive rest =>
      rw [expandItems, expandItems]
      exact Or.inl rfl
  | case7 small origin number directive indent target rest missing =>
      rw [expandItems_cons _ rest, expandItems_cons _ rest, expandItems_inclusion,
        expandItems_inclusion, missing]
      exact Or.inl rfl
  | case8 small origin number directive indent target rest path place contents found again =>
      rw [expandItems_cons _ rest, expandItems_inclusion, found]
      simp only [within _ again, if_true]
      exact Or.inr ⟨_, _, _, _, rfl⟩
  | case9 small origin number directive indent target rest path place fresh bytes found =>
      rw [expandItems_cons _ rest, expandItems_cons _ rest, expandItems_inclusion,
        expandItems_inclusion, found]
      simp only [fresh]
      split
      · exact Or.inr ⟨_, _, _, _, rfl⟩
      · exact Or.inl rfl
  | case10 small origin number directive indent target rest path place fresh text found _ _ inner ih =>
      rw [expandItems_cons _ rest, expandItems_cons _ rest, expandItems_inclusion,
        expandItems_inclusion, found]
      simp only [fresh]
      split
      · exact Or.inr ⟨_, _, _, _, rfl⟩
      · have pushed : ∀ other, onStack (small ++ [place.path]) other = true →
            onStack (big ++ [place.path]) other = true := by
          intro other active
          rw [onStack_append, Bool.or_eq_true] at active ⊢
          exact active.imp (within other) id
        apply Follows.bind
        · exact (inner pushed).map _
        · intro own
          exact (ih within).bind fun lines => Or.inl rfl

section Included

variable {here : Standing} {number : Nat} {directive indent : Text} {path : Path} {place : Place}
  {contents : Contents} {text : Text}

theorem Standing.Includes.file
    (includes : here.Includes expander disk number directive indent path place contents) :
    disk.file? path = some (place, contents) := by
  obtain ⟨target, next, rest, _, found⟩ := includes
  exact findInclude_file found

/-- Inside a directive a file expands as it does by itself, or to a cycle. -/
theorem Standing.Includes.follows
    (includes : here.Includes expander disk number directive indent path place (.text text)) :
    Follows ((here.inside indent path place text).result expander disk)
      (expander.expandLines disk text path) := by
  rw [expandLines, stackEntry_file includes.file]
  apply expandItems_follows
  intro other active
  change onStack (here.stack ++ [place.path]) other = true
  rw [onStack_append, Bool.or_eq_true]
  exact Or.inr (by simpa [onStack] using active)

theorem expandFile_eq_ok {output : Text} : expander.expandFile disk path = .ok output ↔
    ∃ script own, disk.readText path = .ok script ∧
      expander.expandLines disk script path = .ok own ∧ OutLine.render own = output := by
  unfold expandFile
  cases read : disk.readText path with
  | error fault => simp
  | ok script => simp [expandText, map_eq_ok]

/-- A successful expansion has taken in every file that it came to include. -/
theorem Reached.included {origin : Path} {whole : Text} {lines : List OutLine}
    (reached : Reached expander disk whole origin here)
    (includes : here.Includes expander disk number directive indent path place contents)
    (expands : expander.expandLines disk whole origin = .ok lines) :
    ∃ script own after, contents = .text script ∧
      (here.inside indent path place script).result expander disk = .ok own ∧
      lines = here.written ++ own.map (OutLine.below (here.indents ++ [indent])) ++ after := by
  obtain ⟨more, _, fine, _⟩ := reached.output expands
  obtain ⟨taken, next⟩ := includes.next
  have unfailing {fault : ExpandError} :
      expander.expandItems disk here.stack here.origin [taken.item] ≠ .error fault :=
    fun fails => absurd (fine.symm.trans (Standing.result_of_failing next fails)) (by simp)
  have fresh : onStack here.stack place.path = false := by
    cases active : onStack here.stack place.path with
    | false => rfl
    | true => exact absurd (includes.again next active) unfailing
  cases contents with
  | raw bytes => exact absurd (includes.unreadable next fresh) unfailing
  | text script =>
      obtain ⟨own, after, result, shape⟩ :=
        Reached.output (reached.tail (.enter includes fresh)) expands
      refine ⟨script, own, after, rfl, result, ?_⟩
      rw [shape, Standing.indent, OutLine.indented_flatten]
      rfl

/-- What a file contributes to an expansion is what it expands to by itself, below the directives
on the way to it; and a file that expands by itself can fail in a directive by a cycle only. -/
theorem included_alone {origin : Path} {whole : Text}
    (reached : Reached expander disk whole origin here)
    (includes : here.Includes expander disk number directive indent path place contents) :
    (∀ lines, expander.expandLines disk whole origin = .ok lines →
      ∃ script own after, disk.readText path = .ok script ∧
        expander.expandLines disk script path = .ok own ∧
        expander.expandFile disk path = .ok (OutLine.render own) ∧
        lines = here.written ++ own.map (OutLine.below (here.indents ++ [indent])) ++ after) ∧
    (∀ output taken fault, expander.expandFile disk path = .ok output →
      here.next? = some taken →
      expander.expandItems disk here.stack here.origin [taken.item] = .error fault →
      ∃ file line directive chain, fault = .includeCycle file line directive chain) := by
  constructor
  · intro lines expands
    obtain ⟨script, own, after, rfl, result, shape⟩ := reached.included includes expands
    have read := Disk.readText_of_file? includes.file
    rcases includes.follows with same | ⟨_, _, _, _, cyclic⟩
    · have alone : expander.expandLines disk script path = .ok own := same.symm.trans result
      exact ⟨script, own, after, read, alone, expandFile_eq_ok.mpr ⟨script, own, read, alone, rfl⟩,
        shape⟩
    · exact absurd (result.symm.trans cyclic) (by simp)
  · intro output taken fault expands next fails
    obtain ⟨script, own, read, alone, _⟩ := expandFile_eq_ok.mp expands
    cases active : onStack here.stack place.path with
    | true => exact ⟨_, _, _, _, Except.error.inj (fails.symm.trans (includes.again next active))⟩
    | false =>
        cases contents with
        | raw bytes => exact absurd (Disk.readText_of_raw includes.file) (by simp [read])
        | text text =>
            cases read.symm.trans (Disk.readText_of_file? includes.file)
            rw [includes.entered next active] at fails
            rcases includes.follows with same | ⟨file, line, directive, chain, cyclic⟩
            · rw [same, alone] at fails
              exact absurd fails (by simp [Except.map])
            · rw [cyclic] at fails
              exact ⟨file, line, directive, chain, (Except.error.inj fails).symm⟩

end Included

section Nested

/-- Keeps every line, and looks for a file nowhere but beside the file that includes it. -/
def plain : Expander := ⟨.retain, []⟩

def mainText : Text := "run = ->\n  include a\nlast = \x7b\x7bLINE\x7d\x7d\n".toList

def outerText : Text := "if x\n  include b\n__END__\nlost\n".toList

def innerText : Text := "t = <<<T\nsay #\x7bx\x7d\nT\n".toList

def mainPath : Path := Place.path ["main".toList]

def outerPath : Path := Place.path ["a".toList]

def innerPath : Path := Place.path ["b".toList]

/-- A file that includes a file that includes a file. -/
def nested : Disk where
  nodes :=
    [(["main".toList], .file (.text mainText) 0), (["a".toList], .file (.text outerText) 0),
      (["b".toList], .file (.text innerText) 0)]
  current := []
  clock := 0

theorem outer_held {disk : Disk} {contents : Contents} {stamp : Int}
    (held : disk.node? ["a".toList] = some (.file contents stamp)) :
    disk.file? outerPath = some (["a".toList], contents) :=
  Disk.file?_root ⟨by decide, by decide, by decide, by decide, by decide⟩ held

theorem mainPath_file : nested.file? mainPath = some (["main".toList], .text mainText) :=
  Disk.file?_root ⟨by decide, by decide, by decide, by decide, by decide⟩ rfl

theorem outerPath_file : nested.file? outerPath = some (["a".toList], .text outerText) :=
  outer_held rfl

theorem innerPath_file : nested.file? innerPath = some (["b".toList], .text innerText) :=
  Disk.file?_root ⟨by decide, by decide, by decide, by decide, by decide⟩ rfl

theorem outer_found (origin : Path) (beside : plain.candidates origin "a".toList = [outerPath]) :
    plain.findInclude nested origin "a".toList =
      some (outerPath, ["a".toList], .text outerText) :=
  findInclude_first beside outerPath_file

theorem inner_found : plain.findInclude nested outerPath "b".toList =
    some (innerPath, ["b".toList], .text innerText) :=
  findInclude_first rfl innerPath_file

/-- Behind the first line of the script. -/
def atOuter : Standing :=
  ⟨[mainPath], mainPath, 2, (physicalLines mainText).drop 1, [], [⟨.code, "run = ->".toList⟩]⟩

/-- Behind the first line of the file that it includes. -/
def atInner : Standing :=
  ⟨[mainPath, outerPath], outerPath, 2, (physicalLines outerText).drop 1, ["  ".toList],
    [⟨.code, "run = ->".toList⟩, ⟨.code, "  if x".toList⟩]⟩

theorem atOuter_includes : atOuter.Includes plain nested 2 "include a".toList "  ".toList outerPath
    ["a".toList] (.text outerText) :=
  ⟨"a".toList, 3, (physicalLines mainText).drop 2, by decide +kernel, outer_found mainPath rfl⟩

theorem atInner_includes : atInner.Includes plain nested 2 "include b".toList "  ".toList innerPath
    ["b".toList] (.text innerText) :=
  ⟨"b".toList, 3, (physicalLines outerText).drop 2, by decide +kernel, inner_found⟩

theorem atInner_reached : Reached plain nested mainText mainPath atInner := by
  have start : Standing.outset nested mainText mainPath =
      ⟨[mainPath], mainPath, 1, physicalLines mainText, [], []⟩ := by
    rw [Standing.outset, stackEntry_file mainPath_file]
    rfl
  have first : Step plain nested (.outset nested mainText mainPath) atOuter := by
    have next : (Standing.outset nested mainText mainPath).next? =
        some ⟨.code "run = ->".toList, 2, (physicalLines mainText).drop 1⟩ := by decide +kernel
    have passed : Step plain nested (.outset nested mainText mainPath) _ :=
      .pass next (expandItems_code _)
    rw [start] at passed ⊢
    exact passed
  have second : Step plain nested atOuter
      (atOuter.inside "  ".toList outerPath ["a".toList] outerText) :=
    .enter atOuter_includes (by decide)
  have third : Step plain nested (atOuter.inside "  ".toList outerPath ["a".toList] outerText)
      atInner := by
    have next : (atOuter.inside "  ".toList outerPath ["a".toList] outerText).next? =
        some ⟨.code "if x".toList, 2, (physicalLines outerText).drop 1⟩ := by decide +kernel
    exact .pass next (expandItems_code _)
  exact ((Relation.ReflTransGen.single first).tail second).tail third

def innerLines : List OutLine :=
  [⟨.code, "t = \"\"\"".toList⟩, ⟨.content, "say \\#\x7bx\x7d".toList⟩, ⟨.code, "\"\"\"".toList⟩]

theorem inner_lines (stack : List Path) :
    plain.expandItems nested stack innerPath (itemsOf innerPath.displayName innerText) =
      .ok innerLines := by
  have items : itemsOf innerPath.displayName innerText =
      [.block "t = \"\"\"".toList ["say \\#\x7bx\x7d".toList] "\"\"\"".toList] := by decide +kernel
  rw [items, expandItems, expandItems_nil]
  rfl

theorem outer_items : itemsOf outerPath.displayName outerText =
    [.code "if x".toList, .inclusion 2 "include b".toList "  ".toList "b".toList] := by
  decide +kernel

theorem outer_lines {stack : List Path} (fresh : onStack stack innerPath = false) :
    plain.expandItems nested stack outerPath (itemsOf outerPath.displayName outerText) =
      .ok (⟨.code, "if x".toList⟩ :: innerLines.map (OutLine.indented "  ".toList)) := by
  rw [outer_items, expandItems, expandItems_inclusion, inner_found]
  simp only [show Place.path ["b".toList] = innerPath from rfl, fresh, inner_lines]
  rfl

theorem nested_lines : plain.expandLines nested mainText mainPath = .ok
    ([⟨.code, "run = ->".toList⟩, ⟨.code, "  if x".toList⟩] ++
      innerLines.map (OutLine.below ["  ".toList, "  ".toList]) ++
      [⟨.code, "last = 3".toList⟩]) := by
  have items : itemsOf mainPath.displayName mainText =
      [.code "run = ->".toList, .inclusion 2 "include a".toList "  ".toList "a".toList,
        .code "last = 3".toList] := by decide +kernel
  have fresh : onStack [mainPath] outerPath = false := by decide
  have outer : plain.expandItems nested ([mainPath] ++ [outerPath]) outerPath
      (itemsOf outerPath.displayName outerText) = _ := outer_lines (by decide)
  rw [expandLines, stackEntry_file mainPath_file, items, expandItems, expandItems_cons,
    expandItems_inclusion, outer_found mainPath rfl, expandItems_code]
  simp only [show Place.path ["a".toList] = outerPath from rfl,
    show Place.path ["main".toList] = mainPath from rfl, outer, fresh]
  rfl

/-- The inner file as it is being edited: it now includes the file that includes it. -/
def editedText : Text := "include a\n".toList

theorem edited_includes : (Standing.outset nested editedText innerPath).Includes plain nested 1
    "include a".toList [] outerPath ["a".toList] (.text outerText) :=
  ⟨"a".toList, 2, [], by decide +kernel, outer_found innerPath rfl⟩

theorem edited_cycle : plain.expandItems nested [stackEntry nested innerPath] innerPath
      [.inclusion 1 "include a".toList [] "a".toList] =
    .error (.includeCycle outerPath 2 "include b".toList [innerPath, outerPath, innerPath]) := by
  have again : plain.expandItems nested [innerPath, outerPath] outerPath
      [.code "if x".toList, .inclusion 2 "include b".toList "  ".toList "b".toList] =
      .error (.includeCycle outerPath 2 "include b".toList [innerPath, outerPath, innerPath]) := by
    have active : onStack [innerPath, outerPath] (Place.path ["b".toList]) = true := by decide
    rw [expandItems, expandItems_inclusion, inner_found]
    simp only [active, if_true]
    rfl
  have fresh : onStack [innerPath] outerPath = false := by decide
  have entered : plain.expandItems nested ([innerPath] ++ [outerPath]) outerPath
      (itemsOf outerPath.displayName outerText) = _ := (congrArg _ outer_items).trans again
  rw [stackEntry_file innerPath_file, expandItems_inclusion, outer_found innerPath rfl]
  simp only [show Place.path ["a".toList] = outerPath from rfl,
    show Place.path ["b".toList] = innerPath from rfl, entered, fresh]
  rfl

/-- A file two directives deep is found in the output below both; and a file that expands by
itself fails in a directive of a file that it includes. -/
theorem nested_alone :
    (Reached plain nested mainText mainPath atInner ∧
      atInner.Includes plain nested 2 "include b".toList "  ".toList innerPath ["b".toList]
        (.text innerText) ∧
      ∃ lines script own after, plain.expandLines nested mainText mainPath = .ok lines ∧
        nested.readText innerPath = .ok script ∧
        plain.expandLines nested script innerPath = .ok own ∧
        plain.expandFile nested innerPath = .ok (OutLine.render own) ∧
        lines = atInner.written ++
          own.map (OutLine.below (atInner.indents ++ ["  ".toList])) ++ after) ∧
    ∃ file line directive chain, plain.expandItems nested [stackEntry nested innerPath] innerPath
        [.inclusion 1 "include a".toList [] "a".toList] =
      .error (.includeCycle file line directive chain) := by
  refine ⟨⟨atInner_reached, atInner_includes, ?_⟩, ?_⟩
  · obtain ⟨script, own, after, found⟩ :=
      (included_alone atInner_reached atInner_includes).1 _ nested_lines
    exact ⟨_, script, own, after, nested_lines, found⟩
  · have alone : plain.expandFile nested outerPath = .ok _ :=
      expandFile_eq_ok.mpr ⟨outerText, _, Disk.readText_of_file? outerPath_file,
        (congrArg (fun entry => plain.expandItems nested [entry] outerPath _)
          (stackEntry_file outerPath_file)).trans (outer_lines (by decide)), rfl⟩
    have next : (Standing.outset nested editedText innerPath).next? =
        some ⟨.inclusion 1 "include a".toList [] "a".toList, 2, []⟩ := by decide +kernel
    obtain ⟨file, line, directive, chain, cyclic⟩ :=
      (included_alone .refl edited_includes).2 _ _ _ alone next edited_cycle
    exact ⟨file, line, directive, chain, edited_cycle.trans (congrArg _ cyclic)⟩

end Nested

end Expander
end Brewery
