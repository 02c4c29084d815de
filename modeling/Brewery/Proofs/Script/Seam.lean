import Brewery.Proofs.Path.Parts
import Brewery.Proofs.Script.Context
import Brewery.Proofs.Script.Counting
import Brewery.Proofs.Script.Logical
import Brewery.Proofs.Script.Rereading

/-!
One text behind another. Where the reader of the first neither meets the end marker nor leaves a line
that goes on, he comes to the second with nothing in hand; and what he makes of the second depends on
the lines before it in the numbers alone. So the two together expand to what they expand to one
by one, and an error in the second is the same error further down.
-/

namespace Brewery.Script

open Text

/-- The reader of the lines meets no end marker, and the last of them is not left to go on. -/
structure Complete (name : Text) (number : Nat) (lines : List Text) : Prop where
  endless : ∀ {last first rest}, Comes name number lines last (first :: rest) →
    classify (logicalLine name last first rest).line ≠ .finish
  settled : ∀ {last first rest}, Comes name number lines last (first :: rest) →
    (logicalLine name last first rest).rest = [] → continues first = true →
      continues (logicalLine name last first rest).line = false

variable {name first : Text} {number count : Nat} {lines rest below : List Text} {taken : Taken}

theorem Complete.onward (complete : Complete name number lines)
    (next : take? name number lines = some taken) : Complete name taken.number taken.rest where
  endless := fun comes => complete.endless (.on next comes)
  settled := fun comes => complete.settled (.on next comes)

section Numbers

/-- Lines are alike themselves further down if the name leaves no token for the number in them. -/
theorem alike_of_bare (bare : ∀ line ∈ lines, ¬lineToken <:+: replace fileToken name line) :
    Alike name count number lines lines := by
  induction lines generalizing number with
  | nil => exact .nil
  | cons line rest ih =>
      obtain ⟨here, later⟩ := List.forall_mem_cons.mp bare
      refine .cons ?_ rfl Iff.rfl (ih later)
      rw [substitute, substitute, replace_of_not_infix here, replace_of_not_infix here]

/-- Such lines are read as the same items, with their numbers. -/
theorem items_shifted (bare : ∀ line ∈ lines, ¬lineToken <:+: replace fileToken name line) :
    items name (number + count) lines = (items name number lines).map (Item.shifted count) := by
  induction size : lines.length using Nat.strong_induction_on generalizing number lines with
  | _ length ih =>
      subst size
      cases lines with
      | nil => simp
      | cons first rest =>
          rw [items_eq_take, items_eq_take name number (first :: rest)]
          cases found : take? name number (first :: rest) with
          | none =>
              obtain ⟨joined, split, _, again⟩ := logicalLine_alike name number first rest
              have whole : first :: rest =
                  first :: joined ++ (logicalLine name number first rest).rest :=
                congrArg (first :: ·) split
              have alike : Alike name count number (first :: joined) (first :: joined) :=
                alike_of_bare fun line member => bare line (whole ▸ List.mem_append_left _ member)
              have same := again alike logicalLine_left
              have ends : take? name (number + count) (first :: rest) = none := by
                rw [take?_eq_none_iff] at found ⊢
                rw [← split] at same
                rwa [same]
              rw [ends]
              rfl
          | some taken =>
              obtain ⟨joined, block, split, left, _, last, again⟩ := take?_alike found
              have whole : first :: rest = first :: joined ++ (block ++ taken.rest) :=
                congrArg (first :: ·) split
              have alike : Alike name count number (first :: joined) (first :: joined) :=
                alike_of_bare fun line member => bare line (whole ▸ List.mem_append_left _ member)
              have same := again alike (fun goes stays => left ▸ logicalLine_left goes stays) last
              rw [← split] at same
              have later : items name (taken.number + count) taken.rest = _ :=
                ih _ (take?_shorter found) (fun line member => bare line
                  (whole ▸ List.mem_append_right _ (List.mem_append_right _ member))) rfl
              simp only [same, List.map_cons, later]

end Numbers

theorem Stops.append (stops : Stops lines) (some : lines ≠ []) (below : List Text) :
    Stops (lines ++ below) := by
  obtain ⟨line, more, rfl⟩ := List.exists_cons_of_ne_nil some
  exact stops

/-- Lines that are complete are read as if they were alone, and the lines below them likewise. -/
theorem Complete.items_append (complete : Complete name number lines)
    (whole : ∀ item ∈ items name number lines, item.Whole) (below : List Text) :
    items name number (lines ++ below) =
      items name number lines ++ items name (number + lines.length) below := by
  induction size : lines.length using Nat.strong_induction_on generalizing number lines with
  | _ length ih =>
      subst size
      cases lines with
      | nil => simp
      | cons first rest =>
          rw [items_eq_take, items_eq_take name number (first :: rest)]
          cases found : take? name number (first :: rest) with
          | none => exact absurd (take?_eq_none_iff.mp found) (complete.endless .here)
          | some taken =>
              obtain ⟨joined, block, split, left, total, _, again⟩ := take?_alike found
              rw [items_eq_take, found] at whole
              obtain ⟨own, further⟩ := List.forall_mem_cons.mp whole
              have stops (goes : continues first = true)
                  (stays : continues (logicalLine name number first rest).line = true) :
                  Stops (block ++ (taken.rest ++ below)) := by
                rw [← List.append_assoc, ← left]
                refine (logicalLine_left goes stays).append (fun none => ?_) below
                exact absurd (stays.symm.trans (complete.settled .here none goes)) (by simp)
              have shape : first :: rest ++ below =
                  first :: (joined ++ (block ++ (taken.rest ++ below))) := by
                simp [split]
              have same := again (alike_refl (first :: joined)) stops (Or.inl own)
              have next : take? name number (first :: rest ++ below) =
                  some ⟨taken.item, taken.number, taken.rest ++ below⟩ := by
                rw [shape, ← Item.shifted_zero taken.item]
                exact same
              have later := ih _ (take?_shorter found) (complete.onward found) further rfl
              have reach : taken.number + taken.rest.length = number + (first :: rest).length := by
                have size := congrArg List.length split
                simp only [List.length_append] at size
                rw [total own, List.length_cons]
                omega
              rw [reach] at later
              rw [next]
              exact congrArg (taken.item :: ·) later

section Lines

variable {above below body : Text}

-- Where a text ends in a newline, the lines of the next are lines by themselves.
theorem physicalLines_append (some : body ≠ []) (more : below ≠ ['\n']) :
    physicalLines (body ++ ['\n'] ++ below) = physicalLines (body ++ ['\n']) ++ physicalLines below := by
  rw [physicalLines_newline, if_neg some]
  rcases List.eq_nil_or_concat below with rfl | ⟨front, c, rfl⟩
  · rw [List.append_nil, physicalLines_newline, if_neg some]
    exact (List.append_nil _).symm
  · rw [List.concat_eq_append] at more ⊢
    by_cases ended : c = '\n'
    · subst ended
      have written : front ≠ [] := by
        rintro rfl
        exact more rfl
      have shape : body ++ ['\n'] ++ (front ++ ['\n']) = body ++ '\n' :: front ++ ['\n'] := by simp
      rw [shape, physicalLines_newline, if_neg (by simp), physicalLines_newline, if_neg written,
        splitAt_append]
    · have shape : body ++ ['\n'] ++ (front ++ [c]) = body ++ '\n' :: front ++ [c] := by simp
      rw [shape, physicalLines_open ended, physicalLines_open ended, List.append_assoc,
        List.cons_append, splitAt_append]

end Lines

end Brewery.Script

namespace Brewery

/-- The same error, so many lines further down if it lies in this file. -/
def ExpandError.lowered (origin : Path) (count : Nat) (fault : ExpandError) : ExpandError :=
  if fault.file = origin then
    match fault with
    | .missingInclude file line directive => .missingInclude file (line + count) directive
    | .unterminatedLiteral file line directive => .unterminatedLiteral file (line + count) directive
    | .includeCycle file line directive chain => .includeCycle file (line + count) directive chain
    | .read file fault => .read file fault
  else fault

namespace Expander

open Script

variable {expander : Expander} {disk : Disk} {stack : List Path} {origin path : Path}
  {items : List Item} {fault : ExpandError} {count : Nat}

theorem expandItems_append (front back : List Item) :
    expander.expandItems disk stack origin (front ++ back) = (do
      let out ← expander.expandItems disk stack origin front
      let lines ← expander.expandItems disk stack origin back
      .ok (out ++ lines)) := by
  induction front with
  | nil =>
      rw [List.nil_append, expandItems_nil]
      cases expander.expandItems disk stack origin back <;> rfl
  | cons item rest ih =>
      rw [List.cons_append, expandItems_cons, ih, expandItems_cons item rest]
      cases expander.expandItems disk stack origin [item] with
      | error fault => rfl
      | ok own =>
          cases expander.expandItems disk stack origin rest with
          | error fault => rfl
          | ok more =>
              cases expander.expandItems disk stack origin back with
              | error fault => rfl
              | ok lines => simp [bind, Except.bind]

theorem bind_eq_error {Output : Type} {result : Except ExpandError (List OutLine)}
    {onward : List OutLine → Except ExpandError Output} : result >>= onward = .error fault ↔
      result = .error fault ∨ ∃ own, result = .ok own ∧ onward own = .error fault := by
  cases result <;> simp [bind, Except.bind]

/-- An error lies in the file that is being expanded or in one that is not on the stack, unless it
is one of reading and has no line. -/
theorem error_apart (fails : expander.expandItems disk stack path items = .error fault) :
    fault.line? = none ∨ fault.file = path ∨ onStack stack (stackEntry disk fault.file) = false := by
  induction stack, path, items using expandItems.induct expander disk with
  | case1 stack path =>
      rw [expandItems_nil] at fails
      exact absurd fails (by simp)
  | case2 stack path rest ih | case3 stack path line rest ih | case4 stack path line rest ih
  | case5 stack path opening content closing rest ih =>
      rw [expandItems, bind_eq_error] at fails
      obtain later | ⟨own, _, none⟩ := fails
      · exact ih later
      · exact absurd none (by simp)
  | case6 stack path number directive rest =>
      rw [expandItems] at fails
      cases fails
      exact Or.inr (Or.inl rfl)
  | case7 stack path number directive indent target rest missing =>
      rw [expandItems_cons, expandItems_inclusion, missing] at fails
      cases fails
      exact Or.inr (Or.inl rfl)
  | case8 stack path number directive indent target rest file place contents found again =>
      rw [expandItems_cons, expandItems_inclusion, found] at fails
      simp only [again, if_true] at fails
      cases fails
      exact Or.inr (Or.inl rfl)
  | case9 stack path number directive indent target rest file place fresh bytes found =>
      rw [expandItems_cons, expandItems_inclusion, found] at fails
      simp only [fresh] at fails
      cases fails
      exact Or.inl rfl
  | case10 stack path number directive indent target rest file place fresh text found _ _ inner ih =>
      rw [expandItems_cons, expandItems_inclusion, found] at fails
      simp only [fresh] at fails
      have new : onStack stack place.path = false := by simpa using fresh
      rcases bind_eq_error.mp fails with here | ⟨own, _, onward⟩
      · rcases inner (map_eq_error.mp here) with read | own | apart
        · exact Or.inl read
        · rw [own, stackEntry_file (findInclude_file found)]
          exact Or.inr (Or.inr new)
        · rw [onStack_append, Bool.or_eq_false_iff] at apart
          exact Or.inr (Or.inr apart.1)
      · obtain later | ⟨_, _, none⟩ := bind_eq_error.mp onward
        · exact ih later
        · exact absurd none (by simp)

-- The file of an error of reading has no line that could be lower.
theorem lowered_of_unread (read : fault.line? = none) : fault.lowered origin count = fault := by
  unfold ExpandError.lowered
  cases fault with
  | read file fault => exact ite_self _
  | _ => exact absurd read (by simp [ExpandError.line?])

theorem lowered_of_ne (other : fault.file ≠ origin) : fault.lowered origin count = fault := by
  unfold ExpandError.lowered
  exact if_neg other

-- What an included file fails in lies in no file around it.
theorem lowered_inside {place : Place} {contents : Contents}
    (active : onStack stack (stackEntry disk origin) = true) (fresh : onStack stack place.path = false)
    (held : disk.file? path = some (place, contents))
    (fails : expander.expandItems disk (stack ++ [place.path]) path items = .error fault) :
    fault.lowered origin count = fault := by
  rcases error_apart fails with read | own | apart
  · exact lowered_of_unread read
  · apply lowered_of_ne
    rintro same
    rw [← same, own, stackEntry_file held, fresh] at active
    exact absurd active (by simp)
  · apply lowered_of_ne
    rintro same
    rw [onStack_append, Bool.or_eq_false_iff, same, active] at apart
    exact absurd apart.1 (by simp)

-- What lies in a file that is included keeps its line.
theorem expandItem_shifted (active : onStack stack (stackEntry disk origin) = true) (item : Item) :
    expander.expandItems disk stack origin [item.shifted count] =
      (expander.expandItems disk stack origin [item]).mapError (ExpandError.lowered origin count) := by
  cases item with
  | inclusion number directive indent target =>
      rw [Item.shifted, expandItems_inclusion, expandItems_inclusion]
      cases found : expander.findInclude disk origin target with
      | none => simp [Except.mapError, ExpandError.lowered, ExpandError.file]
      | some file =>
          obtain ⟨path, place, contents⟩ := file
          cases again : onStack stack place.path with
          | true => simp [again, Except.mapError, ExpandError.lowered, ExpandError.file]
          | false =>
              cases contents with
              | raw bytes =>
                  simp only [again, Bool.false_eq_true, if_false, Except.mapError]
                  rw [lowered_of_unread rfl]
              | text text =>
                  simp only [again, Bool.false_eq_true, if_false]
                  cases inner : expander.expandItems disk (stack ++ [place.path]) path
                      (itemsOf path.displayName text) with
                  | ok lines => rfl
                  | error fault =>
                      simp only [Except.map, Except.mapError]
                      rw [lowered_inside active again (findInclude_file found) inner]
  | unterminated number directive =>
      rw [Item.shifted, expandItems, expandItems]
      simp [Except.mapError, ExpandError.lowered, ExpandError.file]
  | _ =>
      simp only [Item.shifted]
      rw [expandItems, expandItems_nil]
      rfl

/-- Items that stand further down expand to the same, or to the same error further down. -/
theorem expandItems_shifted (active : onStack stack (stackEntry disk origin) = true) :
    expander.expandItems disk stack origin (items.map (Item.shifted count)) =
      (expander.expandItems disk stack origin items).mapError (ExpandError.lowered origin count) := by
  induction items with
  | nil =>
      rw [List.map_nil, expandItems_nil]
      rfl
  | cons item rest ih =>
      rw [List.map_cons, expandItems_cons, expandItem_shifted active, ih, expandItems_cons item rest]
      cases expander.expandItems disk stack origin [item] with
      | error fault => rfl
      | ok own => cases expander.expandItems disk stack origin rest <;> rfl

/-- A text that ends in a newline and is complete, and a text below it with no token for a number and
none that the file's name makes one: together they expand to what they expand to alone, and to the
error of the second, lower by the lines of the first where it lies in their file. -/
theorem expandText_append {above below out : Text} (ends : above.getLast? = some '\n')
    (some : above ≠ ['\n']) (more : below ≠ ['\n'])
    (complete : Complete origin.displayName 1 (physicalLines above))
    (expands : expander.expandText disk above origin = .ok out) (bare : ¬lineToken <:+: below)
    (named : ∀ line ∈ physicalLines below,
      lineToken <:+: Text.replace fileToken origin.displayName line → lineToken <:+: line) :
    expander.expandText disk (above ++ below) origin =
      match expander.expandText disk below origin with
      | .ok further => .ok (out ++ further)
      | .error fault => .error (fault.lowered origin (physicalLines above).length) := by
  have ended : ∃ body, above = body ++ ['\n'] := List.getLast?_eq_some_iff.mp ends
  obtain ⟨body, rfl⟩ := ended
  have written : body ≠ [] := by
    rintro rfl
    exact some rfl
  have clear : ∀ line ∈ physicalLines below,
      ¬lineToken <:+: Text.replace fileToken origin.displayName line := by
    intro line member found
    exact bare ((named line member found).trans (infix_of_mem_physicalLines member))
  have active : onStack [stackEntry disk origin] (stackEntry disk origin) = true := by
    simp [onStack, Path.same]
  obtain ⟨lines, first, rendered⟩ := map_eq_ok.mp expands
  have whole : ∀ item ∈ itemsOf origin.displayName (body ++ ['\n']), item.Whole := by
    rintro item member number directive rfl
    exact ne_unterminated_of_ok first member
  have items : itemsOf origin.displayName (body ++ ['\n'] ++ below) =
      itemsOf origin.displayName (body ++ ['\n']) ++ (itemsOf origin.displayName below).map
        (Item.shifted (physicalLines (body ++ ['\n'])).length) := by
    rw [itemsOf, physicalLines_append written more, complete.items_append whole, items_shifted clear]
    rfl
  unfold expandLines at first
  rw [expandText, expandText, expandLines, expandLines, items, expandItems_append, first,
    expandItems_shifted active]
  cases expander.expandItems disk [stackEntry disk origin] origin
      (itemsOf origin.displayName below) with
  | error fault => rfl
  | ok further =>
      simp only [Except.mapError, Except.map, bind, Except.bind, OutLine.render_append, rendered]

section Runs

/-- A file whose name is the token for the number of a line. -/
def brokenName : Path := .ofString "\x7b\x7bLINE\x7d\x7d"

theorem complete_x : Complete scriptPath.displayName 1 (physicalLines "x\n".toList) := by
  have lines : physicalLines "x\n".toList = ["x".toList] := by decide +kernel
  have taken : take? scriptPath.displayName 1 ["x".toList] = some ⟨.code "x".toList, 2, []⟩ := by
    decide +kernel
  rw [lines]
  constructor
  · intro last first rest comes
    cases comes with
    | here => decide +kernel
    | on next further =>
        cases next.symm.trans taken
        cases further with
        | on next _ => exact absurd next (by simp [take?])
  · intro last first rest comes _ goes
    cases comes with
    | here => exact absurd goes (by decide)
    | on next further =>
        cases next.symm.trans taken
        cases further with
        | on next _ => exact absurd next (by simp [take?])

theorem expandText_of_items {text : Text} (items : List Item)
    (reads : itemsOf origin.displayName text = items) :
    expander.expandText disk text origin = (expander.expandItems disk [stackEntry disk origin] origin
      items).map OutLine.render := by
  rw [expandText, expandLines, reads]

/-- An error below a line comes a line later; and a file whose name is the token for the number
takes, in the place of that name, the number of a line that it did not have by itself. -/
theorem line_above :
    plain.expandText (.empty [] 0) ("x\n".toList ++ "include part\n".toList) scriptPath =
        .error (.missingInclude scriptPath 2 "include part".toList) ∧
      plain.expandText (.empty [] 0) "\x7b\x7bFILE\x7d\x7d\n".toList brokenName =
        .ok "1\n".toList ∧
      plain.expandText (.empty [] 0) ("x\n".toList ++ "\x7b\x7bFILE\x7d\x7d\n".toList) brokenName =
        .ok "x\n2\n".toList := by
  have above : plain.expandText (.empty [] 0) "x\n".toList scriptPath = .ok "x\n".toList := by
    rw [expandText_of_items [.code "x".toList] (by decide +kernel), expandItems_code]
    rfl
  have below : plain.expandText (.empty [] 0) "include part\n".toList scriptPath =
      .error (.missingInclude scriptPath 1 "include part".toList) := by
    have nowhere : plain.findInclude (.empty [] 0) scriptPath "part".toList = none := by
      decide +kernel
    rw [expandText_of_items [.inclusion 1 "include part".toList [] "part".toList]
      (by decide +kernel), expandItems_inclusion, nowhere]
    rfl
  have together : plain.expandText (.empty [] 0) ("x\n".toList ++ "include part\n".toList)
      scriptPath = _ :=
    expandText_append (by decide) (by decide) (by decide) complete_x above (by decide)
      (by decide +kernel)
  rw [below] at together
  refine ⟨together, ?_, ?_⟩
  · rw [expandText_of_items [.code "1".toList] (by decide +kernel), expandItems_code]
    rfl
  · rw [expandText_of_items [.code "x".toList, .code "2".toList] (by decide +kernel),
      expandItems, expandItems_code]
    rfl

end Runs

end Expander
end Brewery
