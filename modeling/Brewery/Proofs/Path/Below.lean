import Mathlib.Data.List.Basic
import Mathlib.Data.List.Induction
import Brewery.Proofs.Path.Parts
import Brewery.Source.Classifier

/-!
Paths below a root. Joining a name adds one component whatever the spelling of the path, and what
is taken from a path with the components of its root before it is the rest of them. So a path that
is made from a root by joining names is excluded when one of these names is, and the segments of
the root have no part in it.
-/

namespace Brewery.Path

/-- The component that is the start of a path itself. -/
def Lead.components : Lead → List Component
  | .root => [.root]
  | .here => [.here]
  | .none => []

variable {base path root : Path} {segments names : List Text} {name : Text} {rest : List Component}

theorem components_eq (path : Path) : path.components = path.parts.1.components ++ named path.parts.2 := by
  unfold components
  obtain ⟨lead, segments⟩ := path.parts
  cases lead <;> rfl

theorem named_append (left right : List Text) : named (left ++ right) = named left ++ named right := by
  simp [named]

theorem named_fillers (empty : ∀ segment ∈ segments, isFiller segment = true) :
    named segments = [] := by
  rw [named, List.filter_eq_nil_iff.mpr fun segment member => by simp [empty segment member]]
  rfl

theorem named_singleton (proper : IsName name) : named [name] = [.name name] := by
  simp [named, component, proper.2.1, proper.2.2]

section Joining

-- A path that does not begin with a slash is told apart by its first segment.
theorem parts_relative {first : Char} (slash : first ≠ '/') (tail : Text) :
    (Path.mk (first :: tail)).parts = match Text.splitAt '/' (first :: tail) with
      | ['.'] :: rest => (.here, rest)
      | segments => (.none, segments) := by
  unfold parts
  split
  · next heads => exact absurd (List.cons.inj heads).1 slash
  · rfl

-- What stands after a slash has no part in how a path begins.
theorem parts_slash {front : Text} (written : front ≠ []) (rest : Text) :
    (Path.mk (front ++ '/' :: rest)).parts =
      ((Path.mk front).parts.1, (Path.mk front).parts.2 ++ Text.splitAt '/' rest) := by
  obtain ⟨first, front, rfl⟩ := List.exists_cons_of_ne_nil written
  by_cases slash : first = '/'
  · subst slash
    simp only [parts, List.cons_append, Text.splitAt_append]
  · rw [List.cons_append, parts_relative slash, parts_relative slash, ← List.cons_append,
      Text.splitAt_append]
    cases cut : Text.splitAt '/' (first :: front) with
    | nil => exact absurd cut (Text.splitAt_ne_nil _ _)
    | cons part more =>
        by_cases dot : part = ['.']
        · subst dot
          rfl
        · rw [List.cons_append]
          split <;> simp_all

/-- A name that is joined to a path comes last, in place of the filler that a slash at the end of
the path leaves. -/
theorem parts_join (written : base.text ≠ []) (proper : IsName name) :
    ∃ front fillers, base.parts.2 = front ++ fillers ∧
      (∀ segment ∈ fillers, isFiller segment = true) ∧
      (base.join ⟨name⟩).parts = (base.parts.1, front ++ [name]) := by
  have alone := Text.splitAt_of_not_mem proper.1
  rw [join, proper.not_absolute, if_neg (by simp)]
  by_cases slash : base.text.getLast? = some '/'
  · obtain ⟨front, shape⟩ := List.getLast?_eq_some_iff.mp slash
    obtain rfl : base = ⟨front ++ ['/']⟩ := congrArg Path.mk shape
    rw [if_pos (by simp [slash]), List.append_assoc, List.singleton_append]
    by_cases top : front = []
    · subst top
      refine ⟨[], [[]], rfl, by simp [isFiller], ?_⟩
      show (Lead.root, Text.splitAt '/' name) = _
      rw [alone]
      rfl
    · have ends := parts_slash top []
      rw [ends, parts_slash top, alone]
      exact ⟨_, [[]], rfl, by simp [isFiller], rfl⟩
  · rw [if_neg (by simp [written, slash]), parts_slash written, alone]
    exact ⟨_, [], (List.append_nil _).symm, by simp, rfl⟩

theorem components_name (proper : IsName name) : (Path.mk name).components = [.name name] := by
  have parts : (ofParts .none [name]).parts = (.none, [name]) :=
    parts_ofParts (by simp) ⟨by simpa using proper.1, by
      rintro - first ⟨⟩
      exact ⟨proper.ne_nil, fun same => absurd proper.2.1 (by rw [same]; decide)⟩⟩
  have spelled : ofParts .none [name] = ⟨name⟩ := rfl
  rw [← spelled, components_eq, parts, named_singleton proper]
  rfl

theorem components_join (base : Path) (proper : IsName name) :
    (base.join ⟨name⟩).components = base.components ++ [.name name] := by
  by_cases written : base.text = []
  · have empty : base.components = [] := by
      rw [components, parts_of_empty written]
      rfl
    rw [join, proper.not_absolute, if_neg (by simp), if_pos (by simp [written]), written,
      List.nil_append, components_name proper, empty]
    rfl
  · obtain ⟨front, fillers, shape, empty, joined⟩ := parts_join written proper
    rw [components_eq, components_eq, joined, shape, named_append, named_append,
      named_fillers empty, named_singleton proper, List.append_nil, List.append_assoc]

theorem mem_text_join {c : Char} (member : c ∈ (base.join ⟨name⟩).text) :
    c ∈ base.text ∨ c = '/' ∨ c ∈ name := by
  unfold join at member
  split at member
  · exact Or.inr (Or.inr member)
  split at member
  · rcases List.mem_append.mp member with front | back
    · exact Or.inl front
    · exact Or.inr (Or.inr back)
  · rcases List.mem_append.mp member with front | back
    · exact Or.inl front
    · exact Or.inr (List.mem_cons.mp back)

end Joining

section Taking

-- The induction is on the segments, whose fillers are passed over.
theorem dropNames_named {wanted : List Component} (whole : named segments = wanted ++ rest) :
    ∃ left, dropNames wanted segments = some left ∧ named left = rest ∧ left <:+ segments := by
  induction segments generalizing wanted with
  | nil =>
      obtain ⟨rfl, rfl⟩ := List.append_eq_nil_iff.mp whole.symm
      exact ⟨[], rfl, rfl, List.suffix_rfl⟩
  | cons segment segments ih =>
      cases wanted with
      | nil => exact ⟨_, rfl, whole, List.suffix_rfl⟩
      | cons first wanted =>
          by_cases filler : isFiller segment = true
          · have further : named segments = first :: wanted ++ rest := by
              simpa [named, filler] using whole
            obtain ⟨left, dropped, same, suffix⟩ := ih further
            exact ⟨left, by rw [dropNames, if_pos filler, dropped], same,
              suffix.trans (List.suffix_cons ..)⟩
          · have split : component segment :: named segments = first :: (wanted ++ rest) := by
              simpa [named, filler] using whole
            obtain ⟨same, further⟩ := List.cons.inj split
            obtain ⟨left, dropped, named, suffix⟩ := ih further
            exact ⟨left, by rw [dropNames, if_neg filler, if_pos same, dropped], named,
              suffix.trans (List.suffix_cons ..)⟩

theorem named_dropWhile (segments : List Text) : named (segments.dropWhile isFiller) = named segments := by
  induction segments with
  | nil => rfl
  | cons segment segments ih =>
      rw [List.dropWhile_cons]
      split
      · next filler => rw [ih]; simp [named, filler]
      · rfl

theorem named_dropTrailingFillers (segments : List Text) :
    named (dropTrailingFillers segments) = named segments := by
  have turned (segments : List Text) : named segments.reverse = (named segments).reverse := by
    simp [named, List.filter_reverse, List.map_reverse]
  rw [dropTrailingFillers, turned, named_dropWhile, turned, List.reverse_reverse]

theorem components_ofParts {lead : Lead} (follows : Follows lead segments) :
    (ofParts lead segments).components = lead.components ++ named segments := by
  by_cases empty : segments = []
  · subst empty
    cases lead <;> rfl
  · rw [components_eq, parts_ofParts empty follows]

theorem Follows.trimmed {lead : Lead} (follows : Follows lead segments) :
    Follows lead (dropTrailingFillers segments) := by
  obtain ⟨fillers, shape⟩ : dropTrailingFillers segments <+: segments := by
    have kept := List.reverse_prefix.mpr (List.dropWhile_suffix (l := segments.reverse) isFiller)
    rwa [List.reverse_reverse] at kept
  refine ⟨fun segment member => follows.1 segment ?_, fun bare first head => follows.2 bare first ?_⟩
  · rw [← shape]
    exact List.mem_append_left _ member
  · rw [← shape, List.head?_append, head]
    rfl

theorem components_trimmed (free : ∀ segment ∈ segments, '/' ∉ segment) :
    (ofParts .none (dropTrailingFillers (segments.dropWhile isFiller))).components =
      named segments := by
  have follows : Follows .none (segments.dropWhile isFiller) := by
    refine ⟨fun segment member => free segment ((List.dropWhile_sublist _).mem member), ?_⟩
    intro _ first head
    have kept := List.head?_dropWhile_not isFiller segments
    rw [head] at kept
    simpa [isFiller] using kept
  rw [components_ofParts follows.trimmed, named_dropTrailingFillers, named_dropWhile]
  rfl

theorem parts_free (path : Path) : ∀ segment ∈ path.parts.2, '/' ∉ segment := by
  by_cases written : path.text = []
  · simp [parts_of_empty written]
  · exact (parts_follow path written).1

/-- From a path that begins with the components of a base the rest can be taken. -/
theorem stripPrefix?_of_components (whole : path.components = base.components ++ rest) :
    ∃ below, stripPrefix? base path = some below ∧ below.components = rest := by
  have free := parts_free path
  have within {wanted : List Component} (further : named path.parts.2 = wanted ++ rest) :
      ∃ below, (dropNames wanted path.parts.2).map (fun left =>
          ofParts .none (dropTrailingFillers (left.dropWhile isFiller))) = some below ∧
        below.components = rest := by
    obtain ⟨left, dropped, same, suffix⟩ := dropNames_named further
    refine ⟨_, by rw [dropped, Option.map_some], ?_⟩
    rw [components_trimmed fun segment member => free segment (suffix.mem member), same]
  rw [components_eq] at whole
  unfold stripPrefix?
  cases shape : path.parts with
  | mk lead segments =>
    rw [shape] at whole within
    cases start : base.components with
    | nil =>
        rw [start, List.nil_append] at whole
        refine ⟨_, rfl, ?_⟩
        by_cases written : path.text = []
        · obtain ⟨rfl, rfl⟩ := Prod.mk.inj (shape.symm.trans (parts_of_empty written))
          exact whole
        · have follows := parts_follow path written
          rw [shape] at follows
          rw [components_ofParts follows.trimmed, named_dropTrailingFillers]
          exact whole
    | cons first wanted =>
        rw [start, List.cons_append] at whole
        cases lead with
        | root =>
            obtain ⟨rfl, further⟩ := List.cons.inj whole
            exact within further
        | here =>
            obtain ⟨rfl, further⟩ := List.cons.inj whole
            exact within further
        | none =>
            cases first <;> exact within whole

theorem named_of_dropNames {wanted : List Component} {left : List Text}
    (dropped : dropNames wanted segments = some left) :
    named segments = wanted ++ named left ∧ left <:+ segments := by
  induction segments generalizing wanted with
  | nil =>
      cases wanted with
      | nil =>
          cases dropped
          exact ⟨rfl, List.suffix_rfl⟩
      | cons first wanted => exact absurd dropped (by simp [dropNames])
  | cons segment segments ih =>
      cases wanted with
      | nil =>
          cases dropped
          exact ⟨rfl, List.suffix_rfl⟩
      | cons first wanted =>
          rw [dropNames] at dropped
          split at dropped
          · next filler =>
              obtain ⟨same, suffix⟩ := ih dropped
              exact ⟨by simpa [named, filler] using same, suffix.trans (List.suffix_cons ..)⟩
          next kept =>
          split at dropped
          · next same =>
              obtain ⟨further, suffix⟩ := ih dropped
              refine ⟨?_, suffix.trans (List.suffix_cons ..)⟩
              rw [List.cons_append, ← further, ← same]
              simp [named, kept]
          · exact absurd dropped (by simp)

/-- What is taken from a path is what it has besides the base. -/
theorem components_of_stripPrefix? {taken : Path} (found : stripPrefix? base path = some taken) :
    path.components = base.components ++ taken.components := by
  have within {wanted : List Component}
      (found : (dropNames wanted path.parts.2).map (fun left =>
        ofParts .none (dropTrailingFillers (left.dropWhile isFiller))) = some taken) :
      named path.parts.2 = wanted ++ taken.components := by
    obtain ⟨left, dropped, rfl⟩ := Option.map_eq_some_iff.mp found
    obtain ⟨same, suffix⟩ := named_of_dropNames dropped
    rw [components_trimmed fun segment member => parts_free path segment (suffix.mem member), same]
  cases start : base.components with
  | nil =>
      have whole : path.components = base.components ++ path.components := by rw [start]; rfl
      obtain ⟨other, again, same⟩ := stripPrefix?_of_components whole
      rw [Option.some.inj (found.symm.trans again), same]
      rfl
  | cons first wanted =>
      rw [components_eq]
      unfold stripPrefix? at found
      rw [start] at found
      cases shape : path.parts with
      | mk lead segments =>
        rw [shape] at found within
        cases lead with
        | none =>
            refine @within (first :: wanted) ?_
            cases first <;> exact found
        | root =>
            cases first with
            | root => exact congrArg (List.cons Component.root) (within found)
            | _ => exact absurd found (by simp)
        | here =>
            cases first with
            | here => exact congrArg (List.cons Component.here) (within found)
            | _ => exact absurd found (by simp)

theorem isExcluded_rest (whole : path.components = root.components ++ rest) :
    path.isExcluded root = rest.any isExcludedSegment := by
  obtain ⟨taken, found, same⟩ := stripPrefix?_of_components whole
  rw [isExcluded, found, Option.getD_some, same]

theorem isExcluded_outside (outside : ¬root.components <+: path.components) :
    path.isExcluded root = path.components.any isExcludedSegment := by
  cases found : stripPrefix? root path with
  | none => rw [isExcluded, found, Option.getD_none]
  | some taken => exact absurd ⟨_, (components_of_stripPrefix? found).symm⟩ outside

/-- What is beside a path that is not excluded is judged by its name alone, unless one of the two is
the root: the root is never excluded, and what is beside it is outside, where all of its path
counts. -/
theorem isExcluded_beside {other : Path} {front : List Component} {name again : Text}
    (spelled : path.components = front ++ [.name name])
    (beside : other.components = front ++ [.name again]) (shown : path.isExcluded root = false) :
    other.isExcluded root = (!other.same root &&
      (isExcludedSegment (.name again) || (path.same root && front.any isExcludedSegment))) := by
  by_cases inside : root.components <+: front
  · obtain ⟨between, rfl⟩ := inside
    rw [List.append_assoc] at spelled beside
    have apart {name : Text} (path : Path)
        (whole : path.components = root.components ++ (between ++ [.name name])) :
        path.same root = false := by
      rw [same, whole, decide_eq_false_iff_not]
      simp
    rw [isExcluded_rest spelled, List.any_append, Bool.or_eq_false_iff] at shown
    rw [isExcluded_rest beside, apart path spelled, apart other beside, List.any_append, shown.1]
    simp
  · have outside {name : Text} (path : Path) (whole : path.components = front ++ [.name name])
        (apart : path.same root = false) : ¬root.components <+: path.components := by
      rw [whole, List.prefix_concat_iff]
      rintro (equal | within)
      · rw [same, whole, equal] at apart
        simp at apart
      · exact inside within
    cases root_ : other.same root with
    | true =>
        rw [@isExcluded_rest _ _ [] (by simpa [same] using root_)]
        rfl
    | false =>
        rw [isExcluded_outside (outside other beside root_), beside, List.any_append]
        cases own : path.same root with
        | true => simp [Bool.or_comm]
        | false =>
            rw [isExcluded_outside (outside path spelled own), spelled, List.any_append,
              Bool.or_eq_false_iff] at shown
            simp [shown.1]

end Taking

/-- The path that joining names to a root leads to. -/
def below (root : Path) (names : List Text) : Path :=
  names.foldl (fun path name => path.join ⟨name⟩) root

theorem below_concat (root : Path) (names : List Text) (name : Text) :
    root.below (names ++ [name]) = (root.below names).join ⟨name⟩ := by
  simp [below]

theorem components_below (root : Path) (proper : ∀ name ∈ names, IsName name) :
    (root.below names).components = root.components ++ names.map .name := by
  induction names using List.reverseRecOn with
  | nil => simp [below]
  | append_singleton names name ih =>
      rw [below_concat, components_join _ (proper name (by simp)),
        ih fun other member => proper other (by simp [member])]
      simp

theorem below_injective {others : List Text} (proper : ∀ name ∈ names, IsName name)
    (fine : ∀ name ∈ others, IsName name) (same : root.below names = root.below others) :
    names = others := by
  have components := congrArg Path.components same
  rw [components_below root proper, components_below root fine] at components
  exact List.map_injective_iff.mpr (fun _ _ => Component.name.inj) (List.append_cancel_left components)

/-- Whether a name is hidden or that of the dependencies. -/
def isHidden (name : Text) : Bool := name = dependencyDirectory || name.head? = some '.'

/-- Below a root the names decide, and nothing that the root itself is called. -/
theorem isExcluded_below (root : Path) (proper : ∀ name ∈ names, IsName name) :
    (root.below names).isExcluded root = names.any isHidden := by
  rw [isExcluded_rest (components_below root proper), List.any_map]
  rfl

end Brewery.Path
