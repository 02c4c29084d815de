import Brewery.Proofs.Script.Context
import Mathlib.Data.Set.Finite.Lattice
import Mathlib.Order.WellFounded

/-!
Include cycles. A directive takes the expansion into a file that is not on the stack yet, and the
disk has finitely many files, so every expansion comes to its end. The stack is at all times the
chain of includes from the first file to the present one, no file twice; a cycle is reported
where a directive leads back into this chain, and nowhere else.
-/

namespace Brewery.Expander

open Script

variable {expander : Expander} {disk : Disk} {here there : Standing} {text : Text} {origin : Path}

section Ends

/-- Files that are not on the stack, and lines that are still to come. -/
def rank (disk : Disk) (here : Standing) : Nat × Nat :=
  (unvisited disk here.stack, here.lines.length)

theorem Step.rank_lt (step : Step expander disk here there) :
    Prod.Lex (· < ·) (· < ·) (rank disk there) (rank disk here) := by
  cases step with
  | @pass taken out next expands =>
      exact Prod.Lex.right _ (take?_shorter next)
  | enter includes fresh =>
      obtain ⟨target, number, rest, _, found⟩ := includes
      obtain ⟨node, member⟩ := findInclude_member found
      exact Prod.Lex.left _ _ (unvisited_push member fresh)

theorem step_wellFounded (expander : Expander) (disk : Disk) :
    WellFounded fun there here => Step expander disk here there :=
  Subrelation.wf Step.rank_lt (InvImage.wf (rank disk) (Prod.lex Nat.lt_wfRel Nat.lt_wfRel).wf)

theorem Standing.Includes.unique {number number' : Nat} {directive directive' indent indent' : Text}
    {path path' : Path} {place place' : Place} {contents contents' : Contents}
    (includes : here.Includes expander disk number directive indent path place contents)
    (other : here.Includes expander disk number' directive' indent' path' place' contents') :
    number = number' ∧ directive = directive' ∧ indent = indent' ∧ path = path' ∧
      place = place' ∧ contents = contents' := by
  obtain ⟨taken, next⟩ := includes.next
  obtain ⟨target, item, leads⟩ := includes.item next
  obtain ⟨target', item', leads'⟩ := other.item next
  cases item.symm.trans item'
  cases leads.symm.trans leads'
  exact ⟨rfl, rfl, rfl, rfl, rfl, rfl⟩

-- There is one way over an item and one way into a file.
theorem step_finite (here : Standing) : {there | Step expander disk here there}.Finite := by
  have passing : Set.Subsingleton {there | ∃ taken out, here.next? = some taken ∧
      expander.expandItems disk here.stack here.origin [taken.item] = .ok out ∧
        there = here.past taken out} := by
    rintro _ ⟨taken, out, next, expands, rfl⟩ _ ⟨taken', out', next', expands', rfl⟩
    cases next.symm.trans next'
    cases expands.symm.trans expands'
    rfl
  have entering : Set.Subsingleton {there | ∃ number directive indent path place text,
      here.Includes expander disk number directive indent path place (.text text) ∧
        there = here.inside indent path place text} := by
    rintro _ ⟨number, directive, indent, path, place, text, includes, rfl⟩
      _ ⟨number', directive', indent', path', place', text', includes', rfl⟩
    obtain ⟨_, _, rfl, rfl, rfl, same⟩ := includes.unique includes'
    cases same
    rfl
  refine (passing.finite.union entering.finite).subset ?_
  rintro there step
  cases step with
  | @pass taken out next expands => exact Or.inl ⟨taken, out, next, expands, rfl⟩
  | enter includes fresh => exact Or.inr ⟨_, _, _, _, _, _, includes, rfl⟩

/-- An expansion comes to finitely many standings. -/
theorem onward_finite (here : Standing) :
    {there | Relation.ReflTransGen (Step expander disk) here there}.Finite := by
  induction here using (step_wellFounded expander disk).induction with
  | _ here ih =>
      have later : (⋃ next ∈ {next | Step expander disk here next},
          {there | Relation.ReflTransGen (Step expander disk) next there}).Finite :=
        (step_finite here).biUnion ih
      refine (later.insert here).subset ?_
      intro there way
      rcases Relation.ReflTransGen.cases_head way with rfl | ⟨next, step, onward⟩
      · exact Set.mem_insert _ _
      · exact Set.mem_insert_of_mem _ (Set.mem_biUnion step onward)

end Ends

section Stack

/-- The expansion of a text comes to a directive of one file that leads to another. -/
def Leads (expander : Expander) (disk : Disk) (text : Text) (origin : Path)
    (includer included : Path) : Prop :=
  ∃ here number directive indent path place contents, Reached expander disk text origin here ∧
    here.Includes expander disk number directive indent path place contents ∧
    includer = stackEntry disk here.origin ∧ included = place.path

/-- What the stack is wherever an expansion stands. -/
structure Linked (expander : Expander) (disk : Disk) (text : Text) (origin : Path)
    (here : Standing) : Prop where
  first : here.stack.head? = some (stackEntry disk origin)
  last : here.stack.getLast? = some (stackEntry disk here.origin)
  chain : here.stack.IsChain (Leads expander disk text origin)
  distinct : here.stack.Pairwise fun earlier later => Path.same later earlier = false
  /-- Every file that was pushed has left the files that are not on the stack. -/
  room : here.stack.length + unvisited disk here.stack ≤ disk.nodes.length + 1

theorem linked_outset : Linked expander disk text origin (.outset disk text origin) where
  first := rfl
  last := rfl
  chain := .singleton _
  distinct := List.pairwise_singleton _ _
  room := by
    have bound : unvisited disk [stackEntry disk origin] ≤ disk.nodes.length :=
      List.countP_le_length
    simp only [Standing.outset, List.length_singleton]
    omega

-- A directive that is come to continues the chain, whether or not it is gone into.
theorem Linked.extend {number : Nat} {directive indent : Text} {path : Path} {place : Place}
    {contents : Contents} (linked : Linked expander disk text origin here)
    (reached : Reached expander disk text origin here)
    (includes : here.Includes expander disk number directive indent path place contents) :
    (here.stack ++ [place.path]).head? = some (stackEntry disk origin) ∧
      (here.stack ++ [place.path]).IsChain (Leads expander disk text origin) := by
  constructor
  · rw [List.head?_append, linked.first]
    rfl
  · refine List.isChain_append.mpr ⟨linked.chain, .singleton _, ?_⟩
    intro includer last included only
    cases last.symm.trans linked.last
    cases only
    exact ⟨here, number, directive, indent, path, place, contents, reached, includes, rfl, rfl⟩

theorem Linked.step (linked : Linked expander disk text origin here)
    (reached : Reached expander disk text origin here) (step : Step expander disk here there) :
    Linked expander disk text origin there := by
  cases step with
  | pass next expands => exact ⟨linked.first, linked.last, linked.chain, linked.distinct, linked.room⟩
  | @enter number directive indent path place text includes fresh =>
      obtain ⟨first, chain⟩ := linked.extend reached includes
      have entry := stackEntry_file includes.file
      refine ⟨first, ?_, chain, ?_, ?_⟩
      · simp only [Standing.inside, List.getLast?_concat, entry]
      · refine List.pairwise_append.mpr ⟨linked.distinct, List.pairwise_singleton _ _, ?_⟩
        intro earlier member later only
        rw [List.mem_singleton.mp only]
        simpa using List.any_eq_false.mp fresh earlier member
      · obtain ⟨target, number, rest, _, found⟩ := includes
        obtain ⟨node, member⟩ := findInclude_member found
        have taken := unvisited_push member fresh
        have room := linked.room
        simp only [Standing.inside, List.length_append, List.length_singleton]
        omega

theorem Reached.linked (reached : Reached expander disk text origin here) :
    Linked expander disk text origin here := by
  induction reached with
  | refl => exact linked_outset
  | tail reached step ih => exact ih.step reached step

end Stack

section Failures

/-- The errors that an expansion meets where it stands. -/
inductive Meets (expander : Expander) (disk : Disk) (here : Standing) : ExpandError → Prop where
  | unterminated {number next : Nat} {directive : Text} {rest : List Text}
      (taken : here.next? = some ⟨.unterminated number directive, next, rest⟩) :
      Meets expander disk here (.unterminatedLiteral here.origin number directive)
  | missing {number next : Nat} {directive indent target : Text} {rest : List Text}
      (taken : here.next? = some ⟨.inclusion number directive indent target, next, rest⟩)
      (absent : expander.findInclude disk here.origin target = none) :
      Meets expander disk here (.missingInclude here.origin number directive)
  | cycle {number : Nat} {directive indent : Text} {path : Path} {place : Place}
      {contents : Contents}
      (includes : here.Includes expander disk number directive indent path place contents)
      (active : onStack here.stack place.path = true) :
      Meets expander disk here
        (.includeCycle here.origin number directive (here.stack ++ [place.path]))
  | unreadable {number : Nat} {directive indent : Text} {path : Path} {place : Place}
      {bytes : List UInt8}
      (includes : here.Includes expander disk number directive indent path place (.raw bytes))
      (fresh : onStack here.stack place.path = false) :
      Meets expander disk here (.read path .notText)

variable {fault : ExpandError}

theorem Meets.fails (meets : Meets expander disk here fault) :
    here.result expander disk = .error fault := by
  cases meets with
  | unterminated taken =>
      apply Standing.result_of_failing taken
      rw [expandItems]
  | missing taken absent =>
      apply Standing.result_of_failing taken
      rw [expandItems_inclusion, absent]
  | cycle includes active =>
      obtain ⟨taken, next⟩ := includes.next
      exact Standing.result_of_failing next (includes.again next active)
  | unreadable includes fresh =>
      obtain ⟨taken, next⟩ := includes.next
      exact Standing.result_of_failing next (includes.unreadable next fresh)

theorem failing_item {taken : Taken} (next : here.next? = some taken)
    (fails : expander.expandItems disk here.stack here.origin [taken.item] = .error fault) :
    Meets expander disk here fault ∨
      ∃ there, Step expander disk here there ∧ there.result expander disk = .error fault := by
  obtain ⟨item, number, rest⟩ := taken
  cases item with
  | unterminated line directive =>
      rw [expandItems] at fails
      cases fails
      exact Or.inl (.unterminated next)
  | inclusion line directive indent target =>
      cases found : expander.findInclude disk here.origin target with
      | none =>
          rw [expandItems_inclusion, found] at fails
          cases fails
          exact Or.inl (.missing next found)
      | some leads =>
          obtain ⟨path, place, contents⟩ := leads
          have includes : here.Includes expander disk line directive indent path place contents :=
            ⟨target, number, rest, next, found⟩
          cases active : onStack here.stack place.path with
          | true =>
              cases fails.symm.trans (includes.again next active)
              exact Or.inl (.cycle includes active)
          | false =>
              cases contents with
              | raw bytes =>
                  cases fails.symm.trans (includes.unreadable next active)
                  exact Or.inl (.unreadable includes active)
              | text script =>
                  refine Or.inr ⟨_, .enter includes active, ?_⟩
                  rw [includes.entered next active] at fails
                  exact map_eq_error.mp fails
  | _ =>
      rw [expandItems] at fails
      simp [bind, Except.bind] at fails

theorem failing_cases (fails : here.result expander disk = .error fault) :
    Meets expander disk here fault ∨
      ∃ there, Step expander disk here there ∧ there.result expander disk = .error fault := by
  cases next : here.next? with
  | none => exact absurd (fails.symm.trans (Standing.result_of_end next)) (by simp)
  | some taken =>
      cases alone : expander.expandItems disk here.stack here.origin [taken.item] with
      | error first =>
          cases fails.symm.trans (Standing.result_of_failing next alone)
          exact failing_item next alone
      | ok out =>
          refine Or.inr ⟨here.past taken out, .pass next alone, ?_⟩
          rw [Standing.result_of_passing next alone] at fails
          exact map_eq_error.mp fails

/-- Every error of an expansion is met at a standing that it comes to. -/
theorem met_onward (fails : here.result expander disk = .error fault) :
    ∃ there, Relation.ReflTransGen (Step expander disk) here there ∧
      Meets expander disk there fault := by
  induction here using (step_wellFounded expander disk).induction with
  | _ here ih =>
      rcases failing_cases fails with meets | ⟨next, step, later⟩
      · exact ⟨here, .refl, meets⟩
      · obtain ⟨there, way, meets⟩ := ih next step later
        exact ⟨there, .head step way, meets⟩

theorem expandText_eq_error_iff : expander.expandText disk text origin = .error fault ↔
    ∃ here, Reached expander disk text origin here ∧ Meets expander disk here fault := by
  rw [expandText, map_eq_error]
  constructor
  · intro fails
    exact met_onward fails
  · rintro ⟨here, reached, meets⟩
    exact reached.error meets.fails

theorem expandText_eq_cycle_iff {file : Path} {line : Nat} {directive : Text} {chain : List Path} :
    expander.expandText disk text origin = .error (.includeCycle file line directive chain) ↔
      ∃ here indent path place contents, Reached expander disk text origin here ∧
        here.Includes expander disk line directive indent path place contents ∧
        onStack here.stack place.path = true ∧ file = here.origin ∧
        chain = here.stack ++ [place.path] := by
  rw [expandText_eq_error_iff]
  constructor
  · rintro ⟨here, reached, meets⟩
    cases meets with
    | cycle includes active => exact ⟨here, _, _, _, _, reached, includes, active, rfl, rfl⟩
  · rintro ⟨here, indent, path, place, contents, reached, includes, active, rfl, rfl⟩
    exact ⟨here, reached, .cycle includes active⟩

end Failures

/-- Every expansion ends; the stack is a chain of includes without a repetition; a cycle is what
is reported at a directive that leads back into it, with that chain, and at no other. -/
theorem include_cycles (expander : Expander) (disk : Disk) (text : Text) (origin : Path) :
    (WellFounded (fun there here => Step expander disk here there) ∧
      {here | Reached expander disk text origin here}.Finite) ∧
    (∀ here, Reached expander disk text origin here →
      here.stack.Pairwise (fun earlier later => Path.same later earlier = false) ∧
      here.stack.length ≤ disk.nodes.length + 1 ∧
      here.stack.getLast? = some (stackEntry disk here.origin)) ∧
    (∀ file line directive chain,
      expander.expandText disk text origin = .error (.includeCycle file line directive chain) ↔
        ∃ here indent path place contents, Reached expander disk text origin here ∧
          here.Includes expander disk line directive indent path place contents ∧
          onStack here.stack place.path = true ∧ file = here.origin ∧
          chain = here.stack ++ [place.path]) ∧
    (∀ file line directive chain,
      expander.expandText disk text origin = .error (.includeCycle file line directive chain) →
        chain.head? = some (stackEntry disk origin) ∧
        chain.IsChain (Leads expander disk text origin)) ∧
    (∀ here number directive indent path place contents,
      Reached expander disk text origin here →
      here.Includes expander disk number directive indent path place contents →
      onStack here.stack place.path = false →
        (∀ script, contents = .text script →
          Reached expander disk text origin (here.inside indent path place script)) ∧
        ∀ file line spelled, expander.expandText disk text origin ≠
          .error (.includeCycle file line spelled (here.stack ++ [place.path]))) := by
  refine ⟨⟨step_wellFounded expander disk, onward_finite _⟩, ?_, ?_, ?_, ?_⟩
  · intro here reached
    have linked := reached.linked
    have room := linked.room
    exact ⟨linked.distinct, by omega, linked.last⟩
  · intro file line directive chain
    exact expandText_eq_cycle_iff
  · intro file line directive chain fails
    obtain ⟨here, indent, path, place, contents, reached, includes, _, _, rfl⟩ :=
      expandText_eq_cycle_iff.mp fails
    exact reached.linked.extend reached includes
  · intro here number directive indent path place contents reached includes fresh
    constructor
    · rintro script rfl
      exact reached.tail (.enter includes fresh)
    · intro file line spelled fails
      obtain ⟨other, _, _, again, _, _, _, active, _, same⟩ := expandText_eq_cycle_iff.mp fails
      obtain ⟨stack, last⟩ := List.append_inj' same rfl
      rw [← stack, ← (List.cons.inj last).1, fresh] at active
      exact absurd active (by simp)

/-- A file that is included by a file that it includes. -/
theorem edited_ring :
    plain.expandText nested editedText innerPath =
        .error (.includeCycle outerPath 2 "include b".toList [innerPath, outerPath, innerPath]) ∧
      [innerPath, outerPath, innerPath].IsChain (Leads plain nested editedText innerPath) := by
  have items : itemsOf innerPath.displayName editedText =
      [.inclusion 1 "include a".toList [] "a".toList] := by decide +kernel
  have fails : plain.expandText nested editedText innerPath =
      .error (.includeCycle outerPath 2 "include b".toList [innerPath, outerPath, innerPath]) := by
    rw [expandText, expandLines, items, edited_cycle]
    rfl
  exact ⟨fails, ((include_cycles plain nested editedText innerPath).2.2.2.1 _ _ _ _ fails).2⟩

end Brewery.Expander
