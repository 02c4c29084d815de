import Brewery.Proofs.Path.Below
import Brewery.Proofs.Tree.Order

/-!
What a listing leaves out. The names of all files of a tree are listed by the same walk without a
test, and the listing is what of them has no hidden name, so nothing is lost with a directory that
is not entered. The walk goes depth first and takes the entries of a directory in the order of
their bytes.
-/

namespace Brewery

namespace Text

-- The first byte tells how many follow, and tells characters of different lengths apart.
theorem encodeChar_lt {left right : Char} (less : left.toNat < right.toNat) (front back : List UInt8) :
    Utf8.encodeChar left ++ front < Utf8.encodeChar right ++ back := by
  have bound : right.toNat < 0x110000 := by
    rcases right.valid with small | ⟨_, large⟩
    · exact Nat.lt_trans small (by decide)
    · exact large
  simp only [Utf8.encodeChar, String.utf8EncodeChar]
  change left.val.toNat < right.val.toNat at less
  change right.val.toNat < 0x110000 at bound
  generalize left.val.toNat = first at less
  generalize right.val.toNat = second at less bound
  have digits (code : Nat) :
      code / 4096 = code / 64 / 64 ∧ code / 262144 = code / 64 / 64 / 64 := by omega
  repeat' split
  all_goals
    simp only [List.cons_append, List.nil_append, List.cons_lt_cons_iff, UInt8.lt_iff_toNat_lt,
      ← UInt8.toNat_inj, UInt8.toNat_ofNat', digits]
    omega

/-- The order of code points is that of the bytes. -/
theorem encode_lt {left right : Text} (ordered : le left right = true) (different : left ≠ right) :
    Utf8.encode left < Utf8.encode right := by
  induction left generalizing right with
  | nil =>
      obtain ⟨first, rest, rfl⟩ := List.exists_cons_of_ne_nil different.symm
      have some : Utf8.encodeChar first ≠ [] := by
        intro empty
        have size := String.length_utf8EncodeChar first
        rw [Utf8.encodeChar] at empty
        rw [empty] at size
        exact absurd size.symm (Nat.ne_of_gt first.utf8Size_pos)
      obtain ⟨byte, more, shape⟩ := List.exists_cons_of_ne_nil some
      rw [Utf8.encode, Utf8.encode, List.flatMap_cons, shape]
      exact List.nil_lt_cons ..
  | cons first rest ih =>
      cases right with
      | nil => exact absurd ordered (by simp [le])
      | cons other further =>
          rw [Utf8.encode, Utf8.encode, List.flatMap_cons, List.flatMap_cons]
          simp only [le, Bool.or_eq_true, Bool.and_eq_true, decide_eq_true_eq, beq_iff_eq] at ordered
          rcases ordered with less | ⟨same, ordered⟩
          · exact encodeChar_lt less _ _
          · obtain rfl : first = other := Char.toNat_inj.mp same
            exact List.append_left_lt (ih ordered fun equal => different (by rw [equal]))

end Text

namespace Tree

variable {disk : Disk} {root path : Path} {place : Place} {names first second : List Text} {name : Text}

/-- The names that lead from a place to the files at or below it, whether hidden or not. -/
def namesWithin : (bound : Nat) → Disk → Place → List (List Text)
  | 0, _, _ => []
  | bound + 1, disk, place =>
      (disk.inside place).flatMap fun entry =>
        match entry.2 with
        | .file _ _ => [[entry.1]]
        | .directory _ => (namesWithin bound disk (entry.1 :: place)).map (entry.1 :: ·)
        | .link _ => []

/-- Names that lead from a place to a file, through directories and no link. -/
inductive Leads (disk : Disk) : Place → List Text → Prop where
  | file {name : Text} {place : Place} {contents : Contents} {stamp : Int}
      (held : disk.node? (name :: place) = some (.file contents stamp)) : Leads disk place [name]
  | inner {name : Text} {place : Place} {names : List Text} {stamp : Int}
      (held : disk.node? (name :: place) = some (.directory stamp))
      (onward : Leads disk (name :: place) names) : Leads disk place (name :: names)

/-- Depth first: where two ways part, they go on in the order of the bytes of the names. -/
def Before (first second : List Text) : Prop :=
  ∃ common left right rest more, first = common ++ left :: rest ∧ second = common ++ right :: more ∧
    Text.Utf8.encode left < Text.Utf8.encode right

theorem Before.irrefl (names : List Text) : ¬Before names names := by
  rintro ⟨common, left, right, rest, more, shape, again, less⟩
  obtain ⟨rfl, -⟩ := List.cons.inj (List.append_cancel_left (shape.symm.trans again))
  exact List.lt_irrefl _ less

theorem Before.cons (name : Text) (before : Before first second) :
    Before (name :: first) (name :: second) := by
  obtain ⟨common, left, right, rest, more, rfl, rfl, less⟩ := before
  exact ⟨name :: common, left, right, rest, more, rfl, rfl, less⟩

theorem Leads.proper (leads : Leads disk place names) (sound : disk.Sound) :
    ∀ name ∈ names, Path.IsName name := by
  induction leads with
  | file held =>
      intro name member
      rw [List.mem_singleton.mp member]
      exact (sound.proper_at held).head.isName
  | inner held _ ih =>
      intro name member
      rcases List.mem_cons.mp member with rfl | further
      · exact (sound.proper_at held).head.isName
      · exact ih name further

/-- The names that an entry of a place begins. -/
def entryNames (bound : Nat) (disk : Disk) (place : Place) (entry : Text × Node) : List (List Text) :=
  match entry.2 with
  | .file _ _ => [[entry.1]]
  | .directory _ => (namesWithin bound disk (entry.1 :: place)).map (entry.1 :: ·)
  | .link _ => []

theorem namesWithin_succ (bound : Nat) (disk : Disk) (place : Place) :
    namesWithin (bound + 1) disk place =
      (disk.inside place).flatMap (entryNames bound disk place) := rfl

theorem entryNames_head {bound : Nat} {entry : Text × Node}
    (member : names ∈ entryNames bound disk place entry) : ∃ rest, names = entry.1 :: rest := by
  unfold entryNames at member
  split at member
  · exact ⟨[], List.mem_singleton.mp member⟩
  · obtain ⟨rest, _, same⟩ := List.mem_map.mp member
    exact ⟨rest, same.symm⟩
  · exact absurd member List.not_mem_nil

theorem mem_namesWithin {bound : Nat} (sound : disk.Sound)
    (deep : disk.depth < bound + place.length) :
    names ∈ namesWithin bound disk place ↔ Leads disk place names := by
  induction bound generalizing place names with
  | zero =>
      -- Nothing is in a place that is deeper than the disk.
      have empty {name : Text} {node : Node} (held : disk.node? (name :: place) = some node) :
          False := by
        have long := Disk.length_le_depth ((sound.mem_nodes (List.cons_ne_nil _ _)).mpr held)
        rw [List.length_cons] at long
        omega
      constructor
      · exact fun member => absurd member List.not_mem_nil
      · intro leads
        cases leads with
        | file held => exact (empty held).elim
        | inner held _ => exact (empty held).elim
  | succ bound ih =>
      have below (name : Text) : disk.depth < bound + (name :: place).length := by
        rw [List.length_cons]
        omega
      have entry {name : Text} {node : Node} :
          (name, node) ∈ disk.inside place ↔ disk.node? (name :: place) = some node :=
        Disk.mem_inside.trans (sound.mem_nodes (List.cons_ne_nil _ _))
      rw [namesWithin_succ, List.mem_flatMap]
      constructor
      · rintro ⟨⟨name, node⟩, member, listed⟩
        have held := entry.mp member
        cases node with
        | file contents stamp =>
            obtain rfl := List.mem_singleton.mp listed
            exact .file held
        | directory stamp =>
            obtain ⟨rest, further, rfl⟩ := List.mem_map.mp listed
            exact .inner held ((ih (below name)).mp further)
        | link target => exact absurd listed List.not_mem_nil
      · intro leads
        cases leads with
        | file held => exact ⟨_, entry.mpr held, List.mem_singleton_self _⟩
        | inner held onward =>
            exact ⟨_, entry.mpr held, List.mem_map.mpr ⟨_, (ih (below _)).mpr onward, rfl⟩⟩

theorem namesWithin_ordered (sound : disk.Sound) (bound : Nat) (place : Place) :
    (namesWithin bound disk place).Pairwise Before := by
  induction bound generalizing place with
  | zero => exact .nil
  | succ bound ih =>
      rw [namesWithin_succ, List.pairwise_flatMap]
      constructor
      · intro entry _
        unfold entryNames
        split
        · exact List.pairwise_singleton _ _
        · exact List.pairwise_map.mpr ((ih _).imp fun before => before.cons _)
        · exact .nil
      · refine (sound.inside_ordered place).imp fun {left right} ordered => ?_
        intro first one second two
        obtain ⟨rest, rfl⟩ := entryNames_head one
        obtain ⟨more, rfl⟩ := entryNames_head two
        exact ⟨[], _, _, rest, more, rfl, rfl, Text.encode_lt ordered.1 ordered.2⟩

-- What is hidden anywhere on a way is left out with the first hidden directory.
theorem filesWithin_below {bound : Nat} (sound : disk.Sound) {front : List Text}
    (proper : ∀ name ∈ front, Path.IsName name) (shown : front.any Path.isHidden = false) :
    filesWithin bound disk root place (root.below front) =
      ((namesWithin bound disk place).filter fun names => !names.any Path.isHidden).map
        fun names => root.below (front ++ names) := by
  induction bound generalizing place front with
  | zero => rfl
  | succ bound ih =>
      rw [filesWithin_succ, namesWithin_succ, List.filter_flatMap, List.map_flatMap]
      refine List.flatMap_congr fun entry member => ?_
      obtain ⟨name, node⟩ := entry
      have new := (sound.proper _ _ (Disk.mem_inside.mp member)).head.isName
      have further : ∀ other ∈ front ++ [name], Path.IsName other := by
        intro other inside
        rcases List.mem_append.mp inside with before | last
        · exact proper other before
        · exact List.mem_singleton.mp last ▸ new
      have tested : (root.below (front ++ [name])).isExcluded root = Path.isHidden name := by
        rw [Path.isExcluded_below root further, List.any_append, shown]
        simp
      simp only [entryFiles, ← Path.below_concat, tested]
      split
      · next hidden =>
          rw [List.filter_eq_nil_iff.mpr, List.map_nil]
          intro names listed
          obtain ⟨rest, rfl⟩ := entryNames_head listed
          simp [hidden]
      · next plain =>
          have plain : Path.isHidden name = false := by simpa using plain
          cases node with
          | file contents stamp => simp [entryNames, plain]
          | directory stamp =>
              rw [ih further (by simp [List.any_append, shown, plain])]
              simp [entryNames, List.filter_map, List.map_map, plain, Function.comp_def]
          | link target => rfl

theorem entryAt?_join (located : disk.locate path = .ok place)
    (inside : disk.isDirectoryAt place = true) (new : Disk.IsEntryName name) :
    disk.entryAt? (path.join ⟨name⟩) = some (name :: place) := by
  obtain ⟨written, plain, way⟩ := Disk.locate_eq_ok_iff.mp located
  obtain ⟨front, fillers, shape, empty, joined⟩ := Path.parts_join written new.isName
  rw [shape] at way
  obtain ⟨middle, left, walks, rest⟩ := way.split
  obtain rfl := rest.fillers empty
  refine Disk.entryAt?_eq_some_iff.mpr ⟨front, name, place, by rw [joined], ?_, new.2.2, ?_, inside, rfl⟩
  · intro null
    rcases Path.mem_text_join null with before | slash | within
    · exact plain before
    · exact absurd slash (by decide)
    · exact new.2.1 within
  · have start : (disk.start (path.join ⟨name⟩)).1 = (disk.start path).1 :=
      Disk.start_place (by rw [joined])
    rwa [start]

/-- Joined to a path of the place, the names are a path of the file. -/
theorem Leads.located (leads : Leads disk place names) (sound : disk.Sound)
    (located : disk.locate path = .ok place) (inside : disk.isDirectoryAt place = true) :
    disk.locate (path.below names) = .ok (names.reverse ++ place) := by
  have onward {name : Text} {place : Place} {path : Path} {node : Node}
      (located : disk.locate path = .ok place) (inside : disk.isDirectoryAt place = true)
      (held : disk.node? (name :: place) = some node) (firm : ∀ target, node ≠ .link target) :
      disk.locate (path.join ⟨name⟩) = .ok (name :: place) := by
    have entry := entryAt?_join located inside (sound.proper_at held).head
    rw [Disk.locate, Disk.locateFrom_of_entry entry (by simpa [held] using firm),
      if_neg (by simp [held])]
  induction leads generalizing path with
  | file held => exact onward located inside held (by simp)
  | @inner name place names stamp held _ ih =>
      have next := onward located inside held (by simp)
      have same : names.reverse ++ name :: place = (name :: names).reverse ++ place := by simp
      rw [← same]
      exact ih next (Disk.isDirectoryAt_iff.mpr ⟨stamp, held⟩)

/-- The listing of a root is, of all the files below it, those that are not excluded: each once,
depth first and in the order of the bytes of the names. What the root is called has no part in
it, and no file that is brewed is missed. -/
theorem files_all (sound : disk.Sound) (located : disk.locate root = .ok place)
    (inside : disk.isDirectoryAt place = true) :
    ∃ all listed : List (List Text),
      files disk root = .ok (listed.map root.below) ∧
      listed = all.filter (fun names => !(root.below names).isExcluded root) ∧
      (∀ names, names ∈ all ↔ Leads disk place names) ∧
      all.Pairwise Before ∧
      (listed.map root.below).Nodup ∧
      (∀ names ∈ all, disk.locate (root.below names) = .ok (names.reverse ++ place)) ∧
      (∀ names ∈ all, (root.below names).isExcluded root = true ↔
        ∃ name ∈ names, name = dependencyDirectory ∨ name.head? = some '.') ∧
      ∀ classifier : Classifier, classifier.root = root → ∀ names ∈ all,
        classifier.classify (root.below names) ≠ .unrecognized →
          root.below names ∈ listed.map root.below := by
  have member {names : List Text} :
      names ∈ namesWithin (disk.depth + 1) disk place ↔ Leads disk place names :=
    mem_namesWithin sound (by omega)
  have hidden {names : List Text} (listed : names ∈ namesWithin (disk.depth + 1) disk place) :
      (root.below names).isExcluded root = names.any Path.isHidden :=
    Path.isExcluded_below root ((member.mp listed).proper sound)
  have ordered := namesWithin_ordered sound (disk.depth + 1) place
  refine ⟨namesWithin (disk.depth + 1) disk place, _, ?_, rfl, fun _ => member, ordered, ?_,
    fun names listed => (member.mp listed).located sound located inside, ?_, ?_⟩
  · have pruned := @filesWithin_below disk root place (disk.depth + 1) sound [] (by simp) rfl
    simp only [files, located, inside, if_true, Except.ok.injEq]
    refine pruned.trans (congrArg (List.map root.below) ?_)
    exact List.filter_congr fun names listed => by rw [hidden listed]
  · rw [List.nodup_map_iff_inj_on]
    · intro first one second two same
      exact Path.below_injective ((member.mp (List.mem_filter.mp one).1).proper sound)
        ((member.mp (List.mem_filter.mp two).1).proper sound) same
    · refine List.Nodup.filter _ (ordered.imp fun before same => ?_)
      exact Before.irrefl _ (same ▸ before)
  · intro names listed
    rw [hidden listed, List.any_eq_true]
    simp [Path.isHidden]
  · intro classifier same names listed known
    refine List.mem_map_of_mem (List.mem_filter.mpr ⟨listed, ?_⟩)
    subst same
    cases excluded : (classifier.root.below names).isExcluded classifier.root with
    | false => rfl
    | true => exact absurd (by simp [Classifier.classify, excluded]) known

-- The root is below a hidden directory, and a hidden directory is below the root.
def hiddenAround : Disk where
  nodes := [([".work".toList], .directory 1), (["app".toList, ".work".toList], .directory 1),
    ([".git".toList, "app".toList, ".work".toList], .directory 1),
    (["a.coffee".toList, ".git".toList, "app".toList, ".work".toList], .file (.text []) 1),
    (["b.coffee".toList, "app".toList, ".work".toList], .file (.text []) 1)]
  current := []
  clock := 1

theorem hiddenAround_lists : ∃ paths,
    files hiddenAround (.ofString "/.work/app/") = .ok paths ∧ paths.Nodup ∧
      .ofString "/.work/app/b.coffee" ∈ paths := by
  have names : ∀ entry ∈ hiddenAround.nodes, ∀ name ∈ entry.1, '/' ∉ name ∧
      Char.ofNat 0 ∉ name ∧ Path.isFiller name = false ∧ name ≠ ['.', '.'] ∧
        Text.Utf8.size name ≤ Disk.nameLimit := by decide
  have sound : hiddenAround.Sound :=
    ⟨by decide, fun place node member name inside => names (place, node) member name inside⟩
  obtain ⟨all, listed, found, _, leads, _, single, _, _, brewed⟩ :=
    @files_all hiddenAround (.ofString "/.work/app/") ["app".toList, ".work".toList] sound
      (by decide +kernel) (by decide)
  refine ⟨_, found, single, brewed ⟨_, [.intermediateScript]⟩ rfl ["b.coffee".toList] ?_ (by decide +kernel)⟩
  exact (leads _).mpr (@Leads.file hiddenAround _ _ (.text []) 1 (by decide))

end Tree
end Brewery
