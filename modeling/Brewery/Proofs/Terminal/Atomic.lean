import Brewery.Terminal.Perform
import Mathlib.Control.Monad.Basic

/-!
A brewing that ends with an error has done nothing. Whatever can fail comes first: the paths
are looked up, the registry is read, every named file is classified, the watcher is started and
the tree is listed before a first artifact is made. From there on a source that cannot be built
is told of, and no longer an error of the whole.
-/

namespace Brewery

/-- Nothing has been done but telling. The clock of a disk tells of every write, so an equal
disk also means that nothing was written and taken back. -/
structure Progress.Untouched (disk : Disk) (options : SessionOptions) (progress : Progress) :
    Prop where
  disk : progress.disk = disk
  session : progress.session = .start options
  runs : progress.runs = []

namespace Progress.Untouched

variable {disk : Disk} {options : SessionOptions} {progress : Progress}

theorem start (disk : Disk) (options : SessionOptions) :
    Untouched disk options (.start disk options) := ⟨rfl, rfl, rfl⟩

theorem tell (untouched : Untouched disk options progress) (entries : Log) :
    Untouched disk options (progress.tell entries) :=
  ⟨untouched.disk, untouched.session, untouched.runs⟩

end Progress.Untouched

namespace Brewer

open Progress (Untouched)

variable {brewer : Brewer} {disk : Disk} {options : SessionOptions} {progress after : Progress}
  {root : Path} {outside : Surroundings}

/-- Named files are refused for the first of them that is of no kind, wherever in the list it is. -/
theorem build_error_iff {files : List Path} {error : BuildError} :
    (brewer.build files progress).2 = .error error ↔ ∃ before path after,
      files = before ++ path :: after ∧
      (∀ earlier ∈ before, brewer.classifier.classify earlier ≠ .unrecognized) ∧
      brewer.classifier.classify path = .unrecognized ∧ error = .unknownFileType path := by
  unfold build
  split
  · next path found =>
      obtain ⟨unknown, before, after, shape, known⟩ := List.find?_eq_some_iff_append.mp found
      constructor
      · intro refused
        exact ⟨before, path, after, shape, by simpa using known, by simpa using unknown,
          (Except.error.inj refused).symm⟩
      · rintro ⟨before', path', after', shape', known', unknown', rfl⟩
        have again : files.find? (fun path => brewer.classifier.classify path = .unrecognized) =
            some path' :=
          List.find?_eq_some_iff_append.mpr
            ⟨by simpa using unknown', before', after', shape', by simpa using known'⟩
        rw [Option.some.inj (found.symm.trans again)]
  · next none =>
      refine iff_of_false (by simp) ?_
      rintro ⟨before, path, after, rfl, _, unknown, _⟩
      exact absurd (List.find?_eq_none.mp none path (by simp)) (by simp [unknown])

theorem build_untouched {files : List Path} {error : BuildError}
    (untouched : Untouched disk options progress)
    (fails : brewer.build files progress = (after, .error error)) :
    Untouched disk options after := by
  unfold build at fails
  split at fails
  · cases fails
    exact untouched
  · cases fails

theorem startWatcher_untouched {result : Except TreeError Unit}
    (untouched : Untouched disk options progress)
    (starts : startWatcher root outside progress = (after, result)) :
    Untouched disk options after := by
  unfold startWatcher at starts
  split at starts
  · split at starts
    · cases starts
      exact untouched
    · cases starts
      exact untouched.tell _
  · cases starts
    exact untouched

-- A pass fails when its tree cannot be listed, and it lists the tree before it reacts to a file.
theorem pass_untouched {error : TreeError} (untouched : Untouched disk options progress)
    (fails : brewer.pass root progress = (after, .error error)) :
    Untouched disk options after := by
  simp only [pass] at fails
  split at fails
  · cases fails
    exact untouched.tell _
  · cases fails

-- Once the first pass is through, nothing that comes from outside is an error.
theorem drive_untouched {quiet : Nat} {error : TreeError}
    (untouched : Untouched disk options progress)
    (fails : brewer.drive root quiet outside progress = (after, .error error)) :
    Untouched disk options after := by
  unfold drive at fails
  split at fails
  · next starts =>
      cases fails
      exact startWatcher_untouched untouched starts
  · next started starts =>
      have watching := startWatcher_untouched untouched starts
      split at fails
      · next passes =>
          cases fails
          exact pass_untouched watching passes
      · split at fails
        · cases fails
        · cases fails

end Brewer

namespace Terminal

open Progress (Untouched)

variable {settings : Settings} {disk : Disk} {paths : List Path} {selected : List SourceKind}
  {options : SessionOptions} {outside : Surroundings} {error : CommandError}
  {progress after : Progress}

theorem brewTargets_untouched {brewer : Brewer} {targets : Targets} {quiet : Nat}
    (untouched : Untouched disk options progress)
    (fails : brewTargets brewer targets quiet outside progress = (after, .error error)) :
    Untouched disk options after := by
  unfold brewTargets at fails
  split at fails
  · split at fails
    · cases fails
    · next drives =>
        cases fails
        exact Brewer.drive_untouched (untouched.tell _) drives
  · split at fails
    · cases fails
    · next builds =>
        cases fails
        exact Brewer.build_untouched untouched builds

theorem brew_untouched
    (fails : brew settings disk paths selected options outside = (after, .error error)) :
    Untouched disk options after := by
  have start := Untouched.start disk options
  simp only [brew] at fails
  split at fails
  · cases fails
    exact start
  · split at fails
    · cases fails
      exact (start.tell _).tell _
    · split at fails
      · next brews =>
          cases fails
          exact brewTargets_untouched ((start.tell _).tell _) brews
      · cases fails

-- What failed is what the brewing itself came to: the scripts at its end cannot fail it.
theorem performBrew_error
    (fails : (performBrew settings disk paths selected options outside).result = .error error) :
    ∃ after, brew settings disk paths selected options outside = (after, .error error) ∧
      performBrew settings disk paths selected options outside =
        .failed after.disk after.log error := by
  unfold performBrew at fails ⊢
  split at fails
  · next after _ brews =>
      obtain rfl := Except.error.inj fails
      exact ⟨after, brews, rfl⟩
  · exact absurd fails (by simp)

/-- An error of any kind leaves the disk as it was, with no artifact written or removed, no
script started and nothing printed. -/
theorem failure_atomic (settings : Settings) (disk : Disk) (paths : List Path)
    (selected : List SourceKind) (options : SessionOptions) (outside : Surroundings)
    (error : CommandError)
    (fails : (performBrew settings disk paths selected options outside).result = .error error) :
    (performBrew settings disk paths selected options outside).disk = disk ∧
      (performBrew settings disk paths selected options outside).output = [] ∧
      Untouched disk options (brew settings disk paths selected options outside).1 := by
  obtain ⟨after, brews, answers⟩ := performBrew_error fails
  have untouched := brew_untouched brews
  rw [answers, brews]
  exact ⟨untouched.disk, rfl, untouched⟩

-- A script that could be built, and after it a file that is no source.
def mixedDisk : Disk :=
  ⟨[(["a.cielo".toList], .file (.text "x = 1\n".toList) 1),
    (["notes.txt".toList], .file (.text []) 1)], [], 1⟩

theorem mixed_atomic :
    let answer := performBrew .standard mixedDisk
      [Path.ofString "a.cielo", Path.ofString "notes.txt"] [] .plain .still
    answer.result = .error (.build (.unknownFileType (Path.ofString "/notes.txt"))) ∧
      answer.disk = mixedDisk := by
  have fails : (performBrew .standard mixedDisk
      [Path.ofString "a.cielo", Path.ofString "notes.txt"] [] .plain .still).result =
        .error (.build (.unknownFileType (Path.ofString "/notes.txt"))) := by decide +kernel
  exact ⟨fails, (failure_atomic _ _ _ _ _ _ _ fails).1⟩

end Terminal
end Brewery
