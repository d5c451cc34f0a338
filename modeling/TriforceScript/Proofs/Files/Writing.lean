import TriforceScript.FileTree

/-!
# Writing files

A file that has been written can be read again under the same name, and no other place of
the tree has changed.  Only a sink keeps nothing of what is written to it.
-/

namespace TriforceScript

/-! ## Names -/

namespace Path

private theorem components_ne_nil (name : Bytes) : components name ≠ [] := by
  cases name with
  | nil => simp [components]
  | cons byte rest =>
      rw [components]
      split
      · simp
      · split <;> simp

/-- The last component of a name that does not end with a slash is not empty. -/
private theorem getLast?_components {name : Bytes} (nonempty : name ≠ [])
    (ends : name.getLast? ≠ some slash) : (components name).getLast? ≠ some [] := by
  induction name with
  | nil =>
      exact (nonempty rfl).elim
  | cons byte rest inductionHypothesis =>
      have restComponents := components_ne_nil rest
      rw [components]
      by_cases isSlash : byte = slash
      · have restNonempty : rest ≠ [] := by
          rintro rfl
          exact ends (congrArg some isSlash)
        have restEnds : rest.getLast? ≠ some slash := by
          rwa [List.getLast?_cons_of_ne_nil restNonempty] at ends
        rw [if_pos isSlash, List.getLast?_cons_of_ne_nil restComponents]
        exact inductionHypothesis restNonempty restEnds
      · rw [if_neg isSlash]
        by_cases alone : rest = []
        · rw [alone]
          simp [components]
        · rw [List.getLast?_cons_of_ne_nil alone] at ends
          have kept := inductionHypothesis alone ends
          split
          · simp
          · rename_i first others shape
            rw [shape] at kept
            cases others with
            | nil => simp
            | cons second rest => simpa using kept

end Path

namespace FileTree

/-! ## Places -/

section Tables

variable {Key Value : Type} [BEq Key] [LawfulBEq Key] (table : List (Key × Value)) (key : Key)

private theorem lookup_filter_self : (table.filter (·.1 != key)).lookup key = none := by
  rw [List.lookup_eq_none_iff]
  intro pair member
  have kept := (List.mem_filter.mp member).2
  rw [bne_iff_ne] at kept
  simpa using Ne.symm kept

private theorem lookup_filter_ne {other : Key} (different : other ≠ key) :
    (table.filter (·.1 != key)).lookup other = table.lookup other := by
  induction table with
  | nil =>
      rfl
  | cons pair rest inductionHypothesis =>
      by_cases isKey : pair.1 = key
      · have notOther : (other == pair.1) = false := by
          simpa [isKey] using different
        rw [List.filter_cons_of_neg (by simp [isKey]), inductionHypothesis, List.lookup_cons,
          notOther]
      · rw [List.filter_cons_of_pos (by simp [isKey]), List.lookup_cons, List.lookup_cons,
          inductionHypothesis]

end Tables

section Put

variable (tree : FileTree) {location : Location} (entry : Entry)

theorem find?_put_self (proper : location ≠ []) : (tree.put location entry).find? location = some entry := by
  rw [find?, if_neg proper, put, List.lookup_append, lookup_filter_self]
  simp

theorem find?_put_of_ne {other : Location} (different : other ≠ location) :
    (tree.put location entry).find? other = tree.find? other := by
  unfold find?
  split
  · rfl
  · have notNew : [(location, entry)].lookup other = none := by
      rw [List.lookup_eq_none_iff]
      simpa using different
    rw [put, List.lookup_append, lookup_filter_ne _ _ different, notNew, Option.or_none]

end Put

/-! ## Ways -/

theorem follow_append (tree : FileTree) (location : Location) (first second : List Bytes) :
    tree.follow location (first ++ second) =
      (tree.follow location first).bind fun reached => tree.follow reached second := by
  induction first generalizing location with
  | nil =>
      rfl
  | cons part rest inductionHypothesis =>
      rw [List.cons_append, follow, follow]
      split
      · rfl
      · split
        · exact inductionHypothesis location
        split
        · exact inductionHypothesis location.dropLast
        split
        · rfl
        · exact inductionHypothesis (location ++ [part])
      · rfl

/-- A way through folders is still there when something else has been put in a place that
was no folder. -/
theorem follow_put {tree : FileTree} {location : Location}
    (notFolder : tree.find? location ≠ some .folder) (entry : Entry) {start reached : Location}
    {parts : List Bytes} (followed : tree.follow start parts = .ok reached) :
    (tree.put location entry).follow start parts = .ok reached := by
  induction parts generalizing start with
  | nil =>
      exact followed
  | cons part rest inductionHypothesis =>
      cases found : tree.find? start with
      | none =>
          rw [follow, found] at followed
          cases followed
      | some there =>
          cases there with
          | file _ | sink =>
              rw [follow, found] at followed
              cases followed
          | folder =>
              have different : start ≠ location := by
                rintro rfl
                exact notFolder found
              rw [follow, found] at followed
              rw [follow, tree.find?_put_of_ne entry different, found]
              dsimp only at followed ⊢
              split at followed
              · rename_i stays
                rw [if_pos stays]
                exact inductionHypothesis followed
              rename_i moves
              rw [if_neg moves]
              split at followed
              · rename_i up
                rw [if_pos up]
                exact inductionHypothesis followed
              rename_i down
              rw [if_neg down]
              split at followed
              · cases followed
              · rename_i short
                rw [if_neg short]
                exact inductionHypothesis followed

private theorem follow_empty {tree : FileTree} {start reached : Location}
    (followed : tree.follow start [[]] = .ok reached) :
    reached = start ∧ tree.find? start = some .folder := by
  rw [follow] at followed
  split at followed
  · cases followed
  · rename_i found
    rw [if_pos (.inl rfl)] at followed
    cases followed
    exact ⟨rfl, found⟩
  · cases followed

/-! ## Targets -/

/-- `Targets tree name folder last` means that a file may be written under `name`: it is
called `last` in the folder that the rest of the name leads to. -/
structure Targets (tree : FileTree) (name : Bytes) (folder : Location) (last : Bytes) :
    Prop where
  named : nameFault? name = none
  parts : ∃ parents, Path.components name = parents ++ [last] ∧
    tree.follow (tree.base name) parents = .ok folder
  isFolder : tree.find? folder = some .folder
  ordinary : last ≠ [] ∧ last ≠ Path.here ∧ last ≠ Path.above ∧ last.length ≤ partLimit
  free : tree.find? (folder ++ [last]) ≠ some .folder

private theorem components_eq_of_dropWhile {name last : Bytes} {parents : List Bytes}
    (named : nameFault? name = none) (ends : name.getLast? ≠ some Path.slash)
    (reversed : (Path.components name).reverse.dropWhile (· = []) = last :: parents) :
    Path.components name = parents.reverse ++ [last] := by
  have nonempty : name ≠ [] := by
    rintro rfl
    cases named
  have lastKept := Path.getLast?_components nonempty ends
  rw [← List.head?_reverse] at lastKept
  -- Nothing is dropped, because the last component is not empty.
  generalize shape : (Path.components name).reverse = backwards at reversed lastKept
  cases backwards with
  | nil => cases reversed
  | cons first others =>
      have firstNonempty : first ≠ [] := by
        simpa using lastKept
      rw [List.dropWhile_cons_of_neg (by simpa using firstNonempty)] at reversed
      cases reversed
      rw [← List.reverse_cons, ← shape, List.reverse_reverse]

private theorem exists_targets {tree : FileTree} {name : Bytes} {location : Location}
    (found : tree.target name = .ok location) :
    ∃ folder last, tree.Targets name folder last ∧ location = folder ++ [last] := by
  unfold target at found
  split at found
  · cases found
  · cases found
  · rename_i last parents named reversed
    cases followed : tree.follow (tree.base name) (parents.reverse ++ [[]]) with
    | error cause =>
        rw [followed] at found
        cases found
    | ok folder =>
        rw [followed] at found
        dsimp only [bind, Except.bind] at found
        split at found
        · cases found
        rename_i ordinary
        rw [not_or, not_or] at ordinary
        split at found
        · cases found
        rename_i short
        split at found
        · cases found
        rename_i free
        cases found
        have whole := components_eq_of_dropWhile named ordinary.1 reversed
        have lastNonempty : last ≠ [] := by
          rintro rfl
          have dropped := List.head?_dropWhile_not (· = []) (Path.components name).reverse
          simp [reversed] at dropped
        rw [follow_append] at followed
        cases reached : tree.follow (tree.base name) parents.reverse with
        | error cause =>
            rw [reached] at followed
            cases followed
        | ok start =>
            rw [reached] at followed
            obtain ⟨rfl, isFolder⟩ := follow_empty followed
            exact ⟨folder, last,
              ⟨named, ⟨parents.reverse, whole, reached⟩, isFolder,
                ⟨lastNonempty, ordinary.2.1, ordinary.2.2, Nat.le_of_not_lt short⟩, free⟩, rfl⟩

/-! ## Writing and reading again -/

private theorem Targets.lookup_put {tree : FileTree} {name last : Bytes} {folder : Location}
    (targets : tree.Targets name folder last) (content : Bytes) :
    (tree.put (folder ++ [last]) (.file content)).lookup name = .ok (.file content) := by
  obtain ⟨named, ⟨parents, shape, followed⟩, isFolder, ordinary, free⟩ := targets
  have proper : folder ++ [last] ≠ [] := by
    simp
  have different : folder ≠ folder ++ [last] := by
    simp
  have stillFollowed := follow_put free (.file content) followed
  have stillFolder : (tree.put (folder ++ [last]) (.file content)).find? folder = some .folder := by
    rw [find?_put_of_ne tree _ different, isFolder]
  have lastStep :
      (tree.put (folder ++ [last]) (.file content)).follow folder [last] = .ok (folder ++ [last]) := by
    rw [follow, stillFolder]
    simp [follow, ordinary]
  have whole :
      (tree.put (folder ++ [last]) (.file content)).follow (tree.base name) (Path.components name) =
        .ok (folder ++ [last]) := by
    rw [shape, follow_append, stillFollowed]
    exact lastStep
  have sameBase : (tree.put (folder ++ [last]) (.file content)).base name = tree.base name := rfl
  rw [lookup, named, sameBase, whole]
  dsimp only [bind, Except.bind]
  rw [find?_put_self tree _ proper]

theorem exists_target_of_write {tree after : FileTree} {name content : Bytes}
    (written : tree.write name content = .ok after) : ∃ location, tree.target name = .ok location := by
  unfold write at written
  split at written
  · cases written
  · rename_i location found
    exact ⟨location, found⟩

theorem folder_write {tree after : FileTree} {name content : Bytes}
    (written : tree.write name content = .ok after) : after.folder = tree.folder := by
  unfold write at written
  split at written
  · cases written
  · split at written
    · cases written
      rfl
    · cases written
      rfl

section Write

variable {tree after : FileTree} {name content : Bytes} {location : Location}
  (found : tree.target name = .ok location) (written : tree.write name content = .ok after)

include found

theorem exists_write_eq_ok (content : Bytes) : ∃ after, tree.write name content = .ok after := by
  rw [write, found]
  dsimp only
  split
  · exact ⟨_, rfl⟩
  · exact ⟨_, rfl⟩

include written

theorem write_eq :
    after = if tree.find? location = some .sink then tree else tree.put location (.file content) := by
  rw [write, found] at written
  dsimp only at written
  split at written
  · rename_i isSink
    cases written
    rw [if_pos isSink]
  · rename_i notSink
    cases written
    rw [if_neg notSink]

/-- Writing a file changes no other place. -/
theorem find?_write_of_ne {other : Location} (different : other ≠ location) :
    after.find? other = tree.find? other := by
  rw [write_eq found written]
  split
  · rfl
  · exact tree.find?_put_of_ne _ different

/-- A file that has been written has the new content, under its name and in its place. -/
theorem read_write (notSink : tree.find? location ≠ some .sink) :
    after.find? location = some (.file content) ∧ after.read name = .ok content := by
  obtain ⟨folder, last, targets, rfl⟩ := exists_targets found
  have proper : folder ++ [last] ≠ [] := by
    simp
  rw [write_eq found written, if_neg notSink]
  refine ⟨tree.find?_put_self _ proper, ?_⟩
  rw [read, targets.lookup_put content]

end Write

end FileTree

end TriforceScript
