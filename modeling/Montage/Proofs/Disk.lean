import Mathlib.Data.List.Basic
import Montage.Disk.Tree

/-!
Contract: what can be found on a disk after something was made there.

Owns:
- what lies at a place after a node was put somewhere, and the meaning of a path on a disk with more
  directories;
- that nothing is lost when a file is written or a directory is made (`Disk.Outlasts`);
- the content of a file that was just written.

Does **not** own: the order in which files are written (`Montage.Project.Folder`).
-/

set_option autoImplicit false

namespace Montage.Disk

variable {d after : Disk} {place other : Place} {node : Node}

theorem node?_put_self (notRoot : place ≠ []) : (d.put place node).node? place = some node := by
  rw [node?, if_neg notRoot, put, List.lookup_cons_self]

theorem node?_put_of_ne (ne : other ≠ place) : (d.put place node).node? other = d.node? other := by
  have kept (nodes : List (Place × Node)) :
      (nodes.filter fun entry => entry.1 != place).lookup other = nodes.lookup other := by
    induction nodes with
    | nil => rfl
    | cons entry rest inductionHypothesis =>
        obtain ⟨at', found⟩ := entry
        by_cases same : at' = place
        · have passed : (other == at') = false := by simpa [same] using ne
          simpa [same, List.lookup_cons, same ▸ passed] using inductionHypothesis
        · simp [same, List.lookup_cons, inductionHypothesis]
  have passed : (other == place) = false := by simpa using ne
  simp only [node?, put, List.lookup_cons, passed, kept]

/-! ## Paths -/

/-- Directories that stay let names be followed as before. -/
theorem follow_of_directories
    (stay : ∀ q, d.node? q = some .directory → after.node? q = some .directory)
    {start target : Place} {names : List String} (reached : d.follow start names = .ok target) :
    after.follow start names = .ok target := by
  induction names generalizing start with
  | nil => exact reached
  | cons name rest inductionHypothesis =>
      rw [follow] at reached ⊢
      split_ifs at reached ⊢ with tooLong idle above isLast
      · exact inductionHypothesis reached
      · exact inductionHypothesis reached
      · exact reached
      · -- Only a directory is entered, and it is one still.
        unfold enter at reached ⊢
        cases found : d.node? (start ++ [name]) with
        | none => simp [found] at reached
        | some node =>
            cases node with
            | file content => simp [found] at reached
            | directory =>
                rw [found] at reached
                rw [stay _ found]
                exact inductionHypothesis reached

theorem resolve_of_directories
    (stay : ∀ q, d.node? q = some .directory → after.node? q = some .directory)
    (sameStart : after.working = d.working) {p : Path} (meant : d.resolve p = .ok place) :
    after.resolve p = .ok place := by
  unfold resolve at meant ⊢
  rw [sameStart]
  split_ifs at meant ⊢ with zero isEmpty tooLong isAbsolute
  · exact follow_of_directories stay meant
  · exact follow_of_directories stay meant

/-! ## Growth -/

/-- On a disk there is what there was on another one: a directory where there was one, and a file where there was
one, perhaps with other content. -/
structure Outlasts (d after : Disk) : Prop where
  working : after.working = d.working
  kept : ∀ place kind, (d.node? place).map Node.kind = some kind →
    (after.node? place).map Node.kind = some kind

theorem Outlasts.refl (d : Disk) : d.Outlasts d := ⟨rfl, fun _ _ isThere => isThere⟩

theorem Outlasts.trans {last : Disk} (first : d.Outlasts after) (second : after.Outlasts last) :
    d.Outlasts last :=
  ⟨second.working.trans first.working, fun place kind isThere =>
    second.kept place kind (first.kept place kind isThere)⟩

theorem Outlasts.directory (outlasts : d.Outlasts after) (q : Place)
    (isDirectory : d.node? q = some .directory) : after.node? q = some .directory := by
  have kept := outlasts.kept q .directory (by rw [isDirectory]; rfl)
  cases found : after.node? q with
  | none => simp [found] at kept
  | some node =>
      cases node with
      | directory => rfl
      | file content => simp [found, Node.kind] at kept

theorem Outlasts.resolve (outlasts : d.Outlasts after) {p : Path} (meant : d.resolve p = .ok place) :
    after.resolve p = .ok place :=
  resolve_of_directories outlasts.directory outlasts.working meant

theorem Outlasts.kind? (outlasts : d.Outlasts after) {p : Path} {kind : NodeKind}
    (isThere : d.kind? p = some kind) : after.kind? p = some kind := by
  unfold Disk.kind? at isThere ⊢
  cases meant : d.resolve p with
  | error e => simp [meant] at isThere
  | ok place =>
      rw [meant] at isThere
      rw [outlasts.resolve meant]
      exact outlasts.kept place kind isThere

/-- A node can be put where there is nothing, or something of the same kind. -/
theorem outlasts_put (alike : ∀ found, d.node? place = some found → found.kind = node.kind) :
    d.Outlasts (d.put place node) := by
  refine ⟨rfl, fun q kind isThere => ?_⟩
  by_cases same : q = place
  · subst same
    by_cases root : q = []
    · subst root
      exact isThere
    · obtain ⟨found, isFound, rfl⟩ := Option.map_eq_some_iff.mp isThere
      rw [node?_put_self root, Option.map_some, alike found isFound]
  · rwa [node?_put_of_ne same]

theorem outlasts_of_makeDirectory {p : Path} (made : d.makeDirectory p = .ok after) :
    d.Outlasts after := by
  unfold makeDirectory at made
  cases meant : d.resolveNew p with
  | error e => simp [meant] at made
  | ok place =>
      rw [meant] at made
      dsimp only at made
      cases nothing : d.node? place with
      | some node => simp [nothing] at made
      | none =>
          rw [nothing] at made
          cases made
          exact outlasts_put fun found isFound => by rw [nothing] at isFound; cases isFound

/-! ## Files -/

theorem writable_eq_ok {p : Path} (free : d.writable p = .ok place) :
    d.resolve p = .ok place ∧ d.node? place ≠ some .directory := by
  unfold writable at free
  split_ifs at free with slash
  · cases resolved : d.resolveNew p <;> simp [resolved] at free
  · cases resolved : d.resolve p with
    | error e => simp [resolved] at free
    | ok target =>
        rw [resolved] at free
        dsimp only at free
        split_ifs at free with isDirectory
        obtain rfl : target = place := Except.ok.inj free
        exact ⟨rfl, isDirectory⟩

/-- A file is written at the place that its path means, and no directory lies there. -/
theorem eq_put_of_write {p : Path} {content : ByteArray} (written : d.write p content = .ok after) :
    ∃ place, d.resolve p = .ok place ∧ d.node? place ≠ some .directory ∧
      after = d.put place (.file content) := by
  unfold write at written
  cases free : d.writable p with
  | error e => simp [free, Except.map] at written
  | ok place =>
      obtain ⟨meant, notDirectory⟩ := writable_eq_ok free
      exact ⟨place, meant, notDirectory, by simpa [free, Except.map, eq_comm] using written⟩

theorem outlasts_put_file {content : ByteArray} (notDirectory : d.node? place ≠ some .directory) :
    d.Outlasts (d.put place (.file content)) := by
  refine outlasts_put fun found isFound => ?_
  cases found with
  | directory => exact (notDirectory isFound).elim
  | file kept => rfl

theorem outlasts_of_write {p : Path} {content : ByteArray} (written : d.write p content = .ok after) :
    d.Outlasts after := by
  obtain ⟨place, -, notDirectory, rfl⟩ := eq_put_of_write written
  exact outlasts_put_file notDirectory

/-- A file that was just written holds what was written. -/
theorem read_of_write {p : Path} {content : ByteArray} (written : d.write p content = .ok after) :
    after.read p = .ok content := by
  obtain ⟨place, meant, notDirectory, rfl⟩ := eq_put_of_write written
  have notRoot : place ≠ [] := by
    rintro rfl
    exact notDirectory rfl
  -- The file takes no directory away, so the path still leads to its place.
  rw [read, (outlasts_put_file notDirectory).resolve meant]
  simp only [node?_put_self notRoot]

theorem kind?_of_read {p : Path} {content : ByteArray} (isRead : d.read p = .ok content) :
    d.kind? p = some .file := by
  unfold read at isRead
  unfold kind?
  cases meant : d.resolve p with
  | error e => simp [meant] at isRead
  | ok place =>
      rw [meant] at isRead
      dsimp only at isRead ⊢
      cases found : d.node? place with
      | none => simp [found] at isRead
      | some node =>
          cases node with
          | directory => simp [found] at isRead
          | file kept => rfl

end Montage.Disk
