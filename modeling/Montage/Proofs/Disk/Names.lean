import Mathlib.Data.List.TakeWhile
import Montage.Proofs.Disk

/-!
Contract: what a name in a path says about the place that the path means.

Owns:
- the parts of a path that is continued by a name (`Path.rawParts_join`), and of the directories above it;
- that such a path means a place of that name, if it means one;
- that a file keeps its content while files of other names are written (`Disk.read_write_of_ne`);
- names that a disk lacks (`Disk.Lacks`), and that it lacks them until a path that holds them is made;
- what is left of a path after a directory was taken away.

Does **not** own: who chooses the names (`Montage.Engine.Staging`).
-/

set_option autoImplicit false

namespace Montage

/-! ## Parts of a text -/

namespace Text

theorem splitOn_eq (separator : Char) (s : List Char) :
    splitOn separator s = s.splitOn separator := by
  induction s with
  | nil => exact (List.splitOn_nil separator).symm
  | cons c rest inductionHypothesis =>
      rw [splitOn, List.splitOn_cons_eq_if_modifyHead, inductionHypothesis]
      by_cases same : c = separator
      · simp [same]
      · have notEmpty : rest.splitOn separator ≠ [] := List.splitOn_ne_nil _ _
        rw [if_neg same]
        cases parts : rest.splitOn separator with
        | nil => exact (notEmpty parts).elim
        | cons part others => simp [same]

theorem not_mem_of_mem_splitOn {separator : Char} {s part : List Char}
    (member : part ∈ splitOn separator s) : separator ∉ part := by
  induction s generalizing part with
  | nil =>
      rw [splitOn, List.mem_singleton] at member
      simp [member]
  | cons c rest inductionHypothesis =>
      rw [splitOn] at member
      split_ifs at member with same
      · rcases List.mem_cons.mp member with rfl | later
        · exact List.not_mem_nil
        · exact inductionHypothesis later
      · cases parts : splitOn separator rest with
        | nil =>
            simp only [parts, List.mem_singleton] at member
            simp [member, Ne.symm same]
        | cons part others =>
            simp only [parts, List.mem_cons] at member inductionHypothesis
            rcases member with rfl | later
            · simp [Ne.symm same, inductionHypothesis (Or.inl rfl)]
            · exact inductionHypothesis (Or.inr later)

/-- A text is cut into parts exactly if they hold no separator and are joined to the text by separators. -/
theorem splitOn_eq_iff {separator : Char} {s : List Char} {parts : List (List Char)} :
    splitOn separator s = parts ↔
      parts ≠ [] ∧ (∀ part ∈ parts, separator ∉ part) ∧ s = [separator].intercalate parts := by
  constructor
  · rintro rfl
    refine ⟨?_, fun part member => not_mem_of_mem_splitOn member, ?_⟩
    · rw [splitOn_eq]
      exact List.splitOn_ne_nil _ _
    · rw [splitOn_eq, List.intercalate_splitOn]
  · rintro ⟨notEmpty, none, rfl⟩
    rw [splitOn_eq, List.splitOn_intercalate separator none notEmpty]

theorem toList_join (parts : List String) :
    (join "/" parts).toList = ['/'].intercalate (parts.map String.toList) := by
  induction parts with
  | nil => rfl
  | cons part rest inductionHypothesis =>
      cases rest with
      | nil => simp [join]
      | cons next others =>
          simp only [List.map_cons] at inductionHypothesis ⊢
          rw [join, String.toList_append, String.toList_append, inductionHypothesis,
            List.intercalate_cons_cons]
          · rfl
          · simp

end Text

/-- A name that stands for something of its own: it has one part, and is neither passed over nor leads
upward. -/
structure IsName (name : String) : Prop where
  single : '/' ∉ name.toList
  notIdle : Path.isIdle name = false
  notAbove : name ≠ ".."

/-! ## Parts of a path -/

namespace Path

variable {p above : Path} {name part : String}

theorem rawParts_of_single (single : '/' ∉ name.toList) : rawParts ⟨name⟩ = [name] := by
  unfold rawParts
  rw [Text.splitOn_eq, List.splitOn_eq_singleton single]
  simp

theorem rawParts_append (front back : List Char) :
    rawParts ⟨String.ofList (front ++ '/' :: back)⟩ =
      rawParts ⟨String.ofList front⟩ ++ rawParts ⟨String.ofList back⟩ := by
  unfold rawParts
  simp [Text.splitOn_eq, List.splitOn_append_cons_self]

/-- Slashes at the end of a path only add to its parts. -/
theorem rawParts_subset_of_slashes (front : List Char) {back : List Char}
    (slashes : ∀ c ∈ back, c = '/') :
    rawParts ⟨String.ofList front⟩ ⊆ rawParts ⟨String.ofList (front ++ back)⟩ := by
  cases back with
  | nil => simp
  | cons c rest =>
      rw [slashes c List.mem_cons_self, rawParts_append]
      exact List.subset_append_left _ _

/-- A path continued by a name ends in that name, and what stands before it is of the path. -/
theorem rawParts_join (single : '/' ∉ name.toList) (p : Path) :
    ∃ before, (p.join name).rawParts = before ++ [name] ∧ before ⊆ p.rawParts := by
  have relative : isAbsolute ⟨name⟩ = false := by
    unfold isAbsolute
    rw [beq_eq_false_iff_ne]
    intro first
    exact single (List.mem_of_head? first)
  unfold join
  rw [relative, Bool.false_or]
  split_ifs with isEmpty ends
  · exact ⟨[], rawParts_of_single single, List.nil_subset _⟩
  · obtain ⟨front, isFront⟩ := List.getLast?_eq_some_iff.mp (beq_iff_eq.mp ends)
    have whole : p.text = String.ofList (front ++ '/' :: []) := by
      rw [← isFront, String.ofList_toList]
    have continued : p.text ++ name = String.ofList (front ++ '/' :: name.toList) := by
      apply String.toList_injective
      simp [isFront]
    refine ⟨rawParts ⟨String.ofList front⟩, ?_, ?_⟩
    · rw [continued, rawParts_append, String.ofList_toList, rawParts_of_single single]
    · obtain ⟨text⟩ := p
      rw [show text = _ from whole, rawParts_append]
      exact List.subset_append_left _ _
  · have continued : p.text ++ "/" ++ name = String.ofList (p.text.toList ++ '/' :: name.toList) := by
      apply String.toList_injective
      simp
    refine ⟨p.rawParts, ?_, List.Subset.refl _⟩
    rw [continued, rawParts_append, String.ofList_toList, String.ofList_toList,
      rawParts_of_single single]

/-- A path continued by two names is two paths. -/
theorem join_injective {other : String} (single : '/' ∉ name.toList) (otherSingle : '/' ∉ other.toList)
    (same : p.join name = p.join other) : name = other := by
  obtain ⟨before, parts, -⟩ := rawParts_join single p
  obtain ⟨otherBefore, otherParts, -⟩ := rawParts_join otherSingle p
  rw [same, otherParts] at parts
  exact (List.singleton_inj.mp (List.append_inj_right' parts rfl)).symm

theorem withoutIdle_subset (parts : List String) : withoutIdle parts ⊆ parts := by
  fun_induction withoutIdle parts with
  | case1 => exact List.Subset.refl _
  | case2 => exact List.nil_subset _
  | case3 => exact List.Subset.refl _
  | case4 part before isIdle notLast inductionHypothesis =>
      exact List.subset_cons_of_subset _ inductionHypothesis
  | case5 => exact List.Subset.refl _

theorem single_of_mem_rawParts (member : part ∈ p.rawParts) : '/' ∉ part.toList := by
  obtain ⟨chars, inParts, rfl⟩ := List.mem_map.mp member
  rw [String.toList_ofList]
  exact Text.not_mem_of_mem_splitOn inParts

theorem rawParts_join_of_single {parts : List String} (single : ∀ part ∈ parts, '/' ∉ part.toList)
    (notEmpty : parts ≠ []) : rawParts ⟨Text.join "/" parts⟩ = parts := by
  unfold rawParts
  rw [Text.toList_join, Text.splitOn_eq, List.splitOn_intercalate]
  · simp [Function.comp_def]
  · rintro chars member
    obtain ⟨part, inParts, rfl⟩ := List.mem_map.mp member
    exact single part inParts
  · simpa using notEmpty

/-- The directory above a path is named by the parts before the last one. -/
theorem rawParts_of_parent? {last : String} {before : List String}
    (isLast : p.reversedParts = last :: before) (isAbove : p.parent? = some above) :
    ∀ part ∈ above.rawParts, part = "" ∨ part ∈ before := by
  have kept : ∀ part ∈ (withoutIdle before).reverse, part ∈ before ∧ '/' ∉ part.toList := by
    intro part member
    have inBefore := withoutIdle_subset before (List.mem_reverse.mp member)
    have inReversed : part ∈ p.reversedParts := isLast ▸ List.mem_cons_of_mem last inBefore
    have inParts := List.mem_reverse.mp (withoutIdle_subset _ inReversed)
    exact ⟨inBefore, single_of_mem_rawParts inParts⟩
  intro part member
  unfold parent? at isAbove
  rw [isLast] at isAbove
  obtain rfl := Option.some.inj isAbove
  split_ifs at member with isRoot
  · left
    simpa [rawParts, Text.splitOn] using member
  · by_cases nothing : (withoutIdle before).reverse = []
    · left
      simpa [nothing, rawParts, Text.splitOn, Text.join] using member
    · rw [rawParts_join_of_single (fun part inKept => (kept part inKept).2) nothing] at member
      exact Or.inr (kept part member).1

/-- What goes from a path to the directory above it holds of all directories above. -/
theorem forall_lineageWithin {Holds : Path → Prop}
    (upward : ∀ p above, Holds p → p.parent? = some above → Holds above) (depth : Nat)
    (holds : Holds p) : ∀ q ∈ lineageWithin depth p, Holds q := by
  induction depth generalizing p with
  | zero => simp [lineageWithin]
  | succ depth inductionHypothesis =>
      unfold lineageWithin
      split_ifs with isEmpty
      · simp
      · cases isAbove : p.parent? with
        | none => simpa using holds
        | some above =>
            simp only [List.forall_mem_cons]
            exact ⟨holds, inductionHypothesis (upward p above holds isAbove)⟩

theorem reversedParts_join (isName : IsName name) (p : Path) :
    ∃ before, (p.join name).reversedParts = name :: before ∧ before ⊆ p.rawParts := by
  obtain ⟨before, parts, within⟩ := rawParts_join isName.single p
  refine ⟨before.reverse, ?_, fun part member => within (List.mem_reverse.mp member)⟩
  have notEmpty : name ≠ "" := by
    rintro rfl
    exact absurd isName.notIdle (by decide)
  unfold reversedParts
  rw [parts, List.reverse_concat]
  cases before.reverse <;> simp [withoutIdle, notEmpty, isName.notIdle]

/-- A name that a path lacks is in no directory above the path continued by it. -/
theorem not_mem_lineage_join (isName : IsName name) (lacking : name ∉ p.rawParts) :
    (p.join name).lineage = [] ∨
      ∃ aboves, (p.join name).lineage = p.join name :: aboves ∧ ∀ q ∈ aboves, name ∉ q.rawParts := by
  obtain ⟨before, isLast, within⟩ := reversedParts_join isName p
  have notEmpty : name ≠ "" := by
    rintro rfl
    exact absurd isName.notIdle (by decide)
  unfold lineage lineageWithin
  split_ifs with isEmpty
  · exact Or.inl rfl
  right
  cases isAbove : (p.join name).parent? with
  | none => exact ⟨[], rfl, List.forall_mem_nil _⟩
  | some above =>
      refine ⟨_, rfl, forall_lineageWithin (fun q r lacks isParent inParts => ?_) _ ?_⟩
      · cases reversed : q.reversedParts with
        | nil => simp [parent?, reversed] at isParent
        | cons last others =>
            rcases rawParts_of_parent? reversed isParent name inParts with rfl | inOthers
            · exact notEmpty rfl
            · have inReversed : name ∈ q.reversedParts := reversed ▸ List.mem_cons_of_mem last inOthers
              exact lacks (List.mem_reverse.mp (withoutIdle_subset _ inReversed))
      · intro inParts
        rcases rawParts_of_parent? isLast isAbove name inParts with rfl | inBefore
        · exact notEmpty rfl
        · exact lacking (within inBefore)

end Path

namespace Disk

variable {d after : Disk} {place : Place} {p : Path} {name part : String}

/-! ## Places -/

/-- Names followed from a directory lead to a place of the last one. -/
theorem follow_concat (isName : IsName name) {start : Place} {before : List String}
    (reached : d.follow start (before ++ [name]) = .ok place) :
    ∃ directory, place = directory ++ [name] := by
  induction before generalizing start with
  | nil =>
      simp only [List.nil_append, follow, isName.notIdle, beq_eq_false_iff_ne.mpr isName.notAbove,
        Bool.false_eq_true, if_false, List.isEmpty_nil, if_true] at reached
      split_ifs at reached with tooLong
      exact ⟨start, (Except.ok.inj reached).symm⟩
  | cons first rest inductionHypothesis =>
      rw [List.cons_append, follow] at reached
      split_ifs at reached with tooLong idle above isLast
      · exact inductionHypothesis reached
      · exact inductionHypothesis reached
      · simp at isLast
      · cases entered : d.enter (start ++ [first]) with
        | error e => simp [entered] at reached
        | ok next => exact inductionHypothesis (by simpa [entered] using reached)

theorem resolve_join (isName : IsName name) (meant : d.resolve (p.join name) = .ok place) :
    ∃ directory, place = directory ++ [name] := by
  obtain ⟨before, parts, -⟩ := Path.rawParts_join isName.single p
  unfold resolve at meant
  rw [parts] at meant
  split_ifs at meant
  · exact follow_concat isName meant
  · exact follow_concat isName meant

theorem mem_of_mem_follow {start : Place} {names : List String}
    (reached : d.follow start names = .ok place) (member : part ∈ place) :
    part ∈ start ∨ part ∈ names := by
  induction names generalizing start with
  | nil => exact Or.inl ((Except.ok.inj reached) ▸ member)
  | cons first rest inductionHypothesis =>
      have entering (found : part ∈ start ++ [first] ∨ part ∈ rest) :
          part ∈ start ∨ part ∈ first :: rest := by
        simpa [or_assoc] using found
      rw [follow] at reached
      split_ifs at reached with tooLong idle above isLast
      · exact (inductionHypothesis reached).imp_right (List.mem_cons_of_mem first)
      · exact (inductionHypothesis reached).imp (fun inFront => List.dropLast_subset start inFront)
          (List.mem_cons_of_mem first)
      · exact entering (Or.inl ((Except.ok.inj reached) ▸ member))
      · unfold enter at reached
        cases found : d.node? (start ++ [first]) with
        | none => simp [found] at reached
        | some node =>
            cases node with
            | file content => simp [found] at reached
            | directory =>
                rw [found] at reached
                exact entering (inductionHypothesis reached)

theorem mem_of_mem_resolve (meant : d.resolve p = .ok place) (member : part ∈ place) :
    part ∈ d.working ∨ part ∈ p.rawParts := by
  unfold resolve at meant
  split_ifs at meant
  · rcases mem_of_mem_follow meant member with impossible | inParts
    · cases impossible
    · exact Or.inr inParts
  · exact mem_of_mem_follow meant member

theorem mem_of_mem_resolveNew (meant : d.resolveNew p = .ok place) (member : part ∈ place) :
    part ∈ d.working ∨ part ∈ p.rawParts := by
  refine (mem_of_mem_resolve meant member).imp_right fun inParts => ?_
  split_ifs at inParts with allSlashes
  · exact inParts
  · have isWhole : p.text.toList =
        (p.text.toList.reverse.dropWhile (· == '/')).reverse ++
          (p.text.toList.reverse.takeWhile (· == '/')).reverse := by
      rw [← List.reverse_append, List.takeWhile_append_dropWhile, List.reverse_reverse]
    have slashes : ∀ c ∈ (p.text.toList.reverse.takeWhile (· == '/')).reverse, c = '/' := by
      intro c inEnd
      have isSlash := List.mem_takeWhile_imp (List.mem_reverse.mp inEnd)
      exact beq_iff_eq.mp isSlash
    have kept := Path.rawParts_subset_of_slashes _ slashes inParts
    rwa [← isWhole, String.ofList_toList] at kept

/-! ## Names that are lacking -/

/-- A name that occurs nowhere on a disk. -/
structure Lacks (d : Disk) (name : String) : Prop where
  working : name ∉ d.working
  nodes : ∀ entry ∈ d.nodes, name ∉ entry.1

theorem Lacks.node?_eq_none (lacks : d.Lacks name) (member : name ∈ place) : d.node? place = none := by
  have notRoot : place ≠ [] := List.ne_nil_of_mem member
  rw [node?, if_neg notRoot, List.lookup_eq_none_iff]
  intro entry inNodes
  rw [bne_iff_ne]
  rintro rfl
  exact lacks.nodes entry inNodes member

/-- A path that is continued by a name which the disk lacks leads nowhere. -/
theorem Lacks.kind?_join (lacks : d.Lacks name) (isName : IsName name) (p : Path) :
    d.kind? (p.join name) = none := by
  unfold kind?
  cases meant : d.resolve (p.join name) with
  | error e => rfl
  | ok place =>
      obtain ⟨directory, rfl⟩ := resolve_join isName meant
      have member : name ∈ directory ++ [name] := List.mem_append_right _ (List.mem_singleton_self name)
      simp [lacks.node?_eq_none member]

theorem Lacks.makeDirectory (lacks : d.Lacks name) (lacking : name ∉ p.rawParts)
    (made : d.makeDirectory p = .ok after) : after.Lacks name := by
  unfold Disk.makeDirectory at made
  cases meant : d.resolveNew p with
  | error e => simp [meant] at made
  | ok place =>
      rw [meant] at made
      dsimp only at made
      split at made
      · cases made
      · obtain rfl := Except.ok.inj made
        have notIn : name ∉ place := fun member =>
          (mem_of_mem_resolveNew meant member).elim lacks.working lacking
        refine ⟨lacks.working, ?_⟩
        simp only [put, List.forall_mem_cons]
        exact ⟨notIn, fun entry member => lacks.nodes entry (List.mem_of_mem_filter member)⟩

/-! ## Taking away -/

theorem node?_erase (notRoot : place ≠ []) (other : Place) :
    (d.erase place).node? other = if place.isPrefixOf other then none else d.node? other := by
  have kept (nodes : List (Place × Node)) :
      (nodes.filter fun entry => !place.isPrefixOf entry.1).lookup other =
        if place.isPrefixOf other then none else nodes.lookup other := by
    induction nodes with
    | nil => simp
    | cons entry rest inductionHypothesis =>
        obtain ⟨at', found⟩ := entry
        by_cases same : other = at'
        · subst same
          cases below : place.isPrefixOf other <;> simp [below, inductionHypothesis]
        · have passed : (other == at') = false := by simpa using same
          cases below : place.isPrefixOf at' <;>
            simp [below, inductionHypothesis, List.lookup_cons, passed]
  unfold node?
  by_cases isRoot : other = []
  · subst isRoot
    simp [notRoot]
  · rw [if_neg isRoot, if_neg isRoot]
    exact kept d.nodes

/-- Where a directory of a name was taken away, nothing is left. -/
theorem kind?_of_removeDirectory (isName : IsName name)
    (removed : d.removeDirectory (p.join name) = .ok after) :
    after.kind? (p.join name) = none := by
  unfold removeDirectory at removed
  cases meant : d.resolve (p.join name) with
  | error e => simp [meant] at removed
  | ok place =>
      obtain ⟨directory, rfl⟩ := resolve_join isName meant
      have notRoot : directory ++ [name] ≠ [] := by simp
      obtain rfl : d.erase (directory ++ [name]) = after := by
        rw [meant] at removed
        dsimp only at removed
        split at removed
        · exact Except.ok.inj removed
        · cases removed
        · cases removed
      -- What is left of the disk gives the path no other meaning.
      have stay (q : Place) (isDirectory : (d.erase (directory ++ [name])).node? q = some .directory) :
          d.node? q = some .directory := by
        rw [node?_erase notRoot] at isDirectory
        split_ifs at isDirectory
        exact isDirectory
      unfold kind?
      cases left : (d.erase (directory ++ [name])).resolve (p.join name) with
      | error e => rfl
      | ok other =>
          have same : d.resolve (p.join name) = .ok other := resolve_of_directories stay rfl left
          obtain rfl : directory ++ [name] = other := Except.ok.inj (meant.symm.trans same)
          simp [node?_erase notRoot]

/-- A directory that cannot be taken away was none. -/
theorem kind?_ne_directory_of_removeDirectory {e : DiskError}
    (refused : d.removeDirectory p = .error e) : d.kind? p ≠ some .directory := by
  unfold removeDirectory at refused
  unfold kind?
  cases meant : d.resolve p with
  | error e => simp
  | ok place =>
      rw [meant] at refused
      dsimp only at refused ⊢
      cases found : d.node? place with
      | none => simp
      | some node =>
          cases node with
          | directory => simp [found] at refused
          | file content => simp [Node.kind]

/-! ## Writing -/

/-- A file keeps its content while files of other names are written. -/
theorem read_write_of_ne {other : String} {q : Path} {content kept : ByteArray} (isName : IsName name)
    (isOther : IsName other) (apart : name ≠ other) (isKept : d.read (p.join name) = .ok kept)
    (written : d.write (q.join other) content = .ok after) : after.read (p.join name) = .ok kept := by
  obtain ⟨target, isTarget, notDirectory, rfl⟩ := eq_put_of_write written
  obtain ⟨directory, rfl⟩ := resolve_join isOther isTarget
  unfold read at isKept ⊢
  cases meant : d.resolve (p.join name) with
  | error e => simp [meant] at isKept
  | ok place =>
      -- The places differ as the names that they end in do.
      obtain ⟨otherDirectory, rfl⟩ := resolve_join isName meant
      have elsewhere : otherDirectory ++ [name] ≠ directory ++ [other] := by
        intro same
        exact apart (List.singleton_inj.mp (List.append_inj_right' same rfl))
      rw [meant] at isKept
      rw [(outlasts_put_file notDirectory).resolve meant]
      simp only [node?_put_of_ne elsewhere]
      exact isKept

end Disk

end Montage
