import Montage.Engine.Staging
import Montage.Proofs.Disk.Names
import Montage.Proofs.Machine
import Montage.Proofs.Render.Labels
import Montage.Proofs.Render.Order
import Montage.Proofs.Text.Hex

/-!
Contract: where the inputs of a job lie once they are staged.

Owns:
- the names under which a compilation has its inputs staged, of which no two are the same;
- the steps of the staging on a machine;
- that a later input leaves the earlier ones as they are, so that in the end all of them can be read
  (`IsStaged`).

Does **not** own: what becomes of the directory (`Montage.Proofs.Engine.Clearing`).

A file of a name overwrites a file of the same name only. The directory does not matter for this: places
that end in different names are different, wherever they are.
-/

set_option autoImplicit false

namespace Montage

/-! ## Names -/

/-- A text that begins with something other than a point, and has no slash, is a name. -/
theorem isName_append {front back : String} {first : Char} {rest : List Char}
    (begins : front.toList = first :: rest) (notPoint : first ≠ '.') (single : '/' ∉ front.toList)
    (alsoSingle : '/' ∉ back.toList) : IsName (front ++ back) := by
  have chars : (front ++ back).toList = first :: (rest ++ back.toList) := by
    rw [String.toList_append, begins, List.cons_append]
  have differs {other : String} (short : other.toList.head? ≠ some first) : front ++ back ≠ other := by
    rintro rfl
    rw [chars] at short
    exact short rfl
  refine ⟨?_, ?_, differs (by simpa using notPoint.symm)⟩
  · rw [String.toList_append, List.mem_append]
    exact not_or.mpr ⟨single, alsoSingle⟩
  · have notEmpty : front ++ back ≠ "" := differs (by simp)
    have noPoint : front ++ back ≠ "." := differs (by simpa using notPoint.symm)
    simp [Path.isIdle, notEmpty, noPoint]

namespace Render

/-- The name under which the input of a number is staged. -/
def stagedName (index : Nat) (extension : String) : String :=
  "input" ++ toString index ++ "." ++ extension

theorem toList_stagedName (index : Nat) (extension : String) :
    (stagedName index extension).toList =
      "input".toList ++ (Nat.toDigits 10 index ++ '.' :: extension.toList) := by
  simp [stagedName]

/-- The number is read off a name. -/
theorem index_eq_of_stagedName {index other : Nat} {extension otherExtension : String}
    (same : stagedName index extension = stagedName other otherExtension) : index = other := by
  have chars := congrArg String.toList same
  rw [toList_stagedName, toList_stagedName, List.append_right_inj] at chars
  have digits (n : Nat) (rest : List Char) :
      (Nat.toDigits 10 n ++ '.' :: rest).takeWhile Char.isDigit = Nat.toDigits 10 n := by
    rw [List.takeWhile_append_of_pos, List.takeWhile_cons_of_neg, List.append_nil]
    · decide
    · exact fun c member => Nat.isDigit_of_mem_toDigits (by decide) (by decide) member
  have sameDigits := congrArg (List.takeWhile Char.isDigit) chars
  rw [digits, digits] at sameDigits
  have sameLink : Link.digits (some index) = Link.digits (some other) := sameDigits
  exact Option.some.inj (Link.digits_injective sameLink)

theorem isName_stagedName {mime extension : String} (known : Media.extensionFor mime = some extension)
    (index : Nat) : IsName (stagedName index extension) := by
  have plain : ∀ entry ∈ Media.formats, '/' ∉ entry.2.toList := by decide
  unfold Media.extensionFor at known
  obtain ⟨entry, found, rfl⟩ := Option.map_eq_some_iff.mp known
  have single := plain entry (List.mem_of_find?_eq_some found)
  have joined : stagedName index entry.2 = "input" ++ (toString index ++ "." ++ entry.2) := by
    simp [stagedName, String.append_assoc]
  rw [joined]
  have begins : "input".toList = 'i' :: "nput".toList := rfl
  refine isName_append begins (by decide) (by decide) ?_
  have notDigit : '/' ∉ Nat.toDigits 10 index := by
    intro member
    exact absurd (Nat.isDigit_of_mem_toDigits (by decide) (by decide) member) (by decide)
  simp [notDigit, single]

/-- Inputs that are staged under names, no two of them under the same one. -/
structure AreApart {α : Type} (inputs : List (Input α)) : Prop where
  names : ∀ input ∈ inputs, IsName input.localName
  distinct : (inputs.map (·.localName)).Nodup

/-- A compilation keeps its inputs apart. -/
theorem areApart_of_compile {α : Type} [Scalar α] {t : Timeline α} {assets : Store} {options : Options}
    {job : Job α} (compiled : compile t assets options = some (.ok job)) : AreApart job.inputs := by
  obtain ⟨-, -, plans, graph, planned, -, -, rfl⟩ := compile_eq_ok_iff.mp compiled
  have each := isOf_of_planClips _ planned
  have numbers := (planClips_eq_ok _ planned).2
  constructor
  · intro input member
    obtain ⟨plan, inPlans, rfl⟩ := List.mem_map.mp member
    obtain ⟨extension, known, isLocal⟩ := (each plan inPlans).2.localName
    rw [isLocal]
    exact isName_stagedName known _
  · have distinct : (plans.map (·.2.input)).Nodup := numbers ▸ List.nodup_range'
    show ((plans.map (·.1)).map (·.localName)).Nodup
    rw [List.map_map, List.Nodup, List.pairwise_map]
    rw [List.Nodup, List.pairwise_map] at distinct
    refine distinct.imp_of_mem fun inPlans alsoInPlans apart same => apart ?_
    obtain ⟨extension, -, isLocal⟩ := (each _ inPlans).2.localName
    obtain ⟨otherExtension, -, isOther⟩ := (each _ alsoInPlans).2.localName
    have sameName : stagedName _ extension = stagedName _ otherExtension :=
      isLocal.symm.trans (same.trans isOther)
    exact index_eq_of_stagedName sameName

end Render

namespace Engine

open Render (AreApart Input)

variable {α : Type} {input : Input α} {staged next : Staged} {machine between after : Machine}
  {directory : Path} {content : ByteArray}

theorem isName_stagingName (id : Identity) : IsName (stagingName id) := by
  have digit : ∀ c ∈ id.digits, c ≠ '/' := by
    intro c member
    obtain ⟨place, -, rfl⟩ := List.mem_map.mp member
    exact Text.Hex.digit_ne (by decide) _
  have single : '/' ∉ id.text.toList := by
    intro member
    have notDigit (part : List Char) (within : part ⊆ id.digits) : '/' ∉ part := fun inPart =>
      digit _ (within inPart) rfl
    have taken (n m : Nat) : '/' ∉ (id.digits.drop n).take m :=
      notDigit _ (List.Subset.trans (List.take_subset _ _) (List.drop_subset _ _))
    simp [Identity.text, Identity.hyphenated, taken, notDigit _ (List.take_subset _ _),
      notDigit _ (List.drop_subset _ _)] at member
  have begins : "clipforge-render-".toList = 'c' :: "lipforge-render-".toList := rfl
  exact isName_append begins (by decide) (by decide) single

/-! ## Steps -/

theorem on_stagingDirectory_of_some (isKnown : staged.directory = some directory) :
    machine.on (stagingDirectory staged) = (.ok directory, machine) := by
  unfold stagingDirectory
  rw [isKnown]
  rfl

theorem on_stageInput_file {own : String} (isFile : input.source = .file own) :
    machine.on (stageInput staged input) =
      ((none, { staged with paths := staged.paths ++ [⟨own⟩] }), machine) := by
  unfold stageInput
  rw [isFile]
  rfl

theorem on_stageInput_of_error {e : DiskError} (isBytes : input.source = .bytes content)
    (refused : machine.on (stagingDirectory staged) = (.error e, between)) :
    machine.on (stageInput staged input) = ((some e, staged), between) := by
  unfold stageInput
  rw [isBytes]
  exact Machine.on_bind refused

theorem on_stageInput_of_ok (isBytes : input.source = .bytes content)
    (given : machine.on (stagingDirectory staged) = (.ok directory, between)) :
    machine.on (stageInput staged input) =
      match between.disk.write (directory.join input.localName) content with
      | .error e => ((some e, { staged with directory := some directory }), between)
      | .ok disk =>
        ((none,
          { directory := some directory
            paths := staged.paths ++ [directory.join input.localName] }),
         { between with disk }) := by
  unfold stageInput
  rw [isBytes]
  refine (Machine.on_bind given).trans ?_
  dsimp only
  have wrote : between.on (Host.writeFile (directory.join input.localName) content) =
      between.change (between.disk.write (directory.join input.localName) content) := rfl
  cases written : between.disk.write (directory.join input.localName) content with
  | error e =>
      rw [written] at wrote
      exact Machine.on_bind wrote
  | ok disk =>
      rw [written] at wrote
      exact Machine.on_bind wrote

theorem on_stageInputs_cons (rest : List (Input α)) :
    machine.on (stageInputs staged (input :: rest)) =
      match machine.on (stageInput staged input) with
      | ((none, next), between) => between.on (stageInputs next rest)
      | ((some e, next), between) => ((some e, next), between) := by
  rw [stageInputs]
  rcases step : machine.on (stageInput staged input) with ⟨⟨_ | e, next⟩, between⟩
  · exact Machine.on_bind step
  · exact Machine.on_bind step

/-- A step that succeeds takes a file as it lies, or writes bytes into the directory. -/
theorem stageInput_eq_none
    (isStaged : machine.on (stageInput staged input) = ((none, next), after)) :
    (∃ own, input.source = .file own ∧ next = { staged with paths := staged.paths ++ [⟨own⟩] } ∧
        after = machine) ∨
      ∃ content directory between, input.source = .bytes content ∧
        machine.on (stagingDirectory staged) = (.ok directory, between) ∧
        between.disk.write (directory.join input.localName) content = .ok after.disk ∧
        next = { directory := some directory
                 paths := staged.paths ++ [directory.join input.localName] } := by
  cases source : input.source with
  | file own =>
      rw [on_stageInput_file source] at isStaged
      cases isStaged
      exact Or.inl ⟨own, rfl, rfl, rfl⟩
  | bytes content =>
      right
      rcases given : machine.on (stagingDirectory staged) with ⟨e | directory, between⟩
      · rw [on_stageInput_of_error source given] at isStaged
        cases isStaged
      · rw [on_stageInput_of_ok source given] at isStaged
        cases written : between.disk.write (directory.join input.localName) content with
        | error e => simp [written] at isStaged
        | ok disk =>
            simp only [written] at isStaged
            cases isStaged
            exact ⟨content, directory, between, rfl, rfl, written, rfl⟩

/-- A staging that succeeds has a path for every input. -/
theorem length_of_stageInputs {inputs : List (Input α)}
    (isStaged : machine.on (stageInputs staged inputs) = ((none, next), after)) :
    next.paths.length = staged.paths.length + inputs.length := by
  induction inputs generalizing staged machine with
  | nil =>
      cases isStaged
      rfl
  | cons input rest inductionHypothesis =>
      rw [on_stageInputs_cons] at isStaged
      rcases step : machine.on (stageInput staged input) with ⟨⟨_ | e, further⟩, between⟩
      · rw [step] at isStaged
        rw [inductionHypothesis isStaged, List.length_cons]
        rcases stageInput_eq_none step with ⟨own, -, rfl, -⟩ | ⟨content, directory, last, -, -, -, rfl⟩
        · simp [Nat.add_assoc, Nat.add_comm]
        · simp [Nat.add_assoc, Nat.add_comm]
      · rw [step] at isStaged
        cases isStaged

/-! ## Readiness -/

/-- An input can be read at a path: a file where it lies itself, and bytes under their name in the
directory. -/
inductive IsReady (disk : Disk) (directory? : Option Path) (input : Input α) : Path → Prop
  | file {own : String} (source : input.source = .file own) : IsReady disk directory? input ⟨own⟩
  | bytes {content : ByteArray} {directory : Path} (source : input.source = .bytes content)
      (isKnown : directory? = some directory)
      (isKept : disk.read (directory.join input.localName) = .ok content) :
      IsReady disk directory? input (directory.join input.localName)

section Ready

variable {disk other : Disk} {directory? : Option Path} {path : Path}

/-- Without a directory only files are ready, and these on every disk. -/
theorem IsReady.of_none (isReady : IsReady disk none input path) :
    IsReady other directory? input path := by
  cases isReady with
  | file source => exact .file source
  | bytes source isKnown isKept => cases isKnown

/-- Bytes are ready under their name in the directory. -/
theorem IsReady.path_eq (isReady : IsReady disk directory? input path)
    (isBytes : input.source = .bytes content) :
    ∃ directory, directory? = some directory ∧ path = directory.join input.localName := by
  cases isReady with
  | file isFile => simp [isFile] at isBytes
  | bytes source isKnown isKept => exact ⟨_, isKnown, rfl⟩

/-- What is ready stays so when another input is written. -/
theorem IsReady.of_write {later : Input α} (isReady : IsReady disk directory? input path)
    (isName : IsName input.localName) (isLaterName : IsName later.localName)
    (apart : input.localName ≠ later.localName)
    (written : disk.write (directory.join later.localName) content = .ok other) :
    IsReady other directory? input path := by
  cases isReady with
  | file source => exact .file source
  | bytes source isKnown isKept =>
      exact .bytes source isKnown (Disk.read_write_of_ne isName isLaterName apart isKept written)

end Ready

/-- A step keeps what is ready and adds its input to it. -/
theorem ready_of_stageInput {done : List (Input α)} (isName : IsName input.localName)
    (names : ∀ earlier ∈ done, IsName earlier.localName ∧ earlier.localName ≠ input.localName)
    (ready : List.Forall₂ (IsReady machine.disk staged.directory) done staged.paths)
    (isStaged : machine.on (stageInput staged input) = ((none, next), after)) :
    List.Forall₂ (IsReady after.disk next.directory) (done ++ [input]) next.paths := by
  rcases stageInput_eq_none isStaged with ⟨own, source, rfl, rfl⟩ |
    ⟨content, directory, between, source, given, written, rfl⟩
  · exact List.rel_append ready (.cons (.file source) .nil)
  · have itself : IsReady after.disk (some directory) input (directory.join input.localName) :=
      .bytes source rfl (Disk.read_of_write written)
    refine List.rel_append ?_ (.cons itself .nil)
    cases isKnown : staged.directory with
    | none =>
        rw [isKnown] at ready
        exact ready.imp fun earlier path isReady => isReady.of_none
    | some known =>
        rw [on_stagingDirectory_of_some isKnown] at given
        obtain ⟨rfl, rfl⟩ : known = directory ∧ machine = between := by simpa using given
        rw [isKnown] at ready
        refine List.forall₂_iff_zip.mpr ⟨ready.length_eq, fun {earlier path} member => ?_⟩
        obtain ⟨isEarlierName, apart⟩ := names earlier (List.of_mem_zip member).1
        exact (List.forall₂_zip ready member).of_write isEarlierName isName apart written

/-- A staging that succeeds makes all of its inputs ready. -/
theorem ready_of_stageInputs {done rest : List (Input α)} (apart : AreApart (done ++ rest))
    (ready : List.Forall₂ (IsReady machine.disk staged.directory) done staged.paths)
    (isStaged : machine.on (stageInputs staged rest) = ((none, next), after)) :
    List.Forall₂ (IsReady after.disk next.directory) (done ++ rest) next.paths := by
  induction rest generalizing done staged machine with
  | nil =>
      cases isStaged
      rwa [List.append_nil]
  | cons input rest inductionHypothesis =>
      rw [on_stageInputs_cons] at isStaged
      rcases step : machine.on (stageInput staged input) with ⟨⟨_ | e, further⟩, between⟩
      · rw [step] at isStaged
        rw [List.append_cons] at apart ⊢
        refine inductionHypothesis apart (ready_of_stageInput ?_ ?_ ready step) isStaged
        · exact apart.names input (by simp)
        · intro earlier member
          refine ⟨apart.names earlier (by simp [member]), ?_⟩
          have distinct := apart.distinct
          rw [List.map_append, List.map_append, List.nodup_append, List.nodup_append] at distinct
          exact distinct.1.2.2 _ (List.mem_map_of_mem member) _ (by simp)
      · rw [step] at isStaged
        cases isStaged

/-! ## The outcome -/

def IsInMemory (input : Input α) : Prop := ∃ content, input.source = .bytes content

/-- Inputs that can all be read at their paths: a file where it lies itself, and bytes at a path of their
own. -/
structure IsStaged (disk : Disk) (inputs : List (Input α)) (paths : List Path) : Prop where
  readable :
    List.Forall₂ (fun input path =>
      match input.source with
      | .file own => path = ⟨own⟩
      | .bytes content => disk.read path = .ok content) inputs paths
  apart :
    (inputs.zip paths).Pairwise fun first second =>
      IsInMemory first.1 → IsInMemory second.1 → first.2 ≠ second.2

/-- Inputs under different names are at different paths. -/
theorem isStaged_of_ready {inputs : List (Input α)} {paths : List Path} {disk : Disk}
    {directory? : Option Path} (apart : AreApart inputs)
    (ready : List.Forall₂ (IsReady disk directory? ) inputs paths) : IsStaged disk inputs paths := by
  constructor
  · refine ready.imp fun input path isReady => ?_
    cases isReady with
    | file source => simp [source]
    | bytes source isKnown isKept => simp [source, isKept]
  · have distinct : (inputs.zip paths).Pairwise fun first second =>
        first.1.localName ≠ second.1.localName := by
      have names := apart.distinct
      rw [← List.map_fst_zip ready.length_eq.le, List.map_map, List.Nodup, List.pairwise_map] at names
      exact names
    refine distinct.imp_of_mem ?_
    rintro ⟨first, path⟩ ⟨second, otherPath⟩ member otherMember named ⟨content, source⟩
      ⟨otherContent, otherSource⟩ same
    dsimp only at source otherSource same named
    obtain ⟨directory, isKnown, isPath⟩ := (List.forall₂_zip ready member).path_eq source
    obtain ⟨_, alsoKnown, isOtherPath⟩ := (List.forall₂_zip ready otherMember).path_eq otherSource
    obtain rfl := Option.some.inj (isKnown.symm.trans alsoKnown)
    have isName := apart.names first (List.of_mem_zip member).1
    have isOtherName := apart.names second (List.of_mem_zip otherMember).1
    exact named (Path.join_injective isName.single isOtherName.single
      (isPath.symm.trans (same.trans isOtherPath)))

/-- A staging that succeeds from nothing has all of its inputs staged. -/
theorem isStaged_of_stageInputs {inputs : List (Input α)} (apart : AreApart inputs)
    (isStaged : machine.on (stageInputs .nothing inputs) = ((none, staged), after)) :
    IsStaged after.disk inputs staged.paths := by
  have allApart : AreApart ([] ++ inputs) := apart
  exact isStaged_of_ready apart (ready_of_stageInputs allApart .nil isStaged)

end Engine

end Montage
