import Montage.Proofs.Graph.Wiring
import Montage.Proofs.Render.Labels

/-!
Contract: the graph of planned clips is wired up and stands in the order in which it can run.

Owns: what each group of chains reads and writes, when the chains of the sound can be made, and the wiring
of `buildGraph`.

Does **not** own: the planning of clips and the result of `compile` (`Montage.Proofs.Render.Compile`).

The chains of the picture make one run, from the black base to the label that the output file reads:
each clip adds two chains to it, each overlay one. The chains of the sound stand apart from it, so that
the two parts are settled on their own and their links are told apart by label only.
-/

set_option autoImplicit false

namespace Montage.Render

open FilterGraph

variable {α : Type} [Scalar α]

/-! ## Chains of single elements -/

theorem videoChain_stages_ne_nil (p : PlannedClip α) (output : PadLabel) :
    (videoChain p output).stages ≠ [] := by
  simp [videoChain]

@[simp] theorem videoChain_inputLabels (p : PlannedClip α) (output : PadLabel) :
    (videoChain p output).inputLabels = [] := rfl

section AudioChain

variable {p : PlannedClip α} {output : PadLabel} {chain : Chain}

/-- The chain of a clip's sound is known from the factors of its tempo. -/
theorem audioChain_eq_some :
    audioChain p output = some chain ↔
      ∃ factors, Tempo.steps? p.clip.speed = some factors ∧
        chain = ⟨[.input p.input .audio], soundStages p.clip factors, [output]⟩ := by
  unfold audioChain
  cases Tempo.steps? p.clip.speed with
  | none => simp
  | some factors => simp [eq_comm]

theorem audioChain_inputs (made : audioChain p output = some chain) :
    chain.inputs = [.input p.input .audio] := by
  obtain ⟨factors, -, rfl⟩ := audioChain_eq_some.mp made
  rfl

theorem audioChain_outputs (made : audioChain p output = some chain) : chain.outputs = [output] := by
  obtain ⟨factors, -, rfl⟩ := audioChain_eq_some.mp made
  rfl

theorem audioChain_inputLabels (made : audioChain p output = some chain) : chain.inputLabels = [] := by
  rw [Chain.inputLabels, audioChain_inputs made]
  rfl

theorem audioChain_stages_ne_nil (made : audioChain p output = some chain) : chain.stages ≠ [] := by
  obtain ⟨factors, -, rfl⟩ := audioChain_eq_some.mp made
  simp [soundStages]

end AudioChain

/-! ## The picture -/

/-- The links that the chains of visual clips write, numbered from `n`. -/
def pictureLinks (n count : Nat) : List Link :=
  (List.range' n count).flatMap fun i => [.clip i, .composition i]

theorem pictureChains_outputs (clips : List (PlannedClip α)) (n : Nat) (below : PadLabel) :
    (pictureChains n below clips).1.flatMap (·.outputs) =
      (pictureLinks n clips.length).map Link.label := by
  induction clips generalizing n below with
  | nil => rfl
  | cons p rest inductionHypothesis =>
      simp only [pictureChains, List.flatMap_cons, inductionHypothesis, pictureLinks,
        List.length_cons, List.range'_succ, List.map_append]
      rfl

/-- A clip's picture and its composition hand the running label on. -/
theorem pictureStep_relays (p : PlannedClip α) (n : Nat) (below : PadLabel) :
    Relays below (compositionLabel n)
      [videoChain p (clipLabel n),
       { inputs := [.label below, .label (clipLabel n)], stages := [compositionStage p.clip],
         outputs := [compositionLabel n] }] where
  staged := by simp [videoChain_stages_ne_nil]
  balanced := by
    show [below, clipLabel n, compositionLabel n].Perm [compositionLabel n, below, clipLabel n]
    exact (List.perm_append_comm : ([below, clipLabel n] ++ [compositionLabel n]).Perm _)
  forward := by
    intro known started
    simp [FeedsForward, Chain.inputLabels, Pad.label?, videoChain, started]

theorem pictureChains_relays (clips : List (PlannedClip α)) (n : Nat) (below : PadLabel) :
    Relays below (pictureChains n below clips).2 (pictureChains n below clips).1 := by
  induction clips generalizing n below with
  | nil => exact Relays.refl below
  | cons p rest inductionHypothesis =>
      exact (pictureStep_relays p n below).trans
        (inductionHypothesis (n + 1) (compositionLabel n))

theorem input_mem_pictureChains (clips : List (PlannedClip α)) (n : Nat) (below : PadLabel)
    (index : Nat) (stream : StreamKind) :
    (∃ chain ∈ (pictureChains n below clips).1, Pad.input index stream ∈ chain.inputs) ↔
      ∃ p ∈ clips, p.input = index ∧ stream = .video := by
  induction clips generalizing n below with
  | nil => simp [pictureChains]
  | cons p rest inductionHypothesis =>
      simp only [pictureChains, List.exists_mem_cons_iff, inductionHypothesis]
      simp [videoChain, eq_comm]

theorem textChains_outputs (overlays : List (Overlay α)) (n : Nat) (below : PadLabel) :
    (textChains n below overlays).1.flatMap (·.outputs) =
      ((List.range' n overlays.length).map Link.text).map Link.label := by
  induction overlays generalizing n below with
  | nil => rfl
  | cons o rest inductionHypothesis =>
      simp only [textChains, List.flatMap_cons, inductionHypothesis, List.length_cons,
        List.range'_succ, List.map_cons]
      rfl

/-- A chain that reads the running label alone and writes one label hands it on. -/
theorem single_relays (below top : PadLabel) (stage : Stage) (stages : List Stage) :
    Relays below top
      [{ inputs := [.label below], stages := stage :: stages, outputs := [top] }] where
  staged := by simp
  balanced := List.Perm.swap top below []
  forward := by
    intro known started
    simp [FeedsForward, Chain.inputLabels, Pad.label?, started]

theorem textChains_relays (overlays : List (Overlay α)) (n : Nat) (below : PadLabel) :
    Relays below (textChains n below overlays).2 (textChains n below overlays).1 := by
  induction overlays generalizing n below with
  | nil => exact Relays.refl below
  | cons o rest inductionHypothesis =>
      exact (single_relays below (textLabel n) (drawingStage o) []).trans
        (inductionHypothesis (n + 1) (textLabel n))

theorem input_not_mem_textChains (overlays : List (Overlay α)) (n : Nat) (below : PadLabel)
    (index : Nat) (stream : StreamKind) :
    ∀ chain ∈ (textChains n below overlays).1, Pad.input index stream ∉ chain.inputs := by
  induction overlays generalizing n below with
  | nil => simp [textChains]
  | cons o rest inductionHypothesis =>
      intro chain member
      rcases List.mem_cons.mp member with rfl | inRest
      · simp
      · exact inductionHypothesis (n + 1) (textLabel n) chain inRest

/-! ## The sound -/

section SoundChains

variable {chains : List Chain}

/-- The chains of sounds are that of the first clip and those of the others. -/
theorem soundChains_cons_eq_some {p : PlannedClip α} {rest : List (PlannedClip α)} {n : Nat} :
    soundChains n (p :: rest) = some chains ↔
      ∃ chain others, audioChain p (soundLabel n) = some chain ∧
        soundChains (n + 1) rest = some others ∧ chains = chain :: others := by
  rw [soundChains]
  cases audioChain p (soundLabel n) with
  | none => simp
  | some chain => cases soundChains (n + 1) rest <;> simp [eq_comm]

variable {clips : List (PlannedClip α)} {n : Nat}

/-- The sounds of clips can be played exactly if the tempo of each of them can be stepped. -/
theorem isSome_soundChains :
    (soundChains n clips).isSome = true ↔ ∀ p ∈ clips, (Tempo.steps? p.clip.speed).isSome = true := by
  induction clips generalizing n with
  | nil => simp [soundChains]
  | cons p rest inductionHypothesis =>
      rw [List.forall_mem_cons, ← inductionHypothesis (n := n + 1), soundChains, audioChain]
      cases Tempo.steps? p.clip.speed with
      | none => simp
      | some factors => cases soundChains (n + 1) rest <;> simp

theorem soundChains_outputs (made : soundChains n clips = some chains) :
    chains.flatMap (·.outputs) = ((List.range' n clips.length).map Link.sound).map Link.label := by
  induction clips generalizing n chains with
  | nil =>
      cases made
      rfl
  | cons p rest inductionHypothesis =>
      obtain ⟨chain, others, first, second, rfl⟩ := soundChains_cons_eq_some.mp made
      simp only [List.flatMap_cons, audioChain_outputs first, inductionHypothesis second,
        List.length_cons, List.range'_succ, List.map_cons]
      rfl

/-- Every chain of a sound is that of a clip. -/
theorem exists_of_mem_soundChains (made : soundChains n clips = some chains) :
    ∀ chain ∈ chains, ∃ p ∈ clips, ∃ l, audioChain p l = some chain := by
  induction clips generalizing n chains with
  | nil =>
      cases made
      exact List.forall_mem_nil _
  | cons p rest inductionHypothesis =>
      obtain ⟨chain, others, first, second, rfl⟩ := soundChains_cons_eq_some.mp made
      refine List.forall_mem_cons.mpr ⟨⟨p, List.mem_cons_self, _, first⟩, fun other member => ?_⟩
      obtain ⟨q, inRest, l, isSound⟩ := inductionHypothesis second other member
      exact ⟨q, List.mem_cons_of_mem _ inRest, l, isSound⟩

theorem soundChains_inputLabels (made : soundChains n clips = some chains) :
    ∀ chain ∈ chains, chain.inputLabels = [] := by
  intro chain member
  obtain ⟨p, -, l, isSound⟩ := exists_of_mem_soundChains made chain member
  exact audioChain_inputLabels isSound

theorem soundChains_staged (made : soundChains n clips = some chains) :
    ∀ chain ∈ chains, chain.stages ≠ [] := by
  intro chain member
  obtain ⟨p, -, l, isSound⟩ := exists_of_mem_soundChains made chain member
  exact audioChain_stages_ne_nil isSound

theorem input_mem_soundChains (made : soundChains n clips = some chains) (index : Nat)
    (stream : StreamKind) :
    (∃ chain ∈ chains, Pad.input index stream ∈ chain.inputs) ↔
      ∃ p ∈ clips, p.input = index ∧ stream = .audio := by
  induction clips generalizing n chains with
  | nil =>
      cases made
      simp
  | cons p rest inductionHypothesis =>
      obtain ⟨chain, others, first, second, rfl⟩ := soundChains_cons_eq_some.mp made
      simp only [List.exists_mem_cons_iff, inductionHypothesis second, audioChain_inputs first]
      simp [eq_comm]

end SoundChains

theorem mixChain_inputLabels (count : Nat) :
    (mixChain count).inputLabels = ((List.range' 0 count).map Link.sound).map Link.label := by
  simp [mixChain, Chain.inputLabels, List.filterMap_map, List.range_eq_range', Pad.label?,
    Function.comp_def, Link.label]

/-- The links that the chains of a number of clips with sound write. -/
def soundLinks (count : Nat) : List Link :=
  if count = 0 then [] else (List.range' 0 count).map Link.sound ++ [.audio]

/-- The label of the sound that the output file reads, if there is any sound. -/
def soundTerminals (sounding : List (PlannedClip α)) : List PadLabel :=
  if sounding.isEmpty then [] else [audioLabel]

section Sound

variable {sounding : List (PlannedClip α)} {chains : List Chain}

/-- The chains that mix the sounds of a number of clips: one, if there is any sound. -/
def mixChains (count : Nat) : List Chain := if count = 0 then [] else [mixChain count]

/-- All sound is that of the clips and its mix. -/
theorem audioChains_eq_some :
    audioChains sounding = some chains ↔
      ∃ sounds, soundChains 0 sounding = some sounds ∧ chains = sounds ++ mixChains sounding.length := by
  unfold audioChains
  cases sounding with
  | nil => simp [soundChains, mixChains, eq_comm]
  | cons p rest => cases soundChains 0 (p :: rest) <;> simp [mixChains, eq_comm]

theorem isSome_audioChains :
    (audioChains sounding).isSome = true ↔
      ∀ p ∈ sounding, (Tempo.steps? p.clip.speed).isSome = true := by
  rw [← isSome_soundChains (n := 0), Option.isSome_iff_exists, Option.isSome_iff_exists]
  simp [audioChains_eq_some]

theorem audioChains_outputs (made : audioChains sounding = some chains) :
    chains.flatMap (·.outputs) = (soundLinks sounding.length).map Link.label := by
  obtain ⟨sounds, isSounds, rfl⟩ := audioChains_eq_some.mp made
  rw [List.flatMap_append, soundChains_outputs isSounds]
  cases sounding with
  | nil => rfl
  | cons p rest => simp [mixChains, soundLinks, mixChain, Link.label]

theorem audioChains_balanced (made : audioChains sounding = some chains) :
    (soundTerminals sounding ++ chains.flatMap Chain.inputLabels).Perm
      (chains.flatMap (·.outputs)) := by
  obtain ⟨sounds, isSounds, rfl⟩ := audioChains_eq_some.mp made
  have unread : sounds.flatMap Chain.inputLabels = [] :=
    List.flatMap_eq_nil_iff.mpr (soundChains_inputLabels isSounds)
  cases sounding with
  | nil =>
      cases isSounds
      exact List.Perm.refl _
  | cons p rest =>
      simp only [soundTerminals, mixChains, List.isEmpty_cons, Bool.false_eq_true, if_false,
        List.length_cons, Nat.add_one_ne_zero, List.flatMap_append, unread, List.nil_append,
        List.flatMap_singleton, soundChains_outputs isSounds, mixChain_inputLabels]
      exact List.perm_append_comm

theorem audioChains_staged (made : audioChains sounding = some chains) :
    ∀ chain ∈ chains, chain.stages ≠ [] := by
  obtain ⟨sounds, isSounds, rfl⟩ := audioChains_eq_some.mp made
  refine List.forall_mem_append.mpr ⟨soundChains_staged isSounds, ?_⟩
  unfold mixChains
  split <;> simp [mixChain]

/-- Sound needs nothing from the picture. -/
theorem audioChains_feedsForward (made : audioChains sounding = some chains) (known : List PadLabel) :
    FeedsForward known chains := by
  have independent : ∀ (chains : List Chain) (known : List PadLabel),
      (∀ chain ∈ chains, chain.inputLabels = []) → FeedsForward known chains := by
    intro chains
    induction chains with
    | nil => exact fun _ _ => trivial
    | cons chain rest inductionHypothesis =>
        intro known unread
        refine ⟨by simp [unread chain (by simp)], ?_⟩
        exact inductionHypothesis _ fun other member => unread other (by simp [member])
  obtain ⟨sounds, isSounds, rfl⟩ := audioChains_eq_some.mp made
  rw [feedsForward_append]
  refine ⟨independent _ known (soundChains_inputLabels isSounds), ?_⟩
  unfold mixChains
  split
  · trivial
  · refine ⟨fun l read => ?_, trivial⟩
    rw [mixChain_inputLabels, ← soundChains_outputs isSounds] at read
    exact List.mem_append_right known read

theorem input_mem_audioChains (made : audioChains sounding = some chains) (index : Nat)
    (stream : StreamKind) :
    (∃ chain ∈ chains, Pad.input index stream ∈ chain.inputs) ↔
      ∃ p ∈ sounding, p.input = index ∧ stream = .audio := by
  obtain ⟨sounds, isSounds, rfl⟩ := audioChains_eq_some.mp made
  have unmixed : ¬ ∃ chain ∈ mixChains sounding.length, Pad.input index stream ∈ chain.inputs := by
    unfold mixChains
    split <;> simp [mixChain]
  rw [← input_mem_soundChains isSounds]
  simp only [List.mem_append, or_and_right, exists_or, unmixed, or_false]

end Sound

/-! ## The whole graph -/

/-- The links of a graph with numbers of visual clips, overlays and clips with sound. -/
def graphLinks (pictures texts sounds : Nat) : List Link :=
  .base :: pictureLinks 0 pictures ++ (List.range' 0 texts).map Link.text ++ [.video]
    ++ soundLinks sounds

theorem pictureLinks_nodup (n count : Nat) : (pictureLinks n count).Nodup := by
  unfold pictureLinks
  rw [List.nodup_flatMap]
  refine ⟨fun i _ => by simp, ?_⟩
  have numbers : (List.range' n count).Nodup := List.nodup_range'
  refine numbers.imp ?_
  intro i j different link first second
  simp only [List.mem_cons, List.not_mem_nil, or_false] at first second
  rcases first with rfl | rfl <;> simp_all

theorem soundLinks_nodup (count : Nat) : (soundLinks count).Nodup := by
  unfold soundLinks
  by_cases silent : count = 0
  · simp [silent]
  · have sounds : ((List.range' 0 count).map Link.sound).Nodup :=
      (List.nodup_range').map fun _ _ same => Link.sound.inj same
    simp [silent, List.nodup_append, sounds]

theorem mem_pictureLinks {link : Link} {n count : Nat} (member : link ∈ pictureLinks n count) :
    ∃ i, link = .clip i ∨ link = .composition i := by
  simp only [pictureLinks, List.mem_flatMap, List.mem_cons, List.not_mem_nil, or_false] at member
  obtain ⟨i, -, found⟩ := member
  exact ⟨i, found⟩

theorem mem_soundLinks {link : Link} {count : Nat} (member : link ∈ soundLinks count) :
    (∃ i, link = .sound i) ∨ link = .audio := by
  unfold soundLinks at member
  split at member
  · cases member
  · simp only [List.mem_append, List.mem_map, List.mem_singleton] at member
    obtain ⟨i, -, rfl⟩ | rfl := member
    · exact Or.inl ⟨i, rfl⟩
    · exact Or.inr rfl

/-- No link is written twice: within a family the numbers differ, and the families are apart. -/
theorem graphLinks_nodup (pictures texts sounds : Nat) :
    (graphLinks pictures texts sounds).Nodup := by
  have textLinks : ((List.range' 0 texts).map Link.text).Nodup :=
    (List.nodup_range').map fun _ _ same => Link.text.inj same
  simp only [graphLinks, List.cons_append, List.nodup_cons, List.nodup_append, pictureLinks_nodup,
    textLinks, soundLinks_nodup, List.mem_append, List.mem_map, List.mem_singleton]
  have ofPicture (link : Link) := @mem_pictureLinks link 0 pictures
  have ofSound (link : Link) := @mem_soundLinks link sounds
  grind

section Graph

variable {t : Timeline α} {total : α} {planned : List (PlannedClip α)} {g : FilterGraph}

/-- The clips that are seen, in the order of the plan. -/
def visualClips (planned : List (PlannedClip α)) : List (PlannedClip α) :=
  planned.filter fun p => p.clip.kind.isVisual

/-- The clips that are heard, in the order of the plan. -/
def soundingClips (planned : List (PlannedClip α)) : List (PlannedClip α) :=
  planned.filter fun p => carriesAudio p.clip p.asset

/-- The chains of the picture over the black base. -/
def pictureRun (t : Timeline α) (planned : List (PlannedClip α)) : List Chain :=
  let pictures := pictureChains 0 baseLabel (visualClips planned)
  let texts := textChains 0 pictures.2 (orderedOverlays t)
  pictures.1 ++ texts.1 ++ [videoOutputChain texts.2]

/-- A graph is its picture over the black base, and its sound. -/
theorem buildGraph_eq_some :
    buildGraph t total planned = some g ↔
      ∃ sound, audioChains (soundingClips planned) = some sound ∧
        g = ⟨baseChain t total :: (pictureRun t planned ++ sound)⟩ := by
  unfold buildGraph soundingClips
  cases audioChains (planned.filter fun p => carriesAudio p.clip p.asset) with
  | none => simp
  | some sound => simp [pictureRun, visualClips, eq_comm]

/-- A graph is built exactly if the tempo of every clip with sound can be stepped. -/
theorem isSome_buildGraph :
    (buildGraph t total planned).isSome = true ↔
      ∀ p ∈ soundingClips planned, (Tempo.steps? p.clip.speed).isSome = true := by
  rw [← isSome_audioChains, Option.isSome_iff_exists, Option.isSome_iff_exists]
  simp [buildGraph_eq_some]

theorem pictureRun_relays (t : Timeline α) (planned : List (PlannedClip α)) :
    Relays baseLabel videoLabel (pictureRun t planned) :=
  ((pictureChains_relays _ 0 baseLabel).trans (textChains_relays _ 0 _)).trans
    (single_relays _ videoLabel _ _)

theorem input_mem_pictureRun (index : Nat) (stream : StreamKind) :
    (∃ chain ∈ pictureRun t planned, Pad.input index stream ∈ chain.inputs) ↔
      ∃ p ∈ visualClips planned, p.input = index ∧ stream = .video := by
  rw [← input_mem_pictureChains (visualClips planned) 0 baseLabel]
  simp only [pictureRun, List.mem_append, or_and_right, exists_or, List.mem_singleton,
    exists_eq_left]
  simp only [videoOutputChain, List.mem_singleton, reduceCtorEq, or_false, or_iff_left_iff_imp]
  rintro ⟨chain, member, read⟩
  exact absurd read (input_not_mem_textChains _ _ _ index stream chain member)

theorem buildGraph_produced (built : buildGraph t total planned = some g) :
    g.produced =
      (graphLinks (visualClips planned).length (orderedOverlays t).length
        (soundingClips planned).length).map Link.label := by
  obtain ⟨sound, isSound, rfl⟩ := buildGraph_eq_some.mp built
  simp [produced, pictureRun, pictureChains_outputs, textChains_outputs, audioChains_outputs isSound,
    graphLinks, baseChain, videoOutputChain, Link.label]

/-- What the graph and the output file read is what the graph writes. -/
theorem buildGraph_balanced (built : buildGraph t total planned = some g) :
    (g.consumed (videoLabel :: soundTerminals (soundingClips planned))).Perm g.produced := by
  obtain ⟨sound, isSound, rfl⟩ := buildGraph_eq_some.mp built
  have picture := (pictureRun_relays t planned).balanced
  have balanced := audioChains_balanced isSound
  have together := (picture.symm.append balanced)
  refine List.Perm.trans ?_ (together.trans (List.Perm.of_eq ?_))
  · rw [List.perm_iff_count]
    intro l
    simp only [consumed, baseChain, Chain.inputLabels, List.flatMap_cons,
      List.flatMap_append, List.filterMap_nil, List.nil_append, List.cons_append,
      List.count_cons, List.count_append]
    omega
  · simp [produced, baseChain]

theorem buildGraph_staged (built : buildGraph t total planned = some g) :
    ∀ chain ∈ g.chains, chain.stages ≠ [] := by
  obtain ⟨sound, isSound, rfl⟩ := buildGraph_eq_some.mp built
  intro chain member
  rcases List.mem_cons.mp member with rfl | member
  · simp [baseChain]
  · rcases List.mem_append.mp member with ofPicture | ofSound
    · exact (pictureRun_relays t planned).staged chain ofPicture
    · exact audioChains_staged isSound chain ofSound

/-- Every planned clip is read as a picture, as sound, or as both, and nothing else is read. -/
theorem mem_inputIndices_buildGraph (built : buildGraph t total planned = some g) (index : Nat) :
    index ∈ g.inputIndices ↔ ∃ p ∈ planned, p.input = index := by
  have split : ∀ stream, (∃ chain ∈ g.chains, Pad.input index stream ∈ chain.inputs) ↔
        (∃ p ∈ visualClips planned, p.input = index ∧ stream = .video) ∨
          ∃ p ∈ soundingClips planned, p.input = index ∧ stream = .audio := by
    intro stream
    obtain ⟨sound, isSound, rfl⟩ := buildGraph_eq_some.mp built
    rw [← input_mem_pictureRun (t := t), ← input_mem_audioChains isSound]
    simp [baseChain, or_and_right, exists_or]
  rw [mem_inputIndices]
  constructor
  · rintro ⟨chain, inGraph, stream, read⟩
    rcases (split stream).mp ⟨chain, inGraph, read⟩ with ⟨p, member, same, -⟩ | ⟨p, member, same, -⟩
    · exact ⟨p, List.mem_of_mem_filter member, same⟩
    · exact ⟨p, List.mem_of_mem_filter member, same⟩
  · rintro ⟨p, member, same⟩
    cases kind : p.clip.kind with
    | audio =>
        have heard : p ∈ soundingClips planned :=
          List.mem_filter.mpr ⟨member, by simp [carriesAudio, kind]⟩
        obtain ⟨chain, inGraph, read⟩ := (split .audio).mpr (Or.inr ⟨p, heard, same, rfl⟩)
        exact ⟨chain, inGraph, .audio, read⟩
    | video | image =>
        have seen : p ∈ visualClips planned :=
          List.mem_filter.mpr ⟨member, by simp [MediaKind.isVisual, kind]⟩
        obtain ⟨chain, inGraph, read⟩ := (split .video).mpr (Or.inl ⟨p, seen, same, rfl⟩)
        exact ⟨chain, inGraph, .video, read⟩

theorem buildGraph_isWired (built : buildGraph t total planned = some g) (inputCount : Nat)
    (numbered : ∀ p ∈ planned, p.input < inputCount) :
    g.IsWired inputCount (videoLabel :: soundTerminals (soundingClips planned)) := by
  refine IsWired.ofPerm (buildGraph_staged built) ?_ ?_ (buildGraph_balanced built)
  · rw [buildGraph_produced built]
    exact (graphLinks_nodup _ _ _).map Link.label_injective
  · intro index read
    obtain ⟨p, member, rfl⟩ := (mem_inputIndices_buildGraph built index).mp read
    exact numbered p member

theorem buildGraph_isOrdered (built : buildGraph t total planned = some g) : g.IsOrdered := by
  obtain ⟨sound, isSound, rfl⟩ := buildGraph_eq_some.mp built
  apply FeedsForward.isOrdered
  refine ⟨by simp [baseChain, Chain.inputLabels], ?_⟩
  rw [feedsForward_append]
  exact ⟨(pictureRun_relays t planned).forward _ (by simp [baseChain]),
    audioChains_feedsForward isSound _⟩

end Graph

end Montage.Render
