import Montage.Proofs.Graph.Trail
import Montage.Proofs.Render.Wiring

/-!
Contract: the chains of a compiled graph by the numbers of their elements.

Owns:
- the labels that the chains of the picture take over from each other (`underClip`, `underText`);
- which chains a graph has, element by element, and what follows for anything that chains have;
- the streams that a graph reads, and its stages that compose pictures and draw texts.

Does **not** own: the jobs in which such a graph stands (`Montage.Proofs.Render.Composition`).

Inputs are numbered through all clips, but pictures and sounds each on their own. A chain is therefore
known from two numbers, that of its element among those of its kind, which is in its label, and that of
its input.
-/

set_option autoImplicit false

namespace Montage.Render

open FilterGraph

variable {α : Type}

/-! ## Chains by number -/

/-- What the picture of the `n`-th visual clip is laid over. -/
def underClip : Nat → PadLabel
  | 0 => baseLabel
  | n + 1 => compositionLabel n

/-- What the `n`-th text is drawn over, above a number of visual clips. -/
def underText (pictures : Nat) : Nat → PadLabel
  | 0 => underClip pictures
  | n + 1 => textLabel n

variable [Scalar α]

/-- The chain that lays the picture of the `n`-th visual clip over what is below it. -/
def compositionChain (n : Nat) (p : PlannedClip α) : Chain :=
  { inputs := [.label (underClip n), .label (clipLabel n)]
    stages := [compositionStage p.clip]
    outputs := [compositionLabel n] }

/-- The chain that draws the `n`-th text above a number of visual clips. -/
def drawingChain (pictures n : Nat) (o : Overlay α) : Chain :=
  { inputs := [.label (underText pictures n)]
    stages := [drawingStage o]
    outputs := [textLabel n] }

theorem pictureChains_eq (clips : List (PlannedClip α)) (n : Nat) :
    pictureChains n (underClip n) clips =
      ((clips.zipIdx n).flatMap fun (p, i) => [videoChain p (clipLabel i), compositionChain i p],
        underClip (n + clips.length)) := by
  induction clips generalizing n with
  | nil => rfl
  | cons p rest inductionHypothesis =>
      have next : compositionLabel n = underClip (n + 1) := rfl
      simp only [pictureChains, next, inductionHypothesis, List.zipIdx_cons, List.flatMap_cons,
        List.length_cons, Nat.add_assoc, Nat.add_comm 1]
      rfl

theorem textChains_eq (overlays : List (Overlay α)) (pictures n : Nat) :
    textChains n (underText pictures n) overlays =
      ((overlays.zipIdx n).map fun (o, i) => drawingChain pictures i o,
        underText pictures (n + overlays.length)) := by
  induction overlays generalizing n with
  | nil => rfl
  | cons o rest inductionHypothesis =>
      have next : textLabel n = underText pictures (n + 1) := rfl
      simp only [textChains, next, inductionHypothesis, List.zipIdx_cons, List.map_cons,
        List.length_cons, Nat.add_assoc, Nat.add_comm 1]
      rfl

section Sounds

variable {clips : List (PlannedClip α)} {n : Nat} {chains : List Chain}

/-- The sound of every clip has its chain among those of all sounds. -/
theorem soundChains_getElem? (made : soundChains n clips = some chains) {i : Nat} {p : PlannedClip α}
    (nth : clips[i]? = some p) :
    ∃ chain, audioChain p (soundLabel (n + i)) = some chain ∧ chains[i]? = some chain := by
  induction clips generalizing n chains i with
  | nil => cases nth
  | cons first rest inductionHypothesis =>
      obtain ⟨chain, others, isFirst, isRest, rfl⟩ := soundChains_cons_eq_some.mp made
      cases i with
      | zero =>
          obtain rfl := Option.some.inj nth
          exact ⟨chain, isFirst, rfl⟩
      | succ i =>
          obtain ⟨found, isSound, there⟩ := inductionHypothesis isRest nth
          rw [Nat.add_assoc, Nat.add_comm 1] at isSound
          exact ⟨found, isSound, there⟩

/-- What the chain of a sound has by its clip, all chains of sounds have by their clips. -/
theorem soundChains_flatMap {β : Type} {has : Chain → List β} {own : PlannedClip α → List β}
    (each : ∀ p l chain, audioChain p l = some chain → has chain = own p)
    (made : soundChains n clips = some chains) : chains.flatMap has = clips.flatMap own := by
  induction clips generalizing n chains with
  | nil =>
      cases made
      rfl
  | cons first rest inductionHypothesis =>
      obtain ⟨chain, others, isFirst, isRest, rfl⟩ := soundChains_cons_eq_some.mp made
      rw [List.flatMap_cons, List.flatMap_cons, each _ _ _ isFirst, inductionHypothesis isRest]

end Sounds

/-- The chains that lay visual clips over each other, in their order. -/
def compositionChains (seen : List (PlannedClip α)) : List Chain :=
  seen.zipIdx.map fun (p, n) => compositionChain n p

/-- The chains that draw texts above a number of visual clips, in their order. -/
def drawingChains (pictures : Nat) (texts : List (Overlay α)) : List Chain :=
  texts.zipIdx.map fun (o, n) => drawingChain pictures n o

theorem compositionChains_length (seen : List (PlannedClip α)) :
    (compositionChains seen).length = seen.length := by
  simp [compositionChains]

theorem drawingChains_length (pictures : Nat) (texts : List (Overlay α)) :
    (drawingChains pictures texts).length = texts.length := by
  simp [drawingChains]

theorem compositionChains_getElem? (seen : List (PlannedClip α)) (n : Nat) :
    (compositionChains seen)[n]? = seen[n]?.map (compositionChain n) := by
  simp [compositionChains, List.getElem?_zipIdx, Function.comp_def]

theorem drawingChains_getElem? (pictures : Nat) (texts : List (Overlay α)) (n : Nat) :
    (drawingChains pictures texts)[n]? = texts[n]?.map (drawingChain pictures n) := by
  simp [drawingChains, List.getElem?_zipIdx, Function.comp_def]

section Graph

variable {t : Timeline α} {total : α} {planned : List (PlannedClip α)} {g : FilterGraph}

/-- The chain that ends the picture of a plan. -/
def lastChain (t : Timeline α) (planned : List (PlannedClip α)) : Chain :=
  videoOutputChain (underText (visualClips planned).length (orderedOverlays t).length)

/-- The chains of a graph, those of the picture each with the number of its element. -/
theorem buildGraph_chains_eq (built : buildGraph t total planned = some g) :
    ∃ sounds, soundChains 0 (soundingClips planned) = some sounds ∧
      g.chains =
        baseChain t total ::
          ((visualClips planned).zipIdx.flatMap fun (p, n) =>
            [videoChain p (clipLabel n), compositionChain n p]) ++
          drawingChains (visualClips planned).length (orderedOverlays t) ++
          [lastChain t planned] ++ (sounds ++ mixChains (soundingClips planned).length) := by
  have ground : baseLabel = underClip 0 := rfl
  have composed : underClip (visualClips planned).length =
      underText (visualClips planned).length 0 := rfl
  obtain ⟨sound, isSound, rfl⟩ := buildGraph_eq_some.mp built
  obtain ⟨sounds, isSounds, rfl⟩ := audioChains_eq_some.mp isSound
  refine ⟨sounds, isSounds, ?_⟩
  rw [pictureRun, ground, pictureChains_eq, Nat.zero_add]
  simp only [composed, textChains_eq, Nat.zero_add, lastChain, drawingChains, List.cons_append,
    List.append_assoc]

variable (t total planned) in
/-- The chains that the graph of a plan has, each with its element and the element's number. -/
inductive ChainOf : Chain → Prop
  | base : ChainOf (baseChain t total)
  | picture {n : Nat} {p : PlannedClip α} (nth : (visualClips planned)[n]? = some p) :
      ChainOf (videoChain p (clipLabel n))
  | composition {n : Nat} {p : PlannedClip α} (nth : (visualClips planned)[n]? = some p) :
      ChainOf (compositionChain n p)
  | drawing {n : Nat} {o : Overlay α} (nth : (orderedOverlays t)[n]? = some o) :
      ChainOf (drawingChain (visualClips planned).length n o)
  | last : ChainOf (lastChain t planned)
  | sound {n : Nat} {p : PlannedClip α} (nth : (soundingClips planned)[n]? = some p) {chain : Chain}
      (made : audioChain p (soundLabel n) = some chain) : ChainOf chain
  | mix (heard : soundingClips planned ≠ []) : ChainOf (mixChain (soundingClips planned).length)

/-- The sound of every clip that is heard has a chain in a graph that is built. -/
theorem exists_audioChain (built : buildGraph t total planned = some g) {n : Nat} {p : PlannedClip α}
    (nth : (soundingClips planned)[n]? = some p) : ∃ chain, audioChain p (soundLabel n) = some chain := by
  obtain ⟨sounds, isSounds, -⟩ := buildGraph_chains_eq built
  obtain ⟨chain, made, -⟩ := soundChains_getElem? isSounds nth
  rw [Nat.zero_add] at made
  exact ⟨chain, made⟩

/-- The graph of a plan has the chains of all its elements. -/
theorem ChainOf.mem (built : buildGraph t total planned = some g) {chain : Chain}
    (has : ChainOf t total planned chain) : chain ∈ g.chains := by
  have ofClip {p : PlannedClip α} {n : Nat} (nth : (visualClips planned)[n]? = some p)
      {chain : Chain} (made : chain ∈ [videoChain p (clipLabel n), compositionChain n p]) :
      chain ∈ (visualClips planned).zipIdx.flatMap fun (p, n) =>
        [videoChain p (clipLabel n), compositionChain n p] :=
    List.mem_flatMap.mpr ⟨(p, n), List.mk_mem_zipIdx_iff_getElem?.mpr nth, made⟩
  obtain ⟨sounds, isSounds, isGraph⟩ := buildGraph_chains_eq built
  rw [isGraph]
  cases has with
  | base => simp
  | picture nth =>
      have member := ofClip nth List.mem_cons_self
      simp only [List.mem_append, List.mem_cons, member, true_or, or_true]
  | composition nth =>
      have member := ofClip nth (List.mem_cons_of_mem _ List.mem_cons_self)
      simp only [List.mem_append, List.mem_cons, member, true_or, or_true]
  | @drawing n o nth =>
      have drawn := drawingChains_getElem? (visualClips planned).length (orderedOverlays t) n
      rw [nth] at drawn
      have member := List.mem_of_getElem? drawn
      simp only [List.mem_append, member, true_or, or_true]
  | last => simp
  | sound nth made =>
      obtain ⟨found, isSound, there⟩ := soundChains_getElem? isSounds nth
      rw [Nat.zero_add, made] at isSound
      obtain rfl := Option.some.inj isSound
      exact List.mem_append_right _ (List.mem_append_left _ (List.mem_of_getElem? there))
  | mix heard =>
      refine List.mem_append_right _ (List.mem_append_right _ ?_)
      rw [mixChains, if_neg fun none => heard (List.eq_nil_of_length_eq_zero none)]
      exact List.mem_singleton_self _

/-! ## Streams and stages -/

/-- What the chains of a graph have, element by element; of sounds, what they have by their clips. -/
theorem flatMap_buildGraph {β : Type} {has : Chain → List β} {own : PlannedClip α → List β}
    (each : ∀ p l chain, audioChain p l = some chain → has chain = own p)
    (built : buildGraph t total planned = some g) :
    g.chains.flatMap has =
      has (baseChain t total) ++
        ((visualClips planned).zipIdx.flatMap fun (p, n) =>
          has (videoChain p (clipLabel n)) ++ has (compositionChain n p)) ++
        ((orderedOverlays t).zipIdx.flatMap fun (o, n) =>
          has (drawingChain (visualClips planned).length n o)) ++
        has (lastChain t planned) ++
        ((soundingClips planned).flatMap own ++ (mixChains (soundingClips planned).length).flatMap has) := by
  obtain ⟨sounds, isSounds, isGraph⟩ := buildGraph_chains_eq built
  rw [isGraph, ← soundChains_flatMap each isSounds]
  simp [drawingChains, List.flatMap_assoc, List.flatMap_map]

/-- What does not depend on the numbers of elements is had by the elements alone. -/
theorem flatMap_zipIdx {β γ : Type} (has : β → List γ) (list : List β) :
    (list.zipIdx.flatMap fun (x, _) => has x) = list.flatMap has := by
  conv => rhs; rw [← List.zipIdx_map_fst 0 list, List.flatMap_map]

theorem audioChain_streams {p : PlannedClip α} {l : PadLabel} {chain : Chain}
    (made : audioChain p l = some chain) : chain.streams = [(p.input, .audio)] := by
  rw [Chain.streams, audioChain_inputs made]
  rfl

/-- A graph reads the picture of every visual clip and the sound of every clip with sound, and nothing
else. -/
theorem buildGraph_streams (built : buildGraph t total planned = some g) :
    g.streams =
      (visualClips planned).map (fun p => (p.input, .video)) ++
        (soundingClips planned).map fun p => (p.input, .audio) := by
  have picture (p : PlannedClip α) (l : PadLabel) : (videoChain p l).streams = [(p.input, .video)] :=
    rfl
  have composed (p : PlannedClip α) (n : Nat) : (compositionChain n p).streams = [] := rfl
  have drawn (o : Overlay α) (pictures n : Nat) : (drawingChain pictures n o).streams = [] := rfl
  have ends : (baseChain t total).streams = [] ∧ (lastChain t planned).streams = [] := ⟨rfl, rfl⟩
  have mixed (count : Nat) : (mixChains count).flatMap Chain.streams = [] := by
    unfold mixChains
    split <;> simp [mixChain, Chain.streams, List.filterMap_map, Function.comp_def, Pad.stream?]
  unfold streams
  rw [flatMap_buildGraph (fun _ _ _ => audioChain_streams) built]
  simp only [picture, composed, drawn, ends, mixed, List.append_nil, List.nil_append,
    flatMap_zipIdx (fun p : PlannedClip α => [(p.input, StreamKind.video)]),
    flatMap_zipIdx (fun _ : Overlay α => ([] : List (Nat × StreamKind))), List.map_eq_flatMap]
  simp

def namedStages (name : String) (c : Chain) : List Stage :=
  c.stages.filter fun stage => stage.name == name

theorem stagesNamed_eq (g : FilterGraph) (name : String) :
    g.stagesNamed name = g.chains.flatMap (namedStages name) := by
  unfold stagesNamed namedStages
  rw [List.filter_flatMap]

theorem namedStages_eq_nil {name : String} {c : Chain} (absent : name ∉ c.stageNames) :
    namedStages name c = [] := by
  unfold namedStages
  rw [List.filter_eq_nil_iff]
  intro stage member same
  exact absent (List.mem_map.mpr ⟨stage, member, by simpa using same⟩)

theorem videoChain_stageNames (p : PlannedClip α) (l : PadLabel) :
    ∀ name ∈ (videoChain p l).stageNames,
      name ∈ ["trim", "setpts", "crop", "scale", "pad", "format", "rotate", "colorchannelmixer"] := by
  have trim : ∀ stage ∈ trimStages p.clip, stage.name = "trim" := by
    unfold trimStages
    split <;> simp [Stage.arg, Stage.ofName]
  have crop : ∀ stage ∈ cropStages p.clip, stage.name = "crop" := by
    unfold cropStages
    split <;> simp [Stage.arg, Stage.ofName]
  have rotation : ∀ stage ∈ rotationStages p.clip, stage.name = "rotate" := by
    unfold rotationStages
    split <;> simp [Stage.arg, Stage.ofName]
  have frame : (frameStages p.clip).map (·.name) = ["scale", "pad", "format"] := rfl
  intro name member
  obtain ⟨stage, isStage, rfl⟩ := List.mem_map.mp member
  simp only [videoChain, List.mem_append] at isStage
  rcases isStage with ((((first | isSetpts) | second) | third) | fourth) | last
  · simp [trim stage first]
  · simp_all [Stage.positional, Stage.ofName]
  · simp [crop stage second]
  · have named : stage.name ∈ ["scale", "pad", "format"] := frame ▸ List.mem_map.mpr ⟨stage, third, rfl⟩
    simp only [List.mem_cons, List.not_mem_nil, or_false] at named ⊢
    tauto
  · simp [rotation stage fourth]
  · simp only [List.mem_cons, List.not_mem_nil, or_false] at last
    rcases last with rfl | rfl <;> simp [Stage.positional, Stage.arg, Stage.ofName]

theorem audioChain_stageNames {p : PlannedClip α} {l : PadLabel} {chain : Chain}
    (made : audioChain p l = some chain) :
    ∀ name ∈ chain.stageNames, name ∈ ["atrim", "asetpts", "atempo", "adelay", "volume"] := by
  obtain ⟨factors, -, rfl⟩ := audioChain_eq_some.mp made
  intro name member
  obtain ⟨stage, isStage, rfl⟩ := List.mem_map.mp member
  simp only [soundStages, List.mem_append, List.mem_map, List.mem_cons, List.not_mem_nil,
    or_false] at isStage
  rcases isStage with ((rfl | rfl) | ⟨factor, -, rfl⟩) | rfl | rfl <;>
    simp [Stage.positional, Stage.arg, Stage.ofName]

/-- The stages that compose pictures or draw texts stand in the chains of their elements alone, in the
order of the elements. -/
theorem stagesNamed_buildGraph (built : buildGraph t total planned = some g) {name : String}
    (isOther : name = "overlay" ∨ name = "drawtext") :
    g.stagesNamed name =
      ((visualClips planned).flatMap fun p =>
          [compositionStage p.clip].filter fun stage => stage.name == name) ++
        (orderedOverlays t).flatMap fun o =>
          [drawingStage o].filter fun stage => stage.name == name := by
  have picture (p : PlannedClip α) (l : PadLabel) : namedStages name (videoChain p l) = [] := by
    refine namedStages_eq_nil fun member => ?_
    have known := videoChain_stageNames p l name member
    rcases isOther with rfl | rfl <;> simp at known
  let silent (_ : PlannedClip α) : List Stage := []
  have sound (p : PlannedClip α) (l : PadLabel) (chain : Chain) (made : audioChain p l = some chain) :
      namedStages name chain = silent p := by
    refine namedStages_eq_nil fun member => ?_
    have known := audioChain_stageNames made name member
    rcases isOther with rfl | rfl <;> simp at known
  have others : namedStages name (baseChain t total) = [] ∧
      namedStages name (lastChain t planned) = [] ∧
      ∀ count, (mixChains count).flatMap (namedStages name) = [] := by
    unfold mixChains
    rcases isOther with rfl | rfl <;> exact ⟨rfl, rfl, fun _ => by split <;> rfl⟩
  have composed (p : PlannedClip α) (n : Nat) : namedStages name (compositionChain n p) =
      [compositionStage p.clip].filter fun stage => stage.name == name := rfl
  have drawn (o : Overlay α) (pictures n : Nat) : namedStages name (drawingChain pictures n o) =
      [drawingStage o].filter fun stage => stage.name == name := rfl
  rw [stagesNamed_eq, flatMap_buildGraph sound built]
  simp only [silent, picture, others, composed, drawn, List.nil_append,
    flatMap_zipIdx fun p : PlannedClip α =>
      [compositionStage p.clip].filter fun stage => stage.name == name,
    flatMap_zipIdx fun o : Overlay α => [drawingStage o].filter fun stage => stage.name == name]
  simp

theorem stagesNamed_overlay (built : buildGraph t total planned = some g) :
    g.stagesNamed "overlay" = (visualClips planned).map fun p => compositionStage p.clip := by
  have unnamed : ((orderedOverlays t).flatMap fun o =>
      [drawingStage o].filter fun stage => stage.name == "overlay") = [] :=
    List.flatMap_eq_nil_iff.mpr fun _ _ => rfl
  rw [stagesNamed_buildGraph built (Or.inl rfl), unnamed, List.append_nil, List.map_eq_flatMap]
  rfl

theorem stagesNamed_drawtext (built : buildGraph t total planned = some g) :
    g.stagesNamed "drawtext" = (orderedOverlays t).map drawingStage := by
  have unnamed : ((visualClips planned).flatMap fun p =>
      [compositionStage p.clip].filter fun stage => stage.name == "drawtext") = [] :=
    List.flatMap_eq_nil_iff.mpr fun _ _ => rfl
  rw [stagesNamed_buildGraph built (Or.inr rfl), unnamed, List.nil_append, List.map_eq_flatMap]
  rfl

end Graph

/-! ## The mix -/

theorem escape_eq_self {isSpecial : Char → Bool} {s : List Char}
    (plain : ∀ c ∈ s, isSpecial c = false) : Graph.Escape.escape isSpecial s = s := by
  unfold Graph.Escape.escape
  induction s with
  | nil => rfl
  | cons c rest inductionHypothesis =>
      obtain ⟨first, others⟩ := List.forall_mem_cons.mp plain
      rw [List.flatMap_cons, first, inductionHypothesis others]
      rfl

/-- A number stands in a graph as it is. -/
theorem graphValue_repr (n : Nat) : Graph.Escape.graphValue n.repr = n.repr := by
  have digits : n.repr.toList = Nat.toDigits 10 n := by simp [Nat.repr]
  have plain : ∀ c ∈ Nat.toDigits 10 n, Graph.Escape.isGraphSpecial c = false := by
    intro c member
    have digit : c.isDigit = true := Nat.isDigit_of_mem_toDigits (by decide) (by decide) member
    unfold Graph.Escape.isGraphSpecial
    rw [List.contains_eq_mem, decide_eq_false_iff_not]
    intro special
    simp only [List.mem_cons, List.not_mem_nil, or_false] at special
    rcases special with rfl | rfl | rfl | rfl | rfl | rfl <;> cases digit
  unfold Graph.Escape.graphValue
  rw [digits, escape_eq_self plain, ← digits, String.ofList_toList]

/-- The mix reads the sound of as many clips as its text says, each of them once. -/
theorem mixChain_inputs (count : Nat) :
    (mixChain count).inputs.Nodup ∧
      (mixChain count).stages.map Stage.text =
        ["amix=inputs=" ++ toString (mixChain count).inputs.length ++
          ":duration=longest:normalize=1"] := by
  constructor
  · refine List.nodup_range.map fun n m same => ?_
    exact Link.sound.inj (Link.label_injective (Pad.label.inj same))
  · have length : (mixChain count).inputs.length = count := by simp [mixChain]
    have duration : Graph.Escape.graphValue "longest" = "longest" := by decide
    have normalize : Graph.Escape.graphValue "1" = "1" := by decide
    have start (s : String) : "amix=" ++ ("inputs=" ++ s) = "amix=inputs=" ++ s := by
      rw [← String.append_assoc]
      rfl
    rw [length]
    simp [mixChain, Stage.ofName, Stage.arg, Stage.text, Text.join, Arg.text, ArgValue.text,
      graphValue_repr, duration, normalize, String.append_assoc, start]

end Montage.Render
