import Montage.Proofs.Clip.Times
import Montage.Proofs.Number.Compact
import Montage.Proofs.Render.Composition
import Montage.Proofs.Render.Tempo
import Montage.Proofs.Stored.Forgiving

/-!
Contract: the pace at which a clip is played, as it is printed.

Owns:
- the number by which the time stamps of a picture are divided (`divisor?`), how far it is from the speed of
  the clip, and when it is a zero;
- that the chains of a clip's picture and of its sound cut, delay and retime it alike (`InStep`).

Does **not** own: the factors of a tempo (`Montage.Proofs.Render.Tempo`).

A picture is retimed by a divisor with six places, a sound by factors that multiply to the speed. Pictures
are shifted by seconds with six places, sounds by whole milliseconds.
-/

set_option autoImplicit false

namespace Montage.Render

open Extended
open Rounding (rounded)

/-! ## The stages of a picture -/

section Stages

variable {α : Type} [Scalar α]

/-- A stage that cuts a part out of its source. -/
def cutting (name start stop : String) : Stage :=
  ((Stage.ofName name).arg "start" start).arg "end" stop

/-- A stage that sets time stamps. -/
def stamping (expression : String) : Stage := (Stage.ofName "setpts").positional expression

/-- A picture is cut by one stage and its time stamps are set by two, first to its pace and then to its
place. -/
theorem videoChain_stages (p : PlannedClip α) (l : PadLabel) :
    namedStages "trim" (videoChain p l) = trimStages p.clip ∧
      namedStages "setpts" (videoChain p l) =
        [stamping (retiming p.clip), stamping ("PTS+" ++ number p.clip.timelineStart ++ "/TB")] := by
  have trim : (trimStages p.clip).filter (fun stage => stage.name == "trim") = trimStages p.clip ∧
      (trimStages p.clip).filter (fun stage => stage.name == "setpts") = [] := by
    unfold trimStages
    split <;> exact ⟨rfl, rfl⟩
  have others (name : String) (isOther : name ∈ ["trim", "setpts"]) :
      (cropStages p.clip).filter (fun stage => stage.name == name) = [] ∧
        (frameStages p.clip).filter (fun stage => stage.name == name) = [] ∧
        (rotationStages p.clip).filter (fun stage => stage.name == name) = [] := by
    unfold cropStages rotationStages
    simp only [List.mem_cons, List.not_mem_nil, or_false] at isOther
    rcases isOther with rfl | rfl <;> refine ⟨?_, rfl, ?_⟩ <;> split <;> rfl
  simp only [namedStages, videoChain, List.filter_append, trim, others "trim" (by decide),
    others "setpts" (by decide), List.nil_append, List.append_nil]
  refine ⟨?_, rfl⟩
  show trimStages p.clip ++ [] ++ [] = trimStages p.clip
  rw [List.append_nil, List.append_nil]

/-- A sound is cut by one stage, stepped to its pace and delayed by one stage. -/
theorem soundStages_named (c : Clip α) (factors : List α) :
    (soundStages c factors).filter (fun stage => stage.name == "atrim") =
        [cutting "atrim" (number c.sourceIn) (number c.sourceOut)] ∧
      (soundStages c factors).filter (fun stage => stage.name == "atempo") =
        factors.map (fun factor => (Stage.ofName "atempo").positional (number factor)) ∧
      (soundStages c factors).filter (fun stage => stage.name == "adelay") =
        [((Stage.ofName "adelay").arg "delays" (toString (delayMilliseconds c))).arg "all" "1"] := by
  have tempo : (factors.map fun factor =>
      (Stage.ofName "atempo").positional (number factor)).filter (fun stage => stage.name == "atempo") =
        factors.map fun factor => (Stage.ofName "atempo").positional (number factor) := by
    rw [List.filter_map]
    exact congrArg _ (List.filter_eq_self.mpr fun _ _ => rfl)
  have others (name : String) (isOther : name ∈ ["atrim", "adelay"]) :
      (factors.map fun factor =>
        (Stage.ofName "atempo").positional (number factor)).filter (fun stage => stage.name == name) =
          [] := by
    simp only [List.mem_cons, List.not_mem_nil, or_false] at isOther
    rw [List.filter_map, List.filter_eq_nil_iff.mpr, List.map_nil]
    rcases isOther with rfl | rfl <;> exact fun _ _ => Bool.eq_false_iff.mp rfl
  simp only [soundStages, List.filter_append, tempo, others "atrim" (by decide),
    others "adelay" (by decide)]
  exact ⟨rfl, List.append_nil _, rfl⟩

end Stages

/-! ## Divisors -/

/-- The number by which an expression divides time stamps, if it does. -/
def divisor? (expression : String) : Option Extended := do
  let digits ← expression.toList.dropPrefix? "(PTS-STARTPTS)/".toList
  Layout.read? (String.ofList digits)

theorem divisor?_append (digits : String) :
    divisor? ("(PTS-STARTPTS)/" ++ digits) = Layout.read? digits := by
  have behind : ("(PTS-STARTPTS)/" ++ digits).toList.dropPrefix? "(PTS-STARTPTS)/".toList =
      some digits.toList :=
    List.dropPrefix?_eq_some_iff.mpr ⟨_, String.toList_append, beq_self_eq_true _⟩
  rw [divisor?, behind, Option.bind_eq_bind, Option.bind_some, String.ofList_toList]

theorem divisor?_unretimed : divisor? "PTS-STARTPTS" = none := rfl

variable {c : Clip Extended} {w : Times}

/-- The time stamps of a retimed clip that is no image are divided by its speed, rounded to six places. -/
theorem divisor?_retiming {v : ℚ} (plays : c.speed = fin v) :
    divisor? (retiming c) =
      if c.kind ≠ .image ∧ isRetimed (fin v) = true then some (fin (rounded 6 v)) else none := by
  unfold retiming
  rw [plays]
  split
  · rw [divisor?_append]
    exact Layout.read?_compact rfl
  · rw [divisor?_unretimed]

/-- An expression divides the time stamps of a clip by its speed, up to half a unit of the sixth place, if
it is retimed. The divisor is a zero exactly if the speed is no more than that. -/
structure Divides (c : Clip Extended) (v : ℚ) (pace : String) : Prop where
  retimed : (divisor? pace).isSome = true ↔ c.kind ≠ .image ∧ 1 / 10 ^ 9 < |v - 1|
  unretimed : divisor? pace = none → pace = "PTS-STARTPTS"
  near :
    ∀ n, divisor? pace = some n → ∃ d, n = fin d ∧ |d - v| ≤ 5 / 10 ^ 7 ∧ (d ≠ 0 ↔ 5 / 10 ^ 7 < v)

theorem retiming_divides {v : ℚ} (plays : c.speed = fin v) (forward : 0 < v) :
    Divides c v (retiming c) := by
  have divided := divisor?_retiming plays
  have unit : Extended.tolerance = 1 / 10 ^ 9 := by norm_num [Extended.tolerance]
  have half : (1 / 2 / 10 ^ 6 : ℚ) = 5 / 10 ^ 7 := by norm_num
  constructor
  · rw [divided, ← unit, ← Tempo.isRetimed_fin_iff]
    split <;> simp [*]
  · intro none
    rw [divided] at none
    unfold retiming
    rw [plays]
    split at none
    · cases none
    · rename_i unretimed
      rw [if_neg unretimed]
  · intro n isDivisor
    rw [divided] at isDivisor
    split at isDivisor
    · obtain rfl := Option.some.inj isDivisor
      refine ⟨_, rfl, half ▸ Rounding.abs_rounded_sub_le 6 v, ?_⟩
      rw [Ne, Rounding.rounded_eq_zero_iff, half, abs_of_pos forward, not_le]
    · cases isDivisor

/-! ## Picture and sound -/

/-- A chain of a clip's picture and one of its sound play the same part of its source, from the same
instant on, up to half a millisecond and half a microsecond, and at the same pace, up to half a unit of the
sixth place and a billionth. -/
structure InStep (c : Clip Extended) (picture sound : Chain) : Prop where
  cut :
    ∃ start stop, ∃ p q : ℚ,
      namedStages "trim" picture = [cutting "trim" start stop] ∧
        namedStages "atrim" sound = [cutting "atrim" start stop] ∧
        (c.sourceIn = fin p ∧ Layout.read? start = some (fin (rounded 6 p))) ∧
        (c.sourceOut = fin q ∧ Layout.read? stop = some (fin (rounded 6 q)))
  delay :
    ∃ pace shift, ∃ seconds : ℚ, ∃ milliseconds : ℕ,
      namedStages "setpts" picture = [pace, stamping ("PTS+" ++ shift ++ "/TB")] ∧
        Layout.read? shift = some (fin seconds) ∧
        namedStages "adelay" sound =
          [((Stage.ofName "adelay").arg "delays" (toString milliseconds)).arg "all" "1"] ∧
        |(milliseconds : ℚ) - 1000 * seconds| ≤ 501 / 1000
  pace :
    ∃ pace shift, ∃ factors : List ℚ, ∃ n : ℚ,
      namedStages "setpts" picture = [stamping pace, shift] ∧
        Tempo.steps? c.speed = some (factors.map fin) ∧
        namedStages "atempo" sound =
          factors.map (fun factor => (Stage.ofName "atempo").positional (number (fin factor))) ∧
        ((divisor? pace).isSome = true ↔ factors ≠ []) ∧
        (divisor? pace).getD (fin 1) = fin n ∧
        |n - factors.prod| ≤ 5 / 10 ^ 7 + 1 / 10 ^ 9 * factors.prod

theorem delayMilliseconds_near {s : ℚ} (isStart : c.timelineStart = fin s) (nonneg : 0 ≤ s)
    (bounded : s ≤ 10 ^ 12) :
    |(delayMilliseconds c : ℚ) - 1000 * rounded 6 s| ≤ 501 / 1000 := by
  have thousand : (1000 : Extended) = fin 1000 := ofNat_eq 1000
  obtain ⟨n, isRounded⟩ : ∃ n, n = Rounding.halfAway (s * 1000) := ⟨_, rfl⟩
  have near := abs_le.mp (isRounded ▸ Rounding.abs_halfAway_sub_le (s * 1000))
  have nonnegative : -1 < n := by exact_mod_cast (by linarith : (-1 : ℚ) < n)
  have small : n < 0xFFFFFFFFFFFFFFFF := by
    exact_mod_cast (by norm_num at bounded ⊢; linarith : (n : ℚ) < 0xFFFFFFFFFFFFFFFF)
  have delay : (delayMilliseconds c : ℤ) = n := by
    rw [delayMilliseconds, isStart, thousand, fin_mul_fin, roundWithin_fin, ← isRounded,
      min_eq_right small.le, max_eq_right (by omega), Int.toNat_of_nonneg (by omega)]
  have delay : (delayMilliseconds c : ℚ) = n := by exact_mod_cast delay
  have printed := abs_le.mp (Rounding.abs_rounded_sub_le 6 s)
  rw [delay, abs_le]
  norm_num at printed near ⊢
  constructor <;> linarith

/-- The divisor of a picture and the product of the factors of its sound differ from the speed by what is
rounded and left out. -/
theorem retiming_near {v : ℚ} (plays : c.speed = fin v) (forward : 0 < v) (moving : c.kind ≠ .image) :
    ∃ factors : List ℚ, ∃ n : ℚ, Tempo.steps? c.speed = some (factors.map fin) ∧
      ((divisor? (retiming c)).isSome = true ↔ factors ≠ []) ∧
      (divisor? (retiming c)).getD (fin 1) = fin n ∧
      |n - factors.prod| ≤ 5 / 10 ^ 7 + 1 / 10 ^ 9 * factors.prod := by
  obtain ⟨factors, isFactors, -, none, product⟩ := Tempo.steps?_fin forward
  have unit : Extended.tolerance = 1 / 10 ^ 9 := by norm_num [Extended.tolerance]
  rw [unit] at product
  rw [divisor?_retiming plays, plays]
  by_cases retimed : isRetimed (fin v) = true
  · have printed : |rounded 6 v - v| ≤ 5 / 10 ^ 7 :=
      (Rounding.abs_rounded_sub_le 6 v).trans_eq (by norm_num)
    rw [if_pos ⟨moving, retimed⟩]
    refine ⟨factors, rounded 6 v, isFactors, ?_, rfl, ?_⟩
    · simpa [retimed] using none
    · calc |rounded 6 v - factors.prod| ≤ |rounded 6 v - v| + |v - factors.prod| := abs_sub_le _ _ _
        _ ≤ 5 / 10 ^ 7 + 1 / 10 ^ 9 * factors.prod := add_le_add printed product
  · obtain rfl : factors = [] := none.mpr (Bool.eq_false_iff.mpr retimed)
    rw [if_neg fun both => retimed both.2]
    refine ⟨[], 1, isFactors, by simp, rfl, by norm_num⟩

theorem chains_inStep {p : PlannedClip Extended} (picture : PadLabel) {l : PadLabel} {sound : Chain}
    (made : audioChain p l = some sound)
    (lasting : isRenderable p.clip.timelineSpan = true ∧ isRenderable p.clip.sourceSpan = true)
    (isVideo : p.clip.kind = .video) {s : ℚ} (isStart : p.clip.timelineStart = fin s) (nonneg : 0 ≤ s)
    (bounded : s ≤ 10 ^ 12) :
    InStep p.clip (videoChain p picture) sound := by
  obtain ⟨w, times, forward, plays⟩ := exists_times lasting
  obtain ⟨trim, setpts⟩ := videoChain_stages p picture
  obtain ⟨stepped, isStepped, rfl⟩ := audioChain_eq_some.mp made
  obtain ⟨atrim, atempo, adelay⟩ := soundStages_named p.clip stepped
  have moving : p.clip.kind ≠ .image := by rw [isVideo]; decide
  constructor
  · rw [trimStages, if_neg moving, times.sourceIn, times.sourceOut] at trim
    rw [times.sourceIn, times.sourceOut] at atrim
    exact ⟨_, _, w.sourceIn, w.sourceOut, trim, atrim, ⟨times.sourceIn, Layout.read?_compact rfl⟩,
      times.sourceOut, Layout.read?_compact rfl⟩
  · rw [isStart] at setpts
    exact ⟨_, _, rounded 6 s, _, setpts, Layout.read?_compact rfl, adelay,
      delayMilliseconds_near isStart nonneg bounded⟩
  · obtain ⟨factors, n, isFactors, divided, isDivisor, near⟩ := retiming_near plays forward moving
    obtain rfl := Option.some.inj (isStepped.symm.trans isFactors)
    rw [List.map_map] at atempo
    exact ⟨_, _, factors, n, setpts, isFactors, atempo, divided, isDivisor, near⟩

/-! ## A film at another speed -/

section Screening

variable {α : Type}

def screening (c : Clip α) : Timeline α := { (Timeline.empty : Timeline α) with clips := [c] }

theorem mem_of_screening_isPlan {c : Clip α} {assets : Store} {planned : List (PlannedClip α)}
    (isPlan : IsPlan (screening c) assets planned) :
    ∃ p ∈ planned, p.clip = c ∧ assets c.asset = some p.asset := by
  have isClip : c ∈ planned.map (·.clip) := by
    rw [isPlan.clips]
    exact List.mem_mergeSort.mpr (List.mem_singleton_self _)
  obtain ⟨p, member, rfl⟩ := List.mem_map.mp isClip
  exact ⟨p, member, rfl, isPlan.stored p member⟩

variable [Scalar α]

/-- The first seconds of a film, played until some time. -/
def excerpt (length stop : α) : Clip α :=
  { Clip.ofAsset ⟨1⟩ "film" .video "film.mp4" (some 10) 0 with sourceOut := length, timelineEnd := stop }

theorem excerpt_isStored (length stop : α) : IsStored shelf (excerpt length stop) :=
  ⟨⟨.file "film.mp4", "video/mp4", true⟩, rfl, by decide +kernel⟩

end Screening

theorem screening_compiles {length stop : Extended}
    (lasting : isRenderable (excerpt length stop).timelineSpan = true ∧
      isRenderable (excerpt length stop).sourceSpan = true) :
    ∃ job, compile (screening (excerpt length stop)) shelf ⟨false, "medium", 23, 192⟩ =
      some (.ok job) :=
  compile_isOk_of_renderable (Or.inl rfl)
    (List.forall_mem_singleton.mpr ⟨excerpt_isStored length stop, lasting⟩) (List.forall_mem_nil _)

/-- A film at half its speed. -/
def slowMotion : Clip Extended := excerpt 10 20

/-- The shortest window of a film, played for a million seconds. -/
def freeze : Clip Extended := excerpt minimumSpan 1000000

theorem slowMotion_compiles :
    ∃ job, compile (screening slowMotion) shelf ⟨false, "medium", 23, 192⟩ = some (.ok job) :=
  screening_compiles (by decide +kernel)

theorem freeze_compiles :
    ∃ job, compile (screening freeze) shelf ⟨false, "medium", 23, 192⟩ = some (.ok job) :=
  screening_compiles (by decide +kernel)

theorem freeze_valid : freeze.Valid := by
  refine ⟨?_, by decide +kernel⟩
  constructor <;> decide +kernel

/-! ## Compiled timelines -/

section Graph

variable {t : Timeline Extended} {total : Extended} {planned : List (PlannedClip Extended)}
  {g : FilterGraph} {p : PlannedClip Extended}

/-- The picture of a clip that is seen is read by one chain, and so is the sound of one that is heard. -/
theorem buildGraph_streamReaders (built : buildGraph t total planned = some g)
    (numbered : planned.map (·.input) = List.range planned.length) (member : p ∈ planned) :
    (p.IsSeen → ∃ l, g.streamReaders p.input .video = [videoChain p l]) ∧
      (p.IsHeard →
        ∃ l sound, audioChain p l = some sound ∧ g.streamReaders p.input .audio = [sound]) := by
  constructor
  · intro seen
    have isClip : p ∈ visualClips planned := by
      rw [visualClips_eq]
      exact List.mem_filter.mpr ⟨member, decide_eq_true seen⟩
    obtain ⟨n, nth⟩ := List.mem_iff_getElem?.mp isClip
    exact ⟨_, ((buildGraph_showsPicture built numbered).clips n p nth).2.1⟩
  · intro heard
    have isClip : p ∈ soundingClips planned := by
      rw [soundingClips_eq]
      exact List.mem_filter.mpr ⟨member, decide_eq_true heard⟩
    obtain ⟨n, nth⟩ := List.mem_iff_getElem?.mp isClip
    obtain ⟨sound, made, -, reads, -⟩ := (buildGraph_playsSound built numbered).clips n p nth
    exact ⟨_, sound, made, reads⟩

end Graph

section Compiled

variable {t : Timeline Extended} {assets : Store} {options : Options} {job : Job Extended}

/-- Every divisor of a compiled job is a decimal within half a unit of the sixth place of the speed. It is
a zero exactly if the speed is no more than that. -/
theorem compile_divides (compiled : compile t assets options = some (.ok job)) :
    ∃ planned, IsPlan t assets planned ∧
      ∀ p ∈ planned, p.IsSeen →
        ∃ picture pace shift, ∃ v : ℚ,
          job.graph.streamReaders p.input .video = [picture] ∧
            namedStages "setpts" picture = [stamping pace, shift] ∧
            p.clip.speed = fin v ∧ 0 < v ∧ Divides p.clip v pace := by
  obtain ⟨-, -, plans, graph, planned, -, built, isJob⟩ := compile_eq_ok_iff.mp compiled
  obtain ⟨isPlan, -⟩ := isPlan_of_planClips planned
  refine ⟨_, isPlan, fun p member seen => ?_⟩
  obtain ⟨w, -, forward, plays⟩ := exists_times (isPlan.isRenderable_spans compiled p member)
  subst isJob
  obtain ⟨l, reads⟩ := (buildGraph_streamReaders built isPlan.inputs member).1 seen
  exact ⟨_, _, _, w.speed, reads, (videoChain_stages p l).2, plays, forward,
    retiming_divides plays forward⟩

/-- The divisor of a film at half its speed is not a zero. -/
theorem compile_divides_slowMotion :
    ∃ job planned, compile (screening slowMotion) shelf ⟨false, "medium", 23, 192⟩ = some (.ok job) ∧
      IsPlan (screening slowMotion) shelf planned ∧
      ∃ p ∈ planned, ∃ picture pace shift, ∃ d : ℚ,
        job.graph.streamReaders p.input .video = [picture] ∧
          namedStages "setpts" picture = [stamping pace, shift] ∧
          divisor? pace = some (fin d) ∧ d ≠ 0 ∧ |d - 1 / 2| ≤ 5 / 10 ^ 7 := by
  obtain ⟨job, compiled⟩ := slowMotion_compiles
  obtain ⟨planned, isPlan, divides⟩ := compile_divides compiled
  obtain ⟨p, member, isClip, -⟩ := mem_of_screening_isPlan isPlan
  obtain ⟨picture, pace, shift, v, reads, stages, plays, -, divided⟩ :=
    divides p member (Or.inl (by rw [isClip]; rfl))
  have half : slowMotion.speed = fin (1 / 2) := by decide +kernel
  obtain rfl : v = 1 / 2 := by
    rw [isClip, half] at plays
    exact (Extended.fin.inj plays).symm
  obtain ⟨n, isDivisor⟩ := Option.isSome_iff_exists.mp
    (divided.retimed.mpr ⟨by rw [isClip]; decide, by norm_num [abs_of_neg]⟩)
  obtain ⟨d, rfl, near, nonzero⟩ := divided.near n isDivisor
  exact ⟨job, planned, compiled, isPlan, p, member, picture, pace, shift, d, reads, stages, isDivisor,
    nonzero.mpr (by norm_num), near⟩

/-- The time stamps of a clip within its bounds are divided by zero, if it is played slowly enough. -/
theorem freeze_divided_by_zero :
    freeze.Valid ∧
      ∃ job planned, compile (screening freeze) shelf ⟨false, "medium", 23, 192⟩ = some (.ok job) ∧
        IsPlan (screening freeze) shelf planned ∧
        ∃ p ∈ planned, p.clip = freeze ∧
          ∃ picture shift,
            job.graph.streamReaders p.input .video = [picture] ∧
              namedStages "setpts" picture = [stamping "(PTS-STARTPTS)/0", shift] ∧
              divisor? "(PTS-STARTPTS)/0" = some (fin 0) := by
  obtain ⟨job, compiled⟩ := freeze_compiles
  obtain ⟨-, -, plans, graph, planned, -, built, isJob⟩ := compile_eq_ok_iff.mp compiled
  obtain ⟨isPlan, -⟩ := isPlan_of_planClips planned
  obtain ⟨p, member, isClip, -⟩ := mem_of_screening_isPlan isPlan
  subst isJob
  obtain ⟨l, reads⟩ := (buildGraph_streamReaders built isPlan.inputs member).1
    (Or.inl (by rw [isClip]; rfl))
  have pace : retiming freeze = "(PTS-STARTPTS)/0" := by decide +kernel
  have stages := (videoChain_stages p l).2
  rw [isClip, pace] at stages
  exact ⟨freeze_valid, _, _, compiled, isPlan, p, member, isClip, _, _, reads, stages,
    by decide +kernel⟩

/-- The chains of every compiled video with sound are in step. -/
theorem compile_inStep (compiled : compile t assets options = some (.ok job)) :
    ∃ planned, IsPlan t assets planned ∧
      ∀ p ∈ planned, p.clip.kind = .video → p.asset.hasAudio = true →
        ∀ s : ℚ, p.clip.timelineStart = fin s → 0 ≤ s → s ≤ 10 ^ 12 →
          ∃ picture sound,
            job.graph.streamReaders p.input .video = [picture] ∧
              job.graph.streamReaders p.input .audio = [sound] ∧ InStep p.clip picture sound := by
  obtain ⟨-, -, plans, graph, planned, -, built, isJob⟩ := compile_eq_ok_iff.mp compiled
  obtain ⟨isPlan, -⟩ := isPlan_of_planClips planned
  refine ⟨_, isPlan, fun p member isVideo hasAudio s isStart nonneg bounded => ?_⟩
  have lasting := isPlan.isRenderable_spans compiled p member
  subst isJob
  obtain ⟨readers, sounds⟩ := buildGraph_streamReaders built isPlan.inputs member
  obtain ⟨picture, readsPicture⟩ := readers (Or.inl isVideo)
  obtain ⟨l, sound, made, readsSound⟩ := sounds (Or.inr ⟨isVideo, hasAudio⟩)
  exact ⟨_, _, readsPicture, readsSound,
    chains_inStep picture made lasting isVideo isStart nonneg bounded⟩

/-- The chains of a film at half its speed are in step. -/
theorem compile_inStep_slowMotion :
    ∃ job planned, compile (screening slowMotion) shelf ⟨false, "medium", 23, 192⟩ = some (.ok job) ∧
      IsPlan (screening slowMotion) shelf planned ∧
      ∃ p ∈ planned, p.clip = slowMotion ∧
        ∃ picture sound,
          job.graph.streamReaders p.input .video = [picture] ∧
            job.graph.streamReaders p.input .audio = [sound] ∧ InStep slowMotion picture sound := by
  obtain ⟨job, compiled⟩ := slowMotion_compiles
  obtain ⟨planned, isPlan, inStep⟩ := compile_inStep compiled
  obtain ⟨p, member, isClip, stored⟩ := mem_of_screening_isPlan isPlan
  have hasAudio : p.asset.hasAudio = true := by rw [← Option.some.inj stored]
  have start : slowMotion.timelineStart = fin 0 := by decide +kernel
  have parallel := inStep p member (by rw [isClip]; rfl) hasAudio 0 (by rw [isClip, start]) le_rfl
    (by norm_num)
  rw [isClip] at parallel
  exact ⟨job, planned, compiled, isPlan, p, member, isClip, parallel⟩

end Compiled

end Montage.Render
