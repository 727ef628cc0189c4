import Montage.Proofs.Number.Quotient
import Montage.Proofs.Render.Pace

/-!
Contract: which compilations come to an end, with machine numbers.

Owns:
- that the loops of a clip end exactly if the quotient of its spans is neither rounded to a zero nor out of
  range (`Clip.KeepsPace`);
- that a compilation of checked clips ends exactly if it fails or the loops of each clip with sound do.

Does **not** own: how quotients are rounded (`Montage.Proofs.Number.Quotient`), what the loops do
(`Montage.Proofs.Render.Tempo`), and that nothing else keeps a compilation from its end
(`Montage.Proofs.Render.Acceptance`).

The checks of a clip look at its two spans, each of which is finite and positive then. The speed is their
quotient, and need be neither.
-/

set_option autoImplicit false

namespace Montage

open Scalar (exact)

instance : Scalar.Dyadic Float where
  exact_two := by decide +kernel
  exact_half := by decide +kernel
  exact_div_two _ _ isExact above := Binary64.exact_div_two isExact (by decide +kernel) above
  exact_div_half _ _ isExact nonneg below :=
    Binary64.exact_div_half isExact (by decide +kernel) nonneg below
  infinite_div_two _ infinite := Binary64.exact_div_two_of_infinite infinite (by decide +kernel)

namespace Render

/-- A compilation comes to an end, with a job or with an error. -/
def Halts {α : Type} [Scalar α] (t : Timeline α) (assets : Store) (options : Options) : Prop :=
  (compile t assets options).isSome = true

/-! ## Loops -/

section Speed

variable {c : Clip Float}

/-- The exact quotient of a clip's spans is above half of the least unit of machine numbers, and less than
halfway from the greatest one to the power of two behind it. -/
def KeepsPace (c : Clip Float) : Prop :=
  ∃ p q : ℚ, exact c.sourceSpan = .fin p ∧ exact c.timelineSpan = .fin q ∧
    1 / 2 ^ 1075 < p / q ∧ p / q < 2 ^ 1024 - 2 ^ 970

/-- The speed of a clip that has passed its check is finite and positive exactly if the quotient of its
spans is neither rounded to a zero nor out of range, and it is only then that both loops end. -/
theorem speed_keepsPace (lasting : isRenderable c.timelineSpan = true ∧ isRenderable c.sourceSpan = true) :
    ((∃ v, exact c.speed = .fin v ∧ 0 < v) ↔ KeepsPace c) ∧
      ((Tempo.steps? c.speed).isSome = true ↔ KeepsPace c) := by
  simp only [isRenderable_iff_lasts] at lasting
  obtain ⟨⟨q, isSpan, placed⟩, p, isSource, long⟩ := lasting
  have isQuotient : c.speed = c.sourceSpan / c.timelineSpan :=
    if_pos ((Scalar.lt_iff_of_exact Scalar.Faithful.exact_zero isSpan).mpr placed)
  obtain ⟨nonneg, isNumber⟩ := Binary64.div_pos_iff isSource isSpan long placed
  have keeps : KeepsPace c ↔ 1 / 2 ^ 1075 < p / q ∧ p / q < 2 ^ 1024 - 2 ^ 970 := by
    constructor
    · rintro ⟨p', q', alsoSource, alsoSpan, range⟩
      obtain rfl := Extended.fin.inj (isSource.symm.trans alsoSource)
      obtain rfl := Extended.fin.inj (isSpan.symm.trans alsoSpan)
      exact range
    · exact fun range => ⟨p, q, isSource, isSpan, range⟩
  rw [isQuotient, keeps, ← isNumber]
  exact ⟨Iff.rfl, Tempo.isSome_steps?_iff nonneg⟩

end Speed

/-! ## Compilations -/

theorem checkClip_isOk_iff {α : Type} [Scalar α] {assets : Store} {c : Clip α} :
    (∃ asset, checkClip assets c = .ok asset) ↔
      (∃ asset, assets c.asset = some asset) ∧
        isRenderable c.timelineSpan = true ∧ isRenderable c.sourceSpan = true := by
  unfold checkClip
  cases assets c.asset with
  | none => simp
  | some asset =>
      cases isRenderable c.timelineSpan <;> cases isRenderable c.sourceSpan <;> simp

/-- Of clips that pass their checks, the loops end exactly at those whose speed is finite and positive. A
compilation comes to an end exactly if it fails or if that is so of each clip that is heard. -/
theorem compile_halts_iff {t : Timeline Float} {assets : Store} (options : Options)
    (checked : ∀ c ∈ t.clips, ∃ asset, checkClip assets c = .ok asset) :
    (∀ c ∈ t.clips,
        ((∃ v, exact c.speed = .fin v ∧ 0 < v) ↔ KeepsPace c) ∧
          ((Tempo.steps? c.speed).isSome = true ↔ KeepsPace c)) ∧
      (Halts t assets options ↔
        (∃ e, compile t assets options = some (.error e)) ∨
          ∀ c ∈ t.clips, ∀ asset, assets c.asset = some asset → carriesAudio c asset = true →
            KeepsPace c) := by
  have speeds (c : Clip Float) (member : c ∈ t.clips) :
      ((∃ v, exact c.speed = .fin v ∧ 0 < v) ↔ KeepsPace c) ∧
        ((Tempo.steps? c.speed).isSome = true ↔ KeepsPace c) :=
    speed_keepsPace (checkClip_isOk_iff.mp (checked c member)).2
  refine ⟨speeds, ?_⟩
  rw [Halts, isSome_compile_iff]
  refine or_congr_right (forall₂_congr fun c member => ?_)
  simp only [(speeds c member).2]

/-- Ten seconds of a film in twenty. -/
def slowed : Clip Float := excerpt 10 20

/-- Ten seconds of a film in next to no time. -/
def flash : Clip Float := excerpt 10 1e-308

theorem slowed_checked : ∃ asset, checkClip shelf slowed = .ok asset :=
  checkClip_isOk_iff.mpr ⟨⟨_, rfl⟩, by decide +kernel⟩

theorem flash_checked : ∃ asset, checkClip shelf flash = .ok asset :=
  checkClip_isOk_iff.mpr ⟨⟨_, rfl⟩, by decide +kernel⟩

theorem compile_halts_slowed :
    (∃ asset, checkClip shelf slowed = .ok asset) ∧ exact slowed.speed = .fin (1 / 2) ∧
      Halts (screening slowed) shelf ⟨false, "medium", 23, 192⟩ := by
  have half : exact slowed.speed = .fin (1 / 2) := by decide +kernel
  have checked : ∀ c ∈ (screening slowed).clips, ∃ asset, checkClip shelf c = .ok asset :=
    List.forall_mem_singleton.mpr slowed_checked
  obtain ⟨speeds, halts⟩ := compile_halts_iff ⟨false, "medium", 23, 192⟩ checked
  have keepsPace : KeepsPace slowed :=
    (speeds slowed (List.mem_singleton_self _)).1.mp ⟨1 / 2, half, by norm_num⟩
  exact ⟨slowed_checked, half,
    halts.mpr (Or.inr (List.forall_mem_singleton.mpr fun _ _ _ => keepsPace))⟩

theorem flash_steps : Tempo.steps? flash.speed = none :=
  Tempo.steps?_of_infinite (by decide +kernel)

/-- A timeline with the flash whose elements all pass their checks is not paced. -/
theorem not_isPaced_of_flash {t : Timeline Float} {assets : Store} (member : flash ∈ t.clips)
    {asset : Resolved} (found : assets "film" = some asset) (hasAudio : asset.hasAudio = true) :
    ¬ IsPaced t assets := by
  intro paced
  have heard : carriesAudio flash asset = true := by
    rw [carriesAudio, hasAudio]
    rfl
  have ended := paced flash member asset found heard
  rw [flash_steps] at ended
  cases ended

/-- The speed of a clip that passes its check may be infinite, and the compilation does not end then. -/
theorem flash_not_halts :
    (∃ asset, checkClip shelf flash = .ok asset) ∧ exact flash.speed = .posInf ∧
      Tempo.steps? flash.speed = none ∧
      ¬ Halts (screening flash) shelf ⟨false, "medium", 23, 192⟩ := by
  refine ⟨flash_checked, by decide +kernel, flash_steps, fun halts => ?_⟩
  rcases isSome_compile_iff.mp halts with ⟨e, failed⟩ | paced
  · have lasting : isRenderable flash.timelineSpan = true ∧ isRenderable flash.sourceSpan = true := by
      decide +kernel
    obtain ⟨plans, isPlan⟩ := (planTimeline_isOk_iff (screening flash) shelf
      ⟨false, "medium", 23, 192⟩).mpr ⟨Or.inl rfl, isRenderable_totalDuration _,
        List.forall_mem_singleton.mpr ⟨excerpt_isStored 10 1e-308, lasting⟩, List.forall_mem_nil _⟩
    rw [compile_eq_error_iff_plan, isPlan] at failed
    cases failed
  · exact not_isPaced_of_flash (List.mem_singleton_self _) rfl rfl paced

end Render

end Montage
