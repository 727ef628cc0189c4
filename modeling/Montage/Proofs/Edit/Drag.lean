import Montage.Proofs.Clip.Absorption
import Montage.Proofs.Edit.Bounds
import Montage.Proofs.Edit.Place

/-!
Contract: a drag leaves what its last movement alone would leave, whatever the throttle held back.

Owns:
- the commands that a drag releases, as the values of some movements and of the last one;
- runs of commands of which each undoes the ones before it;
- the timeline after a whole drag.

Does **not** own: why one edit of an edge absorbs another (`Montage.Proofs.Clip.Absorption`).

The throttle may release any of the earlier movements, so nothing is said about which. Every command
edits the same edge of the same element in its place, and is absorbed by the one after it.
-/

set_option autoImplicit false

namespace Montage

variable {α : Type}

/-! ## The throttle -/

/-- A value that is offered passes, or it alone is held. -/
theorem Throttle.offer_cases (throttle : Throttle α) (value : α) (now : Nat) :
    (∃ next, throttle.offer value now = (some value, next) ∧ next.pending = none) ∨
      ∃ next, throttle.offer value now = (none, next) ∧ next.pending = some value := by
  unfold offer
  split
  · exact Or.inl ⟨_, rfl, rfl⟩
  · exact Or.inr ⟨_, rfl, rfl⟩

variable [Scalar α]

/-! ## Commands that undo each other -/

/-- If every command of a family leads to its own timeline, from the first one and from those of the
others, then the last one of a run counts. -/
theorem Timeline.applyAll_absorbing
    {β : Type}
    {P : β → Prop}
    {family : β → Command α}
    {settled : β → Timeline α}
    {supply : IdSupply}
    {t : Timeline α}
    (once : ∀ v, P v → t.apply supply (family v) = .ok (settled v, supply))
    (again : ∀ u v, P u → P v → (settled u).apply supply (family v) = .ok (settled v, supply))
    {values : List β}
    (all : ∀ u ∈ values, P u)
    {last : β}
    (usual : P last) :
    t.applyAll supply ((values ++ [last]).map family) = .ok (settled last, supply) := by
  induction values generalizing t with
  | nil =>
      simp only [List.nil_append, List.map_cons, List.map_nil, applyAll, once last usual]
  | cons u rest inductionHypothesis =>
      obtain ⟨head, tail⟩ := List.forall_mem_cons.mp all
      simp only [List.cons_append, List.map_cons, applyAll, once u head]
      exact inductionHypothesis (fun v usual => again u v head usual) tail

namespace Drag

/-! ## The commands that are released -/

/-- A drag releases the commands of some of its movements, in order, and that of the last one. -/
theorem released_eq (d : Drag α) (earlier : List (α × Nat)) (pixels : α) (now : Nat) :
    ∃ values, values.Sublist (earlier.map fun moved => d.value moved.1) ∧
      d.released (earlier ++ [(pixels, now)]) = (values ++ [d.value pixels]).map d.command := by
  induction earlier generalizing d with
  | nil =>
      refine ⟨[], List.Sublist.slnil, ?_⟩
      rcases d.throttle.offer_cases (d.value pixels) now with
        ⟨next, passed, empty⟩ | ⟨next, kept, holds⟩
      · simp [released, update, passed, finish, Throttle.flush, empty]
      · simp [released, update, kept, finish, Throttle.flush, holds, command]
  | cons moved earlier inductionHypothesis =>
      rcases d.throttle.offer_cases (d.value moved.1) moved.2 with
        ⟨next, passed, -⟩ | ⟨next, kept, -⟩
      · obtain ⟨values, some, released⟩ := inductionHypothesis { d with throttle := next }
        refine ⟨d.value moved.1 :: values, some.cons_cons _, ?_⟩
        simp only [Drag.released, List.cons_append, update, passed, released]
        rfl
      · obtain ⟨values, some, released⟩ := inductionHypothesis { d with throttle := next }
        refine ⟨values, some.cons _, ?_⟩
        simp only [Drag.released, List.cons_append, update, kept, released]
        rfl

/-! ## The element that is dragged -/

def ofElement (target : Identity) (element : Element α) (handle : Handle) (zoom : Zoom α)
    (rate : Nat) : Drag α :=
  let (held, origin, speed) := grip element handle
  { target, handle := held, zoom, origin, speed, throttle := .ofRate rate }

theorem start_eq {t : Timeline α} {target : Identity} {element : Element α}
    (found : t.element? target = some element) (handle : Handle) (zoom : Zoom α) (rate : Nat) :
    start t target handle zoom rate = .ok (ofElement target element handle zoom rate) := by
  unfold start
  rw [found]
  rfl

def moveClip (d : Drag α) (c : Clip α) (value : α) : Clip α :=
  match d.handle with
  | .body => c.reposition value
  | .leftEdge => c.trimStart value
  | .rightEdge => c.resizeRight value

/-- An overlay with its handle at a value; its left edge is no handle. -/
def moveOverlay (d : Drag α) (o : Overlay α) (value : α) : Overlay α :=
  match d.handle with
  | .rightEdge => o.resizeRight value
  | _ => o.reposition value

section Command

variable (d : Drag α) (value : α)

theorem command_target? : (d.command value).target? = some d.target := by
  unfold command
  cases d.handle with
  | body | leftEdge | rightEdge => rfl

theorem command_drawn : (d.command value).drawn = 0 := by
  unfold command
  cases d.handle with
  | body | leftEdge | rightEdge => rfl

theorem command_clipParts? (supply : IdSupply) (c : Clip α) :
    (d.command value).clipParts? supply c = some [d.moveClip c value] := by
  unfold command moveClip
  cases d.handle with
  | body | leftEdge | rightEdge => rfl

theorem command_overlayParts? (held : d.handle ≠ .leftEdge) (supply : IdSupply) (o : Overlay α) :
    (d.command value).overlayParts? supply o = some [d.moveOverlay o value] := by
  unfold command moveOverlay
  cases handle : d.handle with
  | leftEdge => exact absurd handle held
  | body | rightEdge => rfl

theorem moveClip_id (c : Clip α) : (d.moveClip c value).id = c.id := by
  unfold moveClip Clip.reposition Clip.trimStart Clip.resizeRight
  split <;> split <;> rfl

theorem moveOverlay_id (o : Overlay α) : (d.moveOverlay o value).id = o.id := by
  unfold moveOverlay Overlay.reposition Overlay.resizeRight
  split <;> split <;> rfl

end Command

/-- A command of a drag moves the clip in its place, which stays the place of the clip. -/
theorem apply_clip
    {d : Drag α}
    {t : Timeline α}
    {before after : List (Clip α)}
    {c : Clip α}
    (place : t.HasClip d.target before c after)
    (supply : IdSupply)
    (value : α) :
    t.apply supply (d.command value) =
        .ok ({ t with clips := before ++ [d.moveClip c value] ++ after }, supply) ∧
      ({ t with clips := before ++ [d.moveClip c value] ++ after } : Timeline α).HasClip d.target
        before (d.moveClip c value) after := by
  refine ⟨?_, place.replaced ?_⟩
  · rw [place.apply_eq (d.command_target? value) (d.command_clipParts? value supply c),
      command_drawn]
    rfl
  · rw [moveClip_id]
    exact place.meant

/-- A command of a drag moves the overlay in its place, which stays the place of the overlay. -/
theorem apply_overlay
    {d : Drag α}
    (held : d.handle ≠ .leftEdge)
    {t : Timeline α}
    {before after : List (Overlay α)}
    {o : Overlay α}
    (place : t.HasOverlay d.target before o after)
    (supply : IdSupply)
    (value : α) :
    t.apply supply (d.command value) =
        .ok ({ t with overlays := before ++ [d.moveOverlay o value] ++ after }, supply) ∧
      ({ t with overlays := before ++ [d.moveOverlay o value] ++ after } : Timeline α).HasOverlay
        d.target before (d.moveOverlay o value) after := by
  refine ⟨?_, place.replaced ?_, place.noClip⟩
  · rw [place.apply_eq (d.command_target? value) (d.command_overlayParts? value held supply o),
      command_drawn]
    rfl
  · rw [moveOverlay_id]
    exact place.meant

end Drag

/-! ## Drags in exact arithmetic -/

/-- A finite number of pixels is a finite time at every zoom. -/
theorem Zoom.toSeconds_fin (zoom : Zoom Extended) {pixels : Extended}
    (finite : Scalar.isFinite pixels = true) : ∃ q, zoom.toSeconds pixels = .fin q := by
  obtain ⟨p, rfl⟩ := (Extended.isFinite_iff pixels).mp finite
  obtain ⟨z, isScale⟩ := (Extended.isFinite_iff zoom.pixelsPerSecond).mp zoom.valid.1
  have positive : 0 < zoom.pixelsPerSecond := zoom.valid.2
  rw [isScale, Extended.zero_eq, Extended.fin_lt_fin] at positive
  refine ⟨p / z, ?_⟩
  unfold toSeconds
  rw [isScale, Extended.fin_div_fin _ _ positive.ne']

namespace Drag

open Extended

variable {d : Drag Extended}

theorem moveClip_moveClip {c : Clip Extended} (valid : c.Valid) (first : Extended)
    {second : Extended} (finite : Scalar.isFinite second = true) :
    d.moveClip (d.moveClip c first) second = d.moveClip c second := by
  obtain ⟨q, rfl⟩ := (isFinite_iff second).mp finite
  unfold moveClip
  cases d.handle with
  | body => exact Clip.reposition_reposition first finite
  | leftEdge => exact valid.trimStart_trimStart first rfl
  | rightEdge =>
      exact valid.resizeRight_resizeRight first ((Clip.acceptsEnd_iff _).mpr ⟨rfl, Or.inl rfl⟩)

theorem moveOverlay_moveOverlay (o : Overlay Extended) {first second : Extended}
    (alike : Scalar.isFinite first = Scalar.isFinite second) :
    d.moveOverlay (d.moveOverlay o first) second = d.moveOverlay o second := by
  unfold moveOverlay
  cases d.handle with
  | body | leftEdge => exact o.reposition_reposition alike
  | rightEdge => exact o.resizeRight_resizeRight alike

/-- A finite movement takes a finite value to a finite one and leaves any other as it is. -/
theorem isFinite_value
    (speed : Scalar.isFinite d.speed = true)
    {pixels : Extended}
    (finite : Scalar.isFinite pixels = true) :
    Scalar.isFinite (d.value pixels) = Scalar.isFinite d.origin := by
  obtain ⟨seconds, isSeconds⟩ := d.zoom.toSeconds_fin finite
  obtain ⟨s, isSpeed⟩ := (isFinite_iff d.speed).mp speed
  have kept (x : Extended) (q : ℚ) : Scalar.isFinite (x + fin q) = Scalar.isFinite x := by
    cases x <;> rfl
  unfold value
  simp only [isSeconds, isSpeed, fin_mul_fin]
  split
  · exact kept _ _
  · exact kept _ _

/-- A drag of a finite speed leaves what its last movement alone would leave, if its commands can be
made again on every timeline that one of them leaves. -/
theorem applyAll_released_absorbing
    {settled : Extended → Timeline Extended}
    {supply : IdSupply}
    {t : Timeline Extended}
    (speed : Scalar.isFinite d.speed = true)
    (once : ∀ v, t.apply supply (d.command v) = .ok (settled v, supply))
    (again :
      ∀ u v, Scalar.isFinite u = Scalar.isFinite d.origin →
        Scalar.isFinite v = Scalar.isFinite d.origin →
        (settled u).apply supply (d.command v) = .ok (settled v, supply))
    {earlier : List (Extended × Nat)}
    {pixels : Extended}
    {now : Nat}
    (finite : ∀ moved ∈ earlier ++ [(pixels, now)], Scalar.isFinite moved.1 = true) :
    ∃ next, t.apply supply (d.command (d.value pixels)) = .ok (next, supply) ∧
      t.applyAll supply (d.released (earlier ++ [(pixels, now)])) = .ok (next, supply) := by
  obtain ⟨values, some, released⟩ := d.released_eq earlier pixels now
  refine ⟨settled (d.value pixels), once _, ?_⟩
  rw [released]
  refine Timeline.applyAll_absorbing (fun v _ => once v) again ?_
    (isFinite_value speed (finite (pixels, now) (by simp)))
  intro u member
  obtain ⟨moved, isEarlier, rfl⟩ := List.mem_map.mp (some.subset member)
  exact isFinite_value speed (finite moved (List.mem_append_left _ isEarlier))

/-- A whole drag of a clip leaves what its last movement alone would leave. -/
theorem applyAll_released_clip
    {t : Timeline Extended}
    {before after : List (Clip Extended)}
    {c : Clip Extended}
    (place : t.HasClip d.target before c after)
    (valid : c.Valid)
    (begun : Scalar.isFinite d.origin = true)
    (speed : Scalar.isFinite d.speed = true)
    {earlier : List (Extended × Nat)}
    {pixels : Extended}
    {now : Nat}
    (finite : ∀ moved ∈ earlier ++ [(pixels, now)], Scalar.isFinite moved.1 = true)
    (supply : IdSupply) :
    ∃ next, t.apply supply (d.command (d.value pixels)) = .ok (next, supply) ∧
      t.applyAll supply (d.released (earlier ++ [(pixels, now)])) = .ok (next, supply) := by
  refine applyAll_released_absorbing speed (fun v => (apply_clip place supply v).1) ?_ finite
  intro u v _ isFinite
  have moved := (apply_clip (apply_clip place supply u).2 supply v).1
  rwa [moveClip_moveClip valid u (isFinite.trans begun)] at moved

/-- A whole drag of an overlay leaves what its last movement alone would leave. -/
theorem applyAll_released_overlay
    {t : Timeline Extended}
    {before after : List (Overlay Extended)}
    {o : Overlay Extended}
    (place : t.HasOverlay d.target before o after)
    (held : d.handle ≠ .leftEdge)
    (speed : Scalar.isFinite d.speed = true)
    {earlier : List (Extended × Nat)}
    {pixels : Extended}
    {now : Nat}
    (finite : ∀ moved ∈ earlier ++ [(pixels, now)], Scalar.isFinite moved.1 = true)
    (supply : IdSupply) :
    ∃ next, t.apply supply (d.command (d.value pixels)) = .ok (next, supply) ∧
      t.applyAll supply (d.released (earlier ++ [(pixels, now)])) = .ok (next, supply) := by
  refine applyAll_released_absorbing speed (fun v => (apply_overlay held place supply v).1) ?_ finite
  intro u v first second
  have moved := (apply_overlay held (apply_overlay held place supply u).2 supply v).1
  rwa [moveOverlay_moveOverlay o (first.trans second.symm)] at moved

/-- A clip within its bounds is dragged from a finite value at a finite speed. -/
theorem grip_clip_finite {c : Clip Extended} (valid : c.Valid) (handle : Handle) :
    Scalar.isFinite (grip (.clip c) handle).2.1 = true ∧
      Scalar.isFinite (grip (.clip c) handle).2.2 = true := by
  obtain ⟨w, times, -, bounded⟩ := valid.timed
  cases handle with
  | body => exact ⟨by simp [grip, Element.span, times.start], rfl⟩
  | leftEdge => exact ⟨by simp [grip, times.sourceIn], by simp [grip, times.speed bounded.span_pos]⟩
  | rightEdge => exact ⟨by simp [grip, Element.span, times.stop], rfl⟩

/-- An overlay is dragged by its body or its right edge, at the speed of the timeline. -/
theorem grip_text (o : Overlay Extended) (handle : Handle) :
    (grip (.text o) handle).1 ≠ .leftEdge ∧
      Scalar.isFinite (grip (.text o) handle).2.2 = true := by
  cases handle with
  | body | leftEdge | rightEdge => exact ⟨Handle.noConfusion, rfl⟩

/-- All commands that a drag releases on the way and at its end leave the timeline that the one command
of its last movement leaves. -/
theorem applyAll_released
    {t : Timeline Extended}
    {target : Identity}
    {element : Element Extended}
    (found : t.element? target = some element)
    (valid : ∀ c, element = .clip c → c.Valid)
    (handle : Handle)
    (zoom : Zoom Extended)
    (rate : Nat)
    {earlier : List (Extended × Nat)}
    {pixels : Extended}
    {now : Nat}
    (finite : ∀ moved ∈ earlier ++ [(pixels, now)], Scalar.isFinite moved.1 = true)
    (supply : IdSupply) :
    ∃ drag next, start t target handle zoom rate = .ok drag ∧
      t.apply supply (drag.command (drag.value pixels)) = .ok (next, supply) ∧
      t.applyAll supply (drag.released (earlier ++ [(pixels, now)])) = .ok (next, supply) := by
  refine ⟨ofElement target element handle zoom rate, ?_⟩
  rw [start_eq found]
  rcases Timeline.element?_eq_some found with ⟨c, rfl, isClip⟩ | ⟨o, rfl, noClip, isOverlay⟩
  · obtain ⟨before, after, place⟩ := Timeline.exists_hasClip isClip
    obtain ⟨begun, speed⟩ := grip_clip_finite (valid c rfl) handle
    obtain ⟨next, single, whole⟩ := applyAll_released_clip
      (d := ofElement target (.clip c) handle zoom rate) place (valid c rfl) begun speed finite supply
    exact ⟨next, rfl, single, whole⟩
  · obtain ⟨before, after, place⟩ := Timeline.exists_hasOverlay noClip isOverlay
    obtain ⟨held, speed⟩ := grip_text o handle
    obtain ⟨next, single, whole⟩ := applyAll_released_overlay
      (d := ofElement target (.text o) handle zoom rate) place held speed finite supply
    exact ⟨next, rfl, single, whole⟩

/-- The left edge of a film is dragged beyond its end and back; the throttle holds two of the three
movements back. -/
theorem applyAll_released_film :
    ∃ drag next,
      start ({ Timeline.empty with clips := [Timeline.film] } : Timeline Extended) Timeline.film.id
          .leftEdge ⟨100, by decide +kernel⟩ 60 = .ok drag ∧
        ({ Timeline.empty with clips := [Timeline.film] } : Timeline Extended).apply (.ofSeed 1)
          (drag.command (drag.value 300)) = .ok (next, .ofSeed 1) ∧
        ({ Timeline.empty with clips := [Timeline.film] } : Timeline Extended).applyAll (.ofSeed 1)
          (drag.released ([(5000, 0), (200, 1)] ++ [(300, 2)])) = .ok (next, .ofSeed 1) := by
  have found : ({ Timeline.empty with clips := [Timeline.film] } : Timeline Extended).element?
      Timeline.film.id = some (.clip Timeline.film) := rfl
  refine applyAll_released found ?_ .leftEdge _ 60 (by decide +kernel) (.ofSeed 1)
  rintro c isFilm
  cases isFilm
  exact Clip.ofAsset_valid _ _ _ _ _ _

end Drag

end Montage
