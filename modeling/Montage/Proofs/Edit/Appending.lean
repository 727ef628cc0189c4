import Montage.Proofs.Edit.Outcome
import Montage.Proofs.Number.Exact
import Montage.Proofs.Number.Faithful

/-!
Contract: appended elements follow one another without gaps and without overlaps.

Owns:
- stretches of the timeline that are laid end to end, and the latest end of such;
- where an appended element is put, and what it keeps of its own;
- that a run of appending commands lays the clips of each kind end to end, and the overlays too.

Does **not** own: what appending does to the bounds of an element (`Montage.Proofs.Clip.Parts`).

An element is put at the largest end of those it follows. Where these are laid end to end, the largest end is
the one that was reached last, so that the order of the commands is that of the stretches.
-/

set_option autoImplicit false

namespace Montage

open Extended

/-! ## Stretches of the timeline -/

/-- Where something starts and where it ends. -/
abbrev Stretch := Extended × Extended

namespace Stretch

def length (s : Stretch) : Extended := s.2 - s.1

/-- Some position lies in both; the end of a stretch is no position of it. -/
def Overlaps (s r : Stretch) : Prop :=
  ∃ position, (s.1 ≤ position ∧ position < s.2) ∧ r.1 ≤ position ∧ position < r.2

/-- Stretches without gaps and overlaps: the first one starts at a given time and each other one where the
one before it ends. -/
def EndToEnd (start : Extended) : List Stretch → Prop
  | [] => True
  | s :: rest => s.1 = start ∧ s.1 ≤ s.2 ∧ EndToEnd s.2 rest

/-- A stretch of a given length that starts at the latest end of others, or at zero. -/
def behind (others : List Stretch) (length : Extended) : Stretch :=
  (Timeline.latestEnd (others.map Prod.snd), Timeline.latestEnd (others.map Prod.snd) + length)

/-- The end of the last stretch. -/
def reach (start : Extended) : List Stretch → Extended
  | [] => start
  | s :: rest => reach s.2 rest

variable {start stop : Extended} {stretches : List Stretch} {s r : Stretch}

theorem not_overlaps_of_le (after : s.2 ≤ r.1) : ¬ s.Overlaps r := by
  intro overlap
  obtain ⟨position, ⟨-, before⟩, from_, -⟩ := overlap
  have late : s.2 ≤ position := atMost_trans after from_
  obtain ⟨stopNumber, positionNumber⟩ := ne_nan_of_le late
  exact (not_le_iff_lt positionNumber stopNumber).mpr before late

theorem Overlaps.isNaN_stop (overlap : s.Overlaps r) : Scalar.isNaN s.2 = false := by
  obtain ⟨position, ⟨-, before⟩, -⟩ := overlap
  exact (Scalar.isNaN_of_le (Extended.le_of_lt before)).2

/-- What is not below something is a number, and so not below itself. -/
theorem le_self_of_le (ordered : start ≤ stop) : stop ≤ stop :=
  Scalar.le_refl_of_isNaN (Scalar.isNaN_of_le ordered).2

theorem max_eq_right_of_le (ordered : start ≤ stop) : Scalar.max start stop = stop := by
  have number : Scalar.isNaN start = false := (Scalar.isNaN_of_le ordered).1
  obtain ⟨⟨-, isEither⟩, above⟩ := Scalar.max_isGreatest number stop
  rcases isEither with isStart | isStop
  · have reached : stop ≤ Scalar.max start stop :=
      above ⟨(Scalar.isNaN_of_le ordered).2, Or.inr rfl⟩
    rw [isStart] at reached ⊢
    exact atMost_antisymm ordered reached
  · exact isStop

/-- The largest end of stretches that are laid end to end is the end of the last one. -/
theorem EndToEnd.foldl_max (laid : EndToEnd start stretches) :
    (stretches.map Prod.snd).foldl Scalar.max start = reach start stretches := by
  induction stretches generalizing start with
  | nil => rfl
  | cons s rest inductionHypothesis =>
      obtain ⟨rfl, ordered, laidRest⟩ := laid
      -- No end is before the one it follows, so the fold takes each new one.
      rw [List.map_cons, List.foldl_cons, max_eq_right_of_le ordered]
      exact inductionHypothesis laidRest

theorem EndToEnd.concat (laid : EndToEnd start stretches)
    (forward : reach start stretches ≤ stop) :
    EndToEnd start (stretches ++ [(reach start stretches, stop)]) := by
  induction stretches generalizing start with
  | nil => exact ⟨rfl, forward, trivial⟩
  | cons s rest inductionHypothesis =>
      obtain ⟨isStart, ordered, laidRest⟩ := laid
      exact ⟨isStart, ordered, inductionHypothesis laidRest forward⟩

theorem EndToEnd.le_start (laid : EndToEnd start stretches) (number : start ≤ start) :
    ∀ s ∈ stretches, start ≤ s.1 := by
  induction stretches generalizing start with
  | nil => exact fun s member => absurd member List.not_mem_nil
  | cons s rest inductionHypothesis =>
      obtain ⟨rfl, ordered, laidRest⟩ := laid
      intro r member
      rcases List.mem_cons.mp member with rfl | later
      · exact number
      · exact atMost_trans ordered (inductionHypothesis laidRest (le_self_of_le ordered) r later)

theorem EndToEnd.apart (laid : EndToEnd start stretches) :
    stretches.Pairwise fun s r => ¬ s.Overlaps r := by
  induction stretches generalizing start with
  | nil => exact List.Pairwise.nil
  | cons s rest inductionHypothesis =>
      obtain ⟨rfl, ordered, laidRest⟩ := laid
      refine List.Pairwise.cons (fun r later => ?_) (inductionHypothesis laidRest)
      exact not_overlaps_of_le (laidRest.le_start (le_self_of_le ordered) r later)

theorem le_add_of_pos {time length : Extended} (begun : 0 ≤ time) (positive : 0 < length) :
    time ≤ time + length := by
  rw [zero_eq] at begun positive
  rcases (fin_le_iff 0 time).mp begun with rfl | ⟨q, rfl, -⟩
  · rcases (fin_le_iff 0 length).mp (Extended.le_of_lt positive) with rfl | ⟨r, rfl, -⟩ <;> rfl
  · rcases (fin_le_iff 0 length).mp (Extended.le_of_lt positive) with rfl | ⟨r, rfl, nonnegative⟩
    · rfl
    · rw [fin_add_fin, fin_le_fin]
      exact le_add_of_nonneg_right nonnegative

theorem EndToEnd.le_reach (laid : EndToEnd start stretches) (number : start ≤ start) :
    start ≤ reach start stretches := by
  induction stretches generalizing start with
  | nil => exact number
  | cons s rest inductionHypothesis =>
      obtain ⟨rfl, ordered, laidRest⟩ := laid
      exact atMost_trans ordered (inductionHypothesis laidRest (le_self_of_le ordered))

theorem EndToEnd.append_behind (laid : EndToEnd 0 stretches) {length : Extended}
    (positive : 0 < length) : EndToEnd 0 (stretches ++ [behind stretches length]) := by
  have latest : Timeline.latestEnd (stretches.map Prod.snd) = reach 0 stretches := laid.foldl_max
  have begun : 0 ≤ reach 0 stretches := laid.le_reach (by decide +kernel)
  rw [behind, latest]
  exact laid.concat (le_add_of_pos begun positive)

theorem latestEnd_isGreatest (stretches : List Stretch) :
    IsGreatest {x | Scalar.isNaN x = false ∧ x ∈ 0 :: stretches.map Prod.snd}
      (Timeline.latestEnd (stretches.map Prod.snd)) :=
  Scalar.foldl_max_isGreatest_of_isNaN _ (by decide +kernel)

/-- The latest of some ends is finite unless one of them is infinite. -/
theorem exists_latestEnd (bounded : ∀ s ∈ stretches, s.2 ≠ posInf) :
    ∃ q, Timeline.latestEnd (stretches.map Prod.snd) = fin q := by
  obtain ⟨⟨-, isOne⟩, above⟩ := latestEnd_isGreatest stretches
  have begun : fin 0 ≤ Timeline.latestEnd (stretches.map Prod.snd) := by
    rw [← zero_eq]
    exact above ⟨by decide +kernel, List.mem_cons_self⟩
  rcases (fin_le_iff _ _).mp begun with infinite | ⟨q, isFinite, -⟩
  · rw [infinite, zero_eq] at isOne
    rcases List.mem_cons.mp isOne with isZero | isEnd
    · cases isZero
    · obtain ⟨s, member, isInfinite⟩ := List.mem_map.mp isEnd
      exact absurd isInfinite (bounded s member)
  · exact ⟨q, isFinite⟩

end Stretch

/-! ## One element -/

/-- A stretch is put behind others: it starts where the latest of them ends, or at zero, overlaps with none of
them, and has the length it had before, unless there is nothing behind them because one ends at infinity. -/
structure PutBehind (others : List Stretch) (own placed : Stretch) : Prop where
  latest : IsGreatest {x | Scalar.isNaN x = false ∧ x ∈ 0 :: others.map Prod.snd} placed.1
  apart : ∀ other ∈ others, ¬ other.Overlaps placed
  length : (∀ other ∈ others, other.2 ≠ posInf) → placed.length = own.length

theorem putBehind_behind (others : List Stretch) (own : Stretch) :
    PutBehind others own (Stretch.behind others own.length) := by
  constructor
  case latest => exact Stretch.latestEnd_isGreatest others
  case apart =>
    intro other member overlap
    have among : other.2 ∈ 0 :: others.map Prod.snd :=
      List.mem_cons_of_mem _ (List.mem_map_of_mem member)
    have ended := (Stretch.latestEnd_isGreatest others).2 ⟨overlap.isNaN_stop, among⟩
    exact Stretch.not_overlaps_of_le ended overlap
  case length =>
    intro bounded
    obtain ⟨q, isStart⟩ := Stretch.exists_latestEnd bounded
    rw [Stretch.behind, isStart]
    exact fin_add_sub_fin q own.length

namespace Clip

def stretch (c : Clip Extended) : Stretch := (c.timelineStart, c.timelineEnd)

/-- A clip as it was, source window and all, from another start on. -/
def IsPlaced (c placed : Clip Extended) : Prop :=
  placed = { c with
    timelineStart := placed.timelineStart
    timelineEnd := placed.timelineStart + c.timelineSpan }

/-- A clip that is put behind others at the speed it had before. -/
structure FollowsOn (others : List (Clip Extended)) (c placed : Clip Extended) : Prop where
  kept : c.IsPlaced placed
  place : PutBehind (others.map stretch) c.stretch placed.stretch
  speed : (∀ d ∈ others, d.timelineEnd ≠ posInf) → placed.speed = c.speed

/-- The speed of a clip hangs on the length of its placement, not on where it is. -/
theorem IsPlaced.speed_eq {c placed : Clip Extended} (isPlaced : c.IsPlaced placed)
    (length : placed.timelineSpan = c.timelineSpan) : placed.speed = c.speed := by
  have window : placed.sourceSpan = c.sourceSpan := by
    rw [isPlaced]
    rfl
  rw [speed, speed, length, window]

end Clip

namespace Overlay

def stretch (o : Overlay Extended) : Stretch := (o.timelineStart, o.timelineEnd)

/-- An overlay as it was, from another start on. -/
def IsPlaced (o placed : Overlay Extended) : Prop :=
  placed = { o with
    timelineStart := placed.timelineStart
    timelineEnd := placed.timelineStart + o.timelineSpan }

structure FollowsOn (others : List (Overlay Extended)) (o placed : Overlay Extended) : Prop where
  kept : o.IsPlaced placed
  place : PutBehind (others.map stretch) o.stretch placed.stretch

end Overlay

namespace Timeline

variable {t : Timeline Extended}

/-- The clips of a kind, in storage order. -/
def ofKind (t : Timeline Extended) (kind : MediaKind) : List (Clip Extended) :=
  t.clips.filter fun c => c.kind == kind

theorem appendedClip_stretch (t : Timeline Extended) (c : Clip Extended) :
    (t.appendedClip c).stretch =
      Stretch.behind ((t.ofKind c.kind).map Clip.stretch) c.timelineSpan := by
  rw [Stretch.behind, List.map_map]
  rfl

theorem appendedOverlay_stretch (t : Timeline Extended) (o : Overlay Extended) :
    (t.appendedOverlay o).stretch =
      Stretch.behind (t.overlays.map Overlay.stretch) o.timelineSpan := by
  rw [Stretch.behind, List.map_map]
  rfl

theorem appendedClip_followsOn (t : Timeline Extended) (c : Clip Extended) :
    c.FollowsOn (t.ofKind c.kind) (t.appendedClip c) := by
  have kept : c.IsPlaced (t.appendedClip c) := rfl
  have place : PutBehind ((t.ofKind c.kind).map Clip.stretch) c.stretch
      (t.appendedClip c).stretch := by
    rw [appendedClip_stretch]
    exact putBehind_behind _ c.stretch
  refine ⟨kept, place, fun bounded => kept.speed_eq (place.length ?_)⟩
  intro other member
  obtain ⟨d, isClip, rfl⟩ := List.mem_map.mp member
  exact bounded d isClip

theorem appendedOverlay_followsOn (t : Timeline Extended) (o : Overlay Extended) :
    o.FollowsOn t.overlays (t.appendedOverlay o) := by
  refine ⟨rfl, ?_⟩
  rw [appendedOverlay_stretch]
  exact putBehind_behind _ o.stretch

/-! ## Runs -/

/-- The clips of each kind are laid end to end from zero on, and so are the overlays. -/
structure LaidOut (t : Timeline Extended) : Prop where
  clips : ∀ kind, Stretch.EndToEnd 0 ((t.ofKind kind).map Clip.stretch)
  overlays : Stretch.EndToEnd 0 (t.overlays.map Overlay.stretch)

theorem empty_laidOut : (empty : Timeline Extended).LaidOut := ⟨fun _ => trivial, trivial⟩

theorem LaidOut.addClip (laid : t.LaidOut) {c : Clip Extended} (positive : 0 < c.timelineSpan) :
    (t.addClip c).LaidOut := by
  refine ⟨fun kind => ?_, laid.overlays⟩
  have clips : (t.addClip c).ofKind kind =
      t.ofKind kind ++ if c.kind = kind then [t.appendedClip c] else [] := by
    have isKind : (t.appendedClip c).kind = c.kind := rfl
    show (t.clips ++ [t.appendedClip c]).filter (fun d => d.kind == kind) = _
    rw [List.filter_append]
    simp only [List.filter_cons, isKind, beq_iff_eq, List.filter_nil]
    rfl
  rw [clips]
  by_cases same : c.kind = kind
  · subst same
    rw [if_pos rfl, List.map_append, List.map_singleton, appendedClip_stretch]
    exact (laid.clips c.kind).append_behind positive
  · rw [if_neg same, List.append_nil]
    exact laid.clips kind

theorem LaidOut.addText (laid : t.LaidOut) {o : Overlay Extended} (positive : 0 < o.timelineSpan) :
    (t.addText o).LaidOut := by
  refine ⟨laid.clips, ?_⟩
  have overlays : (t.addText o).overlays = t.overlays ++ [t.appendedOverlay o] := rfl
  rw [overlays, List.map_append, List.map_singleton, appendedOverlay_stretch]
  exact laid.overlays.append_behind positive

end Timeline

namespace Command

/-- A command that appends an element of positive length. -/
def Appends : Command Extended → Prop
  | .addClip c => 0 < c.timelineSpan
  | .addText o => 0 < o.timelineSpan
  | _ => False

def newClip? : Command Extended → Option (Clip Extended)
  | .addClip c => some c
  | _ => none

def newText? : Command Extended → Option (Overlay Extended)
  | .addText o => some o
  | _ => none

end Command

namespace Timeline

variable {t : Timeline Extended}

/-- Appending commands are accepted, put their elements behind those of the timeline in the order in which they
come, and keep what is laid out so. -/
theorem LaidOut.applyAll (laid : t.LaidOut) (supply : IdSupply) {commands : List (Command Extended)}
    (appending : ∀ command ∈ commands, command.Appends) :
    ∃ next clips overlays, t.applyAll supply commands = .ok (next, supply) ∧ next.LaidOut ∧
      next.clips = t.clips ++ clips ∧ next.overlays = t.overlays ++ overlays ∧
      List.Forall₂ Clip.IsPlaced (commands.filterMap Command.newClip?) clips ∧
      List.Forall₂ Overlay.IsPlaced (commands.filterMap Command.newText?) overlays := by
  induction commands generalizing t with
  | nil =>
      exact ⟨t, [], [], rfl, laid, (List.append_nil _).symm, (List.append_nil _).symm, .nil, .nil⟩
  | cons command rest inductionHypothesis =>
      obtain ⟨appends, appendingRest⟩ := List.forall_mem_cons.mp appending
      -- What is put first stands before all that the rest puts, so the order is that of the commands.
      cases command with
      | addClip c =>
          obtain ⟨next, clips, overlays, ran, laidNext, isClips, isOverlays, placedClips, placedTexts⟩ :=
            inductionHypothesis (laid.addClip appends) appendingRest
          refine ⟨next, t.appendedClip c :: clips, overlays, ran, laidNext, ?_, isOverlays,
            .cons rfl placedClips, placedTexts⟩
          exact isClips.trans (List.append_assoc t.clips [t.appendedClip c] clips)
      | addText o =>
          obtain ⟨next, clips, overlays, ran, laidNext, isClips, isOverlays, placedClips, placedTexts⟩ :=
            inductionHypothesis (laid.addText appends) appendingRest
          refine ⟨next, clips, t.appendedOverlay o :: overlays, ran, laidNext, isClips, ?_,
            placedClips, .cons rfl placedTexts⟩
          exact isOverlays.trans (List.append_assoc t.overlays [t.appendedOverlay o] overlays)
      | _ => exact appends.elim

/-- No two clips of one kind overlap, and no two overlays. -/
structure KeepsApart (t : Timeline Extended) : Prop where
  clips : ∀ kind, ((t.ofKind kind).map Clip.stretch).Pairwise fun s r => ¬ s.Overlaps r
  overlays : (t.overlays.map Overlay.stretch).Pairwise fun s r => ¬ s.Overlaps r

theorem LaidOut.keepsApart (laid : t.LaidOut) : t.KeepsApart :=
  ⟨fun kind => (laid.clips kind).apart, laid.overlays.apart⟩

/-- A clip is appended behind the clips of its kind and an overlay behind the overlays, in every timeline. A
run that only appends elements of positive length to the empty timeline is accepted; it leaves the elements in
the order in which they came, those of each kind end to end from zero on. -/
theorem appended_endToEnd (t : Timeline Extended) (supply : IdSupply) (c : Clip Extended)
    (o : Overlay Extended) {commands : List (Command Extended)}
    (appending : ∀ command ∈ commands, command.Appends) :
    (∃ placed, t.apply supply (.addClip c) =
        .ok ({ t with clips := t.clips ++ [placed] }, supply) ∧
      c.FollowsOn (t.ofKind c.kind) placed) ∧
    (∃ placed, t.apply supply (.addText o) =
        .ok ({ t with overlays := t.overlays ++ [placed] }, supply) ∧
      o.FollowsOn t.overlays placed) ∧
    ∃ next, empty.applyAll supply commands = .ok (next, supply) ∧
      List.Forall₂ Clip.IsPlaced (commands.filterMap Command.newClip?) next.clips ∧
      List.Forall₂ Overlay.IsPlaced (commands.filterMap Command.newText?) next.overlays ∧
      next.LaidOut ∧ next.KeepsApart := by
  refine ⟨⟨t.appendedClip c, rfl, t.appendedClip_followsOn c⟩,
    ⟨t.appendedOverlay o, rfl, t.appendedOverlay_followsOn o⟩, ?_⟩
  obtain ⟨next, clips, overlays, ran, laid, isClips, isOverlays, placedClips, placedTexts⟩ :=
    empty_laidOut.applyAll supply appending
  obtain rfl : next.clips = clips := isClips
  obtain rfl : next.overlays = overlays := isOverlays
  exact ⟨next, ran, placedClips, placedTexts, laid, laid.keepsApart⟩

/-- A film, music and a caption, then another film and another caption. -/
def medley : List (Command Extended) :=
  [.addClip (.ofAsset ⟨1⟩ "film" .video "film.mp4" (some 4) 7),
    .addClip (.ofAsset ⟨2⟩ "music" .audio "music.mp3" (some 5) 0),
    .addText (.ofText ⟨3⟩ "first" 2),
    .addClip (.ofAsset ⟨4⟩ "film" .video "film.mp4" (some 3) 1),
    .addText (.ofText ⟨5⟩ "second" 2)]

theorem medley_endToEnd :
    (∀ command ∈ medley, command.Appends) ∧
      ∃ next, empty.applyAll (.ofSeed 1) medley = .ok (next, .ofSeed 1) ∧
        next.LaidOut ∧ next.KeepsApart := by
  have appending : ∀ command ∈ medley, command.Appends := by
    simp only [medley, List.forall_mem_cons, Command.Appends]
    refine ⟨?_, ?_, ?_, ?_, ?_, List.forall_mem_nil _⟩ <;> decide +kernel
  obtain ⟨-, -, next, ran, -, -, laid, apart⟩ :=
    appended_endToEnd empty (.ofSeed 1) (.ofAsset ⟨6⟩ "film" .video "film.mp4" none 0)
      (.ofText ⟨7⟩ "third" 0) appending
  exact ⟨appending, next, ran, laid, apart⟩

end Timeline

end Montage
