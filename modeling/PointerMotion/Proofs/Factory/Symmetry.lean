import PointerMotion.Proofs.Factory.PinchEnds
import PointerMotion.Proofs.Factory.PinchReversal
import PointerMotion.Proofs.Geometry.Isometry
import PointerMotion.Proofs.Gesture.Correspondence

/-!
# The symmetries of the gestures over an area

An exchange of the axes takes a swipe to the left to a swipe up, and one to the right to one down,
for the same reason in every step: what `Rect.swipeEnds` computes on one axis it computes on the
other, and in the same order.  So the outcomes agree also where there is a failure
(`Rect.swipeEnds_transpose`).

A pinch looks at both axes, one before the other, and its finger at the bottom left is at the top
right after an exchange of the axes.  So the fingers change places, and what agrees is which pinches
are answered, and by which gestures (`PinchPath.over_transpose_eq_ok`).  Where both axes fail,
the failures need not be the same.

A mirror along the axis of a swipe turns the swipe around.  It does not keep failures: a way toward
smaller coordinates is turned around before it is added, which the way of the mirror image is not.
Where both are answered, the gestures are mirror images of each other.
-/

namespace PointerMotion

/-! ## The ends of a swipe -/

namespace Direction

@[simp] theorem opposite_transpose (d : Direction) :
    d.transpose.opposite = d.opposite.transpose := by
  cases d <;> rfl

@[simp] theorem ahead_transpose (d : Direction) (way : Coord) :
    d.transpose.ahead way = d.ahead way := by
  cases d <;> rfl

end Direction

namespace Point

@[simp] theorem ofAxes_transpose (a c : Coord) (d : Direction) :
    ofAxes a c d.transpose = (ofAxes a c d).transpose := by
  cases d <;> rfl

/-- The sum on the other axis cannot fail. -/
theorem offset_zero_right (p : Point) (way : Coord) :
    p.offset way 0 = (⟨·, p.y⟩) <$> p.x.add way := by
  have hzero : p.y.add 0 = .ok p.y := Coord.checked_eq_ok_iff.2 (Int.add_zero _).symm
  rw [offset, hzero]
  cases p.x.add way with
  | error e => rfl
  | ok x => rfl

theorem offset_zero_left (p : Point) (way : Coord) :
    p.offset 0 way = (⟨p.x, ·⟩) <$> p.y.add way := by
  have hzero : p.x.add 0 = .ok p.x := Coord.checked_eq_ok_iff.2 (Int.add_zero _).symm
  rw [offset, hzero]
  cases p.y.add way with
  | error e => rfl
  | ok y => rfl

theorem shift_transpose (p : Point) (way : Coord) (d : Direction) :
    p.transpose.shift way d.transpose = transpose <$> p.shift way d := by
  cases d with
  | left | right =>
    change p.transpose.offset 0 way = transpose <$> p.offset way 0
    rw [offset_zero_left, offset_zero_right, Functor.map_map]
    rfl
  | up | down =>
    change p.transpose.offset way 0 = transpose <$> p.offset 0 way
    rw [offset_zero_left, offset_zero_right, Functor.map_map]
    rfl

end Point

namespace Rect

variable (area : Rect) (d : Direction) (percent : Single)

@[simp] theorem edge_transpose : area.transpose.edge d.transpose = area.edge d := by
  cases d <;> rfl

@[simp] theorem extent_transpose : area.transpose.extent d.transpose = area.extent d := by
  cases d <;> rfl

@[simp] theorem middle_transpose : area.transpose.middle d.transpose = area.middle d := by
  cases d <;> rfl

/-- **An exchange of the axes exchanges the coordinates of the ends**, and keeps failures. -/
theorem swipeEnds_transpose : area.transpose.swipeEnds d.transpose percent =
    Prod.map Point.transpose Point.transpose <$> area.swipeEnds d percent := by
  rw [swipeEnds_eq, swipeEnds_eq]
  simp only [Direction.opposite_transpose, edge_transpose, middle_transpose, extent_transpose,
    Direction.ahead_transpose, Point.ofAxes_transpose, Point.shift_transpose, map_bind,
    bind_map_left, map_pure, Prod.map_apply]

variable {area d percent} {area' : Rect}

theorem IsMirror.extent_eq (h : area.IsMirror d area') :
    area'.extent d.opposite = area.extent d := by
  cases d with
  | left | right =>
    obtain ⟨hleft, hright, -, -⟩ := h
    change area'.width = area.width
    rw [width, width, Coord.sub, Coord.sub, hleft, hright, neg_sub_neg]
  | up | down =>
    obtain ⟨-, -, htop, hbottom⟩ := h
    change area'.height = area.height
    rw [height, height, Coord.sub, Coord.sub, htop, hbottom, neg_sub_neg]

/-- Swipes of the same way, in opposite directions over mirror images, have mirrored ends. -/
theorem IsMirror.isMirror_ends {way : Int} {p q p' q' : Point} (h : area.IsMirror d area')
    (hswipe : area.IsSwipe d way p q) (hswipe' : area'.IsSwipe d.opposite way p' q') :
    p.IsMirror d p' ∧ q.IsMirror d q' := by
  obtain ⟨hbegins, hmiddle, hreaches, hstraight⟩ := hswipe
  obtain ⟨hbegins', hmiddle', hreaches', hstraight'⟩ := hswipe'
  cases d <;>
    simp only [Point.IsMirror, IsMirror, Point.along, Point.across, edge, crossSum,
      Direction.opposite, Direction.sign, Coord.ext_iff] at * <;>
    omega

/-- **A mirror turns a swipe around**, if both swipes have their ends. -/
theorem IsMirror.swipeEnds {p q p' q' : Point} (h : area.IsMirror d area')
    (hends : area.swipeEnds d percent = .ok (p, q))
    (hends' : area'.swipeEnds d.opposite percent = .ok (p', q')) :
    p.IsMirror d p' ∧ q.IsMirror d q' := by
  obtain ⟨-, extent, hextent, -, hswipe⟩ := swipeEnds_eq_ok_iff.1 hends
  obtain ⟨-, extent', hextent', -, hswipe'⟩ := swipeEnds_eq_ok_iff.1 hends'
  obtain rfl : extent' = extent := by
    rw [h.extent_eq, hextent] at hextent'
    exact (Except.ok.inj hextent').symm
  exact h.isMirror_ends hswipe hswipe'

end Rect

/-! ## The paths of a pinch -/

namespace PinchPath

/-- The paths with their axes exchanged; the fingers change places. -/
def transpose (path : PinchPath) : PinchPath where
  bottomLeft := ⟨path.topRight.outer.transpose, path.topRight.inner.transpose⟩
  topRight := ⟨path.bottomLeft.outer.transpose, path.bottomLeft.inner.transpose⟩

variable {area : Rect} {percent : Single} {path : PinchPath} {dx dy : Int}

theorem IsPinch.transpose (h : path.IsPinch area dx dy) :
    path.transpose.IsPinch area.transpose dy dx := by
  obtain ⟨hl, hb, hr, ht, hpx, hpy, hqx, hqy⟩ := h
  exact ⟨ht, hr, hb, hl, hqy, hqx, hpy, hpx⟩

/-- **An exchange of the axes exchanges the fingers.** -/
theorem over_transpose_eq_ok (h : PinchPath.over area percent = .ok path) :
    PinchPath.over area.transpose percent = .ok path.transpose := by
  obtain ⟨width, height, dx, dy, hx, hy, hback, hup, hpinch⟩ := over_eq_ok_iff.1 h
  exact over_eq_ok_iff.2 ⟨height, width, dy, dx, hy, hx, hup, hback, hpinch.transpose⟩

end PinchPath

/-! ## Gestures -/

/-- The action with the coordinates of its points exchanged. -/
def Action.transpose : Action → Action
  | pause p d => pause p.transpose d
  | move p q d => move p.transpose q.transpose d

/-- The gesture with the coordinates of its points exchanged. -/
def Gesture.transpose (g : Gesture) : Gesture where
  start := g.start.transpose
  delay := g.delay
  actions := g.actions.map Action.transpose

theorem Action.transpose_transpose (a : Action) : a.transpose.transpose = a := by
  cases a <;> rfl

theorem Gesture.transpose_transpose (g : Gesture) : g.transpose.transpose = g := by
  have hactions : (g.actions.map Action.transpose).map Action.transpose = g.actions := by
    rw [List.map_map, List.map_congr_left fun a _ => a.transpose_transpose, List.map_id']
  rw [Gesture.transpose, Gesture.transpose, hactions]
  rfl

/-- Gestures in the opposite order, with the coordinates of their points exchanged. -/
def Gesture.transposed (gestures : List Gesture) : List Gesture :=
  gestures.reverse.map transpose

theorem Gesture.transposed_transposed (gestures : List Gesture) :
    transposed (transposed gestures) = gestures := by
  rw [transposed, transposed, ← List.map_reverse, List.reverse_reverse, List.map_map,
    List.map_congr_left fun g _ => g.transpose_transpose, List.map_id']

namespace Factory

variable (f : Factory)

/-- **A swipe between transposed points is the transposed swipe**: it is as long. -/
theorem swipe_transpose (p q : Point) (speed : UInt32) :
    (f.swipe p.transpose q.transpose speed).value = (f.swipe p q speed).value.transpose := by
  rw [swipe_value_eq, swipe_value_eq, Point.distance_transpose]
  rfl

/-- An exchange of the axes exchanges the axes of the answer, or keeps the failure. -/
theorem swipeOver_transpose (area : Rect) (d : Direction) (percent : Single) (speed : UInt32) :
    (f.perform (.swipeOver area.transpose d.transpose percent speed)).outcome =
      (f.perform (.swipeOver area d percent speed)).outcome.map
        (List.map Gesture.transpose) := by
  rw [perform, perform, Traced.outcome_bind, Traced.outcome_bind, swipeOver_outcome,
    swipeOver_outcome, Rect.swipeEnds_transpose]
  cases area.swipeEnds d percent with
  | error e => rfl
  | ok ends =>
    have hswipe := f.swipe_transpose ends.1 ends.2 speed
    exact congrArg (fun g => Except.ok [g]) hswipe

variable {area : Rect} {percent : Single} {speed : UInt32} {gestures : List Gesture}

theorem pinchClose_transpose
    (h : (f.perform (.pinchClose area percent speed)).outcome = .ok gestures) :
    (f.perform (.pinchClose area.transpose percent speed)).outcome =
      .ok (Gesture.transposed gestures) := by
  obtain ⟨path, hpath, rfl⟩ := f.perform_pinchClose_eq_ok_iff.1 h
  refine f.perform_pinchClose_eq_ok_iff.2 ⟨_, PinchPath.over_transpose_eq_ok hpath, ?_⟩
  dsimp only [PinchPath.transpose]
  rw [swipe_transpose, swipe_transpose]
  rfl

theorem pinchOpen_transpose
    (h : (f.perform (.pinchOpen area percent speed)).outcome = .ok gestures) :
    (f.perform (.pinchOpen area.transpose percent speed)).outcome =
      .ok (Gesture.transposed gestures) := by
  obtain ⟨path, hpath, rfl⟩ := f.perform_pinchOpen_eq_ok_iff.1 h
  refine f.perform_pinchOpen_eq_ok_iff.2 ⟨_, PinchPath.over_transpose_eq_ok hpath, ?_⟩
  dsimp only [PinchPath.transpose]
  rw [swipe_transpose, swipe_transpose]
  rfl

/-- Swipes in opposite directions over mirror images are mirror images of each other. -/
theorem swipeOver_isMirror {area' : Rect} {d : Direction} {gestures' : List Gesture}
    (harea : area.IsMirror d area')
    (h : (f.perform (.swipeOver area d percent speed)).outcome = .ok gestures)
    (h' : (f.perform (.swipeOver area' d.opposite percent speed)).outcome = .ok gestures') :
    List.Forall₂ (Gesture.Corresponds (Point.IsMirror d)) gestures gestures' := by
  obtain ⟨p, q, hends, rfl⟩ := f.perform_swipeOver_eq_ok_iff.1 h
  obtain ⟨p', q', hends', rfl⟩ := f.perform_swipeOver_eq_ok_iff.1 h'
  obtain ⟨hp, hq⟩ := harea.swipeEnds hends hends'
  exact .cons (f.corresponds_swipe hp hq (hp.distance_eq hq) speed) .nil

/-- **The symmetries of the gestures over an area.**  With the axes exchanged, a swipe over the
area is answered by the transposed gesture, or fails in the same way; a pinch is answered if and
only if it is over the area itself, by the transposed gestures, the fingers exchanged.  The swipe in
the opposite direction over the mirror image of the area is the mirror image of the swipe, if both
are answered. -/
theorem perform_symmetries (area : Rect) (percent : Single) (speed : UInt32) :
    (∀ d : Direction, (f.perform (.swipeOver area.transpose d.transpose percent speed)).outcome =
      (f.perform (.swipeOver area d percent speed)).outcome.map
        (List.map Gesture.transpose)) ∧
    (∀ gestures, (f.perform (.pinchClose area percent speed)).outcome = .ok gestures ↔
      (f.perform (.pinchClose area.transpose percent speed)).outcome =
        .ok (Gesture.transposed gestures)) ∧
    (∀ gestures, (f.perform (.pinchOpen area percent speed)).outcome = .ok gestures ↔
      (f.perform (.pinchOpen area.transpose percent speed)).outcome =
        .ok (Gesture.transposed gestures)) ∧
    (∀ (d : Direction) (area' : Rect) (gestures gestures' : List Gesture),
      area.IsMirror d area' →
      (f.perform (.swipeOver area d percent speed)).outcome = .ok gestures →
      (f.perform (.swipeOver area' d.opposite percent speed)).outcome = .ok gestures' →
      List.Forall₂ (Gesture.Corresponds (Point.IsMirror d)) gestures gestures') := by
  refine ⟨fun d => f.swipeOver_transpose area d percent speed, fun gestures => ?_,
    fun gestures => ?_, fun d area' gestures gestures' => f.swipeOver_isMirror⟩
  · refine ⟨f.pinchClose_transpose, fun h => ?_⟩
    have hback := f.pinchClose_transpose h
    rwa [Gesture.transposed_transposed] at hback
  · refine ⟨f.pinchOpen_transpose, fun h => ?_⟩
    have hback := f.pinchOpen_transpose h
    rwa [Gesture.transposed_transposed] at hback

/-- A swipe to the left, one to the right over the mirror image, and one up with the axes
exchanged. -/
theorem perform_symmetries_odd :
    let f : Factory := {}
    let percent : Single := .ofNat .binary32 1
    let area : Rect := ⟨.clamp (-7), .clamp (-9), 4, 4⟩
    let area' : Rect := ⟨.clamp (-4), .clamp (-9), 7, 4⟩
    area.IsMirror .left area' ∧ ∃ g g',
      (f.perform (.swipeOver area .left percent 1)).outcome = .ok [g] ∧
      (f.perform (.swipeOver area' .right percent 1)).outcome = .ok [g'] ∧
      (f.perform (.swipeOver area.transpose .up percent 1)).outcome = .ok [g.transpose] ∧
      g.Corresponds (Point.IsMirror .left) g' := by
  intro f percent area area'
  have harea : area.IsMirror .left area' := ⟨rfl, rfl, rfl, rfl⟩
  have hleft : (f.perform (.swipeOver area .left percent 1)).outcome =
      .ok [(f.swipe ⟨4, .clamp (-3)⟩ ⟨.clamp (-7), .clamp (-3)⟩ 1).value] :=
    f.perform_swipeOver_eq_ok_iff.2 ⟨_, _, by decide +kernel, rfl⟩
  have hright : (f.perform (.swipeOver area' .right percent 1)).outcome =
      .ok [(f.swipe ⟨.clamp (-4), .clamp (-3)⟩ ⟨7, .clamp (-3)⟩ 1).value] :=
    f.perform_swipeOver_eq_ok_iff.2 ⟨_, _, by decide +kernel, rfl⟩
  obtain ⟨htranspose, -, -, hmirror⟩ := f.perform_symmetries area percent 1
  have hup := htranspose .left
  rw [hleft] at hup
  cases hmirror .left area' _ _ harea hleft hright with
  | cons hg hnil => exact ⟨harea, _, _, hleft, hright, hup, hg⟩

end Factory
end PointerMotion
