import PointerMotion.Proofs.Factory.PinchEnds
import PointerMotion.Proofs.Geometry.Isometry
import PointerMotion.Proofs.Gesture.Correspondence
import PointerMotion.Proofs.Gesture.Within

/-!
# Shifted requests have shifted answers

A gesture does not depend on where on the screen it is made: if a request is answered, the shifted
request is answered by the shifted gestures, with the same delays and durations.

Three computations on the way look at positions, and each is safe for a reason of its own.

* Extents are differences of edges, and a shift keeps them, with whatever comes from them.
* The middle between two edges is half of their *sum*, which a shift changes by an even number.
  Halves are rounded down, so the middle moves with the edges also where the sum is odd and
  negative; rounding toward zero would not do.
* Distances are made of rounded coordinates.  A shift keeps them as long as all coordinates are
  within `2 ^ 53`, which is why it is asked of the points of the request and of its answer.  It also
  keeps every sum of two edges in range.
-/

namespace PointerMotion

variable {dx dy : Int}

/-! ## Shifted areas -/

namespace Rect

variable {area area' : Rect} {d : Direction} {percent : Single} {p q p' q' : Point}

/-- Two opposite corners, which have all the edges. -/
def corners (r : Rect) : List Point := [⟨r.left, r.top⟩, ⟨r.right, r.bottom⟩]

theorem IsShift.extent_eq (h : area.IsShift dx dy area') (d : Direction) :
    area'.extent d = area.extent d := by
  cases d with
  | left | right =>
    rw [extent, extent, width, width, Coord.sub, Coord.sub, h.left, h.right,
      Int.add_sub_add_right]
  | up | down =>
    rw [extent, extent, height, height, Coord.sub, Coord.sub, h.top, h.bottom,
      Int.add_sub_add_right]

theorem IsShift.inRange_crossSum (h : area.IsShift dx dy area')
    (hexact : ∀ p ∈ area.corners, p.StaysExact dx dy) (d : Direction) :
    Coord.InRange (area'.crossSum d) := by
  obtain ⟨hl, ht, hr, hb⟩ := h
  simp only [corners, List.forall_mem_cons] at hexact
  obtain ⟨⟨-, -, hlx, hty⟩, ⟨-, -, hrx, hby⟩, -⟩ := hexact
  dsimp only at hlx hty hrx hby
  cases d with
  | left | right =>
    rw [crossSum, ht, hb]
    constructor <;> omega
  | up | down =>
    rw [crossSum, hl, hr]
    constructor <;> omega

/-- The ends of a swipe move with the area. -/
theorem IsSwipe.shift {way : Int} (h : area.IsSwipe d way p q) (harea : area.IsShift dx dy area')
    (hp : p.IsShift dx dy p') (hq : q.IsShift dx dy q') : area'.IsSwipe d way p' q' := by
  obtain ⟨hbegins, hmiddle, hreaches, hstraight⟩ := h
  obtain ⟨hl, ht, hr, hb⟩ := harea
  obtain ⟨hpx, hpy⟩ := hp
  obtain ⟨hqx, hqy⟩ := hq
  rw [Coord.ext_iff] at hbegins hstraight
  cases d <;>
    dsimp only [Point.along, Point.across, edge, crossSum, Direction.opposite] at * <;>
    constructor <;>
    simp only [Coord.ext_iff, Point.along, Point.across, edge, crossSum, Direction.opposite] <;>
    omega

/-- **A swipe over a shifted area has shifted ends.** -/
theorem IsShift.swipeEnds_eq_ok (harea : area.IsShift dx dy area')
    (hexact : ∀ p ∈ area.corners, p.StaysExact dx dy) (hp : p.IsShift dx dy p')
    (hq : q.IsShift dx dy q') (h : area.swipeEnds d percent = .ok (p, q)) :
    area'.swipeEnds d percent = .ok (p', q') := by
  obtain ⟨-, extent, hextent, hway, hswipe⟩ := swipeEnds_eq_ok_iff.1 h
  exact swipeEnds_eq_ok_iff.2 ⟨harea.inRange_crossSum hexact d, extent,
    (harea.extent_eq d).trans hextent, hway, hswipe.shift harea hp hq⟩

end Rect

namespace PinchPath

variable {area area' : Rect} {percent : Single} {path : PinchPath}

/-- The paths whose ends are shifted by `dx` and `dy`. -/
structure IsShift (dx dy : Int) (path path' : PinchPath) : Prop where
  bottomLeftOuter : path.bottomLeft.outer.IsShift dx dy path'.bottomLeft.outer
  bottomLeftInner : path.bottomLeft.inner.IsShift dx dy path'.bottomLeft.inner
  topRightOuter : path.topRight.outer.IsShift dx dy path'.topRight.outer
  topRightInner : path.topRight.inner.IsShift dx dy path'.topRight.inner

/-- The paths of a pinch move with the area. -/
theorem IsPinch.shift {w h : Int} {path' : PinchPath} (hpath : path.IsPinch area w h)
    (harea : area.IsShift dx dy area') (hshift : path.IsShift dx dy path') :
    path'.IsPinch area' w h := by
  obtain ⟨hl, hb, hr, ht, hpx, hpy, hqx, hqy⟩ := hpath
  obtain ⟨hl', ht', hr', hb'⟩ := harea
  obtain ⟨⟨hx₁, hy₁⟩, ⟨hx₂, hy₂⟩, ⟨hx₃, hy₃⟩, ⟨hx₄, hy₄⟩⟩ := hshift
  constructor <;> omega

/-- **A pinch over a shifted area has shifted paths.** -/
theorem over_eq_ok_of_isShift {path' : PinchPath} (harea : area.IsShift dx dy area')
    (hshift : path.IsShift dx dy path') (h : PinchPath.over area percent = .ok path) :
    PinchPath.over area' percent = .ok path' := by
  obtain ⟨width, height, w, v, ⟨hwidth, hw⟩, ⟨hheight, hv⟩, hback, hup, hpinch⟩ :=
    over_eq_ok_iff.1 h
  exact over_eq_ok_iff.2 ⟨width, height, w, v, ⟨(harea.extent_eq .right).trans hwidth, hw⟩,
    ⟨(harea.extent_eq .down).trans hheight, hv⟩, hback, hup, hpinch.shift harea hshift⟩

end PinchPath

/-! ## Shifted requests -/

namespace Factory

/-- The points that a request is made of; an area is given by two corners. -/
def Request.points : Request → List Point
  | .click p | .clickFor p _ | .longClick p => [p]
  | .swipe p q _ | .drag p q _ => [p, q]
  | .swipeOver area .. | .pinchClose area .. | .pinchOpen area .. => area.corners

/-- The same request, for points or an area shifted by `dx` and `dy`. -/
inductive Request.IsShift (dx dy : Int) : Request → Request → Prop where
  | click {p p' : Point} (hp : p.IsShift dx dy p') : IsShift dx dy (.click p) (.click p')
  | clickFor {p p' : Point} (hp : p.IsShift dx dy p') (d : Duration) :
    IsShift dx dy (.clickFor p d) (.clickFor p' d)
  | longClick {p p' : Point} (hp : p.IsShift dx dy p') :
    IsShift dx dy (.longClick p) (.longClick p')
  | swipe {p q p' q' : Point} (hp : p.IsShift dx dy p') (hq : q.IsShift dx dy q')
    (speed : UInt32) : IsShift dx dy (.swipe p q speed) (.swipe p' q' speed)
  | drag {p q p' q' : Point} (hp : p.IsShift dx dy p') (hq : q.IsShift dx dy q')
    (speed : UInt32) : IsShift dx dy (.drag p q speed) (.drag p' q' speed)
  | swipeOver {area area' : Rect} (harea : area.IsShift dx dy area') (direction : Direction)
    (percent : Single) (speed : UInt32) :
    IsShift dx dy (.swipeOver area direction percent speed)
      (.swipeOver area' direction percent speed)
  | pinchClose {area area' : Rect} (harea : area.IsShift dx dy area') (percent : Single)
    (speed : UInt32) : IsShift dx dy (.pinchClose area percent speed)
      (.pinchClose area' percent speed)
  | pinchOpen {area area' : Rect} (harea : area.IsShift dx dy area') (percent : Single)
    (speed : UInt32) : IsShift dx dy (.pinchOpen area percent speed)
      (.pinchOpen area' percent speed)

variable (f : Factory)

/-- A swipe between points that stay exact has a shifted one. -/
theorem exists_isShift_swipe {p q : Point} (hp : p.StaysExact dx dy) (hq : q.StaysExact dx dy)
    (speed : UInt32) : ∃ p' q', p.IsShift dx dy p' ∧ q.IsShift dx dy q' ∧
      (f.swipe p q speed).value.Corresponds (Point.IsShift dx dy)
        (f.swipe p' q' speed).value := by
  obtain ⟨p', hp'⟩ := hp.exists_isShift
  obtain ⟨q', hq'⟩ := hq.exists_isShift
  exact ⟨p', q', hp', hq', f.corresponds_swipe hp' hq' (hp'.distance_eq hq' hp hq) speed⟩

/-- **Shifted requests have shifted answers.**  If a request is answered, and the coordinates of
its points and of the answer are within `2 ^ 53` before and after a shift, then the shifted request
is answered by gestures of the same delay and the same actions, between the shifted points. -/
theorem perform_isShift {request request' : Request} {gestures : List Gesture}
    (hrequest : request.IsShift dx dy request')
    (houtcome : (f.perform request).outcome = .ok gestures)
    (hpoints : ∀ p ∈ request.points, p.StaysExact dx dy)
    (hgestures : ∀ g ∈ gestures, g.Within (Point.StaysExact dx dy)) :
    ∃ gestures', (f.perform request').outcome = .ok gestures' ∧
      List.Forall₂ (Gesture.Corresponds (Point.IsShift dx dy)) gestures gestures' := by
  cases hrequest with
  | click hp =>
    cases houtcome
    exact ⟨_, rfl, .cons (corresponds_clickFor hp _) .nil⟩
  | clickFor hp d =>
    cases houtcome
    exact ⟨_, rfl, .cons (corresponds_clickFor hp d) .nil⟩
  | longClick hp =>
    cases houtcome
    exact ⟨_, rfl, .cons (corresponds_clickFor hp _) .nil⟩
  | swipe hp hq speed =>
    cases houtcome
    rw [Request.points, List.forall_mem_cons, List.forall_mem_singleton] at hpoints
    have hd := hp.distance_eq hq hpoints.1 hpoints.2
    exact ⟨_, rfl, .cons (f.corresponds_swipe hp hq hd speed) .nil⟩
  | drag hp hq speed =>
    cases houtcome
    rw [Request.points, List.forall_mem_cons, List.forall_mem_singleton] at hpoints
    have hd := hp.distance_eq hq hpoints.1 hpoints.2
    exact ⟨_, rfl, .cons (f.corresponds_drag hp hq hd speed) .nil⟩
  | swipeOver harea direction percent speed =>
    obtain ⟨p, q, hends, rfl⟩ := f.perform_swipeOver_eq_ok_iff.1 houtcome
    have hwithin := hgestures _ List.mem_cons_self
    obtain ⟨p', q', hp, hq, hswipe⟩ := f.exists_isShift_swipe hwithin.start hwithin.finish speed
    have hends' := harea.swipeEnds_eq_ok hpoints hp hq hends
    exact ⟨_, f.perform_swipeOver_eq_ok_iff.2 ⟨p', q', hends', rfl⟩, .cons hswipe .nil⟩
  | pinchClose harea percent speed =>
    obtain ⟨path, hpath, rfl⟩ := f.perform_pinchClose_eq_ok_iff.1 houtcome
    rw [List.forall_mem_cons, List.forall_mem_singleton] at hgestures
    obtain ⟨hbl, htr⟩ := hgestures
    obtain ⟨p, p', hp, hp', hfirst⟩ := f.exists_isShift_swipe hbl.start hbl.finish speed
    obtain ⟨q, q', hq, hq', hsecond⟩ := f.exists_isShift_swipe htr.start htr.finish speed
    have hpath' : PinchPath.over _ percent = .ok ⟨⟨p, p'⟩, ⟨q, q'⟩⟩ :=
      PinchPath.over_eq_ok_of_isShift harea ⟨hp, hp', hq, hq'⟩ hpath
    exact ⟨_, f.perform_pinchClose_eq_ok_iff.2 ⟨_, hpath', rfl⟩,
      .cons (hfirst.pause hp' pinchRest) (.cons (hsecond.pause hq' pinchRest) .nil)⟩
  | pinchOpen harea percent speed =>
    obtain ⟨path, hpath, rfl⟩ := f.perform_pinchOpen_eq_ok_iff.1 houtcome
    rw [List.forall_mem_cons, List.forall_mem_singleton] at hgestures
    obtain ⟨hbl, htr⟩ := hgestures
    obtain ⟨p, p', hp, hp', hfirst⟩ := f.exists_isShift_swipe hbl.start hbl.finish speed
    obtain ⟨q, q', hq, hq', hsecond⟩ := f.exists_isShift_swipe htr.start htr.finish speed
    have hpath' : PinchPath.over _ percent = .ok ⟨⟨p', p⟩, ⟨q', q⟩⟩ :=
      PinchPath.over_eq_ok_of_isShift harea ⟨hp', hp, hq', hq⟩ hpath
    exact ⟨_, f.perform_pinchOpen_eq_ok_iff.2 ⟨_, hpath', rfl⟩,
      .cons hfirst (.cons hsecond .nil)⟩

/-- The middle of an area is below zero and half of an odd sum, and the area is shifted as far down
as it can be. -/
theorem perform_isShift_odd :
    let f : Factory := {}
    let percent : Single := .ofNat .binary32 1
    let request : Request := .swipeOver ⟨.clamp (-7), .clamp (-9), 4, 4⟩ .left percent 1
    let request' : Request :=
      .swipeOver ⟨.clamp (-4), 9007199254740979, 7, 9007199254740992⟩ .left percent 1
    let g := (f.swipe ⟨4, .clamp (-3)⟩ ⟨.clamp (-7), .clamp (-3)⟩ 1).value
    request.IsShift 3 9007199254740988 request' ∧ (f.perform request).outcome = .ok [g] ∧
      (∀ p ∈ request.points, p.StaysExact 3 9007199254740988) ∧
      (∀ g' ∈ [g], g'.Within (Point.StaysExact 3 9007199254740988)) ∧
      ∃ g', (f.perform request').outcome = .ok [g'] ∧
        g.Corresponds (Point.IsShift 3 9007199254740988) g' := by
  intro f percent request request' g
  have hrequest : request.IsShift 3 9007199254740988 request' :=
    .swipeOver ⟨rfl, rfl, rfl, rfl⟩ .left percent 1
  have houtcome : (f.perform request).outcome = .ok [g] :=
    f.perform_swipeOver_eq_ok_iff.2 ⟨_, _, by decide +kernel, rfl⟩
  have hpoints : ∀ p ∈ request.points, p.StaysExact 3 9007199254740988 := by
    refine List.forall_mem_cons.2 ⟨?_, List.forall_mem_singleton.2 ?_⟩ <;>
      exact ⟨by decide, by decide, by decide, by decide⟩
  have hwithin : g.Within (Point.StaysExact 3 9007199254740988) := by
    refine f.within_swipe ?_ ?_ 1 <;> exact ⟨by decide, by decide, by decide, by decide⟩
  have hgestures := List.forall_mem_singleton.2 hwithin
  obtain ⟨gestures', houtcome', hshifted⟩ :=
    f.perform_isShift hrequest houtcome hpoints hgestures
  cases hshifted with
  | cons hg hnil =>
    cases hnil
    exact ⟨hrequest, houtcome, hpoints, hgestures, _, houtcome', hg⟩

end Factory
end PointerMotion
