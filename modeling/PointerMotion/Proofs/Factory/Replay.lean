import PointerMotion.Proofs.Factory.ScreenSized
import PointerMotion.Proofs.Factory.Shift
import PointerMotion.Proofs.Gesture.Continuity

/-!
# Gestures of the screen can be played

The only thing that can fail while a gesture is played is the way of a move, the difference of its
ends.  Between two points of the screen there always is a way, but the ends of a gesture over an
area are computed from a percentage, and may lie almost `2 ^ 63` away.  A move between two such
points would fail.

This does not happen, because no move has both ends far away.  A gesture of the factory begins or
ends near the screen, its way is at most `2 ^ 63 - 2 ^ 39` on each axis, and whatever is appended to
it goes to the screen.  The invariant has two parts (`Gesture.IsPlayable`): every action has a way,
and from where the gesture ends there is a way to every point of the screen.  The second part is
what a step needs for the first one.
-/

namespace PointerMotion

/-! ## The screen and what it can be reached from -/

namespace Point

/-- The coordinates of the point are integers of half the width of a coordinate. -/
structure IsOnScreen (p : Point) : Prop where
  x : -2 ^ 31 ≤ p.x.val ∧ p.x.val < 2 ^ 31
  y : -2 ^ 31 ≤ p.y.val ∧ p.y.val < 2 ^ 31

instance (p : Point) : Decidable p.IsOnScreen :=
  decidable_of_iff ((-2 ^ 31 ≤ p.x.val ∧ p.x.val < 2 ^ 31) ∧ -2 ^ 31 ≤ p.y.val ∧ p.y.val < 2 ^ 31)
    ⟨fun h => ⟨h.1, h.2⟩, fun h => ⟨h.x, h.y⟩⟩

/-- There is a way from the point to every point of the screen. -/
def ReachesScreen (p : Point) : Prop := ∀ q : Point, q.IsOnScreen → p.HasWay q

/-- A pointer can move from the first point to the second one, and from both of them to the
screen. -/
structure IsPlayable (p q : Point) : Prop where
  way : p.HasWay q
  start : p.ReachesScreen
  finish : q.ReachesScreen

/-- The second point is at most `reach` away from the first one, on each axis. -/
structure IsWithin (reach : Nat) (p q : Point) : Prop where
  x : (q.x.val - p.x.val).natAbs ≤ reach
  y : (q.y.val - p.y.val).natAbs ≤ reach

variable {p q : Point}

theorem hasWay_self (p : Point) : p.HasWay p := by
  constructor <;> rw [Int.sub_self] <;> decide

theorem IsNear.reachesScreen (h : p.IsNear (2 ^ 63 - 2 ^ 31)) : p.ReachesScreen := by
  rintro q ⟨hqx, hqy⟩
  obtain ⟨hx, hy⟩ := h
  constructor <;> constructor <;> omega

theorem IsOnScreen.isNear (h : p.IsOnScreen) : p.IsNear (2 ^ 31) := by
  obtain ⟨hx, hy⟩ := h
  constructor <;> omega

theorem IsOnScreen.reachesScreen (h : p.IsOnScreen) : p.ReachesScreen :=
  (h.isNear.mono (by decide)).reachesScreen

/-- **A pointer can move both ways** between a point near the screen and one that is almost `2 ^ 63`
away from it. -/
theorem IsNear.isPlayable (h : p.IsNear (2 ^ 32)) (hway : p.IsWithin (2 ^ 63 - 2 ^ 39) q) :
    p.IsPlayable q ∧ q.IsPlayable p := by
  obtain ⟨hx, hy⟩ := hway
  have hq : q.IsNear (2 ^ 63 - 2 ^ 31) := by
    obtain ⟨hpx, hpy⟩ := h
    constructor <;> omega
  have hp : p.ReachesScreen := (h.mono (by decide)).reachesScreen
  have hthere : p.HasWay q := by constructor <;> constructor <;> omega
  have hback : q.HasWay p := by constructor <;> constructor <;> omega
  exact ⟨⟨hthere, hp, hq.reachesScreen⟩, ⟨hback, hq.reachesScreen, hp⟩⟩

/-- A pointer can move between two points of the screen. -/
theorem IsOnScreen.isPlayable (hp : p.IsOnScreen) (hq : q.IsOnScreen) : p.IsPlayable q where
  way := hp.reachesScreen q hq
  start := hp.reachesScreen
  finish := hq.reachesScreen

end Point

/-! ## The invariant -/

namespace Gesture

variable {g : Gesture}

/-- Every action has a way, and from where the gesture ends there is one to every point of the
screen. -/
structure IsPlayable (g : Gesture) : Prop where
  actions : ∀ a ∈ g.actions, a.start.HasWay a.finish
  onward : g.finish.ReachesScreen

theorem isPlayable_touch {start : Point} (h : start.ReachesScreen) (delay : Duration) :
    (touch start delay).IsPlayable where
  actions := by rintro a ⟨⟩
  onward := h

/-- A move keeps the invariant if it has a way and its target reaches the screen. -/
theorem IsPlayable.step (h : g.IsPlayable) {s : Step}
    (hs : ∀ p ∈ s.target?, g.finish.HasWay p ∧ p.ReachesScreen) :
    (g.step s).value.IsPlayable := by
  obtain ⟨a, happend, hstart, hfinish⟩ := g.exists_step_eq_append s
  have ha : a.start.HasWay a.finish ∧ a.finish.ReachesScreen := by
    rw [hstart, hfinish]
    cases htarget : s.target? with
    | none => exact ⟨g.finish.hasWay_self, h.onward⟩
    | some p => exact hs p htarget
  rw [happend]
  constructor
  · intro b hb
    rcases List.mem_append.1 hb with hb | hb
    · exact h.actions b hb
    · rw [List.mem_singleton.1 hb]
      exact ha.1
  · rw [finish_append]
    exact ha.2

theorem IsPlayable.pause (h : g.IsPlayable) (d : Duration) : (g.pause d).IsPlayable :=
  h.step (s := .pause d) (by rintro p ⟨⟩)

theorem IsPlayable.kept (h : g.IsPlayable) : g.kept.IsPlayable where
  actions := by
    refine List.forall_mem_map.2 fun a ha => ?_
    rw [Action.start_kept, Action.finish_kept]
    exact h.actions a ha
  onward := by
    rw [finish_kept]
    exact h.onward

/-- Where an edit takes the pointer, if it is a move. -/
def Edit.target? : Edit → Option Point
  | .step s => s.target?
  | .reread => none

/-- An edit that does not leave the screen keeps the invariant. -/
theorem IsPlayable.edit (h : g.IsPlayable) {e : Edit} (he : ∀ p ∈ e.target?, p.IsOnScreen) :
    ∃ g', g.edit e = .ok g' ∧ g'.IsPlayable := by
  cases e with
  | step s =>
    exact ⟨_, rfl, h.step fun p hp => ⟨h.onward p (he p hp), (he p hp).reachesScreen⟩⟩
  | reread => exact ⟨g.kept, g.edit_reread, h.kept⟩

/-- Edits that do not leave the screen keep the invariant. -/
theorem IsPlayable.edits (h : g.IsPlayable) {run : List Edit}
    (hrun : ∀ e ∈ run, ∀ p ∈ e.target?, p.IsOnScreen) :
    ∃ g', g.edits run = .ok g' ∧ g'.IsPlayable :=
  exists_edits_eq_ok_of_forall_mem (fun e he _ hg => hg.edit (hrun e he)) h

end Gesture

/-! ## Ways over an area of the screen -/

namespace Rect

variable {area : Rect} {d : Direction} {percent : Single} {p q : Point}

theorem isScreenSized_of_corners (h : ∀ p ∈ area.corners, p.IsOnScreen) : area.IsScreenSized := by
  simp only [corners, List.forall_mem_cons] at h
  obtain ⟨⟨hleft, htop⟩, ⟨hright, hbottom⟩, -⟩ := h
  intro d
  cases d with
  | left => exact hleft
  | right => exact hright
  | up => exact htop
  | down => exact hbottom

/-- A swipe over an area of the screen begins on the screen, and goes as far as its way. -/
theorem IsSwipe.isNear_and_isWithin {way : Int} (h : area.IsSwipe d way p q)
    (harea : area.IsScreenSized) : p.IsNear (2 ^ 31) ∧ p.IsWithin way.natAbs q := by
  have hleft := harea .left
  have hright := harea .right
  have hup := harea .up
  have hdown := harea .down
  obtain ⟨hbegins, hmiddle, hreaches, hstraight⟩ := h
  rw [Coord.ext_iff] at hbegins hstraight
  cases d <;>
    dsimp only [Point.along, Point.across, edge, crossSum, Direction.opposite,
      Direction.sign] at * <;>
    constructor <;> constructor <;> omega

/-- **A pointer can swipe a moderate percentage** of an area of the screen. -/
theorem IsScreenSized.isPlayable_swipe (harea : area.IsScreenSized) (h : IsModerate percent)
    (hends : area.swipeEnds d percent = .ok (p, q)) : p.IsPlayable q := by
  obtain ⟨-, extent, hextent, -, hswipe⟩ := swipeEnds_eq_ok_iff.1 hends
  have hway := Coord.natAbs_scaled_le h (harea.natAbs_extent_lt d hextent).le
  obtain ⟨hnear, hx, hy⟩ := hswipe.isNear_and_isWithin harea
  exact ((hnear.mono (by decide)).isPlayable ⟨hx.trans hway, hy.trans hway⟩).1

end Rect

namespace PinchPath

variable {area : Rect} {percent : Single} {path : PinchPath}

/-- The fingers of a pinch over an area of the screen begin near the screen, and go as far as they
travel. -/
theorem IsPinch.isNear_and_isWithin {dx dy : Int} (h : path.IsPinch area dx dy)
    (harea : area.IsScreenSized) {reach : Nat} (hx : dx.natAbs ≤ reach) (hy : dy.natAbs ≤ reach) :
    ∀ finger ∈ [path.bottomLeft, path.topRight],
      finger.outer.IsNear (2 ^ 32) ∧ finger.outer.IsWithin reach finger.inner := by
  have hleft := harea .left
  have hright := harea .right
  have hup := harea .up
  have hdown := harea .down
  simp only [Rect.edge] at hleft hright hup hdown
  obtain ⟨hl, hb, hr, ht, hpx, hpy, hqx, hqy⟩ := h
  refine List.forall_mem_cons.2 ⟨?_, List.forall_mem_singleton.2 ?_⟩ <;>
    constructor <;> constructor <;> omega

/-- **Fingers can travel a moderate percentage** of an area of the screen, both ways. -/
theorem isPlayable_of_over_eq_ok (harea : area.IsScreenSized) (h : IsModerate percent)
    (hpath : PinchPath.over area percent = .ok path) :
    ∀ finger ∈ [path.bottomLeft, path.topRight],
      finger.outer.IsPlayable finger.inner ∧ finger.inner.IsPlayable finger.outer := by
  obtain ⟨width, height, dx, dy, ⟨hwidth, hdx⟩, ⟨hheight, hdy⟩, -, -, hpinch⟩ :=
    over_eq_ok_iff.1 hpath
  have hx := harea.natAbs_pinchTravel_le .right h hwidth hdx
  have hy := harea.natAbs_pinchTravel_le .down h hheight hdy
  intro finger hfinger
  obtain ⟨hnear, hwithin⟩ := hpinch.isNear_and_isWithin harea hx hy finger hfinger
  exact hnear.isPlayable hwithin

end PinchPath

/-! ## The answers of the factory -/

namespace Factory

open Gesture

variable (f : Factory) {p q : Point}

theorem isPlayable_clickFor (h : p.ReachesScreen) (d : Duration) : (clickFor p d).IsPlayable :=
  (isPlayable_touch h .zero).pause d

/-- Swipes and drags are clicks that move on. -/
theorem isPlayable_moveAtSpeed (h : p.IsPlayable q) (d : Duration) (speed : UInt32) :
    ((clickFor p d).moveAtSpeed q speed).value.IsPlayable := by
  refine (isPlayable_clickFor h.start d).step (s := .moveAtSpeed q speed) ?_
  rintro _ ⟨⟩
  exact ⟨h.way, h.finish⟩

/-- The points of a request are on the screen, and its percentage is moderate, if it has one. -/
structure Request.IsOnScreen (request : Request) : Prop where
  points : ∀ p ∈ request.points, p.IsOnScreen
  percent : ∀ asked ∈ request.over?, IsModerate asked.2

variable {request : Request} {gestures : List Gesture}

/-- A request on the screen is answered. -/
theorem Request.IsOnScreen.exists_perform_eq_ok (h : request.IsOnScreen) :
    ∃ gestures, (f.perform request).outcome = .ok gestures := by
  obtain ⟨hpoints, hpercent⟩ := h
  cases request with
  | click | clickFor | longClick | swipe | drag => exact ⟨_, rfl⟩
  | swipeOver area direction percent speed | pinchClose area percent speed
  | pinchOpen area percent speed =>
    have harea := Rect.isScreenSized_of_corners hpoints
    exact (f.exists_perform_eq_ok_iff ⟨area, rfl, harea⟩).2
      (hasWays_of_isModerate ⟨area, rfl, harea⟩ (hpercent _ rfl))

/-- **The answers to requests on the screen can be played.** -/
theorem Request.IsOnScreen.isPlayable (h : request.IsOnScreen)
    (houtcome : (f.perform request).outcome = .ok gestures) : ∀ g ∈ gestures, g.IsPlayable := by
  obtain ⟨hpoints, hpercent⟩ := h
  cases request with
  | click p | clickFor p d | longClick p =>
    cases houtcome
    have hp := List.forall_mem_singleton.1 hpoints
    exact List.forall_mem_singleton.2 (isPlayable_clickFor hp.reachesScreen _)
  | swipe p q speed | drag p q speed =>
    cases houtcome
    simp only [Request.points, List.forall_mem_cons] at hpoints
    obtain ⟨hp, hq, -⟩ := hpoints
    exact List.forall_mem_singleton.2 (isPlayable_moveAtSpeed (hp.isPlayable hq) _ speed)
  | swipeOver area direction percent speed =>
    obtain ⟨p, q, hends, rfl⟩ := f.perform_swipeOver_eq_ok_iff.1 houtcome
    have hways := (Rect.isScreenSized_of_corners hpoints).isPlayable_swipe (hpercent _ rfl) hends
    exact List.forall_mem_singleton.2 (isPlayable_moveAtSpeed hways _ speed)
  | pinchClose area percent speed =>
    obtain ⟨path, hpath, rfl⟩ := f.perform_pinchClose_eq_ok_iff.1 houtcome
    have hways := PinchPath.isPlayable_of_over_eq_ok (Rect.isScreenSized_of_corners hpoints)
      (hpercent _ rfl) hpath
    rw [List.forall_mem_cons, List.forall_mem_singleton] at hways ⊢
    obtain ⟨⟨hfirst, -⟩, hsecond, -⟩ := hways
    exact ⟨(isPlayable_moveAtSpeed hfirst _ speed).pause pinchRest,
      (isPlayable_moveAtSpeed hsecond _ speed).pause pinchRest⟩
  | pinchOpen area percent speed =>
    obtain ⟨path, hpath, rfl⟩ := f.perform_pinchOpen_eq_ok_iff.1 houtcome
    have hways := PinchPath.isPlayable_of_over_eq_ok (Rect.isScreenSized_of_corners hpoints)
      (hpercent _ rfl) hpath
    rw [List.forall_mem_cons, List.forall_mem_singleton] at hways ⊢
    obtain ⟨⟨-, hfirst⟩, -, hsecond⟩ := hways
    exact ⟨isPlayable_moveAtSpeed hfirst _ speed, isPlayable_moveAtSpeed hsecond _ speed⟩

/-- **Gestures of the screen can be played.**  A request whose points are on the screen, and whose
percentage is less than `2 ^ 31` in magnitude or not a number, is answered.  Each gesture of the
answer can be extended by moves to points of the screen, by pauses, and by writing and reading it,
in any order and number, and the gesture that this leads to has a point at any time. -/
theorem exists_pointAt_of_isOnScreen (h : request.IsOnScreen) :
    ∃ gestures, (f.perform request).outcome = .ok gestures ∧
      ∀ g ∈ gestures, ∀ run : List Edit, (∀ e ∈ run, ∀ p ∈ e.target?, p.IsOnScreen) →
        ∃ g', g.edits run = .ok g' ∧ ∀ t, ∃ p, g'.pointAt t = .ok p := by
  obtain ⟨gestures, houtcome⟩ := h.exists_perform_eq_ok f
  refine ⟨gestures, houtcome, fun g hg run hrun => ?_⟩
  obtain ⟨g', hedits, hplayable⟩ := (h.isPlayable f houtcome g hg).edits hrun
  exact ⟨g', hedits, exists_pointAt_eq_ok_of_hasWay hplayable.actions⟩

/-- A swipe over the width of the screen that ends `2 ^ 62` away from where it starts, is written
and read, and goes back to the first column of the screen. -/
theorem exists_pointAt_of_isOnScreen_far :
    let request : Request :=
      .swipeOver (Rect.acrossScreen true) .right (.ofNat .binary32 (2 ^ 30)) 0
    let g := (swipe {} ⟨.clamp (-2 ^ 31), 0⟩ ⟨.clamp (2 ^ 62 - 2 ^ 31), 0⟩ 0).value
    let run : List Edit :=
      [.reread, .step (.pause .longest), .step (.moveTo ⟨.clamp (-2 ^ 31), 0⟩ .longest)]
    request.IsOnScreen ∧ (∀ e ∈ run, ∀ p ∈ e.target?, p.IsOnScreen) ∧
      (perform {} request).outcome = .ok [g] ∧
        ∃ g', g.edits run = .ok g' ∧ ∀ t, ∃ p, g'.pointAt t = .ok p := by
  intro request g run
  have hrequest : request.IsOnScreen := ⟨by decide, by decide +kernel⟩
  have hrun : ∀ e ∈ run, ∀ p ∈ e.target?, p.IsOnScreen := by decide
  have hanswer : (perform {} request).outcome = .ok [g] :=
    (perform_swipeOver_eq_ok_iff {}).2 ⟨_, _, by decide +kernel, rfl⟩
  obtain ⟨gestures, houtcome, hplayed⟩ := exists_pointAt_of_isOnScreen {} hrequest
  obtain rfl : [g] = gestures := Except.ok.inj (hanswer.symm.trans houtcome)
  exact ⟨hrequest, hrun, hanswer, hplayed g (List.mem_singleton_self g) run hrun⟩

end Factory
end PointerMotion
