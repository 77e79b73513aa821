import PointerMotion.Proofs.Gesture.Continuity
import PointerMotion.Proofs.Gesture.Interpolation
import PointerMotion.Proofs.Gesture.Within

/-!
# The pointer does not turn back

If no action of a gesture goes back along the axis of a direction, then neither does the pointer in
the course of time, although the numbers that it is computed from are rounded five times.  Inside an
action every one of these steps is monotone: the nanoseconds that have passed as a number of double
precision, the quotient of them, the product with the way, the sum, and the integer part
(`Coord.interpolated_mono`).  A way in the sense of smaller coordinates makes the product fall
where the fraction rises, which is why the sense of the direction stands on both sides.

Between actions it is the chain that counts.  What an action shows lies between its ends, so it is
not ahead of the point where the next one begins, and everything after that point is not behind it
(`Advances.start_le_pointAt`).  Both statements go through the list of actions as the walk itself
does, taking one action off a gesture at a time (`pointAt_cons`).
-/

namespace PointerMotion

open Floating (Format)

namespace Coord

variable {a b : Coord} {f₁ f₂ : Nat}

theorem interpolated_le_of_mul_le (h : (b.val - a.val) * f₁ ≤ (b.val - a.val) * f₂) :
    a.interpolated b f₁ ≤ a.interpolated b f₂ := by
  refine Int.tdiv_le_tdiv (Int.natCast_pos.2 Format.unit_pos) ?_
  exact Format.round_mono (Int.add_le_add_left (Format.round_mono h) _)

/-- **A greater fraction is further ahead**, in the sense in which the way goes. -/
theorem interpolated_mono {d : Direction} (hway : d.sign * a.val ≤ d.sign * b.val) (hf : f₁ ≤ f₂) :
    d.sign * a.interpolated b f₁ ≤ d.sign * a.interpolated b f₂ := by
  have hcast : (f₁ : Int) ≤ f₂ := Int.ofNat_le.2 hf
  rcases d.sign_eq with hsign | hsign
  · rw [hsign] at hway ⊢
    have := interpolated_le_of_mul_le (Int.mul_le_mul_of_nonpos_left
      (show b.val - a.val ≤ 0 by omega) hcast)
    omega
  · rw [hsign] at hway ⊢
    have := interpolated_le_of_mul_le (Int.mul_le_mul_of_nonneg_left hcast
      (show 0 ≤ b.val - a.val by omega))
    omega

/-- On a way in the sense of the direction, the pointer is between the ends in this order. -/
theorem interpolated_mem_ahead {d : Direction} {f : Nat}
    (hway : d.sign * a.val ≤ d.sign * b.val) (ha : a.val.natAbs ≤ 2 ^ 52)
    (hb : b.val.natAbs ≤ 2 ^ 52) (hf : f ≤ Format.binary64.unit) :
    d.sign * a.val ≤ d.sign * a.interpolated b f ∧
      d.sign * a.interpolated b f ≤ d.sign * b.val := by
  have hmem := interpolated_mem ha hb hf
  rcases d.sign_eq with hsign | hsign
  · rw [hsign] at hway ⊢
    omega
  · rw [hsign] at hway ⊢
    omega

end Coord

/-- During an action that goes ahead, the pointer is between the ends in this order. -/
theorem Action.exists_pointAt_ahead {a : Action} {d : Direction} {t : Duration}
    (hway : d.sign * (a.start.along d).val ≤ d.sign * (a.finish.along d).val)
    (hstart : a.start.IsNear (2 ^ 52)) (hfinish : a.finish.IsNear (2 ^ 52)) (ht : t < a.duration) :
    ∃ p, a.pointAt (Gesture.fraction t a.duration) = .ok p ∧
      d.sign * (a.start.along d).val ≤ d.sign * (p.along d).val ∧
      d.sign * (p.along d).val ≤ d.sign * (a.finish.along d).val := by
  obtain ⟨p, hp, hval⟩ := exists_pointAt_eq_ok hstart hfinish ht
  refine ⟨p, hp, ?_⟩
  rw [hval d]
  exact Coord.interpolated_mem_ahead hway (hstart.along d) (hfinish.along d)
    (a.duration.standsAt_passed ht).2

namespace Gesture

variable {start : Point} {delay : Duration} {a : Action} {rest : List Action}

/-! ## One action after another -/

theorem finish_cons : finish ⟨start, delay, a :: rest⟩ = finish ⟨a.finish, delay, rest⟩ := by
  cases rest with
  | nil => rfl
  | cons b rest =>
    rw [finish, finish, List.getLast?_cons_cons]
    cases h : (b :: rest).getLast? with
    | none => simp at h
    | some c => rfl

/-- The walk through the actions, seen as a walk through shorter gestures. -/
theorem pointAt_cons (t : Duration) : pointAt ⟨start, delay, a :: rest⟩ t =
    if h : t < a.duration then a.pointAt (fraction t a.duration)
    else pointAt ⟨a.finish, delay, rest⟩ (t.since a.duration (Nat.le_of_not_lt h)) := by
  rw [pointAt, pointIn, finish_cons]
  rfl

theorem IsContinuous.of_cons (h : IsContinuous ⟨start, delay, a :: rest⟩) :
    a.start = start ∧ IsContinuous ⟨a.finish, delay, rest⟩ := by
  obtain ⟨hnext, hrest⟩ := List.isChain_cons.1 h.chained
  exact ⟨h.begins a rfl, hnext, hrest⟩

theorem Within.of_cons {region : Point → Prop} (h : Within region ⟨start, delay, a :: rest⟩) :
    (region a.start ∧ region a.finish) ∧ Within region ⟨a.finish, delay, rest⟩ := by
  obtain ⟨ha, hrest⟩ := List.forall_mem_cons.1 h.actions
  exact ⟨ha, ha.2, hrest⟩

/-! ## Gestures that go ahead -/

/-- The gesture is continuous, within `2 ^ 52`, and none of its actions goes back along the axis of
the direction. -/
structure Advances (d : Direction) (g : Gesture) : Prop where
  continuous : g.IsContinuous
  near : g.Within (Point.IsNear (2 ^ 52))
  ahead : ∀ a ∈ g.actions, d.sign * (a.start.along d).val ≤ d.sign * (a.finish.along d).val

variable {d : Direction}

theorem Advances.of_cons (h : Advances d ⟨start, delay, a :: rest⟩) :
    a.start = start ∧ (a.start.IsNear (2 ^ 52) ∧ a.finish.IsNear (2 ^ 52)) ∧
      d.sign * (a.start.along d).val ≤ d.sign * (a.finish.along d).val ∧
        Advances d ⟨a.finish, delay, rest⟩ := by
  obtain ⟨hstart, hcontinuous⟩ := h.continuous.of_cons
  obtain ⟨hends, hnear⟩ := h.near.of_cons
  obtain ⟨ha, hahead⟩ := List.forall_mem_cons.1 h.ahead
  exact ⟨hstart, hends, ha, hcontinuous, hnear, hahead⟩

/-- **The pointer is never behind its start.** -/
theorem Advances.start_le_pointAt {actions : List Action} (h : Advances d ⟨start, delay, actions⟩)
    (t : Duration) : ∃ p, pointAt ⟨start, delay, actions⟩ t = .ok p ∧
      d.sign * (start.along d).val ≤ d.sign * (p.along d).val := by
  induction actions generalizing start t with
  | nil => exact ⟨start, rfl, Int.le_refl _⟩
  | cons a rest ih =>
    obtain ⟨rfl, ⟨hstart, hfinish⟩, ha, hrest⟩ := h.of_cons
    rw [pointAt_cons]
    by_cases ht : t < a.duration
    · rw [dif_pos ht]
      obtain ⟨p, hp, hle, -⟩ := Action.exists_pointAt_ahead ha hstart hfinish ht
      exact ⟨p, hp, hle⟩
    · rw [dif_neg ht]
      obtain ⟨p, hp, hle⟩ := ih hrest (t.since a.duration (Nat.le_of_not_lt ht))
      exact ⟨p, hp, ha.trans hle⟩

/-- **The pointer does not turn back.**  Along the axis of a direction in whose sense all actions of
a continuous gesture go, the pointer at a later time is not behind the pointer at an earlier one:
during one action or several, and also after the last of them.  To the right this says that `x` does
not fall, to the left that it does not rise, and the same downward and upward of `y`. -/
theorem pointAt_mono {g : Gesture} (h : g.Advances d) {t₁ t₂ : Duration} (ht : t₁ ≤ t₂) :
    ∃ p₁ p₂, g.pointAt t₁ = .ok p₁ ∧ g.pointAt t₂ = .ok p₂ ∧
      d.sign * (p₁.along d).val ≤ d.sign * (p₂.along d).val := by
  obtain ⟨start, delay, actions⟩ := g
  induction actions generalizing start t₁ t₂ with
  | nil => exact ⟨start, start, rfl, rfl, Int.le_refl _⟩
  | cons a rest ih =>
    obtain ⟨rfl, ⟨hstart, hfinish⟩, ha, hrest⟩ := h.of_cons
    rw [pointAt_cons, pointAt_cons]
    by_cases ht₁ : t₁ < a.duration
    · rw [dif_pos ht₁]
      by_cases ht₂ : t₂ < a.duration
      · -- both during this action
        rw [dif_pos ht₂]
        obtain ⟨p₁, hp₁, hval₁⟩ := Action.exists_pointAt_eq_ok hstart hfinish ht₁
        obtain ⟨p₂, hp₂, hval₂⟩ := Action.exists_pointAt_eq_ok hstart hfinish ht₂
        refine ⟨p₁, p₂, hp₁, hp₂, ?_⟩
        rw [hval₁ d, hval₂ d]
        exact Coord.interpolated_mono ha (Format.ratio_mono (Nat.zero_lt_of_lt ht₁) ht)
      · -- the earlier time during this action, the later one after it
        rw [dif_neg ht₂]
        obtain ⟨p₁, hp₁, -, hle₁⟩ := Action.exists_pointAt_ahead ha hstart hfinish ht₁
        obtain ⟨p₂, hp₂, hle₂⟩ :=
          hrest.start_le_pointAt (t₂.since a.duration (Nat.le_of_not_lt ht₂))
        exact ⟨p₁, p₂, hp₁, hp₂, hle₁.trans hle₂⟩
    · have ht₂ : ¬ t₂ < a.duration := fun hlt => ht₁ (Nat.lt_of_le_of_lt ht hlt)
      rw [dif_neg ht₁, dif_neg ht₂]
      exact ih (Nat.sub_le_sub_right ht a.duration.nanos) a.finish hrest

/-- To the left over three actions, one of which takes no time and one of which does not end. -/
theorem pointAt_mono_left :
    let steps : List Step :=
      [.moveTo ⟨0, 5⟩ (.ofMillis 3), .pause .zero, .moveTo ⟨.clamp (-4503599627370496), 1⟩ .longest]
    let g := (touch ⟨4503599627370496, 5⟩).build steps
    g.Advances .left ∧ Duration.ofMillis 2 ≤ .longest ∧
      ∃ p₁ p₂, g.pointAt (.ofMillis 2) = .ok p₁ ∧ g.pointAt .longest = .ok p₂ ∧
        p₂.x.val ≤ p₁.x.val := by
  intro steps g
  have hg : g.Advances .left := by
    constructor
    · exact (isContinuous_touch _ _).build steps
    · exact (within_touch (by decide) _).build (by decide)
    · decide
  have ht : Duration.ofMillis 2 ≤ .longest := by decide
  obtain ⟨p₁, p₂, hp₁, hp₂, hle⟩ := pointAt_mono hg ht
  have hleft : -1 * p₁.x.val ≤ -1 * p₂.x.val := hle
  exact ⟨hg, ht, p₁, p₂, hp₁, hp₂, by omega⟩

end Gesture

end PointerMotion
