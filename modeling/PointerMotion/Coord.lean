import PointerMotion.Overflow

/-!
# Screen coordinates

A coordinate is an integer between `-2^63` and `2^63 - 1`.  The bounds are part of the type, so
whatever produces a coordinate has shown that it exists; arithmetic that might not is *checked*:
it is exact where it succeeds, and it fails exactly where the integer result is out of range.

Two halvings are needed and they differ on odd negative numbers.  `half` rounds down, and places
the middle between two edges; `halfTowardZero` rounds toward zero, and halves an extent.  Neither
can leave the range, so neither is checked.
-/

namespace PointerMotion

/-- An integer between `-2^63` and `2^63 - 1`. -/
@[ext] structure Coord where
  val : Int
  lower : -9223372036854775808 ≤ val
  upper : val < 9223372036854775808
  deriving DecidableEq, Repr

namespace Coord

/-- The integers that are coordinates. -/
def InRange (i : Int) : Prop := -9223372036854775808 ≤ i ∧ i < 9223372036854775808

instance (i : Int) : Decidable (InRange i) := inferInstanceAs (Decidable (_ ∧ _))

theorem inRange_val (c : Coord) : InRange c.val := ⟨c.lower, c.upper⟩

/-- Between two coordinates, every integer is one. -/
theorem InRange.between {i j k : Int} (hi : InRange i) (hk : InRange k) (hij : i ≤ j)
    (hjk : j ≤ k) : InRange j :=
  ⟨Int.le_trans hi.1 hij, Int.lt_of_le_of_lt hjk hk.2⟩

theorem InRange.half {i : Int} (hi : InRange i) : InRange (i / 2) := by
  obtain ⟨hlower, hupper⟩ := hi
  constructor <;> omega

/-- A coordinate is at most `2^63` away from zero. -/
theorem natAbs_val_le (c : Coord) : c.val.natAbs ≤ 9223372036854775808 := by
  obtain ⟨hlower, hupper⟩ := c.inRange_val
  omega

instance : Inhabited Coord := ⟨⟨0, by decide, by decide⟩⟩

/-- The nearest coordinate to an integer. -/
def clamp (i : Int) : Coord :=
  ⟨max (-9223372036854775808) (min i 9223372036854775807), by omega, by omega⟩

@[simp] theorem val_clamp (i : Int) :
    (clamp i).val = max (-9223372036854775808) (min i 9223372036854775807) := rfl

theorem clamp_of_inRange {i : Int} (h : InRange i) : (clamp i).val = i := by
  rw [val_clamp]
  obtain ⟨h₁, h₂⟩ := h
  omega

instance (n : Nat) : OfNat Coord n := ⟨clamp n⟩

@[simp] theorem val_zero : (0 : Coord).val = 0 := rfl

/-- The coordinate with the given value, if there is one. -/
def ofInt? (i : Int) : Option Coord :=
  if h : InRange i then some ⟨i, h.1, h.2⟩ else none

theorem ofInt?_eq_some_iff {i : Int} {c : Coord} : ofInt? i = some c ↔ c.val = i := by
  constructor
  · intro h
    rw [ofInt?] at h
    split at h
    · cases h; rfl
    · cases h
  · rintro rfl
    rw [ofInt?, dif_pos c.inRange_val]

theorem ofInt?_eq_none_iff {i : Int} : ofInt? i = none ↔ ¬ InRange i := by
  rw [ofInt?]
  split <;> simp [*]

@[simp] theorem ofInt?_val (c : Coord) : ofInt? c.val = some c := ofInt?_eq_some_iff.2 rfl

/-- The outcome of an operation whose exact result is `i`. -/
def checked (cause : Overflow) (i : Int) : Except Overflow Coord :=
  match ofInt? i with
  | some c => .ok c
  | none => .error cause

theorem checked_eq_ok_iff {cause : Overflow} {i : Int} {c : Coord} :
    checked cause i = .ok c ↔ c.val = i := by
  rw [← ofInt?_eq_some_iff, checked]
  split <;> simp [*]

theorem checked_eq_error_iff {cause e : Overflow} {i : Int} :
    checked cause i = .error e ↔ ¬ InRange i ∧ e = cause := by
  rw [← ofInt?_eq_none_iff, checked]
  split <;> simp [*, eq_comm]

theorem exists_checked_eq_ok (cause : Overflow) {i : Int} (h : InRange i) :
    ∃ c, checked cause i = .ok c ∧ c.val = i :=
  ⟨⟨i, h.1, h.2⟩, checked_eq_ok_iff.2 rfl, rfl⟩

/-- The checked sum. -/
def add (a b : Coord) : Except Overflow Coord := checked .addition (a.val + b.val)

/-- The checked difference. -/
def sub (a b : Coord) : Except Overflow Coord := checked .subtraction (a.val - b.val)

/-- The checked opposite; only `-2^63` has none. -/
def neg (a : Coord) : Except Overflow Coord := checked .negation (-a.val)

/-- Half of a coordinate, rounded down. -/
def half (a : Coord) : Coord :=
  ⟨a.val / 2, by have := a.lower; omega, by have := a.upper; omega⟩

/-- Halving toward zero, by the sign of what is halved. -/
theorem tdiv_two (i : Int) : i.tdiv 2 = if 0 ≤ i then i / 2 else -(-i / 2) := by
  split
  · rename_i h
    exact Int.tdiv_eq_ediv_of_nonneg h
  · rename_i h
    rw [← Int.tdiv_eq_ediv_of_nonneg (by omega : 0 ≤ -i), Int.neg_tdiv, Int.neg_neg]

/-- Half of a coordinate, rounded toward zero. -/
def halfTowardZero (a : Coord) : Coord :=
  ⟨a.val.tdiv 2, by rw [tdiv_two]; have := a.lower; split <;> omega,
    by rw [tdiv_two]; have := a.upper; have := a.lower; split <;> omega⟩

@[simp] theorem val_half (a : Coord) : a.half.val = a.val / 2 := rfl

@[simp] theorem val_halfTowardZero (a : Coord) : a.halfTowardZero.val = a.val.tdiv 2 := rfl

instance : LE Coord := ⟨fun a b => a.val ≤ b.val⟩
instance : LT Coord := ⟨fun a b => a.val < b.val⟩

instance (a b : Coord) : Decidable (a ≤ b) := inferInstanceAs (Decidable (a.val ≤ b.val))
instance (a b : Coord) : Decidable (a < b) := inferInstanceAs (Decidable (a.val < b.val))

theorem le_iff {a b : Coord} : a ≤ b ↔ a.val ≤ b.val := Iff.rfl
theorem lt_iff {a b : Coord} : a < b ↔ a.val < b.val := Iff.rfl

/-- The decimal digits of a coordinate, after a minus sign where it is negative. -/
def text (a : Coord) : String := toString a.val

end Coord
end PointerMotion
