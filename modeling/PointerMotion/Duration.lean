/-!
# Durations

A duration is a whole number of nanoseconds, less than `2^64` seconds of them.  Sums do not fail:
they stay at the longest duration, which therefore also stands for a time that never ends.

Documents hold durations as whole milliseconds, in a number below `2^64`.  There are more
milliseconds in the longest duration than such a number can say, so the greatest number,
`2^64 - 1`, is read as the longest duration, and every duration of at least that many
milliseconds is written as it.  `ofWritten?_written` says what a duration is after it was written
and read: it has lost the part of a millisecond, unless it is one of those that share the
greatest number.
-/

namespace PointerMotion

/-- A whole number of nanoseconds, less than `2^64` seconds. -/
@[ext] structure Duration where
  nanos : Nat
  bounded : nanos < 18446744073709551616000000000
  deriving DecidableEq, Repr

namespace Duration

/-- The longest duration. -/
def longest : Duration := ⟨18446744073709551615999999999, by decide⟩

/-- The duration of `n` nanoseconds, or the longest one. -/
def clamp (n : Nat) : Duration := ⟨min n 18446744073709551615999999999, by omega⟩

/-- No time at all. -/
def zero : Duration := ⟨0, by decide⟩

instance : Inhabited Duration := ⟨zero⟩

@[simp] theorem nanos_zero : zero.nanos = 0 := rfl

@[simp] theorem nanos_longest : longest.nanos = 18446744073709551615999999999 := rfl

@[simp] theorem nanos_clamp (n : Nat) : (clamp n).nanos = min n 18446744073709551615999999999 := rfl

@[simp] theorem clamp_nanos (d : Duration) : clamp d.nanos = d := by
  have := d.bounded
  ext
  rw [nanos_clamp]
  omega

theorem nanos_le_longest (d : Duration) : d.nanos ≤ longest.nanos := by
  have := d.bounded
  rw [nanos_longest]
  omega

instance : LE Duration := ⟨fun a b => a.nanos ≤ b.nanos⟩
instance : LT Duration := ⟨fun a b => a.nanos < b.nanos⟩

instance (a b : Duration) : Decidable (a ≤ b) := inferInstanceAs (Decidable (a.nanos ≤ b.nanos))
instance (a b : Duration) : Decidable (a < b) := inferInstanceAs (Decidable (a.nanos < b.nanos))

theorem le_iff {a b : Duration} : a ≤ b ↔ a.nanos ≤ b.nanos := Iff.rfl
theorem lt_iff {a b : Duration} : a < b ↔ a.nanos < b.nanos := Iff.rfl

/-- The sum, which stays at the longest duration. -/
instance : Add Duration := ⟨fun a b => clamp (a.nanos + b.nanos)⟩

@[simp] theorem nanos_add (a b : Duration) :
    (a + b).nanos = min (a.nanos + b.nanos) 18446744073709551615999999999 := rfl

/-- What is left of `t` after `d`, which is no longer than `t`. -/
def since (t d : Duration) (_ : d ≤ t) : Duration :=
  ⟨t.nanos - d.nanos, Nat.lt_of_le_of_lt (Nat.sub_le _ _) t.bounded⟩

@[simp] theorem nanos_since {t d : Duration} (h : d ≤ t) :
    (t.since d h).nanos = t.nanos - d.nanos := rfl

/-! ## Milliseconds -/

/-- The duration of `m` milliseconds, or the longest one. -/
def ofMillis (m : Nat) : Duration := clamp (m * 1000000)

/-- The whole milliseconds of a duration. -/
def millis (d : Duration) : Nat := d.nanos / 1000000

/-- The greatest number that a document holds. -/
def greatestWritten : Nat := 18446744073709551615

/-- The number that stands for a duration in a document. -/
def written (d : Duration) : Nat := min d.millis greatestWritten

/-- The duration that a number in a document stands for. -/
def ofWritten? (n : Int) : Option Duration :=
  if 0 ≤ n ∧ n < greatestWritten then some (ofMillis n.toNat)
  else if n = greatestWritten then some longest
  else none

/-- A duration as a document keeps it. -/
def kept (d : Duration) : Duration :=
  if d.millis < greatestWritten then ofMillis d.millis else longest

theorem ofWritten?_written (d : Duration) : ofWritten? d.written = some d.kept := by
  unfold ofWritten? kept written
  by_cases h : d.millis < greatestWritten
  · rw [Nat.min_eq_left (Nat.le_of_lt h), if_pos (by omega), if_pos h, Int.toNat_natCast]
  · rw [Nat.min_eq_right (Nat.le_of_not_lt h), if_neg (by omega), if_pos rfl, if_neg h]

theorem nanos_ofMillis {m : Nat} (h : m ≤ greatestWritten) :
    (ofMillis m).nanos = m * 1000000 := by
  unfold greatestWritten at h
  rw [ofMillis, nanos_clamp]
  omega

end Duration
end PointerMotion
