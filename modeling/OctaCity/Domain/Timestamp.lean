/-
  OctaCity.Domain.Timestamp

  UTC instants as Unix milliseconds.  Only years 1 to 9999 can be built, so
  there are finitely many of them.
-/
import Mathlib.Data.Set.Finite.Lemmas
import Mathlib.Data.Int.Interval

namespace OctaCity.Domain

/-- Earliest supported Unix millisecond timestamp: `0001-01-01T00:00:00Z`. -/
def minTimestampMillis : Int := -62135596800000

/-- Latest supported Unix millisecond timestamp: `9999-12-31T23:59:59.999Z`. -/
def maxTimestampMillis : Int := 253402300799999

/-- UTC instant of millisecond precision within the supported years. -/
structure Timestamp where
  unixMillis : Int
  supported : minTimestampMillis ≤ unixMillis ∧ unixMillis ≤ maxTimestampMillis
  deriving DecidableEq

/-- Instants of the first second of 1970 are supported; samples are built from them. -/
theorem supported_small (n : Nat) :
    minTimestampMillis ≤ min (n : Int) 1000 ∧ min (n : Int) 1000 ≤ maxTimestampMillis := by
  unfold minTimestampMillis maxTimestampMillis
  omega

namespace Timestamp

theorem unixMillis_injective : Function.Injective unixMillis := by
  intro a b h
  cases a
  cases b
  simpa using h

instance : LinearOrder Timestamp :=
  LinearOrder.lift' unixMillis unixMillis_injective

@[simp]
theorem le_iff {a b : Timestamp} : a ≤ b ↔ a.unixMillis ≤ b.unixMillis :=
  Iff.rfl

@[simp]
theorem lt_iff {a b : Timestamp} : a < b ↔ a.unixMillis < b.unixMillis := by
  rw [lt_iff_not_ge, le_iff]
  exact Int.not_le

instance : Finite Timestamp := by
  refine Finite.of_injective
    (fun t : Timestamp => (⟨t.unixMillis, Finset.mem_Icc.mpr t.supported⟩ :
      Finset.Icc minTimestampMillis maxTimestampMillis)) ?_
  intro a b h
  exact unixMillis_injective (congrArg (fun x => x.val) h)

/-- `Timestamp::from_unix_millis`; every caller maps its one error. -/
def fromUnixMillis (value : Int) : Option Timestamp :=
  if h : minTimestampMillis ≤ value ∧ value ≤ maxTimestampMillis then some ⟨value, h⟩ else none

theorem fromUnixMillis_eq_some {value : Int} {t : Timestamp} :
    fromUnixMillis value = some t ↔ t.unixMillis = value := by
  unfold fromUnixMillis
  constructor
  · intro h
    split at h
    · cases h
      rfl
    · cases h
  · rintro rfl
    rw [dif_pos t.supported]

end Timestamp

end OctaCity.Domain
