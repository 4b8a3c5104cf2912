import Mathlib.Data.Int.Lemmas
import Mathlib.Order.Bounds.Basic
import RideProof.Proofs.MachineTick
import RideProof.Proofs.TorusShift

/-!
# How near the finish has to be

The finish is captured by comparing squares in units of `2^32`, each rounded down. Three roundings
go into one comparison, but they add up to one unit only: a body that captures is nearer than the
radius, or farther by less than one unit of the square; and a body that is nearer by one unit of
the square captures.

* `distanceSq` — the squared distance of two points. `distanceSq_isLeast`: no other way around the
  torus is shorter.
* `distanceSq_lt_of_within`, `within_of_distanceSq_le` — the two bounds.
* `within_mono` — a larger radius captures more.
* `within_exact` — all of it, on machines too.
-/

namespace RideProof

/-! ## Distances on the torus -/

/-- The square of the distance of two points, by the signed differences of their coordinates. -/
def distanceSq (a b : Point) : Int := (a - b).x.toInt ^ 2 + (a - b).y.toInt ^ 2

/-- The difference of two words is the least one between the coordinates that they stand for. -/
theorem natAbs_toInt_sub_le (a b : Int32) (turns : Int) :
    (a - b).toInt.natAbs ≤ (a.toInt - b.toInt + turns * 4294967296).natAbs := by
  rw [Int32.toInt_sub, Int.bmod_def]
  split <;> omega

/-- The distance is the least one on the torus, where each coordinate may be reached by full turns
either way. -/
theorem distanceSq_isLeast (a b : Point) :
    IsLeast {d : Int | ∃ k l : Int, d = (a.x.toInt - b.x.toInt + k * 4294967296) ^ 2 +
      (a.y.toInt - b.y.toInt + l * 4294967296) ^ 2} (distanceSq a b) := by
  have hturns (p q : Int32) : ∃ k : Int, (p - q).toInt = p.toInt - q.toInt + k * 4294967296 := by
    rw [Int32.toInt_sub, Int.bmod_def]
    split
    · exact ⟨-((p.toInt - q.toInt) / 4294967296), by omega⟩
    · exact ⟨-((p.toInt - q.toInt) / 4294967296) - 1, by omega⟩
  constructor
  · obtain ⟨k, hk⟩ := hturns a.x b.x
    obtain ⟨l, hl⟩ := hturns a.y b.y
    exact ⟨k, l, by rw [distanceSq, Pair.sub_x, Pair.sub_y, hk, hl]⟩
  · rintro d ⟨k, l, rfl⟩
    exact add_le_add (Int.natAbs_le_iff_sq_le.mp (natAbs_toInt_sub_le a.x b.x k))
      (Int.natAbs_le_iff_sq_le.mp (natAbs_toInt_sub_le a.y b.y l))

/-! ## The test and the distance -/

/-- Points are near if the squares of their differences, each divided and rounded down, sum up to
less than that of the radius. -/
theorem within_iff {a b : Point} {radius : Int32} :
    within a b radius = true ↔
      (a - b).x.toInt ^ 2 / 4294967296 + (a - b).y.toInt ^ 2 / 4294967296 <
        radius.toInt ^ 2 / 4294967296 := by
  simp only [within, decide_eq_true_eq, Int.pow_succ, Int.pow_zero, Int.one_mul]

/-- A body that captures is hardly farther than the radius. -/
theorem distanceSq_lt_of_within {a b : Point} {radius : Int32} (h : within a b radius = true) :
    distanceSq a b < radius.toInt ^ 2 + 4294967296 := by
  rw [within_iff] at h
  unfold distanceSq
  -- two squares lose less than two units, and the sum is less than the square of the radius by one
  omega

/-- A body that is nearer than the radius by more than the roundings captures. -/
theorem within_of_distanceSq_le {a b : Point} {radius : Int32}
    (h : distanceSq a b ≤ radius.toInt ^ 2 - 4294967296) : within a b radius = true := by
  rw [within_iff]
  unfold distanceSq at h
  omega

/-- A larger radius captures more. -/
theorem within_mono {a b : Point} {radius larger : Int32} (hnonneg : 0 ≤ radius.toInt)
    (hle : radius.toInt ≤ larger.toInt) (h : within a b radius = true) :
    within a b larger = true := by
  rw [within_iff] at h ⊢
  have hsquare : radius.toInt ^ 2 ≤ larger.toInt ^ 2 := by
    rw [Int.pow_succ, Int.pow_succ, Int.pow_succ, Int.pow_succ]
    simpa using Int.mul_le_mul hle hle hnonneg (Int.le_trans hnonneg hle)
  exact Int.lt_of_lt_of_le h (Int.ediv_le_ediv (by decide) hsquare)

/-- **The capture test is the distance on the torus, up to one unit of the square.** The distance is
the least one, over all ways around. On a machine of either kind the test meets no fault, for any
points. A body that captures is at a squared distance of less than one unit above the square of the
radius; one at a squared distance of a unit or more below it captures. Points that are moved alike
are as near as before, and what a radius captures, a larger one captures too. -/
theorem within_exact (a b : Point) (radius : Int32) (hnonneg : 0 ≤ radius.toInt) :
    IsLeast {d : Int | ∃ k l : Int, d = (a.x.toInt - b.x.toInt + k * 4294967296) ^ 2 +
      (a.y.toInt - b.y.toInt + l * 4294967296) ^ 2} (distanceSq a b) ∧
    (∀ m : Machine, m.within a b radius = some (within a b radius)) ∧
    (within a b radius = true → distanceSq a b < radius.toInt ^ 2 + 2 ^ 32) ∧
    (distanceSq a b ≤ radius.toInt ^ 2 - 2 ^ 32 → within a b radius = true) ∧
    (∀ d : Point, within (a + d) (b + d) radius = within a b radius) ∧
    ∀ larger : Int32, radius.toInt ≤ larger.toInt → within a b radius = true →
      within a b larger = true := by
  refine ⟨distanceSq_isLeast a b, fun m => m.within_eq a b radius, distanceSq_lt_of_within,
    within_of_distanceSq_le, fun d => within_displace a b d radius, ?_⟩
  intro larger hle
  exact within_mono hnonneg hle

/-- Two points on either side of the seam of the torus, one step apart: each captures the other with
the radius of a wheel, and with the greatest radius there is. -/
theorem within_exact_seam :
    distanceSq ⟨2147483647, 0⟩ ⟨-2147483648, 0⟩ ≤ wheelCaptureRadius.toInt ^ 2 - 2 ^ 32 ∧
      within ⟨2147483647, 0⟩ ⟨-2147483648, 0⟩ wheelCaptureRadius = true ∧
      distanceSq ⟨2147483647, 0⟩ ⟨-2147483648, 0⟩ < wheelCaptureRadius.toInt ^ 2 + 2 ^ 32 ∧
      within ⟨2147483647, 0⟩ ⟨-2147483648, 0⟩ 2147483647 = true := by
  obtain ⟨-, -, hlt, hcaptures, -, hmono⟩ :=
    within_exact ⟨2147483647, 0⟩ ⟨-2147483648, 0⟩ wheelCaptureRadius (by decide)
  have hnear : distanceSq ⟨2147483647, 0⟩ ⟨-2147483648, 0⟩ ≤
      wheelCaptureRadius.toInt ^ 2 - 2 ^ 32 := by decide
  have hwithin := hcaptures hnear
  exact ⟨hnear, hwithin, hlt hwithin, hmono 2147483647 (by decide) hwithin⟩

/-- The roundings can add almost a unit to the distance that captures. -/
example : within ⟨65535, 65535⟩ ⟨0, 0⟩ 65536 = true ∧ (65536 : Int) ^ 2 + 2 ^ 32 - 2 ^ 18 <
    distanceSq ⟨65535, 65535⟩ ⟨0, 0⟩ := by decide

/-- They can also keep a body from capturing that is nearer than the radius. -/
example : within ⟨65536, 0⟩ ⟨0, 0⟩ 92681 = false ∧ distanceSq ⟨65536, 0⟩ ⟨0, 0⟩ < 92681 ^ 2 := by
  decide

end RideProof
