import Mathlib.Order.Interval.Set.UnorderedInterval
import RideProof.Physics.Step

/-!
# Damping a spin

A torque that works against a spin takes a part of it away, and damps it if that part lies between
nothing and the whole spin (`damped_sub_iff`). The counter-kick of a rotation is meant to work
against the spin of the frame in this way. Its part is a product that is narrowed to a word before
it is capped, so that of a great spin it may leave a word of the other sign; then the counter-kick
drives the spin on.

* `Damped` — a spin is brought nearer to rest, and not past it.
* `counterKickPart`, `counterKickPart_mem_iff` — what a counter-kick takes away, and when it damps.
* `RideState.counterKick_damps_iff` — the torque of the rotation a quarter of a period after it.
-/

namespace RideProof

variable {s : RideState} {v p : Int}

/-! ## Damping -/

/-- The spin `after` is as near to rest as `before` or nearer, and at rest or on the same side. -/
structure Damped (before after : Int32) : Prop where
  /-- It is no greater. -/
  le : after.toInt.natAbs ≤ before.toInt.natAbs
  /-- It has not passed rest. -/
  side : after.toInt = 0 ∨ after.toInt.sign = before.toInt.sign

/-- Whether a spin is damped can be decided. -/
instance (before after : Int32) : Decidable (Damped before after) :=
  decidable_of_iff (after.toInt.natAbs ≤ before.toInt.natAbs ∧
    (after.toInt = 0 ∨ after.toInt.sign = before.toInt.sign))
    ⟨fun h => ⟨h.1, h.2⟩, fun h => ⟨h.le, h.side⟩⟩

/-- A spin is damped if what is left lies between rest and the spin. -/
theorem damped_iff {before after : Int32} :
    Damped before after ↔ after.toInt ∈ Set.uIcc 0 before.toInt := by
  rw [Set.mem_uIcc]
  constructor
  · rintro ⟨hle, hrest | hside⟩
    · omega
    · rcases Int.lt_trichotomy before.toInt 0 with hneg | hzero | hpos
      · rw [Int.sign_eq_neg_one_of_neg hneg, Int.sign_eq_neg_one_iff_neg] at hside
        omega
      · rw [hzero, Int.sign_zero, Int.sign_eq_zero_iff_zero] at hside
        omega
      · rw [Int.sign_eq_one_of_pos hpos, Int.sign_eq_one_iff_pos] at hside
        omega
  · intro hbetween
    refine ⟨by omega, ?_⟩
    rcases Int.lt_trichotomy after.toInt 0 with hneg | hzero | hpos
    · right
      rw [Int.sign_eq_neg_one_of_neg hneg, Int.sign_eq_neg_one_of_neg (by omega)]
    · exact .inl hzero
    · right
      rw [Int.sign_eq_one_of_pos hpos, Int.sign_eq_one_of_pos (by omega)]

/-- A number narrowed to a word is off by a multiple of the number of words. -/
theorem toInt_ofInt_eq (x : Int) : ∃ k, (Int32.ofInt x).toInt = x - 4294967296 * k := by
  refine ⟨x.bdiv 4294967296, ?_⟩
  have hdiv : x.bmod Int32.size + 4294967296 * x.bdiv 4294967296 = x :=
    Int.bmod_add_bdiv x 4294967296
  rw [Int32.toInt_ofInt]
  omega

/-- What is left of a word is off by such a multiple, too. -/
theorem toInt_sub_ofInt_eq (a : Int32) (p : Int) :
    ∃ k, (a - Int32.ofInt p).toInt = a.toInt - p - 4294967296 * k := by
  have hrest : a - Int32.ofInt p = Int32.ofInt (a.toInt - p) := by
    rw [Int32.ofInt_sub, Int32.ofInt_toInt]
  rw [hrest]
  exact toInt_ofInt_eq (a.toInt - p)

/-- A spin is damped if it loses a part that lies between nothing and all of it, and not otherwise:
the rest of a part that fits a word does not wrap around to such a one. -/
theorem damped_sub_iff {spin : Int32} (hp : p.natAbs < 2147483648) :
    Damped spin (spin - Int32.ofInt p) ↔ p ∈ Set.uIcc 0 spin.toInt := by
  obtain ⟨k, hk⟩ := toInt_sub_ofInt_eq spin p
  have hlow := (spin - Int32.ofInt p).le_toInt
  have hhigh := (spin - Int32.ofInt p).toInt_lt
  have hspin := spin.le_toInt
  have hspin' := spin.toInt_lt
  rw [damped_iff, Set.mem_uIcc, Set.mem_uIcc]
  omega

/-- A quotient that is rounded toward zero, by the sign of what is divided. -/
theorem tdiv_cases (a b : Int) :
    (0 ≤ a ∧ a.tdiv b = a / b) ∨ (a < 0 ∧ a.tdiv b = -(-a / b)) := by
  rcases Int.lt_or_le a 0 with hneg | hnonneg
  · right
    have hpos : 0 ≤ -a := by omega
    refine ⟨hneg, ?_⟩
    rw [← Int.tdiv_eq_ediv_of_nonneg hpos, Int.neg_tdiv, Int.neg_neg]
  · exact .inl ⟨hnonneg, Int.tdiv_eq_ediv_of_nonneg hnonneg⟩

/-- A sign times a number, by the sign. -/
theorem sign_mul_cases (a x : Int) :
    (a < 0 ∧ a.sign * x = -x) ∨ (a = 0 ∧ a.sign * x = 0) ∨ (0 < a ∧ a.sign * x = x) := by
  rcases Int.lt_trichotomy a 0 with hneg | rfl | hpos
  · exact .inl ⟨hneg, by rw [Int.sign_eq_neg_one_of_neg hneg, Int.neg_one_mul]⟩
  · exact .inr (.inl ⟨rfl, by rw [Int.sign_zero, Int.zero_mul]⟩)
  · exact .inr (.inr ⟨hpos, by rw [Int.sign_eq_one_of_pos hpos, Int.one_mul]⟩)

/-! ## The counter-kick -/

/-- The word that a spin grows to before the counter-kick is capped, the spin being counted in the
direction of the rotation. -/
def counterKickWord (v : Int) : Int := (Int32.ofInt (v * counterKickGain)).toInt

/-- The part of such a spin that the counter-kick takes away. -/
def counterKickPart (v : Int) : Int :=
  Int.tdiv (counterKickTorque * min radian (counterKickWord v)) chassisAngularMass

/-- The word of the counter-kick lies in the range of a word. -/
theorem counterKickWord_bounds (v : Int) :
    -2147483648 ≤ counterKickWord v ∧ counterKickWord v < 2147483648 :=
  ⟨Int32.le_toInt _, Int32.toInt_lt _⟩

/-- Up to a spin of 39045157 nothing is lost of that word. -/
theorem counterKickWord_of_le (hv : v.natAbs ≤ 39045157) : counterKickWord v = v * 55 := by
  have hword := counterKickWord_bounds v
  obtain ⟨k, hk⟩ := toInt_ofInt_eq (v * 55)
  have heq : counterKickWord v = v * 55 - 4294967296 * k := hk
  omega

/-- The part is that of the capped word, rounded toward zero. -/
theorem counterKickPart_cases (v : Int) :
    (0 ≤ counterKickWord v ∧
      counterKickPart v = 544 * min 683565248 (counterKickWord v) / 30249) ∨
    (counterKickWord v < 0 ∧ counterKickPart v = -(544 * -counterKickWord v / 30249)) := by
  have hquotient := tdiv_cases (544 * min 683565248 (counterKickWord v)) 30249
  have hpart : counterKickPart v = (544 * min 683565248 (counterKickWord v)).tdiv 30249 := rfl
  omega

/-- The part that the counter-kick takes away fits into a word. -/
theorem natAbs_counterKickPart_lt (v : Int) : (counterKickPart v).natAbs < 2147483648 := by
  have hword := counterKickWord_bounds v
  have hpart := counterKickPart_cases v
  omega

/-- A counter-kick damps if its word has the sign of the spin, or is so small that nothing of it is
left. -/
theorem counterKickPart_mem_iff (v : Int) :
    counterKickPart v ∈ Set.uIcc 0 v ↔
      (0 ≤ v ∧ 0 ≤ counterKickWord v) ∨ (v ≤ 0 ∧ counterKickWord v ≤ 0) ∨
        (counterKickWord v).natAbs ≤ 55 := by
  have hword := counterKickWord_bounds v
  have hpart := counterKickPart_cases v
  rw [Set.mem_uIcc]
  by_cases hsmall : v.natAbs ≤ 39045157
  · have hexact := counterKickWord_of_le hsmall
    omega
  · -- the part of a great spin is less than the spin, whatever its word is
    omega

/-- The torque of the counter-kick takes its part of the spin away. -/
theorem rotationTorque_tdiv (hs : s.sinceRotation = counterKickDelay) :
    (rotationTorque s).tdiv chassisAngularMass =
      if s.rotation = .cw then counterKickPart (-s.chassis.angVel.toInt)
      else -counterKickPart s.chassis.angVel.toInt := by
  have hlater : counterKickDelay ≠ 0 := by decide
  unfold rotationTorque counterKickPart counterKickWord
  dsimp only
  rw [hs, if_neg hlater, if_pos rfl]
  split_ifs with hcw
  · rfl
  · rw [Int.neg_mul, Int.neg_tdiv]

/-- **When the counter-kick damps.** A quarter of a period after a rotation, count the spin of the
frame in its direction. The torque of the rotation alone damps the spin if and only if 55 times the
spin, narrowed to a word, has the sign of the spin, or is at most 55 in size. So it does for every
spin up to 39045157, whichever way the frame turns. -/
theorem RideState.counterKick_damps_iff (s : RideState)
    (hs : s.sinceRotation = counterKickDelay) :
    let spin := s.chassis.angVel
    let after := spin + Int32.ofInt ((rotationTorque s).tdiv chassisAngularMass)
    let v := if s.rotation = .cw then -spin.toInt else spin.toInt
    (Damped spin after ↔
      (0 ≤ v ∧ 0 ≤ counterKickWord v) ∨ (v ≤ 0 ∧ counterKickWord v ≤ 0) ∨
        (counterKickWord v).natAbs ≤ 55) ∧
    (spin.toInt.natAbs ≤ 39045157 → Damped spin after) := by
  intro spin after v
  have hdamps : Damped spin after ↔ counterKickPart v ∈ Set.uIcc 0 v := by
    have htorque := rotationTorque_tdiv hs
    by_cases hcw : s.rotation = .cw
    · have hv : v = -spin.toInt := if_pos hcw
      have hafter : after = spin - Int32.ofInt (-counterKickPart (-spin.toInt)) := by
        unfold after
        rw [htorque, if_pos hcw, Int32.ofInt_neg, Int32.sub_neg]
      have hpart := natAbs_counterKickPart_lt (-spin.toInt)
      rw [hafter, hv, damped_sub_iff (by omega), Set.mem_uIcc, Set.mem_uIcc]
      omega
    · have hv : v = spin.toInt := if_neg hcw
      have hafter : after = spin - Int32.ofInt (counterKickPart spin.toInt) := by
        unfold after
        rw [htorque, if_neg hcw, Int32.ofInt_neg, Int32.sub_eq_add_neg]
      rw [hafter, hv]
      exact damped_sub_iff (natAbs_counterKickPart_lt _)
  refine ⟨hdamps.trans (counterKickPart_mem_iff v), ?_⟩
  intro hsmall
  have hv : v.natAbs = spin.toInt.natAbs := by
    unfold v
    split_ifs
    · exact Int.natAbs_neg _
    · rfl
  have hexact := counterKickWord_of_le (hv ▸ hsmall)
  rw [hdamps, counterKickPart_mem_iff, hexact]
  omega

/-- A state in which a counter-kick is due, to a frame with some spin. -/
def RideState.turning (rotation : Rotation) (spin : Int32) : RideState :=
  { startState with
    frame := 50
    lastRotate := 0
    rotation := rotation
    chassis := { startState.chassis with angVel := spin } }

/-- The word of the spin 90000000 has wrapped around to its side, and so it is damped. -/
theorem RideState.counterKick_damps_iff_turning :
    let s := turning .ccw 90000000
    s.sinceRotation = counterKickDelay ∧
      Damped s.chassis.angVel
        (s.chassis.angVel + Int32.ofInt ((rotationTorque s).tdiv chassisAngularMass)) := by
  intro s
  have hs : s.sinceRotation = counterKickDelay := by decide
  exact ⟨hs, (counterKick_damps_iff s hs).1.mpr (.inl (by decide))⟩

/-- From 39045158 on there are spins that the counter-kick drives on, in either direction. -/
theorem RideState.counterKick_speeds_turning :
    let s := turning .ccw 39045158
    let t := turning .cw (-39045158)
    (s.sinceRotation = counterKickDelay ∧
      ¬ Damped s.chassis.angVel
        (s.chassis.angVel + Int32.ofInt ((rotationTorque s).tdiv chassisAngularMass))) ∧
    (t.sinceRotation = counterKickDelay ∧
      ¬ Damped t.chassis.angVel
        (t.chassis.angVel + Int32.ofInt ((rotationTorque t).tdiv chassisAngularMass))) := by
  decide

end RideProof
