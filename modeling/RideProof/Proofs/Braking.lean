import RideProof.Proofs.Airborne
import RideProof.Proofs.Damping

/-!
# Braking

The brake works against the spin of a wheel as seen from the frame. Its part of the spin is a
product that is narrowed to a word and then capped. Below the cap it is a little more than the spin
itself, 160 parts of 159, so that from a size of 159 on the wheel is turned back past rest; and of a
great spin the narrowing may leave a word of the other sign, which drives the spin on.

* `brakePart`, `WithinBrake`, `brakePart_mem_iff` — what the brake takes away, and of which spins
  that is a part.
* `Field.spin_of_brake` — a wheel in the air under the brake.
* `World.brake_damps_iff` — when a tick under the brake damps, and how much spin it leaves.
-/

namespace RideProof

variable {w : World} {s q : RideState} {c : Control} {d : Nat}

/-! ## The part of the brake -/

/-- The word that a spin of size `d` grows to before the brake is capped. -/
def brakeWord (d : Nat) : Int := (Int32.ofInt (d * brakeGain)).toInt

/-- The part of a spin of size `d`, as seen from the frame, that the brake takes away. -/
def brakePart (d : Nat) : Int :=
  Int.tdiv (min radian (brakeWord d) * brakeFriction) wheelAngularMass

/-- The sizes of spin of which the brake takes a part between nothing and all. -/
def WithinBrake (d : Nat) : Prop :=
  d ≤ 158 ∨ (171966100 ≤ d ∧ d < 536870912) ∨ (1073741824 ≤ d ∧ d < 1610612736) ∨ d = 2147483648

/-- Whether the brake takes a part between nothing and all can be decided. -/
instance (d : Nat) : Decidable (WithinBrake d) := inferInstanceAs (Decidable (_ ∨ _))

/-- The word of the brake is the product, around the range of a word. -/
theorem brakeWord_eq (d : Nat) : ∃ k, brakeWord d = d * 4 - 4294967296 * k ∧
    -2147483648 ≤ brakeWord d ∧ brakeWord d < 2147483648 := by
  obtain ⟨k, hk⟩ := toInt_ofInt_eq (d * 4)
  exact ⟨k, hk, Int32.le_toInt _, Int32.toInt_lt _⟩

/-- The part is that of the capped word, rounded toward zero. -/
theorem brakePart_cases (d : Nat) :
    (0 ≤ brakeWord d ∧ brakePart d = min 683565248 (brakeWord d) * 40 / 159) ∨
    (brakeWord d < 0 ∧ brakePart d = -(-brakeWord d * 40 / 159)) := by
  have hquotient := tdiv_cases (min 683565248 (brakeWord d) * 40) 159
  have hpart : brakePart d = (min 683565248 (brakeWord d) * 40).tdiv 159 := rfl
  omega

/-- The part that the brake takes away fits into a word. -/
theorem natAbs_brakePart_lt (d : Nat) : (brakePart d).natAbs < 2147483648 := by
  obtain ⟨k, -, hword⟩ := brakeWord_eq d
  have hpart := brakePart_cases d
  omega

/-- A spin loses a part between nothing and all of it on these sizes only: small ones, ones for
which the cap is no more than the spin, and ones whose word has wrapped around to its side. -/
theorem brakePart_mem_iff (hd : d ≤ 2147483648) :
    0 ≤ brakePart d ∧ brakePart d ≤ d ↔ WithinBrake d := by
  obtain ⟨k, hk, hword⟩ := brakeWord_eq d
  have hpart := brakePart_cases d
  have hwraps : k = 0 ∨ k = 1 ∨ k = 2 := by omega
  unfold WithinBrake
  rcases hwraps with rfl | rfl | rfl
  · omega
  · omega
  · omega

/-- A spin that the cap covers loses all but its 159th part, or more than all. -/
theorem brakePart_sub_le (hd : d < 171966100) :
    (d : Int) - brakePart d ≤ 0 ∧ brakePart d - d ≤ d / 159 := by
  obtain ⟨k, hk, hword⟩ := brakeWord_eq d
  have hpart := brakePart_cases d
  have hexact : k = 0 := by omega
  rw [hexact] at hk
  omega

/-! ## Braked wheels -/

/-- The torque of the brake takes its part of the spin away. -/
theorem brakeTorque_tdiv (wheel chassis : Body) :
    (brakeTorque wheel chassis).tdiv wheelAngularMass =
      -((wheel.angVel - chassis.angVel).toInt.sign *
        brakePart (wheel.angVel - chassis.angVel).toInt.natAbs) := by
  unfold brakeTorque brakePart brakeWord
  dsimp only
  generalize (wheel.angVel - chassis.angVel).toInt = rel
  generalize min radian (Int32.ofInt (rel.natAbs * brakeGain)).toInt = k
  have htorque : rel.sign * k * -brakeFriction = -(rel.sign * (k * brakeFriction)) := by
    rw [Int.mul_neg, Int.mul_assoc]
  rw [htorque, Int.neg_tdiv]
  rcases Int.lt_trichotomy rel 0 with hneg | hzero | hpos
  · rw [Int.sign_eq_neg_one_of_neg hneg, Int.neg_one_mul, Int.neg_one_mul, Int.neg_tdiv]
  · rw [hzero, Int.sign_zero, Int.zero_mul, Int.zero_mul, Int.zero_tdiv]
  · rw [Int.sign_eq_one_of_pos hpos, Int.one_mul, Int.one_mul]

/-- A spin that loses the part of the brake is damped on the sizes of `WithinBrake`. -/
theorem damped_sub_brakePart_iff (rel : Int32) :
    Damped rel (rel - Int32.ofInt (rel.toInt.sign * brakePart rel.toInt.natAbs)) ↔
      WithinBrake rel.toInt.natAbs := by
  have hlow := rel.le_toInt
  have hhigh := rel.toInt_lt
  have hsign := sign_mul_cases rel.toInt (brakePart rel.toInt.natAbs)
  have hpart := natAbs_brakePart_lt rel.toInt.natAbs
  have hrest : rel.toInt = 0 → brakePart rel.toInt.natAbs = 0 := by
    intro hzero
    rw [hzero]
    decide
  rw [← brakePart_mem_iff (by omega), damped_sub_iff (by omega), Set.mem_uIcc]
  omega

/-- Of a spin that the cap covers, the brake leaves at most a 159th part. -/
theorem natAbs_sub_brakePart_le {rel : Int32} (h : rel.toInt.natAbs < 171966100) :
    (rel - Int32.ofInt (rel.toInt.sign * brakePart rel.toInt.natAbs)).toInt.natAbs ≤
      rel.toInt.natAbs / 159 := by
  have hpart := brakePart_sub_le h
  have hsign := sign_mul_cases rel.toInt (brakePart rel.toInt.natAbs)
  obtain ⟨k, hk⟩ := toInt_sub_ofInt_eq rel (rel.toInt.sign * brakePart rel.toInt.natAbs)
  have hlow := (rel - Int32.ofInt (rel.toInt.sign * brakePart rel.toInt.natAbs)).le_toInt
  have hhigh := (rel - Int32.ofInt (rel.toInt.sign * brakePart rel.toInt.natAbs)).toInt_lt
  omega

/-- A tick whose wheels get through moves both of them. -/
theorem World.wheels_of_move (h : (w.move q).2 = false) :
    w.field.advanceWheel ⟨q.leftWheel, (Forces.of q).left, (Forces.of q).leftTorque⟩ =
        some (w.move q).1.leftWheel ∧
      w.field.advanceWheel ⟨q.rightWheel, (Forces.of q).right, (Forces.of q).rightTorque⟩ =
        some (w.move q).1.rightWheel := by
  unfold move at h ⊢
  dsimp only at h ⊢
  split at h
  · cases h
  · rename_i left hleft
    split at h
    · cases h
    · rename_i right hright
      rw [hleft]
      dsimp only at hright ⊢
      rw [hright]
      exact ⟨rfl, rfl⟩

/-- A tick that takes a control over, and stops at no wheel, leaves the wheels where their motion
takes them. -/
theorem World.wheels_of_step (alive : s.dead = false) (hcap : (w.step s c).2 ≠ .failure .frameCap)
    (hrefused : (w.step s c).2 ≠ .failure .rotationCooldown)
    (hground : (w.step s c).2 ≠ .failure .wheelInGround) :
    ∃ q, s.counted.request c = some q ∧ (w.move q).2 = false ∧
      (w.step s c).1.leftWheel = (w.move q).1.leftWheel ∧
      (w.step s c).1.rightWheel = (w.move q).1.rightWheel := by
  rcases hstep : w.step s c with ⟨t, r⟩
  rw [hstep] at hcap hrefused hground
  cases tick_of_step hstep with
  | dead hdead => rw [alive] at hdead; cases hdead
  | capped => exact absurd rfl hcap
  | refused => exact absurd rfl hrefused
  | stuck => exact absurd rfl hground
  | finished _ _ hreq hmove => exact ⟨_, hreq, hmove, rfl, rfl⟩
  | crashed _ _ hreq hmove => exact ⟨_, hreq, hmove, rfl, rfl⟩
  | on _ _ hreq hmove => exact ⟨_, hreq, hmove, rfl, rfl⟩

/-- Any other tick leaves the wheels as they are. -/
theorem World.wheels_of_idle_step (h : s.dead = true ∨ (w.step s c).2 = .failure .frameCap ∨
    (w.step s c).2 = .failure .rotationCooldown) :
    (w.step s c).1.leftWheel = s.leftWheel ∧ (w.step s c).1.rightWheel = s.rightWheel := by
  rcases hstep : w.step s c with ⟨t, r⟩
  rw [hstep] at h
  cases tick_of_step hstep with
  | dead => exact ⟨rfl, rfl⟩
  | capped => exact ⟨rfl, rfl⟩
  | refused => exact ⟨rfl, rfl⟩
  | stuck alive => simp [alive] at h
  | finished alive => simp [alive] at h
  | crashed alive => simp [alive] at h
  | on alive => simp [alive] at h

/-- Taking a control over leaves wheels and frame alone. -/
theorem RideState.wheels_of_request (h : s.counted.request c = some q) :
    q.leftWheel = s.leftWheel ∧ q.rightWheel = s.rightWheel ∧ q.chassis = s.chassis ∧
      q.accel = c.accel := by
  rcases eq_of_request h with ⟨-, rfl⟩ | ⟨-, -, rfl⟩
  · exact ⟨rfl, rfl, rfl, rfl⟩
  · exact ⟨rfl, rfl, rfl, rfl⟩

/-- A torque changes a spin by its quotient with the angular mass. -/
theorem Body.angVel_integrate (b : Body) (force : Force) (torque mass angularMass : Int) :
    (b.integrate force torque mass angularMass).angVel =
      b.angVel + Int32.ofInt (torque.tdiv angularMass) := rfl

/-- A wheel in the air loses the part of the brake, as seen from the frame. -/
theorem Field.spin_of_brake {f : Field} {wheel chassis next : Body} {force : Force}
    (hclear : ¬ f.groundDistance wheel.pos < wheelRadius)
    (h : f.advanceWheel ⟨wheel, force, brakeTorque wheel chassis⟩ = some next) :
    next.angVel - chassis.angVel = (wheel.angVel - chassis.angVel) -
      Int32.ofInt ((wheel.angVel - chassis.angVel).toInt.sign *
        brakePart (wheel.angVel - chassis.angVel).toInt.natAbs) := by
  have hmoves : f.advanceWheel ⟨wheel, force, brakeTorque wheel chassis⟩ = _ :=
    advanceWheel_of_clear hclear
  rw [hmoves] at h
  rw [← Option.some.inj h, Body.angVel_integrate, brakeTorque_tdiv, Int32.ofInt_neg]
  generalize Int32.ofInt _ = part
  grind

/-- Both wheels are braked under the brake. -/
theorem Forces.torques_of_brake (h : q.accel = .brake) :
    (Forces.of q).leftTorque = brakeTorque q.leftWheel q.chassis ∧
      (Forces.of q).rightTorque = brakeTorque q.rightWheel q.chassis := by
  unfold Forces.of motorTorques
  dsimp only
  rw [h]
  exact ⟨rfl, rfl⟩

/-- **When the brake damps.** Take a tick under the brake that stops at no wheel in the ground, and
a wheel that is clear of the ground before it. If the tick takes its control over, the spin of the
wheel as seen from the frame before the tick is damped if and only if its size is one of
`WithinBrake`; and if the size is below 171966100, at most a 159th part of the spin is left, on
whichever side. Any other tick leaves the spin as it is. -/
theorem World.brake_damps_iff (w : World) (s : RideState) (c : Control) (hbrake : c.accel = .brake)
    (hground : (w.step s c).2 ≠ .failure .wheelInGround) (wheel : RideState → Body)
    (hwheel : wheel ∈ [RideState.leftWheel, RideState.rightWheel])
    (hclear : ¬ w.field.groundDistance (wheel s).pos < wheelRadius) :
    let rel := (wheel s).angVel - s.chassis.angVel
    let after := (wheel (w.step s c).1).angVel - s.chassis.angVel
    let idle := s.dead = true ∨ (w.step s c).2 = .failure .frameCap ∨
      (w.step s c).2 = .failure .rotationCooldown
    (idle → after = rel) ∧
    (¬ idle → (Damped rel after ↔ WithinBrake rel.toInt.natAbs) ∧
      (rel.toInt.natAbs < 171966100 → after.toInt.natAbs ≤ rel.toInt.natAbs / 159)) := by
  intro rel after idle
  have hside : wheel = RideState.leftWheel ∨ wheel = RideState.rightWheel := by simpa using hwheel
  constructor
  · intro hidle
    obtain ⟨hleft, hright⟩ := wheels_of_idle_step hidle
    rcases hside with rfl | rfl
    · exact congrArg (·.angVel - s.chassis.angVel) hleft
    · exact congrArg (·.angVel - s.chassis.angVel) hright
  · intro hplayed
    simp only [idle, not_or, Bool.not_eq_true] at hplayed
    obtain ⟨alive, hcap, hrefused⟩ := hplayed
    obtain ⟨q, hreq, hmove, hleft, hright⟩ := wheels_of_step alive hcap hrefused hground
    obtain ⟨hqleft, hqright, hqchassis, hqaccel⟩ := RideState.wheels_of_request hreq
    obtain ⟨hleftTorque, hrightTorque⟩ := Forces.torques_of_brake (hqaccel.trans hbrake)
    obtain ⟨hleftMoves, hrightMoves⟩ := wheels_of_move hmove
    rw [hleftTorque, hqleft, hqchassis, ← hleft] at hleftMoves
    rw [hrightTorque, hqright, hqchassis, ← hright] at hrightMoves
    have hafter : after =
        rel - Int32.ofInt (rel.toInt.sign * brakePart rel.toInt.natAbs) := by
      rcases hside with rfl | rfl
      · exact Field.spin_of_brake hclear hleftMoves
      · exact Field.spin_of_brake hclear hrightMoves
    rw [hafter]
    exact ⟨damped_sub_brakePart_iff rel, natAbs_sub_brakePart_le⟩

/-- The start of a ride with the left wheel spinning. -/
def RideState.spun (spin : Int32) : RideState :=
  { startState with leftWheel := { startState.leftWheel with angVel := spin } }

/-- A spin that is greater than the cap is damped. -/
theorem World.brake_damps_iff_spun :
    let s := RideState.spun 200000000
    (shortDrop.step s ⟨.brake, .none⟩).2 ≠ .failure .wheelInGround ∧
      ¬ shortDrop.field.groundDistance s.leftWheel.pos < wheelRadius ∧
      Damped s.leftWheel.angVel (shortDrop.step s ⟨.brake, .none⟩).1.leftWheel.angVel := by
  intro s
  have hground : (shortDrop.step s ⟨.brake, .none⟩).2 ≠ .failure .wheelInGround := by
    decide +kernel
  have hclear : ¬ shortDrop.field.groundDistance s.leftWheel.pos < wheelRadius := by
    decide +kernel
  have hplayed : ¬ (s.dead = true ∨
      (shortDrop.step s ⟨.brake, .none⟩).2 = .failure .frameCap ∨
      (shortDrop.step s ⟨.brake, .none⟩).2 = .failure .rotationCooldown) := by decide +kernel
  have hiff := (shortDrop.brake_damps_iff s ⟨.brake, .none⟩ rfl hground RideState.leftWheel
    (by simp) hclear).2 hplayed
  have hdamped := hiff.1.mpr (by decide)
  have hrest : s.chassis.angVel = 0 := rfl
  rw [hrest, Int32.sub_zero, Int32.sub_zero] at hdamped
  exact ⟨hground, hclear, hdamped⟩

/-- The brake turns a wheel with the spin 159 back past rest, and drives a wheel with the spin
536870912 on. -/
theorem World.brake_overshoots_spun :
    let s := RideState.spun 159
    let t := RideState.spun 536870912
    let s' := shortDrop.step s ⟨.brake, .none⟩
    let t' := shortDrop.step t ⟨.brake, .none⟩
    (s.frame = 0 ∧ s.lastRotate = -10000 ∧ s'.2 ≠ .failure .wheelInGround ∧
      ¬ shortDrop.field.groundDistance s.leftWheel.pos < wheelRadius ∧
      ¬ Damped (s.leftWheel.angVel - s.chassis.angVel) (s'.1.leftWheel.angVel - s.chassis.angVel)) ∧
    (t.frame = 0 ∧ t.lastRotate = -10000 ∧ t'.2 ≠ .failure .wheelInGround ∧
      ¬ shortDrop.field.groundDistance t.leftWheel.pos < wheelRadius ∧
      ¬ Damped (t.leftWheel.angVel - t.chassis.angVel)
        (t'.1.leftWheel.angVel - t.chassis.angVel)) := by
  decide +kernel

end RideProof
