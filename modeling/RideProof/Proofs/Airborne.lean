import RideProof.Proofs.Run
import RideProof.Proofs.TickByTick

/-!
# Rides in the air

While neither wheel is within its radius of the ground, throttle and brake turn the wheels and do
nothing else. Take two rides from states that differ in the throttle position and in the wheels'
angles and spins only, and under the same rotations: as long as one of them is in the air, so is the
other, their ticks end alike, and their states differ in nothing else.

The argument compares a ride with the one that has no throttle and whose wheels do not turn
(`RideState.withoutSpin`). The springs, the frame, the head and the finish never see how a wheel
turns (`Forces.of_withoutSpin`), and motor and brake act on nothing else, so that a tick in the air
leaves the state that it leaves without them, apart from what was taken out of it
(`World.step_withoutSpin`). Only a wheel on the ground turns its spin into force; `WheelLoad.grip`
is out of reach here (`Field.advanceWheel_of_clear`).

* `RideState.AgreeButSpin` — agreement apart from the throttle and the wheels' angles and spins.
* `World.Airborne` — both wheels are clear of the ground.
* `RideState.AgreeButSpin.step`, `World.agreeButSpin_of_airborne` — two ticks, and two rides.
-/

namespace RideProof

variable {w : World} {s t q : RideState} {c d : Control} {cs ds : Nat → Control} {n : Nat}

/-! ## States without spin -/

/-- A wheel that does not turn. -/
def Body.withoutSpin (b : Body) : Body := { b with ang := 0, angVel := 0 }

/-- A state without throttle, the wheels of which do not turn. -/
def RideState.withoutSpin (s : RideState) : RideState :=
  { s with
    accel := .idle
    leftWheel := s.leftWheel.withoutSpin
    rightWheel := s.rightWheel.withoutSpin }

/-- A control without throttle. -/
def Control.withoutThrottle (c : Control) : Control := { c with accel := .idle }

/-- Two states agree in all but the throttle position and the wheels' angles and spins. -/
structure RideState.AgreeButSpin (s t : RideState) : Prop where
  /-- As many ticks were played. -/
  frame : s.frame = t.frame
  /-- The last rotation was let through on the same tick. -/
  lastRotate : s.lastRotate = t.lastRotate
  /-- The last rotation is the same. -/
  rotation : s.rotation = t.rotation
  /-- The left wheel is at the same place. -/
  leftPos : s.leftWheel.pos = t.leftWheel.pos
  /-- The left wheel moves alike. -/
  leftVel : s.leftWheel.vel = t.leftWheel.vel
  /-- The right wheel is at the same place. -/
  rightPos : s.rightWheel.pos = t.rightWheel.pos
  /-- The right wheel moves alike. -/
  rightVel : s.rightWheel.vel = t.rightWheel.vel
  /-- The frame is the same, its angle and spin included. -/
  chassis : s.chassis = t.chassis
  /-- The head is at the same place. -/
  headPos : s.headPos = t.headPos
  /-- The head moves alike. -/
  headVel : s.headVel = t.headVel
  /-- The ride is dead in both or in neither. -/
  dead : s.dead = t.dead

/-- Two states agree apart from spin if they are the same without it. -/
theorem RideState.agreeButSpin_iff : s.AgreeButSpin t ↔ s.withoutSpin = t.withoutSpin := by
  constructor
  · intro h
    unfold withoutSpin Body.withoutSpin
    rw [h.frame, h.lastRotate, h.rotation, h.leftPos, h.leftVel, h.rightPos, h.rightVel, h.chassis,
      h.headPos, h.headVel, h.dead]
  · intro h
    unfold withoutSpin Body.withoutSpin at h
    simp only [mk.injEq, Body.mk.injEq] at h
    obtain ⟨hframe, hlast, -, hrotation, ⟨hleft, hleft', -⟩, ⟨hright, hright', -⟩, hchassis, hhead,
      hhead', hdead⟩ := h
    exact ⟨hframe, hlast, hrotation, hleft, hleft', hright, hright', hchassis, hhead, hhead', hdead⟩

/-- Whether states agree but for the spin of the wheels can be decided. -/
instance (s t : RideState) : Decidable (s.AgreeButSpin t) :=
  decidable_of_iff _ RideState.agreeButSpin_iff.symm

/-! ## Both wheels in the air -/

/-- Neither wheel is within its radius of the ground. -/
def World.Airborne (w : World) (s : RideState) : Prop :=
  ¬ w.field.groundDistance s.leftWheel.pos < wheelRadius ∧
    ¬ w.field.groundDistance s.rightWheel.pos < wheelRadius

/-- Whether both wheels are in the air can be decided. -/
instance (w : World) (s : RideState) : Decidable (w.Airborne s) :=
  inferInstanceAs (Decidable (_ ∧ _))

/-- Taking a control over moves no wheel. -/
theorem World.Airborne.of_request (h : w.Airborne s) (hreq : s.counted.request c = some q) :
    w.Airborne q := by
  rcases RideState.eq_of_request hreq with ⟨-, rfl⟩ | ⟨-, -, rfl⟩
  · exact h
  · exact h

/-- States that agree apart from spin are in the air together. -/
theorem RideState.AgreeButSpin.airborne (h : s.AgreeButSpin t) (hair : w.Airborne s) :
    w.Airborne t := by
  unfold World.Airborne at hair ⊢
  rwa [← h.leftPos, ← h.rightPos]

/-- A wheel that is clear of the ground moves under what acts on it, without contact. -/
theorem Field.advanceWheel_of_clear {f : Field} {l : WheelLoad}
    (h : ¬ f.groundDistance l.wheel.pos < wheelRadius) :
    f.advanceWheel l = some (l.wheel.integrate l.force l.torque wheelMass wheelAngularMass) := by
  -- inside the ground, the distance is 0
  have houtside : ¬ groundLevel < (f.sample l.wheel.pos).height.toInt := by
    intro hinside
    refine h ?_
    unfold groundDistance Sample.groundDistance
    rw [if_pos hinside]
    decide
  unfold advanceWheel
  dsimp only
  rw [if_neg houtside, if_neg (show ¬ (f.sample l.wheel.pos).groundDistance < wheelRadius from h)]

/-- All bodies move under the forces of the state, and no wheel is stopped. -/
theorem World.move_of_airborne (h : w.Airborne s) :
    w.move s =
      (RideState.moveUpperBodies
        { s with
          leftWheel := s.leftWheel.integrate (Forces.of s).left (Forces.of s).leftTorque wheelMass
            wheelAngularMass
          rightWheel := s.rightWheel.integrate (Forces.of s).right (Forces.of s).rightTorque
            wheelMass wheelAngularMass }
        (Forces.of s), false) := by
  have hleft :
      w.field.advanceWheel ⟨s.leftWheel, (Forces.of s).left, (Forces.of s).leftTorque⟩ = _ :=
    Field.advanceWheel_of_clear h.1
  have hright :
      w.field.advanceWheel ⟨s.rightWheel, (Forces.of s).right, (Forces.of s).rightTorque⟩ = _ :=
    Field.advanceWheel_of_clear h.2
  unfold move
  dsimp only
  rw [hleft]
  dsimp only
  rw [hright]

/-! ## What never sees spin -/

/-- Without throttle no torque acts on the wheels; all other forces and torques are the same. -/
theorem Forces.of_withoutSpin (s : RideState) :
    Forces.of s.withoutSpin = { Forces.of s with leftTorque := 0, rightTorque := 0 } := by
  have hleft (anchor : Point) :
      coupleWheel s.withoutSpin.chassis s.withoutSpin.leftWheel anchor =
        coupleWheel s.chassis s.leftWheel anchor := rfl
  have hright (anchor : Point) :
      coupleWheel s.withoutSpin.chassis s.withoutSpin.rightWheel anchor =
        coupleWheel s.chassis s.rightWheel anchor := rfl
  have hhead (anchor : Point) : coupleHead s.withoutSpin anchor = coupleHead s anchor := rfl
  have hrotation : rotationTorque s.withoutSpin = rotationTorque s := rfl
  have hmotor : motorTorques s.withoutSpin = (0, 0) := rfl
  unfold Forces.of
  dsimp only
  rw [hleft, hright, hhead, hrotation, hmotor]
  rfl

/-- A torque does nothing but to change how a body turns. -/
theorem Body.integrate_withoutSpin (b : Body) (force : Force) (torque mass angularMass : Int) :
    b.withoutSpin.integrate force 0 mass angularMass =
      (b.integrate force torque mass angularMass).withoutSpin := by
  unfold integrate withoutSpin
  rw [Int.zero_tdiv]
  rfl

/-- A request is let through, or refused, whatever its throttle position. -/
theorem RideState.request_withoutSpin (s : RideState) (c : Control) :
    s.withoutSpin.request c.withoutThrottle = (s.request c).map withoutSpin := by
  have hsince : s.withoutSpin.sinceRotation = s.sinceRotation := rfl
  unfold request Control.withoutThrottle
  rw [hsince]
  dsimp only
  split_ifs <;> rfl

/-- In the air, bodies without spin move as with it, apart from how the wheels turn. -/
theorem World.move_withoutSpin (h : w.Airborne s) :
    w.move s.withoutSpin = ((w.move s).1.withoutSpin, (w.move s).2) := by
  have hspinless : w.Airborne s.withoutSpin := h
  have hleft := s.leftWheel.integrate_withoutSpin (Forces.of s).left (Forces.of s).leftTorque
    wheelMass wheelAngularMass
  have hright := s.rightWheel.integrate_withoutSpin (Forces.of s).right (Forces.of s).rightTorque
    wheelMass wheelAngularMass
  rw [move_of_airborne hspinless, move_of_airborne h, Forces.of_withoutSpin]
  unfold RideState.withoutSpin RideState.moveUpperBodies
  dsimp only
  rw [hleft, hright]

/-! ## Ticks and rides -/

/-- Taking throttle and spin out of a state takes a tick in the air to one without them: neither the
finish nor the head sees how a wheel turns. -/
theorem World.tickMap_withoutSpin (hair : w.Airborne s) (c : Control) :
    w.TickMap w s c c.withoutThrottle RideState.withoutSpin where
  dead := rfl
  frame := rfl
  counted := rfl
  request := s.counted.request_withoutSpin c
  move _ hreq := move_withoutSpin (hair.of_request hreq)
  captured _ := rfl
  head _ := rfl
  killed _ := rfl

/-- A tick in the air ends as without throttle and spin, and leaves the state that it leaves without
them, apart from what was taken out of it. -/
theorem World.step_withoutSpin (hair : w.Airborne s) (c : Control) :
    w.step s.withoutSpin c.withoutThrottle = ((w.step s c).1.withoutSpin, (w.step s c).2) :=
  (tickMap_withoutSpin hair c).step_eq

/-- Under the same rotation, a tick in the air keeps the agreement and ends alike. -/
theorem RideState.AgreeButSpin.step (h : s.AgreeButSpin t) (hair : w.Airborne s)
    (hrotation : c.rotation = d.rotation) :
    (w.step s c).1.AgreeButSpin (w.step t d).1 ∧ (w.step s c).2 = (w.step t d).2 := by
  have hcontrol : c.withoutThrottle = d.withoutThrottle :=
    congrArg (fun rotation => (⟨.idle, rotation⟩ : Control)) hrotation
  have hs := World.step_withoutSpin hair c
  have ht := World.step_withoutSpin (h.airborne hair) d
  rw [agreeButSpin_iff.mp h, hcontrol, ht, Prod.mk.injEq] at hs
  exact ⟨agreeButSpin_iff.mpr hs.1.symm, hs.2.symm⟩

/-- As long as a ride is in the air, one from a state that agrees apart from spin, under the same
rotations, keeps the agreement. -/
theorem RideState.AgreeButSpin.stateAfter (h : s.AgreeButSpin t)
    (hrotation : ∀ f < n, (cs f).rotation = (ds f).rotation)
    (hair : ∀ f < n, w.Airborne (w.stateAfter s cs f)) :
    (w.stateAfter s cs n).AgreeButSpin (w.stateAfter t ds n) := by
  induction n with
  | zero => exact h
  | succ n ih =>
      have hagree := ih (fun f hf => hrotation f (Nat.lt_succ_of_lt hf))
        (fun f hf => hair f (Nat.lt_succ_of_lt hf))
      exact (hagree.step (hair n (Nat.lt_succ_self n)) (hrotation n (Nat.lt_succ_self n))).1

/-- **In the air, throttle and brake touch nothing but wheel spin.** Take two rides from states that
agree in all but the throttle position and the wheels' angles and spins, under the same rotations
and any throttle positions. As long as one of them is in the air at the start of each tick, every
tick has the same result in both, and before and after every tick their states agree in all but the
throttle position and the wheels' angles and spins. -/
theorem World.agreeButSpin_of_airborne (w : World) (hstart : s.AgreeButSpin t)
    (hrotation : ∀ f < n, (cs f).rotation = (ds f).rotation)
    (hair : ∀ f < n, w.Airborne (w.stateAfter s cs f)) :
    (∀ f < n, w.resultAt s cs f = w.resultAt t ds f) ∧
      ∀ f ≤ n, (w.stateAfter s cs f).AgreeButSpin (w.stateAfter t ds f) := by
  have hagree (f : Nat) (hf : f ≤ n) :
      (w.stateAfter s cs f).AgreeButSpin (w.stateAfter t ds f) :=
    hstart.stateAfter (fun g hg => hrotation g (Nat.lt_of_lt_of_le hg hf))
      (fun g hg => hair g (Nat.lt_of_lt_of_le hg hf))
  refine ⟨?_, hagree⟩
  intro f hf
  exact ((hagree f (Nat.le_of_lt hf)).step (hair f hf) (hrotation f hf)).2

/-- The start of a ride with the brake pulled and the left wheel spinning. -/
def RideState.startSpun : RideState :=
  { startState with
    accel := .brake
    leftWheel := { startState.leftWheel with ang := 1048576, angVel := 16777216 } }

/-- The controls of a rotation on the first tick, with one throttle position throughout. -/
def Control.kickUnder (accel : Accel) (f : Nat) : Control := ⟨accel, if f = 0 then .cw else .none⟩

/-- A short drop under gas, and from the spun start under the brake: both are won on their second
tick, and no wheel turns in one as it does in the other. -/
theorem World.agreeButSpin_of_airborne_shortDrop :
    let gas := Control.kickUnder .gasRight
    let brake := Control.kickUnder .brake
    let spun := RideState.startSpun
    startState.AgreeButSpin spun ∧ (∀ f < 2, (gas f).rotation = (brake f).rotation) ∧
    (∀ f < 2, shortDrop.Airborne (shortDrop.stateAfter startState gas f)) ∧
    (∀ f < 2, shortDrop.resultAt startState gas f = shortDrop.resultAt spun brake f) ∧
    (∀ f ≤ 2, (shortDrop.stateAfter startState gas f).AgreeButSpin
      (shortDrop.stateAfter spun brake f)) ∧
    shortDrop.resultAt startState gas 1 = .success ∧
    (shortDrop.stateAfter startState gas 2).leftWheel.angVel ≠
      (shortDrop.stateAfter spun brake 2).leftWheel.angVel ∧
    (shortDrop.stateAfter startState gas 2).rightWheel.angVel ≠
      (shortDrop.stateAfter spun brake 2).rightWheel.angVel := by
  intro gas brake spun
  have hstart : startState.AgreeButSpin spun := by decide
  have hrotation : ∀ f < 2, (gas f).rotation = (brake f).rotation := by decide
  have hair : ∀ f < 2, shortDrop.Airborne (shortDrop.stateAfter startState gas f) := by
    decide +kernel
  obtain ⟨hresults, hagree⟩ := shortDrop.agreeButSpin_of_airborne hstart hrotation hair
  exact ⟨hstart, hrotation, hair, hresults, hagree, by decide +kernel, by decide +kernel,
    by decide +kernel⟩

end RideProof
