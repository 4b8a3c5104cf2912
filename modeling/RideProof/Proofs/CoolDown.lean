import RideProof.Proofs.LifeCycle
import RideProof.Proofs.Advancing

/-!
# The cool-down of rotations

Two tests keep rotations a period apart. A live session asks the state before a tick whether it may
rotate, and drops the request if not; the tick asks again after it is counted, and fails. Between
the two one tick is counted, so the session waits for one tick longer than the tick itself does.

* `World.refused_iff` — when a tick refuses its request.
* `World.canRotate_iff_honored` — the two tests agree but for one tick, on which a session drops
  what the tick would let through.
* `World.honored_before_canRotate_insist` — that tick, in the ride of a rider who insists.
-/

namespace RideProof

variable {w : World} {s : RideState} {c : Control} {cs : Nat → Control} {n : Nat}

/-! ## Two tests -/

/-- A live ride below its last tick refuses a request that comes too soon, and nothing else. -/
theorem World.refused_iff (alive : s.dead = false) (hcap : s.frame + 1 ≠ frameCap) :
    (w.step s c).2 = .failure .rotationCooldown ↔
      c.rotation ≠ .none ∧ s.counted.sinceRotation < rotationPeriod := by
  rw [← RideState.request_eq_none, step_of_alive alive, if_neg hcap]
  rcases s.counted.request c with _ | q
  · simp
  · dsimp only [judge]
    split_ifs <;> simp

/-- Counting a tick that is left adds one to the ticks since the last rotation. -/
theorem RideState.sinceRotation_counted (hframe : (s.frame + 1).toInt = s.frame.toInt + 1) :
    s.counted.sinceRotation = s.sinceRotation + 1 := by
  have hcounted : s.counted.frame.toInt = s.frame.toInt + 1 := hframe
  have hlast : s.counted.lastRotate = s.lastRotate := rfl
  unfold sinceRotation
  rw [hcounted, hlast]
  omega

/-- A rotation is allowed from 200 ticks after the last on. -/
theorem RideState.canRotate_iff : s.canRotate rotationPeriod = true ↔ 200 ≤ s.sinceRotation :=
  decide_eq_true_iff

/-- A live state of a ride from the start counts its next tick. -/
theorem World.toInt_frame_succ (alive : (w.stateAfter startState cs n).dead = false) :
    ((w.stateAfter startState cs n).frame + 1).toInt =
      (w.stateAfter startState cs n).frame.toInt + 1 := by
  obtain ⟨hframe, -, hlive⟩ := w.frame_eq_liveTicks cs n
  rw [hframe]
  exact toInt_succ_of_lt hframe (hlive alive)

/-- Whatever a session plays for a rotation, it plays none unless the state may rotate. -/
theorem Session.rotation_controlFor (s : RideState) (log : RideLog) (c : Control) :
    (controlFor s log c).2.rotation = .none ∨ s.canRotate rotationPeriod = true := by
  by_cases hrotate : s.canRotate rotationPeriod = true
  · exact .inr hrotate
  · left
    unfold controlFor
    dsimp only
    rw [if_neg hrotate]
    rcases log.record s.frame.toInt ⟨c.accel, .none⟩ with ⟨log, _ | _⟩
    · rfl
    · rfl

/-- **The session waits one tick too long.** Take any live state of a ride from the start of a
course, below the last tick, and a request of a rotation. That the state may rotate says that the
tick honors the request, and says it exactly unless the last rotation is 199 ticks ago. So a session
never plays a request that the tick refuses, whatever its log; but 199 ticks after a rotation it
drops a request that the tick would honor. -/
theorem World.canRotate_iff_honored (w : World) (cs : Nat → Control) (n : Nat) (c : Control)
    (hc : c.rotation ≠ .none) (alive : (w.stateAfter startState cs n).dead = false)
    (hleft : (w.stateAfter startState cs n).frame.toInt + 1 < 15000) :
    let s := w.stateAfter startState cs n
    let honored := (w.step s c).2 ≠ .failure .rotationCooldown
    ((s.canRotate rotationPeriod = true ↔ honored) ↔ s.sinceRotation ≠ 199) ∧
    (s.canRotate rotationPeriod = true → honored) ∧
    ∀ log : RideLog, (w.step s (Session.controlFor s log c).2).2 ≠ .failure .rotationCooldown ∧
      (s.sinceRotation = 199 → honored ∧ (Session.controlFor s log c).2.rotation = .none) := by
  intro s honored
  have hframe : (s.frame + 1).toInt = s.frame.toInt + 1 := toInt_frame_succ alive
  have hsince : s.counted.sinceRotation = s.sinceRotation + 1 :=
    RideState.sinceRotation_counted hframe
  have hperiod : rotationPeriod = 200 := rfl
  have hcap : s.frame + 1 ≠ frameCap := by
    intro h
    have hlast := (eq_frameCap_iff _).mp h
    rw [hframe] at hlast
    exact absurd hlast (Int.ne_of_lt hleft)
  have hrefused (d : Control) :
      (w.step s d).2 = .failure .rotationCooldown ↔ d.rotation ≠ .none ∧ s.sinceRotation < 199 := by
    rw [refused_iff alive hcap, hsince, hperiod]
    exact and_congr_right fun _ => by omega
  have hhonored : honored ↔ 199 ≤ s.sinceRotation := by
    have h := hrefused c
    constructor
    · intro hgranted
      by_contra hsoon
      exact hgranted (h.mpr ⟨hc, Int.not_le.mp hsoon⟩)
    · intro hlate hfail
      exact absurd (h.mp hfail).2 (Int.not_lt.mpr hlate)
  have hmay : s.canRotate rotationPeriod = true ↔ 200 ≤ s.sinceRotation := RideState.canRotate_iff
  refine ⟨?_, ?_, ?_⟩
  · rw [hmay, hhonored]
    omega
  · rw [hmay, hhonored]
    omega
  · intro log
    have hplayed := Session.rotation_controlFor s log c
    rw [hmay] at hplayed
    constructor
    · intro hfail
      obtain ⟨hrot, hsoon⟩ := (hrefused _).mp hfail
      rcases hplayed with hnone | hlate
      · exact hrot hnone
      · omega
    · intro hgap
      refine ⟨hhonored.mpr (Int.le_of_eq hgap.symm), hplayed.resolve_right ?_⟩
      omega

/-! ## A rider who insists -/

/-- The controls of a rider who asks for a rotation on every tick. -/
def Control.insist (_ : Nat) : Control := ⟨.idle, .cw⟩

/-- After 199 ticks of a rider who insists, of which the first let the rotation through, both tests
say that the next request comes too soon. -/
theorem World.canRotate_iff_honored_insist :
    let s := World.shortDrop.stateAfter startState Control.insist 199
    s.dead = false ∧ s.frame.toInt + 1 < 15000 ∧ s.sinceRotation = 198 ∧
      s.canRotate rotationPeriod = false ∧
      (shortDrop.step s ⟨.gasLeft, .ccw⟩).2 = .failure .rotationCooldown := by
  intro s
  have alive : s.dead = false := by decide +kernel
  have hleft : s.frame.toInt + 1 < 15000 := by decide +kernel
  have hsince : s.sinceRotation = 198 := by decide +kernel
  have hrotate : s.canRotate rotationPeriod = false := by
    rw [Bool.eq_false_iff, ne_eq, RideState.canRotate_iff, hsince]
    decide
  have hagree := (shortDrop.canRotate_iff_honored Control.insist 199 ⟨.gasLeft, .ccw⟩ (by decide)
    alive hleft).1.mpr (by rw [hsince]; decide)
  refine ⟨alive, hleft, hsince, hrotate, ?_⟩
  by_contra hhonored
  rw [hagree.mpr hhonored] at hrotate
  cases hrotate

/-- One tick later the state still may not rotate, and the tick honors the request. -/
theorem World.honored_before_canRotate_insist :
    let s := World.shortDrop.stateAfter startState Control.insist 200
    s.dead = false ∧ s.frame.toInt + 1 < 15000 ∧ s.canRotate rotationPeriod = false ∧
      (shortDrop.step s ⟨.idle, .cw⟩).2 ≠ .failure .rotationCooldown := by
  decide +kernel

end RideProof
