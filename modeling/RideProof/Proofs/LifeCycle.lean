import RideProof.Proofs.Run

/-!
# The life of a ride

A ride from the start of a course, however long, under any controls and whatever its ticks answer:
it goes on after a refused rotation and after the finish, and it stands still once it is dead. What
holds of each tick needs one invariant of the ride, that a live ride has counted fewer ticks than
permitted.

* `World.LawfulTick` — what a tick does to a state, result by result.
* `World.liveTicks` — how many ticks found the ride alive. These are the ticks that it counts
  (`World.frame_eq_liveTicks`), and they are at most 15000.
* `World.RotatesAt` — a rotation request is let through, which makes it the last rotation
  (`World.frame_le_lastRotate`).
* `World.lifeCycle` — all of it together.
-/

namespace RideProof

variable {w : World} {s t : RideState} {c : Control} {r : StepResult} {cs : Nat → Control}
  {m n : Nat}

/-! ## One tick -/

/-- What a tick that leads from `s` to `t` with result `r` does to a state. -/
structure World.LawfulTick (s t : RideState) (r : StepResult) : Prop where
  /-- A dead state stays as it is. -/
  dead : s.dead = true → r = .failure .alreadyDead ∧ t = s
  /-- A live ride counts the tick. -/
  counted : s.dead = false → t.frame.toInt = s.frame.toInt + 1
  /-- A ride dies of three reasons. -/
  dies : s.dead = false ∧ t.dead = true ↔
    r = .failure .frameCap ∨ r = .failure .wheelInGround ∨ r = .failure .headCrash
  /-- One of them is the count of ticks, when it gets to the tick that no ride survives. -/
  capped : r = .failure .frameCap ↔ s.frame.toInt < 15000 ∧ t.frame.toInt = 15000
  /-- Beside the count, that tick changes nothing but whether the ride is dead. -/
  capped_only : r = .failure .frameCap → t = { s with frame := t.frame, dead := true }
  /-- A refused rotation changes nothing but the count. -/
  refused_only : r = .failure .rotationCooldown → t = { s with frame := t.frame }
  /-- A wheel in the ground stops the tick before the frame and the head move. -/
  stuck_only : r = .failure .wheelInGround →
    t.chassis = s.chassis ∧ t.headPos = s.headPos ∧ t.headVel = s.headVel

/-- A request leaves the bodies alone. -/
theorem RideState.bodies_of_request {q : RideState} (h : s.request c = some q) :
    q.chassis = s.chassis ∧ q.headPos = s.headPos ∧ q.headVel = s.headVel := by
  rcases eq_of_request h with ⟨-, rfl⟩ | ⟨-, -, rfl⟩ <;> exact ⟨rfl, rfl, rfl⟩

/-- A motion that a wheel in the ground stopped has moved no more than a wheel. -/
theorem World.bodies_of_stuck (h : (w.move s).2 = true) :
    (w.move s).1.chassis = s.chassis ∧ (w.move s).1.headPos = s.headPos ∧
      (w.move s).1.headVel = s.headVel := by
  unfold move at h ⊢
  dsimp only at h ⊢
  split at h
  · exact ⟨rfl, rfl, rfl⟩
  · split at h
    · exact ⟨rfl, rfl, rfl⟩
    · cases h

/-- A tick changes a state as it should, if a live ride has ticks left. -/
theorem World.lawfulTick_of_step (h : w.step s c = (t, r)) (hs : s.frame.toInt = n)
    (hlive : s.dead = false → n < 15000) : LawfulTick s t r where
  dead hdead := by
    rw [w.step_of_dead hdead] at h
    cases h
    exact ⟨rfl, rfl⟩
  counted alive := by
    rw [hs]
    exact toInt_step_frame h alive hs (hlive alive)
  dies := by
    constructor
    · rintro ⟨alive, hdead⟩
      obtain ⟨reason, hfatal, rfl⟩ := (step_dead h alive).mp hdead
      cases reason <;> simp_all [Failure.isFatal]
    · intro hr
      have alive : s.dead = false := by
        apply alive_of_step h
        rcases hr with rfl | rfl | rfl <;> nofun
      refine ⟨alive, (step_dead h alive).mpr ?_⟩
      rcases hr with rfl | rfl | rfl <;> exact ⟨_, rfl, rfl⟩
  capped := by
    constructor
    · rintro rfl
      have alive := alive_of_step h nofun
      have hcap := (step_cap h alive).mp rfl
      have hlt := hlive alive
      exact ⟨by omega, (eq_frameCap_iff t.frame).mp hcap⟩
    · rintro ⟨hlt, hcap⟩
      cases hdead : s.dead with
      | false => exact (step_cap h hdead).mpr ((eq_frameCap_iff t.frame).mpr hcap)
      | true =>
          rw [w.step_of_dead hdead] at h
          cases h
          omega
  capped_only := by
    rintro rfl
    cases tick_of_step h with
    | capped => rfl
  refused_only := by
    rintro rfl
    cases tick_of_step h with
    | refused => rfl
  stuck_only := by
    rintro rfl
    cases tick_of_step h with
    | stuck _ _ hreq hmove =>
        obtain ⟨hchassis, hpos, hvel⟩ := RideState.bodies_of_request hreq
        obtain ⟨hchassis', hpos', hvel'⟩ := bodies_of_stuck hmove
        exact ⟨hchassis'.trans hchassis, hpos'.trans hpos, hvel'.trans hvel⟩

/-! ## Counting the ticks of a life -/

/-- How many of the first `n` ticks found the ride alive. -/
def World.liveTicks (w : World) (s : RideState) (cs : Nat → Control) (n : Nat) : Nat :=
  (List.range n).countP fun i => !(w.stateAfter s cs i).dead

/-- One more tick counts if it finds the ride alive. -/
theorem World.liveTicks_succ (w : World) (s : RideState) (cs : Nat → Control) (n : Nat) :
    w.liveTicks s cs (n + 1) =
      w.liveTicks s cs n + if (w.stateAfter s cs n).dead then 0 else 1 := by
  unfold liveTicks
  rw [List.range_succ, List.countP_append, List.countP_singleton]
  cases (w.stateAfter s cs n).dead <;> rfl

/-- More ticks count no less. -/
theorem World.liveTicks_mono (w : World) (s : RideState) (cs : Nat → Control) (h : m ≤ n) :
    w.liveTicks s cs m ≤ w.liveTicks s cs n :=
  (List.range_sublist.mpr h).countP_le

/-- A ride has counted the ticks that found it alive, and a live ride has ticks left. -/
theorem World.frame_eq_liveTicks (w : World) (cs : Nat → Control) (n : Nat) :
    (w.stateAfter startState cs n).frame.toInt = w.liveTicks startState cs n ∧
      w.liveTicks startState cs n ≤ 15000 ∧
      ((w.stateAfter startState cs n).dead = false → w.liveTicks startState cs n < 15000) := by
  induction n with
  | zero => exact ⟨rfl, Nat.zero_le _, fun _ => Nat.zero_lt_succ _⟩
  | succ n ih =>
      obtain ⟨hframe, hle, hlive⟩ := ih
      have htick := lawfulTick_of_step (w.step_stateAfter startState cs n) hframe hlive
      have hcount := w.liveTicks_succ startState cs n
      cases hdead : (w.stateAfter startState cs n).dead with
      | true =>
          rw [hdead, if_pos rfl, Nat.add_zero] at hcount
          rw [(htick.dead hdead).2, hcount]
          exact ⟨hframe, hle, hlive⟩
      | false =>
          have hlt := hlive hdead
          have hnext := htick.counted hdead
          rw [hdead, if_neg Bool.false_ne_true] at hcount
          refine ⟨by omega, by omega, ?_⟩
          intro alive
          -- on the tick that no ride survives the ride would be dead
          have hcap : (w.stateAfter startState cs (n + 1)).frame.toInt ≠ 15000 := by
            intro hcap
            have hdies := htick.dies.mpr (.inl (htick.capped.mpr ⟨by omega, hcap⟩))
            rw [hdies.2] at alive
            cases alive
          omega

/-- No tick of a ride from the start breaks a law. -/
theorem World.lawfulTick_stateAfter (w : World) (cs : Nat → Control) (n : Nat) :
    LawfulTick (w.stateAfter startState cs n) (w.stateAfter startState cs (n + 1))
      (w.resultAt startState cs n) :=
  have hcount := w.frame_eq_liveTicks cs n
  lawfulTick_of_step (w.step_stateAfter startState cs n) hcount.1 hcount.2.2

/-! ## Rotations of a life -/

/-- Tick `n` finds the ride alive and lets a rotation request through. -/
structure World.RotatesAt (w : World) (s : RideState) (cs : Nat → Control) (n : Nat) : Prop where
  /-- There is a request. -/
  requested : (cs n).rotation ≠ .none
  /-- The ride is alive. -/
  alive : (w.stateAfter s cs n).dead = false
  /-- The request is not refused. -/
  not_refused : w.resultAt s cs n ≠ .failure .rotationCooldown
  /-- The tick is not the one that no ride survives. -/
  not_capped : w.resultAt s cs n ≠ .failure .frameCap

/-- A request that is let through comes a period after the last rotation, and is the last rotation
from then on. -/
theorem World.lastRotate_of_accepted (h : w.step s c = (t, r)) (alive : s.dead = false)
    (hc : c.rotation ≠ .none) (hrefused : r ≠ .failure .rotationCooldown)
    (hcapped : r ≠ .failure .frameCap) :
    rotationPeriod ≤ s.counted.sinceRotation ∧ t.lastRotate = t.frame := by
  have hq {q : RideState} (hreq : s.counted.request c = some q) :
      rotationPeriod ≤ s.counted.sinceRotation ∧
        (w.move q).1.lastRotate = (w.move q).1.frame := by
    rw [w.move_lastRotate, w.move_frame]
    rcases RideState.eq_of_request hreq with ⟨hnone, -⟩ | ⟨-, hsince, rfl⟩
    · exact absurd hnone hc
    · exact ⟨hsince, rfl⟩
  cases tick_of_step h with
  | dead hdead => rw [alive] at hdead; cases hdead
  | capped => exact absurd rfl hcapped
  | refused => exact absurd rfl hrefused
  | stuck _ _ hreq => exact hq hreq
  | finished _ _ hreq => exact hq hreq
  | crashed _ _ hreq => exact hq hreq
  | on _ _ hreq => exact hq hreq

/-- The last rotation is left as it is, or is this tick. -/
theorem World.lastRotate_eq_or (h : w.step s c = (t, r)) :
    t.lastRotate = s.lastRotate ∨ t.lastRotate = t.frame := by
  have hq {q : RideState} (hreq : s.counted.request c = some q) :
      (w.move q).1.lastRotate = s.lastRotate ∨
        (w.move q).1.lastRotate = (w.move q).1.frame := by
    rw [w.move_lastRotate, w.move_frame]
    rcases RideState.eq_of_request hreq with ⟨-, rfl⟩ | ⟨-, -, rfl⟩
    · exact .inl rfl
    · exact .inr rfl
  cases tick_of_step h with
  | dead => exact .inl rfl
  | capped => exact .inl rfl
  | refused => exact .inl rfl
  | stuck _ _ hreq => exact hq hreq
  | finished _ _ hreq => exact hq hreq
  | crashed _ _ hreq => exact hq hreq
  | on _ _ hreq => exact hq hreq

/-- After a rotation the last rotation is that one or a later one. -/
theorem World.frame_le_lastRotate (h : w.RotatesAt startState cs m) (hn : m < n) :
    (w.stateAfter startState cs (m + 1)).frame.toInt ≤
      (w.stateAfter startState cs n).lastRotate.toInt := by
  induction n with
  | zero => exact absurd hn (Nat.not_lt_zero m)
  | succ n ih =>
      have hstep := w.step_stateAfter startState cs n
      rcases Nat.lt_succ_iff_lt_or_eq.mp hn with hlt | rfl
      · rcases lastRotate_eq_or hstep with hsame | hnow
        · rw [hsame]
          exact ih hlt
        · rw [hnow, (w.frame_eq_liveTicks cs (m + 1)).1, (w.frame_eq_liveTicks cs (n + 1)).1]
          exact Int.ofNat_le.mpr (w.liveTicks_mono startState cs hn)
      · have hnow :=
          (lastRotate_of_accepted hstep h.alive h.requested h.not_refused h.not_capped).2
        exact Int.le_of_eq (congrArg Int32.toInt hnow.symm)

/-- Rotations that were let through are a period apart. -/
theorem World.RotatesAt.apart (hm : w.RotatesAt startState cs m) (hn : w.RotatesAt startState cs n)
    (hlt : m < n) :
    (w.stateAfter startState cs (m + 1)).frame.toInt + 200 ≤
      (w.stateAfter startState cs (n + 1)).frame.toInt := by
  have hlast := frame_le_lastRotate hm hlt
  have hstep := w.step_stateAfter startState cs n
  have hsince :=
    (lastRotate_of_accepted hstep hn.alive hn.requested hn.not_refused hn.not_capped).1
  obtain ⟨hframe, -, hlive⟩ := w.frame_eq_liveTicks cs n
  unfold RideState.sinceRotation RideState.counted rotationPeriod at hsince
  dsimp only at hsince
  rw [toInt_succ_of_lt hframe (hlive hn.alive)] at hsince
  rw [toInt_step_frame hstep hn.alive hframe (hlive hn.alive)]
  omega

/-! ## A whole life -/

/-- **The life of a ride.** From the start of a course, under any controls and whatever the ticks
answer, every tick changes the state as it should; the ride counts the ticks that find it alive, at
most 15000 of them; and the ticks that let a rotation through are 200 apart. -/
theorem World.lifeCycle (w : World) (cs : Nat → Control) :
    (∀ n, LawfulTick (w.stateAfter startState cs n) (w.stateAfter startState cs (n + 1))
      (w.resultAt startState cs n)) ∧
    (∀ n, (w.stateAfter startState cs n).frame.toInt = w.liveTicks startState cs n ∧
      (w.stateAfter startState cs n).frame.toInt ≤ 15000) ∧
    (∀ m n, m < n → w.RotatesAt startState cs m → w.RotatesAt startState cs n →
      (w.stateAfter startState cs (m + 1)).frame.toInt + 200 ≤
        (w.stateAfter startState cs (n + 1)).frame.toInt) := by
  refine ⟨w.lawfulTick_stateAfter cs, ?_, ?_⟩
  · intro n
    obtain ⟨hframe, hle, -⟩ := w.frame_eq_liveTicks cs n
    exact ⟨hframe, by omega⟩
  · intro m n hlt hm hn
    exact hm.apart hn hlt

end RideProof
