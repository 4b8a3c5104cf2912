import RideProof.Proofs.FullLog

/-!
# Kicks and counter-kicks

A rotation turns the frame by a kick on the tick of its request, and slows the turn by a
counter-kick a quarter of a period later. Nothing in a state says that a counter-kick is due: the
state only holds the last rotation and the tick that let it through, and both are compared with the
count of the ticks. That is enough because the state always holds the last request of the ride
(`World.remembers_ridden`), and no request comes in the time between a kick and its counter-kick
(`World.rotations_apart`).

* `Impulse`, `RideState.impulse` — what the last rotation does to the frame, and its torque
  (`rotationTorque_eq`).
* `Control.lastRequest` — the last request among the controls of a ride.
* `World.ridden` — the state whose bodies a tick moves.
* `World.impulse_eq_kick_iff`, `World.impulse_eq_counterKick_iff` — on which ticks they come.
* `World.impulses_of_goesOn` — one kick and one counter-kick for each request.
-/

namespace RideProof

variable {w : World} {s q : RideState} {c : Control} {cs : Nat → Control} {r : Rotation}
  {f g n : Nat}

/-! ## Impulses -/

/-- What the last rotation does to the frame on a tick. -/
inductive Impulse
  /-- Nothing. -/
  | rest
  /-- It sets the frame turning. -/
  | kick (r : Rotation)
  /-- It works against the spin. -/
  | counterKick (r : Rotation)
  deriving DecidableEq, Repr

/-- The torque of an impulse on a frame with a spin. -/
def Impulse.torque (spin : Int32) : Impulse → Int
  | .rest => 0
  | .kick r => if r = .cw then -kickTorque else kickTorque
  | .counterKick r =>
    if r = .cw then
      counterKickTorque * min radian (Int32.ofInt (-spin.toInt * counterKickGain)).toInt
    else -counterKickTorque * min radian (Int32.ofInt (spin.toInt * counterKickGain)).toInt

/-- The impulse of the last rotation: a kick on the tick that let it through, a counter-kick
`counterKickDelay` ticks later. -/
def RideState.impulse (s : RideState) : Impulse :=
  if s.sinceRotation = 0 then .kick s.rotation
  else if s.sinceRotation = counterKickDelay then .counterKick s.rotation
  else .rest

/-- The torque of the last rotation is the torque of its impulse. -/
theorem rotationTorque_eq (s : RideState) :
    rotationTorque s = s.impulse.torque s.chassis.angVel := by
  unfold rotationTorque RideState.impulse
  dsimp only
  split_ifs with hnow hlater hcw
  all_goals simp [Impulse.torque, *]

/-! ## The last request -/

/-- The number of the last among the first `n` ticks that requests a rotation. -/
def Control.lastRequest (cs : Nat → Control) : (n : Nat) → Option Nat
  | 0 => none
  | n + 1 => if (cs n).rotation = .none then lastRequest cs n else some n

/-- A tick that requests nothing leaves the last request. -/
theorem Control.lastRequest_succ_of_none (h : (cs n).rotation = .none) :
    lastRequest cs (n + 1) = lastRequest cs n := if_pos h

/-- A tick that requests a rotation is the last request. -/
theorem Control.lastRequest_succ_of_some (h : (cs n).rotation ≠ .none) :
    lastRequest cs (n + 1) = some n := if_neg h

/-- The last request is one, and none comes after it. -/
theorem Control.lastRequest_eq_some_iff :
    lastRequest cs n = some g ↔
      g < n ∧ (cs g).rotation ≠ .none ∧ ∀ p, g < p → p < n → (cs p).rotation = .none := by
  induction n with
  | zero =>
    constructor
    · intro h
      cases h
    · rintro ⟨h, -⟩
      exact absurd h (Nat.not_lt_zero g)
  | succ n ih =>
    by_cases hn : (cs n).rotation = .none
    · rw [lastRequest_succ_of_none hn, ih]
      constructor
      · rintro ⟨hlt, hg, hafter⟩
        refine ⟨Nat.lt_succ_of_lt hlt, hg, ?_⟩
        intro p hgp hp
        rcases Nat.lt_succ_iff_lt_or_eq.mp hp with hpn | rfl
        · exact hafter p hgp hpn
        · exact hn
      · rintro ⟨hlt, hg, hafter⟩
        have hne : g ≠ n := by
          rintro rfl
          exact hg hn
        exact ⟨by omega, hg, fun p hgp hp => hafter p hgp (Nat.lt_succ_of_lt hp)⟩
    · rw [lastRequest_succ_of_some hn, Option.some.injEq]
      constructor
      · rintro rfl
        exact ⟨Nat.lt_succ_self n, hn, fun p hnp hp => by omega⟩
      · rintro ⟨hlt, -, hafter⟩
        by_contra hne
        exact hn (hafter n (by omega) (Nat.lt_succ_self n))

/-- What a state of a ride holds of the rotations requested on its first `n` ticks: the last of
them, or what it held at the start. -/
structure RideState.Remembers (s : RideState) (cs : Nat → Control) (n : Nat) : Prop where
  /-- The tick that let the last one through. -/
  lastRotate : s.lastRotate.toInt =
    (Control.lastRequest cs n).elim startState.lastRotate.toInt fun g => (g : Int) + 1
  /-- Its direction. -/
  rotation : s.rotation =
    (Control.lastRequest cs n).elim startState.rotation fun g => (cs g).rotation

/-- At the start nothing was requested, and nothing is remembered. -/
theorem RideState.remembers_startState (cs : Nat → Control) : startState.Remembers cs 0 :=
  ⟨rfl, rfl⟩

/-- Counting a tick leaves what a state holds of the rotations alone. -/
theorem RideState.Remembers.counted (h : s.Remembers cs n) : s.counted.Remembers cs n :=
  ⟨h.lastRotate, h.rotation⟩

/-- Taking a control over adds its request to what a state holds. -/
theorem RideState.Remembers.request (h : s.Remembers cs n) (hframe : s.frame.toInt = n + 1)
    (hreq : s.request (cs n) = some q) : q.Remembers cs (n + 1) := by
  rcases eq_of_request hreq with ⟨hnone, rfl⟩ | ⟨hsome, -, rfl⟩
  · have hlast := Control.lastRequest_succ_of_none hnone
    exact ⟨hlast ▸ h.lastRotate, hlast ▸ h.rotation⟩
  · have hlast := Control.lastRequest_succ_of_some hsome
    constructor
    · rw [hlast]
      exact hframe
    · rw [hlast]
      rfl

/-- Moving the bodies leaves the direction of the last rotation alone. -/
@[simp] theorem World.move_rotation (w : World) (s : RideState) :
    (w.move s).1.rotation = s.rotation := by
  obtain ⟨_, _, _, _, _, h⟩ := w.move_eq s
  rw [h]

/-- Moving the bodies leaves what a state holds of the rotations alone. -/
theorem RideState.Remembers.move (h : s.Remembers cs n) (w : World) :
    (w.move s).1.Remembers cs n :=
  ⟨(congrArg Int32.toInt (w.move_lastRotate s)).trans h.lastRotate,
    (w.move_rotation s).trans h.rotation⟩

/-! ## The states whose bodies move -/

/-- The state whose bodies tick `n` moves: the tick is counted, and its control taken over. -/
def World.ridden (w : World) (s : RideState) (cs : Nat → Control) (n : Nat) : RideState :=
  ((w.stateAfter s cs n).counted.request (cs n)).getD (w.stateAfter s cs n).counted

/-- A tick that does not fail lets its control through, and moves the bodies. -/
theorem World.Unfailing.request_ridden (h : w.Unfailing s cs n) (hf : f < n) :
    (w.stateAfter s cs f).counted.request (cs f) = some (w.ridden s cs f) ∧
      w.stateAfter s cs (f + 1) = (w.move (w.ridden s cs f)).1 := by
  obtain ⟨q, hreq, hnext⟩ := request_of_step (w.step_stateAfter s cs f) (h f hf)
  have hq : w.ridden s cs f = q := by
    unfold ridden
    rw [hreq]
    rfl
  rw [hq]
  exact ⟨hreq, hnext⟩

/-- The state whose bodies a tick moves has that tick counted. -/
theorem World.Unfailing.frame_ridden (h : w.Unfailing s cs n) (hs : s.frame.toInt = 0)
    (hf : f < n) : (w.ridden s cs f).frame.toInt = f + 1 := by
  have hframe := (frame_stateAfter hs (h.mono hf)).1
  rwa [(h.request_ridden hf).2, w.move_frame] at hframe

/-- A ride that has not failed holds the last request among its ticks. -/
theorem World.remembers_stateAfter (h : w.Unfailing startState cs n) :
    (w.stateAfter startState cs n).Remembers cs n := by
  induction n with
  | zero => exact RideState.remembers_startState cs
  | succ n ih =>
    obtain ⟨hreq, hnext⟩ := h.request_ridden (Nat.lt_succ_self n)
    have hframe := h.frame_ridden rfl (Nat.lt_succ_self n)
    rw [RideState.frame_of_request hreq] at hframe
    have hbefore := ih (h.mono (Nat.le_succ n))
    rw [hnext]
    exact (hbefore.counted.request hframe hreq).move w

/-- So does the state whose bodies a tick moves, the request of that tick included. -/
theorem World.remembers_ridden (h : w.Unfailing startState cs n) (hf : f < n) :
    (w.ridden startState cs f).Remembers cs (f + 1) := by
  have hafter := remembers_stateAfter (h.mono hf)
  rw [(h.request_ridden hf).2] at hafter
  exact ⟨(congrArg Int32.toInt (w.move_lastRotate _)).symm.trans hafter.lastRotate,
    (w.move_rotation _).symm.trans hafter.rotation⟩

/-! ## When impulses come -/

/-- The ticks since the last request, in the state whose bodies a tick moves. -/
theorem World.sinceRotation_ridden (h : w.Unfailing startState cs n) (hf : f < n) :
    (w.ridden startState cs f).sinceRotation =
      (Control.lastRequest cs (f + 1)).elim (f + 10001 : Int) fun g => (f : Int) - g := by
  unfold RideState.sinceRotation
  rw [h.frame_ridden rfl hf, (remembers_ridden h hf).lastRotate]
  rcases Control.lastRequest cs (f + 1) with _ | g
  · have hstart : startState.lastRotate.toInt = -10000 := rfl
    dsimp only [Option.elim_none]
    omega
  · dsimp only [Option.elim_some]
    omega

/-- For a quarter of a period a request stays the last one. -/
theorem World.lastRequest_eq_some (h : w.Unfailing startState cs n) (hf : f < n)
    (hg : (cs g).rotation ≠ .none) (hgf : g ≤ f) (hnear : f ≤ g + 50) :
    Control.lastRequest cs (f + 1) = some g := by
  refine Control.lastRequest_eq_some_iff.mpr ⟨by omega, hg, ?_⟩
  intro p hgp hp
  by_contra hrot
  have hapart := rotations_apart rfl h hgp (by omega) hg hrot
  omega

/-- What the request of tick `g` does on tick `f`, as long as it is the last one. -/
def Control.impulseOf (cs : Nat → Control) (g f : Nat) : Impulse :=
  if f = g then .kick (cs g).rotation
  else if f = g + 50 then .counterKick (cs g).rotation
  else .rest

/-- The impulse of a tick is that of the last request, if there was any. -/
theorem World.impulse_ridden (h : w.Unfailing startState cs n) (hf : f < n) :
    (w.ridden startState cs f).impulse =
      (Control.lastRequest cs (f + 1)).elim .rest fun g => Control.impulseOf cs g f := by
  have hsince := sinceRotation_ridden h hf
  have hrotation := (remembers_ridden h hf).rotation
  have hdelay : counterKickDelay = 50 := rfl
  unfold RideState.impulse
  rcases hlast : Control.lastRequest cs (f + 1) with _ | g
  · rw [hlast, Option.elim_none] at hsince
    rw [hdelay, if_neg (by omega), if_neg (by omega)]
    rfl
  · rw [hlast, Option.elim_some] at hsince hrotation
    have hnow : (f : Int) - g = 0 ↔ f = g := by omega
    have hlater : (f : Int) - g = 50 ↔ f = g + 50 := by omega
    simp only [hsince, hrotation, hdelay, hnow, hlater, Option.elim_some, Control.impulseOf]

/-- As long as a request is the last one, its impulses are all there are. -/
theorem World.impulse_of_lastRotate (h : w.Unfailing startState cs n) (hf : f < n)
    (hlast : (w.ridden startState cs f).lastRotate.toInt = g + 1) :
    (w.ridden startState cs f).impulse = Control.impulseOf cs g f := by
  have hmemory := (remembers_ridden h hf).lastRotate
  rw [hlast] at hmemory
  rw [impulse_ridden h hf]
  rcases hrequest : Control.lastRequest cs (f + 1) with _ | p
  · have hstart : startState.lastRotate.toInt = -10000 := rfl
    rw [hrequest, Option.elim_none] at hmemory
    omega
  · rw [hrequest, Option.elim_some] at hmemory
    have hgp : g = p := by omega
    rw [hgp, Option.elim_some]

/-- For a quarter of a period after a request, it is the last one. -/
theorem World.lastRotate_of_request (h : w.Unfailing startState cs n) (hf : f < n)
    (hg : (cs g).rotation ≠ .none) (hgf : g ≤ f) (hnear : f ≤ g + 50) :
    (w.ridden startState cs f).lastRotate.toInt = g + 1 := by
  rw [(remembers_ridden h hf).lastRotate, lastRequest_eq_some h hf hg hgf hnear]
  rfl

/-- A kick comes on the ticks that request it, in the direction of the request. -/
theorem World.impulse_eq_kick_iff (h : w.Unfailing startState cs n) (hf : f < n) :
    (w.ridden startState cs f).impulse = .kick r ↔ r ≠ .none ∧ (cs f).rotation = r := by
  constructor
  · intro hkick
    rw [impulse_ridden h hf] at hkick
    rcases hlast : Control.lastRequest cs (f + 1) with _ | g
    · rw [hlast] at hkick
      cases hkick
    · obtain ⟨-, hg, -⟩ := Control.lastRequest_eq_some_iff.mp hlast
      rw [hlast] at hkick
      dsimp only [Option.elim_some, Control.impulseOf] at hkick
      split_ifs at hkick with hfg hlater
      rw [hfg, ← Impulse.kick.inj hkick]
      exact ⟨hg, rfl⟩
  · rintro ⟨hr, rfl⟩
    have hlast := lastRotate_of_request h hf hr (Nat.le_refl f) (Nat.le_add_right f 50)
    rw [impulse_of_lastRotate h hf hlast]
    exact if_pos rfl

/-- A counter-kick comes a quarter of a period after the ticks that request a rotation, in the
direction of that request. -/
theorem World.impulse_eq_counterKick_iff (h : w.Unfailing startState cs n) (hf : f < n) :
    (w.ridden startState cs f).impulse = .counterKick r ↔
      r ≠ .none ∧ ∃ g, f = g + 50 ∧ (cs g).rotation = r := by
  constructor
  · intro hcounter
    rw [impulse_ridden h hf] at hcounter
    rcases hlast : Control.lastRequest cs (f + 1) with _ | g
    · rw [hlast] at hcounter
      cases hcounter
    · obtain ⟨-, hg, -⟩ := Control.lastRequest_eq_some_iff.mp hlast
      rw [hlast] at hcounter
      dsimp only [Option.elim_some, Control.impulseOf] at hcounter
      split_ifs at hcounter with hfg hlater
      rw [← Impulse.counterKick.inj hcounter]
      exact ⟨hg, g, hlater, rfl⟩
  · rintro ⟨hr, g, rfl, rfl⟩
    have hlast := lastRotate_of_request h hf hr (Nat.le_add_right g 50) (Nat.le_refl _)
    have hne : g + 50 ≠ g := by omega
    rw [impulse_of_lastRotate h hf hlast]
    exact (if_neg hne).trans (if_pos rfl)

/-- On all other ticks nothing comes. -/
theorem World.impulse_eq_rest_iff (h : w.Unfailing startState cs n) (hf : f < n) :
    (w.ridden startState cs f).impulse = .rest ↔
      (cs f).rotation = .none ∧ ∀ g, f = g + 50 → (cs g).rotation = .none := by
  constructor
  · intro hrest
    constructor
    · by_contra hrot
      have hkick := (impulse_eq_kick_iff h hf).mpr ⟨hrot, rfl⟩
      rw [hrest] at hkick
      cases hkick
    · intro g hg
      by_contra hrot
      have hcounter := (impulse_eq_counterKick_iff h hf).mpr ⟨hrot, g, hg, rfl⟩
      rw [hrest] at hcounter
      cases hcounter
  · rintro ⟨hnow, hearlier⟩
    cases himpulse : (w.ridden startState cs f).impulse with
    | rest => rfl
    | kick r =>
      obtain ⟨hr, rfl⟩ := (impulse_eq_kick_iff h hf).mp himpulse
      exact absurd hnow hr
    | counterKick r =>
      obtain ⟨hr, g, hg, rfl⟩ := (impulse_eq_counterKick_iff h hf).mp himpulse
      exact absurd (hearlier g hg) hr

/-- **One kick and one counter-kick for each request.** On a ride from the start each tick of which
goes on, let `q f` be the state whose bodies tick `f` moves. The torque of the rotation is that of a
kick on exactly the ticks that request a rotation, in the requested direction; that of a
counter-kick on exactly the ticks 50 after such a tick, with the direction of that request; and it
is zero on all others. A request with 50 ticks after it is the last rotation on exactly one tick
with a kick and on exactly one with a counter-kick, and on no tick with an impulse in another
direction. -/
theorem World.impulses_of_goesOn (w : World) (cs : Nat → Control) (n : Nat)
    (h : w.GoesOn startState cs n) :
    let q := w.ridden startState cs
    (∀ f < n, w.stateAfter startState cs (f + 1) = (w.move (q f)).1 ∧
      rotationTorque (q f) = (q f).impulse.torque (q f).chassis.angVel ∧
      (∀ r, (q f).impulse = .kick r ↔ r ≠ .none ∧ (cs f).rotation = r) ∧
      (∀ r, (q f).impulse = .counterKick r ↔ r ≠ .none ∧ ∃ g, f = g + 50 ∧ (cs g).rotation = r) ∧
      ((q f).impulse = .rest ↔
        (cs f).rotation = .none ∧ ∀ g, f = g + 50 → (cs g).rotation = .none)) ∧
    ∀ g, g + 50 < n → (cs g).rotation ≠ .none →
      (∃! f, f < n ∧ (q f).lastRotate.toInt = g + 1 ∧ (q f).impulse = .kick (cs g).rotation) ∧
      (∃! f, f < n ∧ (q f).lastRotate.toInt = g + 1 ∧
        (q f).impulse = .counterKick (cs g).rotation) ∧
      ∀ f < n, (q f).lastRotate.toInt = g + 1 →
        (q f).impulse ∈ [.rest, .kick (cs g).rotation, .counterKick (cs g).rotation] := by
  intro q
  have hride := h.unfailing
  constructor
  · intro f hf
    exact ⟨(hride.request_ridden hf).2, rotationTorque_eq _, fun _ => impulse_eq_kick_iff hride hf,
      fun _ => impulse_eq_counterKick_iff hride hf, impulse_eq_rest_iff hride hf⟩
  · intro g hgn hg
    have hof {f : Nat} (hf : f < n) (hlast : (q f).lastRotate.toInt = g + 1) :
        (q f).impulse = Control.impulseOf cs g f := impulse_of_lastRotate hride hf hlast
    refine ⟨⟨g, ⟨by omega, ?_, ?_⟩, ?_⟩, ⟨g + 50, ⟨hgn, ?_, ?_⟩, ?_⟩, ?_⟩
    · exact lastRotate_of_request hride (by omega) hg (Nat.le_refl g) (Nat.le_add_right g 50)
    · exact (impulse_eq_kick_iff hride (by omega)).mpr ⟨hg, rfl⟩
    · rintro f ⟨hf, hlast, hkick⟩
      rw [hof hf hlast] at hkick
      unfold Control.impulseOf at hkick
      split_ifs at hkick with hfg
      exact hfg
    · exact lastRotate_of_request hride hgn hg (Nat.le_add_right g 50) (Nat.le_refl _)
    · exact (impulse_eq_counterKick_iff hride hgn).mpr ⟨hg, g, rfl, rfl⟩
    · rintro f ⟨hf, hlast, hcounter⟩
      rw [hof hf hlast] at hcounter
      unfold Control.impulseOf at hcounter
      split_ifs at hcounter with hfg hlater
      exact hlater
    · intro f hf hlast
      rw [hof hf hlast]
      unfold Control.impulseOf
      split_ifs
      · simp
      · simp
      · simp

/-- A clockwise rotation on the second tick, without throttle. -/
def Control.lateKick (f : Nat) : Control := ⟨.idle, if f = 1 then .cw else .none⟩

/-- The long drop goes on for more than 51 ticks; a rotation on the second of them is followed by
its counter-kick on the last. -/
theorem World.impulses_of_goesOn_longDrop :
    let q := World.longDrop.ridden startState Control.lateKick
    longDrop.GoesOn startState Control.lateKick 52 ∧
      (q 1).impulse = .kick .cw ∧ (q 51).impulse = .counterKick .cw ∧
      ∃! f, f < 52 ∧ (q f).lastRotate.toInt = (1 : Nat) + 1 ∧ (q f).impulse = .counterKick .cw := by
  have hdrive : (longDrop.drive 15000 ((List.range 52).map Control.lateKick) startState).2 = none :=
    by decide +kernel
  have hgo : longDrop.GoesOn startState Control.lateKick 52 :=
    ((drive_range rfl (Int.le_refl _)).mp (Prod.ext rfl hdrive)).1
  obtain ⟨hticks, hrequests⟩ := longDrop.impulses_of_goesOn Control.lateKick 52 hgo
  obtain ⟨-, -, hkick, -⟩ := hticks 1 (by decide)
  obtain ⟨-, -, -, hcounter, -⟩ := hticks 51 (by decide)
  exact ⟨hgo, (hkick .cw).mpr ⟨by decide, rfl⟩, (hcounter .cw).mpr ⟨by decide, 1, rfl, rfl⟩,
    (hrequests 1 (by decide) (by decide)).2.1⟩

end RideProof
