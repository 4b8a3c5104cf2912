import RideProof.Proofs.Drive

/-!
# Rides as sequences of states

A ride is what one tick after the other makes of a state, under a control for each tick and whatever
the ticks answer.

* `World.stateAfter`, `World.resultAt` — the state after `n` ticks, and the result of tick `n`.
* `World.Unfailing` — no tick fails. The state after `n` such ticks has counted all of them
  (`World.frame_stateAfter`), and rotations that were let through are a period apart
  (`World.rotations_apart`).
* `World.drive_range` — driving is going on tick by tick.
-/

namespace RideProof

/-- The state after `n` ticks, the controls of which are `cs 0` up to `cs (n - 1)`. -/
def World.stateAfter (w : World) (s : RideState) (cs : Nat → Control) : Nat → RideState
  | 0 => s
  | n + 1 => (w.step (w.stateAfter s cs n) (cs n)).1

/-- The result of tick `n`, the first tick being tick 0. -/
def World.resultAt (w : World) (s : RideState) (cs : Nat → Control) (n : Nat) : StepResult :=
  (w.step (w.stateAfter s cs n) (cs n)).2

/-- None of the first `n` ticks fails. -/
def World.Unfailing (w : World) (s : RideState) (cs : Nat → Control) (n : Nat) : Prop :=
  ∀ f < n, ∀ reason, w.resultAt s cs f ≠ .failure reason

/-- Each of the first `n` ticks goes on. -/
def World.GoesOn (w : World) (s : RideState) (cs : Nat → Control) (n : Nat) : Prop :=
  ∀ f < n, w.resultAt s cs f = .continue

variable {w : World} {s t : RideState} {cs : Nat → Control} {limit : Int} {m n p q : Nat}

/-- The state after one more tick, and the result of that tick. -/
theorem World.step_stateAfter (w : World) (s : RideState) (cs : Nat → Control) (n : Nat) :
    w.step (w.stateAfter s cs n) (cs n) = (w.stateAfter s cs (n + 1), w.resultAt s cs n) := rfl

/-- A ride that goes on does not fail. -/
theorem World.GoesOn.unfailing (h : w.GoesOn s cs n) : w.Unfailing s cs n := by
  intro f hf reason hfail
  rw [h f hf] at hfail
  cases hfail

/-- A ride that goes on and then reaches the finish does not fail. -/
theorem World.GoesOn.unfailing_succ (h : w.GoesOn s cs n) (hn : w.resultAt s cs n = .success) :
    w.Unfailing s cs (n + 1) := by
  intro f hf reason hfail
  rcases Nat.lt_succ_iff_lt_or_eq.mp hf with hlt | rfl
  · exact h.unfailing f hlt reason hfail
  · rw [hn] at hfail
    cases hfail

/-- If no tick fails, none of the first ticks does. -/
theorem World.Unfailing.mono (h : w.Unfailing s cs n) (hm : m ≤ n) : w.Unfailing s cs m :=
  fun f hf => h f (Nat.lt_of_lt_of_le hf hm)

/-- A ride that has not failed has counted its ticks, and they are fewer than permitted. -/
theorem World.frame_stateAfter (hs : s.frame.toInt = 0) (h : w.Unfailing s cs n) :
    (w.stateAfter s cs n).frame.toInt = n ∧ n < 15000 := by
  induction n with
  | zero => exact ⟨hs, by decide⟩
  | succ n ih =>
      obtain ⟨hframe, hlt⟩ := ih (h.mono (Nat.le_succ n))
      have hstep := w.step_stateAfter s cs n
      exact toInt_frame_lt hstep (h n (Nat.lt_succ_self n)) hframe hlt

/-- A ride that has not failed is as alive as it was. -/
theorem World.dead_stateAfter (h : w.Unfailing s cs (n + 1)) :
    (w.stateAfter s cs (n + 1)).dead = false :=
  alive_after_step (w.step_stateAfter s cs n) (h n (Nat.lt_succ_self n))

/-! ## Rotations -/

/-- After a rotation was let through, the last rotation is that one or a later one. -/
theorem World.lt_lastRotate (hs : s.frame.toInt = 0) (h : w.Unfailing s cs n) (hp : p < m)
    (hm : m ≤ n) (hrot : (cs p).rotation ≠ .none) :
    (p : Int) < (w.stateAfter s cs m).lastRotate.toInt := by
  induction m with
  | zero => exact absurd hp (Nat.not_lt_zero p)
  | succ m ih =>
      have hstep := w.step_stateAfter s cs m
      have hr := h m hm
      obtain ⟨hframe, hlt⟩ := frame_stateAfter hs (h.mono (Nat.le_of_succ_le hm))
      by_cases hc : (cs m).rotation = .none
      · -- then tick `m` is not the one in question, which came before
        have hne : p ≠ m := by
          rintro rfl
          exact hrot hc
        rw [lastRotate_of_step_none hstep hr hc]
        exact ih (by omega) (Nat.le_of_succ_le hm)
      · rw [(lastRotate_of_step_some hstep hr hc).2, toInt_succ_of_lt hframe hlt]
        omega

/-- Two rotations that were let through are a period apart. -/
theorem World.rotations_apart (hs : s.frame.toInt = 0) (h : w.Unfailing s cs n) (hpq : p < q)
    (hq : q < n) (hp : (cs p).rotation ≠ .none) (hrot : (cs q).rotation ≠ .none) :
    p + 200 ≤ q := by
  have hlast := lt_lastRotate hs h hpq (Nat.le_of_lt hq) hp
  have hsince := (lastRotate_of_step_some (w.step_stateAfter s cs q) (h q hq) hrot).1
  obtain ⟨hframe, hlt⟩ := frame_stateAfter hs (h.mono (Nat.le_of_lt hq))
  unfold RideState.sinceRotation RideState.counted rotationPeriod at hsince
  dsimp only at hsince
  rw [toInt_succ_of_lt hframe hlt] at hsince
  omega

/-! ## Driving -/

/-- A ride goes on for one tick more if it goes on for those before and on that tick. -/
theorem World.goesOn_succ :
    w.GoesOn s cs (n + 1) ↔ w.GoesOn s cs n ∧ w.resultAt s cs n = .continue := by
  constructor
  · intro h
    exact ⟨fun f hf => h f (Nat.lt_succ_of_lt hf), h n (Nat.lt_succ_self n)⟩
  · rintro ⟨h, hn⟩ f hf
    rcases Nat.lt_succ_iff_lt_or_eq.mp hf with hlt | rfl
    · exact h f hlt
    · exact hn

/-- One more tick of a drive that has not halted, below the limit. -/
theorem World.drive_singleton (w : World) (limit : Int) (s : RideState) (cs : Nat → Control)
    (n : Nat) :
    w.drive limit [cs n] (w.stateAfter s cs n) =
      (w.stateAfter s cs (n + 1),
        match w.resultAt s cs n with
        | .continue => if limit ≤ (w.stateAfter s cs (n + 1)).frame.toInt then some .limit else none
        | .success => some .success
        | .failure reason => some (.failed reason)) := by
  rw [drive, step_stateAfter]
  rcases w.resultAt s cs n with _ | _ | reason
  · dsimp only
    split <;> rfl
  · rfl
  · rfl

/-- Below the limit of the physics, a drive that does not halt is a ride that goes on. -/
theorem World.drive_range (hs : s.frame.toInt = 0) (hlimit : 15000 ≤ limit) :
    w.drive limit ((List.range n).map cs) s = (t, none) ↔
      w.GoesOn s cs n ∧ t = w.stateAfter s cs n := by
  induction n generalizing t with
  | zero =>
      constructor
      · intro h
        cases h
        exact ⟨fun f hf => absurd hf (Nat.not_lt_zero f), rfl⟩
      · rintro ⟨-, rfl⟩
        rfl
  | succ n ih =>
      rw [List.range_succ, List.map_append, List.map_singleton, drive_append, goesOn_succ]
      constructor
      · intro h
        rcases hd : w.drive limit ((List.range n).map cs) s with ⟨u, _ | halt⟩
        · obtain ⟨hgo, rfl⟩ := ih.mp hd
          simp only [hd, drive_singleton, Prod.mk.injEq] at h
          obtain ⟨ht, hhalt⟩ := h
          rcases hr : w.resultAt s cs n with _ | _ | reason
          · exact ⟨⟨hgo, rfl⟩, ht.symm⟩
          · simp [hr] at hhalt
          · simp [hr] at hhalt
        · simp [hd] at h
      · rintro ⟨⟨hgo, hr⟩, rfl⟩
        have hsucc := goesOn_succ.mpr ⟨hgo, hr⟩
        obtain ⟨hframe, hlt⟩ := frame_stateAfter hs hsucc.unfailing
        have hbelow : ¬ limit ≤ (w.stateAfter s cs (n + 1)).frame.toInt := by omega
        rw [ih.mpr ⟨hgo, rfl⟩]
        simp only [drive_singleton, hr, hbelow, if_false]

/-- Below the limit of the physics, a drive from the first tick never halts at the limit. -/
theorem World.drive_ne_limit {ds : List Control} (hs : s.frame.toInt = n) (hn : n < 15000)
    (hlimit : 15000 ≤ limit) : (w.drive limit ds s).2 ≠ some .limit := by
  induction ds generalizing s n with
  | nil =>
      intro hhalt
      cases hhalt
  | cons c ds ih =>
      rw [drive]
      rcases hstep : w.step s c with ⟨u, _ | _ | reason⟩
      · obtain ⟨hframe, hlt⟩ := step_continue hstep hs hn
        have hbelow : ¬ limit ≤ u.frame.toInt := by omega
        simp only [hbelow, if_false]
        exact ih (n := n + 1) hframe hlt
      · intro hhalt
        cases hhalt
      · intro hhalt
        cases hhalt

end RideProof
