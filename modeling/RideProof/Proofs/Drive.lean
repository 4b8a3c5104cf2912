import RideProof.Proofs.Tick
import RideProof.Replay

/-!
# Driving from the first tick

A drive that starts on a tick below the limit of the physics counts one tick for each control, and
never gets to that limit without a failure. So a limit on the ticks shows only where a drive gets to
it without a halt.

* `World.step_continue` — the count of a tick that goes on.
* `World.drive_frame`, `World.drive_frame_le` — the count of a drive that goes on to its end, and of
  any drive.
* `World.drive_at_limit` — a drive that halts at its limit, beside one with a later limit.
* `World.drive_dead` — the drives that a ride does not survive.
* `World.drive_take` — a drive that counts all its ticks halts on the last of them, if at all.
-/

namespace RideProof

variable {w : World} {s t u : RideState} {c : Control} {cs : List Control} {limit : Int} {n : Nat}

/-! ## Counting -/

/-- The count of a live ride after a tick, as a number. -/
theorem World.toInt_step_frame {r : StepResult} (h : w.step s c = (t, r)) (alive : s.dead = false)
    (hs : s.frame.toInt = n) (hn : n < 15000) : t.frame.toInt = n + 1 := by
  rw [step_frame h alive]
  exact toInt_succ_of_lt hs hn

/-- A tick that does not fail stays below the tick that no ride survives. -/
theorem World.toInt_frame_lt {r : StepResult} (h : w.step s c = (t, r))
    (hr : ∀ reason, r ≠ .failure reason) (hs : s.frame.toInt = n) (hn : n < 15000) :
    t.frame.toInt = n + 1 ∧ n + 1 < 15000 := by
  have alive := alive_of_step h (hr _)
  have ht := toInt_step_frame h alive hs hn
  refine ⟨ht, ?_⟩
  have hcap : t.frame.toInt ≠ 15000 := by
    intro heq
    exact hr _ ((step_cap h alive).mpr ((eq_frameCap_iff t.frame).mpr heq))
  omega

/-- A tick that goes on is counted, and is not the last permitted one. -/
theorem World.step_continue (h : w.step s c = (t, .continue)) (hs : s.frame.toInt = n)
    (hn : n < 15000) : t.frame.toInt = n + 1 ∧ n + 1 < 15000 :=
  toInt_frame_lt h (fun _ => nofun) hs hn

/-- No tick counts for more than one. -/
theorem World.step_frame_le {r : StepResult} (h : w.step s c = (t, r)) (hs : s.frame.toInt = n)
    (hn : n < 15000) : t.frame.toInt ≤ n + 1 := by
  cases hdead : s.dead with
  | false => exact Int.le_of_eq (toInt_step_frame h hdead hs hn)
  | true =>
    rw [w.step_of_dead hdead c] at h
    cases h
    omega

/-! ## Drives -/

/-- A drive that goes on to its end counts a tick for each control. -/
theorem World.drive_frame (h : w.drive limit cs s = (t, none)) (hs : s.frame.toInt = n)
    (hn : n < 15000) : t.frame.toInt = n + cs.length ∧ n + cs.length < 15000 := by
  induction cs generalizing s n with
  | nil =>
    cases h
    exact ⟨hs, hn⟩
  | cons c cs ih =>
    rw [drive] at h
    rcases hstep : w.step s c with ⟨u, _ | _ | reason⟩
    · rw [hstep] at h
      obtain ⟨hu, hlt⟩ := step_continue hstep hs hn
      by_cases hlimit : limit ≤ u.frame.toInt
      · simp [hlimit] at h
      · simp only [hlimit, if_false] at h
        obtain ⟨ht, hlen⟩ := ih (n := n + 1) h hu hlt
        rw [List.length_cons]
        omega
    · simp [hstep] at h
    · simp [hstep] at h

/-- No drive counts more ticks than it has controls. -/
theorem World.drive_frame_le {halt : Option Halt} (h : w.drive limit cs s = (t, halt))
    (hs : s.frame.toInt = n) (hn : n < 15000) : t.frame.toInt ≤ n + cs.length := by
  induction cs generalizing s n with
  | nil =>
    cases h
    exact Int.le_of_eq hs
  | cons c cs ih =>
    rw [drive] at h
    rw [List.length_cons]
    rcases hstep : w.step s c with ⟨u, _ | _ | reason⟩
    · rw [hstep] at h
      obtain ⟨hu, hlt⟩ := step_continue hstep hs hn
      by_cases hlimit : limit ≤ u.frame.toInt
      · simp only [hlimit, if_true, Prod.mk.injEq] at h
        rw [← h.1]
        omega
      · simp only [hlimit, if_false] at h
        have ht := ih (n := n + 1) h hu hlt
        omega
    · have hu := step_frame_le hstep hs hn
      simp only [hstep, Prod.mk.injEq] at h
      rw [← h.1]
      omega
    · have hu := step_frame_le hstep hs hn
      simp only [hstep, Prod.mk.injEq] at h
      rw [← h.1]
      omega

/-- A drive to the limit itself differs from one with a later limit only where it halts there. -/
theorem World.drive_at_limit {limit' : Int} (hs : s.frame.toInt = n) (hn : n < 15000)
    (h : (n + cs.length : Int) = limit) (h' : limit < limit') :
    w.drive limit cs s =
      match w.drive limit' cs s with
      | (t, some halt) => (t, some halt)
      | (t, none) => (t, if cs = [] then none else some .limit) := by
  induction cs generalizing s n with
  | nil => rfl
  | cons c cs ih =>
      rw [List.length_cons] at h
      rw [drive, drive]
      rcases hstep : w.step s c with ⟨u, _ | _ | reason⟩
      · obtain ⟨hu, hlt⟩ := step_continue hstep hs hn
        have hbelow : ¬ limit' ≤ u.frame.toInt := by omega
        cases cs with
        | nil =>
            have hreached : limit ≤ u.frame.toInt := by
              rw [List.length_nil] at h
              omega
            simp [hreached, hbelow, drive]
        | cons d ds =>
            have hon : ¬ limit ≤ u.frame.toInt := by
              rw [List.length_cons] at h
              omega
            simp only [hon, hbelow, if_false]
            rw [ih (n := n + 1) hu hlt (by omega)]
            simp
      · rfl
      · rfl

/-- A drive from a live state ends in a dead one after a fatal failure, and after nothing else. -/
theorem World.drive_dead {halt : Option Halt} (h : w.drive limit cs s = (t, halt))
    (alive : s.dead = false) :
    t.dead = true ↔ ∃ reason, reason.isFatal = true ∧ halt = some (.failed reason) := by
  induction cs generalizing s with
  | nil =>
      cases h
      simp [alive]
  | cons c cs ih =>
      rw [drive] at h
      rcases hstep : w.step s c with ⟨u, r⟩
      have hdead := step_dead hstep alive
      rw [hstep] at h
      rcases r with _ | _ | reason
      · have hu : u.dead = false := alive_after_step hstep fun _ hr => by cases hr
        dsimp only at h
        by_cases hlimit : limit ≤ u.frame.toInt
        · rw [if_pos hlimit] at h
          cases h
          simp [hu]
        · rw [if_neg hlimit] at h
          exact ih h hu
      · cases h
        simpa using hdead
      · cases h
        simpa using hdead

/-- A drive that has counted all its ticks did not halt before the last of them. -/
theorem World.drive_take {halt : Option Halt} (h : w.drive limit cs s = (t, halt))
    (hs : s.frame.toInt = n) (hn : n < 15000) (ht : t.frame.toInt = n + cs.length) {k : Nat}
    (hk : k < cs.length) : ∃ u, w.drive limit (cs.take k) s = (u, none) := by
  rcases hu : w.drive limit (cs.take k) s with ⟨u, _ | early⟩
  · exact ⟨u, rfl⟩
  · -- a halt within the first `k` controls is the halt of the whole drive, which counts more
    have hle := drive_frame_le hu hs hn
    rw [← List.take_append_drop k cs, drive_append, hu] at h
    have htu : u = t := congrArg Prod.fst h
    rw [htu, List.length_take, Nat.min_eq_left (Nat.le_of_lt hk)] at hle
    omega

end RideProof
