import RideProof.Proofs.FullLog

/-!
# Advancing in batches

Two advances under one control are one advance of all their ticks. Between them, two things are
forgotten. The first advance may have replaced the throttle position for want of room, and the
second starts again from the one that was asked for; but then the log is full, and no control makes
a difference (`Session.playTicks_retry`). And the second advance looks at the time again, which is
the time that the first one has left.

* `RideLog.WrittenUpTo.isFull_of_record` — a control of the next tick is refused by a full log only.
* `World.Logged.playTicks_add` — playing in two batches.
* `Session.Stands.advance_add`, `Session.advance_advance` — advancing in two batches.
-/

namespace RideProof

variable {w : World} {s t : RideState} {log log' log₁ : RideLog} {c played : Control}
  {r : StepResult} {word : UInt16} {m n : Nat}

/-! ## Refusals -/

namespace RideLog

/-- A record is refused by a full log only. -/
theorem isFull_of_push (h : log.push word = (log', false)) : log'.isFull = true := by
  unfold push at h
  by_cases hfull : log.isFull = true
  · rw [if_pos hfull] at h
    cases h
    exact hfull
  · rw [if_neg hfull] at h
    cases h

/-- Of many records, one is refused by a full log only. -/
theorem isFull_of_pushMany (h : log.pushMany word n = (log', false)) : log'.isFull = true := by
  induction n generalizing log with
  | zero => cases h
  | succ n ih =>
    rw [pushMany] at h
    rcases hpush : log.push word with ⟨log₁, _ | _⟩
    · rw [hpush] at h
      cases h
      exact isFull_of_push hpush
    · rw [hpush] at h
      exact ih h

/-- A log that was written before a tick refuses the control of the tick only if it is full, or is
full once fillers took its room. -/
theorem WrittenUpTo.isFull_of_record (h : log.WrittenUpTo n)
    (hrecord : log.record n c = (log', false)) : log'.isFull = true := by
  have hgap : ¬ (n : Int) - log.lastPosition < 0 := by
    have hle := lastPosition_le h.below
    omega
  unfold RideLog.record at hrecord
  dsimp only at hrecord
  by_cases hc : c.accel = log.lastAccel ∧ c.rotation = .none
  · rw [if_pos hc] at hrecord
    cases hrecord
  · rw [if_neg hc, if_neg hgap] at hrecord
    rcases hmany : log.pushMany (packRecord fillerDelta ⟨log.lastAccel, .none⟩)
      (fillersFor ((n : Int) - log.lastPosition).toNat) with ⟨log₁, _ | _⟩
    · rw [hmany] at hrecord
      cases hrecord
      exact isFull_of_pushMany hmany
    · rw [hmany] at hrecord
      exact isFull_of_push hrecord

end RideLog

namespace Session

/-- The throttle position of a tick is the one that was asked for, unless the log is full. -/
theorem accel_controlFor (h : log.WrittenUpTo n) (hs : s.frame.toInt = n)
    (hcontrol : controlFor s log c = (log₁, played)) :
    played.accel = c.accel ∨ log₁.isFull = true := by
  unfold controlFor at hcontrol
  dsimp only at hcontrol
  rw [hs] at hcontrol
  rcases hrecord : log.record n ⟨c.accel, if s.canRotate rotationPeriod then c.rotation else .none⟩
    with ⟨log', _ | _⟩
  · rw [hrecord] at hcontrol
    cases hcontrol
    exact .inr (h.isFull_of_record hrecord)
  · rw [hrecord] at hcontrol
    cases hcontrol
    exact .inl rfl

/-- After a tick, going on with the throttle position that it was played under is going on with the
one that was asked for. -/
theorem playTicks_retry (h : log.WrittenUpTo n) (hs : s.frame.toInt = n)
    (hcontrol : controlFor s log c = (log₁, played)) (w : World) (m : Nat) (t : RideState)
    (count : UInt16) :
    playTicks w m ⟨played.accel, c.rotation⟩ t { log₁ with numFrames := count } =
      playTicks w m c t { log₁ with numFrames := count } := by
  rcases accel_controlFor h hs hcontrol with haccel | hfull
  · rw [haccel]
  · exact playTicks_of_isFull
      (show RideLog.isFull { log₁ with numFrames := count } = true from hfull) w m t _ _

end Session

/-! ## Playing in batches -/

/-- A tick that the ride goes on after, and then the others under the same control. -/
theorem World.Logged.playTicks_succ (h : w.Logged s log none)
    (hcontrol : Session.controlFor s log c = (log₁, played))
    (hstep : w.step s played = (t, .continue)) :
    Session.playTicks w (n + 1) c s log =
      Session.playTicks w n c t { log₁ with numFrames := t.frame.toUInt32.toUInt16 } := by
  rw [Session.playTicks, hcontrol]
  dsimp only
  rw [hstep]
  exact Session.playTicks_retry h.writtenUpTo h.frame hcontrol w n t _

/-- A tick that ends the ride. -/
theorem Session.playTicks_last (hcontrol : controlFor s log c = (log₁, played))
    (hstep : w.step s played = (t, r)) (hr : r ≠ .continue) :
    playTicks w (n + 1) c s log = (t, { log₁ with numFrames := t.frame.toUInt32.toUInt16 }, r) := by
  rw [playTicks, hcontrol]
  dsimp only
  rw [hstep]
  rcases r with _ | _ | reason
  · exact absurd rfl hr
  · rfl
  · rfl

/-- Playing in two batches: the second is what the first has left, if the ride goes on. -/
theorem World.Logged.playTicks_add (h : w.Logged s log none) (c : Control) (m n : Nat) :
    Session.playTicks w (m + n) c s log =
      match Session.playTicks w m c s log with
      | (t, log', .continue) => Session.playTicks w n c t log'
      | stop => stop := by
  induction m generalizing s log with
  | zero =>
    rw [Nat.zero_add]
    rfl
  | succ m ih =>
    rcases hcontrol : Session.controlFor s log c with ⟨log₁, played⟩
    rw [Nat.succ_add]
    rcases hstep : w.step s played with ⟨t, _ | _ | reason⟩
    · rw [h.playTicks_succ hcontrol hstep, h.playTicks_succ hcontrol hstep]
      exact ih (h.tick hcontrol hstep).1
    · rw [Session.playTicks_last hcontrol hstep nofun, Session.playTicks_last hcontrol hstep nofun]
    · rw [Session.playTicks_last hcontrol hstep nofun, Session.playTicks_last hcontrol hstep nofun]

/-! ## Advancing in batches -/

namespace Session

variable {x : Session} {cause : Option Failure}

/-- The advance of a ride that goes on, in two batches. -/
theorem advance_add_of_going (hfinished : x.finished = false) (alive : x.state.dead = false)
    (h : x.world.Logged x.state x.log none) (c : Control) (m n : Nat) :
    x.advance c (m + n) =
      match x.advance c m with
      | (y, .continue) => y.advance c n
      | stop => stop := by
  have hremaining : x.remaining = (x.timeTarget.toInt - x.state.frame.toInt).toNat := rfl
  obtain ⟨k, hk⟩ : ∃ k, min (m + n) x.remaining = min m x.remaining + k :=
    Nat.exists_eq_add_of_le (by omega)
  rcases hplay : playTicks x.world (min m x.remaining) c x.state x.log with ⟨t, log, r⟩
  rw [advance_of_going hfinished alive, advance_of_going hfinished alive, hk, h.playTicks_add,
    hplay]
  rcases r with _ | _ | reason
  · have hlogged : x.world.Logged t log none := (h.playTicks hplay).1
    have hcount := (play_of_eq hplay).frame_eq h hlogged
    rw [(play_of_eq hplay).length_eq rfl] at hcount
    dsimp only at hcount ⊢
    rcases Int.lt_or_le t.frame.toInt x.timeTarget.toInt with htime | htime
    · -- the second advance has the time that the first one left
      have hleft : Session.remaining { x with state := t, log := log } =
          (x.timeTarget.toInt - t.frame.toInt).toNat := rfl
      have hrest : k = min n (Session.remaining { x with state := t, log := log }) := by omega
      have hend : x.conclude (t, log, .continue) = _ := conclude_of_early nofun htime
      rw [hend, hrest]
      exact (advance_of_going (x := { x with state := t, log := log }) hfinished
        (hlogged.alive fun _ => nofun) c n).symm
    · -- the time is up after the first advance, so that nothing is left for the second
      have hnone : k = 0 := by omega
      have hend : x.conclude (t, log, .continue) = _ := conclude_of_late nofun htime
      rw [hnone, playTicks, hend, if_pos rfl]
  · rw [conclude_of_success]
  · have hlost : StepResult.failure reason ≠ .success := by simp
    dsimp only
    rcases Int.lt_or_le t.frame.toInt x.timeTarget.toInt with htime | htime
    · have hend : x.conclude (t, log, .failure reason) = _ := conclude_of_early hlost htime
      rw [hend]
    · have hend : x.conclude (t, log, .failure reason) = _ := conclude_of_late hlost htime
      rw [hend, if_neg (by simp)]

/-- Advancing in two batches: the second advance is what the first has left, if it goes on. -/
theorem Stands.advance_add (h : x.Stands cause) (c : Control) (m n : Nat) :
    x.advance c (m + n) =
      match x.advance c m with
      | (y, .continue) => y.advance c n
      | stop => stop := by
  rcases h.cases with ⟨hfinished, -⟩ | ⟨hfinished, hdead⟩ | ⟨hfinished, alive, hgoing⟩
  · rw [advance_of_finished hfinished, advance_of_finished hfinished]
  · rw [advance_of_dead hfinished hdead, advance_of_dead hfinished hdead]
  · exact advance_add_of_going hfinished alive hgoing c m n

/-- **Batches do not matter.** After any steps, two advances under one control leave the session
that one advance of all their ticks leaves. If the first goes on, the second answers what the single
advance answers; if it does not, the first has answered that. -/
theorem advance_advance (w : World) (nonce : UInt32) (target : Int16) (steps : List ScriptStep)
    (c : Control) (m n : Nat) :
    let x := (ofWorld w startState nonce target).afterAll steps
    let y := (x.advance c m).1
    let answer := (x.advance c m).2
    (y.advance c n).1 = (x.advance c (m + n)).1 ∧
    (answer = .continue → (y.advance c n).2 = (x.advance c (m + n)).2) ∧
    (answer ≠ .continue → answer = (x.advance c (m + n)).2) := by
  intro x y answer
  obtain ⟨hx, hstands⟩ :=
    (continues_ofWorld w nonce target).afterAll (stands_ofWorld w nonce target) steps
  change x.Continues w nonce target at hx
  change x.Stands _ at hstands
  have hfirst := hstands.lawfulAdvance hx c m
  have hsecond := (hstands.advance c m).lawfulAdvance (hx.advance hstands c m) c n
  have hall := hstands.advance_add c m n
  change LawfulAdvance target x c m y answer at hfirst
  change LawfulAdvance target y c n (y.advance c n).1 (y.advance c n).2 at hsecond
  have hpair : x.advance c m = (y, answer) := rfl
  rw [hall, hpair]
  rcases answer with _ | _ | reason
  · exact ⟨rfl, fun _ => rfl, fun hne => absurd rfl hne⟩
  · have hfrozen := hsecond.frozen (hfirst.finished.mpr rfl)
    exact ⟨hfrozen.2, nofun, fun _ => rfl⟩
  · have hstopped := hsecond.stopped (hfirst.dead.mpr ⟨reason, rfl⟩)
    exact ⟨hstopped.2, nofun, fun _ => rfl⟩

end Session

end RideProof
