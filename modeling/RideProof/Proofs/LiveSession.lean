import RideProof.Proofs.Playing
import RideProof.Script

/-!
# Live sessions and replay

A session that starts a ride, plays it and goes back in it as often as its rider likes always has a
log that replays to where it is. The answers of the session tell why it is dead, if it is
(`Session.causeAfterAll`); the invariant of its steps is `Session.Stands`.

* `Session.Stands.cases` — a session is finished, dead, or a ride that goes on.
* `Session.Stands.advance`, `Session.Stands.rewind` — the steps keep the invariant.
* `Session.Continues` — what steps leave as it is: the course, the nonce and the time target, within
  which the ride stays.
* `Session.replay_afterAll` — live session and replay agree.
-/

namespace RideProof

/-! ## Why a ride is dead -/

/-- The failure that a ride is dead of after this answer, if it was dead of `before` until then. -/
def StepResult.cause (before : Option Failure) : StepResult → Option Failure
  | .failure .alreadyDead => before
  | .failure reason => some reason
  | .continue => none
  | .success => none

/-- The failure that a ride is dead of after it was replayed. -/
def causeOfReplay : Except ReplayError Unit → Option Failure
  | .error (.failed _ reason) => some reason
  | _ => none

namespace Session

/-- The failure that the ride of a session is dead of after a step, going by the answer of the
step. -/
def causeAfter (x : Session) (before : Option Failure) : ScriptStep → Option Failure
  | .advance control frames => (x.advance control frames.toNat).2.cause before
  | .rewind frame => causeOfReplay (x.rewind frame.toInt).2

/-- The failure that the ride of a session is dead of after several steps. -/
def causeAfterAll (x : Session) (before : Option Failure) : List ScriptStep → Option Failure
  | [] => before
  | step :: steps => (x.after step).causeAfterAll (x.causeAfter before step) steps

/-- How the ride of a session stands by its log, and what it is dead of. -/
inductive Stands (x : Session) : Option Failure → Prop
  /-- The ride goes on. -/
  | going (h : x.world.Logged x.state x.log none) (hfinished : x.finished = false) : x.Stands none
  /-- The ride has reached the finish. -/
  | finished (h : x.world.Logged x.state x.log (some .success)) (hfinished : x.finished = true) :
      x.Stands none
  /-- The last tick has failed. -/
  | failed {reason : Failure} (h : x.world.Logged x.state x.log (some (.failed reason)))
      (hfinished : x.finished = false) : x.Stands (some reason)
  /-- The time is up, of which the log says nothing. -/
  | expired (h : x.world.Logged { x.state with dead := false } x.log none)
      (hdead : x.state.dead = true) (hfinished : x.finished = false) :
      x.Stands (some .timeTargetReached)

/-- What the steps of a session leave as it is, and the time that they keep to. -/
structure Continues (x : Session) (w : World) (nonce : UInt32) (target : Int16) : Prop where
  /-- The course. -/
  world : x.world = w
  /-- The state that it started in. -/
  initial : x.initial = startState
  /-- The time target. -/
  timeTarget : x.timeTarget = target
  /-- The nonce. -/
  nonce : x.log.nonce = nonce
  /-- No more ticks are played than the time target allows. -/
  inTime : (x.log.numFrames.toNat : Int) ≤ max 0 target.toInt

variable {w : World} {x : Session} {s t : RideState} {log : RideLog} {halt : Option Halt}
  {cause : Option Failure} {r : StepResult} {nonce : UInt32} {target : Int16}

/-- A session stands on a ride that was logged. -/
theorem Stands.logged (h : x.Stands cause) : ∃ s halt, x.world.Logged s x.log halt := by
  cases h with
  | going h => exact ⟨_, _, h⟩
  | finished h => exact ⟨_, _, h⟩
  | failed h => exact ⟨_, _, h⟩
  | expired h => exact ⟨_, _, h⟩

/-! ## Playing on -/

/-- A session that is finished plays nothing and answers success. -/
theorem advance_of_finished (h : x.finished = true) (c : Control) (frames : Nat) :
    x.advance c frames = (x, .success) := by
  rw [advance, if_pos h]

/-- A session whose ride is dead plays nothing and answers that. -/
theorem advance_of_dead (hfinished : x.finished = false) (hdead : x.state.dead = true) (c : Control)
    (frames : Nat) : x.advance c frames = (x, .failure .alreadyDead) := by
  rw [advance, if_neg (Bool.eq_false_iff.mp hfinished), if_pos hdead]

/-- A session that goes on plays the ticks that are asked for, as far as the time allows. -/
theorem advance_of_going (hfinished : x.finished = false) (alive : x.state.dead = false)
    (c : Control) (frames : Nat) :
    x.advance c frames =
      x.conclude (playTicks x.world (min frames x.remaining) c x.state x.log) := by
  rw [advance, if_neg (Bool.eq_false_iff.mp hfinished), if_neg (Bool.eq_false_iff.mp alive)]

/-- A session stands at its finish, or is dead, or goes on with a ride that is logged. -/
theorem Stands.cases (h : x.Stands cause) :
    (x.finished = true ∧ x.state.dead = false) ∨ (x.finished = false ∧ x.state.dead = true) ∨
      (x.finished = false ∧ x.state.dead = false ∧ x.world.Logged x.state x.log none) := by
  cases h with
  | going h hfinished => exact .inr (.inr ⟨hfinished, h.alive fun _ => nofun, h⟩)
  | finished h hfinished => exact .inl ⟨hfinished, h.alive fun _ => nofun⟩
  | failed h hfinished => exact .inr (.inl ⟨hfinished, h.dead⟩)
  | expired h hdead hfinished => exact .inr (.inl ⟨hfinished, hdead⟩)

/-- The end of a play leaves the course and the time target alone. -/
theorem conclude_eq (x : Session) (s : RideState) (log : RideLog) (r : StepResult) :
    ∃ state, (x.conclude (s, log, r)).1 =
      { x with state := state, log := log, finished := x.finished || r == .success } := by
  unfold conclude
  dsimp only
  split
  · exact ⟨_, rfl⟩
  · exact ⟨_, rfl⟩

/-- A play that ends with a logged ride. -/
theorem Stands.conclude (hfinished : x.finished = false) (h : x.world.Logged s log r.halt) :
    (x.conclude (s, log, r)).1.Stands ((x.conclude (s, log, r)).2.cause cause) := by
  unfold Session.conclude
  dsimp only
  rcases r with _ | _ | reason
  · have alive : s.dead = false := h.alive fun _ => nofun
    by_cases htime : x.timeTarget.toInt ≤ s.frame.toInt
    · rw [if_pos ⟨nofun, htime⟩]
      refine .expired ?_ rfl ?_
      · rw [← alive]
        exact h
      · simp [hfinished]
    · rw [if_neg fun hover => htime hover.2]
      exact .going h (by simp [hfinished])
  · rw [if_neg fun hover => hover.1 rfl]
    exact .finished h (by simp)
  · have hdead : s.dead = true := h.dead
    have hcause : (StepResult.failure reason).cause cause = some reason := by
      have hfatal := h.fatal reason rfl
      cases reason <;> first | rfl | exact absurd hfatal Bool.false_ne_true
    by_cases htime : x.timeTarget.toInt ≤ s.frame.toInt
    · rw [if_pos ⟨nofun, htime⟩]
      dsimp only
      rw [if_neg nofun, hcause]
      refine .failed ?_ (by simp [hfinished])
      rw [← hdead]
      exact h
    · rw [if_neg fun hover => htime hover.2, hcause]
      exact .failed h (by simp [hfinished])

/-- Playing on keeps the log true to the ride. -/
theorem Stands.advance (h : x.Stands cause) (c : Control) (frames : Nat) :
    (x.advance c frames).1.Stands ((x.advance c frames).2.cause cause) := by
  cases h with
  | going h hfinished =>
      rw [advance_of_going hfinished (h.alive fun _ => nofun)]
      rcases hplay : playTicks x.world (min frames x.remaining) c x.state x.log with ⟨s, log, r⟩
      exact .conclude hfinished (h.playTicks hplay).1
  | finished h hfinished =>
      rw [advance_of_finished hfinished]
      exact .finished h hfinished
  | failed h hfinished =>
      rw [advance_of_dead hfinished h.dead]
      exact .failed h hfinished
  | expired h hdead hfinished =>
      rw [advance_of_dead hfinished hdead]
      exact .expired h hdead hfinished

/-- An advance leaves the course, the nonce and the target, and keeps to the time. -/
theorem Continues.advance (hx : x.Continues w nonce target) (h : x.Stands cause) (c : Control)
    (frames : Nat) : (x.advance c frames).1.Continues w nonce target := by
  rcases h.cases with ⟨hfinished, -⟩ | ⟨hfinished, hdead⟩ | ⟨hfinished, alive, h⟩
  · rw [advance_of_finished hfinished]
    exact hx
  · rw [advance_of_dead hfinished hdead]
    exact hx
  · rcases hplay : playTicks x.world (min frames x.remaining) c x.state x.log with ⟨s, log, r⟩
    obtain ⟨hlogged, hnonce, hframe⟩ := h.playTicks hplay
    obtain ⟨state, hend⟩ := x.conclude_eq s log r
    rw [advance_of_going hfinished alive, hplay, hend]
    refine ⟨hx.world, hx.initial, hx.timeTarget, hnonce.trans hx.nonce, ?_⟩
    dsimp only
    have htime := hx.inTime
    rw [h.frame, hlogged.frame] at hframe
    rw [remaining, hx.timeTarget, h.frame] at hframe
    omega

/-! ## Going back -/

/-- Going back leads to a logged ride on the part of the log that is kept. -/
theorem rewind_eq (hinitial : x.initial = startState) (h : x.world.Logged s x.log halt)
    (frame : Int) :
    ∃ g t halt', (g.toNat : Int) = max 0 (min frame x.log.numFrames.toNat) ∧
      x.world.Logged t (x.log.truncate g) halt' ∧ x.rewind frame =
        ({ x with
            state := t
            log := x.log.truncate g
            finished := decide (halt' = some .success) },
          match halt' with
          | some (.failed reason) => .error (.failed t.frame reason)
          | _ => .ok ()) := by
  obtain ⟨g, hg⟩ : ∃ g : Nat, max 0 (min frame x.log.numFrames.toNat) = g :=
    Int.eq_ofNat_of_zero_le (Int.le_max_left _ _)
  have hle : g ≤ x.log.numFrames.toNat := by omega
  have hword : (UInt16.ofInt g).toNat = g :=
    toNat_ofInt_of_lt (Nat.lt_of_le_of_lt hle x.log.numFrames.toNat_lt)
  obtain ⟨t, halt', hlogged⟩ := h.truncate (hword.symm ▸ hle)
  have hreplay := hlogged.replay_numFrames
  have hcut : (x.log.truncate (UInt16.ofInt g)).numFrames.toNat = g := hword
  rw [hcut] at hreplay
  refine ⟨UInt16.ofInt g, t, halt', by rw [hword, hg], hlogged, ?_⟩
  unfold Session.rewind
  dsimp only
  rw [hinitial, hg, hreplay]
  rcases hlogged.halt_cases with rfl | rfl | ⟨reason, -, rfl⟩
  · by_cases hzero : g = 0 <;> simp [hzero]
  · simp
  · simp [Halt.early]

/-- Going back keeps the log true to the ride. -/
theorem Stands.rewind (h : x.Stands cause) (hinitial : x.initial = startState) (frame : Int) :
    (x.rewind frame).1.Stands (causeOfReplay (x.rewind frame).2) := by
  obtain ⟨s, halt, hlogged⟩ := h.logged
  obtain ⟨g, t, halt', -, hcut, heq⟩ := rewind_eq hinitial hlogged frame
  rw [heq]
  rcases hcut.halt_cases with rfl | rfl | ⟨reason, -, rfl⟩
  · exact .going hcut rfl
  · exact .finished hcut rfl
  · exact .failed hcut rfl

/-- Going back leaves the course, the nonce and the target, and keeps to the time. -/
theorem Continues.rewind (hx : x.Continues w nonce target) (h : x.Stands cause) (frame : Int) :
    (x.rewind frame).1.Continues w nonce target := by
  obtain ⟨s, halt, hlogged⟩ := h.logged
  obtain ⟨g, t, halt', hg, -, heq⟩ := rewind_eq hx.initial hlogged frame
  rw [heq]
  refine ⟨hx.world, hx.initial, hx.timeTarget, hx.nonce, ?_⟩
  have htime := hx.inTime
  show (g.toNat : Int) ≤ max 0 target.toInt
  omega

/-! ## Any steps -/

/-- A step of either kind leaves a session that still stands. -/
theorem Continues.after (hx : x.Continues w nonce target) (h : x.Stands cause) (step : ScriptStep) :
    (x.after step).Continues w nonce target ∧ (x.after step).Stands (x.causeAfter cause step) := by
  cases step with
  | advance control frames =>
      exact ⟨hx.advance h control frames.toNat, h.advance control frames.toNat⟩
  | rewind frame => exact ⟨hx.rewind h frame.toInt, h.rewind hx.initial frame.toInt⟩

/-- Any steps leave a session that still stands. -/
theorem Continues.afterAll (hx : x.Continues w nonce target) (h : x.Stands cause)
    (steps : List ScriptStep) :
    (x.afterAll steps).Continues w nonce target ∧
      (x.afterAll steps).Stands (x.causeAfterAll cause steps) := by
  induction steps generalizing x cause with
  | nil => exact ⟨hx, h⟩
  | cons step steps ih =>
      obtain ⟨hnext, hstands⟩ := hx.after h step
      exact ih hnext hstands

/-- A session that starts has its course, nonce and target, and no tick played. -/
theorem continues_ofWorld (w : World) (nonce : UInt32) (target : Int16) :
    (ofWorld w startState nonce target).Continues w nonce target where
  world := rfl
  initial := rfl
  timeTarget := rfl
  nonce := rfl
  inTime := Int.le_max_left _ _

/-- A session that starts stands, and has not failed. -/
theorem stands_ofWorld (w : World) (nonce : UInt32) (target : Int16) :
    (ofWorld w startState nonce target).Stands none :=
  .going (.empty w nonce) rfl

/-- **Live session and replay agree.** After any steps the log has no more records than a log can
hold, and its full replay ends in the state of the session: accepted if the session is finished,
without success if it is neither finished nor dead, and with the failure of its last tick if it is
dead of that. If it is dead because its time was up, the replay, which knows of no time, ends
without success in the same state alive. -/
theorem replay_afterAll (w : World) (nonce : UInt32) (target : Int16) (steps : List ScriptStep) :
    let x := (ofWorld w startState nonce target).afterAll steps
    let cause := (ofWorld w startState nonce target).causeAfterAll none steps
    x.log.updates.length ≤ maxRecords ∧
    (x.state.dead = true ↔ cause ≠ none) ∧
    (x.finished = true → w.replay startState x.log checkLimit = (x.state, .ok ())) ∧
    (x.finished = false → x.state.dead = false →
      w.replay startState x.log checkLimit = (x.state, .error (.noSuccess x.state.frame))) ∧
    (x.state.dead = true →
      (∃ reason ∈ [Failure.wheelInGround, .headCrash, .frameCap], cause = some reason ∧
        w.replay startState x.log checkLimit =
          (x.state, .error (.failed x.state.frame reason))) ∨
      (cause = some .timeTargetReached ∧
        w.replay startState x.log checkLimit =
          ({ x.state with dead := false }, .error (.noSuccess x.state.frame)))) := by
  intro x cause
  obtain ⟨hx, hstands⟩ :=
    (continues_ofWorld w nonce target).afterAll (stands_ofWorld w nonce target) steps
  change x.Continues w nonce target at hx
  change x.Stands cause at hstands
  have hworld := hx.world
  clear_value x cause
  cases hstands with
  | going h hfinished =>
      have alive := h.alive fun _ => nofun
      rw [hworld] at h
      refine ⟨h.room, ?_, ?_, fun _ _ => h.replay_checkLimit, ?_⟩
      · simp [alive]
      · simp [hfinished]
      · simp [alive]
  | finished h hfinished =>
      have alive := h.alive fun _ => nofun
      rw [hworld] at h
      refine ⟨h.room, ?_, fun _ => h.replay_checkLimit, ?_, ?_⟩
      · simp [alive]
      · simp [hfinished]
      · simp [alive]
  | failed h hfinished =>
      have hdead := h.dead
      rw [hworld] at h
      refine ⟨h.room, ?_, ?_, ?_, ?_⟩
      · simp [hdead]
      · simp [hfinished]
      · simp [hdead]
      · intro _
        left
        exact ⟨_, Failure.mem_of_isFatal (h.fatal _ rfl), rfl, h.replay_checkLimit⟩
  | expired h hdead hfinished =>
      rw [hworld] at h
      refine ⟨h.room, ?_, ?_, ?_, ?_⟩
      · simp [hdead]
      · simp [hfinished]
      · simp [hdead]
      · intro _
        right
        exact ⟨rfl, h.replay_checkLimit⟩

/-- On the short drop, a ride that is given one tick is dead of its time after it, and alive again
when it has gone back to the start. -/
example :
    (ofWorld .shortDrop startState 0 1).causeAfterAll none [.advance ⟨.idle, .none⟩ 5] =
        some .timeTargetReached ∧
      (ofWorld .shortDrop startState 0 1).causeAfterAll none
        [.advance ⟨.idle, .none⟩ 5, .rewind 0] = none := by
  decide +kernel

end Session

end RideProof
