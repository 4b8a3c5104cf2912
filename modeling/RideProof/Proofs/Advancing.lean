import RideProof.Proofs.Rewinding

/-!
# What an advance guarantees

An advance can end because all its ticks are played, because a tick ends the ride, because the time
is up, or before it has begun, at a ride that is finished or dead. The time is looked at last, after
any of these. Whichever it was, the answer tells how the session stands.

* `Session.Play.state_eq`, `Session.Play.length_eq`, `Session.Play.frame_eq` — where a play leads,
  and the ticks that it counts.
* `Session.advance_state` — an advance plays its ticks under its controls, and does nothing else
  than to end a ride that is out of time.
* `Session.conclude_answer` — the answer of a play against the session that it leaves.
* `Session.LawfulAdvance`, `Session.WithinLimits` — what an advance makes of a session, and the
  limits that every session keeps.
* `Session.advance_afterAll` — after any steps, every advance is lawful.
-/

namespace RideProof

variable {w : World} {s t : RideState} {log : RideLog} {c : Control} {r : StepResult} {n : Nat}

/-! ## The ticks of an advance -/

/-- A ride, from its second tick on. -/
theorem World.stateAfter_succ_front (w : World) (s : RideState) (cs : Nat → Control) (n : Nat) :
    w.stateAfter s cs (n + 1) = w.stateAfter (w.step s (cs 0)).1 (fun f => cs (f + 1)) n := by
  induction n with
  | zero => rfl
  | succ n ih => rw [stateAfter, ih, stateAfter]

namespace Session

variable {x : Session} {cause : Option Failure} {nonce : UInt32} {target : Int16}
  {played : List Control} {z : RideState × RideLog × StepResult}

/-- A play is the ride of its controls. -/
theorem Play.state_eq (h : Play w n c s log played z) :
    z.1 = w.stateAfter s (Control.atTick played) played.length := by
  induction h with
  | nil => rfl
  | last _ hstep => exact (congrArg Prod.fst hstep).symm
  | @next _ _ played s t _ _ _ _ _ hstep _ ih =>
    have hfirst : t = (w.step s played).1 := (congrArg Prod.fst hstep).symm
    rw [ih, List.length_cons, World.stateAfter_succ_front, hfirst]
    rfl

/-- A play that goes on to its end has played all its ticks. -/
theorem Play.length_eq (h : Play w n c s log played z) (hz : z.2.2 = .continue) :
    played.length = n := by
  induction h with
  | nil => rfl
  | last _ _ hr => exact absurd hz hr
  | next _ _ _ ih => rw [List.length_cons, ih hz]

/-- A ride counts the ticks that were played. -/
theorem Play.frame_eq (hplay : Play w n c s log played z) (h : w.Logged s log none)
    (hz : w.Logged z.1 z.2.1 z.2.2.halt) : z.1.frame.toInt = s.frame.toInt + played.length := by
  have hlength := congrArg List.length (h.timeline_play hplay)
  rw [List.length_append, RideLog.length_timeline, RideLog.length_timeline] at hlength
  rw [hz.frame, h.frame]
  omega

/-- An advance is the ride of its controls, but for a ride that is out of time after it. -/
theorem advance_state (x : Session) (c : Control) (frames : Nat) :
    (x.advance c frames).1.state =
      { x.world.stateAfter x.state (Control.atTick (x.controlsOfAdvance c frames))
          (x.controlsOfAdvance c frames).length with
        dead := (x.advance c frames).1.state.dead } := by
  unfold advance controlsOfAdvance
  split
  · rfl
  · split
    · rfl
    · rcases hplay : playTicks x.world (min frames x.remaining) c x.state x.log with ⟨t, log, r⟩
      rw [← (play_of_eq hplay).state_eq]
      unfold conclude
      dsimp only
      split <;> rfl

/-! ## The answer -/

/-- An advance that reaches the finish leaves the session finished. -/
theorem conclude_of_success (x : Session) (s : RideState) (log : RideLog) :
    x.conclude (s, log, .success) =
      ({ x with state := s, log := log, finished := true }, .success) := by
  unfold conclude
  dsimp only
  rw [if_neg fun hover => hover.1 rfl]
  simp

/-- A play that does not reach the finish leaves a ride that goes on until its time target. -/
theorem conclude_of_early (hr : r ≠ .success) (htime : s.frame.toInt < x.timeTarget.toInt) :
    x.conclude (s, log, r) = ({ x with state := s, log := log }, r) := by
  unfold conclude
  dsimp only
  rw [if_neg fun hover => absurd hover.2 (Int.not_le.mpr htime)]
  simp [hr]

/-- An advance that uses up the time without reaching the finish leaves the ride dead. -/
theorem conclude_of_late (hr : r ≠ .success) (htime : x.timeTarget.toInt ≤ s.frame.toInt) :
    x.conclude (s, log, r) = ({ x with state := { s with dead := true }, log := log },
      if r = .continue then .failure .timeTargetReached else r) := by
  unfold conclude
  dsimp only
  rw [if_pos ⟨hr, htime⟩]
  simp [hr]

/-- The answer of a play tells whether the session that it leaves is finished, and whether it is
dead. It is none of a refused rotation, and a session that goes on has time left. -/
theorem conclude_answer (hfinished : x.finished = false) (h : x.world.Logged s log r.halt) :
    let y := (x.conclude (s, log, r)).1
    let answer := (x.conclude (s, log, r)).2
    (y.finished = true ↔ answer = .success) ∧
    (y.state.dead = true ↔ ∃ reason, answer = .failure reason) ∧
    answer ≠ .failure .rotationCooldown ∧
    (answer = .continue → r = .continue ∧ y.state = s ∧ s.frame.toInt < x.timeTarget.toInt) := by
  intro y answer
  rcases r with _ | _ | reason
  · have alive : s.dead = false := h.alive fun _ => nofun
    rcases Int.lt_or_le s.frame.toInt x.timeTarget.toInt with htime | htime
    · have heq : x.conclude (s, log, .continue) = _ := conclude_of_early nofun htime
      simp [y, answer, heq, hfinished, alive, htime]
    · have heq : x.conclude (s, log, .continue) = _ := conclude_of_late nofun htime
      simp [y, answer, heq, hfinished]
  · have alive : s.dead = false := h.alive fun _ => nofun
    simp [y, answer, conclude_of_success, alive]
  · have hdead : s.dead = true := h.dead
    have hfatal : reason ≠ .rotationCooldown := by
      rintro rfl
      exact absurd (h.fatal _ rfl) Bool.false_ne_true
    rcases Int.lt_or_le s.frame.toInt x.timeTarget.toInt with htime | htime
    · have heq : x.conclude (s, log, .failure reason) = _ := conclude_of_early nofun htime
      simp [y, answer, heq, hfinished, hdead, hfatal]
    · have heq : x.conclude (s, log, .failure reason) = _ := conclude_of_late nofun htime
      simp [y, answer, heq, hfinished, hfatal]

/-! ## Lawful advances -/

/-- What an advance of `frames` ticks makes of the session `x`, the time target of which is
`target`: the session `y` and the answer. -/
structure LawfulAdvance (target : Int16) (x : Session) (c : Control) (frames : Nat) (y : Session)
    (answer : StepResult) : Prop where
  /-- The session is finished if the answer says so, and then only. -/
  finished : y.finished = true ↔ answer = .success
  /-- The session is dead if the answer is a failure, and then only. -/
  dead : y.state.dead = true ↔ ∃ reason, answer = .failure reason
  /-- No session is both. -/
  not_both : ¬ (y.finished = true ∧ y.state.dead = true)
  /-- An advance that goes on has played all its ticks, and has time left. -/
  played : answer = .continue →
    (x.controlsOfAdvance c frames).length = frames ∧
      y.state.frame.toInt = x.state.frame.toInt + frames ∧ y.state.frame.toInt < target.toInt
  /-- A rotation that comes too soon is no reason to fail. -/
  not_refused : answer ≠ .failure .rotationCooldown
  /-- A finished session stays as it is. -/
  frozen : x.finished = true → answer = .success ∧ y = x
  /-- A dead session stays as it is. -/
  stopped : x.state.dead = true → answer = .failure .alreadyDead ∧ y = x

/-- The limits that a session with the time target `target` keeps: it has counted the ticks of its
log, and no more than were given and permitted. -/
structure WithinLimits (target : Int16) (x : Session) : Prop where
  /-- State and log count the same ticks. -/
  counted : x.state.frame.toInt = x.log.numFrames.toNat
  /-- They are no more than the time target, or none if it is negative. -/
  inTime : x.state.frame.toInt ≤ max 0 target.toInt
  /-- They are no more than any ride has. -/
  permitted : x.state.frame.toInt ≤ 15000

/-- Every session of a course keeps the limits. -/
theorem Stands.withinLimits (hx : x.Continues w nonce target) (h : x.Stands cause) :
    x.WithinLimits target := by
  obtain ⟨hframe, hcap⟩ : x.state.frame.toInt = x.log.numFrames.toNat ∧
      x.log.numFrames.toNat ≤ 15000 := by
    cases h with
    | going h => exact ⟨h.frame, h.cap⟩
    | finished h => exact ⟨h.frame, h.cap⟩
    | failed h => exact ⟨h.frame, h.cap⟩
    | expired h => exact ⟨h.frame, h.cap⟩
  refine ⟨hframe, hframe ▸ hx.inTime, ?_⟩
  rw [hframe]
  exact Int.ofNat_le.mpr hcap

/-- The advance of a session that stands somewhere. -/
theorem Stands.lawfulAdvance (hx : x.Continues w nonce target) (h : x.Stands cause) (c : Control)
    (frames : Nat) :
    LawfulAdvance target x c frames (x.advance c frames).1 (x.advance c frames).2 := by
  rcases h.cases with ⟨hfinished, alive⟩ | ⟨hfinished, hdead⟩ | ⟨hfinished, alive, hgoing⟩
  · rw [advance_of_finished hfinished]
    constructor <;> simp [hfinished, alive]
  · rw [advance_of_dead hfinished hdead]
    constructor <;> simp [hfinished, hdead]
  · have heq := advance_of_going hfinished alive c frames
    rcases hplay : playTicks x.world (min frames x.remaining) c x.state x.log with ⟨t, log, r⟩
    rw [hplay] at heq
    have hlogged := (hgoing.playTicks hplay).1
    obtain ⟨hfin, hdead, hrefused, hgoes⟩ := conclude_answer hfinished hlogged
    rw [← heq] at hfin hdead hrefused hgoes
    refine ⟨hfin, hdead, ?_, ?_, hrefused, ?_, ?_⟩
    · rintro ⟨hsuccess, hfailed⟩
      obtain ⟨reason, hreason⟩ := hdead.mp hfailed
      rw [hfin.mp hsuccess] at hreason
      cases hreason
    · intro hanswer
      obtain ⟨rfl, hstate, htime⟩ := hgoes hanswer
      have hcount := (play_of_eq hplay).frame_eq hgoing hlogged
      have hlength := (play_of_eq hplay).length_eq rfl
      dsimp only at hcount
      have hremaining : x.remaining = (x.timeTarget.toInt - x.state.frame.toInt).toNat := rfl
      -- with time left after the ticks, there was time for all of them
      have hall : min frames x.remaining = frames := by omega
      rw [hall] at hlength hcount
      rw [hlength] at hcount
      rw [controlsOfAdvance_of_going hfinished alive, hall, hstate, ← hx.timeTarget]
      exact ⟨hlength, hcount, htime⟩
    · simp [hfinished]
    · simp [alive]

/-- **What an advance guarantees.** After any steps a session keeps its limits, and so it does after
one more advance. The answer of the advance tells how the session stands after it, as
`LawfulAdvance` says. -/
theorem advance_afterAll (w : World) (nonce : UInt32) (target : Int16) (steps : List ScriptStep)
    (c : Control) (frames : Nat) :
    let x := (ofWorld w startState nonce target).afterAll steps
    let y := (x.advance c frames).1
    let answer := (x.advance c frames).2
    x.WithinLimits target ∧ y.WithinLimits target ∧ LawfulAdvance target x c frames y answer := by
  intro x y answer
  obtain ⟨hx, hstands⟩ :=
    (continues_ofWorld w nonce target).afterAll (stands_ofWorld w nonce target) steps
  exact ⟨hstands.withinLimits hx,
    (hstands.advance c frames).withinLimits (hx.advance hstands c frames),
    hstands.lawfulAdvance hx c frames⟩

/-- Without any time, the advance of no ticks ends the ride. -/
example :
    ((ofWorld .shortDrop startState 0 0).advance ⟨.idle, .none⟩ 0).2 =
      .failure .timeTargetReached := by
  decide +kernel

end Session

end RideProof
