import RideProof.Proofs.LiveSession

/-!
# Going back in a ride

Going back to a tick restores the ride as it was there. What a session has played is said without
its log, by the controls of its ticks: an advance adds those that its ticks were played under, and
going back drops those behind the tick.

* `Session.Play` — the ways in which ticks are played.
* `Session.appliedAfterAll` — the controls that the ticks of a session were played under.
* `Session.timeline_afterAll` — the log of a session says the same.
* `World.Logged.ride` — how the ride of a log stands is the result of its last tick.
* `Session.Restored` — what going back to a tick leads to.
* `Session.rewind_rewind` — going back twice is going back once.
* `Session.rewind_afterAll` — going back restores the past.
-/

namespace RideProof

variable {w : World} {s t : RideState} {log log' : RideLog} {c : Control} {cs ds : Nat → Control}
  {halt : Option Halt} {n : Nat} {r : StepResult}

/-! ## The controls of a session -/

/-- The controls of a list, tick by tick; behind its end nothing is asked for. -/
def Control.atTick (cs : List Control) (f : Nat) : Control := cs.getD f ⟨.idle, .none⟩

namespace Session

/-- The controls that up to `n` ticks are played under, until one ends the ride. -/
def playedControls (w : World) : (n : Nat) → Control → RideState → RideLog → List Control
  | 0, _, _, _ => []
  | n + 1, c, s, log =>
    let (log, played) := controlFor s log c
    let (s, result) := w.step s played
    let log := { log with numFrames := s.frame.toUInt32.toUInt16 }
    match result with
    | .continue => played :: playedControls w n ⟨played.accel, c.rotation⟩ s log
    | _ => [played]

/-- The ways in which up to `n` ticks are played: under which controls, and to which end. -/
inductive Play (w : World) : (n : Nat) → Control → RideState → RideLog → List Control →
    RideState × RideLog × StepResult → Prop
  /-- There is no tick to play. -/
  | nil {c : Control} {s : RideState} {log : RideLog} : Play w 0 c s log [] (s, log, .continue)
  /-- The first tick ends the ride. -/
  | last {n : Nat} {c played : Control} {s t : RideState} {log log₁ : RideLog} {r : StepResult}
      (hcontrol : controlFor s log c = (log₁, played)) (hstep : w.step s played = (t, r))
      (hr : r ≠ .continue) :
      Play w (n + 1) c s log [played]
        (t, { log₁ with numFrames := t.frame.toUInt32.toUInt16 }, r)
  /-- The ride goes on after the first tick. -/
  | next {n : Nat} {c played : Control} {s t : RideState} {log log₁ : RideLog} {cs : List Control}
      {z : RideState × RideLog × StepResult}
      (hcontrol : controlFor s log c = (log₁, played))
      (hstep : w.step s played = (t, .continue))
      (rest : Play w n ⟨played.accel, c.rotation⟩ t
        { log₁ with numFrames := t.frame.toUInt32.toUInt16 } cs z) :
      Play w (n + 1) c s log (played :: cs) z

/-- Ticks are played in one of these ways. -/
theorem play_of_eq {n : Nat} {z : RideState × RideLog × StepResult}
    (hplay : playTicks w n c s log = z) : Play w n c s log (playedControls w n c s log) z := by
  subst hplay
  induction n generalizing c s log with
  | zero => exact .nil
  | succ n ih =>
    rw [playTicks, playedControls]
    rcases hcontrol : controlFor s log c with ⟨log₁, played⟩
    dsimp only
    rcases hstep : w.step s played with ⟨t, _ | _ | reason⟩
    · exact .next hcontrol hstep ih
    · exact .last hcontrol hstep (by simp)
    · exact .last hcontrol hstep (by simp)

/-- The controls that an advance plays its ticks under. -/
def controlsOfAdvance (x : Session) (c : Control) (frames : Nat) : List Control :=
  if x.finished then []
  else if x.state.dead then []
  else playedControls x.world (min frames x.remaining) c x.state x.log

/-- The tick that a session goes back to. -/
def rewindTarget (x : Session) (frame : Int) : Nat := (max 0 (min frame x.log.numFrames.toNat)).toNat

/-- The controls of the ticks of a session after a step, if `before` are those until then. -/
def appliedAfter (x : Session) (before : List Control) : ScriptStep → List Control
  | .advance control frames => before ++ x.controlsOfAdvance control frames.toNat
  | .rewind frame => before.take (x.rewindTarget frame.toInt)

/-- The controls of the ticks of a session after several steps. -/
def appliedAfterAll (x : Session) (before : List Control) : List ScriptStep → List Control
  | [] => before
  | step :: steps => (x.after step).appliedAfterAll (x.appliedAfter before step) steps

end Session

/-! ## The log says the same -/

/-- A tick of a ride that goes on adds its control to the timeline. -/
theorem World.Logged.timeline_tick {log₁ : RideLog} {played : Control} (h : w.Logged s log none)
    (hcontrol : Session.controlFor s log c = (log₁, played)) (hstep : w.step s played = (t, r)) :
    RideLog.timeline { log₁ with numFrames := t.frame.toUInt32.toUInt16 } =
      log.timeline ++ [played] := by
  obtain ⟨hlogged, -, hframe⟩ := h.tick hcontrol hstep
  obtain ⟨hrecorded, -⟩ := Session.controlFor_recordedFrom h.writtenUpTo h.room h.frame hcontrol
  apply hrecorded.timeline
  have hcount := hlogged.frame
  rw [hframe, h.frame] at hcount
  exact Int.ofNat_inj.mp hcount.symm

/-- Ticks of a ride that goes on add their controls to the timeline. -/
theorem World.Logged.timeline_play {z : RideState × RideLog × StepResult}
    {played : List Control} (hplay : Session.Play w n c s log played z) (h : w.Logged s log none) :
    z.2.1.timeline = log.timeline ++ played := by
  induction hplay with
  | nil => exact (List.append_nil _).symm
  | last hcontrol hstep => exact h.timeline_tick hcontrol hstep
  | next hcontrol hstep _ ih =>
    rw [ih (h.tick hcontrol hstep).1, h.timeline_tick hcontrol hstep, List.append_assoc,
      List.singleton_append]

namespace Session

variable {x : Session} {nonce : UInt32} {target : Int16} {cause : Option Failure}

/-- An advance of a session that is finished or dead plays no controls. -/
theorem controlsOfAdvance_of_stopped (h : x.finished = true ∨ x.state.dead = true) (c : Control)
    (frames : Nat) : x.controlsOfAdvance c frames = [] := by
  unfold controlsOfAdvance
  by_cases hfinished : x.finished = true
  · rw [if_pos hfinished]
  · rw [if_neg hfinished, if_pos (h.resolve_left hfinished)]

/-- An advance of a session that goes on plays what is asked for, as far as the time allows. -/
theorem controlsOfAdvance_of_going (hfinished : x.finished = false) (alive : x.state.dead = false)
    (c : Control) (frames : Nat) :
    x.controlsOfAdvance c frames =
      playedControls x.world (min frames x.remaining) c x.state x.log := by
  unfold controlsOfAdvance
  rw [if_neg (Bool.eq_false_iff.mp hfinished), if_neg (Bool.eq_false_iff.mp alive)]

/-- An advance adds the controls that it plays to the timeline of the log. -/
theorem timeline_advance (h : x.Stands cause) (c : Control) (frames : Nat) :
    (x.advance c frames).1.log.timeline = x.log.timeline ++ x.controlsOfAdvance c frames := by
  rcases h.cases with ⟨hfinished, -⟩ | ⟨hfinished, hdead⟩ | ⟨hfinished, alive, h⟩
  · rw [advance_of_finished hfinished, controlsOfAdvance_of_stopped (.inl hfinished),
      List.append_nil]
  · rw [advance_of_dead hfinished hdead, controlsOfAdvance_of_stopped (.inr hdead), List.append_nil]
  · rcases hplay : playTicks x.world (min frames x.remaining) c x.state x.log with ⟨s, log, r⟩
    obtain ⟨state, hend⟩ := x.conclude_eq s log r
    rw [advance_of_going hfinished alive, hplay, hend, controlsOfAdvance_of_going hfinished alive]
    exact h.timeline_play (play_of_eq hplay)

/-- Going back keeps the controls before the tick. -/
theorem timeline_rewind (h : x.Stands cause) (hinitial : x.initial = startState) (frame : Int) :
    (x.rewind frame).1.log.timeline = x.log.timeline.take (x.rewindTarget frame) := by
  obtain ⟨s, halt, hlogged⟩ := h.logged
  obtain ⟨g, t, halt', hg, -, heq⟩ := rewind_eq hinitial hlogged frame
  have htarget : x.rewindTarget frame = g.toNat := by
    unfold rewindTarget
    rw [← hg, Int.toNat_natCast]
  rw [heq, htarget]
  exact RideLog.timeline_truncate (by omega)

/-- After any steps, the timeline of the log is the controls that the ticks were played under. -/
theorem timeline_afterAll (hx : x.Continues w nonce target) (h : x.Stands cause)
    (steps : List ScriptStep) :
    (x.afterAll steps).log.timeline = x.appliedAfterAll x.log.timeline steps := by
  induction steps generalizing x cause with
  | nil => rfl
  | cons step steps ih =>
    obtain ⟨hnext, hstands⟩ := hx.after h step
    have hstep : (x.after step).log.timeline = x.appliedAfter x.log.timeline step := by
      cases step with
      | advance control frames => exact timeline_advance h control frames.toNat
      | rewind frame => exact timeline_rewind h hx.initial frame.toInt
    rw [appliedAfterAll, ← hstep]
    exact ih hnext hstands

end Session

/-! ## The ride of a log -/

/-- A drive stands after a tick in a way that tells the result of the tick. -/
theorem StepResult.halt_injective : Function.Injective StepResult.halt := by
  rintro (_ | _ | reason) (_ | _ | reason') heq <;> simp_all [halt]

/-- A ride that halts is one whose last tick halts it. -/
theorem StepResult.eq_halt_iff {last : StepResult} (hr : r ≠ .continue)
    (h : halt = if n = 0 then none else last.halt) : halt = r.halt ↔ 0 < n ∧ last = r := by
  rw [h]
  by_cases hn : n = 0
  · rw [if_pos hn]
    constructor
    · intro hnone
      have hcontinue : r.halt = StepResult.continue.halt := hnone.symm
      exact absurd (halt_injective hcontinue) hr
    · intro hlast
      omega
  · rw [if_neg hn]
    constructor
    · intro heq
      exact ⟨Nat.pos_of_ne_zero hn, halt_injective heq⟩
    · intro hlast
      exact congrArg StepResult.halt hlast.2

/-- A ride depends on the controls of its ticks only. -/
theorem World.stateAfter_congr (h : ∀ f < n, cs f = ds f) :
    w.stateAfter s cs n = w.stateAfter s ds n := by
  induction n with
  | zero => rfl
  | succ n ih =>
    rw [stateAfter, stateAfter, ih fun f hf => h f (Nat.lt_succ_of_lt hf), h n (Nat.lt_succ_self n)]

/-- The result of a tick depends on the controls up to it. -/
theorem World.resultAt_congr (h : ∀ f < n + 1, cs f = ds f) :
    w.resultAt s cs n = w.resultAt s ds n := by
  unfold resultAt
  rw [stateAfter_congr fun f hf => h f (Nat.lt_succ_of_lt hf), h n (Nat.lt_succ_self n)]

/-- The timeline of a log, tick by tick. -/
theorem RideLog.atTick_timeline {f : Nat} (hf : f < log.numFrames.toNat) :
    Control.atTick log.timeline f = log.controlAt f := by
  unfold Control.atTick timeline
  simp [List.getD_eq_getElem?_getD, hf]

/-- The state of a logged ride is that after its ticks, and how it stands is the result of the last
of them. -/
theorem World.Logged.ride (h : w.Logged s log halt) :
    s = w.stateAfter startState log.controlAt log.numFrames.toNat ∧
      halt = if log.numFrames.toNat = 0 then none
        else (w.resultAt startState log.controlAt (log.numFrames.toNat - 1)).halt := by
  have hdrive := h.drive
  have hlength := log.length_timeline
  rcases hn : log.numFrames.toNat with _ | last
  · rw [hn] at hlength
    rw [List.eq_nil_of_length_eq_zero hlength] at hdrive
    cases hdrive
    exact ⟨rfl, rfl⟩
  · obtain ⟨u, hu⟩ := h.drive_take (n := last) (by omega)
    rw [RideLog.timeline_take (by omega)] at hu
    obtain ⟨-, rfl⟩ := (drive_range (s := startState) rfl (by decide)).mp hu
    rw [RideLog.timeline, hn, List.range_succ, List.map_append, List.map_singleton, drive_append,
      hu] at hdrive
    simp only [drive_singleton, Prod.mk.injEq] at hdrive
    obtain ⟨hstate, hhalt⟩ := hdrive
    refine ⟨hstate.symm, ?_⟩
    rw [if_neg (Nat.succ_ne_zero last), Nat.add_sub_cancel]
    rcases hr : w.resultAt startState log.controlAt last with _ | _ | reason
    · rw [hr] at hhalt
      dsimp only at hhalt
      split_ifs at hhalt
      · -- no logged ride has halted at the limit
        rcases h.halt_cases with rfl | rfl | ⟨reason, -, rfl⟩
        · rfl
        · cases hhalt
        · cases hhalt
      · exact hhalt.symm
    · rw [hr] at hhalt
      exact hhalt.symm
    · rw [hr] at hhalt
      exact hhalt.symm

/-- The same for any controls that agree with the log on the ticks of the ride. -/
theorem World.Logged.ride_under (h : w.Logged s log halt) (hn : log.numFrames.toNat = n)
    (hcs : ∀ f < n, log.controlAt f = cs f) :
    s = w.stateAfter startState cs n ∧
      halt = if n = 0 then none else (w.resultAt startState cs (n - 1)).halt := by
  subst hn
  obtain ⟨hstate, hhalt⟩ := h.ride
  refine ⟨hstate.trans (stateAfter_congr hcs), hhalt.trans ?_⟩
  by_cases hzero : log.numFrames.toNat = 0
  · rw [if_pos hzero, if_pos hzero]
  · rw [if_neg hzero, if_neg hzero, resultAt_congr]
    intro f hf
    exact hcs f (by omega)

/-! ## Going back -/

/-- Where positions do not go back, none below a tick stands behind one that is not. -/
theorem takeWhile_position {rs : List Record}
    (hle : rs.Pairwise fun r r' => r.position ≤ r'.position) :
    (rs.takeWhile fun r => decide (r.position < n)) =
      rs.filter fun r => decide (r.position < n) := by
  induction rs with
  | nil => rfl
  | cons r rs ih =>
    rw [List.pairwise_cons] at hle
    by_cases hr : r.position < n
    · rw [List.takeWhile_cons_of_pos (by simpa using hr), List.filter_cons_of_pos (by simpa using hr),
        ih hle.2]
    · have hrest : rs.filter (fun r => decide (r.position < n)) = [] := by
        apply List.filter_eq_nil_iff.mpr
        intro r' hr'
        have hbehind := hle.1 r' hr'
        simp only [decide_eq_true_eq]
        omega
      rw [List.takeWhile_cons_of_neg (by simpa using hr), List.filter_cons_of_neg (by simpa using hr),
        hrest]

namespace RideLog

/-- Cutting a log where it was cut leaves it as it is. -/
theorem truncate_truncate (log : RideLog) (frame : UInt16) :
    (log.truncate frame).truncate frame = log.truncate frame := by
  have hkeep : ((log.truncate frame).records.takeWhile fun r =>
      decide (r.position < frame.toNat)) = (log.truncate frame).records := by
    rw [records_truncate, List.takeWhile_idem]
  have hlength : (log.truncate frame).updates.length = (log.truncate frame).records.length := by
    rw [records, length_recordsFrom]
  rw [truncate, hkeep, ← hlength, List.take_length]
  rfl

/-- Cutting a log keeps the records before the cut, wherever they stand. -/
theorem records_truncate_eq_filter (log : RideLog) (frame : UInt16) :
    (log.truncate frame).records =
      log.records.filter fun r => decide (r.position < frame.toNat) := by
  rw [records_truncate]
  exact takeWhile_position (pairwise_position_le 0 log.updates)

end RideLog

/-- A ride that is cut before its last tick goes on. -/
theorem World.Logged.halt_truncate {g : UInt16} {halt' : Option Halt} (h : w.Logged s log halt)
    (hcut : w.Logged t (log.truncate g) halt') (hlt : g.toNat < log.numFrames.toNat) :
    halt' = none := by
  obtain ⟨u, hu⟩ := h.drive_take hlt
  have hdrive := hcut.drive
  rw [RideLog.timeline_truncate (Nat.le_of_lt hlt), hu] at hdrive
  cases hdrive
  rfl

namespace Session

/-- Going back changes the state, the log and whether the ride is finished. -/
theorem rewind_fst (x : Session) (frame : Int) :
    ∃ state finished, (x.rewind frame).1 =
      { x with
        state := state
        log := x.log.truncate (UInt16.ofInt (max 0 (min frame x.log.numFrames.toNat)))
        finished := finished } := by
  unfold rewind
  dsimp only
  split <;> exact ⟨_, _, rfl⟩

/-- Going back twice to the same tick is going back once. -/
theorem rewind_rewind (x : Session) (frame : Int) :
    (x.rewind frame).1.rewind frame = x.rewind frame := by
  obtain ⟨state, finished, heq⟩ := x.rewind_fst frame
  obtain ⟨g, hg⟩ : ∃ g : Nat, max 0 (min frame x.log.numFrames.toNat) = g :=
    Int.eq_ofNat_of_zero_le (Int.le_max_left _ _)
  have hlt := x.log.numFrames.toNat_lt
  have hword : (UInt16.ofInt g).toNat = g := toNat_ofInt_of_lt (by omega)
  have hcut : (x.log.truncate (UInt16.ofInt g)).numFrames.toNat = g := hword
  -- the tick lies within what was kept, so that it is the tick of the second cut too
  have hagain : max 0 (min frame (x.log.truncate (UInt16.ofInt g)).numFrames.toNat) = g := by
    rw [hcut]
    omega
  rw [heq, hg, rewind, rewind]
  dsimp only
  rw [hagain, hg, RideLog.truncate_truncate]

/-- What going back to tick `g` makes of a session that has played its ticks under the controls
`cs`: the session `y` and the answer. -/
structure Restored (w : World) (x : Session) (cs : Nat → Control) (g : Nat) (y : Session)
    (answer : Except ReplayError Unit) : Prop where
  /-- The nonce is kept. -/
  nonce : y.log.nonce = x.log.nonce
  /-- The log counts the ticks before `g`. -/
  numFrames : y.log.numFrames.toNat = g
  /-- The words of the log are cut off behind those that are kept. -/
  updates : y.log.updates <+: x.log.updates
  /-- The records that are kept are those before the tick. -/
  records : y.log.records = x.log.records.filter fun r => decide (r.position < g)
  /-- The state is the one that the controls lead to. -/
  state : y.state = w.stateAfter startState cs g
  /-- Every tick before the last one is one that the ride goes on at. -/
  earlier : g < x.log.numFrames.toNat →
    answer = .ok () ∧ y.state.dead = false ∧ y.finished = false
  /-- The last tick fails again if it has failed. -/
  failed : g = x.log.numFrames.toNat → 0 < g →
    ∀ reason ∈ [Failure.wheelInGround, .headCrash, .frameCap],
      w.resultAt startState cs (g - 1) = .failure reason →
        answer = .error (.failed y.state.frame reason) ∧ y.state.dead = true ∧ y.finished = false
  /-- If it has not, the ride is alive, and finished if that tick has reached the finish. -/
  unfailed : g = x.log.numFrames.toNat →
    (0 < g → ∀ reason ∈ [Failure.wheelInGround, .headCrash, .frameCap],
      w.resultAt startState cs (g - 1) ≠ .failure reason) →
        answer = .ok () ∧ y.state.dead = false ∧
          (y.finished = true ↔ 0 < g ∧ w.resultAt startState cs (g - 1) = .success)

/-- Going back in a logged ride. -/
theorem restored_rewind {x : Session} {w : World} (hworld : x.world = w)
    (hinitial : x.initial = startState) (h : w.Logged s x.log halt)
    (hcs : ∀ f < x.log.numFrames.toNat, x.log.controlAt f = cs f) (frame : Int) :
    Restored w x cs (max 0 (min frame x.log.numFrames.toNat)).toNat (x.rewind frame).1
      (x.rewind frame).2 := by
  obtain ⟨g, t, halt', hg, hcut, heq⟩ := rewind_eq hinitial (hworld ▸ h) frame
  rw [hworld] at hcut
  have hle : g.toNat ≤ x.log.numFrames.toNat := by omega
  obtain ⟨hstate, hhalt⟩ := hcut.ride_under (n := g.toNat) rfl fun f hf =>
    (RideLog.controlAt_truncate hf).trans (hcs f (Nat.lt_of_lt_of_le hf hle))
  rw [heq, ← hg, Int.toNat_natCast]
  refine ⟨rfl, rfl, List.take_prefix _ _, x.log.records_truncate_eq_filter g, hstate, ?_, ?_, ?_⟩
  · intro hlt
    obtain rfl := h.halt_truncate hcut hlt
    exact ⟨rfl, hcut.alive fun _ => nofun, rfl⟩
  · intro _ hpos reason _ hresult
    rw [if_neg (Nat.ne_of_gt hpos), hresult] at hhalt
    subst hhalt
    exact ⟨rfl, hcut.dead, rfl⟩
  · intro _ hunfailed
    have hsuccess : halt' = some .success ↔
        0 < g.toNat ∧ w.resultAt startState cs (g.toNat - 1) = .success :=
      StepResult.eq_halt_iff (r := .success) nofun hhalt
    rcases hcut.halt_cases with rfl | rfl | ⟨reason, hfatal, rfl⟩
    · exact ⟨rfl, hcut.alive fun _ => nofun, by rw [← hsuccess, decide_eq_true_eq]⟩
    · exact ⟨rfl, hcut.alive fun _ => nofun, by rw [← hsuccess, decide_eq_true_eq]⟩
    · have hfailure := (StepResult.eq_halt_iff (r := .failure reason) nofun hhalt).mp rfl
      exact absurd hfailure.2 (hunfailed hfailure.1 reason (Failure.mem_of_isFatal hfatal))

/-- Going back to where a ride goes on leads there. -/
theorem Restored.of_going {x y : Session} {g : Nat} {answer : Except ReplayError Unit}
    (hr : Restored w x cs g y answer) (h : w.Logged s x.log none)
    (hcs : ∀ f < x.log.numFrames.toNat, x.log.controlAt f = cs f) (hg : g = x.log.numFrames.toNat) :
    answer = .ok () ∧ y.state = s ∧ y.finished = false := by
  subst hg
  obtain ⟨hstate, hhalt⟩ := h.ride_under rfl hcs
  obtain ⟨hok, -, hfinished⟩ := hr.unfailed rfl fun hpos reason _ hfail =>
    nomatch (StepResult.eq_halt_iff (r := .failure reason) nofun hhalt).mpr ⟨hpos, hfail⟩
  refine ⟨hok, hr.state.trans hstate.symm, ?_⟩
  rw [Bool.eq_false_iff]
  intro htrue
  have hsuccess := (StepResult.eq_halt_iff (r := .success) nofun hhalt).mpr (hfinished.mp htrue)
  cases hsuccess

/-- A ride that only its time target has ended goes on by its log. -/
theorem Stands.logged_of_expired {x : Session} (h : x.Stands (some .timeTargetReached)) :
    x.world.Logged { x.state with dead := false } x.log none := by
  cases h with
  | failed h => exact absurd (h.fatal _ rfl) Bool.false_ne_true
  | expired h => exact h

/-- **Going back restores the past.** Whatever steps a session has taken, going back to a tick,
clamped to those that were played, makes of it what `Restored` says, under the controls that its
ticks were played under. A ride that only its time target has ended is alive again where it ended.
Going back once more to the same tick changes nothing and answers the same. -/
theorem rewind_afterAll (w : World) (nonce : UInt32) (target : Int16) (steps : List ScriptStep)
    (frame : Int) :
    let start := ofWorld w startState nonce target
    let x := start.afterAll steps
    let applied := start.appliedAfterAll [] steps
    let n := x.log.numFrames.toNat
    let g := (max 0 (min frame n)).toNat
    let y := (x.rewind frame).1
    let answer := (x.rewind frame).2
    applied.length = n ∧
    Restored w x (Control.atTick applied) g y answer ∧
    (start.causeAfterAll none steps = some .timeTargetReached → g = n →
      answer = .ok () ∧ y.state = { x.state with dead := false } ∧ y.finished = false) ∧
    y.rewind frame = (y, answer) := by
  intro start x applied n g y answer
  have hstart := stands_ofWorld w nonce target
  obtain ⟨hx, hstands⟩ := (continues_ofWorld w nonce target).afterAll hstart steps
  change x.Continues w nonce target at hx
  have htimeline : x.log.timeline = applied :=
    timeline_afterAll (continues_ofWorld w nonce target) hstart steps
  have hcs : ∀ f < n, x.log.controlAt f = Control.atTick applied f := by
    intro f hf
    rw [← htimeline, RideLog.atTick_timeline hf]
  obtain ⟨s, halt, hlogged⟩ := hstands.logged
  rw [hx.world] at hlogged
  have hrestored := restored_rewind hx.world hx.initial hlogged hcs frame
  refine ⟨?_, hrestored, ?_, x.rewind_rewind frame⟩
  · rw [← htimeline, RideLog.length_timeline]
  · intro hcause hg
    rw [hcause] at hstands
    exact hrestored.of_going (hx.world ▸ hstands.logged_of_expired) hcs hg

/-- Two ticks under the brake, one of them taken back and played idle. -/
example :
    (ofWorld .shortDrop startState 0 2).appliedAfterAll []
      [.advance ⟨.brake, .none⟩ 2, .rewind 1, .advance ⟨.idle, .none⟩ 1] =
        [⟨.brake, .none⟩, ⟨.idle, .none⟩] := by
  decide +kernel

end Session

end RideProof
