import RideProof.Proofs.Acceptance
import RideProof.Proofs.LiveSession

/-!
# Verifying a live finish

A session may reach the finish on the tick of its time target, and no later; a verifier asks for a
ride shorter than the target. So the log of a finished session is accepted, in the state of the
session, unless it finished on the very last tick that it was given.

* `Generator.generate_of_flat` — flat rules without a filter try one course only.
* `Generator.verify_of_finished` — the logs of finished sessions that are accepted.
-/

namespace RideProof

variable {g : Generator} {work : WorkUnit} {nonce : UInt32} {x₀ x : Session}

/-! ## A course with a short ride -/

/-- Zero bytes are the flat field. -/
theorem Field.ofBytes_zero : Field.ofBytes (Vector.replicate 512 0) = Field.zero := by
  refine ext (Vector.ext ?_)
  intro i hi
  simp [ofBytes, zero, ofFn]

/-- Behind the gate, flat rules without a filter try the same course for every block and nonce. -/
theorem Generator.generate_of_flat {block : Block} (hpass : g.passesGate block nonce = true)
    (hfilter : g.rules.filter = false) (hflat : g.rules.flat = true) :
    g.generate block nonce = trial ⟨Field.zero.flattenFirstRow, g.rules.finish⟩ := by
  have hskip : g.filters block nonce = false := by simp [filters, hfilter]
  have hfield : g.field block nonce = Field.zero.flattenFirstRow := by
    rw [field, rawField, if_pos hflat, Field.ofBytes_zero]
  unfold generate
  rw [if_pos hpass]
  dsimp only
  rw [if_neg (Bool.eq_false_iff.mp hskip), hfield]

/-- Rules under which every course is the short drop. -/
def Rules.shortDrop : Rules := ⟨false, false, true, World.shortDrop.finish⟩

/-- The short drop passes its trial. -/
theorem Generator.trial_shortDrop : trial World.shortDrop = .ok (World.shortDrop, startState) := by
  have hroom : ¬ World.shortDrop.field.groundDistance World.shortDrop.finish ≤ wheelRadius := by
    decide +kernel
  have hidle : (World.shortDrop.step startState ⟨.idle, .none⟩).2 = .continue := by decide +kernel
  unfold trial
  dsimp only
  rw [if_neg hroom, hidle]

/-- By the rules of the short drop, every nonce leads to it. -/
theorem Generator.generate_shortDrop (block : Block) (nonce : UInt32) :
    (standard .shortDrop).generate block nonce = .ok (World.shortDrop, startState) := by
  rw [generate_of_flat rfl rfl rfl]
  exact trial_shortDrop

/-! ## Sessions on generated courses -/

/-- A session starts at the start of the course of its nonce, with the target of its work unit. -/
theorem Session.start_eq_ok (h : start g work nonce = .ok x₀) :
    ∃ w, g.generate work.block nonce = .ok (w, startState) ∧
      x₀ = ofWorld w startState nonce work.timeTarget := by
  unfold start at h
  rcases hg : g.generate work.block nonce with reason | ⟨w, s⟩
  · rw [hg] at h
    cases h
  · rw [hg] at h
    cases h
    obtain rfl := Generator.eq_startState_of_generate hg
    exact ⟨w, rfl, rfl⟩

/-- The ride of a finished session has a last tick. -/
theorem World.Logged.numFrames_pos {w : World} {s : RideState} {log : RideLog}
    (h : w.Logged s log (some .success)) : 0 < log.numFrames.toNat := by
  rw [← RideLog.length_timeline, List.length_pos_iff]
  intro hnil
  have hdrive := h.drive
  rw [hnil] at hdrive
  cases hdrive

/-- A finished session has a log that replays to its state, no longer than its time target. -/
theorem Session.Stands.of_finished {w : World} {target : Int16} {cause : Option Failure}
    (hx : x.Continues w nonce target) (h : x.Stands cause) (hfinished : x.finished = true) :
    x.log.updates.length ≤ maxRecords ∧
      w.replay startState x.log checkLimit = (x.state, .ok ()) ∧
      (x.log.numFrames.toNat : Int) ≤ target.toInt := by
  cases h with
  | finished h =>
      rw [hx.world] at h
      have hpos := h.numFrames_pos
      have htime := hx.inTime
      exact ⟨h.room, h.replay_checkLimit, by omega⟩
  | going _ hfin => rw [hfin] at hfinished; cases hfinished
  | failed _ hfin => rw [hfin] at hfinished; cases hfinished
  | expired _ _ hfin => rw [hfin] at hfinished; cases hfinished

/-! ## Verification -/

/-- **A live finish is verified if it is in time.** The log of a finished session, whatever its
steps, is no longer than the time target. It is accepted, in the state of the session, if and only
if it is shorter; a finish on the tick of the target is rejected for the time that it took. -/
theorem Generator.verify_of_finished (steps : List ScriptStep)
    (hstart : Session.start g work nonce = .ok x₀)
    (hfinished : (x₀.afterAll steps).finished = true) :
    let x := x₀.afterAll steps
    (x.log.numFrames.toNat : Int) ≤ work.timeTarget.toInt ∧
    ((∃ journal, g.verify work x.log = .ok journal ∧ journal.finalState = x.state) ↔
      (x.log.numFrames.toNat : Int) < work.timeTarget.toInt) ∧
    ((x.log.numFrames.toNat : Int) = work.timeTarget.toInt →
      g.verify work x.log = .error (.timeTargetExceeded x.log.numFrames work.timeTarget)) := by
  obtain ⟨w, hg, rfl⟩ := Session.start_eq_ok hstart
  obtain ⟨hx, hstands⟩ := (Session.continues_ofWorld w nonce work.timeTarget).afterAll
    (Session.stands_ofWorld w nonce work.timeTarget) steps
  obtain ⟨hroom, hreplay, htime⟩ := hstands.of_finished hx hfinished
  refine ⟨htime, ⟨?_, ?_⟩, ?_⟩
  · rintro ⟨journal, h, -⟩
    exact (verify_eq_ok.mp h).1
  · intro hlt
    have hcourse := hg
    rw [← hx.nonce] at hcourse
    have hcheck := check_eq_ok.mpr ⟨hroom, w, startState, hcourse, hreplay⟩
    exact ⟨_, verify_eq_ok.mpr ⟨hlt, _, hcheck, rfl⟩, rfl⟩
  · intro heq
    unfold verify
    rw [if_pos (Int.le_of_eq heq.symm)]

/-- With time left, the ride of the short drop is verified. -/
theorem Generator.verify_of_finished_shortDrop :
    Session.start (standard .shortDrop) .zero 0 =
        .ok (.ofWorld .shortDrop startState 0 15000) ∧
    ((Session.ofWorld .shortDrop startState 0 15000).afterAll
        [.advance ⟨.idle, .none⟩ 2]).finished = true ∧
    ∃ journal,
      (standard .shortDrop).verify .zero
          ((Session.ofWorld .shortDrop startState 0 15000).afterAll
            [.advance ⟨.idle, .none⟩ 2]).log = .ok journal ∧
      journal.finalState = ((Session.ofWorld .shortDrop startState 0 15000).afterAll
        [.advance ⟨.idle, .none⟩ 2]).state := by
  have hstart : Session.start (standard .shortDrop) .zero 0 =
      .ok (.ofWorld .shortDrop startState 0 15000) := by
    rw [Session.start, generate_shortDrop]
    rfl
  have hfinished : ((Session.ofWorld .shortDrop startState 0 15000).afterAll
      [.advance ⟨.idle, .none⟩ 2]).finished = true := by decide +kernel
  have hlog : ((Session.ofWorld .shortDrop startState 0 15000).afterAll
      [.advance ⟨.idle, .none⟩ 2]).log = ⟨0, 2, []⟩ := by decide +kernel
  refine ⟨hstart, hfinished, ?_⟩
  apply (verify_of_finished _ hstart hfinished).2.1.mpr
  rw [hlog]
  decide

/-- On its last tick, the ride of the short drop is finished and yet rejected. -/
theorem Generator.finished_on_target_shortDrop :
    Session.start (standard .shortDrop) { WorkUnit.zero with timeTarget := 2 } 0 =
        .ok (.ofWorld .shortDrop startState 0 2) ∧
    ((Session.ofWorld .shortDrop startState 0 2).afterAll
        [.advance ⟨.idle, .none⟩ 2]).finished = true ∧
    (standard .shortDrop).verify { WorkUnit.zero with timeTarget := 2 }
        ((Session.ofWorld .shortDrop startState 0 2).afterAll [.advance ⟨.idle, .none⟩ 2]).log =
      .error (.timeTargetExceeded 2 2) := by
  have hlog : ((Session.ofWorld .shortDrop startState 0 2).afterAll
      [.advance ⟨.idle, .none⟩ 2]).log = ⟨0, 2, []⟩ := by decide +kernel
  refine ⟨?_, by decide +kernel, ?_⟩
  · rw [Session.start, generate_shortDrop]
  · rw [hlog, verify, if_pos (by decide)]

end RideProof
