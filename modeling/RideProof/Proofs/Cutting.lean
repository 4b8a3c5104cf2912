import RideProof.Proofs.Batches
import RideProof.Proofs.ClaimedLength
import RideProof.Proofs.Editing

/-!
# Cutting a log that was written on

A log that is written on and then cut where it was is the log that it was, but for fillers: the
first change behind the cut has put them before it. They are the fillers that every change behind
the cut needs, so the log goes on from there as if it had never been written on.

* `RideLog.truncate_fillers`, `RideLog.truncate_record` — cutting fillers, and cutting what a record
  behind the cut has added.
* `RideLog.fillersBefore` — the fillers that a change leaves before a tick.
* `RideLog.truncate_enterAll` — cutting a log after many entries behind the cut.
* `Session.playUpTo` — the advances of a session, as far as they lie before a tick; a session that
  plays on from there writes down entries behind it (`Session.Stands.entries_playAll`).
* `RideLog.cut_restores` — what cutting a log and going back in a session lead to.
-/

namespace RideProof

variable {w : World} {s t : RideState} {log log₁ : RideLog} {word : UInt16} {c played : Control}
  {e : Entry} {g : UInt16} {k n : Nat} {r : StepResult}

namespace RideLog

/-! ## Cutting what was appended -/

/-- A cut behind all records drops none. -/
theorem truncate_of_below (h : ∀ r ∈ log.records, r.position < g.toNat) :
    log.truncate g = log.withFrames g := by
  have hall : (log.records.takeWhile fun r => decide (r.position < g.toNat)) = log.records :=
    List.takeWhile_eq_self_iff.mpr fun r hr => decide_eq_true (h r hr)
  have hlength : log.records.length = log.updates.length := length_recordsFrom 0 log.updates
  rw [truncate, hall, hlength, List.take_length]
  rfl

/-- A cut drops a last record that does not lie before it. -/
theorem truncate_append_of_le (h : g.toNat ≤ log.lastPosition + deltaOf word) :
    (log.append word).truncate g = log.truncate g := by
  have hkeep : ((log.append word).records.takeWhile fun r => decide (r.position < g.toNat)) =
      log.records.takeWhile fun r => decide (r.position < g.toNat) := by
    rw [records_append, List.takeWhile_append]
    simp only [List.takeWhile_cons, decide_eq_true_eq, Nat.not_lt.mpr h, if_false]
    split
    · next hall => rw [List.append_nil, (List.takeWhile_prefix _).eq_of_length hall]
    · rfl
  have hle : (log.records.takeWhile fun r => decide (r.position < g.toNat)).length ≤
      log.updates.length := by
    rw [← length_recordsFrom 0 log.updates]
    exact (List.takeWhile_prefix _).length_le
  rw [truncate, hkeep, truncate, append]
  dsimp only
  rw [List.take_append_of_le_length hle]

/-- A cut behind the last position drops no record. -/
theorem truncate_of_lastPosition_lt (h : log.lastPosition < g.toNat) :
    log.truncate g = log.withFrames g :=
  truncate_of_below fun _ hr => Nat.lt_of_le_of_lt (position_le_lastPosition hr) h

/-- A cut keeps the fillers that lie before it. -/
theorem truncate_fillers (log : RideLog) (g : UInt16) (k : Nat) :
    (log.appendMany log.filler k).truncate g =
      (log.truncate g).appendMany log.filler
        (min k (fillersFor (g.toNat - log.lastPosition))) := by
  induction k with
  | zero => rw [Nat.zero_min, appendMany_zero, appendMany_zero]
  | succ k ih =>
      have hlast : (log.appendMany log.filler (k + 1)).lastPosition =
          log.lastPosition + (k + 1) * fillerDelta := lastPosition_fillers log (k + 1)
      rcases Nat.lt_or_ge (log.lastPosition + (k + 1) * fillerDelta) g.toNat with hlt | hge
      · -- all fillers lie before the cut
        have hall : min (k + 1) (fillersFor (g.toNat - log.lastPosition)) = k + 1 := by
          unfold fillersFor fillerDelta at *
          omega
        have hbefore : log.lastPosition < g.toNat := by omega
        rw [truncate_of_lastPosition_lt (hlast ▸ hlt), truncate_of_lastPosition_lt hbefore, hall]
        rfl
      · have hdrop : min (k + 1) (fillersFor (g.toNat - log.lastPosition)) =
            min k (fillersFor (g.toNat - log.lastPosition)) := by
          unfold fillersFor fillerDelta at *
          omega
        rw [← lastPosition_fillers, appendMany_succ, lastPosition_append] at hge
        rw [appendMany_succ, truncate_append_of_le hge, ih, hdrop]

/-! ## Records behind the cut -/

/-- The fillers that a change at a tick or behind it leaves before that tick. -/
def fillersBefore (log : RideLog) (tick : Nat) : Nat :=
  min (maxRecords - log.updates.length) (fillersFor (tick - log.lastPosition))

/-- No filler lies between the last position and a tick before it. -/
theorem fillersBefore_of_le (h : n ≤ log.lastPosition) : log.fillersBefore n = 0 := by
  have hnone : fillersFor 0 = 0 := rfl
  rw [fillersBefore, Nat.sub_eq_zero_of_le h, hnone, Nat.min_zero]

/-- A full log takes no filler. -/
theorem fillersBefore_of_full (h : maxRecords ≤ log.updates.length) : log.fillersBefore n = 0 := by
  rw [fillersBefore, Nat.sub_eq_zero_of_le h, Nat.zero_min]

/-- A change leaves no filler before a tick exactly if the log is full or the tick is within the
reach of one record. -/
theorem fillersBefore_eq_zero_iff (log : RideLog) (n : Nat) :
    log.fillersBefore n = 0 ↔ log.isFull = true ∨ n ≤ log.lastPosition + fillerDelta := by
  rw [isFull_iff]
  unfold fillersBefore fillersFor fillerDelta
  omega

/-- What a record behind the cut adds before it. -/
theorem truncate_record (hroom : log.updates.length ≤ maxRecords) (hg : g.toNat ≤ e.tick) :
    (log.record e.tick e.control).1.truncate g =
      (log.truncate g).appendMany log.filler
        (if log.Changes e.control then log.fillersBefore g.toNat else 0) := by
  have hrecorded := recorded_record hroom e
  generalize log.record e.tick e.control = after at hrecorded
  cases hrecorded with
  | unchanged hc => rw [if_neg hc, appendMany_zero]
  | early hc htick =>
      rw [if_pos hc, fillersBefore_of_le (by omega), appendMany_zero]
  | @added gap hc htick hfits =>
      have hbehind : g.toNat ≤ (log.appendMany log.filler (fillersFor gap)).lastPosition +
          deltaOf (packRecord (restOf gap) e.control) := by
        rw [← lastPosition_append, lastPosition_added]
        omega
      have hall : min (fillersFor gap) (fillersFor (g.toNat - log.lastPosition)) =
          log.fillersBefore g.toNat := by
        unfold fillersBefore
        unfold fillersFor fillerDelta at *
        omega
      rw [if_pos hc, truncate_append_of_le hbehind, truncate_fillers, hall]
  | refused hc => rw [if_pos hc, truncate_fillers, fillersBefore]

/-- After a change behind a tick, no later one leaves fillers before it. -/
theorem fillersBefore_record (hroom : log.updates.length ≤ maxRecords) (hn : (n : Int) ≤ e.tick)
    (h : log.Changes e.control ∨ log.fillersBefore n = 0) :
    (log.record e.tick e.control).1.fillersBefore n = 0 := by
  have hrecorded := recorded_record hroom e
  generalize log.record e.tick e.control = after at hrecorded
  cases hrecorded with
  | unchanged hc => exact h.resolve_left hc
  | early hc htick =>
      have hle : n ≤ log.lastPosition := by omega
      exact fillersBefore_of_le hle
  | @added gap hc htick hfits =>
      apply fillersBefore_of_le
      rw [lastPosition_added]
      omega
  | refused hc =>
      apply fillersBefore_of_full
      rw [length_appendMany]
      omega

/-! ## Entries behind the cut -/

/-- The log after several entries, whatever it answers. -/
def enterAll (log : RideLog) (entries : List Entry) : RideLog := log.editAll (entries.map .record)

/-- Several entries are the first one and then the others. -/
theorem enterAll_cons (log : RideLog) (e : Entry) (es : List Entry) :
    log.enterAll (e :: es) = (log.record e.tick e.control).1.enterAll es := rfl

/-- Entries may be entered in two portions. -/
theorem enterAll_append (log : RideLog) (es es' : List Entry) :
    log.enterAll (es ++ es') = (log.enterAll es).enterAll es' := by
  simp [enterAll, editAll]

/-- What entries behind the cut add before it: the fillers of the first change among them. -/
theorem truncate_enterAll {entries : List Entry} (h : log.Sparing)
    (hg : ∀ e ∈ entries, g.toNat ≤ e.tick) :
    (log.enterAll entries).truncate g =
      (log.truncate g).appendMany log.filler
        (if ∃ e ∈ entries, log.Changes e.control then log.fillersBefore g.toNat else 0) := by
  induction entries generalizing log with
  | nil => simp [enterAll, editAll]
  | cons e es ih =>
      rw [List.forall_mem_cons] at hg
      rw [enterAll_cons, ih (h.record e) hg.2]
      by_cases hc : log.Changes e.control
      · -- from the first change on nothing more comes before the cut
        have hnone := fillersBefore_record h.room hg.1 (.inl hc)
        rw [hnone, ite_self, appendMany_zero, truncate_record h.room hg.1, if_pos hc,
          if_pos ⟨e, List.mem_cons_self, hc⟩]
      · have hsame := not_not.mp hc
        rw [record_of_unchanged log e.tick hsame.1 hsame.2]
        simp [hc]

/-- Entries before a tick put records before it. -/
theorem below_record (hroom : log.updates.length ≤ maxRecords) (he : e.tick < n)
    (h : ∀ r ∈ log.records, r.position < n) :
    ∀ r ∈ (log.record e.tick e.control).1.records, r.position < n := by
  have hrecorded := recorded_record hroom e
  generalize log.record e.tick e.control = after at hrecorded
  cases hrecorded with
  | unchanged => exact h
  | early => exact h
  | @added gap hc htick hfits =>
      intro r hr
      apply Nat.lt_of_le_of_lt (position_le_lastPosition hr)
      rw [lastPosition_added]
      omega
  | @refused gap hc htick hover =>
      intro r hr
      rcases Nat.eq_zero_or_pos (maxRecords - log.updates.length) with hnone | hsome
      · rw [hnone, appendMany_zero] at hr
        exact h r hr
      · -- at most the fillers of the gap, which end before its last tick
        apply Nat.lt_of_le_of_lt (position_le_lastPosition hr)
        rw [lastPosition_fillers]
        unfold fillersFor fillerDelta at *
        omega

/-- Entries before a tick leave no record at it or behind it. -/
theorem below_enterAll {entries : List Entry} (hs : log.Sparing)
    (he : ∀ e ∈ entries, e.tick < n) (h : ∀ r ∈ log.records, r.position < n) :
    ∀ r ∈ (log.enterAll entries).records, r.position < n := by
  induction entries generalizing log with
  | nil => exact h
  | cons e es ih =>
      rw [List.forall_mem_cons] at he
      rw [enterAll_cons]
      exact ih (hs.record e) he.2 (below_record hs.room he.1 h)

/-! ## Going on from the cut -/

/-- Fillers do not change what a filler is. -/
theorem filler_fillers (log : RideLog) (k : Nat) :
    (log.appendMany log.filler k).filler = log.filler := by
  rw [filler, lastAccel_fillers]
  rfl

/-- Copies of a word may be appended in two portions. -/
theorem appendMany_appendMany (log : RideLog) (word : UInt16) (j k : Nat) :
    (log.appendMany word j).appendMany word k = log.appendMany word (j + k) := by
  unfold appendMany
  dsimp only
  rw [List.append_assoc, ← List.replicate_add]

/-- A change behind a tick finds the same log, with or without its fillers before that tick. -/
theorem record_fillers (hroom : log.updates.length ≤ maxRecords) (hn : (n : Int) ≤ e.tick)
    (hc : log.Changes e.control) :
    (log.appendMany log.filler (log.fillersBefore n)).record e.tick e.control =
      log.record e.tick e.control := by
  rcases Nat.eq_zero_or_pos (log.fillersBefore n) with hnone | hsome
  · rw [hnone, appendMany_zero]
  · have hbehind : log.lastPosition < n := by
      apply Nat.lt_of_not_le
      intro hle
      exact absurd (fillersBefore_of_le hle) (Nat.ne_of_gt hsome)
    obtain ⟨gap, htick⟩ : ∃ gap : Nat, e.tick = (log.lastPosition + gap : Nat) :=
      ⟨(e.tick - log.lastPosition).toNat, by omega⟩
    obtain ⟨rest, hrest, hfillers, hrestOf⟩ : ∃ rest,
        log.fillersBefore n * fillerDelta + rest = gap ∧
        log.fillersBefore n + fillersFor rest = fillersFor gap ∧ restOf rest = restOf gap := by
      refine ⟨gap - log.fillersBefore n * fillerDelta, ?_⟩
      unfold restOf fillersBefore fillersFor fillerDelta at *
      omega
    have hfew : log.fillersBefore n ≤ maxRecords - log.updates.length := Nat.min_le_left _ _
    have hc' : (log.appendMany log.filler (log.fillersBefore n)).Changes e.control := by
      unfold Changes
      rwa [lastAccel_fillers]
    have hgap : (log.appendMany log.filler (log.fillersBefore n)).lastPosition + rest =
        log.lastPosition + gap := by
      rw [lastPosition_fillers]
      omega
    have hlength := length_appendMany log log.filler (log.fillersBefore n)
    rw [htick]
    rcases Nat.lt_or_ge maxRecords (log.updates.length + (fillersFor gap + 1)) with hlt | hge
    · rw [record_of_no_room hc' hgap (by omega) (by omega), record_of_no_room hc rfl hroom hlt,
        filler_fillers, appendMany_appendMany, hlength]
      congr 2
      omega
    · rw [record_of_room hc' hgap (by omega), record_of_room hc rfl hge, filler_fillers,
        appendMany_appendMany, hfillers, hrestOf]

/-! ## Entries and the count of ticks -/

/-- The count of ticks has no part in pushing a record. -/
theorem push_withFrames (log : RideLog) (m : UInt16) (word : UInt16) :
    (log.withFrames m).push word = ((log.push word).1.withFrames m, (log.push word).2) := by
  have hfull : (log.withFrames m).isFull = log.isFull := rfl
  unfold push
  rw [hfull]
  split <;> rfl

/-- The count of ticks has no part in pushing many records. -/
theorem pushMany_withFrames (log : RideLog) (m : UInt16) (word : UInt16) (k : Nat) :
    (log.withFrames m).pushMany word k =
      ((log.pushMany word k).1.withFrames m, (log.pushMany word k).2) := by
  induction k generalizing log with
  | zero => rfl
  | succ k ih =>
      rw [pushMany, pushMany, push_withFrames]
      rcases log.push word with ⟨log₁, _ | _⟩
      · rfl
      · exact ih log₁

/-- What is recorded does not depend on the count of ticks, and leaves it alone. -/
theorem record_withFrames (log : RideLog) (m : UInt16) (frame : Int) (c : Control) :
    (log.withFrames m).record frame c =
      ((log.record frame c).1.withFrames m, (log.record frame c).2) := by
  have haccel : (log.withFrames m).lastAccel = log.lastAccel := rfl
  have hposition : (log.withFrames m).lastPosition = log.lastPosition := rfl
  unfold record
  dsimp only
  rw [haccel, hposition, pushMany_withFrames]
  split_ifs
  · rfl
  · rfl
  · rcases log.pushMany (packRecord fillerDelta ⟨log.lastAccel, .none⟩)
      (fillersFor (frame - log.lastPosition).toNat) with ⟨log₁, _ | _⟩
    · rfl
    · exact push_withFrames log₁ m _

/-- The count of ticks has no part in entering. -/
theorem enterAll_withFrames (log : RideLog) (m : UInt16) (entries : List Entry) :
    (log.withFrames m).enterAll entries = (log.enterAll entries).withFrames m := by
  induction entries generalizing log with
  | nil => rfl
  | cons e es ih => rw [enterAll_cons, record_withFrames, enterAll_cons, ih]

end RideLog

/-! ## Sessions that play on -/

namespace Session

variable {x y : Session} {cause : Option Failure} {nonce : UInt32} {target : Int16}
  {advances : List (Control × Nat)} {cs : List Control} {z : RideState × RideLog × StepResult}

/-- The session after several advances, whatever they answer. -/
def playAll (x : Session) (advances : List (Control × Nat)) : Session :=
  advances.foldl (fun x a => (x.advance a.1 a.2).1) x

/-- The session after several advances, each of them as far as it lies before tick `g`. -/
def playUpTo (g : Nat) (x : Session) (advances : List (Control × Nat)) : Session :=
  advances.foldl (fun x a => (x.advance a.1 (min a.2 (g - x.log.numFrames.toNat))).1) x

/-- Several advances are the first one and then the others. -/
theorem playAll_cons (x : Session) (a : Control × Nat) (advances : List (Control × Nat)) :
    x.playAll (a :: advances) = (x.advance a.1 a.2).1.playAll advances := rfl

/-- Of several advances, the first is cut short at the tick, and then the others are. -/
theorem playUpTo_cons (g : Nat) (x : Session) (a : Control × Nat)
    (advances : List (Control × Nat)) :
    x.playUpTo g (a :: advances) =
      (x.advance a.1 (min a.2 (g - x.log.numFrames.toNat))).1.playUpTo g advances := rfl

/-! ### What is written down -/

/-- The log that a tick is played with has one entry more, at that tick. -/
theorem exists_entry_controlFor (hcontrol : controlFor s log c = (log₁, played)) :
    ∃ e : Entry, e.tick = s.frame.toInt ∧ log₁ = (log.record e.tick e.control).1 := by
  unfold controlFor at hcontrol
  dsimp only at hcontrol
  rcases hrecord : log.record s.frame.toInt
    ⟨c.accel, if s.canRotate rotationPeriod then c.rotation else .none⟩ with ⟨log', _ | _⟩
  · rw [hrecord] at hcontrol
    cases hcontrol
    exact ⟨⟨_, _⟩, rfl, (congrArg Prod.fst hrecord).symm⟩
  · rw [hrecord] at hcontrol
    cases hcontrol
    exact ⟨⟨_, _⟩, rfl, (congrArg Prod.fst hrecord).symm⟩

/-- A play writes down entries from its first tick on. -/
theorem Play.entries (hplay : Play w n c s log cs z) (h : w.Logged s log none) :
    ∃ entries : List Entry, (∀ e ∈ entries, s.frame.toInt ≤ e.tick) ∧
      z.2.1 = (log.enterAll entries).withFrames z.2.1.numFrames := by
  induction hplay with
  | nil => exact ⟨[], nofun, rfl⟩
  | last hcontrol =>
      obtain ⟨e, htick, rfl⟩ := exists_entry_controlFor hcontrol
      refine ⟨[e], ?_, rfl⟩
      intro e' he'
      rw [List.mem_singleton.mp he', htick]
  | @next _ _ _ _ t log _ _ z hcontrol hstep _ ih =>
      obtain ⟨e, htick, rfl⟩ := exists_entry_controlFor hcontrol
      obtain ⟨hlogged, -, hframe⟩ := h.tick hcontrol hstep
      obtain ⟨es, hes, hlog⟩ := ih hlogged
      refine ⟨e :: es, ?_, ?_⟩
      · intro e' he'
        rcases List.mem_cons.mp he' with rfl | he'
        · exact Int.le_of_eq htick.symm
        · have hlater := hes e' he'
          omega
      · have hcount := congrArg (RideLog.withFrames · z.2.1.numFrames)
          (RideLog.enterAll_withFrames (log.record e.tick e.control).1
            t.frame.toUInt32.toUInt16 es)
        exact hlog.trans hcount

/-- An advance counts no more ticks than it was given. -/
theorem Stands.numFrames_advance (h : x.Stands cause) (c : Control) (frames : Nat) :
    x.log.numFrames.toNat ≤ (x.advance c frames).1.log.numFrames.toNat ∧
      (x.advance c frames).1.log.numFrames.toNat ≤ x.log.numFrames.toNat + frames := by
  rcases h.cases with ⟨hfinished, -⟩ | ⟨hfinished, hdead⟩ | ⟨hfinished, alive, hgoing⟩
  · rw [advance_of_finished hfinished]
    exact ⟨Nat.le_refl _, Nat.le_add_right _ _⟩
  · rw [advance_of_dead hfinished hdead]
    exact ⟨Nat.le_refl _, Nat.le_add_right _ _⟩
  · have hgrows := congrArg List.length (timeline_advance h c frames)
    rw [List.length_append, RideLog.length_timeline, RideLog.length_timeline] at hgrows
    rcases hplay : playTicks x.world (min frames x.remaining) c x.state x.log with ⟨t, log, r⟩
    obtain ⟨hlogged, -, hframe⟩ := hgoing.playTicks hplay
    obtain ⟨state, hend⟩ := x.conclude_eq t log r
    rw [hlogged.frame, hgoing.frame] at hframe
    rw [advance_of_going hfinished alive, hplay, hend] at hgrows ⊢
    dsimp only at hgrows ⊢
    omega

/-- An advance writes down entries from its first tick on. -/
theorem Stands.entries_advance (h : x.Stands cause) (c : Control) (frames : Nat) :
    ∃ entries : List Entry, (∀ e ∈ entries, (x.log.numFrames.toNat : Int) ≤ e.tick) ∧
      (x.advance c frames).1.log =
        (x.log.enterAll entries).withFrames (x.advance c frames).1.log.numFrames := by
  rcases h.cases with ⟨hfinished, -⟩ | ⟨hfinished, hdead⟩ | ⟨hfinished, alive, hgoing⟩
  · rw [advance_of_finished hfinished]
    exact ⟨[], nofun, rfl⟩
  · rw [advance_of_dead hfinished hdead]
    exact ⟨[], nofun, rfl⟩
  · rcases hplay : playTicks x.world (min frames x.remaining) c x.state x.log with ⟨t, log, r⟩
    obtain ⟨state, hend⟩ := x.conclude_eq t log r
    rw [advance_of_going hfinished alive, hplay, hend, ← hgoing.frame]
    exact (play_of_eq hplay).entries hgoing

/-- Advances write down entries from the first tick on that they play. -/
theorem Stands.entries_playAll (h : x.Stands cause) (advances : List (Control × Nat)) :
    ∃ entries : List Entry, (∀ e ∈ entries, (x.log.numFrames.toNat : Int) ≤ e.tick) ∧
      (x.playAll advances).log =
        (x.log.enterAll entries).withFrames (x.playAll advances).log.numFrames := by
  induction advances generalizing x cause with
  | nil => exact ⟨[], nofun, rfl⟩
  | cons a advances ih =>
      obtain ⟨es, hes, hlog⟩ := h.entries_advance a.1 a.2
      obtain ⟨es', hes', hlog'⟩ := ih (h.advance a.1 a.2)
      have hcount := (h.numFrames_advance a.1 a.2).1
      refine ⟨es ++ es', ?_, ?_⟩
      · intro e he
        rcases List.mem_append.mp he with he | he
        · exact hes e he
        · have hlater := hes' e he
          omega
      · rw [playAll_cons, hlog', hlog, RideLog.enterAll_withFrames, RideLog.enterAll_append]
        rfl

/-- The log of a session that has played on, cut where it was. -/
theorem Stands.truncate_playAll (h : x.Stands cause) (hg : x.log.numFrames = g)
    (advances : List (Control × Nat)) :
    ∃ fillers, (fillers = 0 ∨ fillers = x.log.fillersBefore g.toNat) ∧
      (x.playAll advances).log.truncate g = x.log.appendMany x.log.filler fillers := by
  subst hg
  obtain ⟨es, hes, hlog⟩ := h.entries_playAll advances
  obtain ⟨s, halt, hlogged⟩ := h.logged
  have hsparing : x.log.Sparing := ⟨hlogged.room, hlogged.wellFormed.effective⟩
  have hcut : (x.playAll advances).log.truncate x.log.numFrames =
      (x.log.enterAll es).truncate x.log.numFrames := by
    rw [hlog]
    rfl
  rw [hcut, RideLog.truncate_enterAll hsparing hes,
    RideLog.truncate_of_below hlogged.wellFormed.below]
  refine ⟨_, ?_, rfl⟩
  split
  · exact .inr rfl
  · exact .inl rfl

/-! ### Playing up to a tick -/

/-- A session whose last advance goes on is neither finished nor dead. -/
theorem LawfulAdvance.going {answer : StepResult} (h : LawfulAdvance target x c n y answer)
    (hanswer : answer = .continue) : y.finished = false ∧ y.state.dead = false := by
  rw [Bool.eq_false_iff, Bool.eq_false_iff, ne_eq, ne_eq, h.finished, h.dead, hanswer]
  exact ⟨nofun, nofun⟩

/-- A session whose last advance does not go on stays as it is. -/
theorem LawfulAdvance.advance_of_over {answer : StepResult}
    (h : LawfulAdvance target x c n y answer) (hanswer : answer ≠ .continue) (d : Control)
    (m : Nat) : (y.advance d m).1 = y := by
  rcases answer with _ | _ | reason
  · exact absurd rfl hanswer
  · rw [advance_of_finished (h.finished.mpr rfl)]
  · have hdead := h.dead.mpr ⟨reason, rfl⟩
    have hfinished : y.finished = false := by
      rw [Bool.eq_false_iff]
      exact fun hboth => h.not_both ⟨hboth, hdead⟩
    rw [advance_of_dead hfinished hdead]

/-- Two advances under one control leave what one advance of all their ticks leaves. -/
theorem Stands.fst_advance_add (hx : x.Continues w nonce target) (h : x.Stands cause) (c : Control)
    (m n : Nat) : (x.advance c (m + n)).1 = ((x.advance c m).1.advance c n).1 := by
  have hlawful := h.lawfulAdvance hx c m
  rw [h.advance_add]
  rcases hfirst : x.advance c m with ⟨y, _ | _ | reason⟩
  · rfl
  · rw [hfirst] at hlawful
    exact (hlawful.advance_of_over nofun c n).symm
  · rw [hfirst] at hlawful
    exact (hlawful.advance_of_over nofun c n).symm

/-- An advance of no ticks leaves a session alone that goes on and has time left. -/
theorem advance_zero (hfinished : x.finished = false) (alive : x.state.dead = false)
    (htime : x.state.frame.toInt < x.timeTarget.toInt) (c : Control) :
    x.advance c 0 = (x, .continue) := by
  have hearly : StepResult.continue ≠ .success := nofun
  rw [advance_of_going hfinished alive, Nat.zero_min, playTicks]
  exact conclude_of_early hearly htime

/-- A session that has got to tick `g` and has time left plays nothing more up to there. -/
theorem playUpTo_of_numFrames (hfinished : x.finished = false) (alive : x.state.dead = false)
    (htime : x.state.frame.toInt < x.timeTarget.toInt) {g : Nat} (hg : x.log.numFrames.toNat = g)
    (advances : List (Control × Nat)) : x.playUpTo g advances = x := by
  induction advances with
  | nil => rfl
  | cons a advances ih =>
      rw [playUpTo_cons, hg, Nat.sub_self, Nat.min_zero, advance_zero hfinished alive htime, ih]

/-- An advance up to tick `g` gets there, and then there is nothing more to play up to there; or the
ride is over, and there is nothing more to play at all. -/
theorem Stands.advance_upTo {g : Nat} (hx : x.Continues w nonce target) (h : x.Stands cause)
    (hg : x.log.numFrames.toNat ≤ g) (c : Control) :
    let y := (x.advance c (g - x.log.numFrames.toNat)).1
    (y.log.numFrames.toNat = g ∧ ∀ advances, y.playUpTo g advances = y) ∨
      ∀ d n, (y.advance d n).1 = y := by
  intro y
  have hlawful := h.lawfulAdvance hx c (g - x.log.numFrames.toNat)
  by_cases hanswer : (x.advance c (g - x.log.numFrames.toNat)).2 = .continue
  · left
    obtain ⟨-, hframe, htime⟩ := hlawful.played hanswer
    obtain ⟨hfinished, alive⟩ := hlawful.going hanswer
    have hnext := hx.advance h c (g - x.log.numFrames.toNat)
    have hbefore := (h.withinLimits hx).counted
    have hafter := ((h.advance c (g - x.log.numFrames.toNat)).withinLimits hnext).counted
    have hreached :
        (x.advance c (g - x.log.numFrames.toNat)).1.log.numFrames.toNat = g := by
      rw [hframe, hbefore] at hafter
      omega
    rw [← hnext.timeTarget] at htime
    exact ⟨hreached, playUpTo_of_numFrames hfinished alive htime hreached⟩
  · right
    exact hlawful.advance_of_over hanswer

/-- All advances of a session are those up to tick `g`, and then others, if the session got
there. -/
theorem Stands.playUpTo_split {g : Nat} (hx : x.Continues w nonce target) (h : x.Stands cause)
    (hg : x.log.numFrames.toNat ≤ g) (advances : List (Control × Nat)) :
    let y := x.playUpTo g advances
    y.log.numFrames.toNat ≤ g ∧ (∃ cause', y.Stands cause') ∧
      ∃ rest, x.playAll advances = y.playAll rest ∧ (y.log.numFrames.toNat = g ∨ rest = []) := by
  induction advances generalizing x cause with
  | nil => exact ⟨hg, ⟨cause, h⟩, [], rfl, .inr rfl⟩
  | cons a advances ih =>
      obtain ⟨c, n⟩ := a
      rw [playAll_cons, playUpTo_cons]
      dsimp only
      have hcount (m : Nat) (hm : m ≤ g - x.log.numFrames.toNat) :
          (x.advance c m).1.log.numFrames.toNat ≤ g := by
        have hle := (h.numFrames_advance c m).2
        omega
      rcases Nat.le_total n (g - x.log.numFrames.toNat) with hall | hsome
      · rw [Nat.min_eq_left hall]
        exact ih (hx.advance h c n) (h.advance c n) (hcount n hall)
      · -- the advance lies on both sides of the tick
        obtain ⟨m, rfl⟩ := Nat.exists_eq_add_of_le hsome
        rw [Nat.min_eq_right hsome, h.fst_advance_add hx]
        rcases h.advance_upTo hx hg c with ⟨hreached, hstays⟩ | hover
        · rw [hstays]
          exact ⟨Nat.le_of_eq hreached, ⟨_, h.advance c _⟩, (c, m) :: advances, rfl, .inl hreached⟩
        · rw [hover]
          exact ih (hx.advance h c _) (h.advance c _) (hcount _ (Nat.le_refl _))

/-- A session that has got as far as tick `g` has got there by the advances up to it. -/
theorem Stands.playUpTo_of_le {g : Nat} (hx : x.Continues w nonce target) (h : x.Stands cause)
    (hg : x.log.numFrames.toNat ≤ g) (hplayed : g ≤ (x.playAll advances).log.numFrames.toNat) :
    let y := x.playUpTo g advances
    y.log.numFrames.toNat = g ∧ (∃ cause', y.Stands cause') ∧
      ∃ rest, x.playAll advances = y.playAll rest := by
  obtain ⟨hle, hstands, rest, hrest, hreached⟩ := h.playUpTo_split hx hg advances
  refine ⟨?_, hstands, rest, hrest⟩
  rcases hreached with hreached | rfl
  · exact hreached
  · -- nothing was played behind the advances up to the tick
    rw [hrest] at hplayed
    exact Nat.le_antisymm hle hplayed

/-- Going back to a tick that was played cuts the log there. -/
theorem log_rewind (x : Session) (hg : g.toNat ≤ x.log.numFrames.toNat) :
    (x.rewind g.toNat).1.log = x.log.truncate g := by
  obtain ⟨state, finished, heq⟩ := x.rewind_fst g.toNat
  have hclamp : max 0 (min (g.toNat : Int) x.log.numFrames.toNat) = g.toNat := by omega
  have hword : UInt16.ofInt g.toNat = g := by
    apply UInt16.toNat_inj.mp
    exact toNat_ofInt_of_lt g.toNat_lt
  rw [heq, hclamp, hword]

end Session

/-! ## Cutting and going back -/

/-- Entries in the order of their ticks are those before a tick, and then those from it on. -/
theorem Entry.filter_append_filter {entries : List Entry}
    (h : entries.Pairwise fun e e' => e.tick < e'.tick) (g : Int) :
    (entries.filter fun e => decide (e.tick < g)) ++ (entries.filter fun e => decide (g ≤ e.tick)) =
      entries := by
  induction entries with
  | nil => rfl
  | cons e es ih =>
      rw [List.pairwise_cons] at h
      rcases Int.lt_or_le e.tick g with hlt | hge
      · have hnot : ¬ g ≤ e.tick := Int.not_le.mpr hlt
        simp only [List.filter_cons, hlt, hnot, decide_true, decide_false, if_true,
          Bool.false_eq_true, if_false, List.cons_append, ih h.2]
      · -- all entries after this one are behind the tick as well
        have hbefore : (e :: es).filter (fun e => decide (e.tick < g)) = [] := by
          rw [List.filter_eq_nil_iff]
          intro e' he'
          rcases List.mem_cons.mp he' with rfl | he'
          · simpa using hge
          · have hlater := h.1 e' he'
            simp only [decide_eq_true_eq]
            omega
        have hbehind : (e :: es).filter (fun e => decide (g ≤ e.tick)) = e :: es := by
          rw [List.filter_eq_self]
          intro e' he'
          rcases List.mem_cons.mp he' with rfl | he'
          · exact decide_eq_true hge
          · have hlater := h.1 e' he'
            exact decide_eq_true (by omega)
        rw [hbefore, hbehind, List.nil_append]

namespace RideLog

/-- A log of entries in the order of their ticks, cut at a tick. -/
theorem truncate_enterAll_of_sorted {entries : List Entry} (nonce : UInt32)
    (hsorted : entries.Pairwise fun e e' => e.tick < e'.tick) (g : UInt16) :
    let before := (empty nonce).enterAll (entries.filter fun e => decide (e.tick < g.toNat))
    let behind := entries.filter fun e => decide ((g.toNat : Int) ≤ e.tick)
    ((empty nonce).enterAll entries).truncate g =
      (before.appendMany before.filler
        (if ∃ e ∈ behind, before.Changes e.control then before.fillersBefore g.toNat
          else 0)).withFrames g := by
  intro before behind
  have hsparing : before.Sparing := (sparing_empty nonce).editAll _
  have hbefore : ∀ r ∈ before.records, r.position < g.toNat := by
    apply below_enterAll (sparing_empty nonce)
    · intro e he
      exact of_decide_eq_true (List.mem_filter.mp he).2
    · exact nofun
  have hbehind : ∀ e ∈ behind, (g.toNat : Int) ≤ e.tick :=
    fun e he => of_decide_eq_true (List.mem_filter.mp he).2
  have hall : (empty nonce).enterAll entries = before.enterAll behind := by
    rw [← enterAll_append, Entry.filter_append_filter hsorted]
  rw [hall, truncate_enterAll hsparing hbehind, truncate_of_below hbefore]
  rfl

/-- **Cutting restores the log, but for fillers.** Cut at a tick, a log of entries in the order of
their ticks is the log of the entries before that tick, and behind it the fillers that the first
change from there on has put before the tick. There are none if there is no such change, if the log
was full, or if the tick lies no more than `fillerDelta` behind the last record, and there are some
in all other cases. They keep every control, and the next change from that tick on leads to the same
log with them and without them. So a session that goes back to a tick has the log, and such fillers
behind it, of a session that was played the same way up to there. -/
theorem cut_restores (nonce : UInt32) (g : UInt16) :
    (∀ entries : List Entry, (entries.Pairwise fun e e' => e.tick < e'.tick) →
      let before := (empty nonce).enterAll (entries.filter fun e => decide (e.tick < g.toNat))
      let behind := entries.filter fun e => decide ((g.toNat : Int) ≤ e.tick)
      let fillers :=
        if ∃ e ∈ behind, before.Changes e.control then before.fillersBefore g.toNat else 0
      let cut := ((empty nonce).enterAll entries).truncate g
      cut = (before.appendMany before.filler fillers).withFrames g ∧
      (cut.updates = before.updates ↔
        (∀ e ∈ behind, ¬ before.Changes e.control) ∨ before.isFull = true ∨
          g.toNat ≤ before.lastPosition + fillerDelta) ∧
      (∀ tick, cut.controlAt tick = before.controlAt tick) ∧
      ∀ e : Entry, g.toNat ≤ e.tick → before.Changes e.control →
        cut.record e.tick e.control = (before.withFrames g).record e.tick e.control) ∧
    ∀ (w : World) (target : Int16) (advances : List (Control × Nat)),
      let start := Session.ofWorld w startState nonce target
      let x := start.playAll advances
      let fresh := start.playUpTo g.toNat advances
      g.toNat ≤ x.log.numFrames.toNat →
        fresh.log.numFrames = g ∧
        ∃ fillers, (fillers = 0 ∨ fillers = fresh.log.fillersBefore g.toNat) ∧
          (x.rewind g.toNat).1.log = fresh.log.appendMany fresh.log.filler fillers := by
  refine ⟨?_, ?_⟩
  · intro entries hsorted before behind fillers cut
    have hcut : cut = (before.appendMany before.filler fillers).withFrames g :=
      truncate_enterAll_of_sorted nonce hsorted g
    have hroom : (before.withFrames g).updates.length ≤ maxRecords :=
      ((sparing_empty nonce).editAll _).room
    clear_value before behind
    rw [hcut, ← fillersBefore_eq_zero_iff]
    refine ⟨rfl, ?_, fun tick => controlAt_fillers before fillers tick, ?_⟩
    · refine (updates_appendMany_eq_iff before _ fillers).trans ?_
      dsimp only [fillers]
      split
      · next hany =>
          obtain ⟨e, he, hc⟩ := hany
          exact (or_iff_right fun hnone => hnone e he hc).symm
      · next hany => exact ⟨fun _ => .inl fun e he hc => hany ⟨e, he, hc⟩, fun _ => rfl⟩
    · intro e he hc
      dsimp only [fillers]
      split
      · exact record_fillers hroom he hc
      · rw [appendMany_zero]
  · intro w target advances start x fresh hg
    obtain ⟨hcount, ⟨cause, hfresh⟩, rest, hrest⟩ :=
      (Session.stands_ofWorld w nonce target).playUpTo_of_le
        (Session.continues_ofWorld w nonce target) (Nat.zero_le g.toNat) hg
    have hframes : fresh.log.numFrames = g := UInt16.toNat_inj.mp hcount
    obtain ⟨fillers, hfillers, hcut⟩ := hfresh.truncate_playAll hframes rest
    refine ⟨hframes, fillers, hfillers, ?_⟩
    rw [Session.log_rewind x hg, show x = fresh.playAll rest from hrest, hcut]

/-- Cut at tick 5500, the log of a change at tick 2 and one at tick 6000 is that of the first change
with one filler behind it. A session that goes back from its finish to its first tick has the log of
that tick. -/
theorem cut_restores_lateChange :
    let entries : List Entry := [⟨2, ⟨.gasLeft, .none⟩⟩, ⟨6000, ⟨.idle, .none⟩⟩]
    let before := (empty 0).enterAll [⟨2, ⟨.gasLeft, .none⟩⟩]
    let cut := ((empty 0).enterAll entries).truncate 5500
    let advances : List (Control × Nat) := [(⟨.gasLeft, .none⟩, 1), (⟨.idle, .none⟩, 1)]
    let x := (Session.ofWorld .shortDrop startState 0 15000).playAll advances
    let fresh := (Session.ofWorld .shortDrop startState 0 15000).playUpTo 1 advances
    (entries.Pairwise fun e e' => e.tick < e'.tick) ∧
      cut = (before.append before.filler).withFrames 5500 ∧ cut.updates ≠ before.updates ∧
      (∀ tick, cut.controlAt tick = before.controlAt tick) ∧
      x.finished = true ∧ x.log.numFrames = 2 ∧ (x.rewind 1).1.log = fresh.log := by
  intro entries before cut advances x fresh
  have hsorted : entries.Pairwise fun e e' => e.tick < e'.tick := by decide
  have hbefore : (entries.filter fun e => decide (e.tick < ((5500 : UInt16).toNat : Int))) =
      [⟨2, ⟨.gasLeft, .none⟩⟩] := by decide
  obtain ⟨hcut, hsame, hcontrols, -⟩ := (cut_restores 0 5500).1 entries hsorted
  rw [hbefore] at hcut hsame hcontrols
  have hfinished : x.finished = true := by decide +kernel
  have hframes : x.log.numFrames = 2 := by decide +kernel
  have hplayed : 1 ≤ x.log.numFrames.toNat := by
    rw [hframes]
    decide
  refine ⟨hsorted, ?_, ?_, hcontrols, hfinished, hframes, ?_⟩
  · rw [if_pos (by decide)] at hcut
    exact hcut
  · rw [Ne, hsame]
    decide
  · have hfirst : (1 : UInt16).toNat = 1 := rfl
    have hback := (cut_restores 0 1).2 .shortDrop 15000 advances
    simp only [hfirst, Int.natCast_one] at hback
    -- the first tick lies too close behind the last record for a filler
    have hnone : fresh.log.fillersBefore 1 = 0 := by decide +kernel
    dsimp only [x, fresh] at hplayed hnone ⊢
    obtain ⟨-, fillers, hfillers, hlog⟩ := hback hplayed
    have hfillers : fillers = 0 := hfillers.elim id fun h => h.trans hnone
    simpa only [hfillers, appendMany_zero] using hlog

/-- A change at tick 6000 is preceded by a filler, which stays when the log is cut at tick 5500. No
entry lies before that tick. -/
theorem cut_keeps_filler :
    let entries : List Entry := [⟨6000, ⟨.gasLeft, .none⟩⟩]
    ((empty 0).record 6000 ⟨.gasLeft, .none⟩).2 = true ∧
      (((empty 0).enterAll entries).truncate 5500).records = [⟨5460, 5460, ⟨.idle, .none⟩⟩] ∧
      ((empty 0).enterAll (entries.filter fun e => decide (e.tick < 5500))).records = [] := by
  decide

end RideLog

end RideProof
