import Mathlib.Logic.Basic
import Mathlib.Tactic.SplitIfs
import RideProof.Log.Timeline
import RideProof.Replay

/-!
# Records and the ticks between them

The positions of the records of a log never go back. Between the last of the first `k` records and
the record after it, the control of a tick is that of record `k - 1`, held: its throttle position
throughout, and its rotation on the tick at its own position only. This says piece by piece what the
timeline of a log is.

* `recordBefore`, `tickBefore`, `controlBefore` — the last of the first `k` records, its position
  and its control.
* `RideLog.faultAt` — the fault of a record by itself.
* `map_controlAt_range'` — the timeline from one record to the next.
* `RideLog.wellFormed_iff` — a log is well formed when no record has a fault.
-/

namespace RideProof

/-! ## The record before another -/

/-- The last of the first `k` records. -/
def recordBefore (rs : List Record) (k : Nat) : Option Record := (rs.take k).getLast?

/-- The tick from which the last of the first `k` records is in force; without any record, the first
tick. -/
def tickBefore (rs : List Record) (k : Nat) : Nat := (recordBefore rs k).elim 0 Record.position

/-- The control of the last of the first `k` records; without any record, no control. -/
def controlBefore (rs : List Record) (k : Nat) : Control :=
  (recordBefore rs k).elim ⟨.idle, .none⟩ Record.control

variable {rs : List Record} {r : Record} {k n t : Nat}

/-- Nothing is before the first record. -/
@[simp] theorem recordBefore_zero (rs : List Record) : recordBefore rs 0 = none := by
  simp [recordBefore]

/-- The record before number `k + 1` is record number `k`. -/
theorem recordBefore_succ (h : rs[k]? = some r) : recordBefore rs (k + 1) = some r := by
  unfold recordBefore
  rw [List.take_add_one, h, Option.toList_some, List.getLast?_concat]

/-- The record before number `k + 1` is in force from its own position. -/
theorem tickBefore_succ (h : rs[k]? = some r) : tickBefore rs (k + 1) = r.position := by
  rw [tickBefore, recordBefore_succ h, Option.elim_some]

/-- The record before number `k + 1` has its own control. -/
theorem controlBefore_succ (h : rs[k]? = some r) : controlBefore rs (k + 1) = r.control := by
  rw [controlBefore, recordBefore_succ h, Option.elim_some]

/-! ## Positions -/

/-- Records read from tick `p` on lie there or later. -/
theorem le_position_of_mem {p : Nat} {words : List UInt16} (h : r ∈ recordsFrom p words) :
    p ≤ r.position := by
  induction words generalizing p with
  | nil => exact absurd h List.not_mem_nil
  | cons word words ih =>
    rw [recordsFrom, List.mem_cons] at h
    rcases h with rfl | h
    · exact Nat.le_add_right p _
    · exact Nat.le_trans (Nat.le_add_right p _) (ih h)

/-- Positions never go back. -/
theorem pairwise_position_le (p : Nat) (words : List UInt16) :
    (recordsFrom p words).Pairwise fun r r' => r.position ≤ r'.position := by
  induction words generalizing p with
  | nil => exact List.Pairwise.nil
  | cons word words ih =>
    rw [recordsFrom, List.pairwise_cons]
    exact ⟨fun r h => le_position_of_mem h, ih _⟩

/-- The records from number `k` on lie at its position or later. -/
theorem position_le_of_mem_drop (hle : rs.Pairwise fun r r' => r.position ≤ r'.position)
    (h : rs[k]? = some r) : ∀ r' ∈ rs.drop k, r.position ≤ r'.position := by
  obtain ⟨hk, rfl⟩ := List.getElem?_eq_some_iff.mp h
  have hdrop := hle.drop (i := k)
  rw [List.drop_eq_getElem_cons hk, List.pairwise_cons] at hdrop
  rw [List.drop_eq_getElem_cons hk]
  intro r' hr'
  rcases List.mem_cons.mp hr' with rfl | hr'
  · exact Nat.le_refl _
  · exact hdrop.1 r' hr'

/-- Of records in strict order, those before the last lie before it. -/
theorem position_le_tickBefore
    (hlt : (rs.take k).Pairwise fun r r' => r.position < r'.position) :
    ∀ r ∈ rs.take k, r.position ≤ tickBefore rs k := by
  intro r hr
  obtain ⟨ds, last, hsplit⟩ : ∃ ds last, rs.take k = ds ++ [last] :=
    ⟨_, _, (List.dropLast_concat_getLast (List.ne_nil_of_mem hr)).symm⟩
  have htick : tickBefore rs k = last.position := by
    rw [tickBefore, recordBefore, hsplit, List.getLast?_concat, Option.elim_some]
  rw [hsplit] at hr hlt
  rw [htick]
  rcases List.mem_append.mp hr with hr | hr
  · exact Nat.le_of_lt ((List.pairwise_append.mp hlt).2.2 r hr last (List.mem_singleton.mpr rfl))
  · exact Nat.le_of_eq (congrArg Record.position (List.mem_singleton.mp hr))

/-! ## The control of a tick -/

/-- Records behind a tick do not bear on its throttle position. -/
theorem accelAt_append_of_lt (rs : List Record) {ds : List Record} (h : ∀ r ∈ ds, t < r.position) :
    accelAt (rs ++ ds) t = accelAt rs t := by
  have hds : (ds.filter fun r => decide (r.position ≤ t)) = [] := by
    rw [List.filter_eq_nil_iff]
    intro r hr
    simpa using h r hr
  unfold accelAt
  rw [List.filter_append, hds, List.append_nil]

/-- Records behind a tick do not bear on its rotation. -/
theorem rotationAt_append_of_lt (rs : List Record) {ds : List Record}
    (h : ∀ r ∈ ds, t < r.position) :
    rotationAt (rs ++ ds) t = rotationAt rs t := by
  have hds : (ds.find? fun r => r.position == t) = none := by
    rw [List.find?_eq_none]
    intro r hr heq
    have hpos := h r hr
    rw [beq_iff_eq] at heq
    omega
  unfold rotationAt
  rw [List.find?_append, hds, Option.or_none]

/-- The throttle position at or behind the last record is its throttle position. -/
theorem accelAt_of_le (h : ∀ r ∈ rs, r.position ≤ t) :
    accelAt rs t = rs.getLast?.elim .idle fun r => r.control.accel := by
  unfold accelAt
  rw [List.filter_eq_self.mpr fun r hr => decide_eq_true (h r hr)]
  cases rs.getLast? <;> rfl

/-- Between two records the throttle position is that of the first of them. -/
theorem accelAt_between (hlt : (rs.take k).Pairwise fun r r' => r.position < r'.position)
    (ht : tickBefore rs k ≤ t) (hd : ∀ r ∈ rs.drop k, t < r.position) :
    accelAt rs t = (controlBefore rs k).accel := by
  have hle : ∀ r ∈ rs.take k, r.position ≤ t :=
    fun r hr => Nat.le_trans (position_le_tickBefore hlt r hr) ht
  have htake : accelAt rs t = accelAt (rs.take k) t := by
    rw [← accelAt_append_of_lt (rs.take k) hd, List.take_append_drop]
  rw [htake, accelAt_of_le hle, controlBefore, recordBefore]
  cases (rs.take k).getLast? <;> rfl

/-- A record is found at its position if all before it lie before it. -/
theorem find?_position_concat {ds : List Record} {last : Record}
    (hlt : ∀ r ∈ ds, r.position < last.position) (ht : last.position ≤ t) :
    ((ds ++ [last]).find? fun r => r.position == t) =
      if t = last.position then some last else none := by
  have hds : (ds.find? fun r => r.position == t) = none := by
    rw [List.find?_eq_none]
    intro r hr heq
    have hpos := hlt r hr
    rw [beq_iff_eq] at heq
    omega
  rw [List.find?_append, hds, Option.none_or, List.find?_singleton]
  by_cases heq : t = last.position
  · simp [heq]
  · have hne : last.position ≠ t := fun h => heq h.symm
    simp [heq, hne]

/-- Between two records the rotation is that of the first of them, at its position only. -/
theorem rotationAt_between (hlt : (rs.take k).Pairwise fun r r' => r.position < r'.position)
    (ht : tickBefore rs k ≤ t) (hd : ∀ r ∈ rs.drop k, t < r.position) :
    rotationAt rs t = if t = tickBefore rs k then (controlBefore rs k).rotation else .none := by
  have htake : rotationAt rs t = rotationAt (rs.take k) t := by
    rw [← rotationAt_append_of_lt (rs.take k) hd, List.take_append_drop]
  rw [htake]
  unfold rotationAt tickBefore controlBefore recordBefore at *
  rcases List.eq_nil_or_concat (rs.take k) with hnil | ⟨ds, last, hsplit⟩
  · simp [hnil]
  · rw [List.concat_eq_append] at hsplit
    rw [hsplit, List.pairwise_append] at hlt
    rw [hsplit, List.getLast?_concat, Option.elim_some] at ht ⊢
    rw [find?_position_concat (fun r hr => hlt.2.2 r hr last (List.mem_singleton.mpr rfl)) ht]
    by_cases heq : t = last.position
    · simp [heq]
    · simp [heq]

/-- A held control, tick by tick from tick `p` on. -/
theorem Control.hold_eq_map_range' (c : Control) (p m : Nat) :
    c.hold m = (List.range' p m).map fun t => ⟨c.accel, if t = p then c.rotation else .none⟩ := by
  cases m with
  | zero => rfl
  | succ m =>
    rw [hold, List.range'_succ, List.map_cons, if_pos rfl]
    congr 1
    symm
    rw [List.eq_replicate_iff]
    refine ⟨by simp, ?_⟩
    intro d hd
    obtain ⟨t, ht, rfl⟩ := List.mem_map.mp hd
    have hne : t ≠ p := by
      have := (List.mem_range'_1.mp ht).1
      omega
    rw [if_neg hne]

/-- The timeline from the last of the first `k` records to the next record is a held control. -/
theorem map_controlAt_range' (hlt : (rs.take k).Pairwise fun r r' => r.position < r'.position)
    {m : Nat} (hd : ∀ r ∈ rs.drop k, tickBefore rs k + m ≤ r.position) :
    (List.range' (tickBefore rs k) m).map (fun t => Control.mk (accelAt rs t) (rotationAt rs t)) =
      (controlBefore rs k).hold m := by
  rw [Control.hold_eq_map_range' _ (tickBefore rs k) m]
  apply List.map_congr_left
  intro t ht
  obtain ⟨hle, hlt'⟩ := List.mem_range'_1.mp ht
  have hbeyond : ∀ r ∈ rs.drop k, t < r.position := by
    intro r hr
    have := hd r hr
    omega
  rw [accelAt_between hlt hle hbeyond, rotationAt_between hlt hle hbeyond]

/-! ## The timeline -/

namespace RideLog

variable {log : RideLog}

/-- The first ticks of the ride. -/
theorem timeline_take (h : n ≤ log.numFrames.toNat) :
    log.timeline.take n = (List.range n).map log.controlAt := by
  rw [timeline, ← List.map_take, List.take_range, Nat.min_eq_left h]

/-- There is a control for each of the first ticks. -/
theorem length_timeline_take (h : n ≤ log.numFrames.toNat) : (log.timeline.take n).length = n := by
  rw [timeline_take h, List.length_map, List.length_range]

end RideLog

/-! ## Faults -/

/-- A record has no fault if it lies within the ride, comes after the one before it and is not
redundant. -/
theorem Record.fault_eq_none {index : Nat} {before : Option Nat} {accel : Accel} :
    r.fault n index before accel = none ↔
      r.position < n ∧ (∀ p ∈ before, p < r.position) ∧ r.redundantAfter accel = false := by
  unfold fault
  split_ifs with hend horder hredundant
  · simp [Nat.not_lt.mpr hend]
  · obtain ⟨p, rfl, hp⟩ := (Option.any_eq_true _ _).mp horder
    have hle : r.position ≤ p := of_decide_eq_true hp
    simp [Nat.not_lt.mpr hle]
  · simp [hredundant]
  · refine ⟨fun _ => ⟨Nat.not_le.mp hend, ?_, Bool.eq_false_iff.mpr hredundant⟩, fun _ => rfl⟩
    rintro p rfl
    simpa using horder

/-- The record before number `k + 1` of a list with a first record. -/
theorem recordBefore_cons_succ (first : Record) (rest : List Record) (k : Nat) :
    recordBefore (first :: rest) (k + 1) = some ((recordBefore rest k).getD first) := by
  rw [recordBefore, List.take_succ_cons, List.getLast?_cons, recordBefore]

/-- The throttle position before a record, from the record before it. -/
theorem accel_controlBefore (rs : List Record) (k : Nat) :
    (controlBefore rs k).accel = (recordBefore rs k).elim .idle fun b => b.control.accel := by
  unfold controlBefore
  cases recordBefore rs k <;> rfl

/-- Records are effective if each of them is, after the record before it. -/
theorem effective_iff {before : Accel} :
    Effective before rs ↔ ∀ (k : Nat) (r : Record), rs[k]? = some r →
      r.redundantAfter ((recordBefore rs k).elim before fun b => b.control.accel) = false := by
  induction rs generalizing before with
  | nil => simp [Effective]
  | cons first rest ih =>
    rw [Effective, ih]
    constructor
    · rintro ⟨hfirst, hrest⟩ k r hr
      cases k with
      | zero =>
        obtain rfl : first = r := Option.some.inj hr
        rw [recordBefore_zero]
        exact hfirst
      | succ k =>
        have hk := hrest k r hr
        rw [recordBefore_cons_succ]
        cases hbefore : recordBefore rest k <;> rw [hbefore] at hk <;> exact hk
    · intro h
      refine ⟨?_, ?_⟩
      · have hzero := h 0 first rfl
        rw [recordBefore_zero] at hzero
        exact hzero
      · intro k r hr
        have hk := h (k + 1) r hr
        rw [recordBefore_cons_succ] at hk
        cases hbefore : recordBefore rest k <;> rw [hbefore] at hk <;> exact hk

namespace RideLog

variable {log : RideLog}

/-- The fault of record number `k` by itself, if there is that record and it has a fault. -/
def faultAt (log : RideLog) (k : Nat) : Option ReplayError :=
  log.records[k]?.bind fun r =>
    r.fault log.numFrames.toNat k ((recordBefore log.records k).map Record.position)
      (controlBefore log.records k).accel

/-- What it takes for record number `k` to have no fault. -/
theorem faultAt_eq_none (h : log.records[k]? = some r) :
    log.faultAt k = none ↔
      r.position < log.numFrames.toNat ∧
        (∀ b ∈ recordBefore log.records k, b.position < r.position) ∧
        r.redundantAfter (controlBefore log.records k).accel = false := by
  rw [faultAt, h, Option.bind_some, Record.fault_eq_none]
  simp

/-- Where there is no record there is no fault. -/
theorem faultAt_of_length_le (h : log.records.length ≤ k) : log.faultAt k = none := by
  rw [faultAt, List.getElem?_eq_none h, Option.bind_none]

/-- Where there is a fault there is a record. -/
theorem lt_length_of_faultAt {e : ReplayError} (h : log.faultAt k = some e) :
    k < log.records.length := by
  apply Nat.lt_of_not_le
  intro hge
  rw [faultAt_of_length_le hge] at h
  cases h

/-- Records before the first fault are in strict order. -/
theorem pairwise_take (h : ∀ j < k, log.faultAt j = none) :
    (log.records.take k).Pairwise fun r r' => r.position < r'.position := by
  induction k with
  | zero => simp
  | succ k ih =>
    have hlt := ih fun j hj => h j (Nat.lt_succ_of_lt hj)
    rcases hr : log.records[k]? with _ | r
    · rw [List.take_add_one, hr, Option.toList_none, List.append_nil]
      exact hlt
    · rw [List.take_add_one, hr, Option.toList_some, List.pairwise_append]
      refine ⟨hlt, List.pairwise_singleton _ _, ?_⟩
      intro a ha b hb
      rw [List.mem_singleton.mp hb]
      have hbefore := ((faultAt_eq_none hr).mp (h k (Nat.lt_succ_self k))).2.1
      obtain ⟨last, hlast⟩ : ∃ last, recordBefore log.records k = some last :=
        Option.ne_none_iff_exists'.mp (List.getLast?_eq_none_iff.not.mpr (List.ne_nil_of_mem ha))
      calc a.position ≤ tickBefore log.records k := position_le_tickBefore hlt a ha
        _ = last.position := by rw [tickBefore, hlast, Option.elim_some]
        _ < r.position := hbefore last hlast

/-- The ride gets to each record before the first fault. -/
theorem tickBefore_le (h : ∀ j < k, log.faultAt j = none) (hk : k ≤ log.records.length) :
    tickBefore log.records k ≤ log.numFrames.toNat := by
  cases k with
  | zero => simp [tickBefore]
  | succ k =>
    have hr : log.records[k]? = some log.records[k] := List.getElem?_eq_getElem hk
    rw [tickBefore_succ hr]
    exact Nat.le_of_lt ((faultAt_eq_none hr).mp (h k (Nat.lt_succ_self k))).1

/-- A log is well formed if none of its records has a fault. -/
theorem wellFormed_iff : log.WellFormed ↔ ∀ k, log.faultAt k = none := by
  constructor
  · intro hwf k
    rcases hr : log.records[k]? with _ | r
    · exact faultAt_of_length_le (List.getElem?_eq_none_iff.mp hr)
    · rw [faultAt_eq_none hr]
      refine ⟨hwf.below r (List.mem_of_getElem? hr), ?_, ?_⟩
      · intro b hb
        have htake := hwf.increasing.sublist (List.take_sublist (k + 1) log.records)
        rw [List.take_add_one, hr, Option.toList_some, List.pairwise_append] at htake
        exact htake.2.2 b (List.mem_of_getLast? hb) r (List.mem_singleton.mpr rfl)
      · rw [accel_controlBefore]
        exact effective_iff.mp hwf.effective k r hr
  · intro h
    refine ⟨?_, ?_, ?_⟩
    · intro r hr
      obtain ⟨k, hk⟩ := List.mem_iff_getElem?.mp hr
      exact ((faultAt_eq_none hk).mp (h k)).1
    · rw [← List.take_length (l := log.records)]
      exact pairwise_take fun j _ => h j
    · rw [effective_iff]
      intro k r hr
      rw [← accel_controlBefore]
      exact ((faultAt_eq_none hr).mp (h k)).2.2

/-- A log that is not well formed has a first fault. -/
theorem exists_first_fault (h : ¬ log.WellFormed) :
    ∃ k e, log.faultAt k = some e ∧ ∀ j < k, log.faultAt j = none := by
  rw [wellFormed_iff, not_forall] at h
  obtain ⟨k, hk⟩ := h
  induction k using Nat.strongRecOn with
  | ind k ih =>
    by_cases hearlier : ∀ j < k, log.faultAt j = none
    · obtain ⟨e, he⟩ := Option.ne_none_iff_exists'.mp hk
      exact ⟨k, e, he, hearlier⟩
    · rw [not_forall] at hearlier
      obtain ⟨j, hj⟩ := hearlier
      rw [Classical.not_imp] at hj
      exact ih j hj.1 hj.2

end RideLog

end RideProof
