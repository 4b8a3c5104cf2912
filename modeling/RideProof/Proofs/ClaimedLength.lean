import RideProof.Proofs.LiveFinish

/-!
# The claimed length of a ride

A log says how many ticks its ride took. Its records leave no choice in that: they say what the ride
does tick by tick, and it ends where it first reaches the finish. So among the logs that differ in
nothing but the number of ticks, a check accepts at most one, and from that one the verdict on all
others is known.

* `World.GoesOn.finish_unique` — a ride reaches the finish for the first time once.
* `RideLog.withFrames` — the log with another number of ticks; it stands for the same controls.
* `World.replay_longer`, `World.replay_shorter`, `World.replay_cut` — the replays that claim more
  ticks than the ride takes to the finish, or fewer.
* `Generator.check_length_unique` — the verdicts on all lengths.
-/

namespace RideProof

variable {w : World} {s t : RideState} {cs : Nat → Control} {log : RideLog}
  {k last last' : Nat} {m n : UInt16}

/-! ## Rides to the finish -/

/-- A ride reaches the finish for the first time on one tick only. -/
theorem World.GoesOn.finish_unique (h : w.GoesOn s cs last) (hlast : w.resultAt s cs last = .success)
    (h' : w.GoesOn s cs last') (hlast' : w.resultAt s cs last' = .success) : last = last' := by
  rcases Nat.lt_trichotomy last last' with hlt | heq | hgt
  · have hon := h' last hlt
    rw [hlast] at hon
    cases hon
  · exact heq
  · have hon := h last' hgt
    rw [hlast'] at hon
    cases hon

/-- A ride that goes on for some ticks goes on for fewer. -/
theorem World.GoesOn.mono (h : w.GoesOn s cs last) (hk : k ≤ last) : w.GoesOn s cs k :=
  fun f hf => h f (Nat.lt_of_lt_of_le hf hk)

/-- The count of a ride that has not failed, as a word. -/
theorem World.frame_eq_ofNat (hs : s.frame.toInt = 0) (h : w.Unfailing s cs k) :
    (w.stateAfter s cs k).frame = Int32.ofNat k := by
  obtain ⟨hframe, hlt⟩ := frame_stateAfter hs h
  rw [← Int32.toInt_inj, hframe, Int32.toInt_ofNat_of_lt (by omega)]

/-- Driving a ride that goes on. -/
theorem World.GoesOn.drive (hs : s.frame.toInt = 0) (h : w.GoesOn s cs k) :
    w.drive checkLimit ((List.range k).map cs) s = (w.stateAfter s cs k, none) :=
  (drive_range hs (by decide)).mpr ⟨h, rfl⟩

/-- Driving a ride up to the finish. -/
theorem World.GoesOn.drive_succ (hs : s.frame.toInt = 0) (h : w.GoesOn s cs last)
    (hlast : w.resultAt s cs last = .success) :
    w.drive checkLimit ((List.range (last + 1)).map cs) s =
      (w.stateAfter s cs (last + 1), some .success) := by
  rw [List.range_succ, List.map_append, List.map_singleton, drive_append, h.drive hs]
  simp only [drive_singleton, hlast]

/-! ## Other lengths -/

/-- The log with another number of ticks. -/
def RideLog.withFrames (log : RideLog) (m : UInt16) : RideLog := { log with numFrames := m }

/-- Another count of ticks leaves the records. -/
@[simp] theorem RideLog.records_withFrames (log : RideLog) (m : UInt16) :
    (log.withFrames m).records = log.records := rfl

/-- Another count of ticks leaves the controls. -/
@[simp] theorem RideLog.controlAt_withFrames (log : RideLog) (m : UInt16) :
    (log.withFrames m).controlAt = log.controlAt := rfl

/-- The count of ticks is the one that was set. -/
@[simp] theorem RideLog.numFrames_withFrames (log : RideLog) (m : UInt16) :
    (log.withFrames m).numFrames = m := rfl

/-- The records of a well-formed log make a well-formed log of every length behind them. -/
theorem RideLog.WellFormed.withFrames (h : log.WellFormed)
    (hm : ∀ r ∈ log.records, r.position < m.toNat) : (log.withFrames m).WellFormed :=
  ⟨hm, h.increasing, h.effective⟩

/-- Up to the first record that lies behind the end, the records of a well-formed log have no fault
of their own. -/
theorem RideLog.WellFormed.faultAt_withFrames (h : log.WellFormed)
    (hk : ∀ r ∈ log.records.take k, r.position < m.toNat) :
    ∀ j < k, (log.withFrames m).faultAt j = none := by
  intro j hj
  rcases hr : log.records[j]? with _ | r
  · exact faultAt_of_length_le (List.getElem?_eq_none_iff.mp hr)
  · have hfault := (faultAt_eq_none hr).mp (wellFormed_iff.mp h j)
    have hmem : r ∈ log.records.take k := by
      apply List.mem_of_getElem? (i := j)
      rw [List.getElem?_take_of_lt hj, hr]
    have hr' : (log.withFrames m).records[j]? = some r := hr
    exact (faultAt_eq_none hr').mpr ⟨hk r hmem, hfault.2⟩

/-- A replay that claims more ticks than the ride takes to the finish. -/
theorem World.replay_longer (hs : s.frame.toInt = 0) (hwf : log.WellFormed)
    (hn : log.numFrames.toNat = last + 1) (hm : log.numFrames.toNat < m.toNat)
    (h : w.GoesOn s log.controlAt last) (hlast : w.resultAt s log.controlAt last = .success) :
    w.replay s (log.withFrames m) checkLimit =
      (w.stateAfter s log.controlAt (last + 1),
        .error (.unexpectedSuccess (w.stateAfter s log.controlAt (last + 1)).frame)) := by
  have hlonger : (log.withFrames m).WellFormed :=
    hwf.withFrames fun r hr => Nat.lt_trans (hwf.below r hr) hm
  have hframe := (frame_stateAfter hs (h.unfailing_succ hlast)).1
  have htake : w.drive checkLimit ((log.withFrames m).timeline.take (last + 1)) s =
      (w.stateAfter s log.controlAt (last + 1), some .success) := by
    rw [RideLog.timeline_take (show last + 1 ≤ m.toNat by omega)]
    exact h.drive_succ hs hlast
  rw [replay_of_wellFormed hs hlonger]
  exact playThrough_of_halt htake (by rw [hframe, RideLog.numFrames_withFrames]; omega)

/-- A replay that claims fewer ticks than the ride takes to the finish, behind all records. -/
theorem World.replay_shorter (hs : s.frame.toInt = 0) (hwf : log.WellFormed)
    (hm : m.toNat ≤ last) (h : w.GoesOn s log.controlAt last)
    (hbelow : ∀ r ∈ log.records, r.position < m.toNat) :
    w.replay s (log.withFrames m) checkLimit =
      (w.stateAfter s log.controlAt m.toNat,
        .error (.noSuccess (w.stateAfter s log.controlAt m.toNat).frame)) := by
  have hdrive := (h.mono hm).drive hs
  rw [replay_of_wellFormed hs (hwf.withFrames hbelow), playThrough_eq_drive, RideLog.timeline]
  simp only [RideLog.numFrames_withFrames, RideLog.controlAt_withFrames, hdrive]

/-- A replay that claims fewer ticks than the ride takes to the finish, and not all records lie
before its end. -/
theorem World.replay_cut (hs : s.frame.toInt = 0) (hwf : log.WellFormed) (hm : m.toNat ≤ last)
    (h : w.GoesOn s log.controlAt last) {r : Record} (hr : log.records[k]? = some r)
    (hpast : m.toNat ≤ r.position) (hbefore : ∀ r' ∈ log.records.take k, r'.position < m.toNat) :
    (w.replay s (log.withFrames m) checkLimit).2 = .error (.recordPastEnd k r.position) := by
  have hearlier := hwf.faultAt_withFrames hbefore
  have hfault : (log.withFrames m).faultAt k = some (.recordPastEnd k r.position) := by
    rw [RideLog.faultAt, RideLog.records_withFrames, hr, Option.bind_some, Record.fault]
    exact if_pos hpast
  have hle := RideLog.tickBefore_le hearlier (Nat.le_of_lt (RideLog.lt_length_of_faultAt hfault))
  have hdrive := (h.mono (Nat.le_trans hle hm)).drive hs
  rw [replay_of_fault hs hfault hearlier, RideLog.timeline_take hle]
  simp only [RideLog.controlAt_withFrames, hdrive]

/-! ## Checks -/

/-- A check reports what the replay on the course reports. -/
theorem Generator.check_of_replay_error {g : Generator} {block : Block} {e : ReplayError}
    (hroom : log.updates.length ≤ maxRecords) (hg : g.generate block log.nonce = .ok (w, s))
    (h : (w.replay s log checkLimit).2 = .error e) : g.check block log = .error (.replay e) := by
  unfold check
  rw [if_neg (Nat.not_lt.mpr hroom), hg]
  dsimp only
  rcases hreplay : w.replay s log checkLimit with ⟨u, _ | _⟩
  · rw [hreplay] at h
    cases h
    rfl
  · rw [hreplay] at h
    cases h

/-- **The claimed length cannot be altered.** If a check accepts a log of `n` ticks, it accepts no
other length with the same nonce and records. A greater length is rejected because the finish is
reached on tick `n`. A smaller one is rejected because the finish is not reached by then if all
records lie before its end, and if not, because of the first record that does not. -/
theorem Generator.check_length_unique (g : Generator) (block : Block) (nonce : UInt32)
    (updates : List UInt16) (h : g.check block ⟨nonce, n, updates⟩ = .ok t) (m : UInt16) :
    (∀ u, g.check block ⟨nonce, m, updates⟩ = .ok u → m = n) ∧
    (n < m → g.check block ⟨nonce, m, updates⟩ =
      .error (.replay (.unexpectedSuccess (Int32.ofNat n.toNat)))) ∧
    (m < n → (∀ r ∈ recordsFrom 0 updates, r.position < m.toNat) →
      g.check block ⟨nonce, m, updates⟩ = .error (.replay (.noSuccess (Int32.ofNat m.toNat)))) ∧
    (m < n → ∀ k r, (recordsFrom 0 updates)[k]? = some r → m.toNat ≤ r.position →
      (∀ r' ∈ (recordsFrom 0 updates).take k, r'.position < m.toNat) →
      g.check block ⟨nonce, m, updates⟩ = .error (.replay (.recordPastEnd k r.position))) := by
  obtain ⟨hroom, hwf, w, s, hg, last, hn, hon, hlast, -⟩ := check_ok_iff.mp h
  obtain rfl := eq_startState_of_generate hg
  have hs : startState.frame.toInt = 0 := rfl
  change n.toNat = last + 1 at hn
  have hle (hlt : m < n) : m.toNat ≤ last := by
    rw [UInt16.lt_iff_toNat_lt] at hlt
    omega
  refine ⟨?_, ?_, ?_, ?_⟩
  · intro u hu
    obtain ⟨-, -, w', s', hg', last', hm, hon', hlast', -⟩ := check_ok_iff.mp hu
    -- both rides are on the same course, under the same controls
    obtain ⟨rfl, rfl⟩ : w = w' ∧ startState = s' := by
      have hcourse := hg.symm.trans hg'
      cases hcourse
      exact ⟨rfl, rfl⟩
    have heq := hon'.finish_unique hlast' hon hlast
    rw [← UInt16.toNat_inj, hn, ← heq]
    exact hm
  · intro hlt
    rw [UInt16.lt_iff_toNat_lt] at hlt
    have hreplay := World.replay_longer hs hwf hn hlt hon hlast
    rw [World.frame_eq_ofNat hs (hon.unfailing_succ hlast), ← hn] at hreplay
    exact check_of_replay_error hroom hg (congrArg Prod.snd hreplay)
  · intro hlt hbelow
    have hreplay := World.replay_shorter hs hwf (hle hlt) hon hbelow
    rw [World.frame_eq_ofNat hs (hon.mono (hle hlt)).unfailing] at hreplay
    exact check_of_replay_error hroom hg (congrArg Prod.snd hreplay)
  · intro hlt k r hr hpast hbefore
    have hreplay := World.replay_cut hs hwf (hle hlt) hon hr hpast hbefore
    exact check_of_replay_error hroom hg hreplay

/-- The ride of the short drop, with one record on its second tick, is accepted with two ticks. With
three it is at the finish early, and with one its record lies behind the end. -/
theorem Generator.check_length_unique_shortDrop :
    ∃ t, (standard .shortDrop).check WorkUnit.zero.block ⟨0, 2, [19]⟩ = .ok t ∧
      (∀ u, (standard .shortDrop).check WorkUnit.zero.block ⟨0, 3, [19]⟩ ≠ .ok u) ∧
      (standard .shortDrop).check WorkUnit.zero.block ⟨0, 3, [19]⟩ =
        .error (.replay (.unexpectedSuccess 2)) ∧
      (standard .shortDrop).check WorkUnit.zero.block ⟨0, 1, [19]⟩ =
        .error (.replay (.recordPastEnd 0 1)) := by
  have hok : (World.shortDrop.replay startState ⟨0, 2, [19]⟩ checkLimit).2 = .ok () := by
    decide +kernel
  rcases hreplay : World.shortDrop.replay startState ⟨0, 2, [19]⟩ checkLimit with ⟨t, verdict⟩
  rw [hreplay] at hok
  obtain rfl : verdict = .ok () := hok
  have hcheck : (standard .shortDrop).check WorkUnit.zero.block ⟨0, 2, [19]⟩ = .ok t :=
    check_eq_ok.mpr ⟨by decide, _, _, generate_shortDrop _ _, hreplay⟩
  have hlonger := check_length_unique _ _ _ _ hcheck 3
  have hshorter := check_length_unique _ _ _ _ hcheck 1
  refine ⟨t, hcheck, ?_, hlonger.2.1 (by decide), ?_⟩
  · intro u hu
    exact absurd (hlonger.1 u hu) (by decide)
  · apply hshorter.2.2.2 (by decide) 0 ⟨1, 1, ⟨.brake, .cw⟩⟩ (by decide) (by decide)
    intro r hr
    exact absurd hr List.not_mem_nil

end RideProof
