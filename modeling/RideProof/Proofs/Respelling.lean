import RideProof.Proofs.Writing

/-!
# Other spellings of a ride

Two well-formed logs of the same length may stand for the same controls and yet differ, in two ways
and no other. Fillers may stand behind the last change, where nothing needs them; and of a change
that comes `fillerDelta + 1` ticks after the record before it, the record may say so itself, or a
filler and a record of one tick may. `normalForm` drops the first and chooses the second.

* `heldControl` — the control of a tick, read off the records one by one
  (`RideLog.WellFormed.controlAt_eq`).
* `heldControl_normalForm`, `spelling_normalForm` — the normal form stands for the same controls, and
  is normal: no delta is above that of a filler, and the last record changes something.
* `Spelling` — a normal list of records that is well formed from a tick on; `Spelling.eq` says that
  the controls leave no choice in it.
* `RideLog.normalForm_eq_iff` — two well-formed logs of the same length stand for the same controls
  if and only if they have the same normal form.
-/

namespace RideProof

variable {before : Accel} {rs : List Record} {r : Record} {p n t : Nat} {word v : UInt16}
  {words us vs : List UInt16}

/-! ## Words -/

/-- A word is packed from what it carries. -/
theorem packRecord_deltaOf_controlOf (word : UInt16) :
    packRecord (deltaOf word) (controlOf word) = word := by
  have hlt := word.toNat_lt
  rw [← UInt16.toNat_inj, packRecord, UInt16.toNat_ofNat']
  simp only [deltaOf, controlOf, recordUnit, Accel.code_ofCode, Rotation.code_ofCode]
  omega

/-- A word is determined by the ticks and the control that it carries. -/
theorem word_ext (hdelta : deltaOf word = deltaOf v) (hcontrol : controlOf word = controlOf v) :
    word = v := by
  rw [← packRecord_deltaOf_controlOf word, hdelta, hcontrol, packRecord_deltaOf_controlOf]

/-- A word carries at most one tick more than a filler. -/
theorem deltaOf_le (word : UInt16) : deltaOf word ≤ fillerDelta + 1 := by
  have hlt := word.toNat_lt
  unfold deltaOf recordUnit fillerDelta
  omega

/-- A record that is not redundant changes something or is a filler. -/
theorem Record.redundantAfter_eq_false_iff :
    r.redundantAfter before = false ↔ (r.control = ⟨before, .none⟩ → r.delta = fillerDelta) := by
  have hcontrol : r.control = ⟨before, .none⟩ ↔
      r.control.accel = before ∧ r.control.rotation = .none := by
    rcases r.control with ⟨accel, rotation⟩
    rw [Control.mk.injEq]
  unfold redundantAfter isFiller
  rw [hcontrol]
  by_cases hfiller : r.delta = fillerDelta
  · simp [hfiller]
  · simp [hfiller]

/-! ## The control of a tick, record by record -/

/-- The control of a tick: before the first record the throttle stays as it was before, at a record
its control applies, and behind it the rest of the records say so. -/
def heldControl (before : Accel) : List Record → Nat → Control
  | [], _ => ⟨before, .none⟩
  | r :: rs, t =>
    if t < r.position then ⟨before, .none⟩
    else if t = r.position then r.control
    else heldControl r.control.accel rs t

/-- Before all records the throttle stays as it was. -/
theorem heldControl_of_lt (h : ∀ r ∈ rs, t < r.position) :
    heldControl before rs t = ⟨before, .none⟩ := by
  cases rs with
  | nil => rfl
  | cons r rs => exact if_pos (h r List.mem_cons_self)

/-- The control of a tick is that of the last record up to it, with the rotation of a record at it. -/
theorem heldControl_eq (hlt : rs.Pairwise fun r r' => r.position < r'.position) (before : Accel)
    (t : Nat) :
    heldControl before rs t =
      ⟨(rs.filter fun r => decide (r.position ≤ t)).getLast?.elim before fun r => r.control.accel,
        rotationAt rs t⟩ := by
  induction rs generalizing before with
  | nil => rfl
  | cons r rs ih =>
    rw [List.pairwise_cons] at hlt
    have hnone (h : t ≤ r.position) : (rs.filter fun r => decide (r.position ≤ t)) = [] ∧
        (rs.find? fun r => r.position == t) = none := by
      have hbeyond (r' : Record) (hr' : r' ∈ rs) : t < r'.position :=
        Nat.lt_of_le_of_lt h (hlt.1 r' hr')
      rw [List.filter_eq_nil_iff, List.find?_eq_none]
      refine ⟨?_, ?_⟩
      · intro r' hr'
        simpa using hbeyond r' hr'
      · intro r' hr'
        simpa using Nat.ne_of_gt (hbeyond r' hr')
    unfold heldControl
    rcases Nat.lt_trichotomy t r.position with hbefore | rfl | hbehind
    · obtain ⟨hfilter, hfind⟩ := hnone (Nat.le_of_lt hbefore)
      simp [rotationAt, hbefore, Nat.ne_of_gt hbefore, Nat.not_le.mpr hbefore, hfilter, hfind]
    · obtain ⟨hfilter, -⟩ := hnone (Nat.le_refl _)
      simp [rotationAt, hfilter]
    · rw [if_neg (Nat.not_lt.mpr (Nat.le_of_lt hbehind)), if_neg (Nat.ne_of_gt hbehind), ih hlt.2]
      have hle := Nat.le_of_lt hbehind
      have hne := Nat.ne_of_lt hbehind
      have hlast : ((r :: rs).filter fun r => decide (r.position ≤ t)).getLast? =
          some ((rs.filter fun r => decide (r.position ≤ t)).getLast?.getD r) := by
        rw [List.filter_cons_of_pos (by simpa using hle), List.getLast?_cons]
      have hfind : rotationAt (r :: rs) t = rotationAt rs t := by
        simp [rotationAt, hne]
      rw [hlast, hfind]
      cases (rs.filter fun r => decide (r.position ≤ t)).getLast? <;> rfl

/-- A log whose records come one after the other stands for the controls that they hold. -/
theorem RideLog.controlAt_eq {log : RideLog}
    (h : log.records.Pairwise fun r r' => r.position < r'.position) (t : Nat) :
    log.controlAt t = heldControl .idle log.records t := by
  rw [heldControl_eq h, controlAt, accelAt]
  cases (log.records.filter fun r => decide (r.position ≤ t)).getLast? <;> rfl

/-! ## The normal form -/

/-- The packed records without what does not show in the controls: fillers behind the last change
are dropped, and a record of `fillerDelta + 1` ticks is split into a filler and a record of one. -/
def normalForm (before : Accel) : List UInt16 → List UInt16
  | [] => []
  | word :: words =>
    let rest := normalForm (controlOf word).accel words
    if rest = [] ∧ controlOf word = ⟨before, .none⟩ then []
    else if deltaOf word = fillerDelta + 1 then
      packRecord fillerDelta ⟨before, .none⟩ :: packRecord 1 (controlOf word) :: rest
    else word :: rest

/-- No packed record carries more ticks than a filler, and the last of them changes something. -/
def Normal (before : Accel) : List UInt16 → Prop
  | [] => True
  | word :: words =>
    (words = [] → controlOf word ≠ ⟨before, .none⟩) ∧ deltaOf word ≤ fillerDelta ∧
      Normal (controlOf word).accel words

/-- The three ways in which the normal form goes on with a word. -/
theorem normalForm_cons_cases (before : Accel) (word : UInt16) (words : List UInt16) :
    (normalForm (controlOf word).accel words = [] ∧ controlOf word = ⟨before, .none⟩ ∧
        normalForm before (word :: words) = []) ∨
      (¬ (normalForm (controlOf word).accel words = [] ∧ controlOf word = ⟨before, .none⟩) ∧
        deltaOf word = fillerDelta + 1 ∧
        normalForm before (word :: words) =
          packRecord fillerDelta ⟨before, .none⟩ :: packRecord 1 (controlOf word) ::
            normalForm (controlOf word).accel words) ∨
      (¬ (normalForm (controlOf word).accel words = [] ∧ controlOf word = ⟨before, .none⟩) ∧
        deltaOf word ≤ fillerDelta ∧
        normalForm before (word :: words) = word :: normalForm (controlOf word).accel words) := by
  by_cases hidle : normalForm (controlOf word).accel words = [] ∧ controlOf word = ⟨before, .none⟩
  · exact .inl ⟨hidle.1, hidle.2, if_pos hidle⟩
  · have hword : normalForm before (word :: words) = _ := if_neg hidle
    right
    by_cases hlong : deltaOf word = fillerDelta + 1
    · exact .inl ⟨hidle, hlong, hword.trans (if_pos hlong)⟩
    · have hle := deltaOf_le word
      exact .inr ⟨hidle, by omega, hword.trans (if_neg hlong)⟩

/-- What is normal is its own normal form. -/
theorem normalForm_of_normal (h : Normal before words) : normalForm before words = words := by
  induction words generalizing before with
  | nil => rfl
  | cons word words ih =>
    obtain ⟨hlast, hle, hrest⟩ := h
    rcases normalForm_cons_cases before word words with ⟨hnil, hc, -⟩ | ⟨-, hlong, -⟩ | ⟨-, -, heq⟩
    · rw [ih hrest] at hnil
      exact absurd hc (hlast hnil)
    · rw [hlong] at hle
      exact absurd hle (Nat.not_succ_le_self _)
    · rw [heq, ih hrest]

/-- A word that changes nothing does not show in the controls. -/
theorem heldControl_cons_of_idle (hr : r.control = ⟨before, .none⟩)
    (h : ∀ t, heldControl before rs t = ⟨before, .none⟩) (t : Nat) :
    heldControl before (r :: rs) t = ⟨before, .none⟩ := by
  unfold heldControl
  rw [hr]
  split_ifs
  · rfl
  · rfl
  · exact h t

/-- The normal form stands for the same controls. -/
theorem heldControl_normalForm (before : Accel) (p : Nat) (words : List UInt16) (t : Nat) :
    heldControl before (recordsFrom p (normalForm before words)) t =
      heldControl before (recordsFrom p words) t := by
  induction words generalizing before p t with
  | nil => rfl
  | cons word words ih =>
    have hone : (1 : Nat) ≤ fillerDelta := by decide
    rcases normalForm_cons_cases before word words with ⟨hnil, hc, heq⟩ | ⟨-, hlong, heq⟩ |
      ⟨-, -, heq⟩
    · rw [heq, recordsFrom, recordsFrom]
      symm
      apply heldControl_cons_of_idle hc
      intro t
      have hrest := ih (controlOf word).accel (p + deltaOf word) t
      rw [hnil, hc] at hrest
      exact hrest.symm
    · rw [heq, recordsFrom, recordsFrom, packRecord_delta (Nat.le_refl _),
        packRecord_control (Nat.le_refl _), packRecord_delta hone, packRecord_control hone,
        recordsFrom, hlong, ← Nat.add_assoc]
      simp only [heldControl, ih]
      -- the filler ends one tick before the word, and changes nothing there
      rcases Nat.lt_trichotomy t (p + fillerDelta) with hlt | rfl | hgt
      · simp [hlt, Nat.lt_succ_of_lt hlt]
      · simp
      · simp [Nat.lt_asymm hgt, Nat.ne_of_gt hgt]
    · rw [heq, recordsFrom, recordsFrom]
      simp only [heldControl, ih]

/-- Records lie behind the tick that they are read from if the first of them has ticks. -/
theorem lt_position_iff :
    (∀ r ∈ recordsFrom p (word :: words), p < r.position) ↔ 0 < deltaOf word := by
  constructor
  · intro h
    have hfirst : p < p + deltaOf word := h _ List.mem_cons_self
    omega
  · intro hpos r hr
    rcases List.mem_cons.mp hr with rfl | hr
    · exact Nat.lt_add_of_pos_right hpos
    · exact Nat.lt_of_lt_of_le (Nat.lt_add_of_pos_right hpos) (le_position_of_mem hr)

/-- The normal form lies behind the tick that it is read from if the records do. -/
theorem lt_position_normalForm (before : Accel) (h : ∀ r ∈ recordsFrom p words, p < r.position) :
    ∀ r ∈ recordsFrom p (normalForm before words), p < r.position := by
  cases words with
  | nil => exact h
  | cons word words =>
    rcases normalForm_cons_cases before word words with ⟨-, -, heq⟩ | ⟨-, -, heq⟩ | ⟨-, -, heq⟩
    · rw [heq]
      intro _ hr
      exact absurd hr List.not_mem_nil
    · rw [heq, lt_position_iff, packRecord_delta (Nat.le_refl _)]
      decide
    · rw [heq]
      exact lt_position_iff.mpr (lt_position_iff.mp h)

/-! ## Normal spellings -/

/-- A normal list of packed records that is well formed from tick `p` on, in a ride of `n` ticks. -/
structure Spelling (before : Accel) (p n : Nat) (words : List UInt16) : Prop where
  /-- No record carries more ticks than a filler, and the last one changes something. -/
  normal : Normal before words
  /-- All records lie in the ride. -/
  below : ∀ r ∈ recordsFrom p words, r.position < n
  /-- They lie behind one another. -/
  increasing : (recordsFrom p words).Pairwise fun r r' => r.position < r'.position
  /-- Each of them changes something, unless it is a filler. -/
  effective : Effective before (recordsFrom p words)

namespace Spelling

/-- No record spells that nothing changes. -/
theorem nil (before : Accel) (p n : Nat) : Spelling before p n [] where
  normal := trivial
  below _ hr := absurd hr List.not_mem_nil
  increasing := List.Pairwise.nil
  effective := trivial

/-- One more record in front, from which the others count. -/
theorem cons (h : Spelling (controlOf word).accel (p + deltaOf word) n words)
    (hpos : ∀ r ∈ recordsFrom (p + deltaOf word) words, p + deltaOf word < r.position)
    (hn : p + deltaOf word < n) (hle : deltaOf word ≤ fillerDelta)
    (hlast : words = [] → controlOf word ≠ ⟨before, .none⟩)
    (heff : Record.redundantAfter ⟨p + deltaOf word, deltaOf word, controlOf word⟩ before = false) :
    Spelling before p n (word :: words) where
  normal := ⟨hlast, hle, h.normal⟩
  below r hr := by
    rcases List.mem_cons.mp hr with rfl | hr
    · exact hn
    · exact h.below r hr
  increasing := List.pairwise_cons.mpr ⟨hpos, h.increasing⟩
  effective := ⟨heff, h.effective⟩

/-- A change in front, a tick behind a filler. -/
theorem cons_split {c : Control} (h : Spelling c.accel (p + fillerDelta + 1) n words)
    (hpos : ∀ r ∈ recordsFrom (p + fillerDelta + 1) words, p + fillerDelta + 1 < r.position)
    (hn : p + fillerDelta + 1 < n) (hc : c ≠ ⟨before, .none⟩) :
    Spelling before p n (packRecord fillerDelta ⟨before, .none⟩ :: packRecord 1 c :: words) := by
  have hdelta : deltaOf (packRecord fillerDelta ⟨before, .none⟩) = fillerDelta :=
    packRecord_delta (Nat.le_refl _)
  have hcontrol : controlOf (packRecord fillerDelta ⟨before, .none⟩) = ⟨before, .none⟩ :=
    packRecord_control (Nat.le_refl _)
  have hdelta' : deltaOf (packRecord 1 c) = 1 := packRecord_delta (by decide)
  have hcontrol' : controlOf (packRecord 1 c) = c := packRecord_control (by decide)
  have hchange : Spelling before (p + fillerDelta) n (packRecord 1 c :: words) := by
    apply cons
    · rw [hdelta', hcontrol']
      exact h
    · rw [hdelta']
      exact hpos
    · rw [hdelta']
      exact hn
    · rw [hdelta']
      decide
    · rw [hcontrol']
      exact fun _ => hc
    · rw [hcontrol', Record.redundantAfter_eq_false_iff]
      exact fun hsame => absurd hsame hc
  apply cons
  · rw [hdelta, hcontrol]
    exact hchange
  · rw [hdelta, lt_position_iff, hdelta']
    exact Nat.one_pos
  · rw [hdelta]
    exact Nat.lt_of_succ_lt hn
  · rw [hdelta]
  · exact nofun
  · rw [Record.redundantAfter_eq_false_iff]
    exact fun _ => hdelta

/-- What comes after the first record. -/
theorem tail (h : Spelling before p n (word :: words)) :
    Spelling (controlOf word).accel (p + deltaOf word) n words where
  normal := h.normal.2.2
  below r hr := h.below r (List.mem_cons_of_mem _ hr)
  increasing := (List.pairwise_cons.mp h.increasing).2
  effective := h.effective.2

/-- Up to the first record, the others do not show. -/
theorem tail_idle (h : Spelling before p n (word :: words)) (ht : t ≤ p + deltaOf word) :
    heldControl (controlOf word).accel (recordsFrom (p + deltaOf word) words) t =
      ⟨(controlOf word).accel, .none⟩ := by
  apply heldControl_of_lt
  intro r hr
  exact Nat.lt_of_le_of_lt ht ((List.pairwise_cons.mp h.increasing).1 r hr)

/-- The first record of a spelling lies in the ride. -/
theorem head_lt (h : Spelling before p n (word :: words)) : p + deltaOf word < n :=
  h.below _ List.mem_cons_self

end Spelling

/-- The control at the first record is its own. -/
theorem heldControl_head (before : Accel) (p : Nat) (word : UInt16) (words : List UInt16) :
    heldControl before (recordsFrom p (word :: words)) (p + deltaOf word) = controlOf word := by
  simp [recordsFrom, heldControl]

/-- Before the first record the throttle stays as it was. -/
theorem heldControl_before_head (before : Accel) (word : UInt16) (words : List UInt16)
    (ht : t < p + deltaOf word) :
    heldControl before (recordsFrom p (word :: words)) t = ⟨before, .none⟩ := if_pos ht

/-- Behind the first record, the rest of the records say the control. -/
theorem heldControl_behind_head (before : Accel) (word : UInt16) (words : List UInt16)
    (ht : p + deltaOf word < t) :
    heldControl before (recordsFrom p (word :: words)) t =
      heldControl (controlOf word).accel (recordsFrom (p + deltaOf word) words) t := by
  rw [recordsFrom, heldControl, if_neg (Nat.not_lt.mpr (Nat.le_of_lt ht)),
    if_neg (Nat.ne_of_gt ht)]

namespace Spelling

/-- Where nothing changes, nothing is written. -/
theorem eq_nil (h : Spelling before p n words)
    (hidle : ∀ t < n, heldControl before (recordsFrom p words) t = ⟨before, .none⟩) :
    words = [] := by
  induction words generalizing before p with
  | nil => rfl
  | cons word words ih =>
    have hc : controlOf word = ⟨before, .none⟩ := by
      rw [← hidle _ h.head_lt, heldControl_head]
    have haccel : (controlOf word).accel = before := congrArg Control.accel hc
    have hrest : words = [] := by
      apply ih h.tail
      intro t ht
      rcases Nat.lt_or_ge (p + deltaOf word) t with hlt | hge
      · rw [← heldControl_behind_head before word words hlt, haccel]
        exact hidle t ht
      · exact h.tail_idle hge
    exact absurd hc (h.normal.1 hrest)

/-- Of two spellings of the same controls, neither begins with fewer ticks than the other. -/
theorem deltaOf_le_of_agree (h : Spelling before p n (word :: us)) (h' : Spelling before p n (v :: vs))
    (heq : ∀ t < n, heldControl before (recordsFrom p (word :: us)) t =
      heldControl before (recordsFrom p (v :: vs)) t) : deltaOf v ≤ deltaOf word := by
  apply Nat.le_of_not_lt
  intro hlt
  -- at the earlier record nothing changes, so it is a filler, and the other one carries more
  have hc : controlOf word = ⟨before, .none⟩ := by
    rw [← heldControl_head before p word us, heq _ h.head_lt,
      heldControl_before_head before v vs (by omega)]
  have hfiller : deltaOf word = fillerDelta := Record.redundantAfter_eq_false_iff.mp h.effective.1 hc
  have hle := h'.normal.2.1
  omega

/-- The controls leave no choice in their normal spelling. -/
theorem eq (hu : Spelling before p n us) (hv : Spelling before p n vs)
    (heq : ∀ t < n, heldControl before (recordsFrom p us) t =
      heldControl before (recordsFrom p vs) t) : us = vs := by
  induction us generalizing before p vs with
  | nil => exact (hv.eq_nil fun t ht => (heq t ht).symm).symm
  | cons word us ih =>
    cases vs with
    | nil => exact hu.eq_nil heq
    | cons v vs =>
      have hdelta : deltaOf word = deltaOf v :=
        Nat.le_antisymm (hv.deltaOf_le_of_agree hu fun t ht => (heq t ht).symm)
          (hu.deltaOf_le_of_agree hv heq)
      have hcontrol : controlOf word = controlOf v := by
        rw [← heldControl_head before p word us, heq _ hu.head_lt, hdelta, heldControl_head]
      obtain rfl := word_ext hdelta hcontrol
      congr 1
      apply ih hu.tail hv.tail
      intro t ht
      rcases Nat.lt_or_ge (p + deltaOf word) t with hlt | hge
      · rw [← heldControl_behind_head before word us hlt, heq t ht,
          heldControl_behind_head before word vs hlt]
      · rw [hu.tail_idle hge, hv.tail_idle hge]

end Spelling

/-- The normal form of records that are well formed is well formed. -/
theorem spelling_normalForm (hbelow : ∀ r ∈ recordsFrom p words, r.position < n)
    (hlt : (recordsFrom p words).Pairwise fun r r' => r.position < r'.position)
    (heff : Effective before (recordsFrom p words)) :
    Spelling before p n (normalForm before words) := by
  induction words generalizing before p with
  | nil => exact .nil before p n
  | cons word words ih =>
    obtain ⟨hword, heff⟩ := heff
    obtain ⟨hpos, hlt⟩ := List.pairwise_cons.mp hlt
    have hn : p + deltaOf word < n := hbelow _ List.mem_cons_self
    have hrest := ih (fun r hr => hbelow r (List.mem_cons_of_mem _ hr)) hlt heff
    have hpos' := lt_position_normalForm (controlOf word).accel hpos
    rcases normalForm_cons_cases before word words with ⟨-, -, heq⟩ | ⟨hidle, hlong, heq⟩ |
      ⟨hidle, hle, heq⟩
    · rw [heq]
      exact .nil before p n
    · have hsum : p + deltaOf word = p + fillerDelta + 1 := by rw [hlong, Nat.add_assoc]
      have hchange : controlOf word ≠ ⟨before, .none⟩ := by
        intro hc
        have hfiller := Record.redundantAfter_eq_false_iff.mp hword hc
        exact absurd (hlong.symm.trans hfiller) (by decide)
      rw [hsum] at hrest hpos' hn
      rw [heq]
      exact hrest.cons_split hpos' hn hchange
    · rw [heq]
      exact hrest.cons hpos' hn hle (fun hnil hc => hidle ⟨hnil, hc⟩) hword

/-! ## Logs -/

namespace RideLog

variable {a b : RideLog} {nonce : UInt32} {frames : UInt16}

/-- Logs with the same normal form stand for the same controls. -/
theorem controlAt_eq_of_normalForm_eq (ha : a.WellFormed) (hb : b.WellFormed)
    (h : normalForm .idle a.updates = normalForm .idle b.updates) (t : Nat) :
    a.controlAt t = b.controlAt t := by
  rw [controlAt_eq ha.increasing, controlAt_eq hb.increasing, records, records,
    ← heldControl_normalForm, h, heldControl_normalForm]

/-- **A ride has one spelling, but for idle fillers.** Two lists of records that are well formed for
the same number of ticks stand for the same controls if and only if they have the same normal form.
So they are equal if both are normal. -/
theorem normalForm_eq_iff (hu : WellFormed ⟨nonce, frames, us⟩)
    (hv : WellFormed ⟨nonce, frames, vs⟩) :
    ((∀ t < frames.toNat, controlAt ⟨nonce, frames, us⟩ t = controlAt ⟨nonce, frames, vs⟩ t) ↔
      normalForm .idle us = normalForm .idle vs) ∧
    (Normal .idle us → Normal .idle vs →
      (∀ t < frames.toNat, controlAt ⟨nonce, frames, us⟩ t = controlAt ⟨nonce, frames, vs⟩ t) →
      us = vs) := by
  have hiff : (∀ t < frames.toNat,
      controlAt ⟨nonce, frames, us⟩ t = controlAt ⟨nonce, frames, vs⟩ t) ↔
      normalForm .idle us = normalForm .idle vs := by
    constructor
    · intro h
      have hspell := spelling_normalForm hu.below hu.increasing hu.effective
      have hspell' := spelling_normalForm hv.below hv.increasing hv.effective
      apply hspell.eq hspell'
      intro t ht
      have hcontrol := h t ht
      rw [controlAt_eq hu.increasing, controlAt_eq hv.increasing] at hcontrol
      rw [heldControl_normalForm, heldControl_normalForm]
      exact hcontrol
    · intro h t _
      exact controlAt_eq_of_normalForm_eq hu hv h t
  refine ⟨hiff, ?_⟩
  intro hnormal hnormal' h
  rw [← normalForm_of_normal hnormal, hiff.mp h, normalForm_of_normal hnormal']

/-- Gas behind a gap of a filler and a tick, in one word; and the same in two words, with another
filler behind them. -/
theorem normalForm_eq_iff_long_gap :
    WellFormed ⟨0, 10922, [65534]⟩ ∧ WellFormed ⟨0, 10922, [65520, 14, 65522]⟩ ∧
      normalForm .idle [65534] = normalForm .idle [65520, 14, 65522] ∧
      ∀ t < 10922, controlAt ⟨0, 10922, [65534]⟩ t = controlAt ⟨0, 10922, [65520, 14, 65522]⟩ t := by
  have hu : WellFormed ⟨0, 10922, [65534]⟩ := by decide
  have hv : WellFormed ⟨0, 10922, [65520, 14, 65522]⟩ := by decide
  have hnormal : normalForm .idle [65534] = normalForm .idle [65520, 14, 65522] := by decide
  exact ⟨hu, hv, hnormal, (normalForm_eq_iff hu hv).1.mpr hnormal⟩

/-- A filler at the end of a ride does not show, and neither does the splitting of a word: each time
two logs of the same length are well formed, stand for the same controls, and differ. -/
theorem two_spellings :
    (WellFormed ⟨0, 5461, []⟩ ∧ WellFormed ⟨0, 5461, [65520]⟩ ∧
      (∀ t < 5461, controlAt ⟨0, 5461, []⟩ t = controlAt ⟨0, 5461, [65520]⟩ t) ∧
      ([] : List UInt16) ≠ [65520]) ∧
    WellFormed ⟨0, 5462, [65534]⟩ ∧ WellFormed ⟨0, 5462, [65520, 14]⟩ ∧
      (∀ t < 5462, controlAt ⟨0, 5462, [65534]⟩ t = controlAt ⟨0, 5462, [65520, 14]⟩ t) ∧
      ([65534] : List UInt16) ≠ [65520, 14] := by
  have hnone : WellFormed ⟨0, 5461, []⟩ := by decide
  have hfiller : WellFormed ⟨0, 5461, [65520]⟩ := by decide
  have hlong : WellFormed ⟨0, 5462, [65534]⟩ := by decide
  have hsplit : WellFormed ⟨0, 5462, [65520, 14]⟩ := by decide
  refine ⟨⟨hnone, hfiller, ?_, by decide⟩, hlong, hsplit, ?_, by decide⟩
  · intro t _
    exact controlAt_eq_of_normalForm_eq hnone hfiller (by decide) t
  · intro t _
    exact controlAt_eq_of_normalForm_eq hlong hsplit (by decide) t

end RideLog

end RideProof
