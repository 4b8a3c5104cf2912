import RideProof.NonceSearch
import RideProof.Proofs.LiveFinish
import Mathlib.Order.Bounds.Defs
import Mathlib.Data.List.Nodup

/-!
# A search ends at the first nonce that it can

Nonces are tried in order, and a search ends at the first attempt before which it is called off or
on which there is a course. The attempts before that one change nothing but the count of them.

* `SearchOptions.nonce` — the nonce of an attempt.
* `Generator.Ends` — the attempts on which a search ends.
* `Generator.recorded` — the search with a record of the nonces that it tries.
* `Generator.recordedFrom_of_quiet` — what a search does before it ends.
* `Generator.search_first` — where it ends, with what, and that no nonce is tried twice.
-/

namespace RideProof

/-! ## Nonces of attempts -/

/-- The nonce of the attempt `i`, counted around the end of the 32-bit range. -/
def SearchOptions.nonce (options : SearchOptions) (i : Nat) : UInt32 :=
  UInt32.ofNat (options.startNonce.toNat + i)

variable {options : SearchOptions}

/-- The nonces of a search follow one another, around the end of the range. -/
theorem SearchOptions.add_eq_nonce (options : SearchOptions) (i : Nat) :
    options.startNonce + UInt32.ofNat i = options.nonce i := by
  rw [nonce, UInt32.ofNat_add, UInt32.ofNat_toNat]

/-- The attempts of a search are too few to come around to a nonce again. -/
theorem SearchOptions.nodup_nonces {k : Nat} (h : k ≤ options.maxAttempts.toNat) :
    ((List.range k).map options.nonce).Nodup := by
  have hmax := options.maxAttempts.toNat_lt
  apply List.Nodup.map_on _ List.nodup_range
  intro i hi j hj hsame
  rw [List.mem_range] at hi hj
  have hvalue := congrArg UInt32.toNat hsame
  rw [nonce, nonce, UInt32.toNat_ofNat', UInt32.toNat_ofNat'] at hvalue
  omega

/-! ## The attempts of a search -/

namespace Generator

variable {g : Generator} {block : Block} {cancel : Nat → Bool} {i k n tried : Nat}

/-- A search ends on the attempt `i`: it is called off before it, or there is a course. -/
def Ends (g : Generator) (block : Block) (options : SearchOptions) (cancel : Nat → Bool) (i : Nat) :
    Prop :=
  cancel i = true ∨ ∃ course, g.generate block (options.nonce i) = .ok course

/-- `searchFrom` with a record of the nonces for which it asks for a course, in order. -/
def recordedFrom (g : Generator) (block : Block) (start : UInt32) (cancel : Nat → Bool) :
    (left tried : Nat) → SearchOutcome × List UInt32
  | 0, tried => (⟨none, tried⟩, [])
  | left + 1, tried =>
    if cancel tried then (⟨none, tried + 1⟩, [])
    else
      let nonce := start + UInt32.ofNat tried
      match g.generate block nonce with
      | .ok (world, state) => (⟨some ⟨nonce, tried + 1, world, state⟩, tried + 1⟩, [nonce])
      | .error _ =>
        let (outcome, nonces) := g.recordedFrom block start cancel left (tried + 1)
        (outcome, nonce :: nonces)

/-- The search with a record of the nonces for which it asks for a course, in order. -/
def recorded (g : Generator) (block : Block) (options : SearchOptions) (cancel : Nat → Bool) :
    SearchOutcome × List UInt32 :=
  g.recordedFrom block options.startNonce cancel options.maxAttempts.toNat 0

/-- The record changes nothing in the search. -/
theorem fst_recordedFrom (g : Generator) (block : Block) (start : UInt32) (cancel : Nat → Bool)
    (left tried : Nat) :
    (g.recordedFrom block start cancel left tried).1 =
      g.searchFrom block start cancel left tried := by
  induction left generalizing tried with
  | zero => rfl
  | succ left ih =>
    rw [recordedFrom, searchFrom]
    split_ifs
    · rfl
    · dsimp only
      rcases g.generate block (start + UInt32.ofNat tried) with _ | ⟨world, state⟩
      · exact ih (tried + 1)
      · rfl

/-! ## One attempt -/

/-- An attempt on which a search does not end. -/
theorem recordedFrom_succ (h : ¬ g.Ends block options cancel tried) :
    g.recordedFrom block options.startNonce cancel (n + 1) tried =
      let rest := g.recordedFrom block options.startNonce cancel n (tried + 1)
      (rest.1, options.nonce tried :: rest.2) := by
  rw [Ends, not_or] at h
  obtain ⟨hgoes, hno⟩ := h
  rw [recordedFrom, if_neg hgoes]
  dsimp only
  rw [options.add_eq_nonce]
  rcases hcourse : g.generate block (options.nonce tried) with _ | course
  · rfl
  · exact absurd ⟨course, hcourse⟩ hno

/-- A search that is called off asks for no more courses. -/
theorem recordedFrom_of_cancel (h : cancel tried = true) :
    g.recordedFrom block options.startNonce cancel (n + 1) tried =
      (⟨none, tried + 1⟩, []) := by
  rw [recordedFrom, if_pos h]

/-- A search that finds a course ends with it. -/
theorem recordedFrom_of_course {w : World} {s : RideState} (hgoes : cancel tried = false)
    (h : g.generate block (options.nonce tried) = .ok (w, s)) :
    g.recordedFrom block options.startNonce cancel (n + 1) tried =
      (⟨some ⟨options.nonce tried, tried + 1, w, s⟩, tried + 1⟩, [options.nonce tried]) := by
  rw [recordedFrom, if_neg (Bool.eq_false_iff.mp hgoes), options.add_eq_nonce]
  dsimp only
  rw [h]

/-! ## All attempts -/

/-- Attempts on which a search does not end leave it where it was, so many attempts later. -/
theorem recordedFrom_of_quiet (h : ∀ j < k, ¬ g.Ends block options cancel j) :
    g.recordedFrom block options.startNonce cancel (k + n) 0 =
      let rest := g.recordedFrom block options.startNonce cancel n k
      (rest.1, (List.range k).map options.nonce ++ rest.2) := by
  induction k generalizing n with
  | zero => simp
  | succ k ih =>
    -- the attempt `k` is the last of them, so the others leave one attempt more
    have hbefore := ih (n := n + 1) fun j hj => h j (Nat.lt_succ_of_lt hj)
    rw [Nat.add_right_comm, Nat.add_assoc, hbefore, recordedFrom_succ (h k (Nat.lt_succ_self k))]
    simp [List.range_succ]

/-- A search that can end on no attempt makes all of them. -/
theorem recorded_of_quiet
    (h : ∀ i < options.maxAttempts.toNat, ¬ g.Ends block options cancel i) :
    g.recorded block options cancel =
      (⟨none, options.maxAttempts.toNat⟩,
        (List.range options.maxAttempts.toNat).map options.nonce) := by
  have hrun := recordedFrom_of_quiet (n := 0) h
  rw [Nat.add_zero] at hrun
  rw [recorded, hrun]
  simp [recordedFrom]

/-- A search comes to the first attempt on which it ends. -/
theorem recorded_of_lt (hi : i < options.maxAttempts.toNat)
    (h : ∀ j < i, ¬ g.Ends block options cancel j) :
    ∃ n, g.recorded block options cancel =
      let rest := g.recordedFrom block options.startNonce cancel (n + 1) i
      (rest.1, (List.range i).map options.nonce ++ rest.2) := by
  refine ⟨options.maxAttempts.toNat - (i + 1), ?_⟩
  rw [← recordedFrom_of_quiet h, recorded]
  congr 1
  omega

/-- A search that is called off before attempt `i` has asked for the courses of the attempts before
it. -/
theorem recorded_of_cancel (hi : i < options.maxAttempts.toNat)
    (h : ∀ j < i, ¬ g.Ends block options cancel j) (hcancel : cancel i = true) :
    g.recorded block options cancel = (⟨none, i + 1⟩, (List.range i).map options.nonce) := by
  obtain ⟨n, hrun⟩ := recorded_of_lt hi h
  rw [hrun, recordedFrom_of_cancel hcancel]
  dsimp only
  rw [List.append_nil]

/-- A search that finds a course on attempt `i` has asked for the courses up to it. -/
theorem recorded_of_course {w : World} {s : RideState} (hi : i < options.maxAttempts.toNat)
    (h : ∀ j < i, ¬ g.Ends block options cancel j) (hgoes : cancel i = false)
    (hcourse : g.generate block (options.nonce i) = .ok (w, s)) :
    g.recorded block options cancel =
      (⟨some ⟨options.nonce i, i + 1, w, s⟩, i + 1⟩,
        (List.range (i + 1)).map options.nonce) := by
  obtain ⟨n, hrun⟩ := recorded_of_lt hi h
  rw [hrun, recordedFrom_of_course hgoes hcourse, List.range_succ, List.map_append]
  rfl

/-- The nonces that are tried are those of attempts in a row. -/
theorem snd_recordedFrom (g : Generator) (block : Block) (options : SearchOptions)
    (cancel : Nat → Bool) (left tried : Nat) :
    ∃ made ≤ left, (g.recordedFrom block options.startNonce cancel left tried).2 =
      (List.range' tried made).map options.nonce := by
  induction left generalizing tried with
  | zero => exact ⟨0, Nat.le_refl 0, rfl⟩
  | succ left ih =>
    by_cases hend : g.Ends block options cancel tried
    · -- it ends here: a course was asked for, unless it was called off before
      rcases hcancel : cancel tried with _ | _
      · obtain ⟨⟨w, s⟩, hcourse⟩ := hend.resolve_left (Bool.eq_false_iff.mp hcancel)
        rw [recordedFrom_of_course hcancel hcourse]
        exact ⟨1, Nat.le_add_left 1 left, rfl⟩
      · rw [recordedFrom_of_cancel hcancel]
        exact ⟨0, Nat.zero_le _, rfl⟩
    · obtain ⟨made, hmade, hrest⟩ := ih (tried + 1)
      rw [recordedFrom_succ hend]
      dsimp only
      rw [hrest]
      exact ⟨made + 1, Nat.succ_le_succ hmade, rfl⟩

/-- **The first nonce that there is a course for.** A search asks before every attempt whether to
give up, and ends on the first attempt on which it is told so or has a course: it has been asked
once for each attempt up to that one, and hands out the course and the state that the nonce of that
attempt has, unless it was told to give up. If it can end on no attempt, it makes all of them. No
nonce is tried twice. -/
theorem search_first (g : Generator) (block : Block) (options : SearchOptions)
    (cancel : Nat → Bool) (hmax : 1 ≤ options.maxAttempts) :
    ∃ outcome tried, g.search block options cancel = some outcome ∧
      g.recorded block options cancel = (outcome, tried) ∧ tried.Nodup ∧
      ((∀ i < options.maxAttempts.toNat, ¬ g.Ends block options cancel i) →
        outcome.found = none ∧ outcome.polls = options.maxAttempts.toNat) ∧
      ∀ i, IsLeast {i | i < options.maxAttempts.toNat ∧ g.Ends block options cancel i} i →
        outcome.polls = i + 1 ∧
        (cancel i = true → outcome.found = none) ∧
        (cancel i = false → ∃ w s, g.generate block (options.nonce i) = .ok (w, s) ∧
          outcome.found = some ⟨options.nonce i, i + 1, w, s⟩) := by
  have hsome : ¬ options.maxAttempts = 0 := by
    intro hzero
    rw [hzero] at hmax
    exact absurd hmax (by decide)
  have hsearch : g.search block options cancel = some (g.recorded block options cancel).1 := by
    rw [search, if_neg hsome, recorded, fst_recordedFrom]
  refine ⟨_, (g.recorded block options cancel).2, hsearch, rfl, ?once, ?exhausted, ?ended⟩
  case once =>
    obtain ⟨made, hmade, htried⟩ :=
      g.snd_recordedFrom block options cancel options.maxAttempts.toNat 0
    rw [recorded, htried, ← List.range_eq_range']
    exact options.nodup_nonces hmade
  case exhausted =>
    intro hquiet
    rw [recorded_of_quiet hquiet]
    exact ⟨rfl, rfl⟩
  case ended =>
    rintro i ⟨⟨hi, hend⟩, hleast⟩
    have hquiet : ∀ j < i, ¬ g.Ends block options cancel j := fun j hj hj' =>
      Nat.not_le_of_lt hj (hleast ⟨Nat.lt_trans hj hi, hj'⟩)
    rcases hcancel : cancel i with _ | _
    · obtain ⟨⟨w, s⟩, hcourse⟩ := hend.resolve_left (Bool.eq_false_iff.mp hcancel)
      rw [recorded_of_course hi hquiet hcancel hcourse]
      exact ⟨rfl, nofun, fun _ => ⟨w, s, hcourse, rfl⟩⟩
    · rw [recorded_of_cancel hi hquiet hcancel]
      exact ⟨rfl, fun _ => rfl, nofun⟩

/-! ## A search around the end of the range -/

/-- A generator whose digests repeat the first byte of a nonce. Of the nonces of a block with a
target, those with a great first byte have no course, and the others have the short drop. -/
def firstByte : Generator where
  digest message := Vector.replicate 64 (message.headD 0)
  pathCost _ _ _ := none
  rules := { Rules.shortDrop with gate := true }

/-- A block of zeros with a target of one quarter of all digests. -/
def quarterBlock : Block := Vector.ofFn fun i =>
  if i.val = 74 then 0x40 else if i.val = 75 then 0x20 else 0

/-- The last two nonces have no course; the search that starts with them goes on with zero. -/
theorem search_first_around :
    let options : SearchOptions := ⟨4294967294, 5⟩
    1 ≤ options.maxAttempts ∧
      IsLeast {i | i < 5 ∧ firstByte.Ends quarterBlock options neverCancel i} 2 ∧
      ∃ outcome, firstByte.search quarterBlock options neverCancel = some outcome ∧
        outcome.polls = 3 ∧ outcome.found = some ⟨0, 3, .shortDrop, startState⟩ := by
  intro options
  have hmax : 1 ≤ options.maxAttempts := by decide
  have hnonce : options.nonce 2 = 0 := by decide
  have hcourse : firstByte.generate quarterBlock (options.nonce 2) =
      .ok (.shortDrop, startState) := by
    rw [generate_of_flat (by decide +kernel) rfl rfl]
    exact trial_shortDrop
  have hmissed (i : Nat) (h : firstByte.passesGate quarterBlock (options.nonce i) = false) :
      ¬ firstByte.Ends quarterBlock options neverCancel i := by
    rintro (hcancel | ⟨course, hcourse⟩)
    · cases hcancel
    · rw [generate, if_neg (Bool.eq_false_iff.mp h)] at hcourse
      cases hcourse
  have hleast : IsLeast {i | i < 5 ∧ firstByte.Ends quarterBlock options neverCancel i} 2 := by
    refine ⟨⟨by decide, .inr ⟨_, hcourse⟩⟩, ?_⟩
    rintro i ⟨-, hend⟩
    by_contra hlt
    have hi : i = 0 ∨ i = 1 := by omega
    rcases hi with rfl | rfl
    · exact hmissed 0 (by decide +kernel) hend
    · exact hmissed 1 (by decide +kernel) hend
  obtain ⟨outcome, -, hsearch, -, -, -, hended⟩ :=
    firstByte.search_first quarterBlock options neverCancel hmax
  obtain ⟨hpolls, -, hfound⟩ := hended 2 hleast
  obtain ⟨w, s, hws, houtcome⟩ := hfound rfl
  rw [hcourse] at hws
  obtain ⟨rfl, rfl⟩ := Prod.mk.inj (Except.ok.inj hws)
  rw [hnonce] at houtcome
  exact ⟨hmax, hleast, outcome, hsearch, hpolls, houtcome⟩

end Generator

end RideProof
