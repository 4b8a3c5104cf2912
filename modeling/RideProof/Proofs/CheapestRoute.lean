import Mathlib.Algebra.Group.Nat.Defs
import Mathlib.Data.Finset.Card
import Mathlib.Order.Bounds.Basic
import RideProof.Proofs.Moves

/-!
# The search finds the cheapest route

The octile distance is consistent (`octile_le_add_of_move`), so a cell may be done with when its
moves are relaxed at its best cost, and the goal is met at the least cost when it comes first. Three
things stand in the way of this argument in the search as it is run.

* Stale cells stay in the heap, and the goal is looked for before staleness. So the invariant
  (`Search.Explored`) asks for no order in which cells are done with; it says that no cell is
  forgotten: each one was not reached, or waits at its best cost, or all its moves are relaxed.
  `Search.Explored.met` finds a cell in waiting on the way of every route to the goal.
* While a cell is expanded it neither waits nor is done with. It is the one cell that the invariant
  then skips (`Search.Expanding`).
* Costs and estimates are 32-bit words. A cell is reached by a move from a cell with a lower cost,
  so its cost is paid for, `diagonalCost` each, by the cells below it (`Search.Sound.counted`), and
  there are no more than the grid has.

`WalkGrid.pathCost_exact` puts this together, for every grid small enough that costs fit.
-/

namespace RideProof

open WalkGrid (diagonalCost)

variable {g : WalkGrid} {start goal c d x : Cell} {k : UInt32} {m n w : Nat} {e : Waiting}

/-! ## The order of waiting -/

namespace Waiting

/-- What waits before something that waits before a third waits before the third. -/
theorem before_trans (a b c : Waiting) (hab : a.before b = true) (hbc : b.before c = true) :
    a.before c = true := by
  unfold before at *
  grind

/-- Of two that wait, one is before the other. -/
theorem before_total (a b : Waiting) (h : a.before b = false) : b.before a = true := by
  unfold before at *
  grind

/-- What waits before has no greater estimate. -/
theorem estimate_le {a b : Waiting} (h : a.before b = true) : a.estimate ≤ b.estimate := by
  unfold before at h
  grind

end Waiting

namespace Search

variable {st : Search g}

/-! ## Better costs -/

/-- A better cost is found for a cell, which then waits. -/
def improve (st : Search g) (goal d : Cell) (k : UInt32) : Search g where
  best := st.best.setIfInBounds (g.place d) k
  waiting := st.waiting.insert Waiting.before (.toward goal k d)

/-- A move to a better cost is taken up. -/
theorem relax_of_lt (h : k + UInt32.ofNat w < st.costAt d) :
    relax goal k st (d, w) = st.improve goal d (k + UInt32.ofNat w) :=
  if_pos h

/-- A move to no better cost changes nothing. -/
theorem relax_of_le (h : st.costAt d ≤ k + UInt32.ofNat w) : relax goal k st (d, w) = st :=
  if_neg (UInt32.not_lt.mpr h)

/-- After a better cost is found, its cell waits besides those that waited. -/
theorem mem_waiting_improve :
    e ∈ (st.improve goal d k).waiting ↔ e = .toward goal k d ∨ e ∈ st.waiting :=
  Heap.mem_insert

/-- A better cost is written at the place of its cell, and nowhere else. -/
theorem getD_improve (hd : g.walkable d = true) (p : Nat) :
    (st.improve goal d k).best.getD p 0 = if p = g.place d then k else st.best.getD p 0 :=
  getD_setIfInBounds (WalkGrid.place_lt hd)

/-- The cell has the cost that was found for it. -/
theorem costAt_improve_self (hd : g.walkable d = true) : (st.improve goal d k).costAt d = k :=
  (getD_improve hd _).trans (if_pos rfl)

/-- The other cells keep their costs. -/
theorem costAt_improve_of_ne (hd : g.walkable d = true) (hx : g.walkable x = true) (h : x ≠ d) :
    (st.improve goal d k).costAt x = st.costAt x :=
  (getD_improve hd _).trans (if_neg ((WalkGrid.place_inj hx hd).not.mpr h))

/-- Costs only get better. -/
theorem costAt_improve_le (hd : g.walkable d = true) (hlt : k < st.costAt d) (x : Cell) :
    (st.improve goal d k).costAt x ≤ st.costAt x := by
  unfold costAt at hlt ⊢
  rw [getD_improve hd]
  split_ifs with hxd
  · rw [hxd]
    exact UInt32.le_of_lt hlt
  · exact UInt32.le_refl _

/-! ## Counting the cells below a cost -/

/-- The places with a best cost below `k`. -/
def below (st : Search g) (k : UInt32) : Finset Nat :=
  {p ∈ Finset.range (g.side * g.side) | st.best.getD p 0 < k}

/-- A cell is counted below a cost if its best cost is. -/
theorem place_mem_below (hc : g.walkable c = true) : g.place c ∈ st.below k ↔ st.costAt c < k := by
  rw [below, Finset.mem_filter, Finset.mem_range]
  exact and_iff_right (WalkGrid.place_lt hc)

/-- A cell that is not below a cost is not counted. -/
theorem card_below_lt (hc : g.walkable c = true) (h : k ≤ st.costAt c) :
    (st.below k).card < g.side * g.side := by
  rw [← Finset.card_range (g.side * g.side)]
  apply Finset.card_lt_card
  refine Finset.ssubset_iff_of_subset (Finset.filter_subset _ _) |>.mpr ⟨g.place c, ?_, ?_⟩
  · exact Finset.mem_range.mpr (WalkGrid.place_lt hc)
  · exact (place_mem_below hc).not.mpr (UInt32.not_lt.mpr h)

/-- A better cost takes no cell out of those below a cost. -/
theorem below_subset_improve (hd : g.walkable d = true) (hlt : k < st.costAt d) (j : UInt32) :
    st.below j ⊆ (st.improve goal d k).below j := by
  intro p hp
  rw [below, Finset.mem_filter] at hp ⊢
  refine ⟨hp.1, ?_⟩
  rw [getD_improve hd]
  split_ifs with hpd
  · rw [hpd] at hp
    exact UInt32.lt_trans hlt hp.2
  · exact hp.2

/-- A cell counts for the cells that are reached through it. -/
theorem card_below_succ_le (hc : g.walkable c = true) (hd : g.walkable d = true)
    (hck : st.costAt c < k) (hlt : k < st.costAt d) :
    (st.below (st.costAt c)).card + 1 ≤ ((st.improve goal d k).below k).card := by
  have hnot : g.place c ∉ st.below (st.costAt c) := by
    rw [place_mem_below hc]
    exact UInt32.lt_irrefl _
  rw [← Finset.card_insert_of_notMem hnot]
  apply Finset.card_le_card
  refine Finset.insert_subset ?_ ?_
  · exact below_subset_improve hd hlt k ((place_mem_below hc).mpr hck)
  · intro p hp
    apply below_subset_improve hd hlt k
    rw [below, Finset.mem_filter] at hp ⊢
    exact ⟨hp.1, UInt32.lt_trans hp.2 hck⟩

/-! ## What holds between rounds -/

/-- What holds of each cell in waiting. -/
structure Lawful (start goal : Cell) (st : Search g) (e : Waiting) : Prop where
  /-- A route leads to the cell at its cost. -/
  route : g.Path start e.cell e.cost.toNat
  /-- The cost leaves room for one more move. -/
  room : e.cost.toNat + diagonalCost ≤ diagonalCost * (g.side * g.side)
  /-- The estimate is what it is meant to be. -/
  estimate_eq : e.estimate.toNat = e.cost.toNat + octile e.cell goal
  /-- The best cost of the cell is no worse. -/
  best_le : st.costAt e.cell ≤ e.cost

/-- What a search knows is true. -/
structure Sound (start goal : Cell) (st : Search g) : Prop where
  /-- The first cell in waiting comes first. -/
  ordered : st.waiting.Ordered Waiting.before
  /-- The cells in waiting are reached. -/
  lawful : ∀ e ∈ st.waiting, Lawful start goal st e
  /-- Each cell is a move away from a cell that was reached at a lower cost, so its cost is paid
  by the cells below it. -/
  counted : ∀ c, g.walkable c = true → st.costAt c ≠ unreached →
    (st.costAt c).toNat ≤ diagonalCost * (st.below (st.costAt c)).card

/-- Some moves from a cell lead to nothing better. -/
def Relaxed (st : Search g) (c : Cell) (moves : List (Cell × Nat)) : Prop :=
  ∀ move ∈ moves, (st.costAt move.1).toNat ≤ (st.costAt c).toNat + move.2

/-- A cell waits at its best cost. -/
def Awaits (st : Search g) (c : Cell) : Prop := ∃ e ∈ st.waiting, e.cell = c ∧ e.cost = st.costAt c

/-- A cell is done with: it is not the goal, and none of its moves leads to anything better. -/
def Closed (goal : Cell) (st : Search g) (c : Cell) : Prop := c ≠ goal ∧ st.Relaxed c (g.moves c)

/-- No cell is forgotten: it was not reached yet, or it waits, or it is done with. -/
def Covered (goal : Cell) (st : Search g) (c : Cell) : Prop :=
  st.costAt c = unreached ∨ st.Awaits c ∨ Closed goal st c

/-- What holds between rounds, for `skip = none`, and while the moves from a cell `c` are relaxed,
for `skip = some c`. -/
structure Explored (start goal : Cell) (skip : Option Cell) (st : Search g) : Prop where
  /-- What is known is true. -/
  sound : Sound start goal st
  /-- The start is reached at no cost. -/
  costAt_start : st.costAt start = 0
  /-- No cell is forgotten, except for the one that the search is at. -/
  covered : ∀ c, g.walkable c = true → skip ≠ some c → Covered goal st c

section

variable (hfit : diagonalCost * (g.side * g.side) + diagonalCost * g.side < 2 ^ 32)

/-- A sum of words that fits is the sum of the numbers. -/
theorem toNat_add_ofNat (h : k.toNat + w < 2 ^ 32) : (k + UInt32.ofNat w).toNat = k.toNat + w := by
  rw [UInt32.toNat_add, UInt32.toNat_ofNat']
  omega

/-- A cost that is counted leaves room for one more move. -/
theorem room_of_counted (hc : g.walkable c = true) (hk : k ≤ st.costAt c)
    (h : k.toNat ≤ diagonalCost * (st.below k).card) :
    k.toNat + diagonalCost ≤ diagonalCost * (g.side * g.side) :=
  calc k.toNat + diagonalCost
      ≤ diagonalCost * ((st.below k).card + 1) := Nat.add_le_add_right h _
    _ ≤ diagonalCost * (g.side * g.side) := Nat.mul_le_mul_left _ (card_below_lt hc hk)

include hfit in
/-- What fits is not the mark of an unreached cell. -/
theorem ne_unreached (hc : g.walkable c = true)
    (h : k.toNat ≤ diagonalCost * (g.side * g.side)) : k ≠ unreached := by
  rintro rfl
  have hmark : unreached.toNat + 1 = 2 ^ 32 := rfl
  have hside := octile_add_le_of_walkable hc hc
  have hpos : 0 < diagonalCost := by decide
  omega

/-- A cost that is a move away from a counted cell is counted when it is noted. -/
theorem counted_improve (hc : g.walkable c = true) (hd : g.walkable d = true)
    (hcount : (st.costAt c).toNat ≤ diagonalCost * (st.below (st.costAt c)).card)
    (hck : st.costAt c < k) (hlt : k < st.costAt d)
    (hstep : k.toNat ≤ (st.costAt c).toNat + diagonalCost) :
    k.toNat ≤ diagonalCost * ((st.improve goal d k).below k).card :=
  calc k.toNat
      ≤ diagonalCost * ((st.below (st.costAt c)).card + 1) :=
      hstep.trans (Nat.add_le_add_right hcount _)
    _ ≤ diagonalCost * ((st.improve goal d k).below k).card :=
      Nat.mul_le_mul_left _ (card_below_succ_le hc hd hck hlt)

include hfit in
/-- **A better cost keeps what is known true**, if a route leads there and its cost is counted. -/
theorem Sound.improve (hs : Sound start goal st) (hgoal : g.walkable goal = true)
    (hroute : g.Path start d k.toNat) (hlt : k < st.costAt d)
    (hcount : k.toNat ≤ diagonalCost * ((st.improve goal d k).below k).card) :
    Sound start goal (st.improve goal d k) := by
  have hd := hroute.walkable_right
  have hself : (st.improve goal d k).costAt d = k := costAt_improve_self hd
  refine ⟨Heap.ordered_insert Waiting.before_trans Waiting.before_total _ hs.ordered, ?_, ?_⟩
  · intro e he
    obtain rfl | he := mem_waiting_improve.mp he
    · -- of the cell that is put in, the estimate is the sum that might wrap
      have hroom := room_of_counted hd (UInt32.le_of_eq hself.symm) hcount
      have hoctile := octile_add_le_of_walkable hd hgoal
      exact ⟨hroute, hroom, toNat_add_ofNat (by omega), UInt32.le_of_eq hself⟩
    · obtain ⟨hr, hroom, hest, hbest⟩ := hs.lawful e he
      exact ⟨hr, hroom, hest, UInt32.le_trans (costAt_improve_le hd hlt _) hbest⟩
  · intro c hc hreach
    by_cases hcd : c = d
    · rw [hcd, hself]
      exact hcount
    · rw [costAt_improve_of_ne hd hc hcd] at hreach ⊢
      exact (hs.counted c hc hreach).trans
        (Nat.mul_le_mul_left _ (Finset.card_le_card (below_subset_improve hd hlt _)))

/-- A better cost leaves what is relaxed relaxed, but for the cell that it is found for. -/
theorem Relaxed.improve {moves : List (Cell × Nat)} (h : st.Relaxed c moves)
    (hc : g.walkable c = true) (hd : g.walkable d = true) (hcd : c ≠ d) (hlt : k < st.costAt d) :
    (st.improve goal d k).Relaxed c moves := by
  intro move hmove
  rw [costAt_improve_of_ne hd hc hcd]
  exact (UInt32.le_iff_toNat_le.mp (costAt_improve_le hd hlt _)).trans (h move hmove)

/-- A better cost leaves no cell forgotten. -/
theorem Covered.improve (h : Covered goal st c) (hc : g.walkable c = true)
    (hd : g.walkable d = true) (hlt : k < st.costAt d) :
    Covered goal (st.improve goal d k) c := by
  by_cases hcd : c = d
  · subst hcd
    exact .inr (.inl ⟨.toward goal k c, mem_waiting_improve.mpr (.inl rfl), rfl,
      (costAt_improve_self hd).symm⟩)
  · have hsame : (st.improve goal d k).costAt c = st.costAt c := costAt_improve_of_ne hd hc hcd
    rcases h with hun | ⟨e, he, hcell, hcost⟩ | ⟨hgoal, hrelaxed⟩
    · exact .inl (hsame.trans hun)
    · exact .inr (.inl ⟨e, mem_waiting_improve.mpr (.inr he), hcell, hcost.trans hsame.symm⟩)
    · exact .inr (.inr ⟨hgoal, hrelaxed.improve hc hd hcd hlt⟩)

/-! ## The moves from one cell -/

/-- What holds while the moves from `c`, at cost `k`, are relaxed, and those in `done` are. -/
structure Expanding (start goal c : Cell) (k : UInt32) (done : List (Cell × Nat))
    (st : Search g) : Prop where
  /-- Only `c` may be forgotten. -/
  explored : Explored start goal (some c) st
  /-- A route leads to `c` at cost `k`. -/
  route : g.Path start c k.toNat
  /-- The cost leaves room for one more move. -/
  room : k.toNat + diagonalCost ≤ diagonalCost * (g.side * g.side)
  /-- There is no better cost for `c`. -/
  costAt_eq : st.costAt c = k
  /-- The moves so far lead to nothing better. -/
  relaxed : st.Relaxed c done

include hfit in
/-- A move that finds a better cost is relaxed when the cost is noted. -/
theorem Expanding.improve {done : List (Cell × Nat)} {next : UInt32}
    (h : Expanding start goal c k done st) (hgoal : g.walkable goal = true) (hmove : g.Move c d w)
    (hnext : next.toNat = k.toNat + w) (hlt : next < st.costAt d) :
    Expanding start goal c k (done ++ [(d, w)]) (st.improve goal d next) := by
  obtain ⟨⟨hsound, hstart, hcovered⟩, hroute, hroom, rfl, hrelaxed⟩ := h
  have hc := hroute.walkable_right
  have hd := hmove.walkable
  have hck : st.costAt c < next := by
    rw [UInt32.lt_iff_toNat_lt, hnext]
    exact Nat.lt_add_of_pos_right hmove.cost_pos
  -- no move is free, so none finds a better cost for the cell that it starts from
  have hcd : c ≠ d := by
    rintro rfl
    exact UInt32.lt_irrefl _ (UInt32.lt_trans hck hlt)
  have hsame : (st.improve goal d next).costAt c = st.costAt c := costAt_improve_of_ne hd hc hcd
  have hreach : st.costAt c ≠ unreached := ne_unreached hfit hc (Nat.le_of_add_right_le hroom)
  have hcount : next.toNat ≤ diagonalCost * ((st.improve goal d next).below next).card :=
    counted_improve hc hd (hsound.counted c hc hreach) hck hlt
      (hnext ▸ Nat.add_le_add_left hmove.cost_le _)
  refine ⟨⟨?_, ?_, ?_⟩, hroute, hroom, hsame, ?_⟩
  · exact hsound.improve hfit hgoal (hnext ▸ hroute.snoc hmove) hlt hcount
  · have hsd : start ≠ d := by
      rintro rfl
      rw [hstart] at hlt
      exact UInt32.not_lt_zero hlt
    rw [costAt_improve_of_ne hd hroute.walkable_left hsd]
    exact hstart
  · intro x hx hskip
    exact (hcovered x hx hskip).improve hx hd hlt
  · intro move hmem
    rcases List.mem_append.mp hmem with hmem | hmem
    · exact hrelaxed.improve hc hd hcd hlt move hmem
    · rw [List.mem_singleton.mp hmem, costAt_improve_self hd, hsame]
      exact Nat.le_of_eq hnext

include hfit in
/-- **One more move is relaxed.** -/
theorem Expanding.relax {done : List (Cell × Nat)} (h : Expanding start goal c k done st)
    (hgoal : g.walkable goal = true) (hmove : g.Move c d w) :
    Expanding start goal c k (done ++ [(d, w)]) (relax goal k st (d, w)) := by
  have hroom := h.room
  have hw := hmove.cost_le
  have hnext : (k + UInt32.ofNat w).toNat = k.toNat + w := toNat_add_ofNat (by omega)
  by_cases hlt : k + UInt32.ofNat w < st.costAt d
  · rw [relax_of_lt hlt]
    exact h.improve hfit hgoal hmove hnext hlt
  · have hle := UInt32.not_lt.mp hlt
    rw [relax_of_le hle]
    refine ⟨h.explored, h.route, hroom, h.costAt_eq, ?_⟩
    intro move hmem
    rcases List.mem_append.mp hmem with hmem | hmem
    · exact h.relaxed move hmem
    · rw [List.mem_singleton.mp hmem, h.costAt_eq, ← hnext]
      exact UInt32.le_iff_toNat_le.mp hle

include hfit in
/-- All moves are relaxed, by induction on the moves that are left. -/
theorem Expanding.foldl_relax {done moves : List (Cell × Nat)}
    (h : Expanding start goal c k done st) (hgoal : g.walkable goal = true)
    (hmoves : ∀ move ∈ moves, g.Move c move.1 move.2) :
    Expanding start goal c k (done ++ moves) (moves.foldl (Search.relax goal k) st) := by
  induction moves generalizing done st with
  | nil => rwa [List.append_nil]
  | cons move moves ih =>
    rw [List.append_cons]
    obtain ⟨hmove, hmoves⟩ := List.forall_mem_cons.mp hmoves
    exact ih (h.relax hfit hgoal hmove) hmoves

/-! ## Every route passes the cells in waiting -/

/-- The end `x` of a route of cost `n` is done with, at a cost no worse; or some cell in waiting is
on the way: from there to the end, the octile distance does not take the cost above `n`. -/
def Met (goal : Cell) (st : Search g) (x : Cell) (n : Nat) : Prop :=
  (st.costAt x ≠ unreached ∧ (st.costAt x).toNat ≤ n ∧ Closed goal st x) ∨
    ∃ e ∈ st.waiting, e.cost.toNat + octile e.cell x ≤ n

/-- A cell that was reached at no more than the cost of a route meets it. -/
theorem Explored.met_of_le (h : Explored start goal none st) (hx : g.walkable x = true)
    (hreach : st.costAt x ≠ unreached) (hn : (st.costAt x).toNat ≤ n) : Met goal st x n := by
  rcases h.covered x hx nofun with hun | ⟨e, he, rfl, hcost⟩ | hclosed
  · exact absurd hun hreach
  · refine .inr ⟨e, he, ?_⟩
    rw [octile_self, hcost]
    exact hn
  · exact .inl ⟨hreach, hn, hclosed⟩

include hfit in
/-- **Every route meets the search**, by induction on the route. -/
theorem Explored.met (h : Explored start goal none st) (hroute : g.Path start x n) :
    Met goal st x n := by
  induction hroute with
  | here hx =>
    apply h.met_of_le hx
    · rw [h.costAt_start]
      decide
    · rw [h.costAt_start]
      exact Nat.le_refl 0
  | @snoc c d n w hroute hmove ih =>
    rcases ih with ⟨hreach, hn, -, hrelaxed⟩ | ⟨e, he, hn⟩
    · -- all moves from `c` are relaxed, so the last one of the route was made at no worse a cost
      have hc := hroute.walkable_right
      have hle : (st.costAt d).toNat ≤ (st.costAt c).toNat + w :=
        hrelaxed _ (WalkGrid.mem_moves.mpr hmove)
      have hroom := room_of_counted hc (UInt32.le_refl _) (h.sound.counted c hc hreach)
      have hw := hmove.cost_le
      exact h.met_of_le hmove.walkable (ne_unreached hfit hc (by omega)) (by omega)
    · -- what is on the way to `c` is on the way to `d`, since the octile distance is consistent
      have hle := octile_le_add_of_move hmove (c := e.cell)
      exact .inr ⟨e, he, by omega⟩

/-! ## Rounds -/

/-- What a round should lead to. -/
def Round.Right (start goal : Cell) : Round g → Prop
  | .found k => IsLeast {n | g.Path start goal n} k.toNat
  | .exhausted => ¬ ∃ n, g.Path start goal n
  | .next st => Explored start goal none st

/-- The cell that was skipped need not be skipped when it is covered. -/
theorem Explored.unskip (h : Explored start goal (some c) st) (hc : Covered goal st c) :
    Explored start goal none st := by
  refine ⟨h.sound, h.costAt_start, ?_⟩
  intro x hx _
  by_cases hcx : c = x
  · exact hcx ▸ hc
  · exact h.covered x hx (fun hsome => hcx (Option.some.inj hsome))

/-- Without the first cell in waiting, only that cell may be forgotten. -/
theorem Explored.pop {rest : Heap Waiting} (h : Explored start goal none st)
    (hpop : st.waiting.pop? Waiting.before = some (e, rest)) :
    Explored start goal (some e.cell) { st with waiting := rest } := by
  refine ⟨⟨?_, ?_, h.sound.counted⟩, h.costAt_start, ?_⟩
  · exact Heap.ordered_of_pop? Waiting.before_trans Waiting.before_total hpop h.sound.ordered
  · intro e' he'
    obtain ⟨hroute, hroom, hest, hbest⟩ :=
      h.sound.lawful e' ((Heap.mem_iff_of_pop? hpop).mpr (.inr he'))
    exact ⟨hroute, hroom, hest, hbest⟩
  · intro x hx hskip
    rcases h.covered x hx nofun with hun | ⟨e', he', rfl, hcost⟩ | hclosed
    · exact .inl hun
    · rcases (Heap.mem_iff_of_pop? hpop).mp he' with rfl | he'
      · exact absurd rfl hskip
      · exact .inr (.inl ⟨e', he', rfl, hcost⟩)
    · exact .inr (.inr hclosed)

/-- A stale cell may be taken out: its cell waits at a better cost too, or is done with. -/
theorem Explored.pop_stale {rest : Heap Waiting} (h : Explored start goal none st)
    (hpop : st.waiting.pop? Waiting.before = some (e, rest)) (hstale : st.costAt e.cell < e.cost) :
    Explored start goal none { st with waiting := rest } := by
  apply (h.pop hpop).unskip
  have hmem := (Heap.mem_iff_of_pop? hpop).mpr (.inl rfl)
  rcases h.covered _ (h.sound.lawful e hmem).route.walkable_right nofun with
    hun | ⟨e', he', hcell, hcost⟩ | hclosed
  · exact .inl hun
  · rcases (Heap.mem_iff_of_pop? hpop).mp he' with rfl | he'
    · -- the cell that waits at the best cost is not the stale one
      rw [hcost] at hstale
      exact absurd hstale (UInt32.lt_irrefl _)
    · exact .inr (.inl ⟨e', he', hcell, hcost⟩)
  · exact .inr (.inr hclosed)

include hfit in
/-- When the moves from the first cell in waiting are relaxed, that cell is done with. -/
theorem Explored.expand {rest : Heap Waiting} (h : Explored start goal none st)
    (hgoal : g.walkable goal = true) (hpop : st.waiting.pop? Waiting.before = some (e, rest))
    (hcell : e.cell ≠ goal) (hbest : e.cost ≤ st.costAt e.cell) :
    Explored start goal none
      ((g.moves e.cell).foldl (relax goal e.cost) { st with waiting := rest }) := by
  obtain ⟨hroute, hroom, -, hle⟩ := h.sound.lawful e ((Heap.mem_iff_of_pop? hpop).mpr (.inl rfl))
  have hexpanding : Expanding start goal e.cell e.cost [] { st with waiting := rest } :=
    ⟨h.pop hpop, hroute, hroom, UInt32.le_antisymm hle hbest,
      fun _ hnil => absurd hnil List.not_mem_nil⟩
  obtain ⟨hexplored, -, -, -, hrelaxed⟩ :=
    hexpanding.foldl_relax hfit hgoal fun _ hmove => WalkGrid.mem_moves.mp hmove
  exact hexplored.unskip (.inr (.inr ⟨hcell, hrelaxed⟩))

include hfit in
/-- **The goal is taken out at the least cost**: some cell in waiting is on the way of each route,
and its estimate is no less. -/
theorem Explored.found {rest : Heap Waiting} (h : Explored start goal none st)
    (hpop : st.waiting.pop? Waiting.before = some (e, rest)) (hcell : e.cell = goal) :
    IsLeast {n | g.Path start goal n} e.cost.toNat := by
  obtain ⟨hroute, -, hestimate, -⟩ := h.sound.lawful e ((Heap.mem_iff_of_pop? hpop).mpr (.inl rfl))
  subst hcell
  refine ⟨hroute, ?_⟩
  intro n hn
  rcases h.met hfit hn with ⟨-, -, hclosed⟩ | ⟨e', he', hle⟩
  · exact absurd rfl hclosed.1
  · have hest : e.estimate ≤ e'.estimate := by
      rcases (Heap.mem_iff_of_pop? hpop).mp he' with rfl | he'
      · exact UInt32.le_refl _
      · exact Waiting.estimate_le (Heap.le_of_pop? hpop h.sound.ordered he')
    rw [UInt32.le_iff_toNat_le, hestimate, (h.sound.lawful e' he').estimate_eq, octile_self] at hest
    exact hest.trans hle

include hfit in
/-- **A round goes right.** -/
theorem Explored.round (h : Explored start goal none st) (hgoal : g.walkable goal = true) :
    (st.round goal).Right start goal := by
  obtain ⟨best, waiting⟩ := st
  unfold Search.round
  dsimp only
  split
  · rename_i hpop
    rintro ⟨n, hn⟩
    rcases h.met hfit hn with ⟨-, -, hclosed⟩ | ⟨e, he, -⟩
    · exact hclosed.1 rfl
    · exact Heap.not_mem_of_pop? hpop he
  · rename_i e rest hpop
    split_ifs with hcell hstale
    · exact h.found hfit hpop hcell
    · exact h.pop_stale hpop hstale
    · exact h.expand hfit hgoal hpop hcell (UInt32.not_lt.mp hstale)

include hfit in
/-- **The whole search goes right**, by induction on its rounds. -/
theorem Explored.run (h : Explored start goal none st) (hgoal : g.walkable goal = true) :
    (∀ k, st.run goal = some k → IsLeast {n | g.Path start goal n} k.toNat) ∧
      (st.run goal = none → ¬ ∃ n, g.Path start goal n) := by
  fun_induction Search.run goal st with
  | case1 st k hround =>
    have hright := h.round hfit hgoal
    rw [hround] at hright
    refine ⟨?_, nofun⟩
    rintro _ ⟨⟩
    exact hright
  | case2 st hround =>
    have hright := h.round hfit hgoal
    rw [hround] at hright
    exact ⟨nofun, fun _ => hright⟩
  | case3 st st' hround ih =>
    have hright := h.round hfit hgoal
    rw [hround] at hright
    exact ih hright

/-! ## From the start -/

/-- A search that knows nothing. -/
def blank (g : WalkGrid) : Search g := ⟨Vector.replicate _ unreached, .empty⟩

/-- A search starts with its start, reached at no cost. -/
theorem init_eq : init g start goal = (blank g).improve goal start 0 := rfl

/-- At first no cell is reached. -/
theorem costAt_blank (hc : g.walkable c = true) : (blank g).costAt c = unreached :=
  (getD_of_lt (WalkGrid.place_lt hc)).trans (Vector.getElem_replicate _)

/-- A search that knows nothing knows nothing that is wrong. -/
theorem sound_blank : Sound start goal (blank g) where
  ordered := trivial
  lawful _ he := absurd he Heap.not_mem_empty
  counted _ hc hreach := absurd (costAt_blank hc) hreach

include hfit in
/-- What holds between rounds holds before the first. -/
theorem explored_init (hstart : g.walkable start = true) (hgoal : g.walkable goal = true) :
    Explored start goal none (init g start goal) := by
  have hlt : 0 < (blank g).costAt start := by
    rw [costAt_blank hstart]
    decide
  rw [init_eq]
  refine ⟨?_, ?_, ?_⟩
  · exact sound_blank.improve hfit hgoal (.here hstart) hlt (Nat.zero_le _)
  · exact costAt_improve_self hstart
  · intro x hx _
    exact Covered.improve (.inl (costAt_blank hx)) hx hstart hlt

/-- The searches between the rounds on the way from `start` to `goal`. -/
inductive Reached (start goal : Cell) : Search g → Prop
  /-- Before the first round. -/
  | init : Reached start goal (init g start goal)
  /-- After one more round. -/
  | round {st st' : Search g} : Reached start goal st → st.round goal = .next st' →
      Reached start goal st'

/-- No cost and no estimate that the moves from a cell in waiting need is more than a word holds. -/
def Fits (goal : Cell) (st : Search g) : Prop :=
  ∀ e ∈ st.waiting, e.cost.toNat + octile e.cell goal < 2 ^ 32 ∧
    ∀ move ∈ g.moves e.cell, e.cost.toNat + move.2 + octile move.1 goal < 2 ^ 32

include hfit in
/-- Where cells are explored, costs and estimates fit. -/
theorem Explored.fits (h : Explored start goal none st) (hgoal : g.walkable goal = true) :
    Fits goal st := by
  intro e he
  obtain ⟨hroute, hroom, -, -⟩ := h.sound.lawful e he
  constructor
  · have hoctile := octile_add_le_of_walkable hroute.walkable_right hgoal
    omega
  · intro move hmem
    have hmove := WalkGrid.mem_moves.mp hmem
    have hoctile := octile_add_le_of_walkable hmove.walkable hgoal
    have hw := hmove.cost_le
    omega

include hfit in
/-- What holds between rounds holds of every search that is reached. -/
theorem Reached.explored (h : Reached start goal st) (hstart : g.walkable start = true)
    (hgoal : g.walkable goal = true) : Explored start goal none st := by
  induction h with
  | init => exact explored_init hfit hstart hgoal
  | round _ hround ih =>
    have hright := ih.round hfit hgoal
    rwa [hround] at hright

end

end Search

namespace WalkGrid

section

variable (hfit : diagonalCost * (g.side * g.side) + diagonalCost * g.side < 2 ^ 32)

include hfit

/-- A cost that is found is the least of a route. -/
theorem isLeast_of_pathCost (h : g.pathCost start goal = some n) :
    IsLeast {n | g.Path start goal n} n := by
  unfold pathCost at h
  split_ifs at h with hends
  obtain ⟨hstart, hgoal⟩ := (Bool.and_eq_true _ _).mp hends
  obtain ⟨k, hrun, rfl⟩ := Option.map_eq_some_iff.mp h
  exact ((Search.explored_init hfit hstart hgoal).run hfit hgoal).1 k hrun

/-- If no cost is found, there is no route. -/
theorem not_path_of_pathCost (h : g.pathCost start goal = none) :
    ¬ ∃ n, g.Path start goal n := by
  unfold pathCost at h
  split_ifs at h with hends
  · obtain ⟨hstart, hgoal⟩ := (Bool.and_eq_true _ _).mp hends
    exact ((Search.explored_init hfit hstart hgoal).run hfit hgoal).2 (Option.map_eq_none_iff.mp h)
  · rintro ⟨n, hn⟩
    exact hends ((Bool.and_eq_true _ _).mpr ⟨hn.walkable_left, hn.walkable_right⟩)

end

/-- **The search is exact**, on every grid small enough that costs fit in words. It ends with a cost
if and only if that is the least cost of a route, and without one if and only if an end is blocked
or outside the grid, or there is no route. On the way no cost and no estimate wraps. -/
theorem pathCost_exact (g : WalkGrid) (start goal : Cell)
    (hfit : 14 * g.side * g.side + 14 * g.side < 2 ^ 32) :
    (∀ n, g.pathCost start goal = some n ↔ IsLeast {n | g.Path start goal n} n) ∧
      (g.pathCost start goal = none ↔
        g.walkable start = false ∨ g.walkable goal = false ∨ ¬ ∃ n, g.Path start goal n) ∧
      (g.walkable start = true → g.walkable goal = true →
        ∀ st : Search g, Search.Reached start goal st → Search.Fits goal st) := by
  rw [Nat.mul_assoc] at hfit
  refine ⟨?_, ?_, ?_⟩
  · intro n
    refine ⟨isLeast_of_pathCost hfit, fun hleast => ?_⟩
    cases hcost : g.pathCost start goal with
    | none => exact absurd ⟨n, hleast.1⟩ (not_path_of_pathCost hfit hcost)
    | some m => rw [(isLeast_of_pathCost hfit hcost).unique hleast]
  · refine ⟨fun hcost => .inr (.inr (not_path_of_pathCost hfit hcost)), fun hnone => ?_⟩
    cases hcost : g.pathCost start goal with
    | none => rfl
    | some m =>
      have hroute : g.Path start goal m := (isLeast_of_pathCost hfit hcost).1
      rcases hnone with hstart | hgoal | hno
      · exact absurd hroute.walkable_left (Bool.eq_false_iff.mp hstart)
      · exact absurd hroute.walkable_right (Bool.eq_false_iff.mp hgoal)
      · exact absurd ⟨m, hroute⟩ hno
  · intro hstart hgoal st hst
    exact (hst.explored hfit hstart hgoal).fits hfit hgoal

/-- Three by three cells around a blocked one. -/
def ring : WalkGrid := ofFn 3 fun x y => !(x == 1 && y == 1)

/-- The costs of the cells of the ring, from the middle of the left column. -/
def ringCost (c : Cell) : Nat :=
  straightCost * (([[1, 0, 1], [2, 3, 2], [3, 4, 3]].getD c.x []).getD c.y 0)

/-- By a move round the ring, the costs written down for it rise by no more than the move costs. -/
theorem ringCost_le_of_move (hc : ring.walkable c = true) (h : ring.Move c d w) :
    ringCost d ≤ ringCost c + w := by
  have hall : ∀ y < 3, ∀ x < 3, ∀ move ∈ ring.moves ⟨x, y⟩,
      ringCost move.1 ≤ ringCost ⟨x, y⟩ + move.2 := by decide
  obtain ⟨hx, hy⟩ := lt_side_of_walkable hc
  exact hall c.y hy c.x hx (d, w) (mem_moves.mpr h)

/-- The way across the ring leads round the corners. -/
theorem pathCost_ring :
    14 * ring.side * ring.side + 14 * ring.side < 2 ^ 32 ∧
      ring.pathCost ⟨0, 1⟩ ⟨2, 1⟩ = some 40 := by
  have hfit : 14 * ring.side * ring.side + 14 * ring.side < 2 ^ 32 := by decide
  refine ⟨hfit, ((pathCost_exact ring ⟨0, 1⟩ ⟨2, 1⟩ hfit).1 40).mpr ⟨?_, ?_⟩⟩
  · have up : ring.Move ⟨0, 1⟩ ⟨0, 0⟩ 10 := .straight (.inr ⟨rfl, .inr rfl⟩) (by decide)
    have right : ring.Move ⟨0, 0⟩ ⟨1, 0⟩ 10 := .straight (.inl ⟨rfl, .inl rfl⟩) (by decide)
    have right' : ring.Move ⟨1, 0⟩ ⟨2, 0⟩ 10 := .straight (.inl ⟨rfl, .inl rfl⟩) (by decide)
    have down : ring.Move ⟨2, 0⟩ ⟨2, 1⟩ 10 := .straight (.inr ⟨rfl, .inl rfl⟩) (by decide)
    exact ((((Path.here (by decide)).snoc up).snoc right).snoc right').snoc down
  · intro n hn
    exact Path.le_of_potential ringCost rfl (fun _ _ _ => ringCost_le_of_move) hn

end WalkGrid

end RideProof
