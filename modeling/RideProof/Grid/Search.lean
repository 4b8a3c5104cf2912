import RideProof.Grid
import RideProof.Grid.Heap

/-!
# The cheapest route

`WalkGrid.pathCost g start goal` is the least cost of a route through a grid, if there is one.

The search keeps the best cost found so far for each cell, and a heap of cells in waiting. A cell
waits under an estimate of the whole route through it: its cost, and the octile distance from there
to the goal, which no route undercuts. A cell may wait more than once; where a better cost was found
after it was put in, it is stale. Costs and estimates are 32-bit words.

* `WalkGrid.moves` — all moves from a cell, with their costs.
* `Search.relax` — a move to a cell, which then waits if its cost is better than the best so far.
* `Search.round` — take the first cell in waiting: it is the goal, or stale, or all its moves are
  relaxed.
* `Search.run` — round after round. It ends because each round finds a better cost for a cell, or
  leaves one cell in waiting fewer.
-/

namespace RideProof

/-- The cost of the cheapest route over `dx` columns and `dy` rows without obstacles. -/
def octileSpan (dx dy : Nat) : Nat :=
  WalkGrid.straightCost * max dx dy + (WalkGrid.diagonalCost - WalkGrid.straightCost) * min dx dy

/-- The octile distance of two cells. -/
def octile (c d : Cell) : Nat :=
  octileSpan ((c.x - d.x) + (d.x - c.x)) ((c.y - d.y) + (d.y - c.y))

/-- Put an element in front of a list under a condition. -/
@[inline] def consIf {α : Type} (b : Bool) (a : α) (l : List α) : List α := if b then a :: l else l

/-- All moves from a cell, with their costs, row by row. -/
def WalkGrid.moves (g : WalkGrid) (c : Cell) : List (Cell × Nat) :=
  let west := decide (0 < c.x) && g.walkable ⟨c.x - 1, c.y⟩
  let east := g.walkable ⟨c.x + 1, c.y⟩
  let north := decide (0 < c.y) && g.walkable ⟨c.x, c.y - 1⟩
  let south := g.walkable ⟨c.x, c.y + 1⟩
  consIf (west && north && g.walkable ⟨c.x - 1, c.y - 1⟩) (⟨c.x - 1, c.y - 1⟩, diagonalCost) <|
  consIf north (⟨c.x, c.y - 1⟩, straightCost) <|
  consIf (east && north && g.walkable ⟨c.x + 1, c.y - 1⟩) (⟨c.x + 1, c.y - 1⟩, diagonalCost) <|
  consIf west (⟨c.x - 1, c.y⟩, straightCost) <|
  consIf east (⟨c.x + 1, c.y⟩, straightCost) <|
  consIf (west && south && g.walkable ⟨c.x - 1, c.y + 1⟩) (⟨c.x - 1, c.y + 1⟩, diagonalCost) <|
  consIf south (⟨c.x, c.y + 1⟩, straightCost) <|
  consIf (east && south && g.walkable ⟨c.x + 1, c.y + 1⟩) (⟨c.x + 1, c.y + 1⟩, diagonalCost) []

/-! ## Entries of a vector -/

section Entries

variable {α : Type} {m i j : Nat} {v : Vector α m} {a b : α}

/-- Inside a table its entry is read. -/
theorem getD_of_lt (hi : i < m) : v.getD i a = v[i] := by
  simp [Vector.getD, hi]

/-- Outside a table the default is read. -/
theorem getD_of_not_lt (hi : ¬ i < m) : v.getD i a = a := by
  simp [Vector.getD, hi]

/-- After an entry was set, it is read at its index and the others as before. -/
theorem getD_setIfInBounds (hj : j < m) :
    (v.setIfInBounds j b).getD i a = if i = j then b else v.getD i a := by
  by_cases hi : i < m
  · rw [getD_of_lt hi, getD_of_lt hi, Vector.getElem_setIfInBounds hi]
    simp only [eq_comm]
  · have hne : i ≠ j := by
      rintro rfl
      exact hi hj
    rw [getD_of_not_lt hi, getD_of_not_lt hi, if_neg hne]

end Entries

/-! ## Cells in waiting -/

/-- A cell in waiting. -/
structure Waiting where
  /-- The cost of a route through the cell, no more than the cheapest. -/
  estimate : UInt32
  /-- The cost of the route that leads to the cell. -/
  cost : UInt32
  /-- The cell. -/
  cell : Cell
  deriving DecidableEq, Repr

/-- A cell at a cost, on the way to a goal. -/
def Waiting.toward (goal : Cell) (cost : UInt32) (c : Cell) : Waiting where
  estimate := cost + UInt32.ofNat (octile c goal)
  cost := cost
  cell := c

/-- The order of cells in waiting: by their estimates, then by their costs, then by their columns
and rows. -/
def Waiting.before (a b : Waiting) : Bool :=
  if a.estimate = b.estimate then
    if a.cost = b.cost then
      if a.cell.x = b.cell.x then decide (a.cell.y ≤ b.cell.y) else decide (a.cell.x < b.cell.x)
    else decide (a.cost < b.cost)
  else decide (a.estimate < b.estimate)

/-! ## The search -/

/-- The cost of a cell that no route was found to. -/
def unreached : UInt32 := 4294967295

/-- What a search knows. -/
structure Search (g : WalkGrid) where
  /-- The best cost found for each cell, row by row. -/
  best : Vector UInt32 (g.side * g.side)
  /-- The cells in waiting. -/
  waiting : Heap Waiting

namespace Search

variable {g : WalkGrid}

/-- The best cost found for a cell. -/
def costAt (st : Search g) (c : Cell) : UInt32 := st.best.getD (g.place c) 0

/-- Only the start waits. -/
def init (g : WalkGrid) (start goal : Cell) : Search g where
  best := (Vector.replicate _ unreached).setIfInBounds (g.place start) 0
  waiting := Heap.empty.insert Waiting.before (.toward goal 0 start)

/-- Go on from a cell with cost `cost` by a move: if that is better than the best so far, the cell
that it leads to waits. -/
def relax (goal : Cell) (cost : UInt32) : Search g → Cell × Nat → Search g
  | ⟨best, waiting⟩, (d, w) =>
    let next := cost + UInt32.ofNat w
    if next < best.getD (g.place d) 0 then
      { best := best.setIfInBounds (g.place d) next
        waiting := waiting.insert Waiting.before (.toward goal next d) }
    else ⟨best, waiting⟩

/-- How a round of a search ends. -/
inductive Round (g : WalkGrid)
  /-- The goal is met at a cost. -/
  | found (cost : UInt32)
  /-- No cell is left in waiting. -/
  | exhausted
  /-- The search goes on. -/
  | next (st : Search g)

/-- Take the first cell in waiting. -/
def round (goal : Cell) : Search g → Round g
  | ⟨best, waiting⟩ =>
    match waiting.pop? Waiting.before with
    | none => .exhausted
    | some (e, waiting) =>
      if e.cell = goal then .found e.cost
      else if best.getD (g.place e.cell) 0 < e.cost then .next ⟨best, waiting⟩
      else .next ((g.moves e.cell).foldl (relax goal e.cost) ⟨best, waiting⟩)

/-! ## The search ends -/

/-- The sum of words, as a number. -/
def sumWords : List UInt32 → Nat
  | [] => 0
  | u :: us => u.toNat + sumWords us

/-- The sum of all best costs. -/
def total (st : Search g) : Nat := sumWords st.best.toList

/-- A smaller word in a list makes a smaller sum. -/
theorem sumWords_set_lt {l : List UInt32} {i : Nat} {v : UInt32} (hi : i < l.length)
    (hv : v < l[i]) : sumWords (l.set i v) < sumWords l := by
  induction l generalizing i with
  | nil => exact absurd hi (Nat.not_lt_zero i)
  | cons u us ih =>
    cases i with
    | zero => exact Nat.add_lt_add_right hv _
    | succ i => exact Nat.add_lt_add_left (ih (Nat.lt_of_succ_lt_succ hi) hv) _

/-- A move changes nothing, or finds a better cost for a cell. -/
theorem relax_eq_or (goal : Cell) (cost : UInt32) (st : Search g) (move : Cell × Nat) :
    relax goal cost st move = st ∨ (relax goal cost st move).total < st.total := by
  obtain ⟨best, waiting⟩ := st
  obtain ⟨d, w⟩ := move
  unfold relax
  dsimp only
  split
  · rename_i hlt
    right
    by_cases hi : g.place d < g.side * g.side
    · rw [getD_of_lt hi] at hlt
      unfold total
      dsimp only
      rw [Vector.toList_setIfInBounds]
      exact sumWords_set_lt (by simpa using hi) (by simpa using hlt)
    · rw [getD_of_not_lt hi] at hlt
      exact absurd hlt (UInt32.not_lt_zero)
  · exact .inl rfl

/-- Moves change nothing, or find better costs. -/
theorem foldl_relax_eq_or (goal : Cell) (cost : UInt32) (moves : List (Cell × Nat))
    (st : Search g) :
    moves.foldl (relax goal cost) st = st ∨
      (moves.foldl (relax goal cost) st).total < st.total := by
  induction moves generalizing st with
  | nil => exact .inl rfl
  | cons move moves ih =>
    rw [List.foldl_cons]
    rcases relax_eq_or goal cost st move with hsame | hless
    · rw [hsame]
      exact ih st
    · right
      rcases ih (relax goal cost st move) with hsame | hless'
      · rw [hsame]
        exact hless
      · exact Nat.lt_trans hless' hless

/-- A round finds a better cost, or leaves one cell in waiting fewer. -/
theorem lt_of_round {goal : Cell} {st st' : Search g} (h : st.round goal = .next st') :
    st'.total < st.total ∨ (st'.total = st.total ∧ st'.waiting.size < st.waiting.size) := by
  obtain ⟨best, waiting⟩ := st
  unfold round at h
  dsimp only at h
  split at h
  · cases h
  · rename_i e rest hpop
    have hsize := Heap.size_lt_of_pop? hpop
    split at h
    · cases h
    · split at h
      · cases h
        exact .inr ⟨rfl, hsize⟩
      · cases h
        rcases foldl_relax_eq_or goal e.cost (g.moves e.cell) (⟨best, rest⟩ : Search g)
          with hsame | hless
        · rw [hsame]
          exact .inr ⟨rfl, hsize⟩
        · exact .inl hless

/-- The cost at which a search meets its goal, if it does. -/
def run (goal : Cell) (st : Search g) : Option UInt32 :=
  match _ : st.round goal with
  | .found cost => some cost
  | .exhausted => none
  | .next st => run goal st
  termination_by (st.total, st.waiting.size)
  decreasing_by
    rcases lt_of_round ‹_› with hless | ⟨hsame, hsize⟩
    · exact Prod.Lex.left _ _ hless
    · rw [hsame]
      exact Prod.Lex.right _ hsize

end Search

/-- The least cost of a route from `start` to `goal`. -/
def WalkGrid.pathCost (g : WalkGrid) (start goal : Cell) : Option Nat :=
  if g.walkable start && g.walkable goal then
    ((Search.init g start goal).run goal).map UInt32.toNat
  else none

end RideProof
