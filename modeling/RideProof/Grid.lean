import RideProof.Field.Sample

/-!
# The walkability grid

A coarse square grid of the cells that a ride can pass. Coordinates are `(x, y)` with `y` growing
downward; cells outside the grid are blocked.

* `WalkGrid.walkable`, `WalkGrid.set` — read and write one cell.
* `WalkGrid.ofField` — the ground sampled on 512 by 512 points, with a blocked border of one cell;
  `WalkGrid.scanRow` and `WalkGrid.scanRows` go through the points.
* `WalkGrid.Move`, `WalkGrid.Path` — the moves between cells and the routes made of them, with
  their costs.
-/

namespace RideProof

/-- A cell of a grid. -/
abbrev Cell := Pair Nat

/-- A square grid of walkable and blocked cells. -/
structure WalkGrid where
  /-- The number of cells along a side. -/
  side : Nat
  /-- Whether each cell is walkable, row by row. -/
  cells : Vector Bool (side * side)

namespace WalkGrid

/-- The grid whose cell `(x, y)` is walkable if `f x y`. -/
def ofFn (side : Nat) (f : Nat → Nat → Bool) : WalkGrid :=
  ⟨side, Vector.ofFn fun i => f (i.val % side) (i.val / side)⟩

/-- The grid without a walkable cell. -/
def blocked (side : Nat) : WalkGrid := ofFn side fun _ _ => false

/-- The place of a cell in the list of all cells. -/
def place (g : WalkGrid) (c : Cell) : Nat := c.y * g.side + c.x

/-- Whether a cell lies in the grid. -/
def contains (g : WalkGrid) (c : Cell) : Bool := decide (c.x < g.side) && decide (c.y < g.side)

/-- Whether a cell lies in the grid and is walkable. -/
def walkable (g : WalkGrid) (c : Cell) : Bool := g.contains c && g.cells.getD (g.place c) false

/-- The grid with one cell made walkable or blocked; a cell outside changes nothing. -/
def set (g : WalkGrid) (c : Cell) (walkable : Bool) : WalkGrid :=
  if g.contains c then { g with cells := g.cells.setIfInBounds (g.place c) walkable } else g

/-- How many cells are walkable. -/
def walkableCount (g : WalkGrid) : Nat := g.cells.count true

/-! ## The grid of a field -/

/-- The sample points along a side of the map. -/
def fieldCells : Nat := 512

/-- How far apart the sample points are. -/
def sampleStep : Int := 8388608

/-- Whether the ground leaves a point open. -/
def openAt (f : Field) (x y : Int) : Bool :=
  decide ((f.height ⟨Int32.ofInt x, Int32.ofInt y⟩).toInt < groundLevel)

/-- The grid with the cells of one row set, from column `col` on, as the ground is at the points at
height `y`, from `x` on to the right, up to `right`. -/
def scanRow (f : Field) (right y : Int) (row : Nat) (g : WalkGrid) (col : Nat) (x : Int) :
    WalkGrid :=
  if x ≤ right then
    scanRow f right y row (g.set ⟨col, row⟩ (openAt f x y)) (col + 1) (x + sampleStep)
  else g
termination_by (right + 1 - x).toNat
decreasing_by
  simp only [sampleStep]
  omega

/-- The grid with rows set, from `row` on, as the ground is at the points from height `y` on
downward, down to `bottom`; and the row after them. Each row starts at the left edge of the map. -/
def scanRows (f : Field) (right bottom : Int) (g : WalkGrid) (row : Nat) (y : Int) :
    WalkGrid × Nat :=
  if bottom ≤ y then
    scanRows f right bottom (scanRow f right y row g 1 (-2147483647)) (row + 1) (y - sampleStep)
  else (g, row)
termination_by (y + 1 - bottom).toNat
decreasing_by
  simp only [sampleStep]
  omega

/-- The walkability grid of a field: the ground from height 0 down to above the lower edge of the
map, and then from the upper edge down to height 0. -/
def ofField (f : Field) : WalkGrid :=
  let (lower, row) := scanRows f 2147483647 (-2147483646) (blocked (fieldCells + 2)) 1 0
  (scanRows f 2147483646 0 lower row 2147483647).1

/-! ## Moves and routes -/

/-- The cost of a move along a row or a column. -/
def straightCost : Nat := 10

/-- The cost of a move along a diagonal. -/
def diagonalCost : Nat := 14

/-- Two cells are neighbours along a row or a column. -/
def Beside (c d : Cell) : Prop :=
  (c.y = d.y ∧ (c.x + 1 = d.x ∨ d.x + 1 = c.x)) ∨ (c.x = d.x ∧ (c.y + 1 = d.y ∨ d.y + 1 = c.y))

/-- Two cells are neighbours along a diagonal. -/
def Across (c d : Cell) : Prop :=
  (c.x + 1 = d.x ∨ d.x + 1 = c.x) ∧ (c.y + 1 = d.y ∨ d.y + 1 = c.y)

/-- `g.Move c d w`: one may move from `c` to the walkable cell `d` at cost `w`. A diagonal move
passes beside two cells, and both have to be walkable. -/
inductive Move (g : WalkGrid) : Cell → Cell → Nat → Prop
  /-- A move along a row or a column. -/
  | straight {c d : Cell} : Beside c d → g.walkable d = true → Move g c d straightCost
  /-- A move along a diagonal. -/
  | diagonal {c d : Cell} : Across c d → g.walkable d = true →
      g.walkable ⟨d.x, c.y⟩ = true → g.walkable ⟨c.x, d.y⟩ = true → Move g c d diagonalCost

/-- `g.Path c d n`: a route from `c` to `d` of total cost `n` exists. -/
inductive Path (g : WalkGrid) : Cell → Cell → Nat → Prop
  /-- A walkable cell is reached from itself at no cost. -/
  | here {c : Cell} : g.walkable c = true → Path g c c 0
  /-- A route may be extended by a move at its end. -/
  | snoc {c d e : Cell} {n w : Nat} : Path g c d n → Move g d e w → Path g c e (n + w)

end WalkGrid

end RideProof
