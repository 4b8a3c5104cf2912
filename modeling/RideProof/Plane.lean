/-!
# Pairs of coordinates

* `Pair α` — two coordinates, `x` and `y`, added and subtracted one by one.
* `Point` — a position, or a velocity, on the map. The map is a torus: each coordinate is a
  32-bit word whose whole range spans the map once, so sums and differences wrap.
-/

namespace RideProof

/-- Two coordinates of one kind. -/
structure Pair (α : Type) where
  /-- The horizontal coordinate. -/
  x : α
  /-- The vertical coordinate. -/
  y : α
  deriving DecidableEq, Repr, Inhabited

/-- A position or velocity on the torus of 32-bit words. -/
abbrev Point := Pair Int32

namespace Pair

variable {α β γ : Type}

/-- Two pairs with equal coordinates are equal. -/
@[ext] theorem ext {p q : Pair α} (hx : p.x = q.x) (hy : p.y = q.y) : p = q := by
  cases p
  cases q
  simp_all

/-- Apply a function to both coordinates. -/
def map (f : α → β) (p : Pair α) : Pair β := ⟨f p.x, f p.y⟩

/-- Combine two pairs coordinate by coordinate. -/
def zipWith (f : α → β → γ) (p : Pair α) (q : Pair β) : Pair γ := ⟨f p.x q.x, f p.y q.y⟩

/-- Pairs are added coordinate by coordinate. -/
instance [Add α] : Add (Pair α) := ⟨zipWith (· + ·)⟩

/-- Pairs are subtracted coordinate by coordinate. -/
instance [Sub α] : Sub (Pair α) := ⟨zipWith (· - ·)⟩

/-- The first coordinate of a pair that a function is applied to. -/
@[simp] theorem map_x (f : α → β) (p : Pair α) : (p.map f).x = f p.x := rfl

/-- The second coordinate of a pair that a function is applied to. -/
@[simp] theorem map_y (f : α → β) (p : Pair α) : (p.map f).y = f p.y := rfl

/-- The first coordinate of a sum. -/
@[simp] theorem add_x [Add α] (p q : Pair α) : (p + q).x = p.x + q.x := rfl

/-- The second coordinate of a sum. -/
@[simp] theorem add_y [Add α] (p q : Pair α) : (p + q).y = p.y + q.y := rfl

/-- The first coordinate of a difference. -/
@[simp] theorem sub_x [Sub α] (p q : Pair α) : (p - q).x = p.x - q.x := rfl

/-- The second coordinate of a difference. -/
@[simp] theorem sub_y [Sub α] (p q : Pair α) : (p - q).y = p.y - q.y := rfl

end Pair

end RideProof
