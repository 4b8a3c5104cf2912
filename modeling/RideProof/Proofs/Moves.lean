import Mathlib.Tactic.SplitIfs
import RideProof.Grid.Search

/-!
# Moves and the octile distance

* `WalkGrid.mem_moves` — the moves that the search makes are the moves that the rules allow.
* `octile_le_add_of_move` — the octile distance is a consistent estimate: by a move it falls by no
  more than what the move costs.
* `WalkGrid.place_lt`, `WalkGrid.place_inj` — the cells of a grid lie at places of their own.
-/

namespace RideProof

variable {g : WalkGrid} {a c d e : Cell} {n w : Nat}

/-! ## Moves -/

/-- The members of a list with one put in front under a condition. -/
theorem mem_consIf {α : Type} {b : Bool} {x a : α} {l : List α} :
    x ∈ consIf b a l ↔ (b = true ∧ x = a) ∨ x ∈ l := by
  unfold consIf
  split_ifs with hb
  · rw [List.mem_cons, hb, eq_self, true_and]
  · rw [eq_false hb, false_and, false_or]

namespace WalkGrid

/-- A move leads to a walkable cell. -/
theorem Move.walkable (h : g.Move c d w) : g.walkable d = true := by
  cases h with
  | straight _ hd => exact hd
  | diagonal _ hd => exact hd

/-- A move costs something. -/
theorem Move.cost_pos (h : g.Move c d w) : 0 < w := by
  cases h <;> decide

/-- No move costs more than a diagonal one. -/
theorem Move.cost_le (h : g.Move c d w) : w ≤ diagonalCost := by
  cases h <;> decide

/-- **The moves of the search are the moves that are allowed.** -/
theorem mem_moves : (d, w) ∈ g.moves c ↔ g.Move c d w := by
  obtain ⟨cx, cy⟩ := c
  obtain ⟨dx, dy⟩ := d
  simp only [moves, mem_consIf, List.not_mem_nil, or_false, Prod.mk.injEq, Pair.mk.injEq,
    Bool.and_eq_true, decide_eq_true_eq]
  constructor
  · -- the cells around `c`, row by row
    rintro (⟨⟨⟨⟨hx, hwest⟩, hy, hnorth⟩, hd⟩, ⟨rfl, rfl⟩, rfl⟩ | ⟨⟨hy, hd⟩, ⟨rfl, rfl⟩, rfl⟩ |
      ⟨⟨⟨heast, hy, hnorth⟩, hd⟩, ⟨rfl, rfl⟩, rfl⟩ | ⟨⟨hx, hd⟩, ⟨rfl, rfl⟩, rfl⟩ |
      ⟨hd, ⟨rfl, rfl⟩, rfl⟩ | ⟨⟨⟨⟨hx, hwest⟩, hsouth⟩, hd⟩, ⟨rfl, rfl⟩, rfl⟩ |
      ⟨hd, ⟨rfl, rfl⟩, rfl⟩ | ⟨⟨⟨heast, hsouth⟩, hd⟩, ⟨rfl, rfl⟩, rfl⟩)
    · exact .diagonal ⟨.inr (Nat.sub_add_cancel hx), .inr (Nat.sub_add_cancel hy)⟩ hd hwest hnorth
    · exact .straight (.inr ⟨rfl, .inr (Nat.sub_add_cancel hy)⟩) hd
    · exact .diagonal ⟨.inl rfl, .inr (Nat.sub_add_cancel hy)⟩ hd heast hnorth
    · exact .straight (.inl ⟨rfl, .inr (Nat.sub_add_cancel hx)⟩) hd
    · exact .straight (.inl ⟨rfl, .inl rfl⟩) hd
    · exact .diagonal ⟨.inr (Nat.sub_add_cancel hx), .inl rfl⟩ hd hwest hsouth
    · exact .straight (.inr ⟨rfl, .inl rfl⟩) hd
    · exact .diagonal ⟨.inl rfl, .inl rfl⟩ hd heast hsouth
  · intro h
    cases h with
    | straight hcd hd =>
      obtain ⟨hy, hx | hx⟩ | ⟨hx, hy | hy⟩ := hcd <;> dsimp only at hx hy <;> subst hx hy <;>
        simp [hd]
    | diagonal hcd hd hside hside' =>
      obtain ⟨hx | hx, hy | hy⟩ := hcd <;> dsimp only at hx hy <;> subst hx hy <;>
        simp_all

/-- A route starts on a walkable cell. -/
theorem Path.walkable_left (h : g.Path c d n) : g.walkable c = true := by
  induction h with
  | here hc => exact hc
  | snoc _ _ ih => exact ih

/-- A route ends on a walkable cell. -/
theorem Path.walkable_right (h : g.Path c d n) : g.walkable d = true := by
  cases h with
  | here hc => exact hc
  | snoc _ hmove => exact hmove.walkable

/-- What no move raises by more than its cost undercuts every route. -/
theorem Path.le_of_potential (f : Cell → Nat) (hstart : f c = 0)
    (hmove : ∀ d e w, g.walkable d = true → g.Move d e w → f e ≤ f d + w) (h : g.Path c d n) :
    f d ≤ n := by
  induction h with
  | here _ => exact Nat.le_of_eq hstart
  | snoc hroute hlast ih =>
    exact Nat.le_trans (hmove _ _ _ hroute.walkable_right hlast) (Nat.add_le_add_right ih _)

/-! ## Places -/

/-- A grid contains the cells with both coordinates below its side. -/
theorem contains_iff : g.contains c = true ↔ c.x < g.side ∧ c.y < g.side := by
  rw [contains, Bool.and_eq_true, decide_eq_true_eq, decide_eq_true_eq]

/-- A walkable cell is one of the grid. -/
theorem contains_of_walkable (h : g.walkable c = true) : g.contains c = true :=
  (Bool.and_eq_true_iff.mp h).1

/-- The coordinates of a walkable cell are below the side of the grid. -/
theorem lt_side_of_walkable (h : g.walkable c = true) : c.x < g.side ∧ c.y < g.side :=
  contains_iff.mp (contains_of_walkable h)

/-- The place of a cell of the grid lies in its list of cells. -/
theorem place_lt_of_contains (h : g.contains c = true) : g.place c < g.side * g.side := by
  obtain ⟨hx, hy⟩ := contains_iff.mp h
  calc c.y * g.side + c.x < c.y * g.side + g.side := Nat.add_lt_add_left hx _
    _ = (c.y + 1) * g.side := (Nat.succ_mul _ _).symm
    _ ≤ g.side * g.side := Nat.mul_le_mul_right _ hy

/-- The place of a walkable cell lies in the list of cells. -/
theorem place_lt (h : g.walkable c = true) : g.place c < g.side * g.side :=
  place_lt_of_contains (contains_of_walkable h)

/-- Cells in the columns of the grid have different places. -/
theorem place_eq_iff (hc : c.x < g.side) (hd : d.x < g.side) : g.place c = g.place d ↔ c = d := by
  constructor
  · intro h
    have hx : c.x = d.x := by
      simpa only [place, Nat.mul_add_mod_of_lt hc, Nat.mul_add_mod_of_lt hd]
        using congrArg (· % g.side) h
    have hy : c.y * g.side = d.y * g.side := by
      unfold place at h
      omega
    exact Pair.ext hx (Nat.eq_of_mul_eq_mul_right (Nat.zero_lt_of_lt hc) hy)
  · rintro rfl
    rfl

/-- Walkable cells have different places. -/
theorem place_inj (hc : g.walkable c = true) (hd : g.walkable d = true) :
    g.place c = g.place d ↔ c = d :=
  place_eq_iff (lt_side_of_walkable hc).1 (lt_side_of_walkable hd).1

end WalkGrid

/-! ## The octile distance -/

/-- A cell is at no octile distance from itself. -/
@[simp] theorem octile_self : octile c c = 0 := by simp [octile, octileSpan]

/-- Neighbours on a line are equally far from a point, up to one. -/
theorem distance_le_succ {a b b' : Nat} (h : b + 1 = b' ∨ b' + 1 = b) :
    (a - b') + (b' - a) ≤ (a - b) + (b - a) + 1 := by
  omega

/-- The octile distance does not tell rows from columns. -/
theorem octileSpan_comm (m n : Nat) : octileSpan m n = octileSpan n m := by
  unfold octileSpan
  rw [Nat.max_comm, Nat.min_comm]

/-- One more column or row adds no more to the octile distance than a straight move costs. -/
theorem octileSpan_le_straight {m m' n : Nat} (h : m' ≤ m + 1) :
    octileSpan m' n ≤ octileSpan m n + WalkGrid.straightCost := by
  simp only [octileSpan, WalkGrid.straightCost, WalkGrid.diagonalCost]
  omega

/-- One more column and row add no more to the octile distance than a diagonal move costs. -/
theorem octileSpan_le_diagonal {m m' n n' : Nat} (hm : m' ≤ m + 1) (hn : n' ≤ n + 1) :
    octileSpan m' n' ≤ octileSpan m n + WalkGrid.diagonalCost := by
  simp only [octileSpan, WalkGrid.straightCost, WalkGrid.diagonalCost]
  omega

/-- By a move the octile distance falls by no more than what the move costs. -/
theorem octile_le_add_of_move (h : g.Move d e w) : octile c e ≤ octile c d + w := by
  unfold octile
  cases h with
  | straight hde _ =>
    -- one of the two distances stays
    obtain ⟨hy, hx⟩ | ⟨hx, hy⟩ := hde
    · rw [hy]
      exact octileSpan_le_straight (distance_le_succ hx)
    · rw [hx, octileSpan_comm _ (_ + _), octileSpan_comm _ (c.y - d.y + _)]
      exact octileSpan_le_straight (distance_le_succ hy)
  | diagonal hde _ _ _ =>
    exact octileSpan_le_diagonal (distance_le_succ hde.1) (distance_le_succ hde.2)

/-- Within a grid the octile distance is less than the length of a diagonal. -/
theorem octile_add_le_of_walkable (hc : g.walkable c = true) (hd : g.walkable d = true) :
    octile c d + WalkGrid.diagonalCost ≤ WalkGrid.diagonalCost * g.side := by
  obtain ⟨hcx, hcy⟩ := WalkGrid.lt_side_of_walkable hc
  obtain ⟨hdx, hdy⟩ := WalkGrid.lt_side_of_walkable hd
  simp only [octile, octileSpan, WalkGrid.straightCost, WalkGrid.diagonalCost]
  omega

end RideProof
