/-!
# Heaps

A leftist heap keeps elements so that a first one, under an order `le`, is at hand. The right spine
of each node is no longer than its left one, and two heaps are merged along their right spines.

* `Heap.insert`, `Heap.pop?` — put an element in, and take a first one out.
* `Heap.Mem` — the elements of a heap, and `Heap.size`, their number.
* `Heap.Ordered` — no element comes before the one above it. Putting in and taking out keep the
  order (`Heap.ordered_insert`, `Heap.ordered_of_pop?`), and what is taken out comes first
  (`Heap.le_of_pop?`).
-/

namespace RideProof

/-- A heap, each node with the length of its right spine. -/
inductive Heap (α : Type)
  /-- The heap without elements. -/
  | empty
  /-- An element above two heaps. -/
  | node (rank : Nat) (top : α) (left right : Heap α)

namespace Heap

variable {α : Type} {le : α → α → Bool} {a b x : α} {h k : Heap α}

/-- The length of the right spine. -/
def rank : Heap α → Nat
  | empty => 0
  | node rank _ _ _ => rank

/-- The number of elements. -/
def size : Heap α → Nat
  | empty => 0
  | node _ _ left right => left.size + right.size + 1

/-- An element above two heaps, the one with the longer right spine to the left. -/
def join (a : α) (h k : Heap α) : Heap α :=
  if k.rank ≤ h.rank then node (k.rank + 1) a h k else node (h.rank + 1) a k h

/-- All elements of two heaps. -/
def merge (le : α → α → Bool) : Heap α → Heap α → Heap α
  | empty, k => k
  | h, empty => h
  | node r a left right, node s b left' right' =>
    if le a b then join a left (merge le right (node s b left' right'))
    else join b left' (merge le (node r a left right) right')
  termination_by h k => h.size + k.size
  decreasing_by
    · simp only [size]
      omega
    · simp only [size]
      omega

/-- Put an element in. -/
def insert (le : α → α → Bool) (a : α) (h : Heap α) : Heap α := merge le (node 1 a empty empty) h

/-- Take a first element out. -/
def pop? (le : α → α → Bool) : Heap α → Option (α × Heap α)
  | empty => none
  | node _ a left right => some (a, merge le left right)

/-- The elements of a heap. -/
def Mem (x : α) : Heap α → Prop
  | empty => False
  | node _ a left right => x = a ∨ Mem x left ∨ Mem x right

/-- What is in a heap. -/
instance : Membership α (Heap α) := ⟨fun h x => Mem x h⟩

/-- No element comes before the one above it. -/
def Ordered (le : α → α → Bool) : Heap α → Prop
  | empty => True
  | node _ a left right =>
    (∀ x, x ∈ left ∨ x ∈ right → le a x = true) ∧ left.Ordered le ∧ right.Ordered le

/-! ## Elements -/

/-- Nothing is in an empty heap. -/
@[simp] theorem not_mem_empty : ¬ x ∈ (empty : Heap α) := id

/-- In a node are its top and what is in both parts. -/
@[simp] theorem mem_node {r : Nat} : x ∈ node r a h k ↔ x = a ∨ x ∈ h ∨ x ∈ k := Iff.rfl

/-- In a joined heap are its top and what is in both parts. -/
@[simp] theorem mem_join : x ∈ join a h k ↔ x = a ∨ x ∈ h ∨ x ∈ k := by
  unfold join
  split
  · exact mem_node
  · rw [mem_node, or_comm (a := x ∈ k)]

/-- Merging keeps the elements of both heaps. -/
theorem mem_merge : x ∈ merge le h k ↔ x ∈ h ∨ x ∈ k := by
  fun_induction merge le h k with
  | case1 k => simp
  | case2 h => simp
  | case3 r a left right s b left' right' hle ih =>
    rw [mem_join, ih, mem_node, mem_node]
    grind
  | case4 r a left right s b left' right' hle ih =>
    rw [mem_join, ih, mem_node, mem_node]
    grind

/-- Into a heap one more is put. -/
theorem mem_insert : x ∈ insert le a h ↔ x = a ∨ x ∈ h := by simp [insert, mem_merge]

/-- A joined heap counts its top and both parts. -/
theorem size_join : (join a h k).size = h.size + k.size + 1 := by
  unfold join
  split
  · rfl
  · rw [size, Nat.add_comm k.size]

/-- A merged heap counts both parts. -/
theorem size_merge : (merge le h k).size = h.size + k.size := by
  fun_induction merge le h k with
  | case1 k => simp [size]
  | case2 h => simp [size]
  | case3 r a left right s b left' right' hle ih =>
    rw [size_join, ih, size, size]
    omega
  | case4 r a left right s b left' right' hle ih =>
    rw [size_join, ih, size, size]
    omega

/-- Taking an element out leaves one element fewer. -/
theorem size_lt_of_pop? (hpop : h.pop? le = some (a, k)) : k.size < h.size := by
  cases h with
  | empty => cases hpop
  | node r b left right =>
    cases hpop
    rw [size_merge, size]
    exact Nat.lt_succ_self _

/-- The elements are the one that is taken out, and the others. -/
theorem mem_iff_of_pop? (hpop : h.pop? le = some (a, k)) : x ∈ h ↔ x = a ∨ x ∈ k := by
  cases h with
  | empty => cases hpop
  | node r b left right =>
    cases hpop
    rw [mem_node, mem_merge]

/-- A heap that nothing can be taken out of has no elements. -/
theorem not_mem_of_pop? (hpop : h.pop? le = none) : ¬ x ∈ h := by
  cases h with
  | empty => exact id
  | node r b left right => cases hpop

/-! ## Order -/

/-- A heap joined under a top that comes first is in order. -/
theorem ordered_join (hfirst : ∀ x, x ∈ h ∨ x ∈ k → le a x = true) (hh : h.Ordered le)
    (hk : k.Ordered le) : (join a h k).Ordered le := by
  unfold join
  split
  · exact ⟨hfirst, hh, hk⟩
  · exact ⟨fun x hx => hfirst x hx.symm, hk, hh⟩

/-- The element that is taken out comes before all others. -/
theorem le_of_pop? (hpop : h.pop? le = some (a, k)) (hh : h.Ordered le) (hx : x ∈ k) :
    le a x = true := by
  cases h with
  | empty => cases hpop
  | node r b left right =>
    cases hpop
    exact hh.1 x (mem_merge.mp hx)

section

variable (htrans : ∀ a b c, le a b = true → le b c = true → le a c = true)
  (htotal : ∀ a b, le a b = false → le b a = true)

include htrans htotal

/-- Merging keeps heaps in order. -/
theorem ordered_merge (hh : h.Ordered le) (hk : k.Ordered le) : (merge le h k).Ordered le := by
  fun_induction merge le h k with
  | case1 k => exact hk
  | case2 h => exact hh
  | case3 r a left right s b left' right' hle ih =>
    refine ordered_join ?_ hh.2.1 (ih hh.2.2 hk)
    intro x hx
    rw [mem_merge, mem_node] at hx
    rcases hx with hx | hx | rfl | hx
    · exact hh.1 x (.inl hx)
    · exact hh.1 x (.inr hx)
    · exact hle
    · exact htrans a b x hle (hk.1 x hx)
  | case4 r a left right s b left' right' hle ih =>
    have hle' : le b a = true := htotal a b (Bool.eq_false_iff.mpr hle)
    refine ordered_join ?_ hk.2.1 (ih hh hk.2.2)
    intro x hx
    rw [mem_merge, mem_node] at hx
    rcases hx with hx | (rfl | hx) | hx
    · exact hk.1 x (.inl hx)
    · exact hle'
    · exact htrans b a x hle' (hh.1 x hx)
    · exact hk.1 x (.inr hx)

/-- Putting an element in keeps a heap in order. -/
theorem ordered_insert (a : α) (hh : h.Ordered le) : (insert le a h).Ordered le :=
  ordered_merge htrans htotal ⟨fun _ hx => absurd hx (not_or_intro id id), trivial, trivial⟩ hh

/-- Taking an element out keeps a heap in order. -/
theorem ordered_of_pop? (hpop : h.pop? le = some (a, k)) (hh : h.Ordered le) : k.Ordered le := by
  cases h with
  | empty => cases hpop
  | node r b left right =>
    cases hpop
    exact ordered_merge htrans htotal hh.2.1 hh.2.2

end

end Heap

end RideProof
