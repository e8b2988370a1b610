import Mathlib.Algebra.BigOperators.Group.List.Basic
import Mathlib.Algebra.GroupWithZero.Nat

/-!
# An interval cut into pieces

A stretch of addresses is cut into pieces that lie one behind the other: each piece `x` begins
at `lo x`, where the piece before it ends, and is `len x` long. What is done to such a cutting
replaces one run of pieces by another that covers the same addresses, so there is one
structural lemma, `Tiles.splice`. Two pieces of a cutting never overlap.
-/

namespace Disc.Lib

variable {α : Type} {lo len : α → Nat}

/-- The pieces `xs` cover the addresses from `a` to `b`, in this order. -/
def Tiles (lo len : α → Nat) : Nat → List α → Nat → Prop
  | a, [], b => a = b
  | a, x :: xs, b => lo x = a ∧ Tiles lo len (a + len x) xs b

variable {a b : Nat} {xs ys ms ns : List α} {x y : α}

theorem Tiles.nil : Tiles lo len a [] a := rfl

theorem tiles_append :
    Tiles lo len a (xs ++ ys) b ↔ ∃ m, Tiles lo len a xs m ∧ Tiles lo len m ys b := by
  induction xs generalizing a with
  | nil => simp [Tiles]
  | cons x xs ih => simp [Tiles, ih, and_assoc]

/-- The lengths of the pieces add up. -/
theorem Tiles.sum (h : Tiles lo len a xs b) : a + (xs.map len).sum = b := by
  induction xs generalizing a with
  | nil => exact h
  | cons x xs ih =>
      have hx := ih h.2
      simp only [List.map_cons, List.sum_cons]
      omega

/-- There are not too many pieces of a certain length. -/
theorem Tiles.length_le {k : Nat} (h : Tiles lo len a xs b) (hk : ∀ x ∈ xs, k ≤ len x) :
    a + k * xs.length ≤ b := by
  induction xs generalizing a with
  | nil => exact Nat.le_of_eq h
  | cons x xs ih =>
      have hx := hk x List.mem_cons_self
      have hxs := ih h.2 fun y hy => hk y (List.mem_cons_of_mem _ hy)
      rw [List.length_cons, Nat.mul_succ]
      omega

theorem Tiles.le (h : Tiles lo len a xs b) : a ≤ b := by
  have := h.sum
  omega

/-- A piece lies inside. -/
theorem Tiles.bounds (h : Tiles lo len a xs b) (hx : x ∈ xs) : a ≤ lo x ∧ lo x + len x ≤ b := by
  obtain ⟨us, vs, rfl⟩ := List.append_of_mem hx
  obtain ⟨m, hus, hlo, hvs⟩ := tiles_append.mp h
  have hle := hus.le
  have hge := hvs.le
  omega

/-- The pieces are in order. -/
theorem Tiles.pairwise (h : Tiles lo len a xs b) :
    xs.Pairwise fun x y => lo x + len x ≤ lo y := by
  induction xs generalizing a with
  | nil => exact .nil
  | cons x xs ih =>
      refine List.pairwise_cons.mpr ⟨fun y hy => ?_, ih h.2⟩
      have hlo := h.1
      have hb := h.2.bounds hy
      omega

/-- **Two pieces** are the same, or one ends before the other begins. -/
theorem Tiles.apart (h : Tiles lo len a xs b) (hx : x ∈ xs) (hy : y ∈ xs) :
    x = y ∨ lo x + len x ≤ lo y ∨ lo y + len y ≤ lo x := by
  induction xs generalizing a with
  | nil => exact absurd hx (by simp)
  | cons z xs ih =>
      have hlo := h.1
      rcases List.mem_cons.mp hx with hxz | hxs <;> rcases List.mem_cons.mp hy with hyz | hys
      · exact .inl (hxz.trans hyz.symm)
      · have hb := h.2.bounds hys
        rw [hxz]
        omega
      · have hb := h.2.bounds hxs
        rw [hyz]
        omega
      · exact ih h.2 hxs hys

/-- Where a run of pieces lies does not depend on what is around it. -/
theorem Tiles.run {p q : Nat} (h : Tiles lo len a (xs ++ ms ++ ys) b) (hne : ms ≠ [])
    (hms : Tiles lo len p ms q) : Tiles lo len a xs p ∧ Tiles lo len q ys b := by
  obtain ⟨q', hxm, hys⟩ := tiles_append.mp h
  obtain ⟨p', hxs, hms'⟩ := tiles_append.mp hxm
  have hp : p' = p := by
    cases ms with
    | nil => exact absurd rfl hne
    | cons x ms => exact hms'.1.symm.trans hms.1
  have hq : q' = q := by
    have h1 := hms.sum
    have h2 := hms'.sum
    omega
  exact ⟨hp ▸ hxs, hq ▸ hys⟩

/-- **Other pieces** may cover the addresses of a run of pieces. -/
theorem Tiles.splice {p q : Nat} (h : Tiles lo len a (xs ++ ms ++ ys) b) (hne : ms ≠ [])
    (hms : Tiles lo len p ms q) (hns : Tiles lo len p ns q) :
    Tiles lo len a (xs ++ ns ++ ys) b := by
  obtain ⟨hxs, hys⟩ := h.run hne hms
  exact tiles_append.mpr ⟨q, tiles_append.mpr ⟨p, hxs, hns⟩, hys⟩

/-- The other pieces lie outside of a run of pieces. -/
theorem Tiles.outside {p q : Nat} (h : Tiles lo len a (xs ++ ms ++ ys) b) (hne : ms ≠ [])
    (hms : Tiles lo len p ms q) (hx : x ∈ xs ++ ys) : lo x + len x ≤ p ∨ q ≤ lo x := by
  obtain ⟨hxs, hys⟩ := h.run hne hms
  rcases List.mem_append.mp hx with hx | hx
  · exact .inl (hxs.bounds hx).2
  · exact .inr (hys.bounds hx).1

/-- The piece behind another one begins where that one ends. -/
theorem Tiles.next (h : Tiles lo len a (xs ++ x :: y :: ys) b) : lo y = lo x + len x := by
  obtain ⟨m, -, hlo, hy, -⟩ := tiles_append.mp h
  omega

/-- The last piece ends where all do. -/
theorem Tiles.last (h : Tiles lo len a (xs ++ [x]) b) : lo x + len x = b := by
  obtain ⟨m, -, hlo, hb⟩ := tiles_append.mp h
  have hb : m + len x = b := hb
  omega

end Disc.Lib
