import Mathlib.Data.List.Basic

/-!
# Hashes that are fed in pieces

A function of a state and of a block of `n` elements is folded over a message. What is fed in
pieces is collected until there is a block. Fed one element at a time, this is a fold, so that
it does not matter how a message is cut; and of a message that is made of whole blocks it is
the fold over these.
-/

namespace Disc.Lib

variable {σ α : Type}

/-- The state behind the last whole block, and what was fed since. -/
@[ext]
structure Absorbing (σ α : Type) where
  state : σ
  pending : List α

/-- One element is fed. -/
def Absorbing.push (f : σ → List α → σ) (n : Nat) (s : Absorbing σ α) (x : α) : Absorbing σ α :=
  if (s.pending ++ [x]).length = n then ⟨f s.state (s.pending ++ [x]), []⟩
  else ⟨s.state, s.pending ++ [x]⟩

/-- A message is fed. -/
def Absorbing.absorb (f : σ → List α → σ) (n : Nat) (s : Absorbing σ α) (xs : List α) :
    Absorbing σ α := xs.foldl (Absorbing.push f n) s

/-- The whole blocks of a message. -/
def blocks (n : Nat) (xs : List α) : List (List α) :=
  (List.range (xs.length / n)).map fun i => (xs.drop (n * i)).take n

variable {f : σ → List α → σ} {n : Nat} {s : Absorbing σ α} {xs ys : List α}

namespace Absorbing

/-- **A message may be cut** anywhere. -/
theorem absorb_append : s.absorb f n (xs ++ ys) = (s.absorb f n xs).absorb f n ys :=
  List.foldl_append

/-- What does not complete a block is collected. -/
theorem absorb_short (h : s.pending.length + xs.length < n) :
    s.absorb f n xs = ⟨s.state, s.pending ++ xs⟩ := by
  induction xs generalizing s with
  | nil => rw [List.append_nil]; rfl
  | cons x xs ih =>
      rw [List.length_cons] at h
      have hlen : (s.pending ++ [x]).length ≠ n := by
        rw [List.length_append, List.length_singleton]
        omega
      have hpush : s.push f n x = ⟨s.state, s.pending ++ [x]⟩ := if_neg hlen
      have hrest := @ih (s.push f n x) (by rw [hpush]; simp; omega)
      rw [hpush] at hrest
      have hcons : s.absorb f n (x :: xs) = (s.push f n x).absorb f n xs := rfl
      rw [hcons, hpush, hrest]
      simp

/-- What completes one is taken in. -/
theorem absorb_full (hx : xs ≠ []) (h : s.pending.length + xs.length = n) :
    s.absorb f n xs = ⟨f s.state (s.pending ++ xs), []⟩ := by
  obtain ⟨ys, x, rfl⟩ := xs.eq_nil_or_concat'.resolve_left hx
  rw [List.length_append, List.length_singleton] at h
  have hys : s.absorb f n ys = ⟨s.state, s.pending ++ ys⟩ := absorb_short (by omega)
  rw [absorb_append, hys]
  have hlen : (s.pending ++ ys ++ [x]).length = n := by
    simp only [List.length_append, List.length_singleton]
    omega
  have hpush : Absorbing.push f n ⟨s.state, s.pending ++ ys⟩ x
      = ⟨f s.state (s.pending ++ ys ++ [x]), []⟩ := if_pos hlen
  rw [List.append_assoc] at hpush
  exact hpush

/-- How much is collected. -/
theorem length_pending (hn : 0 < n) (h : s.pending.length < n) :
    (s.absorb f n xs).pending.length = (s.pending.length + xs.length) % n := by
  induction xs generalizing s with
  | nil => exact (Nat.mod_eq_of_lt h).symm
  | cons x xs ih =>
      have hcons : s.absorb f n (x :: xs) = (s.push f n x).absorb f n xs := rfl
      rw [hcons, List.length_cons]
      by_cases hlen : (s.pending ++ [x]).length = n
      · have hpush : s.push f n x = ⟨f s.state (s.pending ++ [x]), []⟩ := if_pos hlen
        rw [List.length_append, List.length_singleton] at hlen
        rw [hpush, ih (by simpa using hn)]
        have hsum : s.pending.length + (xs.length + 1) = n + xs.length := by omega
        simp only [List.length_nil, Nat.zero_add]
        rw [hsum, Nat.add_mod_left]
      · have hpush : s.push f n x = ⟨s.state, s.pending ++ [x]⟩ := if_neg hlen
        rw [List.length_append, List.length_singleton] at hlen
        rw [hpush, ih (by simp; omega)]
        simp only [List.length_append, List.length_singleton]
        congr 1
        omega

/-- **A message of whole blocks** is the fold over them. -/
theorem absorb_blocks {a : σ} (hn : 0 < n) (h : n ∣ xs.length) :
    absorb f n ⟨a, []⟩ xs = ⟨(blocks n xs).foldl f a, []⟩ := by
  obtain ⟨k, hk⟩ := h
  induction k generalizing xs a with
  | zero =>
      obtain rfl := List.eq_nil_of_length_eq_zero hk
      simp [blocks, absorb]
  | succ k ih =>
      have hle : n ≤ xs.length := by
        rw [hk, Nat.mul_succ]
        omega
      have hdiv : xs.length / n = k + 1 := by rw [hk, Nat.mul_div_cancel_left _ hn]
      have hrest : (xs.drop n).length = n * k := by
        rw [List.length_drop, hk, Nat.mul_succ]
        omega
      have hdiv' : (xs.drop n).length / n = k := by rw [hrest, Nat.mul_div_cancel_left _ hn]
      have hblocks : blocks n xs = xs.take n :: blocks n (xs.drop n) := by
        unfold blocks
        rw [hdiv, hdiv', List.range_succ_eq_map, List.map_cons, List.map_map]
        refine congrArg₂ _ (by simp) (List.map_congr_left fun i _ => ?_)
        simp only [Function.comp_apply, List.drop_drop, Nat.mul_succ, Nat.add_comm]
      have htake : (xs.take n).length = n := by rw [List.length_take]; omega
      have hne : xs.take n ≠ [] := List.ne_nil_of_length_pos (by omega)
      rw [hblocks, List.foldl_cons, ← ih hrest]
      conv => lhs; rw [← List.take_append_drop n xs]
      rw [absorb_append, absorb_full hne (by simpa using htake)]
      rfl

end Absorbing

end Disc.Lib
