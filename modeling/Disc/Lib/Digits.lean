import Mathlib.Data.Nat.Basic
import Mathlib.Tactic.Ring

/-!
# Numerals without leading zeros

A number is written in base `b` with at most `k` digits, most significant first: all `k`
of them (`fixed`), or without the leading zeros but with one digit at least (`numeral`).
The two have the same value, which is the number itself if it has no more than `k`
digits, so a numeral determines its number.
-/

namespace Disc.Lib

variable {b k n : Nat}

/-- The `k` low digits of `n`, most significant first. -/
def fixed (b : Nat) : Nat → Nat → List Nat
  | 0, _ => []
  | k + 1, n => n / b ^ k % b :: fixed b k n

/-- The number a list of digits stands for. -/
def value (b : Nat) (ds : List Nat) : Nat := ds.foldl (fun a d => a * b + d) 0

/-- The digits from the first one on that is not zero, or a single zero. -/
def numeral (b k n : Nat) : List Nat :=
  match (fixed b k n).dropWhile (· == 0) with
  | [] => [0]
  | d :: ds => d :: ds

@[simp] theorem length_fixed (b k n : Nat) : (fixed b k n).length = k := by
  induction k with
  | zero => rfl
  | succ k ih => simp [fixed, ih]

theorem fixed_lt (hb : 0 < b) : ∀ d ∈ fixed b k n, d < b := by
  induction k with
  | zero => simp [fixed]
  | succ k ih =>
      intro d hd
      rcases List.mem_cons.mp hd with rfl | hd
      · exact Nat.mod_lt _ hb
      · exact ih d hd

/-- The digits beyond the first `k` do not matter. -/
theorem fixed_mod {j : Nat} (hj : k ≤ j) : fixed b k (n % b ^ j) = fixed b k n := by
  induction k with
  | zero => rfl
  | succ k ih =>
      have hd : n % b ^ j / b ^ k % b = n / b ^ k % b := by
        obtain ⟨i, rfl⟩ := Nat.exists_eq_add_of_le hj
        rw [show k + 1 + i = k + (i + 1) by omega, Nat.pow_add, Nat.mod_mul_right_div_self,
          Nat.mod_mod_of_dvd _ (Dvd.intro_left _ (Nat.pow_succ b i).symm)]
      rw [fixed, fixed, hd, ih (by omega)]

theorem foldl_digits (a : Nat) (ds : List Nat) :
    ds.foldl (fun a d => a * b + d) a = a * b ^ ds.length + value b ds := by
  induction ds generalizing a with
  | nil => simp [value]
  | cons d ds ih =>
      simp only [value, List.foldl_cons, List.length_cons]
      rw [ih, ih (0 * b + d)]
      ring

theorem value_cons (d : Nat) (ds : List Nat) : value b (d :: ds) = d * b ^ ds.length + value b ds := by
  rw [value, List.foldl_cons, foldl_digits]
  simp

theorem value_fixed (b k n : Nat) : value b (fixed b k n) = n % b ^ k := by
  induction k with
  | zero => simp [fixed, value, Nat.mod_one]
  | succ k ih =>
      rw [fixed, value_cons, length_fixed, ih, Nat.pow_succ, Nat.mod_mul]
      ring

/-- Leading zeros add nothing. -/
theorem value_dropWhile (ds : List Nat) : value b (ds.dropWhile (· == 0)) = value b ds := by
  induction ds with
  | nil => rfl
  | cons d ds ih =>
      by_cases hd : d = 0
      · rw [List.dropWhile_cons_of_pos (by simp [hd]), ih, value_cons, hd]
        simp
      · rw [List.dropWhile_cons_of_neg (by simp [hd])]

theorem value_numeral (b k n : Nat) : value b (numeral b k n) = n % b ^ k := by
  rw [← value_fixed, ← value_dropWhile (fixed b k n), numeral]
  split
  · rename_i h
    rw [h]
    simp [value]
  · rename_i h
    rw [h]

/-- **A numeral determines its number.** -/
theorem numeral_injective {m : Nat} (hn : n < b ^ k) (hm : m < b ^ k)
    (h : numeral b k n = numeral b k m) : n = m := by
  have hv := congrArg (value b) h
  rwa [value_numeral, value_numeral, Nat.mod_eq_of_lt hn, Nat.mod_eq_of_lt hm] at hv

theorem numeral_ne_nil (b k n : Nat) : numeral b k n ≠ [] := by
  unfold numeral
  split
  · simp
  · simp

theorem numeral_lt (hb : 0 < b) : ∀ d ∈ numeral b k n, d < b := by
  intro d hd
  unfold numeral at hd
  split at hd
  · rw [List.mem_singleton.mp hd]
    exact hb
  · rename_i h
    rw [← h] at hd
    exact fixed_lt hb d ((List.dropWhile_sublist _).subset hd)

theorem length_numeral (hk : 0 < k) : (numeral b k n).length ≤ k := by
  unfold numeral
  split
  · exact hk
  · rename_i h
    rw [← h]
    exact (List.dropWhile_sublist _).length_le.trans_eq (length_fixed b k n)

end Disc.Lib
