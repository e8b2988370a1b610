import Disc.Lib.Memory

/-!
# Filling a buffer

A text is often put together in an allocated buffer, one `memcpy` behind the other, with the
length worked out before. If the pieces have room in it they are in the buffer one behind the
other, with what was behind them left alone.
-/

namespace Disc.Lib

/-- Copy the strings into the buffer from `p` on; the position behind the last of them. -/
def copyAll : List (List UInt8) → List UInt8 → Nat → Res (List UInt8 × Nat)
  | [], buf, p => .ok (buf, p)
  | s :: ss, buf, p => do
      let buf ← Res.ofAccess (poke buf p s)
      copyAll ss buf (p + s.length)

/-- An allocation of `n` bytes; nothing is known about what is in it. -/
def fresh (junk : Nat → UInt8) (n : Nat) : List UInt8 := (List.range n).map junk

@[simp] theorem length_fresh (junk : Nat → UInt8) (n : Nat) : (fresh junk n).length = n := by
  rw [fresh, List.length_map, List.length_range]

/-- Overwriting behind a prefix: the prefix grows. -/
theorem poke_behind (pre bs rest : List UInt8) (h : bs.length ≤ rest.length) :
    poke (pre ++ rest) pre.length bs = some (pre ++ bs ++ rest.drop bs.length) := by
  have hpoke := poke_append pre (rest.take bs.length) bs (rest.drop bs.length) (by
    rw [List.length_take]
    omega)
  rwa [List.append_assoc, List.take_append_drop] at hpoke

/-- Overwriting the front. -/
theorem poke_front (bs rest : List UInt8) (h : bs.length ≤ rest.length) :
    poke rest 0 bs = some (bs ++ rest.drop bs.length) := poke_behind [] bs rest h

/-- **Pieces that have room** follow each other behind the prefix, and the rest stays. -/
theorem copyAll_eq (ss : List (List UInt8)) (pre rest : List UInt8)
    (h : ss.flatten.length ≤ rest.length) :
    copyAll ss (pre ++ rest) pre.length
      = .ok (pre ++ ss.flatten ++ rest.drop ss.flatten.length, (pre ++ ss.flatten).length) := by
  induction ss generalizing pre rest with
  | nil => simp [copyAll]
  | cons s ss ih =>
      rw [List.flatten_cons, List.length_append] at h
      have hnext := ih (pre ++ s) (rest.drop s.length) (by
        rw [List.length_drop]
        omega)
      rw [copyAll, poke_behind pre s rest (by omega)]
      show copyAll ss (pre ++ s ++ rest.drop s.length) (pre.length + s.length) = _
      rw [← List.length_append, hnext, List.flatten_cons, List.drop_drop, List.length_append]
      simp only [List.append_assoc, List.length_append, Nat.add_assoc]

/-- Into an allocation that is large enough. -/
theorem copyAll_fresh (junk : Nat → UInt8) (ss : List (List UInt8)) (n : Nat)
    (h : ss.flatten.length ≤ n) :
    copyAll ss (fresh junk n) 0
      = .ok (ss.flatten ++ (fresh junk n).drop ss.flatten.length, ss.flatten.length) := by
  have hcopy := copyAll_eq ss [] (fresh junk n) (by
    rw [length_fresh]
    exact h)
  simpa using hcopy

end Disc.Lib
