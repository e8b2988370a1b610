import Mathlib.Algebra.Group.Nat.Defs
import Mathlib.Data.List.Induction

/-!
# Bytes, words and flat buffers

What a C program does with a buffer: it stores numbers as a few bytes in one of
the two byte orders, reads them back, and overwrites a stretch of memory in
place. Buffers are lists of bytes and a pointer into one is an offset; where the
address of a buffer matters, a `Block` pins it inside a 32-bit address space.

The two facts everything else uses are the round trip `ofBe_be` (and its
little-endian twin), and `poke_append`: overwriting the part of a buffer that
starts where a known prefix ends leaves the prefix alone. The second is what
turns a writer that walks a zeroed buffer with a moving pointer into plain
concatenation.
-/

namespace Disc.Lib

/-! ## Outcomes -/

/--
How a C routine can end. `error` is the routine's own error return; `fault` is an
access outside every object (or through an uninitialised pointer); `diverge` is a
loop that did not end within the steps it was given.
-/
inductive Res (α : Type) where
  | ok (a : α)
  | error
  | fault
  | diverge
deriving Repr, DecidableEq

/-- Run `f` on the result, if there is one. -/
def Res.bind {α β : Type} : Res α → (α → Res β) → Res β
  | .ok a, f => f a
  | .error, _ => .error
  | .fault, _ => .fault
  | .diverge, _ => .diverge

instance : Monad Res where
  pure := .ok
  bind := Res.bind

@[simp] theorem Res.ok_bind {α β : Type} (a : α) (f : α → Res β) :
    (Res.ok a >>= f) = f a := rfl

@[simp] theorem Res.pure_eq {α : Type} (a : α) : (pure a : Res α) = .ok a := rfl

/-- A sequence that ended well did so in both parts. -/
theorem Res.bind_eq_ok {α β : Type} {x : Res α} {f : α → Res β} {b : β}
    (h : (x >>= f) = .ok b) : ∃ a, x = .ok a ∧ f a = .ok b := by
  cases x with
  | ok a => exact ⟨a, rfl, h⟩
  | error => exact absurd h (by nofun)
  | fault => exact absurd h (by nofun)
  | diverge => exact absurd h (by nofun)

theorem Res.bind_congr {α β : Type} {x : Res α} {f g : α → Res β} (h : ∀ a, f a = g a) :
    (x >>= f) = (x >>= g) := by
  cases x with
  | ok a => exact h a
  | error | fault | diverge => rfl

/-- A memory access that fails when the bytes are not there. -/
def Res.ofAccess {α : Type} : Option α → Res α
  | some a => .ok a
  | none => .fault

/-- The result, if the routine came to one. -/
def Res.toOption {α : Type} : Res α → Option α
  | .ok a => some a
  | _ => none

@[simp] theorem Res.ofAccess_some {α : Type} (a : α) : Res.ofAccess (some a) = .ok a := rfl

/-- An access that went well found something. -/
theorem Res.ofAccess_eq_ok {α : Type} {o : Option α} {a : α} (h : Res.ofAccess o = .ok a) :
    o = some a := by
  cases o with
  | some b => exact congrArg some (Res.ok.inj h)
  | none => exact absurd h (by nofun)

/-- The state a routine left is the one it is known to leave. -/
theorem Res.toOption_map_snd {α β : Type} {x : Res (α × β)} {a : α} {b b' : β}
    (hx : x = .ok (a, b)) (h : x.toOption.map Prod.snd = some b') : b = b' := by
  rw [hx] at h
  exact Option.some.inj h

theorem Res.toOption_eq_some {α : Type} {x : Res α} {a : α} (h : x.toOption = some a) :
    x = .ok a := by
  cases x with
  | ok b => exact congrArg Res.ok (Option.some.inj h)
  | error | fault | diverge => exact absurd h (by nofun)

/-! ## Byte orders -/

/-- The `k` low bytes of `n`, most significant first. -/
def be : Nat → Nat → List UInt8
  | 0, _ => []
  | k + 1, n => be k (n / 256) ++ [UInt8.ofNat n]

/-- The number spelt by a list of bytes, most significant first. -/
def ofBe (bs : List UInt8) : Nat := bs.foldl (fun a b => a * 256 + b.toNat) 0

/-- The `k` low bytes of `n`, least significant first. -/
def le (k n : Nat) : List UInt8 := (be k n).reverse

/-- The number spelt by a list of bytes, least significant first. -/
def ofLe (bs : List UInt8) : Nat := ofBe bs.reverse

@[simp] theorem length_be (k n : Nat) : (be k n).length = k := by
  induction k generalizing n with
  | zero => rfl
  | succ k ih => simp [be, ih]

@[simp] theorem length_le (k n : Nat) : (le k n).length = k := by
  simp [le]

theorem ofBe_snoc (bs : List UInt8) (b : UInt8) :
    ofBe (bs ++ [b]) = ofBe bs * 256 + b.toNat := by
  simp [ofBe, List.foldl_append]

theorem ofBe_cons (b : UInt8) (bs : List UInt8) :
    ofBe (b :: bs) = b.toNat * 256 ^ bs.length + ofBe bs := by
  induction bs using List.reverseRecOn with
  | nil => simp [ofBe]
  | append_singleton bs c ih =>
      rw [← List.cons_append, ofBe_snoc, ofBe_snoc, ih, List.length_append, List.length_singleton,
        Nat.pow_succ, Nat.add_mul, Nat.mul_assoc, Nat.add_assoc]

theorem be_ofBe (bs : List UInt8) : be bs.length (ofBe bs) = bs := by
  induction bs using List.reverseRecOn with
  | nil => rfl
  | append_singleton bs b ih =>
      have hb := b.toNat_lt
      rw [ofBe_snoc, List.length_append, List.length_singleton, be]
      rw [show (ofBe bs * 256 + b.toNat) / 256 = ofBe bs by omega, ih]
      have : UInt8.ofNat (ofBe bs * 256 + b.toNat) = b := by
        apply UInt8.toNat_inj.mp
        rw [UInt8.toNat_ofNat']
        omega
      rw [this]

/-- A number that fits survives the trip through its bytes. -/
theorem ofBe_be {k n : Nat} (h : n < 256 ^ k) : ofBe (be k n) = n := by
  induction k generalizing n with
  | zero => simp [be, ofBe]; omega
  | succ k ih =>
      have hq : n / 256 < 256 ^ k := by
        rw [Nat.div_lt_iff_lt_mul (by omega)]
        rwa [Nat.pow_succ] at h
      rw [be, ofBe_snoc, ih hq, UInt8.toNat_ofNat']
      omega

theorem ofLe_le {k n : Nat} (h : n < 256 ^ k) : ofLe (le k n) = n := by
  rw [ofLe, le, List.reverse_reverse, ofBe_be h]

theorem le_ofLe (bs : List UInt8) : le bs.length (ofLe bs) = bs := by
  have := be_ofBe bs.reverse
  rw [List.length_reverse] at this
  rw [le, ofLe, this, List.reverse_reverse]

theorem ofBe_lt (bs : List UInt8) : ofBe bs < 256 ^ bs.length := by
  induction bs using List.reverseRecOn with
  | nil => simp [ofBe]
  | append_singleton bs b ih =>
      have hb := b.toNat_lt
      rw [ofBe_snoc, List.length_append, List.length_singleton, Nat.pow_succ]
      omega

theorem ofLe_lt (bs : List UInt8) : ofLe bs < 256 ^ bs.length := by
  have := ofBe_lt bs.reverse
  rwa [List.length_reverse] at this

theorem ofNat_ofBe_be (x : UInt32) : UInt32.ofNat (ofBe (be 4 x.toNat)) = x := by
  have hx : x.toNat < 256 ^ 4 := x.toNat_lt
  rw [ofBe_be hx, UInt32.ofNat_toNat]

theorem ofNat_ofLe_le (x : UInt32) : UInt32.ofNat (ofLe (le 4 x.toNat)) = x := by
  have hx : x.toNat < 256 ^ 4 := x.toNat_lt
  rw [ofLe_le hx, UInt32.ofNat_toNat]

/-- Four bytes survive the trip through an identifier. -/
theorem le_ofNat_ofLe {bs : List UInt8} (h : bs.length = 4) :
    le 4 (UInt32.ofNat (ofLe bs)).toNat = bs := by
  have hlt := ofLe_lt bs
  rw [h] at hlt
  rw [UInt32.toNat_ofNat_of_lt' (by simpa using hlt)]
  have := le_ofLe bs
  rwa [h] at this

/-! ## Slices and overwriting -/

/-- The `n` bytes from `off` on, or nothing when they are not all inside the buffer. -/
def slice (m : List UInt8) (off n : Nat) : Option (List UInt8) :=
  if off + n ≤ m.length then some ((m.drop off).take n) else none

/-- Overwrite the bytes from `off` on, or nothing when they are not all inside the buffer. -/
def poke (m : List UInt8) (off : Nat) (bs : List UInt8) : Option (List UInt8) :=
  if off + bs.length ≤ m.length then
    some (m.take off ++ bs ++ m.drop (off + bs.length))
  else none

theorem length_slice {m bs : List UInt8} {off n : Nat} (h : slice m off n = some bs) :
    bs.length = n := by
  unfold slice at h
  split at h
  · obtain rfl := Option.some.inj h
    rw [List.length_take, List.length_drop]
    omega
  · exact absurd h (by simp)

/-- Reading a piece right after a known prefix. -/
theorem slice_append (pre bs post : List UInt8) :
    slice (pre ++ bs ++ post) pre.length bs.length = some bs := by
  unfold slice
  rw [if_pos (by simp only [List.length_append]; omega)]
  rw [List.append_assoc, List.drop_left, List.take_left]

/-- Overwriting right after a known prefix leaves the prefix and the rest alone. -/
theorem poke_append (pre old bs post : List UInt8) (h : old.length = bs.length) :
    poke (pre ++ old ++ post) pre.length bs = some (pre ++ bs ++ post) := by
  unfold poke
  rw [if_pos (by simp only [List.length_append]; omega)]
  have h1 : (pre ++ old ++ post).take pre.length = pre := by
    rw [List.append_assoc, List.take_left]
  have h2 : (pre ++ old ++ post).drop (pre.length + bs.length) = post := by
    rw [← h, ← List.length_append, List.drop_left]
  rw [h1, h2]

/-- Overwriting at the end of a known prefix extends it. -/
theorem poke_take {m pre : List UInt8} (h : m.take pre.length = pre) (bs : List UInt8)
    (hle : pre.length + bs.length ≤ m.length) :
    ∃ m', poke m pre.length bs = some m' ∧ m'.length = m.length
      ∧ m'.take (pre ++ bs).length = pre ++ bs := by
  obtain ⟨rest, rfl⟩ : ∃ rest, m = pre ++ rest :=
    ⟨m.drop pre.length, by conv => lhs; rw [← List.take_append_drop pre.length m, h]⟩
  have hr : bs.length ≤ rest.length := by rw [List.length_append] at hle; omega
  refine ⟨pre ++ bs ++ rest.drop bs.length, ?_, ?_, List.take_left⟩
  · have := poke_append pre (rest.take bs.length) bs (rest.drop bs.length)
      (by rw [List.length_take]; omega)
    rwa [List.append_assoc, List.take_append_drop] at this
  · simp only [List.length_append, List.length_drop]
    omega

/-- Writing into a zeroed tail: the written bytes push the zeros back. -/
theorem poke_zeros (pre bs : List UInt8) (n : Nat) :
    poke (pre ++ List.replicate (bs.length + n) 0) pre.length bs
      = some (pre ++ bs ++ List.replicate n 0) := by
  rw [← List.replicate_append_replicate, ← List.append_assoc]
  exact poke_append pre _ bs _ (by simp)

/-! ## Blocks -/

/-- Subtraction of 32-bit unsigned integers. -/
def usub (a b : Nat) : Nat := (a + 2 ^ 32 - b) % 2 ^ 32

theorem usub_eq {a b : Nat} (h : b ≤ a) (ha : a < 2 ^ 32) : usub a b = a - b := by
  unfold usub
  omega

/-- Pointer arithmetic in a 32-bit address space. -/
def padd (a n : Nat) : Nat := (a + n) % 2 ^ 32

theorem padd_eq {a n : Nat} (h : a + n < 2 ^ 32) : padd a n = a + n :=
  Nat.mod_eq_of_lt h

/-- An allocated object: where it lies and what it holds. One past its end is still an address. -/
structure Block where
  /-- Address of the first byte. -/
  addr : Nat
  /-- Contents. -/
  bytes : List UInt8
  /-- The object ends inside the address space. -/
  fits : addr + bytes.length < 2 ^ 32

/-- The `n` bytes at address `a`, when they lie inside the block. -/
def Block.load (b : Block) (a n : Nat) : Option (List UInt8) :=
  if b.addr ≤ a then slice b.bytes (a - b.addr) n else none

/-- Loading a piece that sits right after a known prefix. -/
theorem Block.load_append {b : Block} {pre bs post : List UInt8}
    (h : b.bytes = pre ++ bs ++ post) : b.load (b.addr + pre.length) bs.length = some bs := by
  unfold Block.load
  rw [if_pos (Nat.le_add_right _ _), Nat.add_sub_cancel_left, h]
  exact slice_append pre bs post

/-- What a load at an offset returns. -/
theorem Block.load_eq {b : Block} {j k : Nat} {bs : List UInt8}
    (h : b.load (b.addr + j) k = some bs) : bs = (b.bytes.drop j).take k := by
  unfold Block.load slice at h
  rw [if_pos (Nat.le_add_right _ _), Nat.add_sub_cancel_left] at h
  split at h
  · exact (Option.some.inj h).symm
  · exact absurd h (by simp)

end Disc.Lib
