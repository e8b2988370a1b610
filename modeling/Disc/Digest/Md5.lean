import Disc.Lib.Absorb
import Disc.Lib.Text
import Disc.Msg.Encode

/-!
# MD5

`md5.c`. A context holds the state, the number of bits so far, and the bytes that are not yet a
block, in a buffer of 64 of which the rest is old. `MD5Update` fills the buffer, takes in what
blocks there are, and keeps the rest; `MD5Final` feeds the padding and the number of bits to it.

A `UINT4` is an `unsigned long` and has four bytes here, as have pointers.
-/

namespace Disc.Digest

open Disc.Lib

/-! ## The code -/

/-- `state` of an `MD5_CTX`. -/
structure Md5State where
  a : UInt32
  b : UInt32
  c : UInt32
  d : UInt32
deriving Repr, DecidableEq

/-- `ROTATE_LEFT`. -/
def rotateLeft (x n : UInt32) : UInt32 := (x <<< n) ||| (x >>> (32 - n))

/-- `FF`. -/
def ff (a b c d x s ac : UInt32) : UInt32 :=
  rotateLeft (a + ((b &&& c) ||| (~~~b &&& d)) + x + ac) s + b

/-- `GG`. -/
def gg (a b c d x s ac : UInt32) : UInt32 :=
  rotateLeft (a + ((b &&& d) ||| (c &&& ~~~d)) + x + ac) s + b

/-- `HH`. -/
def hh (a b c d x s ac : UInt32) : UInt32 :=
  rotateLeft (a + (b ^^^ c ^^^ d) + x + ac) s + b

/-- `II`. -/
def ii (a b c d x s ac : UInt32) : UInt32 :=
  rotateLeft (a + (c ^^^ (b ||| ~~~d)) + x + ac) s + b

/-- `Decode`: the words of a block. -/
def decode (block : List UInt8) (i : Nat) : UInt32 :=
  UInt32.ofNat (ofLe ((block.drop (4 * i)).take 4))

/-- `Encode`: the bytes of words. -/
def encode (ws : List UInt32) : List UInt8 := ws.flatMap fun w => le 4 w.toNat

/-- `MD5Transform`. -/
def md5Transform (st : Md5State) (block : List UInt8) : Md5State :=
  let x := decode block
  let a := st.a
  let b := st.b
  let c := st.c
  let d := st.d
  -- round 1
  let a := ff a b c d (x 0) 7 0xd76aa478
  let d := ff d a b c (x 1) 12 0xe8c7b756
  let c := ff c d a b (x 2) 17 0x242070db
  let b := ff b c d a (x 3) 22 0xc1bdceee
  let a := ff a b c d (x 4) 7 0xf57c0faf
  let d := ff d a b c (x 5) 12 0x4787c62a
  let c := ff c d a b (x 6) 17 0xa8304613
  let b := ff b c d a (x 7) 22 0xfd469501
  let a := ff a b c d (x 8) 7 0x698098d8
  let d := ff d a b c (x 9) 12 0x8b44f7af
  let c := ff c d a b (x 10) 17 0xffff5bb1
  let b := ff b c d a (x 11) 22 0x895cd7be
  let a := ff a b c d (x 12) 7 0x6b901122
  let d := ff d a b c (x 13) 12 0xfd987193
  let c := ff c d a b (x 14) 17 0xa679438e
  let b := ff b c d a (x 15) 22 0x49b40821
  -- round 2
  let a := gg a b c d (x 1) 5 0xf61e2562
  let d := gg d a b c (x 6) 9 0xc040b340
  let c := gg c d a b (x 11) 14 0x265e5a51
  let b := gg b c d a (x 0) 20 0xe9b6c7aa
  let a := gg a b c d (x 5) 5 0xd62f105d
  let d := gg d a b c (x 10) 9 0x2441453
  let c := gg c d a b (x 15) 14 0xd8a1e681
  let b := gg b c d a (x 4) 20 0xe7d3fbc8
  let a := gg a b c d (x 9) 5 0x21e1cde6
  let d := gg d a b c (x 14) 9 0xc33707d6
  let c := gg c d a b (x 3) 14 0xf4d50d87
  let b := gg b c d a (x 8) 20 0x455a14ed
  let a := gg a b c d (x 13) 5 0xa9e3e905
  let d := gg d a b c (x 2) 9 0xfcefa3f8
  let c := gg c d a b (x 7) 14 0x676f02d9
  let b := gg b c d a (x 12) 20 0x8d2a4c8a
  -- round 3
  let a := hh a b c d (x 5) 4 0xfffa3942
  let d := hh d a b c (x 8) 11 0x8771f681
  let c := hh c d a b (x 11) 16 0x6d9d6122
  let b := hh b c d a (x 14) 23 0xfde5380c
  let a := hh a b c d (x 1) 4 0xa4beea44
  let d := hh d a b c (x 4) 11 0x4bdecfa9
  let c := hh c d a b (x 7) 16 0xf6bb4b60
  let b := hh b c d a (x 10) 23 0xbebfbc70
  let a := hh a b c d (x 13) 4 0x289b7ec6
  let d := hh d a b c (x 0) 11 0xeaa127fa
  let c := hh c d a b (x 3) 16 0xd4ef3085
  let b := hh b c d a (x 6) 23 0x4881d05
  let a := hh a b c d (x 9) 4 0xd9d4d039
  let d := hh d a b c (x 12) 11 0xe6db99e5
  let c := hh c d a b (x 15) 16 0x1fa27cf8
  let b := hh b c d a (x 2) 23 0xc4ac5665
  -- round 4
  let a := ii a b c d (x 0) 6 0xf4292244
  let d := ii d a b c (x 7) 10 0x432aff97
  let c := ii c d a b (x 14) 15 0xab9423a7
  let b := ii b c d a (x 5) 21 0xfc93a039
  let a := ii a b c d (x 12) 6 0x655b59c3
  let d := ii d a b c (x 3) 10 0x8f0ccc92
  let c := ii c d a b (x 10) 15 0xffeff47d
  let b := ii b c d a (x 1) 21 0x85845dd1
  let a := ii a b c d (x 8) 6 0x6fa87e4f
  let d := ii d a b c (x 15) 10 0xfe2ce6e0
  let c := ii c d a b (x 6) 15 0xa3014314
  let b := ii b c d a (x 13) 21 0x4e0811a1
  let a := ii a b c d (x 4) 6 0xf7537e82
  let d := ii d a b c (x 11) 10 0xbd3af235
  let c := ii c d a b (x 2) 15 0x2ad7d2bb
  let b := ii b c d a (x 9) 21 0xeb86d391
  ⟨st.a + a, st.b + b, st.c + c, st.d + d⟩

/-- `MD5_CTX`. -/
structure Md5Ctx where
  state : Md5State
  /-- `count[0]`. -/
  count0 : UInt32
  /-- `count[1]`. -/
  count1 : UInt32
  buffer : List UInt8
deriving Repr, DecidableEq

/-- The constants of `MD5Init`. -/
def md5Iv : Md5State := ⟨0x67452301, 0xefcdab89, 0x98badcfe, 0x10325476⟩

/-- `MD5Init`; the buffer is left as it is. -/
def md5Init (buffer : List UInt8) : Md5Ctx := ⟨md5Iv, 0, 0, buffer⟩

/-- The loop of `MD5Update` over the blocks that need not be copied. -/
def md5Loop (input : List UInt8) : Nat → Nat → Md5State → Res (Nat × Md5State)
  | 0, _, _ => .diverge
  | fuel + 1, i, st =>
      if (i + 63) % 2 ^ 32 < input.length then do
        let block ← Res.ofAccess (slice input i 64)
        md5Loop input fuel ((i + 64) % 2 ^ 32) (md5Transform st block)
      else .ok (i, st)

/-- The number of bytes modulo 64. -/
def Md5Ctx.index (ctx : Md5Ctx) : Nat := ((ctx.count0 >>> 3) &&& 0x3F).toNat

/-- The number of bits once `inputLen` bytes more are counted. -/
def Md5Ctx.countBits (ctx : Md5Ctx) (inputLen : UInt32) : Md5Ctx :=
  let count0 := ctx.count0 + (inputLen <<< 3)
  let count1 := if count0 < inputLen <<< 3 then ctx.count1 + 1 else ctx.count1
  { ctx with count0, count1 := count1 + (inputLen >>> 29) }

/-- `MD5Update`. -/
def md5Update (ctx : Md5Ctx) (input : List UInt8) : Res Md5Ctx := do
  let index := ctx.index
  let ctx := ctx.countBits (UInt32.ofNat input.length)
  let partLen := 64 - index
  if partLen ≤ input.length then do
    let head ← Res.ofAccess (slice input 0 partLen)
    let buffer ← Res.ofAccess (poke ctx.buffer index head)
    let (i, state) ← md5Loop input (input.length + 1) partLen (md5Transform ctx.state buffer)
    let rest ← Res.ofAccess (slice input i (input.length - i))
    let buffer ← Res.ofAccess (poke buffer 0 rest)
    return { ctx with state, buffer }
  else do
    let buffer ← Res.ofAccess (poke ctx.buffer index input)
    return { ctx with buffer }

/-- `PADDING`. -/
def md5Padding : List UInt8 := 0x80 :: List.replicate 63 0

/-- `MD5Final`: the digest. The context is zeroed behind it. -/
def md5Final (ctx : Md5Ctx) : Res (List UInt8) := do
  let bits := encode [ctx.count0, ctx.count1]
  let index := ctx.index
  let padLen := if index < 56 then 56 - index else 120 - index
  let padding ← Res.ofAccess (slice md5Padding 0 padLen)
  let ctx ← md5Update ctx padding
  let ctx ← md5Update ctx bits
  return encode [ctx.state.a, ctx.state.b, ctx.state.c, ctx.state.d]

/-! ## What it computes -/

/-- What is put behind a message of `n` bytes, up to a whole block. -/
def md5Pad (n : Nat) : List UInt8 :=
  let index := n % 64
  0x80 :: List.replicate ((if index < 56 then 56 - index else 120 - index) - 1) 0 ++ le 8 (8 * n)

/-- The hash of a message: the state behind all blocks of the message with its padding. -/
def md5 (msg : List UInt8) : Vector UInt8 16 :=
  let st := (blocks 64 (msg ++ md5Pad msg.length)).foldl md5Transform md5Iv
  ⟨(encode [st.a, st.b, st.c, st.d]).toArray, by simp [encode]⟩

/-! ## The count -/

variable {ctx : Md5Ctx} {s : Absorbing Md5State UInt8} {n : Nat} {input : List UInt8}

theorem be_mod (k n : Nat) : be k (n % 256 ^ k) = be k n := by
  induction k generalizing n with
  | zero => rfl
  | succ k ih =>
      have hdiv : n % 256 ^ (k + 1) / 256 = n / 256 % 256 ^ k := by
        rw [Nat.pow_succ, Nat.mul_comm, Nat.mod_mul_right_div_self]
      have hbyte : UInt8.ofNat (n % 256 ^ (k + 1)) = UInt8.ofNat n := by
        refine UInt8.toNat_inj.mp ?_
        rw [UInt8.toNat_ofNat', UInt8.toNat_ofNat']
        exact Nat.mod_mod_of_dvd n (Dvd.intro_left (256 ^ k) (Nat.pow_succ ..).symm)
      rw [be, be, hdiv, hbyte, ih]

/-- The bytes of two words are those of the number they make up. -/
theorem encode_count {c0 c1 : UInt32} {m : Nat} (h : c0.toNat + 2 ^ 32 * c1.toNat = m % 2 ^ 64) :
    encode [c0, c1] = le 8 m := by
  have h0 := c0.toNat_lt
  have hlow : be 4 m = be 4 c0.toNat := by
    rw [← be_mod]
    congr 1
    omega
  have hhigh : be 4 (m / 256 ^ 4) = be 4 c1.toNat := by
    rw [← be_mod]
    congr 1
    omega
  have hsplit : be 8 m = be 4 (m / 256 ^ 4) ++ be 4 m := Msg.be_add 4 4 m
  rw [le, hsplit, hlow, hhigh, List.reverse_append]
  simp [encode, le]

/-- The context stands for what was fed so far, `n` bytes in all. -/
structure Md5Ctx.Fed (ctx : Md5Ctx) (s : Absorbing Md5State UInt8) (n : Nat) : Prop where
  state : ctx.state = s.state
  pending : s.pending.length = n % 64
  buffer : ctx.buffer.length = 64 ∧ ctx.buffer.take s.pending.length = s.pending
  bits : ctx.count0.toNat + 2 ^ 32 * ctx.count1.toNat = 8 * n % 2 ^ 64

theorem Md5Ctx.Fed.index (h : ctx.Fed s n) : ctx.index = n % 64 := by
  have hb := h.bits
  have h0 := ctx.count0.toNat_lt
  have hand : ctx.count0.toNat >>> 3 &&& 63 = ctx.count0.toNat >>> 3 % 64 :=
    Nat.and_two_pow_sub_one_eq_mod _ 6
  unfold Md5Ctx.index
  rw [UInt32.toNat_and, UInt32.toNat_shiftRight]
  show ctx.count0.toNat >>> 3 &&& 63 = n % 64
  rw [hand, Nat.shiftRight_eq_div_pow]
  omega

/-- **The carry** is taken to the second word. -/
theorem Md5Ctx.Fed.countBits (h : ctx.Fed s n) (len : Nat) (hl : len < 2 ^ 32) :
    (ctx.countBits (UInt32.ofNat len)).count0.toNat
      + 2 ^ 32 * (ctx.countBits (UInt32.ofNat len)).count1.toNat = 8 * (n + len) % 2 ^ 64 := by
  have hb := h.bits
  have h0 := ctx.count0.toNat_lt
  have h1 := ctx.count1.toNat_lt
  have hlen : (UInt32.ofNat len).toNat = len := UInt32.toNat_ofNat_of_lt' hl
  have hshl : (UInt32.ofNat len <<< 3).toNat = 8 * len % 2 ^ 32 := by
    rw [UInt32.toNat_shiftLeft, hlen]
    show len <<< 3 % 2 ^ 32 = _
    rw [Nat.shiftLeft_eq]
    omega
  have hshr : (UInt32.ofNat len >>> 29).toNat = len / 2 ^ 29 := by
    rw [UInt32.toNat_shiftRight, hlen]
    show len >>> 29 = _
    rw [Nat.shiftRight_eq_div_pow]
  unfold Md5Ctx.countBits
  dsimp only
  by_cases hcarry : ctx.count0 + UInt32.ofNat len <<< 3 < UInt32.ofNat len <<< 3
  · rw [if_pos hcarry]
    rw [UInt32.lt_iff_toNat_lt, UInt32.toNat_add, hshl] at hcarry
    rw [UInt32.toNat_add, UInt32.toNat_add, UInt32.toNat_add, hshl, hshr, UInt32.toNat_one]
    omega
  · rw [if_neg hcarry]
    rw [UInt32.lt_iff_toNat_lt, UInt32.toNat_add, hshl] at hcarry
    rw [UInt32.toNat_add, UInt32.toNat_add, hshl, hshr]
    omega

/-! ## Feeding -/

theorem slice_eq {m : List UInt8} {off k : Nat} (h : off + k ≤ m.length) :
    Res.ofAccess (slice m off k) = .ok ((m.drop off).take k) := by
  rw [slice, if_pos h]
  rfl

/-- The loop takes in whole blocks, and leaves less than one. -/
theorem md5Loop_eq (hlen : input.length + 64 ≤ 2 ^ 32) (i fuel : Nat) (hi : i ≤ input.length)
    (hf : input.length < i + fuel) (st : Md5State) :
    ∃ j st', md5Loop input fuel i st = .ok (j, st') ∧ j ≤ input.length ∧ input.length < j + 64
      ∧ Absorbing.absorb md5Transform 64 ⟨st, []⟩ (input.drop i)
        = Absorbing.absorb md5Transform 64 ⟨st', []⟩ (input.drop j) := by
  induction fuel generalizing i st with
  | zero => omega
  | succ fuel ih =>
      have hmod : (i + 63) % 2 ^ 32 = i + 63 := Nat.mod_eq_of_lt (by omega)
      rw [md5Loop, hmod]
      by_cases hmore : i + 63 < input.length
      · have hmod' : (i + 64) % 2 ^ 32 = i + 64 := Nat.mod_eq_of_lt (by omega)
        obtain ⟨j, st', hrun, hj, hj', habs⟩ :=
          ih (i := i + 64) (by omega) (by omega) (md5Transform st ((input.drop i).take 64))
        rw [if_pos hmore, slice_eq (by omega), Res.ok_bind, hmod']
        refine ⟨j, st', hrun, hj, hj', ?_⟩
        have htake : ((input.drop i).take 64).length = 64 := by
          rw [List.length_take, List.length_drop]
          omega
        have hne : (input.drop i).take 64 ≠ [] := List.ne_nil_of_length_pos (by omega)
        have hsplit : input.drop i = (input.drop i).take 64 ++ input.drop (i + 64) := by
          rw [← List.drop_drop, List.take_append_drop]
        conv => lhs; rw [hsplit]
        rw [Absorbing.absorb_append, Absorbing.absorb_full hne (by simpa using htake), ← habs]
        rfl
      · rw [if_neg hmore]
        exact ⟨i, st, rfl, hi, by omega, rfl⟩

/-- **`MD5Update`** feeds its input, and does not write outside of the buffer. -/
theorem Md5Ctx.Fed.update (input : List UInt8) (h : ctx.Fed s n) (hlen : input.length + 64 ≤ 2 ^ 32) :
    ∃ ctx', md5Update ctx input = .ok ctx'
      ∧ ctx'.Fed (s.absorb md5Transform 64 input) (n + input.length) := by
  have hindex := h.index
  have hpend := h.pending
  have hlt : s.pending.length < 64 := by omega
  have hbits := h.countBits input.length (by omega)
  have hlenp : (s.absorb md5Transform 64 input).pending.length = (n + input.length) % 64 := by
    rw [Absorbing.length_pending (by decide) hlt, hpend]
    omega
  obtain ⟨ctx₁, hctx₁⟩ : ∃ ctx₁, ctx₁ = ctx.countBits (UInt32.ofNat input.length) := ⟨_, rfl⟩
  rw [← hctx₁] at hbits
  have hsame : ctx₁.state = s.state ∧ ctx₁.buffer = ctx.buffer := by
    rw [hctx₁]
    exact ⟨h.state, rfl⟩
  unfold md5Update
  rw [hindex, ← hctx₁]
  dsimp only
  by_cases hfull : 64 - n % 64 ≤ input.length
  · -- the buffer is filled
    have hheadlen : (input.take (64 - n % 64)).length = 64 - n % 64 := by
      rw [List.length_take]
      omega
    obtain ⟨buf, hpoke, hbuf, htake⟩ := poke_take h.buffer.2 (input.take (64 - n % 64)) (by
      rw [h.buffer.1, hheadlen]
      omega)
    have hbufeq : buf = s.pending ++ input.take (64 - n % 64) := by
      rw [← htake, List.take_of_length_le]
      rw [List.length_append, hbuf, h.buffer.1, hheadlen]
      omega
    have habs : s.absorb md5Transform 64 input
        = Absorbing.absorb md5Transform 64 ⟨md5Transform s.state buf, []⟩
          (input.drop (64 - n % 64)) := by
      have hne : input.take (64 - n % 64) ≠ [] := List.ne_nil_of_length_pos (by omega)
      conv => lhs; rw [← List.take_append_drop (64 - n % 64) input]
      rw [Absorbing.absorb_append, Absorbing.absorb_full hne (by omega), hbufeq]
    obtain ⟨j, st', hloop, hj, hj', hrest⟩ := md5Loop_eq hlen (64 - n % 64)
      (input.length + 1) hfull (by omega) (md5Transform s.state buf)
    have hrestlen : (input.drop j).length < 64 := by
      rw [List.length_drop]
      omega
    have hshort : Absorbing.absorb md5Transform 64 ⟨st', []⟩ (input.drop j) = ⟨st', input.drop j⟩ :=
      Absorbing.absorb_short (by simpa using hrestlen)
    rw [hrest, hshort] at habs
    rw [habs] at hlenp ⊢
    obtain ⟨buf', hpoke', hbuf', htake'⟩ := @poke_take buf [] rfl (input.drop j) (by
      rw [hbuf, h.buffer.1]
      simp only [List.length_nil]
      omega)
    have htakeall : (input.drop j).take (input.length - j) = input.drop j :=
      List.take_of_length_le (by rw [List.length_drop])
    rw [hpend] at hpoke
    rw [List.length_nil] at hpoke'
    rw [if_pos hfull, slice_eq (by omega), Res.ok_bind, List.drop_zero, hsame.2, hpoke,
      Res.ofAccess_some, Res.ok_bind, hsame.1, hloop, Res.ok_bind]
    dsimp only
    rw [slice_eq (by omega), Res.ok_bind, htakeall, hpoke', Res.ofAccess_some, Res.ok_bind]
    refine ⟨_, rfl, rfl, hlenp, ⟨hbuf'.trans (hbuf.trans h.buffer.1), ?_⟩, hbits⟩
    simpa using htake'
  · -- the input goes behind what is there
    have habs : s.absorb md5Transform 64 input = ⟨s.state, s.pending ++ input⟩ :=
      Absorbing.absorb_short (by omega)
    rw [habs] at hlenp ⊢
    obtain ⟨buf, hpoke, hbuf, htake⟩ := poke_take h.buffer.2 input (by
      rw [h.buffer.1]
      omega)
    rw [hpend] at hpoke
    rw [if_neg hfull, hsame.2, hpoke, Res.ofAccess_some, Res.ok_bind]
    exact ⟨_, rfl, hsame.1, hlenp, ⟨hbuf.trans h.buffer.1, htake⟩, hbits⟩

/-- What `MD5Init` leaves. -/
theorem fed_init {buffer : List UInt8} (h : buffer.length = 64) :
    (md5Init buffer).Fed ⟨md5Iv, []⟩ 0 :=
  ⟨rfl, rfl, ⟨h, rfl⟩, rfl⟩

theorem Md5Ctx.Fed.updates (h : ctx.Fed s n) {pieces : List (List UInt8)}
    (hlen : ∀ p ∈ pieces, p.length + 64 ≤ 2 ^ 32) :
    ∃ ctx', pieces.foldlM md5Update ctx = .ok ctx'
      ∧ ctx'.Fed (s.absorb md5Transform 64 pieces.flatten) (n + pieces.flatten.length) := by
  induction pieces generalizing ctx s n with
  | nil => exact ⟨ctx, rfl, h⟩
  | cons p ps ih =>
      obtain ⟨hp, hps⟩ := List.forall_mem_cons.mp hlen
      obtain ⟨ctx₁, hrun, h₁⟩ := h.update _ hp
      obtain ⟨ctx₂, hruns, h₂⟩ := ih h₁ hps
      refine ⟨ctx₂, ?_, ?_⟩
      · rw [List.foldlM_cons, hrun]
        exact hruns
      · rw [List.flatten_cons, Absorbing.absorb_append, List.length_append, ← Nat.add_assoc]
        exact h₂

/-- **`MD5Final`** feeds the padding, with which the message is made of whole blocks. -/
theorem Md5Ctx.Fed.final {msg : List UInt8}
    (h : ctx.Fed (Absorbing.absorb md5Transform 64 ⟨md5Iv, []⟩ msg) msg.length) :
    md5Final ctx = .ok (md5 msg).toList := by
  obtain ⟨padLen, hpad⟩ : ∃ k, k = if msg.length % 64 < 56 then 56 - msg.length % 64
    else 120 - msg.length % 64 := ⟨_, rfl⟩
  have hbound : 0 < padLen ∧ padLen ≤ 64 ∧ (msg.length + padLen) % 64 = 56 := by
    rw [hpad]
    split <;> omega
  have hpadding : md5Padding.take padLen = 0x80 :: List.replicate (padLen - 1) 0 := by
    obtain ⟨k, hk⟩ := Nat.exists_eq_succ_of_ne_zero (Nat.ne_of_gt hbound.1)
    rw [hk, md5Padding, List.take_succ_cons, List.take_replicate]
    congr 2
    omega
  have hpadlen : (md5Padding.take padLen).length = padLen := by
    rw [hpadding, List.length_cons, List.length_replicate]
    omega
  obtain ⟨ctx₁, hrun₁, h₁⟩ := Md5Ctx.Fed.update (md5Padding.take padLen) h (by omega)
  obtain ⟨ctx₂, hrun₂, h₂⟩ := Md5Ctx.Fed.update (encode [ctx.count0, ctx.count1]) h₁
    (by simp [encode])
  have hbits := encode_count h.bits
  have hwhole : md5Padding.take padLen ++ encode [ctx.count0, ctx.count1] = md5Pad msg.length := by
    rw [hpadding, hbits, md5Pad, ← hpad]
  rw [← Absorbing.absorb_append, ← Absorbing.absorb_append, hwhole] at h₂
  have hdvd : 64 ∣ (msg ++ md5Pad msg.length).length := by
    rw [← hwhole, List.length_append, List.length_append, hpadlen, hbits, length_le]
    omega
  rw [Absorbing.absorb_blocks (by decide) hdvd] at h₂
  have hst := h₂.state
  have hslice : Res.ofAccess (slice md5Padding 0 padLen) = .ok (md5Padding.take padLen) :=
    slice_eq (by rw [Nat.zero_add]; exact hbound.2.1)
  unfold md5Final
  rw [h.index]
  dsimp only
  rw [← hpad, hslice, Res.ok_bind, hrun₁, Res.ok_bind, hrun₂, Res.ok_bind, hst]
  rfl

/-- `MD5Init`, a call of `MD5Update` for each piece, and `MD5Final`. -/
def md5Pieces (buffer : List UInt8) (pieces : List (List UInt8)) : Res (List UInt8) := do
  let ctx ← pieces.foldlM md5Update (md5Init buffer)
  md5Final ctx

/-- The pieces are hashed as one message. -/
theorem md5Pieces_eq {buffer : List UInt8} (hbuf : buffer.length = 64) {pieces : List (List UInt8)}
    (hlen : ∀ p ∈ pieces, p.length + 64 ≤ 2 ^ 32) :
    md5Pieces buffer pieces = .ok (md5 pieces.flatten).toList := by
  obtain ⟨ctx, hrun, h⟩ := (fed_init hbuf).updates hlen
  rw [Nat.zero_add] at h
  rw [md5Pieces, hrun]
  exact h.final

/-- **However a message is cut, its hash is the same**, whatever was in the buffer: that of the
blocks of the message with its padding. -/
theorem md5Pieces_cut {buffer buffer' : List UInt8} (hbuf : buffer.length = 64)
    (hbuf' : buffer'.length = 64) {pieces pieces' : List (List UInt8)}
    (hlen : ∀ p ∈ pieces, p.length + 64 ≤ 2 ^ 32) (hlen' : ∀ p ∈ pieces', p.length + 64 ≤ 2 ^ 32)
    (hmsg : pieces.flatten = pieces'.flatten) :
    md5Pieces buffer pieces = md5Pieces buffer' pieces'
      ∧ md5Pieces buffer pieces = .ok (md5 pieces.flatten).toList := by
  refine ⟨?_, md5Pieces_eq hbuf hlen⟩
  rw [md5Pieces_eq hbuf hlen, md5Pieces_eq hbuf' hlen', hmsg]

theorem md5Pieces_abc :
    md5Pieces (List.replicate 64 0) [ascii "a", [], ascii "bc"] = .ok (md5 (ascii "abc")).toList
      ∧ md5Pieces (List.replicate 64 0) [ascii "a", [], ascii "bc"]
        = md5Pieces (List.replicate 64 1) [ascii "abc"] := by
  obtain ⟨hcut, hmd5⟩ := @md5Pieces_cut (List.replicate 64 0)
    (List.replicate 64 1) (by decide) (by decide) [ascii "a", [], ascii "bc"] [ascii "abc"]
    (by decide) (by decide) (by decide)
  exact ⟨hmd5, hcut⟩

example : (md5 (ascii "abc")).toList = [0x90, 0x01, 0x50, 0x98, 0x3c, 0xd2, 0x4f, 0xb0, 0xd6, 0x96,
    0x3f, 0x7d, 0x28, 0xe1, 0x7f, 0x72] := by decide +kernel

end Disc.Digest
