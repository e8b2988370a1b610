import Disc.Msg.Codec

/-!
# Where the AVPs of a received buffer are

The decoder learns where an AVP ends from the AVP itself. Its loop is described here by
the offsets it comes by: at each one it looks at twelve bytes, takes the length they
spell, and goes on by that length rounded up to a multiple of four. The sum is made in
two parts, header and data, and the data length is an unsigned difference; for a length
below the header size both wrap, and the two errors cancel.

`Accepts` is a run of the loop that ends well, as a list of offsets; `translateAvps_round`
is one round of it, and everything the decoder does to a buffer follows from it.
-/

namespace Disc.Msg

open Disc.Lib

/-! ## The fields of an AVP -/

section Fields

variable (buf : List UInt8) (p : Nat)

/-- The number in the four bytes at `p`. -/
def wordAt : UInt32 := UInt32.ofNat (ofBe ((buf.drop p).take 4))

/-- The flags of the AVP at `p`. -/
def flagsAt : UInt8 := ((buf.drop (p + 4)).take 1).headD 0

/-- The length of the AVP at `p`, as its header gives it. -/
def lenAt : Nat := ofBe ((buf.drop (p + 5)).take 3)

/-- The size of the header of the AVP at `p`. -/
def hdrAt : Nat := avpHdrSize (flagsAt buf p)

/-- The vendor id of the AVP at `p`, zero when it has none. -/
def vendorAt : UInt32 :=
  if flagsAt buf p &&& aaaAvpFlagVendorSpecific ≠ 0 then wordAt buf (p + 8) else 0

/-- From the AVP at `p` to the next one. -/
def strideAt : Nat := lenAt buf p + padLen (lenAt buf p)

/-- The AVP the decoder makes of the bytes at `p`. -/
def cellAt : Avp where
  next := none
  prev := none
  code := wordAt buf p
  flags := (setAvpFields (wordAt buf p) (flagsAt buf p)).1
  type := (setAvpFields (wordAt buf p) (flagsAt buf p)).2
  vendorId := vendorAt buf p
  data := ⟨buf, p + hdrAt buf p, usub (lenAt buf p) (hdrAt buf p)⟩
  freeIt := false

/-- What makes the decoder give up at `p`, in a message of `len` bytes. -/
def Refused (len : Nat) : Prop :=
  len < p + 12 ∨ lenAt buf p = 0 ∨ lenAt buf p = hdrAt buf p ∨ len < p + lenAt buf p

instance (len : Nat) : Decidable (Refused buf p len) :=
  inferInstanceAs (Decidable (_ ∨ _ ∨ _ ∨ _))

end Fields

/-- The offsets the decoder comes by from `p` on, none of them refused, and where it stops. -/
inductive Accepts (buf : List UInt8) (len : Nat) : Nat → List Nat → Nat → Prop
  | done {p : Nat} (h : len ≤ p) : Accepts buf len p [] p
  | next {p e : Nat} {ps : List Nat} (h : p < len) (hr : ¬ Refused buf p len)
      (ht : Accepts buf len (p + strideAt buf p) ps e) : Accepts buf len p (p :: ps) e

/-- A buffer that leaves room for the largest AVP on both sides. -/
structure Roomy (src : Block) : Prop where
  below : 2 ^ 24 ≤ src.addr
  above : src.addr + src.bytes.length + 2 ^ 24 ≤ 2 ^ 32

section

variable {buf : List UInt8} {p len : Nat}

@[simp] theorem cellAt_body : (cellAt buf p).body = cellAt buf p := rfl

theorem lenAt_lt : lenAt buf p < 2 ^ 24 := by
  have h := ofBe_lt ((buf.drop (p + 5)).take 3)
  have hl : ((buf.drop (p + 5)).take 3).length ≤ 3 := List.length_take_le _ _
  have hpow : 256 ^ ((buf.drop (p + 5)).take 3).length ≤ 256 ^ 3 :=
    Nat.pow_le_pow_right (by omega) hl
  unfold lenAt
  omega

theorem hdrAt_le : 8 ≤ hdrAt buf p ∧ hdrAt buf p ≤ 12 := avpHdrSize_le _

theorem hdrAt_mod : hdrAt buf p % 4 = 0 := avpHdrSize_mod _

theorem strideAt_mod : strideAt buf p % 4 = 0 := padLen_mod _

/-- An AVP with a length is passed by at least four bytes. -/
theorem strideAt_pos (h : lenAt buf p ≠ 0) : 4 ≤ strideAt buf p := by
  have hm := @strideAt_mod buf p
  unfold strideAt at hm ⊢
  omega

theorem strideAt_le : strideAt buf p ≤ 2 ^ 24 := by
  have hl := @lenAt_lt buf p
  unfold strideAt padLen
  split <;> omega

theorem Refused.not (h : ¬ Refused buf p len) :
    p + 12 ≤ len ∧ lenAt buf p ≠ 0 ∧ lenAt buf p ≠ hdrAt buf p ∧ p + lenAt buf p ≤ len := by
  unfold Refused at h
  omega

end

/-- The pointer does not wrap while it is moved over the AVP at `p`. -/
structure Fits (src : Block) (p : Nat) : Prop where
  head : src.addr + (p + 12) < 2 ^ 32
  stride : src.addr + (p + strideAt src.bytes p) < 2 ^ 32

theorem Roomy.fits {src : Block} (hr : Roomy src) {p : Nat} (hp : p < src.bytes.length) :
    Fits src p := by
  have ha := hr.above
  have hs := @strideAt_le src.bytes p
  exact ⟨by omega, by omega⟩

/-! ## The loop, with a record of where it has been -/

/-- The AVP loop of the decoder; notes address and code of every AVP, and where it stops. -/
def translateAvpsLog (src : Block) (last : Nat) (mem : Nat → CreateMem) :
    Nat → Nat → Nat → Heap → Message → List (Nat × UInt32)
      → Res ((Heap × Message) × List (Nat × UInt32) × Nat)
  | 0, _, _, _, _, _ => .diverge
  | fuel + 1, n, ptr, h, m, log =>
      if ptr < last then
        if padd ptr (avpHdrSize 0x80) > last then .error
        else do
          let start := ptr
          let code ← Res.ofAccess (src.load ptr 4)
          let ptr := padd ptr 4
          let fl ← Res.ofAccess (src.load ptr 1)
          let flags := fl.headD 0
          let ptr := padd ptr 1
          let len ← Res.ofAccess (src.load ptr 3)
          let avpLen := ofBe len
          let ptr := padd ptr 3
          if avpLen < 1 then .error
          else do
            let (vendorId, ptr) ← readVendorId src flags ptr
            let dataLen := usub avpLen (avpHdrSize flags)
            if last < padd ptr dataLen then .error
            else do
              let (avp, h) ← aaaCreateAVP (mem n) h (UInt32.ofNat (ofBe code)) flags vendorId
                (some (src.bytes, ptr - src.addr)) dataLen .dontFreeData
              match avp with
              | none => .error
              | some a => do
                  let (_, h, m) ← aaaAddAVPToMessage h m (some a) m.tail
                  translateAvpsLog src last mem fuel (n + 1) (padd ptr (to32xLen dataLen)) h m
                    (log ++ [(start, UInt32.ofNat (ofBe code))])
      else .ok ((h, m), log, ptr)

/-- Keep the result and forget the record. -/
def eraseLog {α β : Type} (r : Res (α × β)) : Res α := r >>= fun x => .ok x.1

theorem eraseLog_bind {α β γ : Type} (x : Res γ) (f : γ → Res (α × β)) :
    eraseLog (x >>= f) = x >>= fun a => eraseLog (f a) := by
  cases x <;> rfl

theorem translateAvpsLog_erase {src : Block} {last : Nat} {mem : Nat → CreateMem}
    {fuel n ptr : Nat} {h : Heap} {m : Message} {log : List (Nat × UInt32)} :
    eraseLog (translateAvpsLog src last mem fuel n ptr h m log)
      = translateAvps src last mem fuel n ptr h m := by
  induction fuel generalizing n ptr h m log with
  | zero => rfl
  | succ fuel ih =>
      rw [translateAvpsLog, translateAvps]
      split
      · split
        · rfl
        · rw [eraseLog_bind]
          refine Res.bind_congr fun code => ?_
          rw [eraseLog_bind]
          refine Res.bind_congr fun fl => ?_
          rw [eraseLog_bind]
          refine Res.bind_congr fun len => ?_
          dsimp only
          split
          · rfl
          · rw [eraseLog_bind]
            refine Res.bind_congr fun vp => ?_
            split
            · rfl
            · rw [eraseLog_bind]
              refine Res.bind_congr fun ah => ?_
              obtain ⟨avp, h₁⟩ := ah
              cases avp with
              | none => rfl
              -- the one branch that goes round again
              | some a =>
                  dsimp only
                  rw [eraseLog_bind]
                  exact Res.bind_congr fun _ => ih
      · rfl

/-! ## One round -/

section Round

variable {src : Block} {p len : Nat}

theorem load_bytes {k : Nat} (h : p + k ≤ src.bytes.length) :
    src.load (src.addr + p) k = some ((src.bytes.drop p).take k) := by
  unfold Block.load slice
  rw [if_pos (Nat.le_add_right _ _), Nat.add_sub_cancel_left, if_pos h]

/-- The vendor id is behind the first eight bytes, and the data behind the header. -/
theorem readVendorId_at (h : p + 12 ≤ src.bytes.length) :
    readVendorId src (flagsAt src.bytes p) (src.addr + (p + 4 + 1 + 3))
      = .ok (vendorAt src.bytes p, src.addr + (p + hdrAt src.bytes p)) := by
  unfold readVendorId vendorAt hdrAt avpHdrSize
  split
  · rw [load_bytes (by omega), Res.ofAccess_some, Res.ok_bind, padd_addr (by omega)]
    rfl
  · rfl

/-- Header and wrapped data length add up to the length of the AVP. -/
theorem padd_data (hf : Fits src p) :
    padd (src.addr + (p + hdrAt src.bytes p)) (usub (lenAt src.bytes p) (hdrAt src.bytes p))
      = src.addr + (p + lenAt src.bytes p) := by
  have hs := hf.stride
  have hl := @lenAt_lt src.bytes p
  have hh := @hdrAt_le src.bytes p
  unfold strideAt at hs
  unfold padd usub
  omega

/-- A multiple of four more or less needs the same padding. -/
theorem padLen_congr {a b : Nat} (h : a % 4 = b % 4) : padLen a = padLen b := by
  unfold padLen
  rw [h]

/-- And so do the header and the data length rounded up, for the next AVP. -/
theorem padd_stride (hf : Fits src p) :
    padd (src.addr + (p + hdrAt src.bytes p))
        (to32xLen (usub (lenAt src.bytes p) (hdrAt src.bytes p)))
      = src.addr + (p + strideAt src.bytes p) := by
  have hs := hf.stride
  have hl := @lenAt_lt src.bytes p
  have hh := @hdrAt_le src.bytes p
  have hm := @hdrAt_mod src.bytes p
  have hmod : usub (lenAt src.bytes p) (hdrAt src.bytes p) % 4 = lenAt src.bytes p % 4 := by
    unfold usub
    omega
  have hpad : to32xLen (usub (lenAt src.bytes p) (hdrAt src.bytes p))
      = (usub (lenAt src.bytes p) (hdrAt src.bytes p) + padLen (lenAt src.bytes p)) % 2 ^ 32 := by
    rw [← padLen_congr hmod]
    rfl
  rw [hpad]
  unfold strideAt at hs ⊢
  unfold padd usub
  omega

/-- The data length is zero only if the header is all there is. -/
theorem data_eq_zero :
    usub (lenAt src.bytes p) (hdrAt src.bytes p) = 0 ↔ lenAt src.bytes p = hdrAt src.bytes p := by
  have hl := @lenAt_lt src.bytes p
  have hh := @hdrAt_le src.bytes p
  unfold usub
  omega

/-- What `AAACreateAVP` makes of what was read. -/
theorem aaaCreateAVP_at (mem : CreateMem) (h : Heap) :
    aaaCreateAVP mem h (wordAt src.bytes p) (flagsAt src.bytes p) (vendorAt src.bytes p)
        (some (src.bytes, p + hdrAt src.bytes p))
        (usub (lenAt src.bytes p) (hdrAt src.bytes p)) .dontFreeData
      = if lenAt src.bytes p = hdrAt src.bytes p ∨ mem.avp = false then .ok (none, h)
        else .ok (some h.size, ⟨h.cells ++ [cellAt src.bytes p]⟩) := by
  by_cases hd : lenAt src.bytes p = hdrAt src.bytes p
  · simp only [aaaCreateAVP, if_pos (data_eq_zero.mpr hd), if_pos (Or.inl hd)]
  · simp only [aaaCreateAVP, if_neg (mt data_eq_zero.mp hd)]
    cases hm : mem.avp <;> simp [hd, cellAt]

/-- **One round of the decoder.** -/
theorem translateAvpsLog_round (hf : Fits src p) (hlen : len ≤ src.bytes.length) (hp : p < len)
    (mem : Nat → CreateMem) (fuel n : Nat) (h : Heap) (m : Message)
    (log : List (Nat × UInt32)) :
    translateAvpsLog src (src.addr + len) mem (fuel + 1) n (src.addr + p) h m log
      = if Refused src.bytes p len ∨ (mem n).avp = false then .error
        else
          aaaAddAVPToMessage ⟨h.cells ++ [cellAt src.bytes p]⟩ m (some h.size) m.tail >>= fun r =>
            translateAvpsLog src (src.addr + len) mem fuel (n + 1)
              (src.addr + (p + strideAt src.bytes p)) r.2.1 r.2.2
              (log ++ [(src.addr + p, wordAt src.bytes p)]) := by
  have h12 : avpHdrSize 0x80 = 12 := rfl
  have hhead := hf.head
  have hroom : padd (src.addr + p) 12 = src.addr + (p + 12) := by
    rw [padd_eq (by omega)]
    omega
  rw [translateAvpsLog, if_pos (by omega), h12, hroom]
  by_cases hshort : len < p + 12
  · have hr : Refused src.bytes p len := Or.inl hshort
    rw [if_pos (by omega), if_pos (Or.inl hr)]
  -- the twelve bytes are there, so nothing wraps while the header is read
  have hp1 : padd (src.addr + p) 4 = src.addr + (p + 4) := padd_addr (by omega)
  have hp2 : padd (src.addr + (p + 4)) 1 = src.addr + (p + 4 + 1) := padd_addr (by omega)
  have hp3 : padd (src.addr + (p + 4 + 1)) 3 = src.addr + (p + 4 + 1 + 3) := padd_addr (by omega)
  have hcode := @load_bytes src p 4 (by omega)
  have hflags := @load_bytes src (p + 4) 1 (by omega)
  have hlength := @load_bytes src (p + 4 + 1) 3 (by omega)
  have hword : UInt32.ofNat (ofBe ((src.bytes.drop p).take 4)) = wordAt src.bytes p := rfl
  have hfl : ((src.bytes.drop (p + 4)).take 1).headD 0 = flagsAt src.bytes p := rfl
  have hln : ofBe ((src.bytes.drop (p + 4 + 1)).take 3) = lenAt src.bytes p := rfl
  have hhdr : avpHdrSize (flagsAt src.bytes p) = hdrAt src.bytes p := rfl
  rw [if_neg (by omega)]
  simp only [hcode, hflags, hlength, hp1, hp2, hp3, Res.ofAccess_some, Res.ok_bind, hword, hfl,
    hln, hhdr]
  by_cases hzero : lenAt src.bytes p = 0
  · have hr : Refused src.bytes p len := Or.inr (Or.inl hzero)
    rw [if_pos (by omega), if_pos (Or.inl hr)]
  rw [if_neg (by omega), readVendorId_at (by omega), Res.ok_bind]
  dsimp only
  rw [padd_data hf]
  by_cases hend : len < p + lenAt src.bytes p
  · have hr : Refused src.bytes p len := Or.inr (Or.inr (Or.inr hend))
    rw [if_pos (by omega), if_pos (Or.inl hr)]
  have hoff : src.addr + (p + hdrAt src.bytes p) - src.addr = p + hdrAt src.bytes p := by omega
  rw [if_neg (by omega), hoff, aaaCreateAVP_at, padd_stride hf]
  by_cases hdata : lenAt src.bytes p = hdrAt src.bytes p ∨ (mem n).avp = false
  · have hr : Refused src.bytes p len ∨ (mem n).avp = false :=
      hdata.imp_left fun hd => Or.inr (Or.inr (Or.inl hd))
    rw [if_pos hdata, if_pos hr]
    rfl
  · have hr : ¬ (Refused src.bytes p len ∨ (mem n).avp = false) := by
      unfold Refused
      tauto
    rw [if_neg hdata, if_neg hr]
    rfl

theorem translateAvps_round (hf : Fits src p) (hlen : len ≤ src.bytes.length) (hp : p < len)
    (mem : Nat → CreateMem) (fuel n : Nat) (h : Heap) (m : Message) :
    translateAvps src (src.addr + len) mem (fuel + 1) n (src.addr + p) h m
      = if Refused src.bytes p len ∨ (mem n).avp = false then .error
        else
          aaaAddAVPToMessage ⟨h.cells ++ [cellAt src.bytes p]⟩ m (some h.size) m.tail >>= fun r =>
            translateAvps src (src.addr + len) mem fuel (n + 1)
              (src.addr + (p + strideAt src.bytes p)) r.2.1 r.2.2 := by
  rw [← @translateAvpsLog_erase _ _ _ _ _ _ _ _ [], translateAvpsLog_round hf hlen hp]
  split
  · rfl
  · rw [eraseLog_bind]
    exact Res.bind_congr fun _ => translateAvpsLog_erase

end Round

/-! ## Whole runs -/

/-- Linking a new AVP behind the others. -/
theorem link_new {h : Heap} {m : Message} {ids : List Nat} (hl : AvpList h m ids) (c : Avp) :
    ∃ h' m', aaaAddAVPToMessage ⟨h.cells ++ [c]⟩ m (some h.size) m.tail = .ok (.errSuccess, h', m')
      ∧ AvpList h' m' (ids ++ [h.size])
      ∧ (ids ++ [h.size]).map h'.body = ids.map h.body ++ [some c.body]
      ∧ m'.header = m.header := by
  obtain ⟨h', m', hadd, hlk⟩ := add_new hl c
  refine ⟨h', m', hadd, hlk.list, ?_, hlk.header⟩
  have hold : ids.map (⟨h.cells ++ [c]⟩ : Heap).body = ids.map h.body := by
    refine List.map_congr_left fun x hx => ?_
    simp only [Heap.body, List.getElem?_append_left (hl.alloc x hx)]
  rw [hlk.body, List.map_append, hold]
  simp [Heap.body, Heap.size]

section Run

variable {src : Block} {len p e : Nat} {ps : List Nat} {mem : Nat → CreateMem}

theorem Accepts.lt {buf : List UInt8} (ha : Accepts buf len p ps e) : ∀ q ∈ ps, q < len := by
  induction ha with
  | done h => exact fun q hq => absurd hq (by simp)
  | next h hr ht ih =>
      intro q hq
      rcases List.mem_cons.mp hq with rfl | hq
      · exact h
      · exact ih q hq

theorem Accepts.length_le {buf : List UInt8} (ha : Accepts buf len p ps e) :
    ps.length ≤ len - p := by
  induction ha with
  | done h => simp
  | @next p e ps h hr ht ih =>
      have hs := strideAt_pos (Refused.not hr).2.1
      rw [List.length_cons]
      omega

theorem Accepts.not_refused {buf : List UInt8} (ha : Accepts buf len p ps e) :
    ∀ q ∈ ps, p ≤ q ∧ ¬ Refused buf q len := by
  induction ha with
  | done h => exact fun q hq => absurd hq (by simp)
  | next h hr ht ih =>
      intro q hq
      rcases List.mem_cons.mp hq with rfl | hq
      · exact ⟨Nat.le_refl _, hr⟩
      · exact ⟨by have := (ih q hq).1; omega, (ih q hq).2⟩

/-- Each AVP ends before the next one starts. -/
theorem Accepts.pairwise {buf : List UInt8} (ha : Accepts buf len p ps e) :
    ps.Pairwise (fun a b => a + lenAt buf a ≤ b) := by
  induction ha with
  | done h => exact List.Pairwise.nil
  | @next p e ps h hr ht ih =>
      refine List.pairwise_cons.mpr ⟨fun q hq => ?_, ih⟩
      have hle := (ht.not_refused q hq).1
      unfold strideAt at hle
      omega

/-- There is at most one such run. -/
theorem Accepts.unique {buf : List UInt8} {ps' : List Nat} {e' : Nat}
    (ha : Accepts buf len p ps e) (ha' : Accepts buf len p ps' e') : ps = ps' ∧ e = e' := by
  induction ha generalizing ps' with
  | done h =>
      cases ha' with
      | done => exact ⟨rfl, rfl⟩
      | next h' => omega
  | next h hr ht ih =>
      cases ha' with
      | done h' => omega
      | next _ _ ht' =>
          obtain ⟨rfl, rfl⟩ := ih ht'
          exact ⟨rfl, rfl⟩

/-- What the decoder has noted about the AVPs at the given offsets. -/
def decoderLog (src : Block) (ps : List Nat) : List (Nat × UInt32) :=
  ps.map fun q => (src.addr + q, wordAt src.bytes q)

/-- **An accepted run links one AVP for every offset.** -/
theorem translateAvpsLog_accepts (hlen : len ≤ src.bytes.length)
    (ha : Accepts src.bytes len p ps e) (hfit : ∀ q ∈ ps, Fits src q) {fuel n : Nat}
    (hmem : ∀ i < ps.length, (mem (n + i)).avp = true) (hfuel : ps.length < fuel) {h : Heap}
    {m : Message} {ids : List Nat} (hl : AvpList h m ids) (log : List (Nat × UInt32)) :
    ∃ h' m' new, translateAvpsLog src (src.addr + len) mem fuel n (src.addr + p) h m log
        = .ok ((h', m'), log ++ decoderLog src ps, src.addr + e)
      ∧ AvpList h' m' (ids ++ new)
      ∧ (ids ++ new).map h'.body
          = ids.map h.body ++ ps.map (fun q => some (cellAt src.bytes q))
      ∧ m'.header = m.header := by
  induction ha generalizing fuel n h m ids log with
  | done hp =>
      obtain ⟨fuel, rfl⟩ := Nat.exists_eq_succ_of_ne_zero (Nat.ne_of_gt hfuel)
      refine ⟨h, m, [], ?_, by simpa using hl, by simp, rfl⟩
      rw [translateAvpsLog, if_neg (by omega), decoderLog, List.map_nil, List.append_nil]
  | @next p e ps hp hr ht ih =>
      obtain ⟨fuel, rfl⟩ := Nat.exists_eq_succ_of_ne_zero (Nat.ne_of_gt (Nat.zero_lt_of_lt hfuel))
      have hm0 : (mem n).avp = true := hmem 0 (by simp)
      obtain ⟨h₁, m₁, hadd, hl₁, hb₁, hh₁⟩ := link_new hl (cellAt src.bytes p)
      obtain ⟨h', m', new, hrun, hl', hb', hh'⟩ :=
        @ih (fun q hq => hfit q (by simp [hq])) fuel (n + 1)
          (fun i hi => by rw [Nat.add_right_comm]; exact hmem (i + 1) (by simpa using hi))
          (by simpa using hfuel) h₁ m₁ (ids ++ [h.size]) hl₁
          (log ++ [(src.addr + p, wordAt src.bytes p)])
      refine ⟨h', m', h.size :: new, ?_, by simpa using hl', ?_, by rw [hh', hh₁]⟩
      · rw [translateAvpsLog_round (hfit p (by simp)) hlen hp, if_neg (by simp [hr, hm0]), hadd,
          Res.ok_bind]
        simpa [decoderLog] using hrun
      · rw [hb₁, List.append_assoc, List.append_assoc] at hb'
        simpa using hb'

theorem translateAvps_accepts (hlen : len ≤ src.bytes.length) (ha : Accepts src.bytes len p ps e)
    (hfit : ∀ q ∈ ps, Fits src q) {fuel n : Nat} (hmem : ∀ i < ps.length, (mem (n + i)).avp = true)
    (hfuel : ps.length < fuel) {h : Heap} {m : Message} {ids : List Nat} (hl : AvpList h m ids) :
    ∃ h' m' new, translateAvps src (src.addr + len) mem fuel n (src.addr + p) h m = .ok (h', m')
      ∧ AvpList h' m' (ids ++ new)
      ∧ (ids ++ new).map h'.body
          = ids.map h.body ++ ps.map (fun q => some (cellAt src.bytes q))
      ∧ m'.header = m.header := by
  obtain ⟨h', m', new, hrun, hrest⟩ := translateAvpsLog_accepts hlen ha hfit hmem hfuel hl []
  refine ⟨h', m', new, ?_, hrest⟩
  rw [← @translateAvpsLog_erase _ _ _ _ _ _ _ _ [], hrun]
  rfl

/-- A run that ended well had memory for all of them. -/
theorem translateAvps_mem (hlen : len ≤ src.bytes.length) (ha : Accepts src.bytes len p ps e)
    (hfit : ∀ q ∈ ps, Fits src q) {fuel n : Nat} {h : Heap} {m : Message} {ids : List Nat}
    (hl : AvpList h m ids) {r : Heap × Message}
    (hrun : translateAvps src (src.addr + len) mem fuel n (src.addr + p) h m = .ok r) :
    ∀ i < ps.length, (mem (n + i)).avp = true := by
  induction ha generalizing fuel n h m ids with
  | done hp => exact fun i hi => absurd hi (by simp)
  | @next p e ps hp hr ht ih =>
      cases fuel with
      | zero => exact absurd hrun (by simp [translateAvps])
      | succ fuel =>
          obtain ⟨h₁, m₁, hadd, hl₁, -⟩ := link_new hl (cellAt src.bytes p)
          rw [translateAvps_round (hfit p (by simp)) hlen hp] at hrun
          cases hm : (mem n).avp with
          | false => exact absurd hrun (by simp [hm])
          | true =>
              rw [if_neg (by simp [hr, hm]), hadd, Res.ok_bind] at hrun
              have hrest := @ih (fun q hq => hfit q (by simp [hq])) fuel (n + 1) h₁ m₁ _ hl₁ hrun
              intro i hi
              cases i with
              | zero => exact hm
              | succ i =>
                  have := hrest i (by simpa using hi)
                  rwa [Nat.add_right_comm] at this

/-- Every other run of the loop ends in its error exit. -/
theorem translateAvps_total (hroom : Roomy src) (hlen : len ≤ src.bytes.length) {fuel n : Nat}
    (hfuel : len - p < fuel) {h : Heap} {m : Message} {ids : List Nat} (hl : AvpList h m ids) :
    translateAvps src (src.addr + len) mem fuel n (src.addr + p) h m = .error
      ∨ ∃ ps e, Accepts src.bytes len p ps e ∧ ∀ i < ps.length, (mem (n + i)).avp = true := by
  induction fuel generalizing p n h m ids with
  | zero => omega
  | succ fuel ih =>
      by_cases hp : p < len
      · rw [translateAvps_round (hroom.fits (by omega)) hlen hp]
        by_cases hr : Refused src.bytes p len ∨ (mem n).avp = false
        · exact Or.inl (if_pos hr)
        · rw [not_or, Bool.not_eq_false] at hr
          have hs := strideAt_pos (Refused.not hr.1).2.1
          obtain ⟨h₁, m₁, hadd, hl₁, -⟩ := link_new hl (cellAt src.bytes p)
          rw [if_neg (by simp [hr]), hadd, Res.ok_bind]
          rcases @ih (p + strideAt src.bytes p) (n + 1) (by omega) h₁ m₁ _ hl₁ with he | ⟨ps, e, ha, hm⟩
          · exact Or.inl he
          · refine Or.inr ⟨p :: ps, e, .next hp hr.1 ha, fun i hi => ?_⟩
            cases i with
            | zero => exact hr.2
            | succ i =>
                have := hm i (by simpa using hi)
                rwa [Nat.add_right_comm] at this
      · exact Or.inr ⟨[], p, .done (by omega), by simp⟩

end Run

/-! ## The message -/

/-- The version of a message. -/
def versionOf (buf : List UInt8) : UInt8 := (buf.take 1).headD 0

/-- The length of a message, as its header gives it. -/
def msgLenOf (buf : List UInt8) : Nat := ofBe ((buf.drop 1).take 3)

/-- A message with the header of the buffer and no AVPs yet. -/
def hdrMessage (buf : List UInt8) : Message :=
  { Message.zero with
    flags := ((buf.drop 4).take 1).headD 0
    commandCode := UInt32.ofNat (ofBe ((buf.drop 5).take 3))
    applicationId := UInt32.ofNat (ofBe ((buf.drop 8).take 4))
    hopbyhopId := UInt32.ofNat (ofLe ((buf.drop 12).take 4))
    endtoendId := UInt32.ofNat (ofLe ((buf.drop 16).take 4)) }

/-- The buffer is kept when the caller asks for it. -/
def Message.attach (m : Message) (attachBuf : Bool) (buf : List UInt8) : Message :=
  if attachBuf then { m with buf := some (buf.take (msgLenOf buf)) } else m

/-- What the decoder does with a buffer that holds a header. -/
theorem aaaTranslateMessage_eq (mem : TranslateMem) (h : Heap) {src : Block}
    (h20 : 20 ≤ src.bytes.length) (attachBuf : Bool) :
    aaaTranslateMessage mem h src src.bytes.length attachBuf
      = if mem.msg = false ∨ versionOf src.bytes ≠ 1 ∨ src.bytes.length < msgLenOf src.bytes then
          .error
        else
          translateAvps src (src.addr + msgLenOf src.bytes) mem.avp (src.bytes.length + 1) 0
              (src.addr + 20) h (hdrMessage src.bytes) >>= fun r =>
            .ok (r.1, r.2.attach attachBuf src.bytes) := by
  have hfits := src.fits
  have hsize : aaaMsgHdrSize = 20 := rfl
  have hp0 : src.load src.addr 1 = some (src.bytes.take 1) := @load_bytes src 0 1 (by omega)
  have hp1 : padd src.addr 1 = src.addr + 1 := padd_eq (by omega)
  have hp2 : padd (src.addr + 1) 3 = src.addr + 4 := padd_addr (by omega)
  have hp3 : padd (src.addr + 4) 1 = src.addr + 5 := padd_addr (by omega)
  have hp4 : padd (src.addr + 5) 3 = src.addr + 8 := padd_addr (by omega)
  have hp5 : padd (src.addr + 8) 4 = src.addr + 12 := padd_addr (by omega)
  have hp6 : padd (src.addr + 12) 4 = src.addr + 16 := padd_addr (by omega)
  have hp7 : padd (src.addr + 16) 4 = src.addr + 20 := padd_addr (by omega)
  have hver : (src.bytes.take 1).headD 0 = versionOf src.bytes := rfl
  have hlen : ofBe ((src.bytes.drop 1).take 3) = msgLenOf src.bytes := rfl
  unfold aaaTranslateMessage
  rw [if_neg (by omega)]
  cases mem.msg with
  | false => rw [if_pos (Or.inl rfl)]; rfl
  | true =>
      simp only [Bool.not_true, Bool.false_eq_true, if_false, hp0, hp1, hp2, hp3, hp4, hp5, hp6, hp7,
        @load_bytes src 1 3 (by omega), @load_bytes src 4 1 (by omega), @load_bytes src 5 3 (by omega),
        @load_bytes src 8 4 (by omega), @load_bytes src 12 4 (by omega),
        @load_bytes src 16 4 (by omega), Res.ofAccess_some, Res.ok_bind, hver, hlen]
      by_cases hv : versionOf src.bytes = 1
      · by_cases hn : src.bytes.length < msgLenOf src.bytes
        · simp [hv, hn]
        · rw [if_neg (by simp [hv]), if_neg (by omega), if_neg (by simp [hv, hn]),
            padd_eq (by omega)]
          rfl
      · simp [hv]

/-- A buffer whose header and AVPs the decoder accepts, with the offsets of the AVPs. -/
structure Accepted (buf : List UInt8) (ps : List Nat) (e : Nat) : Prop where
  version : versionOf buf = 1
  len : msgLenOf buf ≤ buf.length
  avps : Accepts buf (msgLenOf buf) aaaMsgHdrSize ps e

/-- The message `m` has one AVP for each of the offsets. -/
structure Decoded (buf : List UInt8) (ps : List Nat) (h : Heap) (m : Message) : Prop where
  avps : ∃ ids, AvpList h m ids ∧ ids.map h.body = ps.map (fun q => some (cellAt buf q))
  header : m.header = (hdrMessage buf).header

theorem Decoded.attach {buf : List UInt8} {ps : List Nat} {h : Heap} {m : Message}
    (hd : Decoded buf ps h m) (attachBuf : Bool) (bs : List UInt8) :
    Decoded buf ps h (m.attach attachBuf bs) := by
  obtain ⟨⟨ids, hl, hb⟩, hh⟩ := hd
  cases attachBuf with
  | false => exact ⟨⟨ids, hl, hb⟩, hh⟩
  | true => exact ⟨⟨ids, ⟨hl.chain, hl.alloc⟩, hb⟩, hh⟩

section Message

variable {src : Block} {ps : List Nat} {e : Nat} {mem : TranslateMem}

theorem Accepted.header (ha : Accepted src.bytes ps e) (hmsg : mem.msg = true) :
    ¬ (mem.msg = false ∨ versionOf src.bytes ≠ 1 ∨ src.bytes.length < msgLenOf src.bytes) := by
  have hlen := ha.len
  simp only [hmsg, ha.version, ne_eq, not_true_eq_false, Bool.true_eq_false, false_or]
  omega

/-- An empty list, before the first AVP is linked. -/
theorem avpList_hdrMessage (h : Heap) (buf : List UInt8) : AvpList h (hdrMessage buf) [] :=
  ⟨⟨List.nodup_nil, rfl, rfl⟩, by simp⟩

/-- **An accepted buffer is decoded**, one AVP for each of its offsets. -/
theorem Accepted.decoded (ha : Accepted src.bytes ps e) (h20 : 20 ≤ src.bytes.length)
    (hfit : ∀ q ∈ ps, Fits src q) (hmsg : mem.msg = true)
    (hmem : ∀ i < ps.length, (mem.avp i).avp = true) (h : Heap) (attachBuf : Bool) :
    ∃ h' m', aaaTranslateMessage mem h src src.bytes.length attachBuf = .ok (h', m')
      ∧ Decoded src.bytes ps h' m' := by
  have hle := ha.avps.length_le
  have hlen := ha.len
  obtain ⟨h', m', new, hrun, hl, hb, hh⟩ :=
    @translateAvps_accepts src _ _ e ps mem.avp hlen ha.avps hfit (src.bytes.length + 1) 0
      (by simpa using hmem) (by omega) h (hdrMessage src.bytes) [] (avpList_hdrMessage h src.bytes)
  have hd : Decoded src.bytes ps h' m' := ⟨⟨new, hl, hb⟩, hh⟩
  refine ⟨h', m'.attach attachBuf src.bytes, ?_, hd.attach attachBuf src.bytes⟩
  rw [aaaTranslateMessage_eq mem h h20, if_neg (ha.header hmsg)]
  rw [show aaaMsgHdrSize = 20 from rfl] at hrun
  rw [hrun]
  rfl

/-- A buffer that was decoded had a header, and was as long as its header said. -/
theorem aaaTranslateMessage_ok {h h' : Heap} {m' : Message} {attachBuf : Bool}
    (hdec : aaaTranslateMessage mem h src src.bytes.length attachBuf = .ok (h', m')) :
    20 ≤ src.bytes.length ∧ mem.msg = true ∧ versionOf src.bytes = 1
      ∧ msgLenOf src.bytes ≤ src.bytes.length := by
  have h20 : 20 ≤ src.bytes.length := by
    by_contra hlt
    unfold aaaTranslateMessage at hdec
    rw [if_pos (Or.inr (by unfold aaaMsgHdrSize; omega))] at hdec
    exact absurd hdec (by simp)
  rw [aaaTranslateMessage_eq mem h h20] at hdec
  split at hdec
  · exact absurd hdec (by simp)
  · rename_i hhdr
    simp only [not_or, Bool.not_eq_false, ne_eq, not_not, Nat.not_lt] at hhdr
    exact ⟨h20, hhdr⟩

/-- What was decoded is what the offsets say. -/
theorem Accepts.of_ok (ha : Accepts src.bytes (msgLenOf src.bytes) aaaMsgHdrSize ps e)
    (hfit : ∀ q ∈ ps, Fits src q) {h h' : Heap} {m' : Message} {attachBuf : Bool}
    (hdec : aaaTranslateMessage mem h src src.bytes.length attachBuf = .ok (h', m')) :
    Accepted src.bytes ps e ∧ Decoded src.bytes ps h' m' := by
  obtain ⟨h20, hmsg, hver, hlen⟩ := aaaTranslateMessage_ok hdec
  have hacc : Accepted src.bytes ps e := ⟨hver, hlen, ha⟩
  have hrun := hdec
  rw [aaaTranslateMessage_eq mem h h20, if_neg (hacc.header hmsg)] at hrun
  obtain ⟨r, hr, -⟩ := Res.bind_eq_ok hrun
  have hmem := translateAvps_mem hlen ha hfit (avpList_hdrMessage h src.bytes) hr
  obtain ⟨h₁, m₁, hdec₁, hd⟩ := hacc.decoded h20 hfit hmsg (by simpa using hmem) h attachBuf
  obtain ⟨rfl, rfl⟩ := Prod.mk.inj (Res.ok.inj (hdec.symm.trans hdec₁))
  exact ⟨hacc, hd⟩

/-- **Every other buffer with a header is refused.** -/
theorem aaaTranslateMessage_total (hroom : Roomy src) (h20 : 20 ≤ src.bytes.length)
    (mem : TranslateMem) (h : Heap) (attachBuf : Bool) :
    aaaTranslateMessage mem h src src.bytes.length attachBuf = .error
      ∨ ∃ ps e h' m', Accepted src.bytes ps e
        ∧ aaaTranslateMessage mem h src src.bytes.length attachBuf = .ok (h', m')
        ∧ Decoded src.bytes ps h' m' := by
  by_cases hhdr : mem.msg = false ∨ versionOf src.bytes ≠ 1
      ∨ src.bytes.length < msgLenOf src.bytes
  · rw [aaaTranslateMessage_eq mem h h20, if_pos hhdr]
    exact Or.inl rfl
  · have hcond := hhdr
    simp only [not_or, Bool.not_eq_false, ne_eq, not_not, Nat.not_lt] at hcond
    obtain ⟨hmsg, hver, hlen⟩ := hcond
    rcases @translateAvps_total src (msgLenOf src.bytes) 20 mem.avp hroom hlen
        (src.bytes.length + 1) 0 (by omega) h (hdrMessage src.bytes) []
        (avpList_hdrMessage h src.bytes) with herr | ⟨ps, e, hacc, hmem⟩
    · rw [aaaTranslateMessage_eq mem h h20, if_neg hhdr, herr]
      exact Or.inl rfl
    · have ha : Accepted src.bytes ps e := ⟨hver, hlen, hacc⟩
      have hfit : ∀ q ∈ ps, Fits src q := fun q hq =>
        hroom.fits (Nat.lt_of_lt_of_le (hacc.lt q hq) hlen)
      obtain ⟨h', m', hrun, hd⟩ := ha.decoded h20 hfit hmsg (by simpa using hmem) h attachBuf
      exact Or.inr ⟨ps, e, h', m', ha, hrun, hd⟩

end Message

/-! ## Safety -/

/-- The data of an AVP lies in the message behind its header, with a positive `int` for a length. -/
structure DataInside (buf : List UInt8) (s : Str) : Prop where
  blk : s.blk = buf
  pos : 1 ≤ s.len
  int : s.len < 2 ^ 31
  start : aaaMsgHdrSize ≤ s.off
  stop : s.off + s.len ≤ msgLenOf buf

/--
The decoder ends, without an access outside the buffer, and what it returns are AVPs
whose data stand in the buffer one behind the other.
-/
def DecodesSafely (src : Block) : Prop :=
  ∀ (mem : TranslateMem) (h : Heap) (attachBuf : Bool),
    aaaTranslateMessage mem h src src.bytes.length attachBuf = .error
    ∨ ∃ h' m as, aaaTranslateMessage mem h src src.bytes.length attachBuf = .ok (h', m)
      ∧ avpsOf h' m = .ok as ∧ (∀ a ∈ as, DataInside src.bytes a.data)
      ∧ as.Pairwise (fun a b => a.data.off + a.data.len ≤ b.data.off)

theorem mapM_body {h : Heap} {ids : List Nat} {cs : List Avp}
    (hb : ids.map h.body = cs.map some) :
    ∃ as, ids.mapM (h.cells[·]?) = some as ∧ as.map Avp.body = cs := by
  induction ids generalizing cs with
  | nil =>
      obtain rfl := List.map_eq_nil_iff.mp hb.symm
      exact ⟨[], rfl, rfl⟩
  | cons x ids ih =>
      cases cs with
      | nil => exact absurd hb (by simp)
      | cons c cs =>
          rw [List.map_cons, List.map_cons, List.cons.injEq] at hb
          obtain ⟨as, has, hbs⟩ := ih hb.2
          obtain ⟨a, ha, hc⟩ := Option.map_eq_some_iff.mp hb.1
          exact ⟨a :: as, by simp [List.mapM_cons, ha, has], by rw [List.map_cons, hc, hbs]⟩

/-- The AVPs of a decoded message, as a walk along its list meets them. -/
theorem Decoded.avpsOf_eq {buf : List UInt8} {ps : List Nat} {h : Heap} {m : Message}
    (hd : Decoded buf ps h m) :
    ∃ as, avpsOf h m = .ok as ∧ as.map Avp.body = ps.map (cellAt buf) := by
  obtain ⟨ids, hl, hb⟩ := hd.avps
  have hcells : ids.map h.body = (ps.map (cellAt buf)).map some := by
    rw [hb, List.map_map]
    rfl
  obtain ⟨as, has, hbs⟩ := mapM_body hcells
  refine ⟨as, ?_, hbs⟩
  unfold avpsOf
  rw [hl.chain.fwd.walk_eq (hl.chain.length_le hl.alloc)]
  simp [has]

theorem data_cellAt {buf : List UInt8} {as : List Avp} {ps : List Nat}
    (hb : as.map Avp.body = ps.map (cellAt buf)) :
    as.map (·.data) = ps.map (fun q => (cellAt buf q).data) := by
  have := congrArg (List.map Avp.data) hb
  rwa [List.map_map, List.map_map] at this

/-- A length that covers the header leaves data inside the message. -/
theorem dataInside_cellAt {buf : List UInt8} {ps : List Nat} {e q : Nat} (ha : Accepted buf ps e)
    (hq : q ∈ ps) (hlen : hdrAt buf q ≤ lenAt buf q) : DataInside buf (cellAt buf q).data := by
  obtain ⟨hge, hr⟩ := ha.avps.not_refused q hq
  obtain ⟨-, -, hne, hend⟩ := Refused.not hr
  have hl := @lenAt_lt buf q
  have hsub : usub (lenAt buf q) (hdrAt buf q) = lenAt buf q - hdrAt buf q :=
    usub_eq hlen (by omega)
  refine ⟨rfl, ?_, ?_, ?_, ?_⟩
  all_goals
    simp only [cellAt, hsub]
    omega

/-- A length below the header is no length of data. -/
theorem not_dataInside_cellAt {buf : List UInt8} {q : Nat} (hlen : lenAt buf q < hdrAt buf q) :
    ¬ DataInside buf (cellAt buf q).data := by
  intro hd
  have hint := hd.int
  have hh := @hdrAt_le buf q
  simp only [cellAt, usub] at hint
  omega

/-- Memory for everything. -/
def TranslateMem.all : TranslateMem := ⟨true, fun _ => ⟨true, true⟩⟩

/-- No AVP of a message that is accepted is shorter than its header. -/
def HeadersCovered (buf : List UInt8) : Prop :=
  ∀ ps e, Accepted buf ps e → ∀ q ∈ ps, hdrAt buf q ≤ lenAt buf q

section Safety

variable {src : Block}

/-- A buffer without a header is not handled safely. -/
theorem DecodesSafely.header (hsafe : DecodesSafely src) : aaaMsgHdrSize ≤ src.bytes.length := by
  by_contra hlt
  have hfault : aaaTranslateMessage .all ⟨[]⟩ src src.bytes.length false = .fault := by
    unfold aaaTranslateMessage
    exact if_pos (Or.inr (Nat.lt_of_not_le hlt))
  rcases hsafe .all ⟨[]⟩ false with h | ⟨h', m, as, h, -⟩
  · exact absurd (hfault.symm.trans h) (by simp)
  · exact absurd (hfault.symm.trans h) (by simp)

/-- Nor is one with an AVP that is shorter than its header. -/
theorem DecodesSafely.covered (hroom : Roomy src) (hsafe : DecodesSafely src) :
    HeadersCovered src.bytes := by
  intro ps e hacc q hq
  -- with enough memory the accepted message is returned, and this AVP is one of its own
  have hfit : ∀ q ∈ ps, Fits src q := fun q hq =>
    hroom.fits (Nat.lt_of_lt_of_le (hacc.avps.lt q hq) hacc.len)
  obtain ⟨h', m, hrun, hd⟩ :=
    @Accepted.decoded src ps e .all hacc hsafe.header hfit rfl (fun _ _ => rfl) ⟨[]⟩ false
  obtain ⟨as, has, hbs⟩ := hd.avpsOf_eq
  rcases hsafe .all ⟨[]⟩ false with h | ⟨h₁, m₁, as₁, h, has₁, hin, -⟩
  · exact absurd (hrun.symm.trans h) (by simp)
  · obtain ⟨rfl, rfl⟩ := Prod.mk.inj (Res.ok.inj (hrun.symm.trans h))
    obtain rfl := Res.ok.inj (has.symm.trans has₁)
    have hmem : (cellAt src.bytes q).data ∈ as.map (·.data) := by
      rw [data_cellAt hbs]
      exact List.mem_map_of_mem (f := fun q => (cellAt src.bytes q).data) hq
    obtain ⟨a, ha, hda⟩ := List.mem_map.mp hmem
    by_contra hlt
    exact not_dataInside_cellAt (Nat.lt_of_not_le hlt) (hda ▸ hin a ha)

/-- Data that stay inside their AVPs are as disjoint as the AVPs. -/
theorem Accepted.data_pairwise {ps : List Nat} {e : Nat} {buf : List UInt8}
    (hacc : Accepted buf ps e) (hcov : ∀ q ∈ ps, hdrAt buf q ≤ lenAt buf q) :
    (ps.map fun q => (cellAt buf q).data).Pairwise (fun a b => a.off + a.len ≤ b.off) := by
  refine List.pairwise_map.mpr (hacc.avps.pairwise.imp_of_mem fun {a b} ha hb hab => ?_)
  have hl := @lenAt_lt buf a
  have hc := hcov a ha
  simp only [cellAt, usub_eq hc (by omega)]
  omega

/--
**When the decoder is safe.**

There has to be a header at all, since a shorter buffer takes the exit that frees a
message nobody has allocated; and no AVP that is accepted may be shorter than its own
header, since its data length is then a negative number.
-/
theorem decodesSafely_iff (hroom : Roomy src) :
    DecodesSafely src ↔ aaaMsgHdrSize ≤ src.bytes.length ∧ HeadersCovered src.bytes := by
  refine ⟨fun hsafe => ⟨hsafe.header, hsafe.covered hroom⟩, ?_⟩
  rintro ⟨h20, hcov⟩ mem h attachBuf
  rcases aaaTranslateMessage_total hroom h20 mem h attachBuf with
    herr | ⟨ps, e, h', m, hacc, hrun, hd⟩
  · exact Or.inl herr
  · obtain ⟨as, has, hbs⟩ := hd.avpsOf_eq
    have hdata := data_cellAt hbs
    refine Or.inr ⟨h', m, as, hrun, has, fun a ha => ?_, ?_⟩
    · have hmem := List.mem_map_of_mem (f := fun a : Avp => a.data) ha
      rw [hdata] at hmem
      obtain ⟨q, hq, hqa⟩ := List.mem_map.mp hmem
      exact hqa ▸ dataInside_cellAt hacc hq (hcov ps e hacc q hq)
    · have hpw := hacc.data_pairwise (hcov ps e hacc)
      rw [← hdata] at hpw
      exact List.pairwise_map.mp hpw

end Safety

/-- A request with one AVP, a Destination-Realm of four bytes. -/
def sampleBuffer : List UInt8 :=
  [1, 0, 0, 32, 0x80, 0, 1, 18, 0, 0, 0, 0, 0, 0, 0, 0, 0, 0, 0, 0,
   0, 0, 1, 27, 0x40, 0, 0, 12, 97, 98, 99, 100]

/-- The same, behind a Destination-Realm that gives five as its length. -/
def shortBuffer : List UInt8 :=
  [1, 0, 0, 40, 0x80, 0, 1, 18, 0, 0, 0, 0, 0, 0, 0, 0, 0, 0, 0, 0,
   0, 0, 1, 27, 0x40, 0, 0, 5, 0, 0, 1, 27, 0x40, 0, 0, 12, 97, 98, 99, 100]

theorem sampleBuffer_accepted : Accepted sampleBuffer [20] 32 where
  version := by decide
  len := by decide
  avps := .next (by decide) (by decide) (.done (by decide))

theorem shortBuffer_accepted : Accepted shortBuffer [20, 28] 40 where
  version := by decide
  len := by decide
  avps := .next (by decide) (by decide) (.next (by decide) (by decide) (.done (by decide)))

theorem decodesSafely_sample : DecodesSafely ⟨2 ^ 24, sampleBuffer, by decide⟩ := by
  refine (decodesSafely_iff ⟨by decide, by decide⟩).mpr ⟨by decide, fun ps e hacc q hq => ?_⟩
  obtain ⟨rfl, -⟩ := hacc.avps.unique sampleBuffer_accepted.avps
  obtain rfl := List.mem_singleton.mp hq
  decide

/-- The first AVP of `shortBuffer` is decoded as one with `-3` bytes of data. -/
theorem shortBuffer_unsafe :
    Roomy ⟨2 ^ 24, shortBuffer, by decide⟩ ∧ ¬ DecodesSafely ⟨2 ^ 24, shortBuffer, by decide⟩ := by
  have hroom : Roomy ⟨2 ^ 24, shortBuffer, by decide⟩ := ⟨by decide, by decide⟩
  refine ⟨hroom, fun hsafe => ?_⟩
  have hcov := hsafe.covered hroom _ _ shortBuffer_accepted 20 (by simp)
  exact absurd hcov (by decide)

end Disc.Msg
