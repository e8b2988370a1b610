import Disc.Msg.AvpList
import Disc.Msg.Message

/-!
# What the encoder writes

`encMsg` says what the bytes of a message are: a header followed by the AVPs, each
padded to a multiple of four. `AAABuildMsgBuffer` writes exactly these bytes.

The invariant of the writer is about the shape of the buffer. At any moment it is
what has been written so far, followed by zeros, and the pointer stands at the end
of the first part. Every store then only moves bytes from the second part to the
first, and the padding costs nothing: it is zeros that change sides.
-/

namespace Disc.Msg

open Disc.Lib

/-! ## The wire format -/

/-- What a message says about one of its AVPs. -/
structure AvpView where
  code : UInt32
  flags : UInt8
  vendorId : UInt32
  data : List UInt8
deriving Repr, DecidableEq

/-- An AVP as the message presents it; absent when its data cannot be read. -/
def Avp.view (a : Avp) : Option AvpView :=
  a.data.bytes.map fun d => { code := a.code, flags := a.flags, vendorId := a.vendorId, data := d }

/-- The sequence of AVPs of a message; absent when the list does not end. -/
def avpSeq (h : Heap) (m : Message) : Option (List AvpView) :=
  match walk h.next h.size m.head with
  | none => none
  | some ids => ids.mapM (fun x => h.cells[x]?.bind Avp.view)

/-- Bytes of padding after `len` bytes of data. -/
def padLen (len : Nat) : Nat := if len % 4 ≠ 0 then 4 - len % 4 else 0

/-- An AVP on the wire. -/
def encAvp (v : AvpView) : List UInt8 :=
  be 4 v.code.toNat ++ [v.flags] ++ be 3 (avpHdrSize v.flags + v.data.length)
    ++ (if v.flags &&& aaaAvpFlagVendorSpecific ≠ 0 then be 4 v.vendorId.toNat else [])
    ++ v.data ++ List.replicate (padLen v.data.length) 0

/-- AVPs on the wire. -/
def encAvps (vs : List AvpView) : List UInt8 := vs.flatMap encAvp

/-- Length of an encoded message. -/
def encLen (vs : List AvpView) : Nat := aaaMsgHdrSize + (encAvps vs).length

/-- A message header on the wire. -/
def encHdr (m : Message) (len : Nat) : List UInt8 :=
  [1] ++ be 3 len ++ [m.flags] ++ be 3 m.commandCode.toNat ++ be 4 m.applicationId.toNat
    ++ le 4 m.hopbyhopId.toNat ++ le 4 m.endtoendId.toNat

/-- A message on the wire. -/
def encMsg (m : Message) (vs : List AvpView) : List UInt8 := encHdr m (encLen vs) ++ encAvps vs

@[simp] theorem length_encHdr (m : Message) (len : Nat) :
    (encHdr m len).length = aaaMsgHdrSize := by
  simp [encHdr, aaaMsgHdrSize]

theorem length_encMsg (m : Message) (vs : List AvpView) :
    (encMsg m vs).length = encLen vs := by
  simp [encMsg, encLen]

@[simp] theorem encAvps_cons (v : AvpView) (vs : List AvpView) :
    encAvps (v :: vs) = encAvp v ++ encAvps vs := rfl

theorem length_encAvp (v : AvpView) :
    (encAvp v).length = avpHdrSize v.flags + v.data.length + padLen v.data.length := by
  simp only [encAvp, List.length_append, length_be, List.length_replicate, List.length_singleton,
    avpHdrSize]
  split <;> simp

theorem avpHdrSize_mod (f : UInt8) : avpHdrSize f % 4 = 0 := by
  unfold avpHdrSize
  split <;> rfl

theorem avpHdrSize_le (f : UInt8) : 8 ≤ avpHdrSize f ∧ avpHdrSize f ≤ 12 := by
  unfold avpHdrSize
  split <;> omega

theorem padLen_mod (len : Nat) : (len + padLen len) % 4 = 0 := by
  unfold padLen
  split <;> omega

theorem to32xLen_eq {len : Nat} (h : len + padLen len < 2 ^ 32) :
    to32xLen len = len + padLen len := Nat.mod_eq_of_lt h

/-- Encoded AVPs tile the buffer in words. -/
theorem length_encAvps_mod (vs : List AvpView) : (encAvps vs).length % 4 = 0 := by
  induction vs with
  | nil => rfl
  | cons v vs ih =>
      have h1 := avpHdrSize_mod v.flags
      have h2 := padLen_mod v.data.length
      rw [encAvps_cons, List.length_append, length_encAvp]
      omega

/-- Every AVP takes up room. -/
theorem length_le_encAvps (vs : List AvpView) : vs.length ≤ (encAvps vs).length := by
  induction vs with
  | nil => simp
  | cons v vs ih =>
      have h8 := avpHdrSize_le v.flags
      rw [encAvps_cons, List.length_append, length_encAvp, List.length_cons]
      omega

/-! ## The list the encoder walks -/

/-- What it takes for an AVP to have a given view. -/
theorem view_eq_some {a : Avp} {v : AvpView} (h : a.view = some v) :
    a.data.bytes = some v.data ∧ a.data.len = v.data.length ∧ a.code = v.code
      ∧ a.flags = v.flags ∧ a.vendorId = v.vendorId := by
  unfold Avp.view at h
  obtain ⟨d, hd, rfl⟩ := Option.map_eq_some_iff.mp h
  exact ⟨hd, (length_slice hd).symm, rfl, rfl, rfl⟩

/-- The cells behind a sequence of views. -/
theorem mapM_view {h : Heap} {ids : List Nat} {vs : List AvpView}
    (hv : ids.mapM (fun x => h.cells[x]?.bind Avp.view) = some vs) :
    ∃ as : List Avp, ids.mapM (h.cells[·]?) = some as ∧ as.mapM Avp.view = some vs := by
  induction ids generalizing vs with
  | nil =>
      refine ⟨[], rfl, ?_⟩
      simpa using hv
  | cons x ids ih =>
      rw [List.mapM_cons] at hv
      obtain ⟨v, hx, hv⟩ := Option.bind_eq_some_iff.mp hv
      obtain ⟨vs', hvs, he⟩ := Option.bind_eq_some_iff.mp hv
      obtain rfl : v :: vs' = vs := by simpa using he
      obtain ⟨a, ha, hav⟩ := Option.bind_eq_some_iff.mp hx
      obtain ⟨as, has, hasv⟩ := ih hvs
      exact ⟨a :: as, by simp [List.mapM_cons, ha, has], by simp [List.mapM_cons, hav, hasv]⟩

/-- A message that has a sequence of AVPs shows the encoder these cells. -/
theorem avpsOf_of_avpSeq {h : Heap} {m : Message} {vs : List AvpView}
    (hs : avpSeq h m = some vs) :
    ∃ as : List Avp, avpsOf h m = .ok as ∧ as.mapM Avp.view = some vs := by
  unfold avpSeq at hs
  cases hw : walk h.next h.size m.head with
  | none => rw [hw] at hs; exact absurd hs (by simp)
  | some ids =>
      rw [hw] at hs
      obtain ⟨as, has, hv⟩ := mapM_view hs
      exact ⟨as, by unfold avpsOf; rw [hw]; simp [has], hv⟩

/-! ## The first pass -/

theorem msgBufLen_foldl {as : List Avp} {vs : List AvpView} (hv : as.mapM Avp.view = some vs)
    (n : Nat) (hn : n + (encAvps vs).length < 2 ^ 32) :
    as.foldl (fun len a => (len + avpHdrSize a.flags + to32xLen a.data.len) % 2 ^ 32) n
      = n + (encAvps vs).length := by
  induction as generalizing n vs with
  | nil =>
      obtain rfl : vs = [] := by simpa [eq_comm] using hv
      rfl
  | cons a as ih =>
      rw [List.mapM_cons] at hv
      obtain ⟨v, ha, hv⟩ := Option.bind_eq_some_iff.mp hv
      obtain ⟨vs', hvs, he⟩ := Option.bind_eq_some_iff.mp hv
      obtain rfl : v :: vs' = vs := by simpa using he
      obtain ⟨-, hl, -, hf, -⟩ := view_eq_some ha
      rw [encAvps_cons, List.length_append, length_encAvp] at hn ⊢
      rw [List.foldl_cons, hl, hf, to32xLen_eq (by omega)]
      rw [Nat.mod_eq_of_lt (by omega), ih hvs _ (by omega)]
      omega

theorem msgBufLen_eq {as : List Avp} {vs : List AvpView} (hv : as.mapM Avp.view = some vs)
    (hn : encLen vs < 2 ^ 32) : msgBufLen as = encLen vs :=
  msgBufLen_foldl hv _ hn

/-! ## The second pass -/

/-- A store at the end of what has been written. -/
theorem store_zeros {pre bs : List UInt8} {p k : Nat} (hp : p = pre.length)
    (hk : bs.length ≤ k) :
    store (pre ++ List.replicate k 0) p bs
      = .ok (pre ++ bs ++ List.replicate (k - bs.length) 0) := by
  obtain ⟨n, rfl⟩ := Nat.exists_eq_add_of_le hk
  rw [store, hp, poke_zeros, Nat.add_sub_cancel_left]
  rfl

theorem be_add (j k n : Nat) : be (j + k) n = be j (n / 256 ^ k) ++ be k n := by
  induction k generalizing n with
  | zero => simp [be]
  | succ k ih =>
      rw [← Nat.add_assoc, be, ih, be, ← List.append_assoc, Nat.div_div_eq_div_mul,
        Nat.pow_succ, Nat.mul_comm 256]

/-- Overwriting the first byte of a word that was just stored in network order. -/
theorem store_over {pre post : List UInt8} {p n : Nat} {b : UInt8} (hp : p = pre.length) :
    store (pre ++ be 4 n ++ post) p [b] = .ok (pre ++ ([b] ++ be 3 n) ++ post) := by
  have hb : be 4 n = be 1 (n / 256 ^ 3) ++ be 3 n := be_add 1 3 n
  have hpoke := poke_append pre (be 1 (n / 256 ^ 3)) [b] (be 3 n ++ post) (by simp)
  rw [store, hp, hb]
  simp only [List.append_assoc] at hpoke ⊢
  rw [hpoke]
  rfl

/-- The header is written as specified. -/
theorem writeHdr_eq (m : Message) {len : Nat} (hlen : aaaMsgHdrSize ≤ len) :
    writeHdr m (List.replicate len 0)
      = .ok (encHdr m len ++ List.replicate (len - aaaMsgHdrSize) 0, aaaMsgHdrSize) := by
  have h20 : 20 ≤ len := hlen
  have hnil : List.replicate len (0 : UInt8) = [] ++ List.replicate len 0 := rfl
  simp only [writeHdr, List.length_replicate]
  -- version and length, flags and command code: a word and then its first byte
  rw [hnil, store_zeros (by simp) (by simp; omega), Res.ok_bind, store_over (by simp), Res.ok_bind,
    store_zeros (by simp) (by simp; omega), Res.ok_bind, store_over (by simp), Res.ok_bind]
  -- the application and the two identifiers
  rw [store_zeros (by simp) (by simp; omega), Res.ok_bind,
    store_zeros (by simp) (by simp; omega), Res.ok_bind,
    store_zeros (by simp) (by simp; omega), Res.ok_bind]
  simp [encHdr, aaaMsgHdrSize, Nat.sub_sub]

/-- One AVP is written as specified. -/
theorem writeAvp_eq {a : Avp} {v : AvpView} (hv : a.view = some v) (pre : List UInt8) (n : Nat)
    (hlen : (encAvp v).length < 2 ^ 32) :
    writeAvp a (pre ++ List.replicate ((encAvp v).length + n) 0) pre.length
      = .ok (pre ++ encAvp v ++ List.replicate n 0, (pre ++ encAvp v).length) := by
  obtain ⟨hd, hl, hc, hf, hi⟩ := view_eq_some hv
  have hL := length_encAvp v
  have hpad : to32xLen v.data.length = v.data.length + padLen v.data.length :=
    to32xLen_eq (by omega)
  have h8 := avpHdrSize_le v.flags
  -- the padding is never written: it is there because the buffer was zeroed
  have hz : ∀ k : Nat, padLen v.data.length ≤ k →
      List.replicate k (0 : UInt8)
        = List.replicate (padLen v.data.length) 0 ++ List.replicate (k - padLen v.data.length) 0 := by
    intro k hk
    rw [List.replicate_append_replicate, Nat.add_sub_cancel' hk]
  simp only [writeAvp, hd, hl, hc, hf, hi, Res.ofAccess_some, Res.ok_bind]
  rw [store_zeros rfl (by simp; omega), Res.ok_bind,
    store_zeros (by simp) (by simp; omega), Res.ok_bind,
    store_zeros (by simp) (by simp; omega), Res.ok_bind]
  by_cases hV : v.flags &&& aaaAvpFlagVendorSpecific ≠ 0
  · have hV' : v.flags &&& 0x80 ≠ 0 := hV
    have h12 : avpHdrSize v.flags = 12 := by unfold avpHdrSize; rw [if_pos hV]
    rw [if_pos hV', store_zeros (by simp) (by simp; omega), Res.ok_bind, Res.pure_eq, Res.ok_bind]
    simp only []
    rw [store_zeros (by simp) (by simp; omega), Res.ok_bind, Res.pure_eq, hz _ (by simp; omega)]
    simp [encAvp, if_pos hV, hpad]
    omega
  · have hV' : ¬ (v.flags &&& 0x80 ≠ 0) := hV
    have h8' : avpHdrSize v.flags = 8 := by unfold avpHdrSize; rw [if_neg hV]
    rw [if_neg hV', Res.pure_eq, Res.ok_bind]
    simp only []
    rw [store_zeros (by simp) (by simp; omega), Res.ok_bind, Res.pure_eq, hz _ (by simp; omega)]
    simp [encAvp, if_neg hV, hpad]
    omega

/-- So are all of them. -/
theorem writeAvps_eq {as : List Avp} {vs : List AvpView} (hv : as.mapM Avp.view = some vs)
    (pre : List UInt8) (n : Nat) (hlen : (encAvps vs).length < 2 ^ 32) :
    writeAvps as (pre ++ List.replicate ((encAvps vs).length + n) 0) pre.length
      = .ok (pre ++ encAvps vs ++ List.replicate n 0, (pre ++ encAvps vs).length) := by
  induction as generalizing pre vs with
  | nil =>
      obtain rfl : vs = [] := by simpa [eq_comm] using hv
      simp [writeAvps, encAvps]
  | cons a as ih =>
      rw [List.mapM_cons] at hv
      obtain ⟨v, ha, hv⟩ := Option.bind_eq_some_iff.mp hv
      obtain ⟨vs', hvs, he⟩ := Option.bind_eq_some_iff.mp hv
      obtain rfl : v :: vs' = vs := by simpa using he
      rw [encAvps_cons, List.length_append] at hlen ⊢
      rw [writeAvps, Nat.add_assoc, writeAvp_eq ha pre _ (by omega), Res.ok_bind]
      simp only []
      rw [ih hvs (pre ++ encAvp v) (by omega)]
      simp only [List.append_assoc]

/--
**The encoder writes the wire format.**

The pointer of the second pass ends where the first pass said it would, so the
mismatch branch is dead.
-/
theorem aaaBuildMsgBuffer_eq {h : Heap} {m : Message} {vs : List AvpView}
    (hs : avpSeq h m = some vs) (hn : encLen vs < 2 ^ 32) :
    aaaBuildMsgBuffer true h m
      = .ok (.built (encMsg m vs), { m with buf := some (encMsg m vs) }) := by
  obtain ⟨as, has, hv⟩ := avpsOf_of_avpSeq hs
  have hL : encLen vs = aaaMsgHdrSize + (encAvps vs).length := rfl
  have hlen : msgBufLen as = encLen vs := msgBufLen_eq hv hn
  have hw := writeAvps_eq hv (encHdr m (encLen vs)) 0 (by omega)
  rw [length_encHdr, Nat.add_zero] at hw
  unfold aaaBuildMsgBuffer
  rw [has, Res.ok_bind, hlen]
  simp only [Bool.not_true, Bool.false_eq_true, if_false, Res.pure_eq]
  rw [writeHdr_eq m (by omega), Res.ok_bind]
  simp only []
  rw [show encLen vs - aaaMsgHdrSize = (encAvps vs).length by omega, hw, Res.ok_bind]
  have hp : (encHdr m (encLen vs) ++ encAvps vs).length = encLen vs := length_encMsg m vs
  simp [hp, encMsg]

/-! ## What the encoder cannot write -/

/-- A store moves nothing. -/
theorem length_store {buf bs buf' : List UInt8} {p : Nat} (h : store buf p bs = .ok buf') :
    buf'.length = buf.length := by
  unfold store poke at h
  split at h
  · obtain rfl := Res.ok.inj h
    simp only [List.length_append, List.length_take, List.length_drop]
    omega
  · exact absurd h (by nofun)

theorem length_writeHdr {m : Message} {buf buf' : List UInt8} {p : Nat}
    (h : writeHdr m buf = .ok (buf', p)) : buf'.length = buf.length := by
  unfold writeHdr at h
  obtain ⟨b₁, h₁, h⟩ := Res.bind_eq_ok h
  obtain ⟨b₂, h₂, h⟩ := Res.bind_eq_ok h
  obtain ⟨b₃, h₃, h⟩ := Res.bind_eq_ok h
  obtain ⟨b₄, h₄, h⟩ := Res.bind_eq_ok h
  obtain ⟨b₅, h₅, h⟩ := Res.bind_eq_ok h
  obtain ⟨b₆, h₆, h⟩ := Res.bind_eq_ok h
  obtain ⟨b₇, h₇, h⟩ := Res.bind_eq_ok h
  obtain ⟨rfl, -⟩ := Prod.mk.inj (Res.ok.inj h)
  rw [length_store h₇, length_store h₆, length_store h₅, length_store h₄, length_store h₃,
    length_store h₂, length_store h₁]

theorem length_writeAvp {a : Avp} {buf buf' : List UInt8} {p p' : Nat}
    (h : writeAvp a buf p = .ok (buf', p')) : buf'.length = buf.length := by
  unfold writeAvp at h
  obtain ⟨b₁, h₁, h⟩ := Res.bind_eq_ok h
  obtain ⟨b₂, h₂, h⟩ := Res.bind_eq_ok h
  obtain ⟨b₃, h₃, h⟩ := Res.bind_eq_ok h
  simp only [Res.pure_eq, Res.ok_bind] at h
  -- with or without a vendor id, what follows is the data
  split at h
  · obtain ⟨b₄, h₄, h⟩ := Res.bind_eq_ok h
    obtain ⟨data, -, h⟩ := Res.bind_eq_ok h
    obtain ⟨b₅, h₅, h⟩ := Res.bind_eq_ok h
    obtain ⟨rfl, -⟩ := Prod.mk.inj (Res.ok.inj h)
    rw [length_store h₅, length_store h₄, length_store h₃, length_store h₂, length_store h₁]
  · obtain ⟨data, -, h⟩ := Res.bind_eq_ok h
    obtain ⟨b₄, h₄, h⟩ := Res.bind_eq_ok h
    obtain ⟨rfl, -⟩ := Prod.mk.inj (Res.ok.inj h)
    rw [length_store h₄, length_store h₃, length_store h₂, length_store h₁]

theorem length_writeAvps {as : List Avp} {buf buf' : List UInt8} {p p' : Nat}
    (h : writeAvps as buf p = .ok (buf', p')) : buf'.length = buf.length := by
  induction as generalizing buf p with
  | nil =>
      obtain ⟨rfl, -⟩ := Prod.mk.inj (Res.ok.inj h)
      rfl
  | cons a as ih =>
      obtain ⟨⟨b, q⟩, ha, h⟩ := Res.bind_eq_ok h
      rw [ih h, length_writeAvp ha]

theorem msgBufLen_lt (as : List Avp) : msgBufLen as < 2 ^ 32 := by
  unfold msgBufLen
  cases as using List.reverseRecOn with
  | nil => decide
  | append_singleton as a =>
      rw [List.foldl_append]
      exact Nat.mod_lt _ (by decide)

/-- **No buffer is longer than its length was counted**, and that is done in 32 bits. -/
theorem length_built {mem : Bool} {h : Heap} {m m' : Message} {buf : List UInt8}
    (hb : aaaBuildMsgBuffer mem h m = .ok (.built buf, m')) : buf.length < 2 ^ 32 := by
  unfold aaaBuildMsgBuffer at hb
  obtain ⟨as, -, hb⟩ := Res.bind_eq_ok hb
  dsimp only at hb
  split at hb
  · exact absurd hb (by simp)
  -- all stores are into the one block that was allocated
  · obtain ⟨⟨b₁, p₁⟩, h₁, hb⟩ := Res.bind_eq_ok hb
    obtain ⟨⟨b₂, p₂⟩, h₂, hb⟩ := Res.bind_eq_ok hb
    dsimp only at hb
    split at hb
    · exact absurd hb (by simp)
    · simp only [Res.pure_eq, Res.ok.injEq, Prod.mk.injEq, BuildRes.built.injEq] at hb
      rw [← hb.1, length_writeAvps h₂, length_writeHdr h₁, List.length_replicate]
      exact msgBufLen_lt as

end Disc.Msg
