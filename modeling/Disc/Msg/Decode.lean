import Disc.Msg.Encode

/-!
# The decoder undoes the encoder

Run on a buffer in the wire format, `AAATranslateMessage` meets the AVPs one by
one: the bytes behind its pointer are the encoding of what it has already linked
into the message, the bytes ahead are the encoding of the rest. Three things make
each round succeed. The AVP length is at least its header, so the data length
does not wrap; there is at least one byte of data, so the AVP is at least as long
as the largest header, which is what the first check asks for; and the flags are
those `set_avp_fields` leaves alone.
-/

namespace Disc.Msg

open Disc.Lib

/-- An AVP that `AAACreateAVP` can have produced. -/
structure Sendable (v : AvpView) : Prop where
  /-- No AVP is created without data. -/
  data : 1 ≤ v.data.length
  /-- The flags have been through `set_avp_fields`. -/
  flags : (setAvpFields v.code v.flags).1 = v.flags
  /-- The vendor id is only sent with the V bit. -/
  vendor : v.flags &&& aaaAvpFlagVendorSpecific = 0 → v.vendorId = 0

/-- The views of some AVPs of the heap. -/
def views (h : Heap) (ids : List Nat) : Option (List AvpView) :=
  ids.mapM (fun x => h.cells[x]?.bind Avp.view)

theorem view_of_body (h : Heap) (x : Nat) :
    h.cells[x]?.bind Avp.view = (h.body x).bind Avp.view := by
  unfold Heap.body
  cases h.cells[x]? <;> rfl

/-- What the AVPs say does not depend on their links. -/
theorem views_congr {h h' : Heap} (hb : h'.body = h.body) (ids : List Nat) :
    views h' ids = views h ids := by
  unfold views
  simp only [view_of_body, hb]

theorem views_append (h : Heap) (xs ys : List Nat) :
    views h (xs ++ ys) = (views h xs).bind (fun us => (views h ys).map (us ++ ·)) := by
  unfold views
  rw [List.mapM_append]
  cases xs.mapM (fun x => h.cells[x]?.bind Avp.view) <;>
    cases ys.mapM (fun x => h.cells[x]?.bind Avp.view) <;> rfl

theorem views_alloc {h : Heap} {ids : List Nat} (hid : ∀ x ∈ ids, x < h.size) (c : Avp) :
    views ⟨h.cells ++ [c]⟩ ids = views h ids := by
  unfold views
  induction ids with
  | nil => rfl
  | cons x ids ih =>
      have hx : (h.cells ++ [c])[x]? = h.cells[x]? :=
        List.getElem?_append_left (hid x (by simp))
      rw [List.mapM_cons, List.mapM_cons, hx, ih (fun y hy => hid y (by simp [hy]))]

theorem views_isSome {h : Heap} {ids : List Nat}
    (hid : ∀ x ∈ ids, ∃ v, h.cells[x]?.bind Avp.view = some v) : ∃ vs, views h ids = some vs := by
  unfold views
  induction ids with
  | nil => exact ⟨[], rfl⟩
  | cons x ids ih =>
      obtain ⟨v, hv⟩ := hid x (by simp)
      obtain ⟨vs, hvs⟩ := ih (fun y hy => hid y (by simp [hy]))
      exact ⟨v :: vs, by simp [List.mapM_cons, hv, hvs]⟩

/-- Every view is the view of one of the AVPs. -/
theorem mem_of_views {h : Heap} {ids : List Nat} {vs : List AvpView} (hs : views h ids = some vs)
    {v : AvpView} (hv : v ∈ vs) : ∃ x ∈ ids, h.cells[x]?.bind Avp.view = some v := by
  unfold views at hs
  induction ids generalizing vs with
  | nil =>
      obtain rfl : vs = [] := by simpa [eq_comm] using hs
      exact absurd hv (by simp)
  | cons x ids ih =>
      rw [List.mapM_cons] at hs
      obtain ⟨u, hx, hs⟩ := Option.bind_eq_some_iff.mp hs
      obtain ⟨us, hus, he⟩ := Option.bind_eq_some_iff.mp hs
      obtain rfl : u :: us = vs := by simpa using he
      rcases List.mem_cons.mp hv with rfl | hv
      · exact ⟨x, by simp, hx⟩
      · obtain ⟨y, hy, hyv⟩ := ih hus hv
        exact ⟨y, by simp [hy], hyv⟩

/-- The sequence of AVPs of a message whose list is `ids`. -/
theorem AvpList.avpSeq_eq {h : Heap} {m : Message} {ids : List Nat} (hl : AvpList h m ids) :
    avpSeq h m = views h ids := by
  unfold avpSeq
  rw [hl.chain.fwd.walk_eq (hl.chain.length_le hl.alloc)]
  rfl

/-- A message whose list is `ids`, with the views of its AVPs. -/
structure Holds (h : Heap) (m : Message) (ids : List Nat) (vs : List AvpView) : Prop where
  list : AvpList h m ids
  seq : views h ids = some vs

/-- Linking a new AVP behind the others. -/
theorem link_view {h : Heap} {m : Message} {ids : List Nat} {us : List AvpView}
    (hh : Holds h m ids us) {c : Avp} {v : AvpView} (hv : c.view = some v) :
    ∃ h' m', aaaAddAVPToMessage ⟨h.cells ++ [c]⟩ m (some h.size) m.tail = .ok (.errSuccess, h', m')
      ∧ Holds h' m' (ids ++ [h.size]) (us ++ [v]) ∧ m'.header = m.header := by
  obtain ⟨h', m', hadd, hlk⟩ := add_new hh.list c
  refine ⟨h', m', hadd, ⟨hlk.list, ?_⟩, hlk.header⟩
  have hlast : views ⟨h.cells ++ [c]⟩ [h.size] = some [v] := by
    simp [views, Heap.size, hv]
  rw [views_congr hlk.body, views_append, views_alloc hh.list.alloc, hh.seq, hlast]
  rfl

/--
Creating an AVP over bytes of the buffer and linking it at the end: the two calls
each round of the decoder makes.
-/
theorem create_link {h : Heap} {m : Message} {ids : List Nat} {us : List AvpView}
    (hh : Holds h m ids us) {v : AvpView} (hv : Sendable v) {blk : List UInt8} {off : Nat}
    (hd : slice blk off v.data.length = some v.data) {mem : CreateMem} (hmem : mem.avp = true) :
    ∃ h₁ h₂ m' a, aaaCreateAVP mem h v.code v.flags v.vendorId (some (blk, off)) v.data.length
          .dontFreeData = .ok (some a, h₁)
      ∧ aaaAddAVPToMessage h₁ m (some a) m.tail = .ok (.errSuccess, h₂, m')
      ∧ Holds h₂ m' (ids ++ [a]) (us ++ [v]) ∧ m'.header = m.header := by
  have hne : v.data.length ≠ 0 := by have := hv.data; omega
  let c : Avp :=
    { next := none, prev := none, code := v.code, flags := v.flags,
      type := (setAvpFields v.code v.flags).2, vendorId := v.vendorId,
      data := ⟨blk, off, v.data.length⟩, freeIt := false }
  have hc : c.view = some v := by simp [Avp.view, Str.bytes, c, hd]
  obtain ⟨h₂, m', hadd, hlink⟩ := link_view hh hc
  refine ⟨⟨h.cells ++ [c]⟩, h₂, m', h.size, ?_, hadd, hlink⟩
  simp [aaaCreateAVP, hne, hmem, hv.flags, c]

/-! ## Reading the pieces of an AVP -/

theorem load_at {src : Block} (pre bs post : List UInt8) {p k : Nat}
    (hs : src.bytes = pre ++ bs ++ post) (hp : p = src.addr + pre.length) (hk : k = bs.length) :
    src.load p k = some bs := by
  rw [hp, hk]
  exact Block.load_append hs

theorem padd_addr {src : Block} {a n : Nat} (h : a + n ≤ src.bytes.length) :
    padd (src.addr + a) n = src.addr + (a + n) := by
  have := src.fits
  rw [padd_eq (by omega)]
  omega

/-- What the decoder loads when its pointer stands at an encoded AVP. -/
structure AvpAt (src : Block) (p : Nat) (v : AvpView) : Prop where
  code : src.load (src.addr + p) 4 = some (be 4 v.code.toNat)
  flags : src.load (src.addr + (p + 4)) 1 = some [v.flags]
  len : src.load (src.addr + (p + 4 + 1)) 3 = some (be 3 (avpHdrSize v.flags + v.data.length))
  vendor : v.flags &&& aaaAvpFlagVendorSpecific ≠ 0 →
    src.load (src.addr + (p + 4 + 1 + 3)) 4 = some (be 4 v.vendorId.toNat)
  data : slice src.bytes (p + avpHdrSize v.flags) v.data.length = some v.data

theorem avpAt_encAvp {src : Block} {pre post : List UInt8} {v : AvpView}
    (hs : src.bytes = pre ++ encAvp v ++ post) : AvpAt src pre.length v := by
  set z := List.replicate (padLen v.data.length) (0 : UInt8) ++ post with hz
  set w : List UInt8 :=
    if v.flags &&& aaaAvpFlagVendorSpecific ≠ 0 then be 4 v.vendorId.toNat else [] with hw
  set c := be 4 v.code.toNat with hc
  set l := be 3 (avpHdrSize v.flags + v.data.length) with hl
  have hcl : c.length = 4 := by simp [hc]
  have hll : l.length = 3 := by simp [hl]
  -- the vendor id is four bytes or none; the padding counts to what follows
  have hs' : src.bytes = pre ++ c ++ [v.flags] ++ l ++ w ++ v.data ++ z := by
    rw [hs, encAvp]
    simp only [hc, hl, hw, hz, List.append_assoc]
  refine ⟨?_, ?_, ?_, ?_, ?_⟩
  · exact load_at pre c ([v.flags] ++ l ++ w ++ v.data ++ z)
      (by rw [hs']; simp only [List.append_assoc]) rfl hcl.symm
  · exact load_at (pre ++ c) [v.flags] (l ++ w ++ v.data ++ z)
      (by rw [hs']; simp only [List.append_assoc]) (by simp [hcl]) rfl
  · exact load_at (pre ++ c ++ [v.flags]) l (w ++ v.data ++ z)
      (by rw [hs']; simp only [List.append_assoc]) (by simp [hcl]) hll.symm
  · intro hV
    rw [if_pos hV] at hw
    exact load_at (pre ++ c ++ [v.flags] ++ l) (be 4 v.vendorId.toNat) (v.data ++ z)
      (by rw [hs', hw]; simp only [List.append_assoc]) (by simp [hcl, hll]) (by simp)
  · have hwl : 4 + 1 + 3 + w.length = avpHdrSize v.flags := by
      rw [hw]; unfold avpHdrSize; split <;> simp
    have hcut := slice_append (pre ++ c ++ [v.flags] ++ l ++ w) v.data z
    rw [← hs'] at hcut
    have hpl : (pre ++ c ++ [v.flags] ++ l ++ w).length = pre.length + avpHdrSize v.flags := by
      simp only [List.length_append, hcl, hll, List.length_singleton]
      omega
    rwa [hpl] at hcut

/-- The vendor id, when there is one, brings the pointer to the data. -/
theorem AvpAt.readVendorId_eq {src : Block} {p : Nat} {v : AvpView} (hat : AvpAt src p v)
    (hv : Sendable v) (hp : p + 12 ≤ src.bytes.length) :
    readVendorId src v.flags (src.addr + (p + 4 + 1 + 3))
      = .ok (v.vendorId, src.addr + (p + avpHdrSize v.flags)) := by
  unfold readVendorId
  by_cases hV : v.flags &&& aaaAvpFlagVendorSpecific ≠ 0
  · have h12 : avpHdrSize v.flags = 12 := by unfold avpHdrSize; rw [if_pos hV]
    rw [if_pos hV, hat.vendor hV, Res.ofAccess_some, Res.ok_bind, ofNat_ofBe_be,
      padd_addr (by omega), h12]
    rfl
  · have h8 : avpHdrSize v.flags = 8 := by unfold avpHdrSize; rw [if_neg hV]
    rw [if_neg hV, hv.vendor (not_not.mp hV), h8]
    rfl

/-! ## The loop -/

/-- One round of the decoder on an encoded AVP. -/
theorem translateAvps_step {src : Block} {pre post : List UInt8} {v : AvpView}
    (hs : src.bytes = pre ++ encAvp v ++ post) (hv : Sendable v)
    (hb : src.bytes.length < 2 ^ 24) {mem : Nat → CreateMem} {n : Nat}
    (hmem : (mem n).avp = true) {h : Heap} {m : Message} {ids : List Nat} {us : List AvpView}
    (hh : Holds h m ids us) (fuel : Nat) :
    ∃ h' m' a, translateAvps src (src.addr + src.bytes.length) mem (fuel + 1) n
          (src.addr + pre.length) h m
        = translateAvps src (src.addr + src.bytes.length) mem fuel (n + 1)
          (src.addr + (pre ++ encAvp v).length) h' m'
      ∧ Holds h' m' (ids ++ [a]) (us ++ [v]) ∧ m'.header = m.header := by
  have hat := avpAt_encAvp hs
  obtain ⟨h₁, h₂, m', a, hcre, hadd, hh', hhdr⟩ := create_link hh hv hat.data hmem
  refine ⟨h₂, m', a, ?_, hh', hhdr⟩
  have hL := length_encAvp v
  have h8 := avpHdrSize_le v.flags
  have hd := hv.data
  have hpm := padLen_mod v.data.length
  have hhm := avpHdrSize_mod v.flags
  have htot : src.bytes.length = pre.length + (encAvp v).length + post.length := by
    rw [hs, List.length_append, List.length_append]
  have hlen : ofBe (be 3 (avpHdrSize v.flags + v.data.length))
      = avpHdrSize v.flags + v.data.length := ofBe_be (by omega)
  -- the length covers the header, so the subtraction does not wrap
  have hsub : usub (avpHdrSize v.flags + v.data.length) (avpHdrSize v.flags)
      = v.data.length := by
    rw [usub_eq (by omega) (by omega)]
    omega
  have hpad : to32xLen v.data.length = v.data.length + padLen v.data.length :=
    to32xLen_eq (by omega)
  have h12 : avpHdrSize 0x80 = 12 := rfl
  have hlt : src.addr + pre.length < src.addr + src.bytes.length := by omega
  have hroom : ¬ src.addr + (pre.length + 12) > src.addr + src.bytes.length := by omega
  have hone : ¬ avpHdrSize v.flags + v.data.length < 1 := by omega
  have hin : ¬ src.addr + src.bytes.length
      < src.addr + (pre.length + avpHdrSize v.flags + v.data.length) := by omega
  have hoff : src.addr + (pre.length + avpHdrSize v.flags) - src.addr
      = pre.length + avpHdrSize v.flags := by omega
  have hp1 : padd (src.addr + pre.length) 4 = src.addr + (pre.length + 4) := padd_addr (by omega)
  have hp2 : padd (src.addr + (pre.length + 4)) 1 = src.addr + (pre.length + 4 + 1) :=
    padd_addr (by omega)
  have hp3 : padd (src.addr + (pre.length + 4 + 1)) 3 = src.addr + (pre.length + 4 + 1 + 3) :=
    padd_addr (by omega)
  have hvd := hat.readVendorId_eq hv (by omega)
  rw [translateAvps, if_pos hlt, h12, padd_addr (by omega), if_neg hroom]
  simp only [hat.code, hat.flags, hat.len, Res.ofAccess_some, Res.ok_bind, hp1, hp2, hp3, hlen,
    if_neg hone, List.headD_cons, hvd, hsub]
  rw [padd_addr (by omega), if_neg hin, hoff, ofNat_ofBe_be, hcre, Res.ok_bind]
  simp only [hadd, Res.ok_bind, hpad]
  rw [padd_addr (by omega), List.length_append, hL]
  simp only [Nat.add_assoc]

/-- The whole loop on encoded AVPs. -/
theorem translateAvps_encAvps {src : Block} (hb : src.bytes.length < 2 ^ 24)
    {mem : Nat → CreateMem} (hmem : ∀ n, (mem n).avp = true) {vs : List AvpView}
    (hv : ∀ v ∈ vs, Sendable v) (pre : List UInt8) (hs : src.bytes = pre ++ encAvps vs)
    {fuel : Nat} (hf : vs.length < fuel) (n : Nat) {h : Heap} {m : Message} {ids : List Nat}
    {us : List AvpView} (hh : Holds h m ids us) :
    ∃ h' m' ids', translateAvps src (src.addr + src.bytes.length) mem fuel n
          (src.addr + pre.length) h m = .ok (h', m')
      ∧ Holds h' m' ids' (us ++ vs) ∧ m'.header = m.header := by
  induction vs generalizing pre fuel n h m ids us with
  | nil =>
      obtain ⟨fuel, rfl⟩ : ∃ k, fuel = k + 1 := ⟨fuel - 1, by simp at hf; omega⟩
      refine ⟨h, m, ids, ?_, by simpa using hh, rfl⟩
      -- the pointer stands at the end of the buffer, which ends the loop
      have hend : ¬ src.addr + pre.length < src.addr + src.bytes.length := by
        rw [hs]; simp [encAvps]
      rw [translateAvps, if_neg hend]
  | cons v vs ih =>
      obtain ⟨fuel, rfl⟩ : ∃ k, fuel = k + 1 := ⟨fuel - 1, by simp at hf; omega⟩
      rw [encAvps_cons, ← List.append_assoc] at hs
      obtain ⟨h₁, m₁, a, hstep, hh₁, hm₁⟩ :=
        translateAvps_step hs (hv v (by simp)) hb (hmem n) hh fuel
      obtain ⟨h', m', ids', hrun, hh', hm'⟩ :=
        ih (fun u hu => hv u (by simp [hu])) (pre ++ encAvp v) hs (by simpa using hf) (n + 1) hh₁
      refine ⟨h', m', ids', by rw [hstep, hrun], ?_, by rw [hm', hm₁]⟩
      simpa using hh'

end Disc.Msg
