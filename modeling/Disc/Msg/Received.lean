import Disc.Msg.Scan

/-!
# Sending on what was received

A message that was decoded can be encoded again; the SIP client does so with every answer
it gets. The flags of an AVP have been through `set_avp_fields` by then. For the codes that
function knows it leaves the M and P bits only, so a V bit is lost, while the vendor id the
bit announced stays in the AVP: the encoder then writes a header without it.

Everything else survives. The AVPs of a well formed buffer all have data, and a header
never gets longer, so what is written is no longer than what was read.
-/

namespace Disc.Msg

open Disc.Lib

/-- AVPs with data, each of them where the padding of the one before it ends. -/
inductive Tiled (buf : List UInt8) : Nat → List Nat → Nat → Prop
  | nil {p : Nat} : Tiled buf p [] p
  | cons {p e : Nat} {ps : List Nat} (hd : hdrAt buf p < lenAt buf p)
      (ht : Tiled buf (p + strideAt buf p) ps e) : Tiled buf p (p :: ps) e

section Tiles

variable {buf : List UInt8} {p e : Nat} {ps : List Nat}

theorem Tiled.le (ht : Tiled buf p ps e) : p ≤ e := by
  induction ht with
  | nil => exact Nat.le_refl _
  | cons hd ht ih => omega

/-- An AVP with data takes twelve bytes. -/
theorem strideAt_of_data (hd : hdrAt buf p < lenAt buf p) : 12 ≤ strideAt buf p := by
  have hh := @hdrAt_le buf p
  have hm := @strideAt_mod buf p
  unfold strideAt at hm ⊢
  omega

/-- The decoder has nothing to object to. -/
theorem Tiled.accepts (ht : Tiled buf p ps e) : Accepts buf e p ps e := by
  induction ht with
  | nil => exact .done (Nat.le_refl _)
  | @cons p e ps hd ht ih =>
      have hle := ht.le
      have hs := strideAt_of_data hd
      have hl : lenAt buf p ≤ strideAt buf p := Nat.le_add_right _ _
      have hh := @hdrAt_le buf p
      refine .next (by omega) ?_ ih
      unfold Refused
      omega

theorem Tiled.mem (ht : Tiled buf p ps e) :
    ∀ q ∈ ps, p ≤ q ∧ hdrAt buf q < lenAt buf q ∧ q + strideAt buf q ≤ e := by
  induction ht with
  | nil => exact fun q hq => absurd hq (by simp)
  | cons hd ht ih =>
      intro q hq
      rcases List.mem_cons.mp hq with rfl | hq
      · exact ⟨Nat.le_refl _, hd, ht.le⟩
      · exact ⟨by have := (ih q hq).1; omega, (ih q hq).2⟩

/-- No pointer moves out of the buffer. -/
theorem Tiled.fits {src : Block} (ht : Tiled src.bytes p ps e) (he : e ≤ src.bytes.length) :
    ∀ q ∈ ps, Fits src q := by
  intro q hq
  have hf := src.fits
  obtain ⟨-, hd, hend⟩ := ht.mem q hq
  have hs := strideAt_of_data hd
  exact ⟨by omega, by omega⟩

end Tiles

/-! ## The flags -/

/-- The codes `set_avp_fields` has an entry for. -/
def knownAvpCodes : List UInt32 :=
  [1, 25, 263, 283, 293, 264, 296, 27, 258, 262, 265, 266, 268, 270, 276, 278, 291, 33, 257, 269, 281]

theorem setAvpFields_unknown {code : UInt32} (h : code ∉ knownAvpCodes) (flags : UInt8) :
    setAvpFields code flags = (flags, .data) := by
  simp only [knownAvpCodes, List.mem_cons, List.not_mem_nil, or_false, not_or] at h
  simp [setAvpFields, h]

/-- A known code loses its V bit. -/
theorem setAvpFields_known {code : UInt32} (h : code ∈ knownAvpCodes) (flags : UInt8) :
    (setAvpFields code flags).1 &&& aaaAvpFlagVendorSpecific = 0 := by
  have hpv : ∀ f : UInt8, (0x20 &&& f) &&& 0x80 = 0 := by
    intro f
    rw [UInt8.and_comm 0x20 f, UInt8.and_assoc]
    exact UInt8.and_zero
  have hmpv : ∀ f : UInt8, (0x40 ||| (0x20 &&& f)) &&& 0x80 = 0 := by
    intro f
    have hf := congrArg UInt8.toBitVec (hpv f)
    apply UInt8.toBitVec_inj.mp
    simp only [UInt8.toBitVec_or, UInt8.toBitVec_and] at hf ⊢
    rw [BitVec.and_or_distrib_right, hf]
    rfl
  unfold setAvpFields aaaAvpFlagVendorSpecific
  split_ifs
  · exact hmpv flags
  · exact hmpv flags
  · rfl
  · exact hmpv flags
  · rfl
  · exact hpv flags
  · simp_all [knownAvpCodes]

/-- A header never gets longer. -/
theorem avpHdrSize_setAvpFields (code : UInt32) (flags : UInt8) :
    avpHdrSize (setAvpFields code flags).1 ≤ avpHdrSize flags := by
  by_cases h : code ∈ knownAvpCodes
  · have hz : avpHdrSize (setAvpFields code flags).1 = 8 := by
      unfold avpHdrSize
      rw [if_neg (not_not.mpr (setAvpFields_known h flags))]
    rw [hz]
    exact (avpHdrSize_le flags).1
  · exact Nat.le_of_eq (congrArg avpHdrSize (congrArg Prod.fst (setAvpFields_unknown h flags)))

/-! ## What the decoded message says -/

/-- The AVP at `q` as the decoded message presents it. -/
def viewAt (buf : List UInt8) (q : Nat) : AvpView where
  code := wordAt buf q
  flags := (setAvpFields (wordAt buf q) (flagsAt buf q)).1
  vendorId := vendorAt buf q
  data := (buf.drop (q + hdrAt buf q)).take (lenAt buf q - hdrAt buf q)

section Views

variable {buf : List UInt8} {q : Nat}

theorem view_cellAt (hd : hdrAt buf q < lenAt buf q) (hq : q + lenAt buf q ≤ buf.length) :
    (cellAt buf q).view = some (viewAt buf q) := by
  have hl := @lenAt_lt buf q
  have hsub : usub (lenAt buf q) (hdrAt buf q) = lenAt buf q - hdrAt buf q :=
    usub_eq (by omega) (by omega)
  unfold Avp.view Str.bytes slice
  simp only [cellAt, hsub]
  rw [if_pos (by omega)]
  rfl

theorem length_viewAt_data (hq : q + lenAt buf q ≤ buf.length) :
    (viewAt buf q).data.length = lenAt buf q - hdrAt buf q := by
  simp only [viewAt, List.length_take, List.length_drop]
  omega

/-- It takes no more room than it did. -/
theorem length_encAvp_viewAt (hd : hdrAt buf q < lenAt buf q) (hq : q + lenAt buf q ≤ buf.length) :
    (encAvp (viewAt buf q)).length ≤ strideAt buf q := by
  have hh := avpHdrSize_setAvpFields (wordAt buf q) (flagsAt buf q)
  have hm := @hdrAt_mod buf q
  have hpad : padLen (lenAt buf q - hdrAt buf q) = padLen (lenAt buf q) := padLen_congr (by omega)
  rw [length_encAvp, length_viewAt_data hq, hpad]
  unfold strideAt
  unfold hdrAt at hd ⊢
  simp only [viewAt]
  omega

end Views

section Reencode

variable {buf : List UInt8} {p e : Nat} {ps : List Nat}

theorem length_encAvps_tiled (ht : Tiled buf p ps e) (he : e ≤ buf.length) :
    p + (encAvps (ps.map (viewAt buf))).length ≤ e := by
  induction ht with
  | nil => exact Nat.le_refl _
  | @cons p e ps hd ht ih =>
      have hrest := ih he
      have hle := ht.le
      have hl : lenAt buf p ≤ strideAt buf p := Nat.le_add_right _ _
      have hfirst := length_encAvp_viewAt hd (by omega)
      rw [List.map_cons, encAvps_cons, List.length_append]
      omega

/-- The AVPs of the decoded message. -/
theorem Decoded.avpSeq_eq {h : Heap} {m : Message} (hd : Decoded buf ps h m)
    (ht : Tiled buf p ps e) (he : e ≤ buf.length) : avpSeq h m = some (ps.map (viewAt buf)) := by
  obtain ⟨ids, hl, hb⟩ := hd.avps
  have hview : ∀ q ∈ ps, (cellAt buf q).view = some (viewAt buf q) := by
    intro q hq
    obtain ⟨-, hdq, hend⟩ := ht.mem q hq
    have hle : lenAt buf q ≤ strideAt buf q := Nat.le_add_right _ _
    exact view_cellAt hdq (by omega)
  rw [hl.avpSeq_eq]
  unfold views
  clear ht hl hd
  induction ids generalizing ps with
  | nil =>
      obtain rfl := List.map_eq_nil_iff.mp hb.symm
      rfl
  | cons x ids ih =>
      cases ps with
      | nil => exact absurd hb (by simp)
      | cons q ps =>
          rw [List.map_cons, List.map_cons, List.cons.injEq] at hb
          rw [List.mapM_cons, view_of_body, hb.1, Option.bind_some, hview q (by simp),
            ih hb.2 fun q' hq' => hview q' (by simp [hq'])]
          rfl

/-- The AVP at `q` still has its vendor, if it had one. -/
def KeepsVendor (buf : List UInt8) (q : Nat) : Prop :=
  flagsAt buf q &&& aaaAvpFlagVendorSpecific ≠ 0 → wordAt buf q ∉ knownAvpCodes

theorem viewAt_flags_vendor :
    (viewAt buf p).flags &&& aaaAvpFlagVendorSpecific = flagsAt buf p &&& aaaAvpFlagVendorSpecific
      ↔ KeepsVendor buf p := by
  unfold KeepsVendor
  simp only [viewAt]
  by_cases hk : wordAt buf p ∈ knownAvpCodes
  · rw [setAvpFields_known hk]
    simp [hk, eq_comm]
  · rw [setAvpFields_unknown hk]
    simp [hk]

theorem viewAt_sendable (hd : hdrAt buf p < lenAt buf p) (hq : p + lenAt buf p ≤ buf.length)
    (hk : KeepsVendor buf p) : Sendable (viewAt buf p) where
  data := by
    rw [length_viewAt_data hq]
    omega
  flags := by
    simp only [viewAt, setAvpFields_idem]
  vendor := by
    intro hv
    rw [viewAt_flags_vendor.mpr hk] at hv
    simp only [viewAt, vendorAt]
    exact if_neg (not_not.mpr hv)

end Reencode

/-! ## Stability -/

/--
The decoded message can be encoded, decoding the result gives the same message, and its
AVPs have the vendor ids and V bits they had in the buffer.
-/
def Reencodes (buf : List UInt8) (ps : List Nat) (h : Heap) (m : Message) : Prop :=
  ∃ buf' vs, aaaBuildMsgBuffer true h m = .ok (.built buf', { m with buf := some buf' })
    ∧ avpSeq h m = some vs
    ∧ (∀ (src : Block) (mem : TranslateMem) (g : Heap) (attachBuf : Bool),
        src.bytes = buf' → mem.msg = true → (∀ n, (mem.avp n).avp = true) →
        ∃ g' m', aaaTranslateMessage mem g src buf'.length attachBuf = .ok (g', m')
          ∧ m'.header = m.header ∧ avpSeq g' m' = some vs)
    ∧ vs.map (fun v => (v.vendorId, v.flags &&& aaaAvpFlagVendorSpecific))
        = ps.map (fun q => (vendorAt buf q, flagsAt buf q &&& aaaAvpFlagVendorSpecific))

theorem Reencodes.keepsVendor {buf : List UInt8} {ps : List Nat} {h : Heap} {m : Message}
    (hre : Reencodes buf ps h m) (hseq : avpSeq h m = some (ps.map (viewAt buf))) :
    ∀ q ∈ ps, KeepsVendor buf q := by
  obtain ⟨buf', vs, -, hvs, -, hkeep⟩ := hre
  obtain rfl := Option.some.inj (hvs.symm.trans hseq)
  rw [List.map_map] at hkeep
  intro q hq
  exact viewAt_flags_vendor.mp (Prod.mk.inj (List.map_inj_left.mp hkeep q hq)).2

/--
**When a received message can be sent on.**

It comes back as it was received unless a vendor-specific AVP has one of the codes
`set_avp_fields` knows.
-/
theorem reencodes_iff {src : Block} {ps : List Nat} {mem : TranslateMem} {h h' : Heap}
    {m : Message} {attachBuf : Bool} (hsize : src.bytes.length ≤ 65536)
    (ht : Tiled src.bytes aaaMsgHdrSize ps (msgLenOf src.bytes))
    (hdec : aaaTranslateMessage mem h src src.bytes.length attachBuf = .ok (h', m)) :
    Reencodes src.bytes ps h' m ↔ ∀ q ∈ ps, KeepsVendor src.bytes q := by
  have hlen := (aaaTranslateMessage_ok hdec).2.2.2
  have hd := (ht.accepts.of_ok (ht.fits hlen) hdec).2
  have hseq := hd.avpSeq_eq ht hlen
  have henc := length_encAvps_tiled ht hlen
  have hn : encLen (ps.map (viewAt src.bytes)) < 2 ^ 24 := by
    unfold encLen
    omega
  constructor
  · exact fun hre => hre.keepsVendor hseq
  · intro hk
    have hbuild := aaaBuildMsgBuffer_eq hseq (by omega)
    refine ⟨encMsg m (ps.map (viewAt src.bytes)), ps.map (viewAt src.bytes), hbuild, hseq, ?_, ?_⟩
    · intro src' mem' g attachBuf' hsrc hmsg hmem
      have hsend : ∀ v ∈ ps.map (viewAt src.bytes), Sendable v := by
        intro v hv
        obtain ⟨q, hq, rfl⟩ := List.mem_map.mp hv
        obtain ⟨-, hdq, hend⟩ := ht.mem q hq
        have hle : lenAt src.bytes q ≤ strideAt src.bytes q := Nat.le_add_right _ _
        exact viewAt_sendable hdq (by omega) (hk q hq)
      -- the command code was read from three bytes
      have hcmd : m.commandCode.toNat < 2 ^ 24 := by
        have hh := hd.header
        simp only [Message.header, Prod.mk.injEq] at hh
        rw [hh.2.1]
        have hlt := ofBe_lt ((src.bytes.drop 5).take 3)
        have h3 : ((src.bytes.drop 5).take 3).length ≤ 3 := List.length_take_le _ _
        have hpow : 256 ^ ((src.bytes.drop 5).take 3).length ≤ 256 ^ 3 :=
          Nat.pow_le_pow_right (by omega) h3
        simp only [hdrMessage, UInt32.toNat_ofNat']
        omega
      obtain ⟨g', m', ids, htr, hh, hm⟩ :=
        aaaTranslateMessage_encMsg hsrc hcmd hn hsend hmsg hmem g attachBuf'
      rw [hsrc] at htr
      exact ⟨g', m', htr, hm, by rw [hh.list.avpSeq_eq]; exact hh.seq⟩
    · rw [List.map_map]
      refine List.map_congr_left fun q hq => ?_
      exact Prod.ext rfl (viewAt_flags_vendor.mpr (hk q hq))

theorem sampleBuffer_tiled : Tiled sampleBuffer aaaMsgHdrSize [20] (msgLenOf sampleBuffer) :=
  .cons (by decide) .nil

/-- The sample decodes, and can be sent on. -/
theorem reencodes_sample :
    ∃ h m, aaaTranslateMessage .all ⟨[]⟩ ⟨2 ^ 24, sampleBuffer, by decide⟩ 32 true = .ok (h, m)
      ∧ Reencodes sampleBuffer [20] h m := by
  obtain ⟨h, m, hdec, -⟩ := @Accepted.decoded ⟨2 ^ 24, sampleBuffer, by decide⟩ [20] 32 .all
    sampleBuffer_accepted (by decide)
    (@Tiled.fits 20 32 [20] ⟨2 ^ 24, sampleBuffer, by decide⟩ sampleBuffer_tiled (by decide)) rfl
    (fun _ _ => rfl) ⟨[]⟩ true
  refine ⟨h, m, hdec, (reencodes_iff (by decide) sampleBuffer_tiled hdec).mpr fun q hq => ?_⟩
  obtain rfl := List.mem_singleton.mp hq
  exact fun hv => absurd rfl hv

/-- A request with one AVP, of vendor nine and with the code of a Session-Id. -/
def vendorBuffer : List UInt8 :=
  [1, 0, 0, 36, 0x80, 0, 1, 18, 0, 0, 0, 0, 0, 0, 0, 0, 0, 0, 0, 0,
   0, 0, 1, 7, 0xc0, 0, 0, 16, 0, 0, 0, 9, 97, 98, 99, 100]

theorem vendorBuffer_tiled : Tiled vendorBuffer aaaMsgHdrSize [20] (msgLenOf vendorBuffer) :=
  .cons (by decide) .nil

/-- It is well formed and decodes, but the AVP has lost its V bit and cannot be sent on. -/
theorem vendorBuffer_not_reencodes :
    ∃ h m, aaaTranslateMessage .all ⟨[]⟩ ⟨2 ^ 24, vendorBuffer, by decide⟩ 36 true = .ok (h, m)
      ∧ Tiled vendorBuffer aaaMsgHdrSize [20] (msgLenOf vendorBuffer)
      ∧ ¬ Reencodes vendorBuffer [20] h m := by
  have hacc : Accepted vendorBuffer [20] 36 := ⟨by decide, by decide, vendorBuffer_tiled.accepts⟩
  obtain ⟨h, m, hdec, hd⟩ := @Accepted.decoded ⟨2 ^ 24, vendorBuffer, by decide⟩ [20] 36 .all hacc
    (by decide) (@Tiled.fits 20 36 [20] ⟨2 ^ 24, vendorBuffer, by decide⟩ vendorBuffer_tiled (by decide)) rfl
    (fun _ _ => rfl) ⟨[]⟩ true
  refine ⟨h, m, hdec, vendorBuffer_tiled, fun hre => ?_⟩
  have hseq := hd.avpSeq_eq vendorBuffer_tiled (by decide)
  exact hre.keepsVendor hseq 20 (by simp) (by decide) (by decide)

end Disc.Msg
