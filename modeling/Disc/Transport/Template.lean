import Disc.Msg.Decode
import Disc.Transport.Exchange

/-!
# Two encoders

The transport layer writes its messages by hand, into copies of buffers that
`build_msg_buffers` prepared; everyone else makes an `AAAMessage`, adds AVPs to it and calls
`AAABuildMsgBuffer`. For the messages of this layer both ways give the same bytes, with three
exceptions. The copy of the Host-IP-Address for IPv6 has lost its M flag; the flags of the
product name are what is left of its length; and the length of a request is written without a
mask, so that a long one runs into the version.
-/

namespace Disc.Transport

open Disc.Lib Disc.Msg

/-! ## Messages made of new AVPs -/

/-- What `AAACreateAVP` is given: a code and data, without vendor id. -/
structure NewAvp where
  code : UInt32
  data : List UInt8
deriving Repr, DecidableEq

namespace NewAvp

/-- The flags `set_avp_fields` leaves of the M flag. -/
def flags (a : NewAvp) : UInt8 := (setAvpFields a.code 0x40).1

/-- The AVP that is created. -/
def view (a : NewAvp) : AvpView := ⟨a.code, a.flags, 0, a.data⟩

/-- The same as `build_msg_buffers` puts it. -/
def item (a : NewAvp) : Item := ⟨a.code.toNat, a.flags, a.data⟩

end NewAvp

/-- `AAACreateAVP` with the M flag requested, and `AAAAddAVPToMessage` behind the last AVP. -/
def addNew (status : AvpDataStatus) (h : Heap) (m : Message) (a : NewAvp) : Res (Heap × Message) := do
  let (avp, h) ← aaaCreateAVP ⟨true, true⟩ h a.code 0x40 0 (some (a.data, 0)) a.data.length status
  let (_, h, m) ← aaaAddAVPToMessage h m avp m.tail
  return (h, m)

/-- The same for each of a list. -/
def addAllNew (status : AvpDataStatus) : Heap → Message → List NewAvp → Res (Heap × Message)
  | h, m, [] => .ok (h, m)
  | h, m, a :: as => do
      let (h, m) ← addNew status h m a
      addAllNew status h m as

/-- What `AAABuildMsgBuffer` makes of the header of `m` and these AVPs. -/
def encodeNew (status : AvpDataStatus) (h : Heap) (m : Message) (as : List NewAvp) : Res BuildRes := do
  let (h, m) ← addAllNew status h m as
  let (r, _) ← aaaBuildMsgBuffer true h m
  return r

/-- Whoever owns the data, the AVP shows it. -/
theorem aaaCreateAVP_new (status : AvpDataStatus) (h : Heap) {a : NewAvp} (ha : a.data ≠ []) :
    ∃ c : Avp, aaaCreateAVP ⟨true, true⟩ h a.code 0x40 0 (some (a.data, 0)) a.data.length status
        = .ok (some h.size, ⟨h.cells ++ [c]⟩)
      ∧ c.view = some a.view := by
  have hlen : a.data.length ≠ 0 := mt List.length_eq_zero_iff.mp ha
  have hd : slice a.data 0 a.data.length = some a.data := by simp [slice]
  cases status with
  | duplicateData =>
      simp only [aaaCreateAVP, hlen, if_false, Bool.not_true, Bool.false_eq_true, hd,
        Res.ofAccess_some, Res.ok_bind, Res.pure_eq]
      exact ⟨_, rfl, by simp [Avp.view, Str.bytes, hd, NewAvp.view, NewAvp.flags]⟩
  | dontFreeData =>
      simp only [aaaCreateAVP, hlen, if_false, Bool.not_true, Bool.false_eq_true]
      exact ⟨_, rfl, by simp [Avp.view, Str.bytes, hd, NewAvp.view, NewAvp.flags]⟩
  | freeData =>
      simp only [aaaCreateAVP, hlen, if_false, Bool.not_true, Bool.false_eq_true]
      exact ⟨_, rfl, by simp [Avp.view, Str.bytes, hd, NewAvp.view, NewAvp.flags]⟩

theorem addNew_holds (status : AvpDataStatus) {h : Heap} {m : Message} {ids : List Nat}
    {us : List AvpView} (hh : Holds h m ids us) {a : NewAvp} (ha : a.data ≠ []) :
    ∃ h' m' ids', addNew status h m a = .ok (h', m') ∧ Holds h' m' ids' (us ++ [a.view])
      ∧ m'.header = m.header := by
  obtain ⟨c, hc, hv⟩ := aaaCreateAVP_new status h ha
  obtain ⟨h', m', hadd, hlink, hhdr⟩ := link_view hh hv
  refine ⟨h', m', _, ?_, hlink, hhdr⟩
  simp only [addNew, hc, Res.ok_bind, hadd, Res.pure_eq]

/-- **AVPs that are added one after the other are those of the message**, in this order. -/
theorem addAllNew_holds (status : AvpDataStatus) {as : List NewAvp} (has : ∀ a ∈ as, a.data ≠ [])
    {h : Heap} {m : Message} {ids : List Nat} {us : List AvpView} (hh : Holds h m ids us) :
    ∃ h' m' ids', addAllNew status h m as = .ok (h', m') ∧ Holds h' m' ids' (us ++ as.map (·.view))
      ∧ m'.header = m.header := by
  induction as generalizing h m ids us with
  | nil => exact ⟨h, m, ids, rfl, by rwa [List.map_nil, List.append_nil], rfl⟩
  | cons a as ih =>
      obtain ⟨h₁, m₁, ids₁, hadd, hh₁, hhdr₁⟩ := addNew_holds status hh (has a (by simp))
      obtain ⟨h₂, m₂, ids₂, hall, hh₂, hhdr₂⟩ := ih (fun b hb => has b (by simp [hb])) hh₁
      refine ⟨h₂, m₂, ids₂, ?_, ?_, hhdr₂.trans hhdr₁⟩
      · rw [addAllNew, hadd, Res.ok_bind]
        exact hall
      · rwa [List.append_assoc, List.singleton_append] at hh₂

theorem encMsg_congr {m m' : Message} (h : m'.header = m.header) (vs : List AvpView) :
    encMsg m' vs = encMsg m vs := by
  simp only [Message.header, Prod.mk.injEq] at h
  obtain ⟨h₁, h₂, h₃, h₄, h₅⟩ := h
  simp only [encMsg, encHdr, h₁, h₂, h₃, h₄, h₅]

/-- A message without AVPs. -/
theorem holds_nil (h : Heap) {m : Message} (hhead : m.head = none) (htail : m.tail = none) :
    Holds h m [] [] :=
  ⟨⟨⟨List.nodup_nil, hhead, htail⟩, by simp⟩, rfl⟩

/-- **What the general encoder writes.** -/
theorem encodeNew_eq (status : AvpDataStatus) (h : Heap) {m : Message} (hhead : m.head = none)
    (htail : m.tail = none) {as : List NewAvp} (has : ∀ a ∈ as, a.data ≠ [])
    (hlen : encLen (as.map (·.view)) < 2 ^ 32) :
    encodeNew status h m as = .ok (.built (encMsg m (as.map (·.view)))) := by
  -- the AVPs are appended to the message, which keeps its header
  obtain ⟨h', m', ids', hall, hh, hhdr⟩ := addAllNew_holds status has (holds_nil h hhead htail)
  have hseq : avpSeq h' m' = some (as.map (·.view)) := by
    rw [hh.list.avpSeq_eq, hh.seq, List.nil_append]
  rw [encodeNew, hall, Res.ok_bind]
  dsimp only
  rw [aaaBuildMsgBuffer_eq hseq hlen, Res.ok_bind, encMsg_congr hhdr]
  rfl

/-- It never writes more than 32 bits can count. -/
theorem length_encodeNew {status : AvpDataStatus} {h : Heap} {m : Message} {as : List NewAvp}
    {buf : List UInt8} (henc : encodeNew status h m as = .ok (.built buf)) : buf.length < 2 ^ 32 := by
  obtain ⟨⟨h', m'⟩, -, henc⟩ := Res.bind_eq_ok henc
  obtain ⟨⟨r, m''⟩, hb, hr⟩ := Res.bind_eq_ok henc
  obtain rfl : r = .built buf := Res.ok.inj hr
  exact length_built hb

/-! ## One AVP, both ways -/

/-- The bytes an AVP without vendor id takes. -/
def avpSize (data : List UInt8) : Nat := 8 + data.length + padLen data.length

theorem le_length_putAvp (code : Nat) (flags : UInt8) (data : List UInt8) :
    8 + data.length ≤ (putAvp code flags data).length := by
  simp only [putAvp, List.length_append, length_be, List.length_singleton, List.length_replicate]
  omega

theorem padLen_le (n : Nat) : padLen n ≤ 3 := by
  unfold padLen
  split <;> omega

/-- Padding goes wrong only for data that has no 32-bit length either. -/
theorem length_putAvp_cases (code : Nat) (flags : UInt8) (data : List UInt8) :
    (putAvp code flags data).length = avpSize data
      ∨ 2 ^ 31 ≤ (putAvp code flags data).length ∧ 2 ^ 31 ≤ avpSize data := by
  have hle := le_length_putAvp code flags data
  have hpad := padLen_le data.length
  unfold avpSize
  by_cases h : data.length + padLen data.length < 2 ^ 32
  · left
    simp only [putAvp, List.length_append, length_be, List.length_singleton, List.length_replicate,
      to32xLen_eq h]
    omega
  · right
    omega

theorem NewAvp.flags_vendor (a : NewAvp) : ¬ a.flags &&& aaaAvpFlagVendorSpecific ≠ 0 := by
  unfold NewAvp.flags setAvpFields
  split_ifs <;> decide

/-- **The two encoders put one AVP the same way.** -/
theorem encAvp_view {a : NewAvp} (h : a.data.length + 4 < 2 ^ 32) : encAvp a.view = a.item.bytes := by
  have hpad := padLen_le a.data.length
  have hto := @to32xLen_eq a.data.length (by omega)
  have hhdr : avpHdrSize a.flags = 8 := by
    unfold avpHdrSize
    rw [if_neg a.flags_vendor]
  rw [encAvp, if_neg (show ¬ a.view.flags &&& _ ≠ 0 from a.flags_vendor)]
  simp only [NewAvp.view, NewAvp.item, Item.bytes, putAvp, hhdr, avpHdrSize_zero, hto,
    Nat.add_sub_cancel_left, List.append_assoc, List.nil_append]

theorem encAvps_views {as : List NewAvp} (h : ∀ a ∈ as, a.data.length + 4 < 2 ^ 32) :
    encAvps (as.map (·.view)) = (as.map (·.item)).flatMap Item.bytes := by
  induction as with
  | nil => rfl
  | cons a as ih =>
      rw [List.map_cons, List.map_cons, encAvps_cons, List.flatMap_cons, encAvp_view (h a (by simp)),
        ih fun b hb => h b (by simp [hb])]

/-! ## The AVPs of this layer -/

namespace Cfg

/-- The AVPs of a CER, and the last ones of a CEA. -/
def ceAvps (cfg : Cfg) (ip : IpAddr) : List NewAvp :=
  [⟨264, cfg.aaaIdentity⟩, ⟨296, cfg.aaaRealm⟩, ⟨257, ip.addr⟩, ⟨266, be 4 cfg.vendorId.toNat⟩,
   ⟨269, cfg.productName⟩]
  ++ cfg.authAppIds.map (fun id => ⟨258, be 4 id.toNat⟩)
  ++ cfg.acctAppIds.map (fun id => ⟨259, be 4 id.toNat⟩)

/-- The AVPs of a DWR, and the last ones of a DWA or DPA. -/
def stdAvps (cfg : Cfg) : List NewAvp := [⟨264, cfg.aaaIdentity⟩, ⟨296, cfg.aaaRealm⟩]

/-- The AVPs of a DPR. -/
def dpAvps (cfg : Cfg) (cause : UInt32) : List NewAvp := cfg.stdAvps ++ [⟨273, be 4 cause.toNat⟩]

/-- The names every message of this layer is made of are there. -/
structure Named (cfg : Cfg) : Prop where
  aaaIdentity : cfg.aaaIdentity ≠ []
  aaaRealm : cfg.aaaRealm ≠ []
  productName : cfg.productName ≠ []

/-- The bytes of a CER that gives an IPv4 address. -/
def ceSize (cfg : Cfg) : Nat :=
  aaaMsgHdrSize + avpSize cfg.aaaIdentity + avpSize cfg.aaaRealm + 12 + 12 + avpSize cfg.productName
    + 12 * (cfg.authAppIds.length + cfg.acctAppIds.length)

end Cfg

/-- The Result-Code of an answer. -/
def resAvp (res : UInt32) : NewAvp := ⟨268, be 4 res.toNat⟩

/-- The header of a request of this layer. -/
def reqMessage (code : Nat) (hbh ete : UInt32) : Message :=
  { Message.zero with flags := 0x80, commandCode := UInt32.ofNat code, hopbyhopId := hbh, endtoendId := ete }

/-- The header of an answer of this layer. -/
def ansMessage (req : List UInt8) : Message :=
  { Message.zero with commandCode := UInt32.ofNat (msgCode req)
                      applicationId := UInt32.ofNat (ofBe (word req 2))
                      hopbyhopId := hopbyhopOf req, endtoendId := endtoendOf req }

/-- **The two encoders agree** on all messages of this layer. -/
structure EncodersAgree (cfg : Cfg) (ip : IpAddr) : Prop where
  cer : ∀ status h hbh ete, encodeNew status h (reqMessage ceMsgCode hbh ete) (cfg.ceAvps ip)
    = .ok (.built (cfg.cer ip hbh ete))
  cea : ∀ status h req res, 20 ≤ req.length →
    encodeNew status h (ansMessage req) (resAvp res :: cfg.ceAvps ip) = .ok (.built (cfg.cea ip req res))
  dwr : ∀ status h hbh ete, encodeNew status h (reqMessage dwMsgCode hbh ete) cfg.stdAvps
    = .ok (.built (cfg.dwr hbh ete))
  dpr : ∀ status h cause hbh ete, encodeNew status h (reqMessage dpMsgCode hbh ete) (cfg.dpAvps cause)
    = .ok (.built (cfg.dpr cause hbh ete))
  dwa_dpa : ∀ status h req res, 20 ≤ req.length →
    encodeNew status h (ansMessage req) (resAvp res :: cfg.stdAvps) = .ok (.built (cfg.stdAnswer req res))

/-! ## Bodies -/

/-- What both encoders write behind the header. -/
def bodyOf (as : List NewAvp) : List UInt8 := (as.map (·.item)).flatMap Item.bytes

theorem bodyOf_cons (a : NewAvp) (as : List NewAvp) : bodyOf (a :: as) = a.item.bytes ++ bodyOf as := rfl

theorem bodyOf_append (as bs : List NewAvp) : bodyOf (as ++ bs) = bodyOf as ++ bodyOf bs := by
  rw [bodyOf, List.map_append, List.flatMap_append, bodyOf, bodyOf]

/-- In a body that can be counted, every AVP can. -/
theorem fits_of_length {as : List NewAvp} (h : (bodyOf as).length < 2 ^ 32) :
    ∀ a ∈ as, a.data.length + 4 < 2 ^ 32 := by
  intro a ha
  obtain ⟨pre, post, rfl⟩ := List.append_of_mem ha
  have hle := le_length_putAvp a.item.code a.item.flags a.item.data
  rw [bodyOf_append, bodyOf_cons, List.length_append, List.length_append] at h
  change 8 + a.data.length ≤ a.item.bytes.length at hle
  omega

theorem encLen_views {as : List NewAvp} (h : (bodyOf as).length < 2 ^ 32) :
    encLen (as.map (·.view)) = 20 + (bodyOf as).length := by
  rw [encLen, encAvps_views (fits_of_length h)]
  rfl

theorem bodyOf_stdAvps (cfg : Cfg) : bodyOf cfg.stdAvps = reqBody cfg [] := by
  simp only [bodyOf, Cfg.stdAvps, reqBody, List.map_cons, List.map_nil, List.flatMap_cons, List.flatMap_nil,
    List.append_nil]
  rfl

theorem bodyOf_dpAvps (cfg : Cfg) (cause : UInt32) :
    bodyOf (cfg.dpAvps cause) = reqBody cfg (dprAvp cause) := by
  rw [Cfg.dpAvps, bodyOf_append, bodyOf_stdAvps, reqBody, reqBody, List.append_nil]
  simp only [bodyOf, List.map_cons, List.map_nil, List.flatMap_cons, List.flatMap_nil, List.append_nil]
  rfl

theorem bodyOf_ids {code : UInt32} (hcode : (setAvpFields code 0x40).1 = 0x40) (ids : List UInt32) :
    bodyOf (ids.map fun id => ⟨code, be 4 id.toNat⟩)
      = ids.flatMap fun id => putAvp code.toNat 0x40 (be 4 id.toNat) := by
  rw [bodyOf, List.map_map, List.flatMap_map]
  simp only [Function.comp_apply, Item.bytes, NewAvp.item, NewAvp.flags, hcode]

/-- What the general encoder writes behind the host address, the product name without flags. -/
def restOf (cfg : Cfg) : List UInt8 :=
  putAvp 266 0x40 (be 4 cfg.vendorId.toNat) ++ putAvp 269 0 cfg.productName
    ++ cfg.authAppIds.flatMap (fun i => putAvp 258 0x40 (be 4 i.toNat))
    ++ cfg.acctAppIds.flatMap (fun i => putAvp 259 0x40 (be 4 i.toNat))

theorem length_ceAvpRest (cfg : Cfg) : (ceAvpRest cfg).length = (restOf cfg).length := by
  simp only [ceAvpRest, restOf, putAvp, List.length_append, List.length_singleton, length_be]

/-- The template has the product name without flags too, if its length leaves none. -/
theorem ceAvpRest_eq_iff (cfg : Cfg) : ceAvpRest cfg = restOf cfg ↔ lenFlags cfg.productName = 0 := by
  constructor
  · intro h
    rw [ceAvpRest, restOf, List.append_cancel_right_eq, List.append_cancel_right_eq,
      List.append_cancel_left_eq] at h
    simpa only [putAvp, List.append_cancel_left_eq, List.append_cancel_right_eq, List.cons.injEq,
      and_true, List.cons_append, List.nil_append, true_and, List.append_assoc] using h
  · intro h
    rw [ceAvpRest, restOf, h]

/-- The general encoder always puts the M flag on the host address. -/
theorem bodyOf_ceAvps (cfg : Cfg) (ip : IpAddr) :
    bodyOf (cfg.ceAvps ip) = reqBody cfg (putAvp 257 0x40 ip.addr ++ restOf cfg) := by
  rw [Cfg.ceAvps, bodyOf_append, bodyOf_append, bodyOf_ids (by decide), bodyOf_ids (by decide)]
  simp only [bodyOf, List.map_cons, List.map_nil, List.flatMap_cons, List.flatMap_nil, List.append_nil,
    reqBody, restOf, List.append_assoc]
  rfl

/-! ## Headers -/

theorem encMsg_req {code : Nat} (hcode : code < 2 ^ 24) (hbh ete : UInt32) {as : List NewAvp}
    (h : (bodyOf as).length < 2 ^ 32) :
    encMsg (reqMessage code hbh ete) (as.map (·.view))
      = (1 :: be 3 (20 + (bodyOf as).length)) ++ (0x80 :: be 3 code) ++ [0, 0, 0, 0]
        ++ le 4 hbh.toNat ++ le 4 ete.toNat ++ bodyOf as := by
  have hc : (UInt32.ofNat code).toNat = code := by
    rw [UInt32.toNat_ofNat']
    omega
  rw [encMsg, encLen_views h, encAvps_views (fits_of_length h)]
  simp only [encHdr, reqMessage, Message.zero, hc]
  rfl

theorem encMsg_ans {req : List UInt8} (hreq : 20 ≤ req.length) {as : List NewAvp}
    (h : (bodyOf as).length < 2 ^ 32) :
    encMsg (ansMessage req) (as.map (·.view))
      = (1 :: be 3 (20 + (bodyOf as).length)) ++ (0 :: (word req 1).drop 1) ++ word req 2
        ++ word req 3 ++ word req 4 ++ bodyOf as := by
  have hw : ∀ i, i ≤ 4 → (word req i).length = 4 := fun i hi => length_word (by omega)
  have hcode : be 3 (UInt32.ofNat (msgCode req)).toNat = (word req 1).drop 1 := by
    have hl : ((word req 1).drop 1).length = 3 := by rw [List.length_drop, hw 1 (by decide)]
    have hlt := ofBe_lt ((word req 1).drop 1)
    have hbe := be_ofBe ((word req 1).drop 1)
    rw [hl] at hlt hbe
    have hsize : ofBe ((word req 1).drop 1) < UInt32.size := Nat.lt_trans hlt (by decide)
    rw [msgCode, UInt32.toNat_ofNat_of_lt' hsize]
    exact hbe
  have happ : be 4 (UInt32.ofNat (ofBe (word req 2))).toNat = word req 2 := by
    have hlt := ofBe_lt (word req 2)
    have hbe := be_ofBe (word req 2)
    rw [hw 2 (by decide)] at hlt hbe
    rw [UInt32.toNat_ofNat_of_lt' (by simpa using hlt)]
    exact hbe
  have hhbh : le 4 (hopbyhopOf req).toNat = word req 3 := le_ofNat_ofLe (hw 3 (by decide))
  have hete : le 4 (endtoendOf req).toNat = word req 4 := le_ofNat_ofLe (hw 4 (by decide))
  rw [encMsg, encLen_views h, encAvps_views (fits_of_length h)]
  simp only [encHdr, ansMessage, Message.zero, hcode, happ, hhbh, hete]
  rfl

/-! ## Where they agree -/

theorem version_kept {n : Nat} (h : n < 2 ^ 32) : 1 ||| UInt8.ofNat (n / 2 ^ 24) = 1 ↔ n < 2 ^ 25 := by
  have hbit : ∀ b < 256, (1 ||| UInt8.ofNat b = 1 ↔ b < 2) := by decide +kernel
  rw [hbit (n / 2 ^ 24) (by omega)]
  omega

/-- A request of this layer, with its length short of the version. -/
theorem encodeNew_req {cfg : Cfg} {code : Nat} (hcode : code < 2 ^ 24) {as : List NewAvp}
    {avps : List UInt8} (hne : ∀ a ∈ as, a.data ≠ []) (hbody : bodyOf as = reqBody cfg avps)
    (hlen : 20 + (bodyOf as).length < 2 ^ 25) (status : AvpDataStatus) (h : Heap) (hbh ete : UInt32) :
    encodeNew status h (reqMessage code hbh ete) as
      = .ok (.built (stamp (buildReq cfg code avps) hbh ete)) := by
  have hfit : (bodyOf as).length < 2 ^ 32 := by omega
  rw [encodeNew_eq status h rfl rfl hne (by rw [encLen_views hfit]; omega), encMsg_req hcode hbh ete hfit,
    stamp_buildReq_eq cfg avps hbh ete hcode, ← hbody, (version_kept (by omega)).mpr hlen]

/-- An answer of this layer, of any length. -/
theorem encodeNew_ans {cfg : Cfg} {as : List NewAvp} {avps req : List UInt8} (hreq : 20 ≤ req.length)
    (res : UInt32) (hne : ∀ a ∈ as, a.data ≠ []) (hbody : bodyOf as = reqBody cfg avps)
    (hlen : 32 + (bodyOf as).length < 2 ^ 32) (status : AvpDataStatus) (h : Heap) :
    encodeNew status h (ansMessage req) (resAvp res :: as) = .ok (.built (buildAns cfg avps req res)) := by
  have hres : (resAvp res).item.bytes = putAvp 268 0x40 (be 4 res.toNat) := rfl
  have hans : bodyOf (resAvp res :: as) = ansBody cfg avps res := by
    rw [bodyOf_cons, hbody, hres, ansBody]
  have h12 : (bodyOf (resAvp res :: as)).length = 12 + (bodyOf as).length := by
    rw [bodyOf_cons, List.length_append, hres, length_wordAvp 268 0x40 (length_be _ _)]
  have hne' : ∀ a ∈ resAvp res :: as, a.data ≠ [] := by
    intro a ha
    rcases List.mem_cons.mp ha with rfl | ha
    · exact List.ne_nil_of_length_pos (by rw [resAvp, length_be]; decide)
    · exact hne a ha
  have hfit : (bodyOf (resAvp res :: as)).length < 2 ^ 32 := by omega
  rw [encodeNew_eq status h rfl rfl hne' (by rw [encLen_views hfit]; omega), encMsg_ans hreq hfit,
    buildAns_eq cfg avps res hreq, hans]

section Agree

variable {cfg : Cfg} {ip : IpAddr}

theorem ceAvps_ne (hn : cfg.Named) (ip : IpAddr) : ∀ a ∈ cfg.ceAvps ip, a.data ≠ [] := by
  have hword : ∀ n, be 4 n ≠ [] := fun n => List.ne_nil_of_length_pos (by rw [length_be]; decide)
  have hip : ip.addr ≠ [] := by
    refine List.ne_nil_of_length_pos ?_
    rw [ip.len]
    split <;> decide
  intro a ha
  simp only [Cfg.ceAvps, List.mem_append, List.mem_cons, List.not_mem_nil, or_false, List.mem_map] at ha
  rcases ha with ((rfl | rfl | rfl | rfl | rfl) | ⟨id, -, rfl⟩) | ⟨id, -, rfl⟩
  · exact hn.aaaIdentity
  · exact hn.aaaRealm
  · exact hip
  · exact hword _
  · exact hn.productName
  · exact hword _
  · exact hword _

theorem stdAvps_ne (hn : cfg.Named) : ∀ a ∈ cfg.stdAvps, a.data ≠ [] := by
  intro a ha
  simp only [Cfg.stdAvps, List.mem_cons, List.not_mem_nil, or_false] at ha
  rcases ha with rfl | rfl
  · exact hn.aaaIdentity
  · exact hn.aaaRealm

theorem dpAvps_ne (hn : cfg.Named) (cause : UInt32) : ∀ a ∈ cfg.dpAvps cause, a.data ≠ [] := by
  intro a ha
  rcases List.mem_append.mp ha with ha | ha
  · exact stdAvps_ne hn a ha
  · obtain rfl := List.mem_singleton.mp ha
    exact List.ne_nil_of_length_pos (by rw [length_be]; decide)

theorem length_reqBody_append (cfg : Cfg) (avps : List UInt8) :
    (reqBody cfg avps).length = (reqBody cfg []).length + avps.length := by
  simp only [reqBody, List.length_append, List.length_nil, Nat.add_zero]

/-- What the length of the CER says about the configuration, and the other way round. -/
theorem length_ceBody_lt (h4 : ip.isV6 = false) :
    20 + (bodyOf (cfg.ceAvps ip)).length < 2 ^ 25 ↔ cfg.ceSize < 2 ^ 25 := by
  have hip : ip.addr.length = 4 := by rw [ip.len, h4]; rfl
  have hl : (bodyOf (cfg.ceAvps ip)).length
      = (putAvp 264 0x40 cfg.aaaIdentity).length + (putAvp 296 0x40 cfg.aaaRealm).length + 12 + 12
        + (putAvp 269 0 cfg.productName).length
        + 12 * (cfg.authAppIds.length + cfg.acctAppIds.length) := by
    have h257 := length_wordAvp 257 0x40 hip
    have h266 := length_wordAvp 266 0x40 (length_be 4 cfg.vendorId.toNat)
    rw [bodyOf_ceAvps]
    simp only [reqBody, restOf, List.length_append, length_ids]
    omega
  have h20 : aaaMsgHdrSize = 20 := rfl
  have hi := length_putAvp_cases 264 0x40 cfg.aaaIdentity
  have hr := length_putAvp_cases 296 0x40 cfg.aaaRealm
  have hp := length_putAvp_cases 269 0 cfg.productName
  rw [hl, Cfg.ceSize]
  omega

/-- The flags of the host address do not change the length of anything. -/
theorem length_ceBody (cfg : Cfg) (ip : IpAddr) :
    (reqBody cfg (ceAvp cfg ip)).length = (bodyOf (cfg.ceAvps ip)).length := by
  rw [bodyOf_ceAvps, length_reqBody_append cfg (ceAvp cfg ip), length_reqBody_append cfg (_ ++ _), ceAvp]
  split <;> simp only [putAvp, List.length_append, List.length_singleton, length_be, length_ceAvpRest]

theorem ceAvp_of_v4 (h4 : ip.isV6 = false) :
    ceAvp cfg ip = putAvp 257 0x40 ip.addr ++ ceAvpRest cfg := by
  rw [ceAvp, h4]
  rfl

/-- The template says what the general encoder does only for IPv4 and a name that leaves no flags. -/
theorem flags_of_body (h : reqBody cfg (ceAvp cfg ip) = bodyOf (cfg.ceAvps ip)) :
    ip.isV6 = false ∧ lenFlags cfg.productName = 0 := by
  rw [bodyOf_ceAvps, reqBody, reqBody, List.append_cancel_left_eq, ceAvp] at h
  -- the address takes as many bytes with either flags
  obtain ⟨hip, hrest⟩ := List.append_inj h (by
    split <;> simp only [putAvp, List.length_append, List.length_singleton, length_be])
  refine ⟨?_, (ceAvpRest_eq_iff cfg).mp hrest⟩
  by_contra h6
  rw [Bool.not_eq_false] at h6
  rw [if_pos h6] at hip
  simp only [putAvp, List.append_cancel_left_eq, List.append_cancel_right_eq, List.cons.injEq,
    and_true] at hip
  exact absurd hip (by decide)

/-- What a length leaves of the flags, as long as it is no longer than a message can be. -/
theorem lenFlags_eq_zero_iff {data : List UInt8} (h : 8 + data.length < 2 ^ 32) :
    lenFlags data = 0 ↔ 8 + data.length < 2 ^ 24 := by
  refine ⟨fun hz => ?_, lenFlags_eq_zero⟩
  have hz := congrArg UInt8.toNat hz
  rw [lenFlags, avpHdrSize_zero, UInt8.toNat_ofNat'] at hz
  simp only [UInt8.toNat_zero] at hz
  omega

theorem cer_agrees_only (hn : cfg.Named)
    (hcer : encodeNew .dontFreeData ⟨[]⟩ (reqMessage ceMsgCode 0 0) (cfg.ceAvps ip)
      = .ok (.built (cfg.cer ip 0 0))) :
    ip.isV6 = false ∧ 8 + cfg.productName.length < 2 ^ 24
      ∧ 20 + (bodyOf (cfg.ceAvps ip)).length < 2 ^ 25 := by
  have hstamp := @stamp_buildReq_eq cfg ceMsgCode (ceAvp cfg ip) 0 0 (by decide)
  -- that the encoder came to an end bounds the length, and with it every AVP
  have hlen := length_encodeNew hcer
  rw [Cfg.cer, hstamp, length_ceBody] at hlen
  simp only [List.length_append, List.length_cons, length_be, length_le, length_ceBody] at hlen
  have hfit : (bodyOf (cfg.ceAvps ip)).length < 2 ^ 32 := by omega
  rw [encodeNew_eq .dontFreeData ⟨[]⟩ rfl rfl (ceAvps_ne hn ip) (by rw [encLen_views hfit]; omega),
    encMsg_req (by decide) 0 0 hfit, Cfg.cer, hstamp, length_ceBody] at hcer
  -- what is left to compare is the first byte and the AVPs
  simp only [Res.ok.injEq, BuildRes.built.injEq, List.append_assoc, List.cons_append, List.cons.injEq,
    List.append_cancel_left_eq, true_and] at hcer
  obtain ⟨h4, hname⟩ := flags_of_body hcer.2.symm
  have hfits := fits_of_length hfit ⟨269, cfg.productName⟩ (by simp [Cfg.ceAvps])
  have hver := (version_kept (by omega)).mp hcer.1.symm
  have hlong : 8 + cfg.productName.length ≤ (bodyOf (cfg.ceAvps ip)).length := by
    have hle := le_length_putAvp 269 0 cfg.productName
    rw [bodyOf_ceAvps, length_reqBody_append]
    simp only [restOf, List.length_append]
    omega
  exact ⟨h4, (lenFlags_eq_zero_iff (by omega)).mp hname, hver⟩

/--
**When the two encoders agree.**

Exactly on the messages of a node with an IPv4 address whose product name has a length that fits
three bytes, header included, and whose CER is not so long that its length reaches the second
bit of the version.
-/
theorem encodersAgree_iff (hn : cfg.Named) (ip : IpAddr) :
    EncodersAgree cfg ip
      ↔ ip.isV6 = false ∧ 8 + cfg.productName.length < 2 ^ 24 ∧ cfg.ceSize < 2 ^ 25 := by
  constructor
  · intro hagree
    obtain ⟨h4, hname, hlt⟩ := cer_agrees_only hn (hagree.cer .dontFreeData ⟨[]⟩ 0 0)
    exact ⟨h4, hname, (length_ceBody_lt h4).mp hlt⟩
  · rintro ⟨h4, hname, hsize⟩
    have hlt := (@length_ceBody_lt cfg ip h4).mpr hsize
    have hbody : bodyOf (cfg.ceAvps ip) = reqBody cfg (ceAvp cfg ip) := by
      rw [bodyOf_ceAvps, ceAvp_of_v4 h4, (ceAvpRest_eq_iff cfg).mpr (lenFlags_eq_zero hname)]
    -- the other messages start like the CER and end no later than behind the host address
    have hce : (reqBody cfg []).length + 12 ≤ (bodyOf (cfg.ceAvps ip)).length := by
      have h257 := length_wordAvp 257 0x40 (show ip.addr.length = 4 by rw [ip.len, h4]; rfl)
      rw [bodyOf_ceAvps, length_reqBody_append cfg (_ ++ _), List.length_append]
      omega
    have hstd : bodyOf cfg.stdAvps = reqBody cfg [] := bodyOf_stdAvps cfg
    have hdp : ∀ cause, (bodyOf (cfg.dpAvps cause)).length = (reqBody cfg []).length + 12 := by
      intro cause
      rw [bodyOf_dpAvps, length_reqBody_append, dprAvp, length_wordAvp 273 0x40 (length_be _ _)]
    constructor
    case cer => exact encodeNew_req (by decide) (ceAvps_ne hn ip) hbody hlt
    case cea =>
      exact fun status h req res hreq =>
        encodeNew_ans hreq res (ceAvps_ne hn ip) hbody (by omega) status h
    case dwr => exact encodeNew_req (by decide) (stdAvps_ne hn) hstd (by rw [hstd]; omega)
    case dpr =>
      exact fun status h cause =>
        encodeNew_req (by decide) (dpAvps_ne hn cause) (bodyOf_dpAvps cfg cause) (by rw [hdp]; omega)
          status h
    case dwa_dpa =>
      exact fun status h req res hreq =>
        encodeNew_ans hreq res (stdAvps_ne hn) hstd (by rw [hstd]; omega) status h

theorem encodersAgree_sample :
    EncodersAgree sampleCfg ⟨false, [127, 0, 0, 1], by decide⟩ :=
  (encodersAgree_iff ⟨by decide, by decide, by decide⟩ _).mpr ⟨rfl, by decide, by decide⟩

/-- The IPv6 loopback address is advertised without the M flag. -/
theorem loopback6_not_agreed :
    ¬ EncodersAgree sampleCfg ⟨true, [0, 0, 0, 0, 0, 0, 0, 0, 0, 0, 0, 0, 0, 0, 0, 1], by decide⟩ := by
  intro hagree
  have hcer := hagree.cer .dontFreeData ⟨[]⟩ 0 0
  have h4 := (cer_agrees_only ⟨by decide, by decide, by decide⟩ hcer).1
  exact absurd h4 (by decide)

end Agree

end Disc.Transport
