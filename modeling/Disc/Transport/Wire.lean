import Disc.Lib.Memory
import Disc.Msg.Avp

/-!
# The messages a node exchanges with its peers

The transport layer builds its own CER, CEA, DWR, DWA, DPR and DPA from buffers
that `build_msg_buffers` of `peer.c` prepared once, and reads those of the peer
with a walker of its own (`for_all_AVPS_do_switch`). Neither goes through the
AVP lists of `diameter_msg`.

Buffers are patched word by word. A word is four bytes of memory; the identifiers
are stored in host order, everything else in network order.
-/

namespace Disc.Transport

open Disc.Lib Disc.Msg

/-! ## Words of a buffer -/

/-- `((unsigned int*)buf)[i]`, as bytes. -/
def word (buf : List UInt8) (i : Nat) : List UInt8 := (buf.drop (4 * i)).take 4

/-- `((unsigned int*)buf)[i] = w`. -/
def setWord (buf : List UInt8) (i : Nat) (w : List UInt8) : List UInt8 :=
  buf.take (4 * i) ++ w ++ buf.drop (4 * i + 4)

/-- `((unsigned int*)buf)[i] |= w`. -/
def orWord (buf : List UInt8) (i : Nat) (w : List UInt8) : List UInt8 :=
  setWord buf i (List.zipWith (· ||| ·) (word buf i) w)

/-- `MASK_MSG_CODE & w`: the first byte is cleared. -/
def maskMsgCode (w : List UInt8) : List UInt8 := 0 :: w.drop 1

/-- The command code: the three low bytes of the second word. -/
def msgCode (buf : List UInt8) : Nat := ofBe ((word buf 1).drop 1)

/-- The R bit of the command flags. -/
def isReqBuf (buf : List UInt8) : Bool := (buf.getD 4 0) &&& 0x80 ≠ 0

/-- The hop-by-hop identifier. -/
def hopbyhopOf (buf : List UInt8) : UInt32 := UInt32.ofNat (ofLe (word buf 3))

/-- The end-to-end identifier. -/
def endtoendOf (buf : List UInt8) : UInt32 := UInt32.ofNat (ofLe (word buf 4))

/-- `CE_MSG_CODE`. -/
def ceMsgCode : Nat := 0x101

/-- `DW_MSG_CODE`. -/
def dwMsgCode : Nat := 0x118

/-- `DP_MSG_CODE`. -/
def dpMsgCode : Nat := 0x11a

/-- `AAA_SUCCESS`. -/
def aaaSuccess : UInt32 := 2001

/-- `AAA_MISSING_AVP`. -/
def aaaMissingAvp : UInt32 := 5005

/-- `AAA_NO_COMMON_APPLICATION`. -/
def aaaNoCommonApplication : UInt32 := 5010

/-- `AAA_APP_RELAY`. -/
def aaaAppRelay : UInt32 := 0xffffffff

/-- `MAX_APPID_PER_PEER`. -/
def maxAppidPerPeer : Nat := 64

/-! ## Configuration -/

/-- The part of a loaded module the transport layer looks at. -/
structure Module where
  appId : UInt32
  doesAuth : Bool
  doesAcct : Bool
deriving Repr, DecidableEq

/-- What a node tells about itself. -/
structure Cfg where
  aaaIdentity : List UInt8
  aaaRealm : List UInt8
  productName : List UInt8
  vendorId : UInt32
  modules : List Module
  doRelay : Bool
deriving Repr, DecidableEq

/-- `find_module`: the first module with that application. -/
def Cfg.findModule (cfg : Cfg) (appId : UInt32) : Option Module :=
  cfg.modules.find? (·.appId == appId)

/-- The application ids advertised for authentication. -/
def Cfg.authAppIds (cfg : Cfg) : List UInt32 :=
  (cfg.modules.filter (·.doesAuth)).map (·.appId) ++ if cfg.doRelay then [aaaAppRelay] else []

/-- The application ids advertised for accounting. -/
def Cfg.acctAppIds (cfg : Cfg) : List UInt32 :=
  (cfg.modules.filter (·.doesAcct)).map (·.appId) ++ if cfg.doRelay then [aaaAppRelay] else []

/-! ## `build_msg_buffers` -/

/-- One AVP without vendor id: code, flags over the length word, data, padding. -/
def putAvp (code : Nat) (flags : UInt8) (data : List UInt8) : List UInt8 :=
  be 4 code ++ ([flags] ++ be 3 (avpHdrSize 0 + data.length)) ++ data
    ++ List.replicate (to32xLen data.length - data.length) 0

/-- `std_req`: header of a request, Origin-Host, Origin-Realm. -/
def stdReq (cfg : Cfg) : List UInt8 :=
  [1, 0, 0, 0, 0x80] ++ List.replicate 15 0 ++ putAvp 264 0x40 cfg.aaaIdentity
    ++ putAvp 296 0x40 cfg.aaaRealm

/-- `std_ans`: header of an answer, Result-Code, Origin-Host, Origin-Realm. -/
def stdAns (cfg : Cfg) : List UInt8 :=
  [1, 0, 0, 0, 0x00] ++ List.replicate 15 0 ++ putAvp 268 0x40 (List.replicate 4 0)
    ++ putAvp 264 0x40 cfg.aaaIdentity ++ putAvp 296 0x40 cfg.aaaRealm

/-- What `htonl` of the length leaves where the flags are, if no flags are stored over it. -/
def lenFlags (data : List UInt8) : UInt8 := UInt8.ofNat ((avpHdrSize 0 + data.length) / 2 ^ 24)

/-- The AVPs of a CER or CEA behind the host address. No flags are stored for the product name. -/
def ceAvpRest (cfg : Cfg) : List UInt8 :=
  putAvp 266 0x40 (be 4 cfg.vendorId.toNat) ++ putAvp 269 (lenFlags cfg.productName) cfg.productName
    ++ cfg.authAppIds.flatMap (fun i => putAvp 258 0x40 (be 4 i.toNat))
    ++ cfg.acctAppIds.flatMap (fun i => putAvp 259 0x40 (be 4 i.toNat))

/-- An address of this host, of the length its family has. -/
structure IpAddr where
  isV6 : Bool
  addr : List UInt8
  len : addr.length = if isV6 then 16 else 4 := by decide
deriving Repr, DecidableEq

/-- `ce_avp_ipv4` or `ce_avp_ipv6` with the address filled in; updating the length of the copy clears its flags. -/
def ceAvp (cfg : Cfg) (ip : IpAddr) : List UInt8 :=
  (if ip.isV6 then putAvp 257 0 ip.addr else putAvp 257 0x40 ip.addr) ++ ceAvpRest cfg

/-- `dpr_avp` with the cause filled in. -/
def dprAvp (cause : UInt32) : List UInt8 := putAvp 273 0x40 (be 4 cause.toNat)

/-- A request of this layer before its identifiers are set. -/
def buildReq (cfg : Cfg) (code : Nat) (avps : List UInt8) : List UInt8 :=
  let req := stdReq cfg ++ avps
  orWord (orWord req 0 (be 4 req.length)) 1 (be 4 code)

/-- The answer `internal_send_response` makes of `std_ans` and `avps`. -/
def buildAns (cfg : Cfg) (avps req : List UInt8) (resCode : UInt32) : List UInt8 :=
  let res := stdAns cfg ++ avps
  let res := setWord res 7 (be 4 resCode.toNat)
  let res := orWord res 0 (maskMsgCode (be 4 res.length))
  let res := orWord res 1 (maskMsgCode (word req 1))
  let res := setWord res 2 (word req 2)
  let res := setWord res 3 (word req 3)
  setWord res 4 (word req 4)

/-! ## Walking the AVPs of a received buffer -/

/-- Read four bytes of the buffer. -/
def load4 (buf : List UInt8) (p : Nat) : Res (List UInt8) := Res.ofAccess (slice buf p 4)

/--
`for_all_AVPS_do_switch`: run `body` at every AVP; it may return from the whole
function. The step to the next AVP is its length rounded up, with no check.
-/
def forAllAvps {σ ρ : Type} (buf : List UInt8) (body : σ → Nat → Nat → Res (σ ⊕ ρ)) :
    Nat → Nat → σ → Res (σ ⊕ ρ)
  | 0, _, _ => .diverge
  | fuel + 1, ptr, s =>
      if ptr < buf.length then do
        let code ← load4 buf ptr
        match ← body s (ofBe code) ptr with
        | .inr r => return .inr r
        | .inl s => do
            let len ← load4 buf (ptr + 4)
            forAllAvps buf body fuel (ptr + to32xLen (ofBe len % 2 ^ 24)) s
      else return .inl s

/-- The flags of the AVP at `ptr`. -/
def avpFlagsAt (buf : List UInt8) (ptr : Nat) : Res UInt8 := do
  let b ← Res.ofAccess (slice buf (ptr + 4) 1)
  return b.headD 0

/-- The local variables of `process_ce`. -/
structure CeState where
  mask : Nat
  code : UInt32
  authAppIds : List UInt32
  acctAppIds : List UInt32
  realm : Option Nat
deriving Repr, DecidableEq

/-- Is an id the peer advertises one this node can work with? -/
def Cfg.accepts (cfg : Cfg) (does : Module → Bool) (id : UInt32) : Bool :=
  cfg.doRelay || id == aaaAppRelay || (cfg.findModule id).any does

/-- The `switch` of `process_ce`. -/
def ceSwitch (cfg : Cfg) (buf : List UInt8) (s : CeState) (avpCode ptr : Nat) :
    Res (CeState ⊕ UInt32) :=
  match avpCode with
  | 268 => do
      let flags ← avpFlagsAt buf ptr
      let w ← load4 buf (ptr + avpHdrSize flags)
      let code := UInt32.ofNat (ofBe w)
      if code ≠ aaaSuccess then return .inr code
      else return .inl { s with mask := s.mask ||| 1, code }
  | 264 => return .inl { s with mask := s.mask ||| 2 }
  | 296 => return .inl { s with mask := s.mask ||| 4, realm := some ptr }
  | 257 => return .inl { s with mask := s.mask ||| 8 }
  | 266 => return .inl { s with mask := s.mask ||| 16 }
  | 269 => return .inl { s with mask := s.mask ||| 32 }
  | 259 =>
      if s.acctAppIds.length = maxAppidPerPeer then return .inl s
      else do
        -- the header is taken to have no vendor id here, whatever its flags say
        let w ← load4 buf (ptr + 8)
        let id := UInt32.ofNat (ofBe w)
        return .inl { s with acctAppIds := s.acctAppIds ++ [id]
                             code := if cfg.accepts (·.doesAcct) id then aaaSuccess else s.code }
  | 258 =>
      if s.authAppIds.length = maxAppidPerPeer then return .inl s
      else do
        let w ← load4 buf (ptr + 8)
        let id := UInt32.ofNat (ofBe w)
        return .inl { s with authAppIds := s.authAppIds ++ [id]
                             code := if cfg.accepts (·.doesAuth) id then aaaSuccess else s.code }
  | _ => return .inl s

/-- What `process_ce` stores about the peer; an id list ends with a zero. -/
structure Caps where
  suppAuthAppIds : Option (List UInt32)
  suppAcctAppIds : Option (List UInt32)
  /-- `aaa_realm.s`. -/
  realm : Option (List UInt8)
  /-- `aaa_realm.len`. -/
  realmLen : Nat
deriving Repr, DecidableEq

/-- The three `shm_malloc`s of `process_ce`. -/
structure CeMem where
  auth : Bool
  acct : Bool
  realm : Bool
deriving Repr, DecidableEq

/-- An array of ids with its terminator, when there are ids and memory. -/
def saveIds (mem : Bool) (ids : List UInt32) : Option (List UInt32) :=
  if ids ≠ [] ∧ mem then some (ids ++ [0]) else none

/--
The Origin-Realm copied out of the buffer. A length below the header's is negative: `shm_malloc`
rounds it up to zero and may well succeed, and `memcpy` then runs out of the buffer.
-/
def saveRealm (mem : Bool) (buf : List UInt8) (ptr : Nat) : Res (Option (List UInt8) × Nat) := do
  let w ← load4 buf (ptr + 4)
  let flags ← avpFlagsAt buf ptr
  let len := usub (ofBe (w.drop 1)) (avpHdrSize flags)
  if !mem then return (none, 0)
  else if 2 ^ 31 ≤ len then .fault
  else do
    let s ← Res.ofAccess (slice buf (ptr + avpHdrSize flags) len)
    return (some s, len)

/-- The result code once all AVPs were seen: those of `req_pattern` or `rpl_pattern` must be there. -/
def ceVerdict (s : CeState) (isReq : Bool) : UInt32 :=
  if s.mask ≠ (if isReq then 0x3e else 0x3f) then aaaMissingAvp else s.code

/-- The local variables of `process_ce` at its start. -/
def ceStart : CeState :=
  { mask := 0, code := aaaNoCommonApplication, authAppIds := [], acctAppIds := [], realm := none }

/-- `process_ce`: the result code and, on success, what is stored. -/
def processCe (cfg : Cfg) (mem : CeMem) (buf : List UInt8) (isReq : Bool) :
    Res (UInt32 × Option Caps) := do
  match ← forAllAvps buf (ceSwitch cfg buf) (buf.length + 1) aaaMsgHdrSize ceStart with
  | .inr code => return (code, none)
  | .inl s =>
      let code := ceVerdict s isReq
      if code = aaaSuccess then
        match s.realm with
        | none => .fault
        | some ptr => do
            let (realm, realmLen) ← saveRealm mem.realm buf ptr
            return (code, some { suppAuthAppIds := saveIds mem.auth s.authAppIds
                                 suppAcctAppIds := saveIds mem.acct s.acctAppIds
                                 realm, realmLen })
      else return (code, none)

/-- The `switch` of `process_dw` and `process_dp`; only the second looks at the Disconnect-Cause. -/
def stdSwitch (cause : Bool) (buf : List UInt8) (mask avpCode ptr : Nat) : Res (Nat ⊕ Unit) :=
  match avpCode with
  | 268 => do
      let w ← load4 buf (ptr + 8)
      if UInt32.ofNat (ofBe w) ≠ aaaSuccess then return .inr ()
      else return .inl (mask ||| 1)
  | 264 => return .inl (mask ||| 2)
  | 296 => return .inl (mask ||| 4)
  | 273 => return .inl (if cause then mask ||| 8 else mask)
  | _ => return .inl mask

/-- The frame of `process_dw` and `process_dp`: did the buffer carry exactly the AVPs of `pattern`? -/
def processStd (cause : Bool) (pattern : Nat) (buf : List UInt8) : Res Bool := do
  match ← forAllAvps buf (stdSwitch cause buf) (buf.length + 1) aaaMsgHdrSize 0 with
  | .inr _ => return false
  | .inl mask => return mask = pattern

/-- `process_dw`. -/
def processDw (buf : List UInt8) (isReq : Bool) : Res Bool :=
  processStd false (if isReq then 0x6 else 0x7) buf

/-- `process_dp`. -/
def processDp (buf : List UInt8) (isReq : Bool) : Res Bool :=
  processStd true (if isReq then 0xe else 0x7) buf

/-! ## Reading words back -/

theorem word_setWord {buf : List UInt8} {i : Nat} {x : List UInt8} (hx : x.length = 4)
    (hb : 4 * i + 4 ≤ buf.length) : word (setWord buf i x) i = x := by
  have htake : (buf.take (4 * i)).length = 4 * i := by rw [List.length_take]; omega
  unfold word setWord
  rw [List.append_assoc, List.drop_left' htake, List.take_left' hx]

theorem word_setWord_ne {buf : List UInt8} {i j : Nat} {x : List UInt8} (hx : x.length = 4)
    (hij : i < j) (hb : 4 * i + 4 ≤ buf.length) : word (setWord buf i x) j = word buf j := by
  have htake : (buf.take (4 * i)).length = 4 * i := by rw [List.length_take]; omega
  unfold word setWord
  have hd : (buf.take (4 * i) ++ x ++ buf.drop (4 * i + 4)).drop (4 * j)
      = buf.drop (4 * j) := by
    rw [List.drop_append, List.drop_of_length_le (by rw [List.length_append, htake, hx]; omega),
      List.nil_append, List.length_append, htake, hx, List.drop_drop]
    congr 1
    omega
  rw [hd]

/-! ## What the results mean -/

/-- A walk that was left early was left by its body. -/
theorem forAllAvps_inr {σ ρ : Type} {buf : List UInt8} {body : σ → Nat → Nat → Res (σ ⊕ ρ)}
    {P : ρ → Prop} (hbody : ∀ s c p r, body s c p = .ok (.inr r) → P r) {fuel ptr : Nat} {s : σ}
    {r : ρ} (h : forAllAvps buf body fuel ptr s = .ok (.inr r)) : P r := by
  induction fuel generalizing ptr s with
  | zero => exact absurd h (by simp [forAllAvps])
  | succ fuel ih =>
      rw [forAllAvps] at h
      split at h
      · obtain ⟨code, -, h⟩ := Res.bind_eq_ok h
        obtain ⟨x, hx, h⟩ := Res.bind_eq_ok h
        cases x with
        | inl s' =>
            obtain ⟨len, -, h⟩ := Res.bind_eq_ok h
            exact ih h
        | inr r' =>
            have hr : r' = r := by simpa using h
            exact hr ▸ hbody _ _ _ _ hx
      · exact absurd h (by simp)

/-- `process_ce` gives up early only on a code that is not success. -/
theorem ceSwitch_inr {cfg : Cfg} {buf : List UInt8} {s : CeState} {c p : Nat} {r : UInt32}
    (h : ceSwitch cfg buf s c p = .ok (.inr r)) : r ≠ aaaSuccess := by
  unfold ceSwitch at h
  split at h
  case h_1 =>
    obtain ⟨flags, -, h⟩ := Res.bind_eq_ok h
    obtain ⟨w, -, h⟩ := Res.bind_eq_ok h
    simp only [] at h
    split at h
    · rename_i hne
      have hr : UInt32.ofNat (ofBe w) = r := by simpa using h
      exact hr ▸ hne
    · exact absurd h (by simp)
  case h_7 | h_8 =>
    split at h
    · exact absurd h (by simp)
    · obtain ⟨w, -, h⟩ := Res.bind_eq_ok h
      exact absurd h (by simp)
  all_goals exact absurd h (by simp)

/-- `process_ce` stores something exactly when it succeeds. -/
theorem processCe_cases {cfg : Cfg} {mem : CeMem} {buf : List UInt8} {isReq : Bool}
    {code : UInt32} {caps : Option Caps} (h : processCe cfg mem buf isReq = .ok (code, caps)) :
    (code ≠ aaaSuccess ∧ caps = none) ∨ (code = aaaSuccess ∧ ∃ c, caps = some c) := by
  unfold processCe at h
  obtain ⟨x, hx, h⟩ := Res.bind_eq_ok h
  cases x with
  | inr r =>
      have hr : r = code ∧ none = caps := by simpa using h
      exact Or.inl ⟨hr.1 ▸ forAllAvps_inr (fun _ _ _ _ => ceSwitch_inr) hx, hr.2.symm⟩
  | inl s =>
      simp only [] at h
      split at h
      · rename_i hcode
        split at h
        · exact absurd h (by simp)
        · obtain ⟨⟨realm, len⟩, -, h⟩ := Res.bind_eq_ok h
          simp only [Res.pure_eq, Res.ok.injEq, Prod.mk.injEq] at h
          exact Or.inr ⟨h.1 ▸ hcode, _, h.2.symm⟩
      · rename_i hcode
        simp only [Res.pure_eq, Res.ok.injEq, Prod.mk.injEq] at h
        exact Or.inl ⟨h.1 ▸ hcode, h.2.symm⟩

end Disc.Transport
