import Disc.Msg.Avp

/-!
# Encoding and decoding messages

`AAABuildMsgBuffer` and `AAATranslateMessage` of `message.c`.

The encoder makes two passes over the AVP list: one adds up the length, the other
walks a zeroed buffer with a pointer and compares, at the end, where the pointer
got with the length of the first pass. The decoder walks the received bytes with
pointers of its own and 32-bit lengths taken from the wire; both its bound checks
are comparisons of addresses, so the buffer is a `Block` with an address and all
the sums wrap around.

The two identifiers are copied in host order (the code runs on a little-endian
machine), everything else in network order.
-/

namespace Disc.Msg

open Disc.Lib

/-! ## Encoding -/

/-- How `AAABuildMsgBuffer` ends: the buffer, or one of its two error branches. -/
inductive BuildRes where
  | built (buf : List UInt8)
  | noMemory
  | mismatch
deriving Repr, DecidableEq

/-- `((unsigned int*)p)[0] = ...`, `*p = ...` and `memcpy(p, ...)`, inside the buffer being filled. -/
def store (buf : List UInt8) (p : Nat) (bs : List UInt8) : Res (List UInt8) :=
  Res.ofAccess (poke buf p bs)

/-- The AVPs of the list, in order, as both loops of the encoder meet them. -/
def avpsOf (h : Heap) (m : Message) : Res (List Avp) :=
  match walk h.next h.size m.head with
  | none => .diverge
  | some ids => Res.ofAccess (ids.mapM (h.cells[·]?))

/-- The first pass. -/
def msgBufLen (avps : List Avp) : Nat :=
  avps.foldl (fun len a => (len + avpHdrSize a.flags + to32xLen a.data.len) % 2 ^ 32)
    aaaMsgHdrSize

/-- The Diameter header: each word is stored whole, then its first byte is overwritten. -/
def writeHdr (m : Message) (buf : List UInt8) : Res (List UInt8 × Nat) := do
  let p := 0
  let buf ← store buf p (be 4 buf.length)
  let buf ← store buf p [1]
  let p := p + 4
  let buf ← store buf p (be 4 m.commandCode.toNat)
  let buf ← store buf p [m.flags]
  let p := p + 4
  let buf ← store buf p (be 4 m.applicationId.toNat)
  let p := p + 4
  let buf ← store buf p (le 4 m.hopbyhopId.toNat)
  let p := p + 4
  let buf ← store buf p (le 4 m.endtoendId.toNat)
  return (buf, p + 4)

/-- One round of the AVP loop. -/
def writeAvp (a : Avp) (buf : List UInt8) (p : Nat) : Res (List UInt8 × Nat) := do
  let buf ← store buf p (be 4 a.code.toNat)
  let p := p + 4
  let buf ← store buf p [a.flags]
  let p := p + 1
  let buf ← store buf p (be 3 (avpHdrSize a.flags + a.data.len))
  let p := p + 3
  let (buf, p) ←
    if a.flags &&& 0x80 ≠ 0 then do
      let buf ← store buf p (be 4 a.vendorId.toNat)
      pure (buf, p + 4)
    else pure (buf, p)
  let data ← Res.ofAccess a.data.bytes
  let buf ← store buf p data
  return (buf, p + to32xLen a.data.len)

/-- The AVP loop. -/
def writeAvps : List Avp → List UInt8 → Nat → Res (List UInt8 × Nat)
  | [], buf, p => return (buf, p)
  | a :: as, buf, p => do
      let (buf, p) ← writeAvp a buf p
      writeAvps as buf p

/-- `AAABuildMsgBuffer`; `mem` is the outcome of its `shm_malloc`. -/
def aaaBuildMsgBuffer (mem : Bool) (h : Heap) (m : Message) : Res (BuildRes × Message) := do
  let avps ← avpsOf h m
  let len := msgBufLen avps
  if !mem then return (.noMemory, { m with buf := none })
  let (buf, p) ← writeHdr m (List.replicate len 0)
  let (buf, p) ← writeAvps avps buf p
  if p ≠ len then return (.mismatch, { m with buf := none })
  return (.built buf, { m with buf := some buf })

/-! ## Decoding -/

/-- The `shm_malloc` outcomes of one decoding: the message, then each AVP in turn. -/
structure TranslateMem where
  msg : Bool
  avp : Nat → CreateMem

/-- The vendor id of an AVP, when the V bit says there is one, and where its data starts. -/
def readVendorId (src : Block) (flags : UInt8) (ptr : Nat) : Res (UInt32 × Nat) :=
  if flags &&& aaaAvpFlagVendorSpecific ≠ 0 then do
    let v ← Res.ofAccess (src.load ptr 4)
    return (UInt32.ofNat (ofBe v), padd ptr 4)
  else return (0, ptr)

/-- The AVP loop of `AAATranslateMessage`, with the pointer at `ptr` and `n` AVPs behind it. -/
def translateAvps (src : Block) (last : Nat) (mem : Nat → CreateMem) :
    Nat → Nat → Nat → Heap → Message → Res (Heap × Message)
  | 0, _, _, _, _ => .diverge
  | fuel + 1, n, ptr, h, m =>
      if ptr < last then
        if padd ptr (avpHdrSize 0x80) > last then .error
        else do
          let code ← Res.ofAccess (src.load ptr 4)
          let ptr := padd ptr 4
          let fl ← Res.ofAccess (src.load ptr 1)
          let flags := fl.headD 0
          let ptr := padd ptr 1
          let len ← Res.ofAccess (src.load ptr 3)
          let avpLen := ofBe len
          let ptr := padd ptr 3
          if avpLen < 1 then .error
          else do
            let (vendorId, ptr) ← readVendorId src flags ptr
            -- unsigned subtraction: a length below the header size wraps around
            let dataLen := usub avpLen (avpHdrSize flags)
            if last < padd ptr dataLen then .error
            else do
              let (avp, h) ← aaaCreateAVP (mem n) h (UInt32.ofNat (ofBe code)) flags vendorId
                (some (src.bytes, ptr - src.addr)) dataLen .dontFreeData
              match avp with
              | none => .error
              | some a => do
                  let (_, h, m) ← aaaAddAVPToMessage h m (some a) m.tail
                  translateAvps src last mem fuel (n + 1) (padd ptr (to32xLen dataLen)) h m
      else .ok (h, m)

/--
`AAATranslateMessage`; `error` is a null return. A buffer shorter than a header
takes the error exit before `msg` is initialised, and frees what it points to.
-/
def aaaTranslateMessage (mem : TranslateMem) (h : Heap) (src : Block) (sourceLen : Nat)
    (attachBuf : Bool) : Res (Heap × Message) :=
  if sourceLen = 0 ∨ sourceLen < aaaMsgHdrSize then .fault
  -- from here on `msg` is set, and the error path frees it
  else if !mem.msg then .error
  else do
    let ptr := src.addr
    let version ← Res.ofAccess (src.load ptr 1)
    let ptr := padd ptr 1
    if version.headD 0 ≠ 1 then .error
    else do
      let len ← Res.ofAccess (src.load ptr 3)
      let msgLen := ofBe len
      let ptr := padd ptr 3
      if msgLen > sourceLen then .error
      else do
        let flags ← Res.ofAccess (src.load ptr 1)
        let ptr := padd ptr 1
        let commandCode ← Res.ofAccess (src.load ptr 3)
        let ptr := padd ptr 3
        let applicationId ← Res.ofAccess (src.load ptr 4)
        let ptr := padd ptr 4
        let hopbyhopId ← Res.ofAccess (src.load ptr 4)
        let ptr := padd ptr 4
        let endtoendId ← Res.ofAccess (src.load ptr 4)
        let ptr := padd ptr 4
        let m : Message :=
          { Message.zero with
            flags := flags.headD 0
            commandCode := UInt32.ofNat (ofBe commandCode)
            applicationId := UInt32.ofNat (ofBe applicationId)
            -- the two ids are copied as they stand, without a change of byte order
            hopbyhopId := UInt32.ofNat (ofLe hopbyhopId)
            endtoendId := UInt32.ofNat (ofLe endtoendId) }
        let (h, m) ← translateAvps src (padd src.addr msgLen) mem.avp (src.bytes.length + 1)
          0 ptr h m
        return (h, if attachBuf then { m with buf := some (src.bytes.take msgLen) } else m)

end Disc.Msg
