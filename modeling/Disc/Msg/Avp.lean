import Disc.Lib.Memory
import Disc.Lib.Chain

/-!
# AVPs and the AVP list of a message

The data of `diameter_msg.h` and the part of `avp.c` that builds AVPs and links
them into a message.

AVPs live in shared memory and point to each other, so they are kept in a heap
and named by their position in it. A `str` is a pointer into some block together
with a length; nothing says that the block is that long, which is why copying out
of one is an access that can fail.
-/

namespace Disc.Msg

open Disc.Lib

/-! ## Sizes -/

/-- `AAA_MSG_HDR_SIZE`: version, length, flags, command code, application and the two ids. -/
def aaaMsgHdrSize : Nat := 1 + 3 + 1 + 3 + 4 + 4 + 4

/-- `AAA_AVP_FLAG_VENDOR_SPECIFIC`, the V bit. -/
def aaaAvpFlagVendorSpecific : UInt8 := 0x80

/-- `AVP_HDR_SIZE`: code, flags, length, and the vendor id when the V bit is set. -/
def avpHdrSize (flags : UInt8) : Nat :=
  4 + 1 + 3 + 4 * (if flags &&& aaaAvpFlagVendorSpecific ≠ 0 then 1 else 0)

/-- `to_32x_len`: round up to a multiple of four, in 32-bit arithmetic. -/
def to32xLen (len : Nat) : Nat :=
  (len + (if len % 4 ≠ 0 then 4 - len % 4 else 0)) % 2 ^ 32

/-! ## Records -/

/-- `str`: a pointer, as the block it points into and the offset there, and a length. -/
structure Str where
  blk : List UInt8
  off : Nat
  len : Nat
deriving Repr, DecidableEq

/-- The bytes a `memcpy` of the whole string copies. -/
def Str.bytes (s : Str) : Option (List UInt8) := slice s.blk s.off s.len

/-- `AAA_AVPDataType`. -/
inductive AvpDataType where
  | data | string | address | integer32 | integer64 | time
deriving Repr, DecidableEq

/-- `AVPDataStatus`: who owns the bytes an AVP is created from. -/
inductive AvpDataStatus where
  | duplicateData | dontFreeData | freeData
deriving Repr, DecidableEq

/-- The `AAAReturnCode`s of the list operations. -/
inductive ReturnCode where
  | errSuccess | errParameter
deriving Repr, DecidableEq

/-- `AAA_AVP`. The packet type is always `AAA_DIAMETER` and is left out. -/
structure Avp where
  next : Option Nat
  prev : Option Nat
  code : UInt32
  flags : UInt8
  type : AvpDataType
  vendorId : UInt32
  data : Str
  freeIt : Bool
deriving Repr, DecidableEq

/-- An AVP without its links. -/
def Avp.body (a : Avp) : Avp := { a with next := none, prev := none }

/-- `AAAMessage`: header fields, shortcuts to some AVPs, the AVP list and the encoded buffer. -/
structure Message where
  flags : UInt8
  commandCode : UInt32
  applicationId : UInt32
  endtoendId : UInt32
  hopbyhopId : UInt32
  sessionId : Option Nat
  origHost : Option Nat
  origRealm : Option Nat
  destHost : Option Nat
  destRealm : Option Nat
  resCode : Option Nat
  authSesState : Option Nat
  /-- `avpList.head`. -/
  head : Option Nat
  /-- `avpList.tail`. -/
  tail : Option Nat
  /-- `buf`, absent while `buf.s` is null. -/
  buf : Option (List UInt8)
  inPeer : Option Nat
deriving Repr, DecidableEq

/-- What `memset(msg,0,sizeof(AAAMessage))` leaves behind. -/
def Message.zero : Message where
  flags := 0
  commandCode := 0
  applicationId := 0
  endtoendId := 0
  hopbyhopId := 0
  sessionId := none
  origHost := none
  origRealm := none
  destHost := none
  destRealm := none
  resCode := none
  authSesState := none
  head := none
  tail := none
  buf := none
  inPeer := none

/-! ## The heap of AVPs -/

/-- The AVPs allocated so far; an AVP is named by its position. -/
structure Heap where
  cells : List Avp
deriving Repr, DecidableEq

namespace Heap

/-- `p->next`. -/
def next (h : Heap) (p : Nat) : Option Nat := h.cells[p]?.bind Avp.next

/-- `p->prev`. -/
def prev (h : Heap) (p : Nat) : Option Nat := h.cells[p]?.bind Avp.prev

/-- `p->next = v`. -/
def setNext (h : Heap) (p : Nat) (v : Option Nat) : Heap :=
  ⟨h.cells.modify p (fun a => { a with next := v })⟩

/-- `p->prev = v`. -/
def setPrev (h : Heap) (p : Nat) (v : Option Nat) : Heap :=
  ⟨h.cells.modify p (fun a => { a with prev := v })⟩

/-- Everything about `p` but its links. -/
def body (h : Heap) (p : Nat) : Option Avp := h.cells[p]?.map Avp.body

/-- Number of AVPs allocated. -/
def size (h : Heap) : Nat := h.cells.length

theorem next_setNext (h : Heap) {p : Nat} (hp : p < h.size) (v : Option Nat) (q : Nat) :
    (h.setNext p v).next q = if p = q then v else h.next q := by
  unfold next setNext
  rw [List.getElem?_modify]
  split
  · rename_i he
    subst he
    simp [List.getElem?_eq_getElem hp]
  · simp

theorem prev_setPrev (h : Heap) {p : Nat} (hp : p < h.size) (v : Option Nat) (q : Nat) :
    (h.setPrev p v).prev q = if p = q then v else h.prev q := by
  unfold prev setPrev
  rw [List.getElem?_modify]
  split
  · rename_i he
    subst he
    simp [List.getElem?_eq_getElem hp]
  · simp

@[simp] theorem next_setPrev (h : Heap) (p q : Nat) (v : Option Nat) :
    (h.setPrev p v).next q = h.next q := by
  unfold next setPrev
  rw [List.getElem?_modify]
  by_cases hpq : p = q <;> cases h.cells[q]? <;> simp [hpq]

@[simp] theorem prev_setNext (h : Heap) (p q : Nat) (v : Option Nat) :
    (h.setNext p v).prev q = h.prev q := by
  unfold prev setNext
  rw [List.getElem?_modify]
  by_cases hpq : p = q <;> cases h.cells[q]? <;> simp [hpq]

@[simp] theorem body_setNext (h : Heap) (p : Nat) (v : Option Nat) :
    (h.setNext p v).body = h.body := by
  funext q
  unfold body setNext
  rw [List.getElem?_modify]
  by_cases hpq : p = q <;> cases h.cells[q]? <;> simp [hpq, Avp.body]

@[simp] theorem body_setPrev (h : Heap) (p : Nat) (v : Option Nat) :
    (h.setPrev p v).body = h.body := by
  funext q
  unfold body setPrev
  rw [List.getElem?_modify]
  by_cases hpq : p = q <;> cases h.cells[q]? <;> simp [hpq, Avp.body]

@[simp] theorem size_setNext (h : Heap) (p : Nat) (v : Option Nat) :
    (h.setNext p v).size = h.size := by simp [size, setNext]

@[simp] theorem size_setPrev (h : Heap) (p : Nat) (v : Option Nat) :
    (h.setPrev p v).size = h.size := by simp [size, setPrev]

end Heap

/-! ## Creating AVPs -/

/--
`set_avp_fields`: each known AVP code has its own default flags and data type;
only the flags the protocol leaves open survive. An unknown code keeps its flags.
-/
def setAvpFields (code : UInt32) (flags : UInt8) : UInt8 × AvpDataType :=
  if code ∈ [1, 25, 263, 283, 293, 264, 296] then
    (0x40 ||| (0x20 &&& flags), .string)
  else if code ∈ [27, 258, 262, 265, 266, 268, 270, 276, 278, 291] then
    (0x40 ||| (0x20 &&& flags), .integer32)
  else if code = 33 then (0x40, .string)
  else if code = 257 then (0x40 ||| (0x20 &&& flags), .address)
  else if code = 269 then (0x00, .string)
  else if code = 281 then (0x20 &&& flags, .string)
  else (flags, .data)

/-- Normalising the flags a second time changes nothing. -/
theorem setAvpFields_idem (code : UInt32) (flags : UInt8) :
    setAvpFields code (setAvpFields code flags).1 = setAvpFields code flags := by
  have hand : ∀ f : UInt8, (0x20 : UInt8) &&& (0x20 &&& f) = 0x20 &&& f := by
    intro f
    rw [← UInt8.and_assoc]
    rfl
  have hor : ∀ f : UInt8, (0x40 : UInt8) ||| (0x20 &&& (0x40 ||| (0x20 &&& f)))
      = 0x40 ||| (0x20 &&& f) := by
    intro f
    apply UInt8.toBitVec_inj.mp
    simp only [UInt8.toBitVec_or, UInt8.toBitVec_and]
    rw [BitVec.and_or_distrib_left, ← BitVec.and_assoc, ← BitVec.or_assoc]
    rfl
  unfold setAvpFields
  split_ifs <;> simp only [hor, hand]

/-- The `shm_malloc` outcomes of one `AAACreateAVP`: the AVP itself, then the copy of its data. -/
structure CreateMem where
  avp : Bool
  data : Bool
deriving Repr, DecidableEq

/--
`AAACreateAVP`. `none` is a null return. The pointer handed in is a block and an
offset; with `duplicateData` the bytes are copied into a block of their own.
-/
def aaaCreateAVP (mem : CreateMem) (h : Heap) (code : UInt32) (flags : UInt8)
    (vendorId : UInt32) (data : Option (List UInt8 × Nat)) (length : Nat)
    (dataStatus : AvpDataStatus) : Res (Option Nat × Heap) :=
  match data with
  | none => .ok (none, h)
  | some (blk, off) =>
      if length = 0 then .ok (none, h)
      else if !mem.avp then .ok (none, h)
      else
        let (flags, type) := setAvpFields code flags
        let avp : Avp :=
          { next := none, prev := none, code, flags, type, vendorId,
            data := { blk, off, len := length }, freeIt := false }
        match dataStatus with
        | .duplicateData =>
            if !mem.data then .ok (none, h)
            else do
              let copy ← Res.ofAccess (slice blk off length)
              return (some h.size,
                ⟨h.cells ++ [{ avp with data := ⟨copy, 0, length⟩, freeIt := true }]⟩)
        | .dontFreeData => .ok (some h.size, ⟨h.cells ++ [avp]⟩)
        | .freeData => .ok (some h.size, ⟨h.cells ++ [{ avp with freeIt := true }]⟩)

/-! ## Linking AVPs into a message -/

/-- The shortcuts `AAAAddAVPToMessage` sets from the code of the AVP it linked. -/
def Message.setShortcut (m : Message) (code : UInt32) (a : Option Nat) : Message :=
  if code = 263 then { m with sessionId := a }
  else if code = 264 then { m with origHost := a }
  else if code = 296 then { m with origRealm := a }
  else if code = 293 then { m with destHost := a }
  else if code = 283 then { m with destRealm := a }
  else if code = 268 then { m with resCode := a }
  else if code = 277 then { m with authSesState := a }
  else m

/-- `AAAAddAVPToMessage`: link `avp` at the front, or right after `position`. -/
def aaaAddAVPToMessage (h : Heap) (m : Message) (avp position : Option Nat) :
    Res (ReturnCode × Heap × Message) :=
  match avp with
  | none => .ok (.errParameter, h, m)
  | some a =>
      match h.cells[a]? with
      | none => .fault
      | some cell =>
          match position with
          | none =>
              let h := (h.setNext a m.head).setPrev a none
              let m := { m with head := some a }
              let (h, m) := match h.next a with
                | some n => (h.setPrev n (some a), m)
                | none => (h, { m with tail := some a })
              .ok (.errSuccess, h, m.setShortcut cell.code (some a))
          | some pos =>
              match seek h.next h.size m.head pos with
              | none => .diverge
              | some false => .ok (.errParameter, h, m)
              | some true =>
                  let h := (h.setNext a (h.next pos)).setNext pos (some a)
                  let (h, m) := match h.next a with
                    | some n => (h.setPrev n (some a), m)
                    | none => (h, { m with tail := some a })
                  .ok (.errSuccess, h.setPrev a (some pos), m.setShortcut cell.code (some a))

end Disc.Msg
