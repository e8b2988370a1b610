import Disc.Msg.Decode

/-!
# The round trip of a message

`Built` is every way a caller can put a message together: starting from an empty
list, any sequence of `AAACreateAVP` and `AAAAddAVPToMessage`, with any positions,
any failed allocation and any failed call in between. `linked` remembers which
AVPs were handed to a successful call. Linking an AVP a second time can tie the
list into a knot, which then has no length at all; as long as no AVP is linked
twice the list ends.

Two facts about such a message are enough for the codec: every AVP the list can
reach was made by `AAACreateAVP`, hence is `Sendable`, and nothing but
`AAACreateAVP` ever wrote to it.
-/

namespace Disc.Msg

open Disc.Lib

/-! ## The header -/

/-- What the decoder loads from an encoded header. -/
structure HdrAt (src : Block) (m : Message) (len : Nat) : Prop where
  version : src.load src.addr 1 = some [1]
  len : src.load (src.addr + 1) 3 = some (be 3 len)
  flags : src.load (src.addr + (1 + 3)) 1 = some [m.flags]
  commandCode : src.load (src.addr + (1 + 3 + 1)) 3 = some (be 3 m.commandCode.toNat)
  applicationId : src.load (src.addr + (1 + 3 + 1 + 3)) 4 = some (be 4 m.applicationId.toNat)
  hopbyhopId : src.load (src.addr + (1 + 3 + 1 + 3 + 4)) 4 = some (le 4 m.hopbyhopId.toNat)
  endtoendId : src.load (src.addr + (1 + 3 + 1 + 3 + 4 + 4)) 4 = some (le 4 m.endtoendId.toNat)

theorem hdrAt_encHdr {src : Block} {m : Message} {len : Nat} {post : List UInt8}
    (hs : src.bytes = encHdr m len ++ post) : HdrAt src m len := by
  set a := be 3 len with ha
  set c := be 3 m.commandCode.toNat with hc
  set i := be 4 m.applicationId.toNat with hi
  set p := le 4 m.hopbyhopId.toNat with hp
  set e := le 4 m.endtoendId.toNat with he
  have la : a.length = 3 := by simp [ha]
  have lc : c.length = 3 := by simp [hc]
  have li : i.length = 4 := by simp [hi]
  have lp : p.length = 4 := by simp [hp]
  have le : e.length = 4 := by simp [he]
  have hs' : src.bytes = [1] ++ a ++ [m.flags] ++ c ++ i ++ p ++ e ++ post := by
    rw [hs, encHdr]
  -- one field after the other: what stands before it, the field, what follows
  refine ⟨?_, ?_, ?_, ?_, ?_, ?_, ?_⟩
  · exact load_at [] [1] (a ++ [m.flags] ++ c ++ i ++ p ++ e ++ post)
      (by rw [hs']; simp only [List.append_assoc, List.nil_append]) rfl rfl
  · exact load_at [1] a ([m.flags] ++ c ++ i ++ p ++ e ++ post)
      (by rw [hs']; simp only [List.append_assoc]) rfl la.symm
  · exact load_at ([1] ++ a) [m.flags] (c ++ i ++ p ++ e ++ post)
      (by rw [hs']; simp only [List.append_assoc]) (by simp [la]) rfl
  · exact load_at ([1] ++ a ++ [m.flags]) c (i ++ p ++ e ++ post)
      (by rw [hs']; simp only [List.append_assoc]) (by simp [la]) lc.symm
  · exact load_at ([1] ++ a ++ [m.flags] ++ c) i (p ++ e ++ post)
      (by rw [hs']; simp only [List.append_assoc]) (by simp [la, lc]) li.symm
  · exact load_at ([1] ++ a ++ [m.flags] ++ c ++ i) p (e ++ post)
      (by rw [hs']; simp only [List.append_assoc]) (by simp [la, lc, li]) lp.symm
  · exact load_at ([1] ++ a ++ [m.flags] ++ c ++ i ++ p) e post hs'
      (by simp [la, lc, li, lp]) le.symm

/-- Linking an AVP leaves the header alone. -/
theorem header_of_add {h h' : Heap} {m m' : Message} {a pos : Option Nat} {c : ReturnCode}
    (hadd : aaaAddAVPToMessage h m a pos = .ok (c, h', m')) : m'.header = m.header := by
  unfold aaaAddAVPToMessage at hadd
  split at hadd
  · obtain ⟨-, -, rfl⟩ := Res.ok.inj hadd
    rfl
  · split at hadd
    · exact absurd hadd (by simp)
    · split at hadd
      · dsimp only at hadd
        split at hadd
        · obtain ⟨-, -, rfl⟩ := Res.ok.inj hadd
          exact setShortcut_header _ _ _
        · obtain ⟨-, -, rfl⟩ := Res.ok.inj hadd
          exact setShortcut_header _ _ _
      · split at hadd
        · exact absurd hadd (by simp)
        · obtain ⟨-, -, rfl⟩ := Res.ok.inj hadd
          rfl
        · dsimp only at hadd
          split at hadd
          · obtain ⟨-, -, rfl⟩ := Res.ok.inj hadd
            exact setShortcut_header _ _ _
          · obtain ⟨-, -, rfl⟩ := Res.ok.inj hadd
            exact setShortcut_header _ _ _

theorem header_of_translateAvps {src : Block} {last : Nat} {mem : Nat → CreateMem}
    {fuel n ptr : Nat} {h h' : Heap} {m m' : Message}
    (ht : translateAvps src last mem fuel n ptr h m = .ok (h', m')) : m'.header = m.header := by
  induction fuel generalizing n ptr h m with
  | zero => exact absurd ht (by simp [translateAvps])
  | succ fuel ih =>
      rw [translateAvps] at ht
      split at ht
      · split at ht
        · exact absurd ht (by simp)
        · obtain ⟨code, -, ht⟩ := Res.bind_eq_ok ht
          obtain ⟨fl, -, ht⟩ := Res.bind_eq_ok ht
          obtain ⟨len, -, ht⟩ := Res.bind_eq_ok ht
          dsimp only at ht
          split at ht
          · exact absurd ht (by simp)
          · obtain ⟨⟨vid, p⟩, -, ht⟩ := Res.bind_eq_ok ht
            dsimp only at ht
            split at ht
            · exact absurd ht (by simp)
            · obtain ⟨⟨avp, h₁⟩, -, ht⟩ := Res.bind_eq_ok ht
              cases avp with
              | none => exact absurd ht (by simp)
              -- the one branch that goes round again
              | some a =>
                  obtain ⟨⟨c, h₂, m₁⟩, hadd, ht⟩ := Res.bind_eq_ok ht
                  rw [ih ht, header_of_add hadd]
      · obtain ⟨-, rfl⟩ := Res.ok.inj ht
        rfl

/-- The header of a message that was decoded is spelt by the first bytes of its buffer. -/
theorem aaaTranslateMessage_header {mem : TranslateMem} {h h' : Heap} {src : Block} {m : Message}
    (ht : aaaTranslateMessage mem h src src.bytes.length true = .ok (h', m)) :
    20 ≤ src.bytes.length
      ∧ m.flags = ((src.bytes.drop 4).take 1).headD 0
      ∧ m.hopbyhopId = UInt32.ofNat (ofLe ((src.bytes.drop 12).take 4))
      ∧ m.endtoendId = UInt32.ofNat (ofLe ((src.bytes.drop 16).take 4))
      ∧ m.buf = some (src.bytes.take (ofBe ((src.bytes.drop 1).take 3))) := by
  unfold aaaTranslateMessage at ht
  split at ht
  · exact absurd ht (by simp)
  · rename_i hlen
    have h20 : 20 ≤ src.bytes.length := by
      have : aaaMsgHdrSize = 20 := rfl
      omega
    -- twenty bytes are there, so the pointer of the decoder does not wrap while it reads the header
    have hp : ∀ {a n : Nat}, a + n ≤ 20 → padd (src.addr + a) n = src.addr + (a + n) :=
      fun ha => padd_addr (by omega)
    have hp1 : padd src.addr 1 = src.addr + 1 := hp (a := 0) (by omega)
    simp only [hp1, hp (show 1 + 3 ≤ 20 by omega), hp (show 1 + 3 + 1 ≤ 20 by omega),
      hp (show 1 + 3 + 1 + 3 ≤ 20 by omega), hp (show 1 + 3 + 1 + 3 + 4 ≤ 20 by omega),
      hp (show 1 + 3 + 1 + 3 + 4 + 4 ≤ 20 by omega)] at ht
    split at ht
    · exact absurd ht (by simp)
    · obtain ⟨version, -, ht⟩ := Res.bind_eq_ok ht
      split at ht
      · exact absurd ht (by simp)
      · obtain ⟨len, hlen', ht⟩ := Res.bind_eq_ok ht
        split at ht
        · exact absurd ht (by simp)
        · obtain ⟨flags, hflags, ht⟩ := Res.bind_eq_ok ht
          obtain ⟨code, -, ht⟩ := Res.bind_eq_ok ht
          obtain ⟨app, -, ht⟩ := Res.bind_eq_ok ht
          obtain ⟨hbh, hhbh, ht⟩ := Res.bind_eq_ok ht
          obtain ⟨ete, hete, ht⟩ := Res.bind_eq_ok ht
          obtain ⟨⟨h₁, m₁⟩, hav, ht⟩ := Res.bind_eq_ok ht
          obtain ⟨-, rfl⟩ := Res.ok.inj ht
          -- the AVPs are linked after the header was filled in
          have hm := header_of_translateAvps hav
          simp only [Message.header, Prod.mk.injEq] at hm
          obtain ⟨h1, -, -, h4, h5⟩ := hm
          have hof : ∀ {o : Option (List UInt8)} {bs : List UInt8}, Res.ofAccess o = .ok bs →
              o = some bs := by
            intro o bs ho
            cases o with
            | none => exact absurd ho (by simp [Res.ofAccess])
            | some x => exact congrArg some (Res.ok.inj ho)
          refine ⟨h20, ?_, ?_, ?_, ?_⟩
          · rw [← Block.load_eq (hof hflags)]
            exact h1
          · rw [← Block.load_eq (hof hhbh)]
            exact h5
          · rw [← Block.load_eq (hof hete)]
            exact h4
          · rw [← Block.load_eq (hof hlen')]
            rfl

/-- The list of a message does not depend on its header or its buffer. -/
theorem Holds.congr {h : Heap} {m m' : Message} {ids : List Nat} {vs : List AvpView}
    (hh : Holds h m ids vs) (h1 : m'.head = m.head) (h2 : m'.tail = m.tail) :
    Holds h m' ids vs := by
  refine ⟨⟨?_, hh.list.alloc⟩, hh.seq⟩
  rw [h1, h2]
  exact hh.list.chain

/-- **Decoding a buffer in the wire format.** -/
theorem aaaTranslateMessage_encMsg {m : Message} {vs : List AvpView} {src : Block}
    (hs : src.bytes = encMsg m vs) (hcmd : m.commandCode.toNat < 2 ^ 24)
    (hn : encLen vs < 2 ^ 24) (hv : ∀ v ∈ vs, Sendable v) {mem : TranslateMem}
    (hmsg : mem.msg = true) (hmem : ∀ n, (mem.avp n).avp = true) (h : Heap) (attachBuf : Bool) :
    ∃ h' m' ids, aaaTranslateMessage mem h src src.bytes.length attachBuf = .ok (h', m')
      ∧ Holds h' m' ids vs ∧ m'.header = m.header := by
  have hlen : src.bytes.length = encLen vs := by rw [hs, length_encMsg]
  have hL : encLen vs = 20 + (encAvps vs).length := rfl
  have hat : HdrAt src m (encLen vs) := hdrAt_encHdr hs
  have h20 : aaaMsgHdrSize = 20 := rfl
  have hfits := src.fits
  have hp1 : padd src.addr 1 = src.addr + 1 := padd_eq (by omega)
  have hp2 : padd (src.addr + 1) 3 = src.addr + (1 + 3) := padd_addr (by omega)
  have hp3 : padd (src.addr + (1 + 3)) 1 = src.addr + (1 + 3 + 1) := padd_addr (by omega)
  have hp4 : padd (src.addr + (1 + 3 + 1)) 3 = src.addr + (1 + 3 + 1 + 3) := padd_addr (by omega)
  have hp5 : padd (src.addr + (1 + 3 + 1 + 3)) 4 = src.addr + (1 + 3 + 1 + 3 + 4) :=
    padd_addr (by omega)
  have hp6 : padd (src.addr + (1 + 3 + 1 + 3 + 4)) 4 = src.addr + (1 + 3 + 1 + 3 + 4 + 4) :=
    padd_addr (by omega)
  have hp7 : padd (src.addr + (1 + 3 + 1 + 3 + 4 + 4)) 4
      = src.addr + (1 + 3 + 1 + 3 + 4 + 4 + 4) := padd_addr (by omega)
  have hlast : padd src.addr (encLen vs) = src.addr + src.bytes.length := by
    rw [← hlen, padd_eq hfits]
  have hcode : UInt32.ofNat (ofBe (be 3 m.commandCode.toNat)) = m.commandCode := by
    rw [ofBe_be (by omega), UInt32.ofNat_toNat]
  have hmlen : ofBe (be 3 (encLen vs)) = encLen vs := ofBe_be (by omega)
  have hshort : ¬ (src.bytes.length = 0 ∨ src.bytes.length < aaaMsgHdrSize) := by omega
  have hbig : ¬ encLen vs > src.bytes.length := by omega
  -- the message as it is when the loop over the AVPs starts
  let m₀ : Message :=
    { Message.zero with
      flags := m.flags, commandCode := m.commandCode, applicationId := m.applicationId,
      hopbyhopId := m.hopbyhopId, endtoendId := m.endtoendId }
  have hempty : Holds h m₀ [] [] := ⟨⟨⟨List.nodup_nil, rfl, rfl⟩, by simp⟩, rfl⟩
  -- an AVP takes at least one byte, so the bytes are fuel enough
  have hfuel : vs.length < src.bytes.length + 1 := by
    have := length_le_encAvps vs
    omega
  obtain ⟨h', m', ids, hrun, hh, hm⟩ :=
    translateAvps_encAvps (by omega) hmem hv (encHdr m (encLen vs)) hs hfuel 0 hempty
  rw [length_encHdr] at hrun
  have hm' : m'.header = m.header := hm
  refine ⟨h', if attachBuf then { m' with buf := some (src.bytes.take (encLen vs)) } else m', ids,
    ?_, hh.congr ?_ ?_, ?_⟩
  · unfold aaaTranslateMessage
    rw [if_neg hshort, hmsg]
    simp only [Bool.not_true, Bool.false_eq_true, if_false, hat.version, Res.ofAccess_some,
      Res.ok_bind, List.headD_cons, ne_eq, not_true_eq_false, hp1, hp2, hp3, hp4, hp5, hp6, hp7,
      hat.len, hmlen, if_neg hbig, hat.flags, hat.commandCode, hat.applicationId, hat.hopbyhopId,
      hat.endtoendId, hcode, ofNat_ofBe_be, ofNat_ofLe_le, hlast]
    rw [show src.addr + (1 + 3 + 1 + 3 + 4 + 4 + 4) = src.addr + aaaMsgHdrSize from rfl, hrun]
    rfl
  · cases attachBuf <;> rfl
  · cases attachBuf <;> rfl
  · rw [← hm']
    cases attachBuf <;> rfl

/-! ## Messages a caller can build -/

/--
The messages built from an empty list over the heap `h₀`, with the AVPs linked so
far. Data handed to `AAACreateAVP` can be read, and the vendor id is zero unless
the AVP keeps its V bit.
-/
inductive Built (h₀ : Heap) : Heap → Message → List Nat → Prop
  | empty {m : Message} (hhd : m.head = none) (htl : m.tail = none) : Built h₀ h₀ m []
  | create {h h' : Heap} {m : Message} {linked : List Nat} {mem : CreateMem} {code : UInt32}
      {flags : UInt8} {vendorId : UInt32} {blk data : List UInt8} {off : Nat}
      {status : AvpDataStatus} {r : Option Nat} (hb : Built h₀ h m linked)
      (hlen : 1 ≤ data.length) (hdata : slice blk off data.length = some data)
      (hven : (setAvpFields code flags).1 &&& aaaAvpFlagVendorSpecific = 0 → vendorId = 0)
      (hc : aaaCreateAVP mem h code flags vendorId (some (blk, off)) data.length status
        = .ok (r, h')) : Built h₀ h' m linked
  | add {h h' : Heap} {m m' : Message} {linked : List Nat} {a : Nat} {pos : Option Nat}
      {rc : ReturnCode} (hb : Built h₀ h m linked) (hnew : h₀.size ≤ a)
      (ha : aaaAddAVPToMessage h m (some a) pos = .ok (rc, h', m')) :
      Built h₀ h' m' (if rc = .errSuccess then a :: linked else linked)

/-- The AVP a successful `AAACreateAVP` leaves behind. -/
theorem aaaCreateAVP_cases {mem : CreateMem} {h h' : Heap} {code : UInt32} {flags : UInt8}
    {vendorId : UInt32} {blk data : List UInt8} {off : Nat} {status : AvpDataStatus}
    {r : Option Nat} (hdata : slice blk off data.length = some data)
    (hc : aaaCreateAVP mem h code flags vendorId (some (blk, off)) data.length status
      = .ok (r, h')) :
    h' = h ∨ ∃ c : Avp, h' = ⟨h.cells ++ [c]⟩ ∧ c.next = none
      ∧ c.view = some ⟨code, (setAvpFields code flags).1, vendorId, data⟩ := by
  simp only [aaaCreateAVP] at hc
  split at hc
  · simp only [Res.ok.injEq, Prod.mk.injEq] at hc
    exact Or.inl hc.2.symm
  · split at hc
    · simp only [Res.ok.injEq, Prod.mk.injEq] at hc
      exact Or.inl hc.2.symm
    · cases status with
      -- the copy is a block of its own, so its data starts at offset zero
      | duplicateData =>
          simp only [hdata, Res.ofAccess_some, Res.ok_bind, Res.pure_eq] at hc
          split at hc
          · simp only [Res.ok.injEq, Prod.mk.injEq] at hc
            exact Or.inl hc.2.symm
          · simp only [Res.ok.injEq, Prod.mk.injEq] at hc
            refine Or.inr ⟨_, hc.2.symm, rfl, ?_⟩
            simp [Avp.view, Str.bytes, slice]
      | dontFreeData =>
          simp only [Res.ok.injEq, Prod.mk.injEq] at hc
          refine Or.inr ⟨_, hc.2.symm, rfl, ?_⟩
          simp [Avp.view, Str.bytes, hdata]
      | freeData =>
          simp only [Res.ok.injEq, Prod.mk.injEq] at hc
          refine Or.inr ⟨_, hc.2.symm, rfl, ?_⟩
          simp [Avp.view, Str.bytes, hdata]

/-- What is true of everything a caller can have built. -/
structure BuiltInv (h₀ h : Heap) (m : Message) : Prop where
  grows : h₀.size ≤ h.size
  /-- The list starts at an AVP of this message. -/
  head : ∀ y, m.head = some y → h₀.size ≤ y
  /-- Links between AVPs of this message stay among them. -/
  next : ∀ x y, h₀.size ≤ x → h.next x = some y → h₀.size ≤ y
  /-- Every AVP made for this message can be sent. -/
  sendable : ∀ x, h₀.size ≤ x → x < h.size → ∃ v, (h.body x).bind Avp.view = some v ∧ Sendable v

theorem Built.inv {h₀ h : Heap} {m : Message} {linked : List Nat} (hb : Built h₀ h m linked) :
    BuiltInv h₀ h m := by
  induction hb with
  | empty hhd htl =>
      have hout : ∀ x, h₀.size ≤ x → h₀.cells[x]? = none := fun x hx =>
        List.getElem?_eq_none hx
      refine ⟨Nat.le_refl _, by simp [hhd], ?_, ?_⟩
      · intro x y hx hy
        unfold Heap.next at hy
        rw [hout x hx] at hy
        exact absurd hy (by simp)
      · intro x hx hlt
        exact absurd hlt (by omega)
  | @create h h' m linked mem code flags vendorId blk data off status r hb hlen hdata hven hc ih =>
      rcases aaaCreateAVP_cases hdata hc with rfl | ⟨c, rfl, hcn, hcv⟩
      · exact ih
      · -- the new cell sits at `h.size`; the others are where they were
        have hcell : ∀ x : Nat, (h.cells ++ [c])[x]? = some c ∨ (h.cells ++ [c])[x]? = h.cells[x]? := by
          intro x
          rcases Nat.lt_trichotomy x h.cells.length with hx | rfl | hx
          · exact Or.inr (List.getElem?_append_left hx)
          · exact Or.inl (by simp)
          · refine Or.inr ?_
            rw [List.getElem?_eq_none (by simp; omega), List.getElem?_eq_none (by omega)]
        refine ⟨?_, ih.head, ?_, ?_⟩
        · have := ih.grows
          simp only [Heap.size, List.length_append, List.length_singleton] at this ⊢
          omega
        · intro x y hx hy
          unfold Heap.next at hy
          rcases hcell x with he | he <;> rw [he] at hy
          · rw [Option.bind_some, hcn] at hy
            exact absurd hy (by simp)
          · exact ih.next x y hx hy
        · intro x hx hlt
          rw [← view_of_body]
          by_cases hxs : x < h.size
          · obtain ⟨v, hv, hsv⟩ := ih.sendable x hx hxs
            rw [List.getElem?_append_left hxs, view_of_body]
            exact ⟨v, hv, hsv⟩
          · have hxe : x = h.cells.length := by
              simp only [Heap.size, List.length_append, List.length_singleton] at hlt hxs
              omega
            refine ⟨⟨code, (setAvpFields code flags).1, vendorId, data⟩, ?_, hlen, ?_, hven⟩
            · rw [hxe, List.getElem?_concat_length, Option.bind_some, hcv]
            · simp only [setAvpFields_idem]
  | add hb hnew ha ih =>
      have hfr := aaaAddAVPToMessage_frame ha
      obtain ⟨hhd, hnx⟩ := hfr.closed _ hnew ih.head ih.next
      refine ⟨by rw [hfr.size]; exact ih.grows, hhd, hnx, ?_⟩
      intro x hx hlt
      rw [hfr.body]
      exact ih.sendable x hx (by rw [← hfr.size]; exact hlt)

/-- As long as no AVP is linked twice, the list is a sequence of the linked AVPs. -/
theorem Built.avpList {h₀ h : Heap} {m : Message} {linked : List Nat}
    (hb : Built h₀ h m linked) (hnd : linked.Nodup) :
    ∃ ids, AvpList h m ids ∧ ∀ x, x ∈ ids ↔ x ∈ linked := by
  induction hb with
  | empty hhd htl => exact ⟨[], ⟨⟨List.nodup_nil, hhd, htl⟩, by simp⟩, by simp⟩
  | create hb hlen hdata hven hc ih =>
      obtain ⟨ids, hl, hmem⟩ := ih hnd
      rcases aaaCreateAVP_cases hdata hc with rfl | ⟨c, rfl, -, -⟩
      · exact ⟨ids, hl, hmem⟩
      · exact ⟨ids, hl.alloc_append c, hmem⟩
  | @add h h' m m' linked a pos rc hb hnew ha ih =>
      by_cases hrc : rc = .errSuccess
      · rw [if_pos hrc] at hnd ⊢
        obtain ⟨ids, hl, hmem⟩ := ih (List.nodup_cons.mp hnd).2
        have hx : a ∉ ids := fun hm => (List.nodup_cons.mp hnd).1 ((hmem a).mp hm)
        obtain ⟨hl', hpos⟩ := aaaAddAVPToMessage_insert hl hx ha
        refine ⟨_, hl', fun x => ?_⟩
        rw [mem_insertAvp (hpos.mp hrc), List.mem_cons, hmem]
      -- a refused call linked nothing
      · rw [if_neg hrc] at hnd ⊢
        obtain ⟨rfl, rfl⟩ := (aaaAddAVPToMessage_frame ha).refused hrc
        exact ih hnd

/-- Every AVP such a message shows can be sent. -/
theorem Built.sendable {h₀ h : Heap} {m : Message} {linked : List Nat}
    (hb : Built h₀ h m linked) {vs : List AvpView} (hs : avpSeq h m = some vs) :
    ∀ v ∈ vs, Sendable v := by
  have hinv := hb.inv
  unfold avpSeq at hs
  cases hw : walk h.next h.size m.head with
  | none => rw [hw] at hs; exact absurd hs (by simp)
  | some ids =>
      rw [hw] at hs
      intro v hv
      obtain ⟨x, hx, hxv⟩ := mem_of_views hs hv
      have hlt : x < h.size := by
        by_contra hge
        rw [List.getElem?_eq_none (by unfold Heap.size at hge; omega)] at hxv
        exact absurd hxv (by simp)
      obtain ⟨u, hu, hsu⟩ := hinv.sendable x (walk_closed hinv.next hinv.head hw x hx) hlt
      rw [view_of_body, hu] at hxv
      obtain rfl := Option.some.inj hxv
      exact hsu

/-- A message no AVP was linked to twice has a sequence of AVPs. -/
theorem Built.avpSeq_isSome {h₀ h : Heap} {m : Message} {linked : List Nat}
    (hb : Built h₀ h m linked) (hnd : linked.Nodup) : ∃ vs, avpSeq h m = some vs := by
  have hinv := hb.inv
  obtain ⟨ids, hl, -⟩ := hb.avpList hnd
  have hw := hl.chain.fwd.walk_eq (hl.chain.length_le hl.alloc)
  rw [hl.avpSeq_eq]
  refine views_isSome fun x hx => ?_
  obtain ⟨v, hv, -⟩ := hinv.sendable x (walk_closed hinv.next hinv.head hw x hx) (hl.alloc x hx)
  exact ⟨v, by rw [view_of_body]; exact hv⟩

/-- The length bytes of an encoded message. -/
theorem encMsg_len_bytes (m : Message) {vs : List AvpView} (hn : encLen vs < 2 ^ 24) :
    ofBe (((encMsg m vs).drop 1).take 3) = (encMsg m vs).length := by
  have hm : encMsg m vs = [1] ++ (be 3 (encLen vs) ++ ([m.flags] ++ be 3 m.commandCode.toNat
      ++ be 4 m.applicationId.toNat ++ le 4 m.hopbyhopId.toNat ++ le 4 m.endtoendId.toNat
      ++ encAvps vs)) := by
    rw [encMsg, encHdr]
    simp only [List.append_assoc]
  have hcut : ((encMsg m vs).drop 1).take 3 = be 3 (encLen vs) := by
    rw [hm, List.singleton_append, List.drop_succ_cons, List.drop_zero, List.take_left' (by simp)]
  rw [hcut, ofBe_be (by omega), length_encMsg]

/--
**Encoding and decoding are inverse.**

Whatever a caller built, if it has a sequence of AVPs at all (which it has as long
as no AVP was linked twice) and this fits the 24-bit length, the encoder fills its
buffer exactly, and the decoder reads the same header and the same AVPs back.
-/
theorem aaaBuildMsgBuffer_roundtrip {h₀ h : Heap} {m : Message} {linked : List Nat}
    (hb : Built h₀ h m linked) (hcmd : m.commandCode.toNat < 2 ^ 24) :
    (linked.Nodup → ∃ vs, avpSeq h m = some vs) ∧
    ∀ vs, avpSeq h m = some vs → encLen vs < 2 ^ 24 →
      (∀ mem m', aaaBuildMsgBuffer mem h m ≠ .ok (.mismatch, m')) ∧
      ∃ buf, aaaBuildMsgBuffer true h m = .ok (.built buf, { m with buf := some buf })
        ∧ buf.length = encLen vs ∧ buf.length % 4 = 0 ∧ ofBe ((buf.drop 1).take 3) = buf.length
        ∧ ∀ (src : Block) (mem : TranslateMem) (g : Heap) (attachBuf : Bool),
          src.bytes = buf → mem.msg = true → (∀ n, (mem.avp n).avp = true) →
          ∃ g' m', aaaTranslateMessage mem g src buf.length attachBuf = .ok (g', m')
            ∧ m'.flags = m.flags ∧ m'.commandCode = m.commandCode
            ∧ m'.applicationId = m.applicationId ∧ m'.hopbyhopId = m.hopbyhopId
            ∧ m'.endtoendId = m.endtoendId ∧ avpSeq g' m' = some vs := by
  refine ⟨hb.avpSeq_isSome, fun vs hs hn => ?_⟩
  have henc := aaaBuildMsgBuffer_eq hs (by omega)
  refine ⟨?_, encMsg m vs, henc, length_encMsg m vs, ?_, encMsg_len_bytes m hn, ?_⟩
  · intro mem m' hmis
    cases mem with
    | true => rw [henc] at hmis; simp at hmis
    -- without memory the encoder stops before it writes
    | false =>
        obtain ⟨as, has, -⟩ := avpsOf_of_avpSeq hs
        simp [aaaBuildMsgBuffer, has] at hmis
  · have := length_encAvps_mod vs
    rw [length_encMsg, encLen, aaaMsgHdrSize]
    omega
  · intro src mem g attachBuf hsrc hmsg hmem
    obtain ⟨g', m', ids, htr, hh, hm⟩ :=
      aaaTranslateMessage_encMsg hsrc hcmd hn (hb.sendable hs) hmsg hmem g attachBuf
    rw [hsrc] at htr
    simp only [Message.header, Prod.mk.injEq] at hm
    obtain ⟨h1, h2, h3, h4, h5⟩ := hm
    exact ⟨g', m', htr, h1, h2, h3, h5, h4, by rw [hh.list.avpSeq_eq]; exact hh.seq⟩

/-- A message with one AVP, the Session-Id `ab`. -/
def sampleMessage : Message :=
  { Message.zero with flags := 0x80, commandCode := 274, sessionId := some 0, head := some 0,
                      tail := some 0 }

/-- Its AVP: the M bit was set by `set_avp_fields`. -/
def sampleHeap : Heap :=
  ⟨[{ next := none, prev := none, code := 263, flags := 0x40, type := .string, vendorId := 0,
      data := ⟨[97, 98], 0, 2⟩, freeIt := true }]⟩

theorem aaaBuildMsgBuffer_roundtrip_sample :
    ∃ buf, aaaBuildMsgBuffer true sampleHeap sampleMessage
        = .ok (.built buf, { sampleMessage with buf := some buf }) ∧ buf.length = 32 := by
  let m₀ : Message := { sampleMessage with sessionId := none, head := none, tail := none }
  have hcre : aaaCreateAVP ⟨true, true⟩ ⟨[]⟩ 263 0 0 (some ([97, 98], 0)) [97, 98].length
      .duplicateData = .ok (some 0, sampleHeap) := rfl
  have hadd : aaaAddAVPToMessage sampleHeap m₀ (some 0) none
      = .ok (.errSuccess, sampleHeap, sampleMessage) := rfl
  have h0 : Built ⟨[]⟩ ⟨[]⟩ m₀ [] := .empty rfl rfl
  have hlen : 1 ≤ [(97 : UInt8), 98].length := by decide
  have h1 : Built ⟨[]⟩ sampleHeap m₀ [] := .create h0 hlen rfl (fun _ => rfl) hcre
  have h2 : Built ⟨[]⟩ sampleHeap sampleMessage [0] := .add h1 (Nat.le_refl _) hadd
  obtain ⟨buf, hbuf, hlen, -⟩ := ((aaaBuildMsgBuffer_roundtrip h2 (by decide)).2
    [⟨263, 0x40, 0, [97, 98]⟩] rfl (by decide)).2
  exact ⟨buf, hbuf, hlen⟩

end Disc.Msg
