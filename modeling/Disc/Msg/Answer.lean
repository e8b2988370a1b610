import Disc.Msg.Scan

/-!
# Making an answer

`AAANewMessage` of `message.c` makes the message a module fills in: Session-Id, Origin-Host
and Origin-Realm, and, if it is to answer a request, a Result-Code and the Proxy-Info AVPs of
the request. These are copied in a loop that looks for the next one with
`AAAFindMatchingAVP`. That function starts at the AVP it is given, not behind it, so the
loop finds the AVP it has just copied again.

Request and answer have their AVPs in one heap. The answer is made of new cells only, and no
link of it leads into the request or back, so the cells of the request stay as they are.
-/

namespace Disc.Msg

open Disc.Lib

/-! ## Searching and copying -/

/-- `AAASearchType`. -/
inductive SearchType where
  | forward | backward
deriving Repr, DecidableEq

/-- The loop of `AAAFindMatchingAVP`, along the links `link`. -/
def searchAvp (h : Heap) (link : Nat → Option Nat) (code vendorId : UInt32) :
    Nat → Option Nat → Res (Option Nat)
  | _, none => .ok none
  | 0, some _ => .diverge
  | fuel + 1, some x =>
      match h.cells[x]? with
      | none => .fault
      | some a =>
          if a.code = code ∧ a.vendorId = vendorId then .ok (some x)
          else searchAvp h link code vendorId fuel (link x)

/-- `AAAFindMatchingAVP`: from `startAvp` on, which has to be in the list, or from one of the ends. -/
def aaaFindMatchingAVP (h : Heap) (m : Message) (startAvp : Option Nat) (avpCode vendorId : UInt32)
    (searchType : SearchType) : Res (Option Nat) :=
  let link := match searchType with
    | .forward => h.next
    | .backward => h.prev
  match startAvp with
  | none =>
      let start := match searchType with
        | .forward => m.head
        | .backward => m.tail
      searchAvp h link avpCode vendorId h.size start
  | some s =>
      match seek h.next h.size m.head s with
      | none => .diverge
      | some false => .ok none
      | some true => searchAvp h link avpCode vendorId h.size (some s)

/-- `AAACloneAVP`: a cell of its own, with the data of the original or a copy of them. -/
def aaaCloneAVP (mem : CreateMem) (h : Heap) (avp : Option Nat) (cloneData : Bool) :
    Res (Option Nat × Heap) :=
  match avp with
  | none => .ok (none, h)
  | some x =>
      match h.cells[x]? with
      | none => .fault
      | some a =>
          if a.data.len = 0 then .ok (none, h)
          else if !mem.avp then .ok (none, h)
          else
            let n := { a with next := none, prev := none }
            if cloneData then
              if !mem.data then .ok (none, h)
              else do
                let copy ← Res.ofAccess a.data.bytes
                return (some h.size,
                  ⟨h.cells ++ [{ n with data := ⟨copy, 0, a.data.len⟩, freeIt := true }]⟩)
            else .ok (some h.size, ⟨h.cells ++ [{ n with freeIt := false }]⟩)

/-! ## The message -/

/-- The allocations of `AAANewMessage`, in their order. -/
structure NewMem where
  msg : Bool
  sessionId : CreateMem
  origHost : CreateMem
  origRealm : CreateMem
  resCode : CreateMem
  clone : Nat → CreateMem

/-- Memory for everything. -/
def NewMem.all : NewMem :=
  ⟨true, ⟨true, true⟩, ⟨true, true⟩, ⟨true, true⟩, ⟨true, true⟩, fun _ => ⟨true, true⟩⟩

/-- `AAACreateAVP` and `AAAAddAVPToMessage`; nothing when either fails. -/
def createAndAdd (mem : CreateMem) (h : Heap) (m : Message) (code : UInt32) (data : Str)
    (status : AvpDataStatus) (position : Option Nat) : Res (Option (Heap × Message)) := do
  let (avp, h) ← aaaCreateAVP mem h code 0 0 (some (data.blk, data.off)) data.len status
  match avp with
  | none => return none
  | some a => do
      let (rc, h, m) ← aaaAddAVPToMessage h m (some a) position
      if rc = .errSuccess then return some (h, m) else return none

/-- The Proxy-Info AVPs of the request, from `avpT` on; `n` of them have been copied. -/
def mirrorProxyInfo (mem : Nat → CreateMem) (req : Message) :
    Nat → Nat → Heap → Message → Option Nat → Res (Option (Heap × Message))
  | 0, _, _, _, _ => .diverge
  | fuel + 1, n, h, m, avpT => do
      match ← aaaFindMatchingAVP h req avpT 284 0 .forward with
      | none => return some (h, m)
      | some t => do
          let (avp, h) ← aaaCloneAVP (mem n) h (some t) false
          match avp with
          | none => return none
          | some a => do
              let (rc, h, m) ← aaaAddAVPToMessage h m (some a) m.tail
              if rc = .errSuccess then mirrorProxyInfo mem req fuel (n + 1) h m (some t)
              else return none

/-- Continue with what was made, if it was made. -/
def andThen (r : Res (Option (Heap × Message)))
    (f : Heap → Message → Res (Option (Heap × Message))) : Res (Option (Heap × Message)) :=
  r >>= fun x =>
    match x with
    | none => .ok none
    | some (h, m) => f h m

/-- The AVPs every new message has. -/
def newCommon (mem : NewMem) (h : Heap) (aaaIdentity aaaRealm sessionId : Str) (m : Message) :
    Res (Option (Heap × Message)) :=
  andThen (createAndAdd mem.sessionId h m 263 sessionId .dontFreeData none) fun h m =>
  andThen (createAndAdd mem.origHost h m 264 aaaIdentity .dontFreeData m.tail) fun h m =>
  createAndAdd mem.origRealm h m 296 aaaRealm .dontFreeData m.tail

/-- The local `code`: `htonl(AAA_SUCCESS)`. -/
def successCode : Str := ⟨be 4 2001, 0, 4⟩

/--
`AAANewMessage`; `fuel` bounds the rounds of its loop. A session id that is a null pointer
and every failed call return a null message, with what was allocated given back.
-/
def aaaNewMessage (mem : NewMem) (fuel : Nat) (h : Heap) (aaaIdentity aaaRealm : Str)
    (commandCode applicationId : UInt32) (sessionId : Option Str) (request : Option Message) :
    Res (Option (Heap × Message)) :=
  match sessionId with
  | none => .ok none
  | some sid =>
      if !mem.msg then .ok none
      else
        let m := { Message.zero with commandCode, applicationId }
        andThen (newCommon mem h aaaIdentity aaaRealm sid m) fun h m =>
        match request with
        | none => .ok (some (h, { m with flags := 0x80 }))
        | some req =>
            let m := { m with inPeer := req.inPeer
                              flags := m.flags ||| (req.flags &&& 0x40)
                              endtoendId := req.endtoendId
                              hopbyhopId := req.hopbyhopId }
            andThen (createAndAdd mem.resCode h m 268 successCode .duplicateData m.sessionId)
              fun h m => mirrorProxyInfo mem.clone req fuel 0 h m req.head

/-! ## What a search finds -/

/-- The AVP a search for this code and vendor stops at. -/
def IsAvp (code vendorId : UInt32) (a : Avp) : Prop := a.code = code ∧ a.vendorId = vendorId

instance (code vendorId : UInt32) (a : Avp) : Decidable (IsAvp code vendorId a) :=
  inferInstanceAs (Decidable (_ ∧ _))

/-- A Proxy-Info AVP. -/
def ProxyInfo (a : Avp) : Prop := IsAvp 284 0 a

instance (a : Avp) : Decidable (ProxyInfo a) := inferInstanceAs (Decidable (IsAvp _ _ _))

theorem isAvp_body {code vendorId : UInt32} {a : Avp} :
    IsAvp code vendorId a.body ↔ IsAvp code vendorId a := Iff.rfl

/-- Whether `x` is an AVP of this code and vendor. -/
def Heap.isAvp (h : Heap) (code vendorId : UInt32) (x : Nat) : Bool :=
  h.cells[x]?.any fun a => decide (IsAvp code vendorId a)

section Search

variable {h : Heap} {code vendorId : UInt32}

theorem isAvp_iff {x : Nat} :
    h.isAvp code vendorId x = true ↔ ∃ a, h.cells[x]? = some a ∧ IsAvp code vendorId a := by
  simp [Heap.isAvp, Option.any_eq_true]

/-- The loop of the search stops at the first match. -/
theorem searchAvp_eq {link : Nat → Option Nat} {start : Option Nat} {xs : List Nat}
    (hs : Seg link start xs none) (halloc : ∀ x ∈ xs, x < h.size) {fuel : Nat}
    (hf : xs.length ≤ fuel) :
    searchAvp h link code vendorId fuel start = .ok (xs.find? (h.isAvp code vendorId)) := by
  induction xs generalizing start fuel with
  | nil =>
      obtain rfl : start = none := hs
      cases fuel <;> rfl
  | cons x xs ih =>
      obtain ⟨rfl, hrest⟩ := hs
      obtain ⟨fuel, rfl⟩ := Nat.exists_eq_succ_of_ne_zero (Nat.ne_of_gt (Nat.zero_lt_of_lt hf))
      have hcell : h.cells[x]? = some (h.cells.get ⟨x, halloc x (by simp)⟩) :=
        List.getElem?_eq_getElem _
      have hnext := ih hrest (fun y hy => halloc y (by simp [hy])) (by simpa using hf)
      rw [searchAvp, hcell]
      show (if IsAvp code vendorId _ then _ else _) = _
      by_cases hx : IsAvp code vendorId (h.cells.get ⟨x, halloc x (by simp)⟩)
      · rw [if_pos hx, List.find?_cons_of_pos (by simpa [Heap.isAvp, hcell] using hx)]
      · rw [if_neg hx, List.find?_cons_of_neg (by simpa [Heap.isAvp, hcell] using hx)]
        exact hnext

/-- Along a list without such an AVP the search ends at its end. -/
theorem searchAvp_none {start : Option Nat} {xs : List Nat} (hs : Seg h.next start xs none)
    (halloc : ∀ x ∈ xs, x < h.size) (hno : ∀ x ∈ xs, ∀ a ∈ h.cells[x]?, ¬ IsAvp code vendorId a)
    {fuel : Nat} (hf : xs.length ≤ fuel) :
    searchAvp h h.next code vendorId fuel start = .ok none := by
  rw [searchAvp_eq hs halloc hf, List.find?_eq_none.mpr]
  intro x hx hm
  obtain ⟨a, ha, hm⟩ := isAvp_iff.mp hm
  exact hno x hx a ha hm

/-- Otherwise it stops at the first one. -/
theorem searchAvp_first {start : Option Nat} {xs : List Nat} (hs : Seg h.next start xs none)
    (halloc : ∀ x ∈ xs, x < h.size) {x : Nat} (hx : x ∈ xs) {a : Avp} (ha : h.cells[x]? = some a)
    (hm : IsAvp code vendorId a) {fuel : Nat} (hf : xs.length ≤ fuel) :
    ∃ t ∈ xs, (∃ c, h.cells[t]? = some c ∧ IsAvp code vendorId c)
      ∧ searchAvp h h.next code vendorId fuel start = .ok (some t) := by
  have hsome := List.find?_isSome.mpr ⟨x, hx, isAvp_iff.mpr ⟨a, ha, hm⟩⟩
  obtain ⟨t, ht⟩ := Option.isSome_iff_exists.mp hsome
  refine ⟨t, List.mem_of_find?_eq_some ht, isAvp_iff.mp (List.find?_some ht), ?_⟩
  rw [searchAvp_eq hs halloc hf, ht]

variable {m : Message} {ids : List Nat}

theorem find_head (hl : AvpList h m ids) :
    aaaFindMatchingAVP h m m.head code vendorId .forward
      = searchAvp h h.next code vendorId h.size m.head := by
  unfold aaaFindMatchingAVP
  cases hm : m.head with
  | none => simp
  | some s =>
      have hs : s ∈ ids := List.mem_of_mem_head? (hl.chain.fwd.head ▸ hm)
      have hseek := hl.chain.fwd.seek_eq (hl.chain.length_le hl.alloc) s
      rw [hm, decide_eq_true hs] at hseek
      simp only [hseek]

/-- **A search that starts at such an AVP finds that one.** -/
theorem find_self (hl : AvpList h m ids) {t : Nat} (ht : t ∈ ids) {c : Avp}
    (hc : h.cells[t]? = some c) (hm : IsAvp code vendorId c) :
    aaaFindMatchingAVP h m (some t) code vendorId .forward = .ok (some t) := by
  have hseek := hl.chain.fwd.seek_eq (hl.chain.length_le hl.alloc) t
  rw [decide_eq_true ht] at hseek
  have hpos : 0 < h.size := Nat.zero_lt_of_lt (hl.alloc t ht)
  obtain ⟨n, hn⟩ := Nat.exists_eq_succ_of_ne_zero (Nat.ne_of_gt hpos)
  simp only [aaaFindMatchingAVP, hseek]
  rw [hn, searchAvp, hc]
  exact if_pos hm

end Search

/-! ## The message so far -/

/-- The AVPs `cs` in new cells; everything that was there before stays as it was. -/
structure Made (h₀ h : Heap) (m : Message) (ids : List Nat) (cs : List Avp) : Prop where
  list : AvpList h m ids
  bodies : ids.map h.body = cs.map some
  fresh : ∀ x ∈ ids, h₀.size ≤ x
  old : ∀ x < h₀.size, h.cells[x]? = h₀.cells[x]?
  grown : h₀.size ≤ h.size
  /-- The Session-Id is the first of them. -/
  session : m.sessionId = ids.head?

/-- The header, with the peer the message belongs to. -/
def Message.origin (m : Message) : (UInt8 × UInt32 × UInt32 × UInt32 × UInt32) × Option Nat :=
  (m.header, m.inPeer)

theorem setShortcut_inPeer (m : Message) (c : UInt32) (a : Option Nat) :
    (m.setShortcut c a).inPeer = m.inPeer := by
  rw [setShortcut_fields]

theorem setShortcut_sessionId (m : Message) {c : UInt32} (hc : c ≠ 263) (a : Option Nat) :
    (m.setShortcut c a).sessionId = m.sessionId := by
  rw [setShortcut_fields]
  exact if_neg hc

section Made

variable {h₀ h : Heap} {m : Message}

/-- The list of an older message reads as before. -/
theorem Made.older {ids : List Nat} {cs : List Avp} (hmade : Made h₀ h m ids cs) {req : Message}
    {rids : List Nat} (hl : AvpList h₀ req rids) : AvpList h req rids := by
  refine ⟨⟨hl.chain.nodup, ?_, ?_⟩, fun x hx => Nat.lt_of_lt_of_le (hl.alloc x hx) hmade.grown⟩
  · refine hl.chain.fwd.congr fun q hq => ?_
    unfold Heap.next
    rw [hmade.old q (hl.alloc q hq)]
  · refine hl.chain.bwd.congr fun q hq => ?_
    unfold Heap.prev
    rw [hmade.old q (hl.alloc q (List.mem_reverse.mp hq))]

/-- The Session-Id, into the empty message. -/
theorem Made.start (h : Heap) {c : Avp} (hc : c.code = 263) {m : Message} (hhd : m.head = none)
    (htl : m.tail = none) :
    ∃ h' m', aaaAddAVPToMessage ⟨h.cells ++ [c]⟩ m (some h.size) none = .ok (.errSuccess, h', m')
      ∧ Made h h' m' [h.size] [c.body] ∧ m'.origin = m.origin := by
  have hempty : AvpList h m [] := ⟨⟨by simp, hhd, htl⟩, by simp⟩
  have hcell : (⟨h.cells ++ [c]⟩ : Heap).cells[h.size]? = some c := by simp [Heap.size]
  have hlt : h.size < (⟨h.cells ++ [c]⟩ : Heap).size := by simp [Heap.size]
  obtain ⟨h', m', hadd, hlk⟩ := add_front (hempty.alloc_append c) hlt (by simp)
  obtain ⟨hd, tl, hm'⟩ := aaaAddAVPToMessage_message hcell hadd
  refine ⟨h', m', hadd, ⟨hlk.list, ?_, by simp, ?_, ?_, ?_⟩, ?_⟩
  · rw [hlk.body]
    simp [Heap.body, Heap.size]
  · intro x hx
    rw [aaaAddAVPToMessage_cells (hempty.alloc_append c) hadd (Nat.ne_of_gt hx) (by simp)]
    exact List.getElem?_append_left hx
  · rw [hlk.size]
    exact Nat.le_of_lt hlt
  · rw [hm', Message.setShortcut, if_pos hc]
    rfl
  · rw [hm', Message.origin, setShortcut_inPeer, setShortcut_header]
    rfl

/-- Any other AVP, right behind one that is there. -/
theorem Made.link {as bs : List Nat} {pos : Nat} {ca cb : List Avp}
    (hmade : Made h₀ h m (as ++ pos :: bs) (ca ++ cb)) (hlen : ca.length = as.length + 1) {c : Avp}
    (hc : c.code ≠ 263) :
    ∃ h' m', aaaAddAVPToMessage ⟨h.cells ++ [c]⟩ m (some h.size) (some pos)
        = .ok (.errSuccess, h', m')
      ∧ Made h₀ h' m' (as ++ pos :: h.size :: bs) (ca ++ c.body :: cb)
      ∧ m'.origin = m.origin := by
  have hl := hmade.list
  have hnew : h.size ∉ as ++ pos :: bs := fun hm => Nat.lt_irrefl _ (hl.alloc _ hm)
  have hcell : (⟨h.cells ++ [c]⟩ : Heap).cells[h.size]? = some c := by simp [Heap.size]
  have hlt : h.size < (⟨h.cells ++ [c]⟩ : Heap).size := by simp [Heap.size]
  obtain ⟨h', m', hadd, hlk⟩ := add_after (hl.alloc_append c) hlt hnew
  obtain ⟨hd, tl, hm'⟩ := aaaAddAVPToMessage_message hcell hadd
  have hold : ∀ x ∈ as ++ pos :: bs, h'.body x = h.body x := by
    intro x hx
    rw [hlk.body]
    simp only [Heap.body, List.getElem?_append_left (hl.alloc x hx)]
  -- the cells in front of the new one, and those behind it
  have hsplit : (as ++ [pos]).map h.body = ca.map some ∧ bs.map h.body = cb.map some := by
    have hb : (as ++ [pos]).map h.body ++ bs.map h.body = ca.map some ++ cb.map some := by
      simpa using hmade.bodies
    exact List.append_inj hb (by simp [hlen])
  refine ⟨h', m', hadd, ⟨hlk.list, ?_, ?_, ?_, ?_, ?_⟩, ?_⟩
  · have hfront : (as ++ [pos]).map h'.body = ca.map some := by
      rw [← hsplit.1]
      exact List.map_congr_left fun x hx => hold x (by simp at hx ⊢; tauto)
    have hback : bs.map h'.body = cb.map some := by
      rw [← hsplit.2]
      exact List.map_congr_left fun x hx => hold x (by simp [hx])
    have hmid : h'.body h.size = some c.body := by
      rw [hlk.body]
      simp [Heap.body, Heap.size]
    calc (as ++ pos :: h.size :: bs).map h'.body
        = (as ++ [pos]).map h'.body ++ h'.body h.size :: bs.map h'.body := by simp
      _ = (ca ++ c.body :: cb).map some := by rw [hfront, hback, hmid]; simp
  · intro x hx
    rcases List.mem_append.mp hx with hx | hx
    · exact hmade.fresh x (by simp [hx])
    · rcases List.mem_cons.mp hx with rfl | hx
      · exact hmade.fresh x (by simp)
      · rcases List.mem_cons.mp hx with rfl | hx
        · exact hmade.grown
        · exact hmade.fresh x (by simp [hx])
  · intro x hx
    have hout : x ∉ as ++ pos :: bs := fun hm => Nat.not_le_of_lt hx (hmade.fresh x hm)
    have hlt' : x < h.size := Nat.lt_of_lt_of_le hx hmade.grown
    rw [aaaAddAVPToMessage_cells (hl.alloc_append c) hadd (Nat.ne_of_gt hlt') hout,
      List.getElem?_append_left hlt', hmade.old x hx]
  · rw [hlk.size]
    exact Nat.le_of_lt (Nat.lt_of_le_of_lt hmade.grown hlt)
  · rw [hm', setShortcut_sessionId _ hc]
    show m.sessionId = _
    rw [hmade.session]
    cases as <;> rfl
  · rw [hm', Message.origin, setShortcut_inPeer, setShortcut_header]
    rfl

/-- Or behind the last one. -/
theorem Made.link_last {ids : List Nat} {cs : List Avp} (hmade : Made h₀ h m ids cs)
    (hne : ids ≠ []) {c : Avp} (hc : c.code ≠ 263) :
    ∃ h' m', aaaAddAVPToMessage ⟨h.cells ++ [c]⟩ m (some h.size) m.tail = .ok (.errSuccess, h', m')
      ∧ Made h₀ h' m' (ids ++ [h.size]) (cs ++ [c.body]) ∧ m'.origin = m.origin := by
  obtain ⟨as, pos, rfl⟩ : ∃ as pos, ids = as ++ [pos] :=
    ⟨ids.dropLast, ids.getLast hne, (List.dropLast_append_getLast hne).symm⟩
  have htail : m.tail = some pos := by
    rw [hmade.list.chain.bwd.head]
    simp
  have hlen : cs.length = as.length + 1 := by
    have := congrArg List.length hmade.bodies
    simpa using this.symm
  rw [htail, List.append_assoc]
  refine Made.link ?_ hlen hc
  rwa [List.append_nil]

end Made

/-! ## The AVPs of its own -/

/-- An AVP with flags, type and vendor as `AAACreateAVP` sets them. -/
def ownAvp (code : UInt32) (data : Str) (freeIt : Bool) : Avp :=
  { next := none, prev := none, code, flags := (setAvpFields code 0).1
    type := (setAvpFields code 0).2, vendorId := 0, data, freeIt }

/-- The AVPs an answer starts with. -/
def ownAvps (aaaIdentity aaaRealm sid : Str) : List Avp :=
  [ownAvp 263 sid false, ownAvp 268 successCode true, ownAvp 264 aaaIdentity false,
    ownAvp 296 aaaRealm false]

section Own

variable {h h' : Heap} {m m' : Message} {code : UInt32} {data : Str} {pos : Option Nat}

theorem createAndAdd_link {mem : CreateMem} (hmem : mem.avp = true) (hd : 0 < data.len)
    (hadd : aaaAddAVPToMessage ⟨h.cells ++ [ownAvp code data false]⟩ m (some h.size) pos
      = .ok (.errSuccess, h', m')) :
    createAndAdd mem h m code data .dontFreeData pos = .ok (some (h', m')) := by
  have hne : data.len ≠ 0 := Nat.ne_of_gt hd
  have hc : aaaCreateAVP mem h code 0 0 (some (data.blk, data.off)) data.len .dontFreeData
      = .ok (some h.size, ⟨h.cells ++ [ownAvp code data false]⟩) := by
    simp [aaaCreateAVP, hne, hmem, ownAvp]
  simp [createAndAdd, hc, hadd]

/-- Without data or without memory there is no AVP. -/
theorem createAndAdd_none {mem : CreateMem} (hno : ¬ (mem.avp = true ∧ 0 < data.len)) :
    createAndAdd mem h m code data .dontFreeData pos = .ok none := by
  have hc : aaaCreateAVP mem h code 0 0 (some (data.blk, data.off)) data.len .dontFreeData
      = .ok (none, h) := by
    by_cases hd : data.len = 0
    · simp [aaaCreateAVP, hd]
    · have hmem : mem.avp = false := by
        simpa using fun hm => hno ⟨hm, Nat.pos_of_ne_zero hd⟩
      simp [aaaCreateAVP, hd, hmem]
  simp [createAndAdd, hc]

theorem createAndAdd_resCode {mem : CreateMem} (hmem : mem.avp = true ∧ mem.data = true)
    (hadd : aaaAddAVPToMessage ⟨h.cells ++ [ownAvp 268 successCode true]⟩ m (some h.size) pos
      = .ok (.errSuccess, h', m')) :
    createAndAdd mem h m 268 successCode .duplicateData pos = .ok (some (h', m')) := by
  have hc : aaaCreateAVP mem h 268 0 0 (some (successCode.blk, successCode.off))
      successCode.len .duplicateData
      = .ok (some h.size, ⟨h.cells ++ [ownAvp 268 successCode true]⟩) := by
    obtain ⟨havp, hdata⟩ := hmem
    simp only [aaaCreateAVP, havp, hdata]
    rfl
  simp [createAndAdd, hc, hadd]

theorem createAndAdd_resCode_none {mem : CreateMem} (hmem : ¬ (mem.avp = true ∧ mem.data = true)) :
    createAndAdd mem h m 268 successCode .duplicateData pos = .ok none := by
  have hc : aaaCreateAVP mem h 268 0 0 (some (successCode.blk, successCode.off))
      successCode.len .duplicateData = .ok (none, h) := by
    have hlen : successCode.len ≠ 0 := by decide
    by_cases havp : mem.avp = true
    · have hdata : mem.data = false := by simpa using fun hd => hmem ⟨havp, hd⟩
      simp [aaaCreateAVP, hlen, havp, hdata]
    · simp [aaaCreateAVP, hlen, havp]
  simp [createAndAdd, hc]

/-- The three AVPs every message has can be made. -/
structure NewMem.Common (mem : NewMem) (aaaIdentity aaaRealm sid : Str) : Prop where
  sessionId : mem.sessionId.avp = true ∧ 0 < sid.len
  origHost : mem.origHost.avp = true ∧ 0 < aaaIdentity.len
  origRealm : mem.origRealm.avp = true ∧ 0 < aaaRealm.len

/-- And the Result-Code behind them: the message of an answer is there. -/
structure NewMem.Begins (mem : NewMem) (aaaIdentity aaaRealm sid : Str) : Prop
    extends mem.Common aaaIdentity aaaRealm sid where
  msg : mem.msg = true
  resCode : mem.resCode.avp = true ∧ mem.resCode.data = true

theorem NewMem.all_begins {aaaIdentity aaaRealm sid : Str} (hi : 0 < aaaIdentity.len)
    (hr : 0 < aaaRealm.len) (hs : 0 < sid.len) : NewMem.all.Begins aaaIdentity aaaRealm sid :=
  ⟨⟨⟨rfl, hs⟩, ⟨rfl, hi⟩, ⟨rfl, hr⟩⟩, rfl, rfl, rfl⟩

section New

variable {mem : NewMem} {aaaIdentity aaaRealm sid : Str}

theorem newCommon_made (h : Heap) (hmem : mem.Common aaaIdentity aaaRealm sid) {m : Message}
    (hhd : m.head = none) (htl : m.tail = none) :
    ∃ h' m' s o r, newCommon mem h aaaIdentity aaaRealm sid m = .ok (some (h', m'))
      ∧ Made h h' m' [s, o, r]
          [ownAvp 263 sid false, ownAvp 264 aaaIdentity false, ownAvp 296 aaaRealm false]
      ∧ m'.origin = m.origin := by
  obtain ⟨h₁, m₁, hadd₁, hm₁, ho₁⟩ := @Made.start h (ownAvp 263 sid false) rfl m hhd htl
  obtain ⟨h₂, m₂, hadd₂, hm₂, ho₂⟩ :=
    hm₁.link_last (c := ownAvp 264 aaaIdentity false) (by simp) (by decide : (264 : UInt32) ≠ 263)
  obtain ⟨h₃, m₃, hadd₃, hm₃, ho₃⟩ :=
    hm₂.link_last (c := ownAvp 296 aaaRealm false) (by simp) (by decide : (296 : UInt32) ≠ 263)
  refine ⟨h₃, m₃, _, _, _, ?_, hm₃, by rw [ho₃, ho₂, ho₁]⟩
  obtain ⟨⟨has, hs⟩, ⟨hai, hi⟩, ⟨har, hr⟩⟩ := hmem
  simp only [newCommon, createAndAdd_link has hs hadd₁, andThen, Res.ok_bind,
    createAndAdd_link hai hi hadd₂, createAndAdd_link har hr hadd₃]

/-- When one of them cannot be made, there is no message. -/
theorem newCommon_none (h : Heap) (hmem : ¬ mem.Common aaaIdentity aaaRealm sid) {m : Message}
    (hhd : m.head = none) (htl : m.tail = none) :
    newCommon mem h aaaIdentity aaaRealm sid m = .ok none := by
  by_cases hs : mem.sessionId.avp = true ∧ 0 < sid.len
  · obtain ⟨h₁, m₁, hadd₁, hm₁, -⟩ := @Made.start h (ownAvp 263 sid false) rfl m hhd htl
    by_cases hi : mem.origHost.avp = true ∧ 0 < aaaIdentity.len
    · obtain ⟨h₂, m₂, hadd₂, -, -⟩ := hm₁.link_last (c := ownAvp 264 aaaIdentity false) (by simp)
        (by decide : (264 : UInt32) ≠ 263)
      have hr : ¬ (mem.origRealm.avp = true ∧ 0 < aaaRealm.len) := fun hr => hmem ⟨hs, hi, hr⟩
      simp only [newCommon, createAndAdd_link hs.1 hs.2 hadd₁, andThen, Res.ok_bind,
        createAndAdd_link hi.1 hi.2 hadd₂, createAndAdd_none hr]
    · simp only [newCommon, createAndAdd_link hs.1 hs.2 hadd₁, andThen, Res.ok_bind,
        createAndAdd_none hi]
  · simp only [newCommon, createAndAdd_none hs, andThen, Res.ok_bind]

/-- Everything up to the copying, which is left to do. -/
theorem aaaNewMessage_made (h : Heap) (hmem : mem.Begins aaaIdentity aaaRealm sid)
    (commandCode applicationId : UInt32) (req : Message) :
    ∃ h₁ m₁ x y o r, Made h h₁ m₁ [x, y, o, r] (ownAvps aaaIdentity aaaRealm sid)
      ∧ m₁.origin = ((req.flags &&& 0x40, commandCode, applicationId, req.endtoendId,
          req.hopbyhopId), req.inPeer)
      ∧ m₁.resCode = some y
      ∧ ∀ fuel, aaaNewMessage mem fuel h aaaIdentity aaaRealm commandCode applicationId (some sid)
          (some req) = mirrorProxyInfo mem.clone req fuel 0 h₁ m₁ req.head := by
  obtain ⟨h₁, m₀, x, o, r, hrun, hmade, ho⟩ := newCommon_made h hmem.toCommon
    (show ({ Message.zero with commandCode, applicationId } : Message).head = none from rfl) rfl
  simp only [Message.origin, Message.header, Message.zero, Prod.mk.injEq] at ho
  obtain ⟨⟨hfl, hcc, happ, -, -⟩, -⟩ := ho
  obtain ⟨m₁, hm₁⟩ : ∃ m₁ : Message, m₁ = { m₀ with
    inPeer := req.inPeer, flags := m₀.flags ||| (req.flags &&& 0x40)
    endtoendId := req.endtoendId, hopbyhopId := req.hopbyhopId } := ⟨_, rfl⟩
  -- the header is copied from the request when the first AVPs are linked already
  have hmade' : Made h h₁ m₁ ([] ++ x :: [o, r])
      ([ownAvp 263 sid false] ++ [ownAvp 264 aaaIdentity false, ownAvp 296 aaaRealm false]) := by
    rw [hm₁]
    exact ⟨⟨hmade.list.chain, hmade.list.alloc⟩, hmade.bodies, hmade.fresh, hmade.old, hmade.grown,
      hmade.session⟩
  -- the Result-Code goes behind the Session-Id, not to the end
  obtain ⟨h₂, m₂, hadd, hmade₂, ho₂⟩ :=
    hmade'.link rfl (show (ownAvp 268 successCode true).code ≠ 263 by decide)
  have hcell : (⟨h₁.cells ++ [ownAvp 268 successCode true]⟩ : Heap).cells[h₁.size]?
      = some (ownAvp 268 successCode true) := by simp [Heap.size]
  obtain ⟨hd, tl, hm₂⟩ := aaaAddAVPToMessage_message hcell hadd
  refine ⟨h₂, m₂, x, h₁.size, o, r, hmade₂, ?_, ?_, fun fuel => ?_⟩
  · rw [ho₂, hm₁]
    simp [Message.origin, Message.header, hfl, hcc, happ]
  · rw [hm₂]
    rfl
  · have hpos : m₀.sessionId = some x := hmade.session
    rw [← hpos] at hadd
    simp only [aaaNewMessage, hmem.msg, Bool.not_true, Bool.false_eq_true, if_false, hrun, andThen,
      Res.ok_bind]
    rw [← hm₁, createAndAdd_resCode hmem.resCode hadd]
    rfl

/-- When one of these calls fails, there is no answer. -/
theorem aaaNewMessage_none (h : Heap) (hmem : ¬ mem.Begins aaaIdentity aaaRealm sid)
    (commandCode applicationId : UInt32) (req : Message) (fuel : Nat) :
    aaaNewMessage mem fuel h aaaIdentity aaaRealm commandCode applicationId (some sid) (some req)
      = .ok none := by
  cases hmsg : mem.msg with
  | false => simp [aaaNewMessage, hmsg]
  | true =>
      by_cases hc : mem.Common aaaIdentity aaaRealm sid
      · obtain ⟨h₁, m₀, x, o, r, hrun, -, -⟩ := newCommon_made h hc
          (show ({ Message.zero with commandCode, applicationId } : Message).head = none from rfl) rfl
        have hres : ¬ (mem.resCode.avp = true ∧ mem.resCode.data = true) :=
          fun hres => hmem ⟨hc, hmsg, hres⟩
        simp only [aaaNewMessage, hmsg, Bool.not_true, Bool.false_eq_true, if_false, hrun, andThen,
          Res.ok_bind, createAndAdd_resCode_none hres]
      · have hrun := newCommon_none h hc
          (show ({ Message.zero with commandCode, applicationId } : Message).head = none from rfl) rfl
        simp only [aaaNewMessage, hmsg, Bool.not_true, Bool.false_eq_true, if_false, hrun, andThen,
          Res.ok_bind]

end New

end Own

/-! ## Copying the Proxy-Info AVPs -/

section Mirror

variable {h₀ h : Heap} {m req : Message} {ids rids : List Nat} {cs : List Avp}

/-- Without any, the loop ends before its first round. -/
theorem mirrorProxyInfo_none (hmade : Made h₀ h m ids cs) (hl : AvpList h₀ req rids)
    (hno : ∀ x ∈ rids, ∀ a ∈ h₀.cells[x]?, ¬ ProxyInfo a) (mem : Nat → CreateMem) (fuel n : Nat) :
    mirrorProxyInfo mem req (fuel + 1) n h m req.head = .ok (some (h, m)) := by
  have hl' := hmade.older hl
  have hsearch : searchAvp h h.next 284 0 h.size req.head = .ok none := by
    refine searchAvp_none hl'.chain.fwd hl'.alloc (fun x hx a ha => ?_)
      (hl'.chain.length_le hl'.alloc)
    rw [hmade.old x (hl.alloc x hx)] at ha
    exact hno x hx a ha
  rw [mirrorProxyInfo, find_head hl', hsearch]
  rfl

/-- The copy number `n` of the AVP `c` is made. -/
def Copied (mem : Nat → CreateMem) (c : Avp) (n : Nat) : Prop := c.data.len ≠ 0 ∧ (mem n).avp = true

/--
**With one, it never ends well.** The search of each round starts at the AVP copied in the round
before and stops there at once. Without memory, or if that AVP has no data, the message is given
up; otherwise the rounds go on for ever.
-/
theorem mirrorProxyInfo_stuck (hl : AvpList h₀ req rids) {t : Nat} (ht : t ∈ rids) {c : Avp}
    (hc : h₀.cells[t]? = some c) (hp : ProxyInfo c) (mem : Nat → CreateMem) (fuel n : Nat)
    (hmade : Made h₀ h m ids cs) (hne : ids ≠ []) {avpT : Option Nat}
    (hfind : aaaFindMatchingAVP h req avpT 284 0 .forward = .ok (some t)) :
    mirrorProxyInfo mem req fuel n h m avpT = .diverge ∧ (∀ k < fuel, Copied mem c (n + k))
      ∨ mirrorProxyInfo mem req fuel n h m avpT = .ok none ∧ ∃ k < fuel, ¬ Copied mem c (n + k) := by
  -- on the rounds: the request stays as it is, so the next search ends where this one did
  induction fuel generalizing n h m ids cs avpT with
  | zero => exact Or.inl ⟨rfl, by simp⟩
  | succ fuel ih =>
      rw [mirrorProxyInfo, hfind, Res.ok_bind]
      have hcell : h.cells[t]? = some c := by rw [hmade.old t (hl.alloc t ht), hc]
      simp only [aaaCloneAVP, hcell]
      split
      · rename_i hlen
        exact Or.inr ⟨rfl, 0, Nat.succ_pos _, fun hcp => hcp.1 hlen⟩
      · rename_i hlen
        split
        · rename_i hno
          have hnone : (mem n).avp = false := by simpa using hno
          exact Or.inr ⟨rfl, 0, Nat.succ_pos _, fun hcp => absurd (hnone.symm.trans hcp.2) (by simp)⟩
        · rename_i hyes
          have hcode : ({ c with next := none, prev := none, freeIt := false } : Avp).code ≠ 263 := by
            rw [show ({ c with next := none, prev := none, freeIt := false } : Avp).code = c.code
              from rfl, hp.1]
            decide
          obtain ⟨h', m', hadd, hmade', -⟩ := hmade.link_last hne hcode
          have hl' := hmade'.older hl
          have hcell' : h'.cells[t]? = some c := by rw [hmade'.old t (hl.alloc t ht), hc]
          simp only [Bool.false_eq_true, if_false, Res.ok_bind, hadd, if_true]
          have hfirst : Copied mem c n := ⟨hlen, by simpa using hyes⟩
          rcases ih (n + 1) hmade' (by simp) (find_self hl' ht hcell' hp) with
            ⟨hrun, hall⟩ | ⟨hrun, k, hk, hno⟩
          · refine Or.inl ⟨hrun, fun k hk => ?_⟩
            cases k with
            | zero => exact hfirst
            | succ k =>
                have hcp := hall k (Nat.lt_of_succ_lt_succ hk)
                rwa [Nat.add_right_comm] at hcp
          · refine Or.inr ⟨hrun, k + 1, Nat.succ_lt_succ hk, ?_⟩
            rwa [Nat.add_right_comm] at hno

end Mirror

/-! ## Answers -/

/-- The copies of the Proxy-Info AVPs among `cs`. They share the data of the originals. -/
def proxyCopies (cs : List Avp) : List Avp :=
  (cs.filter fun a => decide (ProxyInfo a)).map fun a => { a with freeIt := false }

/-- `m` with the AVPs `avps` answers `req`, and everything older than it is as it was in `h`. -/
structure AnswerTo (h h' : Heap) (req m : Message) (avps : List Avp) : Prop where
  avps : ∃ ids, AvpList h' m ids ∧ ids.map h'.body = avps.map some
  /-- The R flag. -/
  request : m.flags &&& 0x80 = 0
  /-- The P flag. -/
  proxiable : m.flags &&& 0x40 = req.flags &&& 0x40
  hopbyhopId : m.hopbyhopId = req.hopbyhopId
  endtoendId : m.endtoendId = req.endtoendId
  inPeer : m.inPeer = req.inPeer
  kept : ∀ x < h.size, h'.cells[x]? = h.cells[x]?

/-- With memory, and from some number of rounds on, the call returns the answer. -/
def MakesAnswer (h : Heap) (aaaIdentity aaaRealm sid : Str) (commandCode applicationId : UInt32)
    (req : Message) (cs : List Avp) : Prop :=
  ∃ h' m', (∃ n, ∀ fuel ≥ n, aaaNewMessage .all fuel h aaaIdentity aaaRealm commandCode
        applicationId (some sid) (some req) = .ok (some (h', m')))
    ∧ AnswerTo h h' req m' (ownAvps aaaIdentity aaaRealm sid ++ proxyCopies cs)

theorem bodies_proxyInfo {h : Heap} {ids : List Nat} {cs : List Avp}
    (hcs : ids.map h.body = cs.map some) :
    (∃ a ∈ cs, ProxyInfo a) ↔ ∃ x ∈ ids, ∃ a, h.cells[x]? = some a ∧ ProxyInfo a := by
  constructor
  · rintro ⟨a, ha, hp⟩
    have hm : some a ∈ ids.map h.body := by
      rw [hcs]
      exact List.mem_map_of_mem ha
    obtain ⟨x, hx, hb⟩ := List.mem_map.mp hm
    obtain ⟨c, hc, rfl⟩ := Option.map_eq_some_iff.mp hb
    exact ⟨x, hx, c, hc, isAvp_body.mp hp⟩
  · rintro ⟨x, hx, a, ha, hp⟩
    have hm : some a.body ∈ cs.map some := by
      rw [← hcs]
      exact List.mem_map.mpr ⟨x, hx, by rw [Heap.body, ha]; rfl⟩
    exact ⟨a.body, by simpa using hm, isAvp_body.mpr hp⟩

section Answer

variable {h : Heap} {req : Message} {ids : List Nat} {cs : List Avp}
  {aaaIdentity aaaRealm sid : Str}

theorem makesAnswer_of_none (hl : AvpList h req ids) (hcs : ids.map h.body = cs.map some)
    (hi : 0 < aaaIdentity.len) (hr : 0 < aaaRealm.len) (hs : 0 < sid.len)
    (commandCode applicationId : UInt32) (hno : ¬ ∃ a ∈ cs, ProxyInfo a) :
    MakesAnswer h aaaIdentity aaaRealm sid commandCode applicationId req cs := by
  obtain ⟨h₁, m₁, x, y, o, r, hmade, ho, -, hrun⟩ :=
    aaaNewMessage_made h (NewMem.all_begins hi hr hs) commandCode applicationId req
  simp only [Message.origin, Message.header, Prod.mk.injEq] at ho
  obtain ⟨⟨hfl, -, -, hee, hhh⟩, hin⟩ := ho
  have hcopies : proxyCopies cs = [] := by
    have hf : cs.filter (fun a => decide (ProxyInfo a)) = [] := by
      refine List.filter_eq_nil_iff.mpr fun a ha hp => hno ⟨a, ha, ?_⟩
      simpa using hp
    rw [proxyCopies, hf, List.map_nil]
  have hnone : ∀ x ∈ ids, ∀ a ∈ h.cells[x]?, ¬ ProxyInfo a := fun x hx a ha hp =>
    hno ((bodies_proxyInfo hcs).mpr ⟨x, hx, a, ha, hp⟩)
  refine ⟨h₁, m₁, ⟨1, fun fuel hf => ?_⟩, ⟨⟨_, hmade.list, ?_⟩, ?_, ?_, hhh, hee, hin, hmade.old⟩⟩
  · obtain ⟨k, rfl⟩ := Nat.exists_eq_add_of_le' hf
    rw [hrun, mirrorProxyInfo_none hmade hl hnone]
  · rw [hcopies, List.append_nil]
    exact hmade.bodies
  · rw [hfl, UInt8.and_assoc]
    show req.flags &&& 0 = 0
    simp
  · rw [hfl, UInt8.and_assoc]
    rfl

theorem not_makesAnswer (hl : AvpList h req ids) (hcs : ids.map h.body = cs.map some)
    (hi : 0 < aaaIdentity.len) (hr : 0 < aaaRealm.len) (hs : 0 < sid.len)
    (commandCode applicationId : UInt32) (hex : ∃ a ∈ cs, ProxyInfo a) :
    ¬ MakesAnswer h aaaIdentity aaaRealm sid commandCode applicationId req cs := by
  rintro ⟨h', m', ⟨n, hn⟩, -⟩
  obtain ⟨h₁, m₁, i, y, o, r, hmade, -, -, hrun⟩ :=
    aaaNewMessage_made h (NewMem.all_begins hi hr hs) commandCode applicationId req
  obtain ⟨x, hx, a, ha, hp⟩ := (bodies_proxyInfo hcs).mp hex
  have hl₁ := hmade.older hl
  have ha₁ : h₁.cells[x]? = some a := by rw [hmade.old x (hl.alloc x hx), ha]
  obtain ⟨t, ht, ⟨c, hc, hm⟩, hfirst⟩ :=
    searchAvp_first hl₁.chain.fwd hl₁.alloc hx ha₁ hp (hl₁.chain.length_le hl₁.alloc)
  have hc₀ : h.cells[t]? = some c := by rw [← hmade.old t (hl.alloc t ht), hc]
  have hfind : aaaFindMatchingAVP h₁ req req.head 284 0 .forward = .ok (some t) := by
    rw [find_head hl₁, hfirst]
  have hstuck := mirrorProxyInfo_stuck hl ht hc₀ hm NewMem.all.clone n 0 hmade (by simp) hfind
  rw [← hrun, hn n (Nat.le_refl n)] at hstuck
  rcases hstuck with ⟨hd, -⟩ | ⟨hd, -⟩ <;> cases hd

/--
**The answer is made exactly if there is no Proxy-Info AVP to copy.**

With one in the request the loop copies it over and over.
-/
theorem makesAnswer_iff (hl : AvpList h req ids) (hcs : ids.map h.body = cs.map some)
    (hi : 0 < aaaIdentity.len) (hr : 0 < aaaRealm.len) (hs : 0 < sid.len)
    (commandCode applicationId : UInt32) :
    MakesAnswer h aaaIdentity aaaRealm sid commandCode applicationId req cs
      ↔ ¬ ∃ a ∈ cs, ProxyInfo a := by
  refine ⟨fun hm hex => not_makesAnswer hl hcs hi hr hs commandCode applicationId hex hm, ?_⟩
  exact makesAnswer_of_none hl hcs hi hr hs commandCode applicationId

end Answer

/-- A string of its own. -/
def strOf (bs : List UInt8) : Str := ⟨bs, 0, bs.length⟩

/-- A request with one AVP. -/
def oneAvpHeap (code : UInt32) : Heap :=
  ⟨[{ ownAvp code (strOf [120, 121]) false with flags := 0x40 }]⟩

/-- Its message. -/
def oneAvpRequest : Message :=
  { Message.zero with flags := 0xc0, commandCode := 272, hopbyhopId := 7, head := some 0
                      tail := some 0 }

theorem oneAvpRequest_list (code : UInt32) : AvpList (oneAvpHeap code) oneAvpRequest [0] :=
  ⟨⟨by simp, ⟨rfl, rfl⟩, ⟨rfl, rfl⟩⟩, by simp [oneAvpHeap, Heap.size]⟩

theorem makesAnswer_sample :
    MakesAnswer (oneAvpHeap 25) (strOf [97]) (strOf [98]) (strOf [99]) 272 4 oneAvpRequest
      (oneAvpHeap 25).cells := by
  refine (makesAnswer_iff (oneAvpRequest_list 25) rfl ?_ ?_ ?_ 272 4).mpr ?_
  · decide
  · decide
  · decide
  · decide

theorem proxied_not_answered :
    ¬ MakesAnswer (oneAvpHeap 284) (strOf [97]) (strOf [98]) (strOf [99]) 272 4 oneAvpRequest
      (oneAvpHeap 284).cells := by
  refine not_makesAnswer (oneAvpRequest_list 284) rfl ?_ ?_ ?_ 272 4 ?_
  · decide
  · decide
  · decide
  · decide

end Disc.Msg
