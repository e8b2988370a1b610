import Mathlib.Data.List.Find
import Disc.Server.Reply

/-!
# Requests that are handled to the end

When `server_worker` comes to the end of a request. A request that a module or another peer
takes is done with, unless a search stumbles or the realm that is copied has a negative
length. A request that is refused gets a reply, and the reply is where most can happen: it
is made from the Session-Id, for as long as the loop over the Proxy-Info AVPs lasts, and
then written with the data of the Session-Id. Whether there is memory is open everywhere.

The table of routes is a list of lists, as it is read from the configuration. What a module
does is not followed.
-/

namespace Disc.Server

open Disc.Lib Disc.Msg Disc.Transport

/-! ## What a request has to meet -/

/-- The first AVP the loop of `AAANewMessage` finds. -/
def firstProxyInfo (as : List Avp) : Option Avp := as.find? fun a => decide (ProxyInfo a)

/-- It gets past the checks of `server_worker`. -/
def Passes (m : Message) : Prop :=
  ¬ (m.commandCode = 274 ∨ m.commandCode = 258 ∨ m.commandCode = 275) ∧ m.sessionId.isSome
    ∧ m.origHost.isSome ∧ m.origRealm.isSome ∧ m.destRealm.isSome

/-- The data `d` of the AVP a shortcut points to. -/
def Says (h : Heap) (m : Message) (code : UInt32) (d : Str) : Prop :=
  ∃ x ∈ m.shortcut code, ∃ a, h.cells[x]? = some a ∧ a.data = d

namespace Site

variable (s : Site) (n : Node) (h : Heap) (m : Message)

/--
The reply comes to its end: there is no memory for the message, or there is a Session-Id, and
when the first AVPs can be made, the copying of a Proxy-Info AVP fails some time, or there is
none and the Session-Id can be written.
-/
def ReplyEnds : Prop :=
  s.reply.msg = false ∨ ∃ x sid as, m.sessionId = some x ∧ h.cells[x]? = some sid
    ∧ avpsOf h m = .ok as
    ∧ (s.reply.Begins (strOf s.cfg.aaaIdentity) (strOf s.cfg.aaaRealm) sid.data →
        match firstProxyInfo as with
        | some c => ∃ k, ¬ Copied s.reply.clone c k
        | none => s.buf = true → Answerable m.commandCode → sid.data.len < 2 ^ 31)

/-- A peer that a request cannot be handed to. -/
def Unsendable (q : Nat) : Prop := s.env.trMem = false ∨ (n.peers q).canSend = false

/-- The request is neither for this host nor for one of its peers. -/
def Elsewhere : Prop :=
  ∀ x ∈ m.destHost, ∃ a, h.cells[x]? = some a ∧ isOwn s.cfg.aaaIdentity a.data = .ok false
    ∧ s.byIdentity a.data = none

/-- It is for the realm `bs` of this node, for an application no module has. -/
def InRealm (bs : List UInt8) : Prop :=
  ∃ d, Says h m 283 d ∧ d.bytes = some bs ∧ isOwn s.cfg.aaaRealm d = .ok true
    ∧ s.Elsewhere h m ∧ s.cfg.findModule m.applicationId = none

/-- A request for this host that no module takes, or for a peer that cannot have it. -/
def DeniedByHost : Prop :=
  ∃ d, Says h m 293 d
    ∧ (isOwn s.cfg.aaaIdentity d = .ok true ∧ s.cfg.findModule m.applicationId = none
      ∨ isOwn s.cfg.aaaIdentity d = .ok false ∧ ∃ q, s.byIdentity d = some q ∧ s.Unsendable n q)

/-- A request for this realm that neither a module nor a peer takes. -/
def DeniedByRealm : Prop :=
  ∃ bs, s.InRealm h m bs
    ∧ (lookupPeerByRealmAppid s.table bs m.applicationId = .ok none
      ∨ ∃ q, lookupPeerByRealmAppid s.table bs m.applicationId = .ok (some q) ∧ s.Unsendable n q)

/-- A request for another realm, and no peer on the way there can have it. -/
def DeniedByRoute (t : List (List UInt8 × List Nat)) : Prop :=
  ∃ d, RoutedByTable s.cfg s.lookups h m d ∧ d.len < 2 ^ 31
    ∧ (s.env.trMem = false ∨ firstReady n (routePeers s.fnmatch s.rt.cfgPeerLst t d) = none)

/-- The request is refused: it gets an error reply. -/
def Denied (t : List (List UInt8 × List Nat)) : Prop :=
  ¬ Passes m ∨ s.DeniedByHost n h m ∨ s.DeniedByRealm n h m ∨ s.DeniedByRoute n h m t

/--
Nothing stops the request on its way: a realm that is copied has no negative length, and the
search by realm and application can look at every peer of the table.
-/
def WayClear : Prop :=
  (∀ d, RoutedByTable s.cfg s.lookups h m d → d.len < 2 ^ 31)
    ∧ ∀ bs, s.InRealm h m bs → ∀ p ∈ s.table, ∃ b, matchPeer bs m.applicationId p = .ok b

/-- From some number of rounds of its loop on, the worker returns. -/
def HandlesToTheEnd (inP : Nat) : Prop :=
  ∃ k, ∀ rounds ≥ k, Returns (({ s with rounds } : Site).serverWorker n h m inP)

end Site

/-! ## What was decoded -/

/-- A message as the decoder leaves it: its data can be read unless their length is negative. -/
structure Received (h : Heap) (m : Message) (ids : List Nat) : Prop where
  list : AvpList h m ids
  shortcuts : ShortcutsRight h m ids
  data : ∀ x ∈ ids, ∀ a, h.cells[x]? = some a → (a.data.bytes.isSome ↔ a.data.len < 2 ^ 31)

/-- What the decoder accepts has its data in the buffer, or a negative length. -/
theorem cellAt_readable {src : Block} {p len : Nat} (hr : ¬ Disc.Msg.Refused src.bytes p len)
    (hlen : len ≤ src.bytes.length) :
    (cellAt src.bytes p).data.bytes.isSome ↔ (cellAt src.bytes p).data.len < 2 ^ 31 := by
  obtain ⟨h12, hpos, -, hend⟩ := Refused.not hr
  have hl := @lenAt_lt src.bytes p
  have hh := @hdrAt_le src.bytes p
  have hfits := src.fits
  have hdata : (cellAt src.bytes p).data
      = ⟨src.bytes, p + hdrAt src.bytes p, usub (lenAt src.bytes p) (hdrAt src.bytes p)⟩ := rfl
  rw [hdata]
  unfold Str.bytes slice
  dsimp only
  split
  · rename_i hin
    refine iff_of_true rfl ?_
    unfold usub at hin ⊢
    omega
  · rename_i hout
    refine iff_of_false (by simp) ?_
    unfold usub at hout ⊢
    omega

/-- **Every message that was decoded is one.** -/
theorem decoded_received {src : Block} (hroom : Roomy src) {mem : TranslateMem} {h h' : Heap}
    {m : Message} {attachBuf : Bool}
    (hdec : aaaTranslateMessage mem h src src.bytes.length attachBuf = .ok (h', m)) :
    ∃ ids, Received h' m ids := by
  obtain ⟨ids, hl, hr⟩ := decoded_wellLinked hdec
  obtain ⟨h20, -, -, hlen⟩ := aaaTranslateMessage_ok hdec
  refine ⟨ids, hl, hr, fun x hx a ha => ?_⟩
  rcases aaaTranslateMessage_total hroom h20 mem h attachBuf with
    herr | ⟨ps, e, h₁, m₁, hacc, hrun, hd⟩
  · exact absurd (hdec.symm.trans herr) (by simp)
  obtain ⟨rfl, rfl⟩ := Prod.mk.inj (Res.ok.inj (hdec.symm.trans hrun))
  obtain ⟨ids', hl', hb⟩ := hd.avps
  -- the decoder records the cells of the same list
  have hsame : ids = ids' := by
    have hwalk := hl.chain.fwd.walk_eq (hl.chain.length_le hl.alloc)
    rw [hl'.chain.fwd.walk_eq (hl'.chain.length_le hl'.alloc)] at hwalk
    exact (Option.some.inj hwalk).symm
  subst hsame
  have hbody : some a.body ∈ ps.map fun q => some (cellAt src.bytes q) := by
    rw [← hb]
    exact List.mem_map.mpr ⟨x, hx, by rw [Heap.body, ha]; rfl⟩
  obtain ⟨q, hq, hcell⟩ := List.mem_map.mp hbody
  have hdata : (cellAt src.bytes q).data = a.body.data := congrArg Avp.data (Option.some.inj hcell)
  rw [show a.data = a.body.data from rfl, ← hdata]
  exact cellAt_readable (hacc.avps.not_refused q hq).2 hlen

section Received

variable {h : Heap} {m : Message} {ids : List Nat} {c : UInt32} {x : Nat}

/-- A shortcut leads to an AVP. -/
theorem Received.cell (hm : Received h m ids) (hc : c ∈ shortcutCodes) (hx : m.shortcut c = some x) :
    ∃ a, h.cells[x]? = some a ∧ (a.data.bytes.isSome ↔ a.data.len < 2 ^ 31) := by
  have hmem := ((hm.shortcuts c hc).2 x hx).1
  have hcell : h.cells[x]? = some (h.cells.get ⟨x, hm.list.alloc x hmem⟩) :=
    List.getElem?_eq_getElem _
  exact ⟨_, hcell, hm.data x hmem _ hcell⟩

/-- So a message that was received can be read. -/
theorem Received.readable (hm : Received h m ids) : Readable h m := by
  intro p hp
  rcases hp with hp | hp
  · obtain ⟨a, ha, hdata⟩ := hm.cell (c := 293) (by decide) hp
    exact ⟨a, ha, hdata.mpr⟩
  · obtain ⟨a, ha, hdata⟩ := hm.cell (c := 283) (by decide) hp
    exact ⟨a, ha, hdata.mpr⟩

theorem Received.avpsOf (hm : Received h m ids) :
    ∃ as, ids.mapM (h.cells[·]?) = some as ∧ Disc.Msg.avpsOf h m = .ok as := by
  obtain ⟨as, has, -⟩ := mapM_cells hm.list.alloc
  refine ⟨as, has, ?_⟩
  rw [Disc.Msg.avpsOf, hm.list.chain.fwd.walk_eq (hm.list.chain.length_le hm.list.alloc)]
  simp [has]

/-- The first of the cells is the first along the list. -/
theorem firstProxyInfo_cells {as : List Avp} (has : ids.mapM (h.cells[·]?) = some as) :
    firstProxyInfo as = (ids.find? (h.isAvp 284 0)).bind (h.cells[·]?) := by
  unfold firstProxyInfo
  induction ids generalizing as with
  | nil =>
      obtain rfl : [] = as := Option.some.inj has
      rfl
  | cons x ids ih =>
      rw [List.mapM_cons] at has
      obtain ⟨a, ha, has⟩ := Option.bind_eq_some_iff.mp has
      obtain ⟨as', has', heq⟩ := Option.bind_eq_some_iff.mp has
      obtain rfl := Option.some.inj heq
      by_cases hp : ProxyInfo a
      · have hx : h.isAvp 284 0 x = true := isAvp_iff.mpr ⟨a, ha, hp⟩
        rw [List.find?_cons_of_pos (by simpa using hp), List.find?_cons_of_pos hx]
        exact ha.symm
      · have hx : ¬ h.isAvp 284 0 x = true := fun hx => by
          obtain ⟨b, hb, hpb⟩ := isAvp_iff.mp hx
          obtain rfl := Option.some.inj (ha.symm.trans hb)
          exact hp hpb
        rw [List.find?_cons_of_neg (by simpa using hp), List.find?_cons_of_neg hx, ih has']

end Received

/-! ## The reply -/

section Reply

variable {s : Site} {n : Node} {h : Heap} {m : Message} {ids : List Nat} {inP : Nat}

theorem returns_shortcutAvp {c : UInt32} {x : Nat} {a : Avp} (hx : m.shortcut c = some x)
    (ha : h.cells[x]? = some a) {f : Avp → Deref UInt32 After} :
    Returns (shortcutAvp h m c >>= f) ↔ Returns (f a) := by
  have hrun : (shortcutAvp h m c).run = .ok (.ok a) := by
    unfold shortcutAvp
    rw [hx]
    show (liftM (Res.ofAccess h.cells[x]? : Res Avp) : Deref UInt32 Avp).run = _
    rw [ha]
    rfl
  rw [returns_bind, hrun]
  constructor
  · rintro ⟨b, hb, hf⟩
    obtain rfl := Except.ok.inj (Res.ok.inj hb)
    exact hf
  · exact fun hf => ⟨a, rfl, hf⟩

/-- A header and the padding are at most fifteen bytes more than the data. -/
theorem length_encAvp_sent (code : UInt32) (data : List UInt8) :
    (encAvp (sentAvp code data)).length ≤ data.length + 15 := by
  have hhdr := (avpHdrSize_le (sentAvp code data).flags).2
  have hpad : padLen data.length ≤ 3 := by unfold padLen; split <;> omega
  have hlen : (sentAvp code data).data = data := rfl
  rw [length_encAvp, hlen]
  omega

/-- What is left of a reply once its message is there. -/
theorem returns_drafted {h₁ : Heap} {ans : Message} {x y o r : Nat} {sid : Str} {app : UInt32}
    (hd : Drafted h h₁ m ans app [x, y, o, r] (answerCells s.cfg sid aaaSuccess))
    (hcode : ans.resCode = some y) (hin : m.inPeer = some inP)
    (hcfg : s.cfg.aaaIdentity.length + s.cfg.aaaRealm.length < 2 ^ 30)
    (hsid : sid.bytes.isSome ↔ sid.len < 2 ^ 31) (code : UInt32) :
    Returns ((do
        match ← aaaSetMessageResultCode h₁ ans code with
        | none => return n.refuse m code
        | some h => do
            let n ← s.aaaSendMessage n h ans
            return n.refuse m code : Deref UInt32 After))
      ↔ (s.buf = true → Answerable m.commandCode → sid.len < 2 ^ 31) := by
  obtain ⟨h₂, hset, hd₂⟩ := hd.setResultCode hcode code
  rw [returns_of_ok hset]
  dsimp only
  rw [returns_lift]
  cases hbuf : s.buf with
  | false =>
      refine iff_of_true ⟨n, hd₂.send_noBuffer hbuf n, returns_pure _⟩ ?_
      simp
  | true =>
      by_cases hcmd : Answerable m.commandCode
      · by_cases hlen : sid.len < 2 ^ 31
        · obtain ⟨d, hbytes⟩ := Option.isSome_iff_exists.mp (hsid.mpr hlen)
          have hdlen : d.length = sid.len := length_slice hbytes
          have henc : encLen [sentAvp 263 d, sentAvp 268 (be 4 code.toNat),
              sentAvp 264 s.cfg.aaaIdentity, sentAvp 296 s.cfg.aaaRealm] < 2 ^ 32 := by
            have h1 := length_encAvp_sent 263 d
            have h2 := length_encAvp_sent 268 (be 4 code.toNat)
            have h3 := length_encAvp_sent 264 s.cfg.aaaIdentity
            have h4 := length_encAvp_sent 296 s.cfg.aaaRealm
            have hw : (be 4 code.toNat).length = 4 := length_be 4 _
            simp only [encLen, encAvps, List.flatMap_cons, List.flatMap_nil, List.length_append,
              List.length_nil, aaaMsgHdrSize]
            omega
          refine iff_of_true ⟨_, hd₂.send hbuf (view_answerCells hbytes code) hcmd hin henc n,
            returns_pure _⟩ fun _ _ => hlen
        · have hnone : sid.bytes = none := by simpa using fun hsome => hlen (hsid.mp hsome)
          refine iff_of_false ?_ fun hall => hlen (hall rfl hcmd)
          rintro ⟨n', hsend, -⟩
          exact hd₂.send_unreadable hbuf hnone hcmd hsend
      · have hans : ¬ Answerable ans.commandCode := by rwa [hd.commandCode]
        exact iff_of_true ⟨n, aaaSendMessage_refused hans n h₂, returns_pure _⟩
          fun _ hyes => absurd hyes hcmd

/-- A message that was begun is finished, in the rounds there are. -/
def Site.Finishes (s : Site) (m : Message) (sid : Avp) (as : List Avp) : Prop :=
  match firstProxyInfo as with
  | some c => ∃ k < s.rounds, ¬ Copied s.reply.clone c k
  | none => 0 < s.rounds ∧ (s.buf = true → Answerable m.commandCode → sid.data.len < 2 ^ 31)

/-- Without memory for the message nothing is read. -/
theorem sendErrorReply_noMessage (hmsg : s.reply.msg = false) (code : UInt32) :
    Returns (s.sendErrorReply n h m code) := by
  unfold Site.sendErrorReply
  rw [hmsg]
  exact returns_pure _

theorem sendErrorReply_noSession (hmsg : s.reply.msg = true) (hx : m.sessionId = none)
    (code : UInt32) : ¬ Returns (s.sendErrorReply n h m code) := fun hret =>
  hret.noNull 263 (sendErrorReply_null hx hmsg code)

/-- **What the reply takes**, with a Session-Id. -/
theorem sendErrorReply_returns_iff (hm : Received h m ids) (hin : m.inPeer = some inP)
    (hcfg : s.cfg.aaaIdentity.length + s.cfg.aaaRealm.length < 2 ^ 30) (hmsg : s.reply.msg = true)
    {x : Nat} {sid : Avp} {as : List Avp} (hx : m.sessionId = some x)
    (hsid : h.cells[x]? = some sid) (havps : avpsOf h m = .ok as) (code : UInt32) :
    Returns (s.sendErrorReply n h m code)
      ↔ (s.reply.Begins (strOf s.cfg.aaaIdentity) (strOf s.cfg.aaaRealm) sid.data →
          s.Finishes m sid as) := by
  have hshort : m.shortcut 263 = some x := hx
  have hdata : sid.data.bytes.isSome ↔ sid.data.len < 2 ^ 31 := by
    obtain ⟨a, ha, hdata⟩ := hm.cell (by decide) hshort
    obtain rfl := Option.some.inj (hsid.symm.trans ha)
    exact hdata
  have hcells : ids.mapM (h.cells[·]?) = some as := by
    obtain ⟨as', has, havps'⟩ := hm.avpsOf
    obtain rfl := Res.ok.inj (havps.symm.trans havps')
    exact has
  unfold Site.sendErrorReply
  rw [hmsg, Bool.not_true, if_neg Bool.false_ne_true, returns_shortcutAvp hshort hsid]
  by_cases hbeg : s.reply.Begins (strOf s.cfg.aaaIdentity) (strOf s.cfg.aaaRealm) sid.data
  · rw [imp_iff_right hbeg]
    obtain ⟨h₁, ans, i, y, o, r, hmade, ho, hcode, hrun⟩ :=
      aaaNewMessage_made h hbeg m.commandCode m.applicationId m
    have hrun := hrun s.rounds
    have hl := hmade.older hm.list
    unfold Site.Finishes
    rw [firstProxyInfo_cells hcells]
    cases hfind : ids.find? (h.isAvp 284 0) with
    | none =>
        -- nothing to copy
        have hno : ∀ x ∈ ids, ∀ a ∈ h.cells[x]?, ¬ ProxyInfo a := fun x hx a ha hp =>
          List.find?_eq_none.mp hfind x hx (isAvp_iff.mpr ⟨a, ha, hp⟩)
        cases hfuel : s.rounds with
        | zero =>
            rw [hfuel] at hrun
            refine iff_of_false ?_ (by simp)
            intro hret
            obtain ⟨a, ha, -⟩ := returns_lift.mp hret
            exact absurd (hrun.symm.trans ha) (by simp [mirrorProxyInfo])
        | succ fuel =>
            rw [hfuel, mirrorProxyInfo_none hmade hm.list hno] at hrun
            refine (returns_of_ok hrun).trans ?_
            have hd : Drafted h h₁ m ans m.applicationId [i, y, o, r]
              (answerCells s.cfg sid.data aaaSuccess) := ⟨hmade, ho⟩
            rw [show (0 < fuel + 1 ∧ _) ↔ _ from and_iff_right (Nat.succ_pos fuel)]
            exact returns_drafted hd hcode hin hcfg hdata code
    | some t =>
        obtain ⟨c, hc, hp⟩ := isAvp_iff.mp (List.find?_some hfind)
        have ht := List.mem_of_find?_eq_some hfind
        have hsame : ∀ x ∈ ids, h₁.isAvp 284 0 x = h.isAvp 284 0 x := fun x hx => by
          unfold Heap.isAvp
          rw [hmade.old x (hm.list.alloc x hx)]
        have hfirst : aaaFindMatchingAVP h₁ m m.head 284 0 .forward = .ok (some t) := by
          rw [find_head hl, searchAvp_eq hl.chain.fwd hl.alloc (hl.chain.length_le hl.alloc),
            List.find?_congr hsame, hfind]
        have hstuck := mirrorProxyInfo_stuck hm.list ht hc hp s.reply.clone s.rounds 0 hmade
          (by simp) hfirst
        rw [← hrun] at hstuck
        simp only [Option.bind_some, hc]
        rcases hstuck with ⟨hd, hall⟩ | ⟨hd, k, hk, hno⟩
        · refine iff_of_false ?_ ?_
          · intro hret
            obtain ⟨a, ha, -⟩ := returns_lift.mp hret
            exact absurd (hd.symm.trans ha) (by simp)
          · rintro ⟨k, hk, hno⟩
            have hcopied := hall k hk
            rw [Nat.zero_add] at hcopied
            exact hno hcopied
        · rw [Nat.zero_add] at hno
          exact iff_of_true ((returns_of_ok hd).mpr (returns_pure _)) ⟨k, hk, hno⟩
  · have hnone := aaaNewMessage_none h hbeg m.commandCode m.applicationId m s.rounds
    exact iff_of_true ((returns_of_ok hnone).mpr (returns_pure _)) fun hyes => absurd hyes hbeg

end Reply

/-! ## How far a request gets -/

/-- It is done with, or refused, or goes no further. -/
inductive Course (s : Site) (n : Node) (h : Heap) (m : Message) (x : Deref UInt32 After)
    (denied unhindered : Prop) : Prop where
  | done (hret : Returns x) (hd : ¬ denied) (hu : unhindered)
  | denied (code : UInt32) (hret : Returns x ↔ Returns (s.sendErrorReply n h m code)) (hd : denied)
      (hu : unhindered)
  | stuck (hret : ¬ Returns x) (hu : ¬ unhindered)

section Course

variable {s : Site} {n : Node} {h : Heap} {m : Message} {ids : List Nat} {inP : Nat}
  {t : List (List UInt8 × List Nat)} {x y : Deref UInt32 After} {d d' u u' : Prop}

theorem Course.congr (hc : Course s n h m x d u) (hd : d' ↔ d) (hu : u' ↔ u)
    (hxy : Returns y ↔ Returns x) : Course s n h m y d' u' := by
  cases hc with
  | done hret hno hyes => exact .done (hxy.mpr hret) (fun hd' => hno (hd.mp hd')) (hu.mpr hyes)
  | denied code hret hyes hyes' => exact .denied code (hxy.trans hret) (hd.mpr hyes) (hu.mpr hyes')
  | stuck hret hno => exact .stuck (fun hy => hret (hxy.mp hy)) fun hu' => hno (hu.mp hu')

theorem course_runModule (hm : Received h m ids) (hsid : m.sessionId.isSome) :
    Course s n h m (s.runModule n h m) (s.cfg.findModule m.applicationId = none) True := by
  obtain ⟨x, hx⟩ := Option.isSome_iff_exists.mp hsid
  have hshort : m.shortcut 263 = some x := hx
  obtain ⟨sid, hsid, -⟩ := hm.cell (by decide) hshort
  unfold Site.runModule
  cases s.cfg.findModule m.applicationId with
  | some mod => exact .done ((returns_shortcutAvp hshort hsid).mpr (returns_pure _)) (by simp) trivial
  | none => exact .denied _ Iff.rfl rfl trivial

theorem course_forwardTo (q : Nat) :
    Course s n h m (s.forwardTo n h m inP q) (s.Unsendable n q) True := by
  unfold Site.forwardTo Site.Unsendable
  rw [Node.forwardRequest_eq]
  cases htr : s.env.trMem with
  | false => exact .denied _ Iff.rfl (Or.inl rfl) trivial
  | true =>
      simp only [Bool.not_true, Bool.false_eq_true, if_false]
      cases hq : (n.peers q).canSend with
      | false =>
          rw [sendOn_refused hq]
          exact .denied _ Iff.rfl (Or.inr rfl) trivial
      | true =>
          obtain ⟨n', hsend, -⟩ := @sendOn_handed n s.env m inP q hq
          rw [hsend]
          exact .done (returns_pure _) (by simp) trivial

/-- The search by realm and application ends when every peer can be looked at. -/
theorem lookup_ok_iff {table : List TabledPeer} {bs : List UInt8} {app : UInt32} :
    (∃ r, lookupPeerByRealmAppid table bs app = .ok r)
      ↔ ∀ p ∈ table, ∃ b, matchPeer bs app p = .ok b := by
  suffices hloop : ∀ i res, (∃ r, lookupLoop bs app table i res = .ok r)
      ↔ ∀ p ∈ table, ∃ b, matchPeer bs app p = .ok b from hloop 0 none
  induction table with
  | nil => exact fun i res => iff_of_true ⟨res, rfl⟩ (by simp)
  | cons p ps ih =>
      intro i res
      rw [List.forall_mem_cons]
      constructor
      · rintro ⟨r, hr⟩
        obtain ⟨b, hb, hrest⟩ := Res.bind_eq_ok hr
        exact ⟨⟨b, hb⟩, (ih _ _).mp ⟨r, hrest⟩⟩
      · rintro ⟨⟨b, hb⟩, hps⟩
        obtain ⟨r, hr⟩ := (ih (i + 1) (if b then some i else res)).mpr hps
        refine ⟨r, ?_⟩
        rw [lookupLoop, hb, Res.ok_bind, hr]

/-- For this realm. -/
theorem course_inRealm (hm : Received h m ids) (hsid : m.sessionId.isSome) {r : Nat}
    (hr : m.destRealm = some r) (helse : s.Elsewhere h m) {a : Avp} (ha : h.cells[r]? = some a)
    (hown : isOwn s.cfg.aaaRealm a.data = .ok true) {bs : List UInt8} (hbs : a.data.bytes = some bs)
    (hx : Returns x ↔ Returns (match s.cfg.findModule m.applicationId with
      | some _ => s.runModule n h m
      | none => do
          let bs ← (Res.ofAccess a.data.bytes : Res (List UInt8))
          match ← lookupPeerByRealmAppid s.table bs m.applicationId with
          | some q => s.forwardTo n h m inP q
          | none => s.sendErrorReply n h m aaaApplicationUnsupported : Deref UInt32 After)) :
    Course s n h m x (s.DeniedByRealm n h m ∨ s.DeniedByRoute n h m t) (s.WayClear h m) := by
  have hshort : m.shortcut 283 = some r := hr
  have hnoRoute : ∀ d, ¬ RoutedByTable s.cfg s.lookups h m d := fun d hd => by
    have hother := (hd.unique hr ha).2
    rw [hown] at hother
    exact absurd hother (by simp)
  have hnoRoute' : ¬ s.DeniedByRoute n h m t := fun ⟨d, hd, _⟩ => hnoRoute d hd
  cases hmod : s.cfg.findModule m.applicationId with
  | some mod =>
      rw [hmod] at hx
      have hno : ∀ bs, ¬ s.InRealm h m bs := fun bs ⟨d, _, _, _, _, hnone⟩ => by
        rw [hmod] at hnone
        exact absurd hnone (by simp)
      refine (course_runModule hm hsid).congr ?_ ?_ hx
      · rw [hmod]
        refine iff_of_false ?_ (by simp)
        rintro (⟨bs, hin, -⟩ | hroute)
        · exact hno bs hin
        · exact hnoRoute' hroute
      · exact iff_of_true ⟨fun d hd => absurd hd (hnoRoute d), fun bs hin => absurd hin (hno bs)⟩
          trivial
  | none =>
      rw [hmod] at hx
      have hx := hx.trans (returns_of_ok (show (Res.ofAccess a.data.bytes : Res (List UInt8)) = .ok bs
        by rw [hbs, Res.ofAccess_some]))
      have hin : ∀ bs', s.InRealm h m bs' ↔ bs' = bs := by
        intro bs'
        constructor
        · rintro ⟨d, ⟨r', hr', a', ha', rfl⟩, hbs', -⟩
          obtain rfl := Option.some.inj (hshort.symm.trans hr')
          obtain rfl := Option.some.inj (ha.symm.trans ha')
          exact Option.some.inj (hbs'.symm.trans hbs)
        · rintro rfl
          exact ⟨a.data, ⟨r, hshort, a, ha, rfl⟩, hbs, hown, helse, hmod⟩
      have hclear : s.WayClear h m ↔ ∀ p ∈ s.table, ∃ b, matchPeer bs m.applicationId p = .ok b :=
        ⟨fun hc => hc.2 bs ((hin bs).mpr rfl), fun hall => ⟨fun d hd => absurd hd (hnoRoute d),
          fun bs' hbs' => by obtain rfl := (hin bs').mp hbs'; exact hall⟩⟩
      have hdenied : (s.DeniedByRealm n h m ∨ s.DeniedByRoute n h m t)
          ↔ lookupPeerByRealmAppid s.table bs m.applicationId = .ok none
            ∨ ∃ q, lookupPeerByRealmAppid s.table bs m.applicationId = .ok (some q)
              ∧ s.Unsendable n q := by
        constructor
        · rintro (⟨bs', hbs', hd⟩ | hroute)
          · obtain rfl := (hin bs').mp hbs'
            exact hd
          · exact absurd hroute hnoRoute'
        · exact fun hd => Or.inl ⟨bs, (hin bs).mpr rfl, hd⟩
      by_cases hall : ∀ p ∈ s.table, ∃ b, matchPeer bs m.applicationId p = .ok b
      · obtain ⟨found, hfound⟩ := lookup_ok_iff.mpr hall
        have hx := hx.trans (returns_of_ok hfound)
        cases found with
        | none => exact .denied _ hx (hdenied.mpr (Or.inl hfound)) (hclear.mpr hall)
        | some q =>
            refine (course_forwardTo q).congr (hdenied.trans ?_) (iff_of_true (hclear.mpr hall) trivial)
              hx
            rw [hfound]
            simp
      · refine .stuck (fun hret => ?_) fun hc => hall (hclear.mp hc)
        obtain ⟨found, hfound, -⟩ := returns_lift.mp (hx.mp hret)
        exact hall (lookup_ok_iff.mp ⟨found, hfound⟩)

/-- For another realm. -/
theorem course_routed (hm : Received h m ids) (hrt : s.rt.Listed t) {r : Nat}
    (hr : m.destRealm = some r) (helse : s.Elsewhere h m) {a : Avp} (ha : h.cells[r]? = some a)
    (hown : isOwn s.cfg.aaaRealm a.data = .ok false)
    (hx : Returns x ↔ Returns (do
      match ← n.doRoute s.fnmatch s.rt s.env m inP a.data with
      | some (q, n') => return n.sentTo n' m q
      | none => s.sendErrorReply n h m aaaUnableToDeliver : Deref UInt32 After)) :
    Course s n h m x (s.DeniedByRealm n h m ∨ s.DeniedByRoute n h m t) (s.WayClear h m) := by
  have hshort : m.shortcut 283 = some r := hr
  have hroute : ∀ d, RoutedByTable s.cfg s.lookups h m d ↔ d = a.data := by
    intro d
    constructor
    · exact fun hd => (hd.unique hr ha).1
    · rintro rfl
      exact ⟨⟨r, hr, a, ha, rfl⟩, hown, helse⟩
  have hno : ∀ bs, ¬ s.InRealm h m bs := by
    rintro bs ⟨d, ⟨r', hr', a', ha', rfl⟩, -, hyes, -⟩
    obtain rfl := Option.some.inj (hshort.symm.trans hr')
    obtain rfl := Option.some.inj (ha.symm.trans ha')
    exact absurd (hown.symm.trans hyes) (by simp)
  have hclear : s.WayClear h m ↔ a.data.len < 2 ^ 31 :=
    ⟨fun hc => hc.1 _ ((hroute _).mpr rfl), fun hlen => ⟨fun d hd => by
      obtain rfl := (hroute d).mp hd
      exact hlen, fun bs hin => absurd hin (hno bs)⟩⟩
  obtain ⟨a', ha', hdata⟩ := hm.cell (by decide) hshort
  obtain rfl := Option.some.inj (ha.symm.trans ha')
  by_cases hlen : a.data.len < 2 ^ 31
  · have hx := hx.trans (returns_of_ok
      (@doRoute_eq n s.env m inP s.rt t s.fnmatch hrt a.data hlen (hdata.mpr hlen)))
    have hdenied : (s.DeniedByRealm n h m ∨ s.DeniedByRoute n h m t)
        ↔ s.env.trMem = false
          ∨ firstReady n (routePeers s.fnmatch s.rt.cfgPeerLst t a.data) = none := by
      constructor
      · rintro (⟨bs, hin, -⟩ | ⟨d, hd, -, hno⟩)
        · exact absurd hin (hno bs)
        · obtain rfl := (hroute d).mp hd
          exact hno
      · exact fun hno => Or.inr ⟨a.data, (hroute _).mpr rfl, hlen, hno⟩
    cases htr : s.env.trMem with
    | false =>
        rw [htr] at hx
        exact .denied _ hx (hdenied.mpr (Or.inl htr)) (hclear.mpr hlen)
    | true =>
        rw [htr] at hx hdenied
        cases hfirst : firstReady n (routePeers s.fnmatch s.rt.cfgPeerLst t a.data) with
        | none =>
            rw [hfirst] at hx
            exact .denied _ hx (hdenied.mpr (Or.inr hfirst)) (hclear.mpr hlen)
        | some q =>
            rw [hfirst] at hx hdenied
            exact .done (hx.mpr (returns_pure _)) (fun hd => by simpa using hdenied.mp hd)
              (hclear.mpr hlen)
  · refine .stuck (fun hret => ?_) fun hc => hlen (hclear.mp hc)
    obtain ⟨way, hway, -⟩ := returns_lift.mp (hx.mp hret)
    rw [doRoute_fault (Nat.le_of_not_lt hlen)] at hway
    exact absurd hway (by simp)

/-- A request for this host or for a peer is not routed. -/
theorem Site.WayClear.of_host (hno : ¬ s.Elsewhere h m) :
    ¬ (s.DeniedByRealm n h m ∨ s.DeniedByRoute n h m t) ∧ s.WayClear h m := by
  refine ⟨?_, fun d hd => absurd hd.2.2 hno, fun bs hin => ?_⟩
  · rintro (⟨bs, ⟨d, -, -, -, helse, -⟩, -⟩ | ⟨d, hd, -⟩)
    · exact hno helse
    · exact hno hd.2.2
  · obtain ⟨d, -, -, -, helse, -⟩ := hin
    exact absurd helse hno

/-- The half that looks at the realm. -/
theorem course_processByRealm (hm : Received h m ids) (hrt : s.rt.Listed t)
    (hsid : m.sessionId.isSome) {r : Nat} (hr : m.destRealm = some r) (helse : s.Elsewhere h m) :
    Course s n h m (s.processByRealm n h m inP) (s.DeniedByRealm n h m ∨ s.DeniedByRoute n h m t)
      (s.WayClear h m) := by
  have hshort : m.shortcut 283 = some r := hr
  obtain ⟨a, ha, hdata⟩ := hm.cell (by decide) hshort
  obtain ⟨b, hown⟩ := isOwn_ok s.cfg.aaaRealm hdata.mpr
  unfold Site.processByRealm
  cases b with
  | true =>
      have hlen : a.data.len < 2 ^ 31 := by
        by_contra hno
        rw [isOwn, if_neg (fun hb => hno hb.1)] at hown
        exact absurd hown (by simp)
      obtain ⟨bs, hbs⟩ := Option.isSome_iff_exists.mp (hdata.mpr hlen)
      exact course_inRealm hm hsid hr helse ha hown hbs
        ((returns_shortcutAvp hshort ha).trans (returns_of_ok hown))
  | false =>
      exact course_routed hm hrt hr helse ha hown
        (((returns_shortcutAvp hshort ha).trans (returns_of_ok hown)).trans
          (returns_shortcutAvp hshort ha))

/-- `process_incoming_request`, for a request that has passed the checks. -/
theorem course_processIncomingRequest (hm : Received h m ids) (hrt : s.rt.Listed t)
    (hsid : m.sessionId.isSome) {r : Nat} (hr : m.destRealm = some r) :
    Course s n h m (s.processIncomingRequest n h m inP)
      (s.DeniedByHost n h m ∨ s.DeniedByRealm n h m ∨ s.DeniedByRoute n h m t) (s.WayClear h m) := by
  unfold Site.processIncomingRequest
  cases hd : m.destHost with
  | none =>
      have helse : s.Elsewhere h m := fun x hx => by
        rw [hd] at hx
        exact absurd hx (by simp)
      have hno : ¬ s.DeniedByHost n h m := by
        rintro ⟨d, ⟨x, hx, -⟩, -⟩
        have hx' : m.destHost = some x := hx
        exact absurd (hd.symm.trans hx') (by simp)
      simp only [Option.isSome_none, Bool.false_eq_true, if_false, hr, Option.isNone_some]
      exact (course_processByRealm hm hrt hsid hr helse).congr (or_iff_right hno) Iff.rfl Iff.rfl
  | some x =>
      have hshort : m.shortcut 293 = some x := hd
      obtain ⟨a, ha, hdata⟩ := hm.cell (by decide) hshort
      obtain ⟨b, hown⟩ := isOwn_ok s.cfg.aaaIdentity hdata.mpr
      have hgives : ∀ d, Says h m 293 d ↔ d = a.data := by
        intro d
        constructor
        · rintro ⟨y, hy, a', ha', rfl⟩
          obtain rfl := Option.some.inj (hshort.symm.trans hy)
          obtain rfl := Option.some.inj (ha.symm.trans ha')
          rfl
        · rintro rfl
          exact ⟨x, hshort, a, ha, rfl⟩
      simp only [Option.isSome_some, if_true, hr, Option.isNone_some, Bool.false_eq_true, if_false]
      cases b with
      | true =>
          have hnot : ¬ s.Elsewhere h m := fun helse => by
            obtain ⟨a', ha', hother, -⟩ := helse x hd
            obtain rfl := Option.some.inj (ha.symm.trans ha')
            exact absurd (hown.symm.trans hother) (by simp)
          obtain ⟨hno, hclear⟩ := Site.WayClear.of_host (n := n) (t := t) hnot
          refine (course_runModule hm hsid).congr ?_ (iff_of_true hclear trivial)
            ((returns_shortcutAvp hshort ha).trans (returns_of_ok hown))
          constructor
          · rintro (⟨d, hd, ⟨-, hmod⟩ | ⟨hother, -⟩⟩ | hdenied)
            · exact hmod
            · obtain rfl := (hgives d).mp hd
              exact absurd (hown.symm.trans hother) (by simp)
            · exact absurd hdenied hno
          · exact fun hmod => Or.inl ⟨a.data, (hgives _).mpr rfl, Or.inl ⟨hown, hmod⟩⟩
      | false =>
          cases hq : s.byIdentity a.data with
          | some q =>
              have hnot : ¬ s.Elsewhere h m := fun helse => by
                obtain ⟨a', ha', -, hnone⟩ := helse x hd
                obtain rfl := Option.some.inj (ha.symm.trans ha')
                exact absurd (hq.symm.trans hnone) (by simp)
              obtain ⟨hno, hclear⟩ := Site.WayClear.of_host (n := n) (t := t) hnot
              refine (@course_forwardTo s n h m inP q).congr ?_ (iff_of_true hclear trivial) ?_
              · constructor
                · rintro (⟨d, hd, ⟨hyes, -⟩ | ⟨-, q', hq', hun⟩⟩ | hdenied)
                  · obtain rfl := (hgives d).mp hd
                    exact absurd (hown.symm.trans hyes) (by simp)
                  · obtain rfl := (hgives d).mp hd
                    obtain rfl := Option.some.inj (hq.symm.trans hq')
                    exact hun
                  · exact absurd hdenied hno
                · exact fun hun => Or.inl ⟨a.data, (hgives _).mpr rfl, Or.inr ⟨hown, q, hq, hun⟩⟩
              · refine ((returns_shortcutAvp hshort ha).trans (returns_of_ok hown)).trans ?_
                simp only [Bool.false_eq_true, if_false, hq]
          | none =>
              have helse : s.Elsewhere h m := fun y hy => by
                obtain rfl := Option.some.inj (hd.symm.trans hy)
                exact ⟨a, ha, hown, hq⟩
              have hno : ¬ s.DeniedByHost n h m := by
                rintro ⟨d, hd, ⟨hyes, -⟩ | ⟨-, q, hq', -⟩⟩
                · obtain rfl := (hgives d).mp hd
                  exact absurd (hown.symm.trans hyes) (by simp)
                · obtain rfl := (hgives d).mp hd
                  exact absurd (hq.symm.trans hq') (by simp)
              refine (@course_processByRealm s n h m ids inP t hm hrt hsid r hr helse).congr
                (or_iff_right hno) Iff.rfl ?_
              refine ((returns_shortcutAvp hshort ha).trans (returns_of_ok hown)).trans ?_
              simp only [Bool.false_eq_true, if_false, hq]

/-- The checks of `server_worker`, for a request that passes them. -/
theorem course_checkRequest (hm : Received h m ids) (hrt : s.rt.Listed t) (hp : Passes m) :
    Course s n h m (s.checkRequest n h m inP) (s.Denied n h m t) (s.WayClear h m) := by
  obtain ⟨hcmd, hsid, hhost, hrealm, hdest⟩ := hp
  obtain ⟨r, hr⟩ := Option.isSome_iff_exists.mp hdest
  refine (@course_processIncomingRequest s n h m ids inP t hm hrt hsid r hr).congr
    (or_iff_right (not_not.mpr ⟨hcmd, hsid, hhost, hrealm, hdest⟩)) Iff.rfl ?_
  unfold Site.checkRequest
  rw [if_neg hcmd, if_neg]
  rw [Option.isNone_eq_false_iff.mpr hsid, Option.isNone_eq_false_iff.mpr hhost,
    Option.isNone_eq_false_iff.mpr hrealm, Option.isNone_eq_false_iff.mpr hdest]
  decide

/-- And for one that does not. -/
theorem checkRequest_refused (hp : ¬ Passes m) :
    ∃ code, s.checkRequest n h m inP = s.sendErrorReply n h m code := by
  unfold Site.checkRequest
  split
  · exact ⟨_, rfl⟩
  · rename_i hcmd
    split
    · exact ⟨_, rfl⟩
    · rename_i hno
      refine absurd ⟨hcmd, ?_⟩ hp
      simpa [Option.isNone_iff_eq_none, Option.isSome_iff_ne_none, and_assoc] using hno

end Course

/-! ## To the end -/

section End

variable {s : Site} {n : Node} {h : Heap} {m : Message} {ids : List Nat} {inP : Nat}
  {t : List (List UInt8 × List Nat)}

/-- A reply comes to its end if it does in any number of rounds that is large enough. -/
theorem replyEnds_iff (hm : Received h m ids) (hin : m.inPeer = some inP)
    (hcfg : s.cfg.aaaIdentity.length + s.cfg.aaaRealm.length < 2 ^ 30) (code : Nat → UInt32) :
    (∃ k, ∀ rounds ≥ k, Returns (({ s with rounds } : Site).sendErrorReply n h m (code rounds)))
      ↔ s.ReplyEnds h m := by
  unfold Site.ReplyEnds
  cases hmsg : s.reply.msg with
  | false => exact iff_of_true ⟨0, fun r _ => sendErrorReply_noMessage (s := { s with rounds := r }) hmsg _⟩ (Or.inl rfl)
  | true =>
      obtain ⟨as, -, havps⟩ := hm.avpsOf
      cases hx : m.sessionId with
      | none =>
          refine iff_of_false ?_ (by simp)
          rintro ⟨k, hk⟩
          exact sendErrorReply_noSession (s := { s with rounds := k }) hmsg hx _ (hk k (Nat.le_refl k))
      | some x =>
          have hshort : m.shortcut 263 = some x := hx
          obtain ⟨sid, hsid, -⟩ := hm.cell (by decide) hshort
          have hround : ∀ r, Returns (({ s with rounds := r } : Site).sendErrorReply n h m (code r))
              ↔ (s.reply.Begins (strOf s.cfg.aaaIdentity) (strOf s.cfg.aaaRealm) sid.data →
                  ({ s with rounds := r } : Site).Finishes m sid as) := fun r =>
            sendErrorReply_returns_iff (s := { s with rounds := r }) hm hin hcfg hmsg hx hsid havps
              (code r)
          have hends : (∃ k, ∀ r ≥ k, ({ s with rounds := r } : Site).Finishes m sid as)
              ↔ match firstProxyInfo as with
                | some c => ∃ k, ¬ Copied s.reply.clone c k
                | none => s.buf = true → Answerable m.commandCode → sid.data.len < 2 ^ 31 := by
            unfold Site.Finishes
            cases firstProxyInfo as with
            | some c =>
                constructor
                · rintro ⟨k, hk⟩
                  obtain ⟨j, -, hj⟩ := hk k (Nat.le_refl k)
                  exact ⟨j, hj⟩
                · rintro ⟨j, hj⟩
                  exact ⟨j + 1, fun r hr => ⟨j, hr, hj⟩⟩
            | none =>
                constructor
                · rintro ⟨k, hk⟩
                  exact (hk k (Nat.le_refl k)).2
                · exact fun hall => ⟨1, fun r hr => ⟨hr, hall⟩⟩
          constructor
          · rintro ⟨k, hk⟩
            exact Or.inr ⟨x, sid, as, rfl, hsid, havps, fun hbeg =>
              hends.mp ⟨k, fun r hr => (hround r).mp (hk r hr) hbeg⟩⟩
          · rintro (hno | ⟨x', sid', as', hx', hsid', havps', hall⟩)
            · exact absurd hno (by simp)
            · obtain rfl := Option.some.inj hx'
              obtain rfl := Option.some.inj (hsid.symm.trans hsid')
              obtain rfl := Res.ok.inj (havps.symm.trans havps')
              by_cases hbeg : s.reply.Begins (strOf s.cfg.aaaIdentity) (strOf s.cfg.aaaRealm) sid.data
              · obtain ⟨k, hk⟩ := hends.mpr (hall hbeg)
                exact ⟨k, fun r hr => (hround r).mpr fun _ => hk r hr⟩
              · exact ⟨0, fun r _ => (hround r).mpr fun hyes => absurd hyes hbeg⟩

/--
**When a request is handled to the end.**

Exactly if its reply comes to its end when it is refused, and nothing stops it on its way when it
passes the checks.
-/
theorem handlesToTheEnd_iff {src : Block} (hroom : Roomy src) {mem : TranslateMem} {h₀ : Heap}
    (hdec : aaaTranslateMessage mem h₀ src src.bytes.length true = .ok (h, m))
    (hcfg : s.cfg.aaaIdentity.length + s.cfg.aaaRealm.length < 2 ^ 30) (hrt : s.rt.Listed t) (n : Node) (inP : Nat) :
    s.HandlesToTheEnd n h m inP
      ↔ (s.Denied n h m t → s.ReplyEnds h m) ∧ (Passes m → s.WayClear h m) := by
  obtain ⟨ids, hm₀⟩ := decoded_received hroom hdec
  obtain ⟨m', hm'⟩ : ∃ m' : Message, m' = { m with inPeer := some inP } := ⟨_, rfl⟩
  have hm : Received h m' ids := by
    rw [hm']
    exact ⟨⟨hm₀.list.chain, hm₀.list.alloc⟩, hm₀.shortcuts, hm₀.data⟩
  have hin : m'.inPeer = some inP := by rw [hm']
  -- the peer a request came from decides nothing here
  have hcond : ((s.Denied n h m t → s.ReplyEnds h m) ∧ (Passes m → s.WayClear h m))
      ↔ (s.Denied n h m' t → s.ReplyEnds h m') ∧ (Passes m' → s.WayClear h m') := by
    rw [hm']
    exact Iff.rfl
  have hrun : s.HandlesToTheEnd n h m inP
      ↔ ∃ k, ∀ r ≥ k, Returns (({ s with rounds := r } : Site).checkRequest n h m' inP) := by
    rw [hm']
    exact Iff.rfl
  rw [hcond, hrun]
  by_cases hp : Passes m'
  · have hcourse : ∀ r, Course { s with rounds := r } n h m'
        (({ s with rounds := r } : Site).checkRequest n h m' inP) (s.Denied n h m' t)
        (s.WayClear h m') := fun r => course_checkRequest (s := { s with rounds := r }) hm hrt hp
    by_cases hclear : s.WayClear h m'
    · by_cases hd : s.Denied n h m' t
      · have hcode : ∀ r, ∃ code, Returns (({ s with rounds := r } : Site).checkRequest n h m' inP)
            ↔ Returns (({ s with rounds := r } : Site).sendErrorReply n h m' code) := by
          intro r
          cases hcourse r with
          | done _ hno _ => exact absurd hd hno
          | denied code hret _ _ => exact ⟨code, hret⟩
          | stuck _ hno => exact absurd hclear hno
        choose code hcode using hcode
        simp only [hcode]
        rw [replyEnds_iff hm hin hcfg code]
        exact ⟨fun hends => ⟨fun _ => hends, fun _ => hclear⟩, fun hall => hall.1 hd⟩
      · refine iff_of_true ⟨0, fun r _ => ?_⟩ ⟨fun hyes => absurd hyes hd, fun _ => hclear⟩
        cases hcourse r with
        | done hret _ _ => exact hret
        | denied _ _ hyes _ => exact absurd hyes hd
        | stuck _ hno => exact absurd hclear hno
    · refine iff_of_false ?_ fun hall => hclear (hall.2 hp)
      rintro ⟨k, hk⟩
      cases hcourse k with
      | done _ _ hyes => exact hclear hyes
      | denied _ _ _ hyes => exact hclear hyes
      | stuck hret _ => exact hret (hk k (Nat.le_refl k))
  · have hcode := fun r =>
      @checkRequest_refused { s with rounds := r } n h m' inP hp
    choose code hcode using hcode
    simp only [hcode]
    rw [replyEnds_iff hm hin hcfg code]
    exact ⟨fun hends => ⟨fun _ => hends, fun hp' => absurd hp' hp⟩, fun hall => hall.1 (Or.inl hp)⟩

end End

/-! ## Two requests -/

/-- A request that is nothing but a header. -/
def bareRequest : List UInt8 :=
  [1, 0, 0, 20, 0x80, 0, 1, 9, 0, 0, 0, 4, 0, 0, 0, 7, 0, 0, 0, 8]

/-- A request with a Session-Id and a Class: it is refused in good order. -/
def sessionRequest : List UInt8 :=
  [1, 0, 0, 44, 0x80, 0, 1, 9, 0, 0, 0, 4, 0, 0, 0, 7, 0, 0, 0, 8,
   0, 0, 1, 7, 0x40, 0, 0, 12, 97, 98, 99, 100,
   0, 0, 0, 25, 0x40, 0, 0, 12, 97, 98, 99, 100]

/-- What the decoder makes of it. -/
def sessionHeap : Heap :=
  ⟨[{ cellAt sessionRequest 20 with next := some 1 }, { cellAt sessionRequest 32 with prev := some 0 }]⟩

def sessionMessage : Message :=
  { hdrMessage sessionRequest with
    sessionId := some 0, head := some 0, tail := some 1, buf := some sessionRequest }

theorem handlesToTheEnd_sample :
    isReq sessionMessage = true ∧ ¬ Passes sessionMessage
      ∧ sampleSite.HandlesToTheEnd connectedNode sessionHeap sessionMessage 0 := by
  have hdec : aaaTranslateMessage .all ⟨[]⟩ ⟨2 ^ 24, sessionRequest, by decide⟩
      sessionRequest.length true = .ok (sessionHeap, sessionMessage) := by decide +kernel
  have hroom : Roomy ⟨2 ^ 24, sessionRequest, by decide⟩ := ⟨by decide, by decide⟩
  have hfail : ¬ Passes sessionMessage := fun hp => absurd hp.2.2.1 (by decide)
  refine ⟨by decide, hfail, (handlesToTheEnd_iff hroom hdec (by decide) oneRoute_listed _ _).mpr
    ⟨fun _ => Or.inr ⟨0, _, sessionHeap.cells, rfl, rfl, rfl, fun _ => ?_⟩, fun hp => absurd hp hfail⟩⟩
  show sampleSite.buf = true → Answerable _ → _
  exact fun _ _ => by decide

/-- The decoder accepts it, and the error reply it gets reads the Session-Id it does not have. -/
theorem bareRequest_follows_null :
    ∃ h m, aaaTranslateMessage .all ⟨[]⟩ ⟨2 ^ 24, bareRequest, by decide⟩ 20 true = .ok (h, m)
      ∧ isReq m = true ∧ FollowsNull (sampleSite.serverWorker connectedNode h m 0) 263
      ∧ ¬ sampleSite.HandlesToTheEnd connectedNode h m 0 := by
  have hnull : ∀ s : Site, s.reply.msg = true →
      FollowsNull (s.serverWorker connectedNode ⟨[]⟩
        { hdrMessage bareRequest with buf := some bareRequest } 0) 263 :=
    fun s hmem => checkRequest_null rfl hmem
  refine ⟨⟨[]⟩, { hdrMessage bareRequest with buf := some bareRequest }, by decide +kernel,
    by decide, hnull sampleSite rfl, ?_⟩
  rintro ⟨k, hk⟩
  exact (hk k (Nat.le_refl k)).noNull 263 (hnull { sampleSite with rounds := k } rfl)

end Disc.Server
