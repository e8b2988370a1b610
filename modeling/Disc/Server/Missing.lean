import Disc.Lib.Deref
import Disc.Msg.Shortcuts
import Disc.Server.RealmLookup
import Disc.Server.Request

/-!
# The AVPs a request does not have

`server_worker` with the shortcuts of a request as pointers that may be null. Every
access through one names it, so that a run can end in such an access. The checks come
first, and they too answer with `send_error_reply`, which starts its answer with the
Session-Id of the request.

Everything else is as in `Disc.Server.Request`, with the search by realm and application
as it is in the code, and can fail in its own ways; what a module does with the message it
is given is not followed.
-/

namespace Disc.Server

open Disc.Lib Disc.Msg Disc.Transport

/-! ## The code -/

/-- `AAA_COMMAND_UNSUPPORTED`. -/
def aaaCommandUnsupported : UInt32 := 3001

/-- What the worker of a server depends on apart from the request. -/
structure Site where
  cfg : Cfg
  /-- `lookup_peer_by_identity`. -/
  byIdentity : Str → Option Nat
  /-- The table `lookup_peer_by_realm_appid` searches. -/
  table : List TabledPeer
  fnmatch : List UInt8 → List UInt8 → Bool
  rt : Routes
  env : Env
  /-- The allocations of `AAANewMessage`, the rounds of its loop, and that of the answer's buffer. -/
  reply : NewMem
  rounds : Nat
  buf : Bool

/-- The AVP the shortcut with this code points to. -/
def shortcutAvp (h : Heap) (m : Message) (code : UInt32) : Deref UInt32 Avp := do
  let x ← follow code (m.shortcut code)
  let a ← (Res.ofAccess h.cells[x]? : Res Avp)
  return a

/-- `AAASetMessageResultCode`. -/
def aaaSetMessageResultCode (h : Heap) (m : Message) (resultCode : UInt32) : Res (Option Heap) :=
  if isReq m then .ok none
  else
    match m.resCode with
    | none => .ok none
    | some x => do
        let a ← Res.ofAccess h.cells[x]?
        let blk ← Res.ofAccess (poke a.data.blk a.data.off (be 4 resultCode.toNat))
        return some ⟨h.cells.set x { a with data := { a.data with blk } }⟩

namespace Site

variable (s : Site)

/-- `AAASendMessage` on a server, for an answer: a refused message leaves no trace. -/
def aaaSendMessage (n : Node) (h : Heap) (m : Message) : Res Node :=
  if m.commandCode = 257 ∨ m.commandCode = 280 ∨ m.commandCode = 282 then .ok n
  else if m.commandCode = 274 ∨ m.commandCode = 275 ∨ m.commandCode = 258 then .ok n
  else if isReq m then .ok n
  else do
    match ← aaaBuildMsgBuffer s.buf h m with
    | (.built buf, m) => do
        let p ← Res.ofAccess m.inPeer
        return n.setPeer p ((n.peers p).sendResToPeer s.env buf).2
    | _ => return n

/--
`send_error_reply`. That `&(msg->sessionId->data)` is computed does not follow the pointer
yet: `AAANewMessage` does, after its first allocation.
-/
def sendErrorReply (n : Node) (h : Heap) (m : Message) (responseCode : UInt32) :
    Deref UInt32 After :=
  if !s.reply.msg then return n.refuse m responseCode
  else do
    let sessionId ← shortcutAvp h m 263
    let ans ← aaaNewMessage s.reply s.rounds h
      ⟨s.cfg.aaaIdentity, 0, s.cfg.aaaIdentity.length⟩ ⟨s.cfg.aaaRealm, 0, s.cfg.aaaRealm.length⟩
      m.commandCode m.applicationId (some sessionId.data) (some m)
    match ans with
    | none => return n.refuse m responseCode
    | some (h, ans) =>
        match ← aaaSetMessageResultCode h ans responseCode with
        | none => return n.refuse m responseCode
        | some h => do
            let n ← s.aaaSendMessage n h ans
            return n.refuse m responseCode

/-- `run_module`, if there is a module: it gets the Session-Id as `msg->sId`. -/
def runModule (n : Node) (h : Heap) (m : Message) : Deref UInt32 After :=
  match s.cfg.findModule m.applicationId with
  | some mod => do
      let _ ← shortcutAvp h m 263
      return ⟨[.modMsg mod], n, msgBuf m⟩
  | none => s.sendErrorReply n h m aaaApplicationUnsupported

/-- `forward_request`, and the reply when that fails. -/
def forwardTo (n : Node) (h : Heap) (m : Message) (inP outP : Nat) : Deref UInt32 After :=
  match n.forwardRequest s.env m inP outP with
  | (true, n') => return n.sentTo n' m outP
  | (false, n') => s.sendErrorReply n' h m aaaUnableToDeliver

/-- The half of `process_incoming_request` that looks at the realm. -/
def processByRealm (n : Node) (h : Heap) (m : Message) (inP : Nat) : Deref UInt32 After := do
  let realm ← shortcutAvp h m 283
  if ← isOwn s.cfg.aaaRealm realm.data then
    match s.cfg.findModule m.applicationId with
    | some _ => s.runModule n h m
    | none =>
        let bs ← (Res.ofAccess realm.data.bytes : Res (List UInt8))
        match ← lookupPeerByRealmAppid s.table bs m.applicationId with
        | some q => s.forwardTo n h m inP q
        | none => s.sendErrorReply n h m aaaApplicationUnsupported
  else
    -- `do_route` takes the realm from the message once more
    let realm ← shortcutAvp h m 283
    match ← n.doRoute s.fnmatch s.rt s.env m inP realm.data with
    | some (q, n') => return n.sentTo n' m q
    | none => s.sendErrorReply n h m aaaUnableToDeliver

/-- `process_incoming_request`. -/
def processIncomingRequest (n : Node) (h : Heap) (m : Message) (inP : Nat) :
    Deref UInt32 After :=
  if m.destHost.isSome then
    if m.destRealm.isNone then s.sendErrorReply n h m aaaMissingAvp
    else do
      let host ← shortcutAvp h m 293
      if ← isOwn s.cfg.aaaIdentity host.data then s.runModule n h m
      else
        match s.byIdentity host.data with
        | some q => s.forwardTo n h m inP q
        | none => s.processByRealm n h m inP
  else if m.destRealm.isNone then s.runModule n h m
  else s.processByRealm n h m inP

/-- The sanity checks of `server_worker`, and what follows them. -/
def checkRequest (n : Node) (h : Heap) (m : Message) (inP : Nat) : Deref UInt32 After :=
  if m.commandCode = 274 ∨ m.commandCode = 258 ∨ m.commandCode = 275 then
    s.sendErrorReply n h m aaaCommandUnsupported
  else if m.sessionId.isNone || m.origHost.isNone || m.origRealm.isNone || m.destRealm.isNone then
    s.sendErrorReply n h m aaaMissingAvp
  else s.processIncomingRequest n h m inP

/-- `server_worker` and a request from the peer `inP`. -/
def serverWorker (n : Node) (h : Heap) (m : Message) (inP : Nat) : Deref UInt32 After :=
  s.checkRequest n h { m with inPeer := some inP } inP

end Site

/-! ## What is followed -/

section Worker

variable {s : Site} {n : Node} {h : Heap} {m : Message} {inP : Nat}

theorem noNull_shortcutAvp {c : UInt32} (hc : (m.shortcut c).isSome) :
    NoNull (shortcutAvp h m c) :=
  (noNull_follow hc).bind fun _ => noNull_lift _

/-- An error reply to a request that has a Session-Id. -/
theorem noNull_sendErrorReply (hsid : m.sessionId.isSome) (code : UInt32) :
    NoNull (s.sendErrorReply n h m code) := by
  unfold Site.sendErrorReply
  split
  · exact noNull_pure _
  · refine (noNull_shortcutAvp (c := 263) hsid).bind fun sid => (noNull_lift _).bind fun ans => ?_
    cases ans with
    | none => exact noNull_pure _
    | some r =>
        refine (noNull_lift _).bind fun set => ?_
        cases set with
        | none => exact noNull_pure _
        | some h => exact (noNull_lift _).bind fun _ => noNull_pure _

theorem noNull_runModule (hsid : m.sessionId.isSome) : NoNull (s.runModule n h m) := by
  unfold Site.runModule
  split
  · exact (noNull_shortcutAvp (c := 263) hsid).bind fun _ => noNull_pure _
  · exact noNull_sendErrorReply hsid _

theorem noNull_forwardTo (hsid : m.sessionId.isSome) (outP : Nat) :
    NoNull (s.forwardTo n h m inP outP) := by
  unfold Site.forwardTo
  split
  · exact noNull_pure _
  · exact noNull_sendErrorReply hsid _

theorem noNull_processByRealm (hsid : m.sessionId.isSome) (hrealm : m.destRealm.isSome) :
    NoNull (s.processByRealm n h m inP) := by
  unfold Site.processByRealm
  refine (noNull_shortcutAvp (c := 283) hrealm).bind fun realm => (noNull_lift _).bind fun own => ?_
  split
  · split
    · exact noNull_runModule hsid
    · refine (noNull_lift _).bind fun bs => (noNull_lift _).bind fun found => ?_
      split
      · exact noNull_forwardTo hsid _
      · exact noNull_sendErrorReply hsid _
  · refine (noNull_shortcutAvp (c := 283) hrealm).bind fun realm => (noNull_lift _).bind fun way => ?_
    split
    · exact noNull_pure _
    · exact noNull_sendErrorReply hsid _

theorem noNull_processIncomingRequest (hsid : m.sessionId.isSome) :
    NoNull (s.processIncomingRequest n h m inP) := by
  have hreal : ∀ {p : Option Nat}, ¬ p.isNone = true → p.isSome = true := by
    intro p hp
    cases p with
    | none => exact absurd rfl hp
    | some x => rfl
  unfold Site.processIncomingRequest
  split
  · rename_i hhost
    split
    · exact noNull_sendErrorReply hsid _
    · rename_i hrealm
      refine (noNull_shortcutAvp (c := 293) hhost).bind fun host => (noNull_lift _).bind fun own => ?_
      split
      · exact noNull_runModule hsid
      · split
        · exact noNull_forwardTo hsid _
        · exact noNull_processByRealm hsid (hreal hrealm)
  · split
    · exact noNull_runModule hsid
    · rename_i hrealm
      exact noNull_processByRealm hsid (hreal hrealm)

/-- **With a Session-Id, the worker follows no null shortcut.** -/
theorem noNull_checkRequest (hsid : m.sessionId.isSome) : NoNull (s.checkRequest n h m inP) := by
  unfold Site.checkRequest
  split
  · exact noNull_sendErrorReply hsid _
  · split
    · exact noNull_sendErrorReply hsid _
    · exact noNull_processIncomingRequest hsid

/-- An error reply starts with the Session-Id. -/
theorem sendErrorReply_null (hsid : m.sessionId = none) (hmem : s.reply.msg = true)
    (code : UInt32) : FollowsNull (s.sendErrorReply n h m code) 263 := by
  have hnull : m.shortcut 263 = none := hsid
  unfold Site.sendErrorReply
  rw [hmem, shortcutAvp, hnull]
  rfl

/-- **Without one, it refuses the request and stumbles over that.** -/
theorem checkRequest_null (hsid : m.sessionId = none) (hmem : s.reply.msg = true) :
    FollowsNull (s.checkRequest n h m inP) 263 := by
  unfold Site.checkRequest
  split
  · exact sendErrorReply_null hsid hmem _
  · rw [if_pos (by simp [hsid])]
    exact sendErrorReply_null hsid hmem _

/-- Or it has no memory for the answer and gives up in time. -/
theorem checkRequest_noMemory (hsid : m.sessionId = none) (hmem : s.reply.msg = false) :
    NoNull (s.checkRequest n h m inP) := by
  have hreply : ∀ code, NoNull (s.sendErrorReply n h m code) := by
    intro code
    unfold Site.sendErrorReply
    rw [hmem]
    exact noNull_pure _
  unfold Site.checkRequest
  split
  · exact hreply _
  · rw [if_pos (by simp [hsid])]
    exact hreply _

/--
**The worker handles a request without following a null shortcut exactly when the request
has a Session-Id AVP**, or there is no memory for the answer it would get.
-/
theorem serverWorker_noNull_iff {src : Block} {mem : TranslateMem} {h₀ : Heap}
    (hdec : aaaTranslateMessage mem h₀ src src.bytes.length true = .ok (h, m))
    (s : Site) (n : Node) (inP : Nat) :
    NoNull (s.serverWorker n h m inP) ↔ HasAvp h m 263 ∨ s.reply.msg = false := by
  have hshort : m.sessionId.isSome ↔ HasAvp h m 263 :=
    WellLinked.shortcut_iff (c := 263) (decoded_wellLinked hdec) (by decide)
  rw [← hshort]
  cases hsid : m.sessionId with
  | some x =>
      have hsome : m.sessionId.isSome := by rw [hsid]; rfl
      exact iff_of_true (noNull_checkRequest hsome) (Or.inl rfl)
  | none =>
      cases hmem : s.reply.msg with
      | false => exact iff_of_true (checkRequest_noMemory hsid hmem) (Or.inr rfl)
      | true =>
          refine iff_of_false (fun hno => ?_) (by simp)
          exact hno 263 (checkRequest_null hsid hmem)

end Worker

/-! ## What it does -/

section Deeds

variable {s : Site} {n : Node} {h : Heap} {m : Message} {inP : Nat} {out : After}

/-- The searches of the site, for one that ends. -/
def Site.lookups (s : Site) : Lookups where
  byIdentity := s.byIdentity
  byRealmAppid realm appid :=
    (Res.ofAccess realm.bytes >>= fun bs => lookupPeerByRealmAppid s.table bs appid).toOption.join

/-- The two ways to look at a request come to the same deeds and the same buffer. -/
def SameDeeds (x : Res After) (out : After) : Prop :=
  ∃ out', x = .ok out' ∧ out'.deeds = out.deeds ∧ out'.buf = out.buf

theorem shortcutAvp_ok {c : UInt32} {a : Avp} (hrun : (shortcutAvp h m c).run = .ok (.ok a)) :
    ∃ p, m.shortcut c = some p ∧ h.cells[p]? = some a := by
  obtain ⟨p, hp, ha⟩ := deref_bind_ok hrun
  refine ⟨p, ?_, ?_⟩
  · cases hm : m.shortcut c with
    | none => rw [hm] at hp; cases hp
    | some q =>
        rw [hm] at hp
        rw [deref_pure_ok hp]
  · have hget := deref_lift_ok ha
    cases hc : h.cells[p]? with
    | none => rw [hc] at hget; cases hget
    | some b =>
        rw [hc] at hget
        rw [Res.ok.inj hget]

theorem sendErrorReply_deeds {code : UInt32}
    (hrun : (s.sendErrorReply n h m code).run = .ok (.ok out)) :
    out.deeds = [.errorReply code] ∧ out.buf = msgBuf m := by
  have hrefuse : ∀ {n' : Node}, (pure (n'.refuse m code) : Deref UInt32 After).run = .ok (.ok out) →
      out.deeds = [.errorReply code] ∧ out.buf = msgBuf m := by
    intro n' hp
    rw [deref_pure_ok hp]
    exact ⟨rfl, rfl⟩
  unfold Site.sendErrorReply at hrun
  split at hrun
  · exact hrefuse hrun
  · obtain ⟨sid, -, hrun⟩ := deref_bind_ok hrun
    obtain ⟨ans, -, hrun⟩ := deref_bind_ok hrun
    cases ans with
    | none => exact hrefuse hrun
    | some r =>
        obtain ⟨set, -, hrun⟩ := deref_bind_ok hrun
        cases set with
        | none => exact hrefuse hrun
        | some h =>
            obtain ⟨n', -, hrun⟩ := deref_bind_ok hrun
            exact hrefuse hrun

theorem runModule_deeds (hrun : (s.runModule n h m).run = .ok (.ok out)) :
    SameDeeds (.ok (n.runModule s.cfg m)) out := by
  refine ⟨_, rfl, ?_⟩
  unfold Site.runModule at hrun
  unfold Node.runModule
  cases hmod : s.cfg.findModule m.applicationId with
  | some mod =>
      rw [hmod] at hrun
      obtain ⟨-, -, hrun⟩ := deref_bind_ok hrun
      rw [deref_pure_ok hrun]
      exact ⟨rfl, rfl⟩
  | none =>
      rw [hmod] at hrun
      obtain ⟨hd, hb⟩ := sendErrorReply_deeds hrun
      exact ⟨hd.symm, hb.symm⟩

theorem forwardTo_deeds {outP : Nat} (hrun : (s.forwardTo n h m inP outP).run = .ok (.ok out)) :
    SameDeeds (.ok (n.forwardTo s.env m inP outP)) out := by
  refine ⟨_, rfl, ?_⟩
  unfold Site.forwardTo at hrun
  unfold Node.forwardTo
  rcases hfw : n.forwardRequest s.env m inP outP with ⟨sent, n'⟩
  rw [hfw] at hrun
  cases sent with
  | true =>
      rw [deref_pure_ok hrun]
      exact ⟨rfl, rfl⟩
  | false =>
      obtain ⟨hd, hb⟩ := sendErrorReply_deeds hrun
      exact ⟨hd.symm, hb.symm⟩

theorem processByRealm_deeds {r : Nat} (hr : m.destRealm = some r)
    (hrun : (s.processByRealm n h m inP).run = .ok (.ok out)) :
    SameDeeds (n.processByRealm s.cfg s.lookups s.fnmatch s.rt s.env h m inP r) out := by
  have hrealm : ∀ {a : Avp}, (shortcutAvp h m 283).run = .ok (.ok a) → h.cells[r]? = some a := by
    intro a ha
    obtain ⟨p, hp, hcell⟩ := shortcutAvp_ok ha
    obtain rfl : r = p := Option.some.inj (hr.symm.trans hp)
    exact hcell
  unfold Site.processByRealm at hrun
  unfold Node.processByRealm
  obtain ⟨a, ha, hrun⟩ := deref_bind_ok hrun
  obtain ⟨own, hown, hrun⟩ := deref_bind_ok hrun
  rw [hrealm ha, Res.ofAccess_some, Res.ok_bind, deref_lift_ok hown, Res.ok_bind]
  split at hrun
  · rename_i htrue
    rw [if_pos htrue]
    cases hmod : s.cfg.findModule m.applicationId with
    | some mod =>
        rw [hmod] at hrun
        exact runModule_deeds hrun
    | none =>
        rw [hmod] at hrun
        obtain ⟨bs, hbs, hrun⟩ := deref_bind_ok hrun
        obtain ⟨found, hfound, hrun⟩ := deref_bind_ok hrun
        have hq : s.lookups.byRealmAppid a.data m.applicationId = found := by
          simp only [Site.lookups, deref_lift_ok hbs, Res.ok_bind, deref_lift_ok hfound]
          rfl
        cases found with
        | some q =>
            simp only [hq]
            exact forwardTo_deeds hrun
        | none =>
            simp only [hq]
            obtain ⟨hd, hb⟩ := sendErrorReply_deeds hrun
            exact ⟨_, rfl, hd.symm, hb.symm⟩
  · rename_i hfalse
    rw [if_neg hfalse]
    obtain ⟨b, hb, hrun⟩ := deref_bind_ok hrun
    obtain rfl : a = b := Option.some.inj ((hrealm ha).symm.trans (hrealm hb))
    obtain ⟨way, hway, hrun⟩ := deref_bind_ok hrun
    rw [deref_lift_ok hway, Res.ok_bind]
    cases way with
    | none =>
        obtain ⟨hd, hbuf⟩ := sendErrorReply_deeds hrun
        exact ⟨_, rfl, hd.symm, hbuf.symm⟩
    | some qn => exact ⟨_, rfl, by rw [deref_pure_ok hrun], by rw [deref_pure_ok hrun]⟩

/-- **A request that is handled is handled as `process_incoming_request` decides.** -/
theorem processIncomingRequest_deeds
    (hrun : (s.processIncomingRequest n h m inP).run = .ok (.ok out)) :
    SameDeeds (n.processIncomingRequest s.cfg s.lookups s.fnmatch s.rt s.env h m inP) out := by
  unfold Site.processIncomingRequest at hrun
  unfold Node.processIncomingRequest
  cases hd : m.destHost with
  | none =>
      rw [hd] at hrun
      cases hr : m.destRealm with
      | none =>
          rw [hr] at hrun
          exact runModule_deeds hrun
      | some r =>
          rw [hr] at hrun
          exact processByRealm_deeds hr hrun
  | some d =>
      rw [hd] at hrun
      cases hr : m.destRealm with
      | none =>
          rw [hr] at hrun
          obtain ⟨hdeeds, hbuf⟩ := sendErrorReply_deeds hrun
          exact ⟨_, rfl, hdeeds.symm, hbuf.symm⟩
      | some r =>
          rw [hr] at hrun
          obtain ⟨a, ha, hrun⟩ := deref_bind_ok hrun
          obtain ⟨p, hp, hcell⟩ := shortcutAvp_ok ha
          obtain rfl : d = p := Option.some.inj (hd.symm.trans hp)
          obtain ⟨own, hown, hrun⟩ := deref_bind_ok hrun
          simp only [hcell, Res.ofAccess_some, Res.ok_bind, deref_lift_ok hown]
          split at hrun
          · rename_i htrue
            rw [if_pos htrue]
            exact runModule_deeds hrun
          · rename_i hfalse
            rw [if_neg hfalse]
            cases hq : s.byIdentity a.data with
            | some q =>
                have hlk : s.lookups.byIdentity a.data = some q := hq
                simp only [hq] at hrun
                simp only [hlk]
                exact forwardTo_deeds hrun
            | none =>
                have hlk : s.lookups.byIdentity a.data = none := hq
                simp only [hq] at hrun
                simp only [hlk]
                exact processByRealm_deeds hr hrun

end Deeds

/-- A server with one route. -/
def sampleSite : Site :=
  { cfg := sampleCfg, byIdentity := fun _ => none, table := []
    fnmatch := fun pattern realm => decide (pattern = realm)
    rt := oneRoute, env := sampleEnv, reply := .all, rounds := 1, buf := true }

end Disc.Server
