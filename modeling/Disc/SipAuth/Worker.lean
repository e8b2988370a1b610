import Disc.Client.Manager
import Disc.Client.Session
import Disc.Lib.Text
import Disc.Msg.Edits
import Disc.SipAuth.ModMsg

/-!
# Requests of the SIP server

`sipauth_worker` of the client's `sipauth.c`, from a message it has read to the end of the
round. A context is allocated and filled, a session is started for it, four AVPs are put in
front of the message and the message is sent. A failure before the session is started frees
the context and all is as before. A failure after that goes to the same label: it frees the
context too, but the session stays in the table and still points to it.
-/

namespace Disc.SipAuth

open Disc.Lib Disc.Msg Disc.Server Disc.Client Disc.Transport

/-! ## The code -/

/-- `aaa_identity` and `aaa_realm`. -/
structure SipCfg where
  aaaIdentity : List UInt8
  aaaRealm : List UInt8
deriving Repr, DecidableEq

/-- The sessions with their states and contexts, and the contexts that were allocated. -/
structure SipClient where
  mgr : SesMgr
  ses : Nat → Session
  /-- `session->context`. -/
  context : Nat → Option Nat
  /-- Nothing is left of a context that was freed. -/
  ctxs : List (Option CtxEntry)

/-- What a round meets: memory, and whether `send_local_request` finds a peer to send to. -/
structure HandleEnv where
  ctxMem : Bool
  start : StartEnv
  /-- For the AVPs of `update_message`, in their order. -/
  avpMem : Nat → CreateMem
  bufMem : Bool
  transMem : Bool
  sent : Bool
  /-- What the memory holds behind the message. -/
  behind : Nat → UInt8

/-- `SIP_ACC_SERVICE`. -/
def sipAccService : UInt8 := 57

/-- `APP_ID_1`. -/
def appId1 : List UInt8 := ascii "1"

namespace SipClient

/-- `shm_malloc` of a context, which gets the next number, with its `in_port`. -/
def newCtx (w : SipClient) (inPort : Nat) : SipClient :=
  { w with ctxs := w.ctxs ++ [some ⟨inPort, 0, 0⟩] }

/-- Fields of a context are written. -/
def setCtx (w : SipClient) (c : Nat) (ctx : CtxEntry) : SipClient :=
  { w with ctxs := w.ctxs.set c (some ctx) }

/-- `shm_free(ctx)`. -/
def freeCtx (w : SipClient) (c : Nat) : SipClient := { w with ctxs := w.ctxs.set c none }

/-- `create_session` and `session->context = context`. -/
def newSes (w : SipClient) (mgr : SesMgr) (ses c : Nat) : SipClient :=
  { w with
    mgr
    ses := Function.update w.ses ses createSession
    context := Function.update w.context ses (some c) }

def setSes (w : SipClient) (ses : Nat) (s : Session) : SipClient :=
  { w with ses := Function.update w.ses ses s }

end SipClient

/-- `update_message`; each AVP goes to its shortcut as well. -/
def updateMessage (cfg : SipCfg) (env : HandleEnv) (h : Heap) (m : Message)
    (sessionId : List UInt8) (acc : Bool) : Res (Bool × Heap × Message) := do
  let (avp, h, m) ← createAndPrepend (env.avpMem 0) h m 296 cfg.aaaRealm
  if avp.isNone then return (false, h, m)
  else do
    let m : Message := { m with origRealm := avp }
    let (avp, h, m) ← createAndPrepend (env.avpMem 1) h m 264 cfg.aaaIdentity
    if avp.isNone then return (false, h, m)
    else do
      let m : Message := { m with origHost := avp }
      let (avp, h, m) ← createAndPrepend (env.avpMem 2) h m (if acc then 259 else 258) appId1
      if avp.isNone then return (false, h, m)
      else do
        let (avp, h, m) ← createAndPrepend (env.avpMem 3) h m 263 sessionId
        if avp.isNone then return (false, h, m)
        else return (true, h, { m with sessionId := avp })

/-- What the session's state machine looks at when a request is sent. -/
def sentMsg (m : Message) : SesMsg := ⟨m.commandCode, none, none⟩

/--
`AAASendMessage` of a client, for a message of the session `s`: whether it returns success,
and the session then. A module of this type is loaded by a client only.
-/
def aaaSendMessage (env : HandleEnv) (h : Heap) (m : Message) (s : Session) :
    Res (Bool × Session) :=
  if m.commandCode = 257 ∨ m.commandCode = 280 ∨ m.commandCode = 282 then .ok (false, s)
  else if m.commandCode = 274 ∨ m.commandCode = 275 ∨ m.commandCode = 258 then .ok (false, s)
  else if isReq m = false then .ok (false, s)
  else do
    let (built, m) ← aaaBuildMsgBuffer env.bufMem h m
    if buildRc built = -1 then return (false, s)
    else if env.transMem = false then return (false, s)
    else do
      let event : AaaEvent := if m.commandCode = acctCode then .sendingAcctR else .sendingAuthR
      let (r, s) ← s.sessionStateMachine event (some (sentMsg m))
      if r ≠ .accepted then return (false, s)
      else if env.sent = false then do
        let (_, s) ← s.sessionStateMachine .sendFailed (some (sentMsg m))
        return (false, s)
      else return (true, s)

/-- From `AAAStartSession` on, with the context `c`. -/
def startAndSend (cfg : SipCfg) (env : HandleEnv) (h : Heap) (m : Message) (c : Nat) (acc : Bool)
    (w : SipClient) : Res (Bool × SipClient) := do
  let mgr ← w.mgr.aaaStartSession cfg.aaaIdentity env.start
  match mgr.started[w.mgr.started.length]? with
  | none => return (false, ({ w with mgr } : SipClient).freeCtx c)
  | some e => do
      let w := w.newSes mgr e.ses c
      let (rc, h, m) ← updateMessage cfg env h m e.sID acc
      if rc = false then return (false, w.freeCtx c)
      else do
        let (rc, s) ← aaaSendMessage env h m (w.ses e.ses)
        let w := w.setSes e.ses s
        if rc = false then return (false, w.freeCtx c) else return (true, w)

/-- The byte at `k` of an AVP's data, or what is behind the data. -/
def dataByte (env : HandleEnv) (a : Avp) (k : Nat) : UInt8 :=
  (a.data.blk[a.data.off + k]?).getD (env.behind k)

/-- The round of `sipauth_worker` for a message that came from `sock`: `true` at its end. -/
def handleMessage (cfg : SipCfg) (env : HandleEnv) (sock : Nat) (h : Heap) (m : Message)
    (w : SipClient) : Res (Bool × SipClient) :=
  if env.ctxMem = false then .ok (false, w)
  else do
    let c := w.ctxs.length
    let w := w.newCtx sock
    match ← aaaFindMatchingAVP h m none avpSipMsgId 0 .forward with
    | none => return (false, w.freeCtx c)
    | some x => do
        let a ← Res.ofAccess h.cells[x]?
        let id := UInt32.ofNat (ofLe ((List.range 4).map (dataByte env a)))
        let w := w.setCtx c ⟨sock, 0, id⟩
        match ← aaaFindMatchingAVP h m none avpServiceType 0 .forward with
        | none => return (false, w.freeCtx c)
        | some y => do
            let b ← Res.ofAccess h.cells[y]?
            let service := dataByte env b 0
            let w := w.setCtx c ⟨sock, service, id⟩
            startAndSend cfg env h m c (service = sipAccService) w

/-! ## What it should do -/

/-- A message that was read, with room for what is put in front of it. -/
structure Incoming (cfg : SipCfg) where
  sock : Nat
  h : Heap
  m : Message
  ids : List Nat
  vs : List AvpView
  holds : Holds h m ids vs
  fits : encLen vs + cfg.aaaRealm.length + 2 * cfg.aaaIdentity.length + 256 < 2 ^ 32

/-- The session is in the table. -/
def SipClient.Live (w : SipClient) (ses : Nat) : Prop :=
  ∃ l ∈ w.mgr.sesTable.cells, l.payload = ses

/-- No live session has a context that was freed. -/
def SipClient.NoneFreed (w : SipClient) : Prop :=
  ∀ ses, w.Live ses → ∃ c ctx, w.context ses = some c ∧ w.ctxs[c]? = some (some ctx)

/--
After a failure no session is left that was started for the message; otherwise there is one,
whose context names the connection. And no live session has a context that was freed.
-/
def HandledRight (w : SipClient) (sock : Nat) (res : Res (Bool × SipClient)) : Prop :=
  ∃ ok w', res = .ok (ok, w') ∧ w'.NoneFreed
    ∧ (ok = false → ∀ ses, w'.Live ses → w.Live ses)
    ∧ (ok = true → ∃ ses c ctx, (w'.Live ses ∧ ¬ w.Live ses)
        ∧ (∀ t, w'.Live t → ¬ w.Live t → t = ses)
        ∧ w'.context ses = some c ∧ w'.ctxs[c]? = some (some ctx) ∧ ctx.inPort = sock)

/-! ## When it does -/

/-- The session is started: there is memory, and the message has the two AVPs. -/
def Starts {cfg : SipCfg} (env : HandleEnv) (x : Incoming cfg) : Prop :=
  env.ctxMem = true ∧ env.start.sesMem = true ∧ env.start.sidMem = true
    ∧ (∃ i ∈ x.ids, x.h.isAvp avpSipMsgId 0 i = true)
    ∧ ∃ i ∈ x.ids, x.h.isAvp avpServiceType 0 i = true

/-- The four AVPs can be made. -/
def Updates (cfg : SipCfg) (env : HandleEnv) : Prop :=
  cfg.aaaRealm ≠ [] ∧ cfg.aaaIdentity ≠ [] ∧ ∀ k < 4, env.avpMem k = ⟨true, true⟩

/-- The message can be sent: it is a request a client may send, and a peer takes it. -/
def Sends (env : HandleEnv) (m : Message) : Prop :=
  m.commandCode ∉ [257, 280, 282, 274, 275, 258] ∧ isReq m = true ∧ env.bufMem = true
    ∧ env.transMem = true ∧ env.sent = true

/-- Once the session is started, nothing fails any more. -/
def NoLateFailure {cfg : SipCfg} (env : HandleEnv) (x : Incoming cfg) : Prop :=
  Starts env x → Updates cfg env ∧ Sends env x.m

/-- What happens to the client: a message comes, or a session is ended. -/
inductive SipAct (cfg : SipCfg) where
  | receive (env : HandleEnv) (x : Incoming cfg)
  | finish (ses : Nat) (statefull : Bool)

namespace SipClient

def init (lo hi : UInt32) (nextLabel : UInt32 → UInt32) : SipClient where
  mgr := SesMgr.init lo hi nextLabel
  ses := fun _ => createSession
  context := fun _ => none
  ctxs := []

def step {cfg : SipCfg} (w : SipClient) : SipAct cfg → Option SipClient
  | .receive env x => (handleMessage cfg env x.sock x.h x.m w).toOption.map Prod.snd
  | .finish ses statefull =>
      if ses ∈ w.mgr.started.map (·.ses) ∧ ses ∉ w.mgr.ended then
        some { w with mgr := w.mgr.aaaEndSession ses statefull } else none

def Goes {cfg : SipCfg} (_ : SipClient) : SipAct cfg → Prop
  | .receive env x => NoLateFailure env x
  | .finish _ _ => True

/-- The clients of the runs without a late failure. -/
def Runs (cfg : SipCfg) : SipClient → Prop :=
  Reach (fun w => ∃ lo hi nextLabel, w = init lo hi nextLabel) (@step cfg) Goes

end SipClient

/-! ## The message -/

section Message

variable {cfg : SipCfg} {env : HandleEnv} {h : Heap} {m : Message} {ids : List Nat}
  {vs : List AvpView}

/-- The AVPs `update_message` puts in front. -/
def requestAvps (cfg : SipCfg) (sessionId : List UInt8) (acc : Bool) (vs : List AvpView) :
    List AvpView :=
  ⟨263, (setAvpFields 263 0).1, 0, sessionId⟩
    :: ⟨if acc then 259 else 258, (setAvpFields (if acc then 259 else 258) 0).1, 0, appId1⟩
    :: ⟨264, (setAvpFields 264 0).1, 0, cfg.aaaIdentity⟩
    :: ⟨296, (setAvpFields 296 0).1, 0, cfg.aaaRealm⟩ :: vs

instance : Decidable (Updates cfg env) := inferInstanceAs (Decidable (_ ∧ _))

instance : Decidable (Sends env m) := inferInstanceAs (Decidable (_ ∧ _))

/-- **What `update_message` makes of a message.** -/
theorem updateMessage_eq (hh : Holds h m ids vs) {sid : List UInt8} (hsid : sid ≠ [])
    (acc : Bool) :
    ∃ h' m', updateMessage cfg env h m sid acc = .ok (decide (Updates cfg env), h', m')
      ∧ (Updates cfg env → ∃ ids', Holds h' m' ids' (requestAvps cfg sid acc vs)
        ∧ m'.header = m.header) := by
  have hno : ∀ {P : Prop}, ¬ Updates cfg env → (Updates cfg env → P) := fun h h' => absurd h' h
  have hmade : ∀ {data : List UInt8} {k : Nat}, ¬ (data = [] ∨ env.avpMem k ≠ ⟨true, true⟩) →
      data ≠ [] ∧ env.avpMem k = ⟨true, true⟩ := fun h =>
    ⟨fun hd => h (.inl hd), not_not.mp fun hm => h (.inr hm)⟩
  unfold updateMessage
  by_cases h0 : cfg.aaaRealm = [] ∨ env.avpMem 0 ≠ ⟨true, true⟩
  · have hu : ¬ Updates cfg env := fun hu => h0.elim hu.1 fun hm => hm (hu.2.2 0 (by omega))
    rw [createAndPrepend_none h0]
    exact ⟨h, m, by rw [decide_eq_false hu]; rfl, hno hu⟩
  obtain ⟨hrealm, hmem0⟩ := hmade h0
  obtain ⟨h₁, m₁, hadd, hh₁, hm₁⟩ := createAndPrepend_ok hh 296 hrealm hmem0
  have hh₁ : Holds h₁ { m₁ with origRealm := some h.size } _ _ := hh₁.congr rfl rfl
  simp only [hadd, Res.ok_bind, Option.isNone_some, Bool.false_eq_true, if_false]
  by_cases h1 : cfg.aaaIdentity = [] ∨ env.avpMem 1 ≠ ⟨true, true⟩
  · have hu : ¬ Updates cfg env := fun hu => h1.elim hu.2.1 fun hm => hm (hu.2.2 1 (by omega))
    rw [createAndPrepend_none h1]
    exact ⟨h₁, _, by rw [decide_eq_false hu]; rfl, hno hu⟩
  obtain ⟨hident, hmem1⟩ := hmade h1
  obtain ⟨h₂, m₂, hadd, hh₂, hm₂⟩ := createAndPrepend_ok hh₁ 264 hident hmem1
  have hh₂ : Holds h₂ { m₂ with origHost := some h₁.size } _ _ := hh₂.congr rfl rfl
  simp only [hadd, Res.ok_bind, Option.isNone_some, Bool.false_eq_true, if_false]
  by_cases h2 : appId1 = [] ∨ env.avpMem 2 ≠ ⟨true, true⟩
  · have hu : ¬ Updates cfg env := fun hu =>
      h2.elim (by decide) fun hm => hm (hu.2.2 2 (by omega))
    rw [createAndPrepend_none h2]
    exact ⟨h₂, _, by rw [decide_eq_false hu]; rfl, hno hu⟩
  obtain ⟨happ, hmem2⟩ := hmade h2
  obtain ⟨h₃, m₃, hadd, hh₃, hm₃⟩ := createAndPrepend_ok hh₂ (if acc then 259 else 258) happ hmem2
  simp only [hadd, Res.ok_bind, Option.isNone_some, Bool.false_eq_true, if_false]
  by_cases h3 : sid = [] ∨ env.avpMem 3 ≠ ⟨true, true⟩
  · have hu : ¬ Updates cfg env := fun hu => h3.elim hsid fun hm => hm (hu.2.2 3 (by omega))
    rw [createAndPrepend_none h3]
    exact ⟨h₃, _, by rw [decide_eq_false hu]; rfl, hno hu⟩
  obtain ⟨-, hmem3⟩ := hmade h3
  obtain ⟨h₄, m₄, hadd, hh₄, hm₄⟩ := createAndPrepend_ok hh₃ 263 hsid hmem3
  have hu : Updates cfg env := by
    refine ⟨hrealm, hident, fun k hk => ?_⟩
    obtain rfl | rfl | rfl | rfl : k = 0 ∨ k = 1 ∨ k = 2 ∨ k = 3 := by omega
    all_goals assumption
  simp only [hadd, Res.ok_bind, Option.isNone_some, Bool.false_eq_true, if_false]
  have hheader := (hm₄.trans hm₃).trans (hm₂.trans hm₁)
  exact ⟨h₄, { m₄ with sessionId := some h₃.size }, by rw [decide_eq_true hu]; rfl,
    fun _ => ⟨_, hh₄.congr rfl rfl, hheader⟩⟩

/-- A new session lets a request go, and takes it back if it could not be sent. -/
theorem createSession_sends (m : Message) :
    ∃ s, createSession.sessionStateMachine
        (if m.commandCode = acctCode then .sendingAcctR else .sendingAuthR) (some (sentMsg m))
          = .ok (.accepted, s)
      ∧ ∃ x, s.sessionStateMachine .sendFailed (some (sentMsg m)) = .ok x := by
  by_cases hacct : m.commandCode = acctCode
  · exact ⟨{ createSession with pendingAccts := 1 }, by rw [if_pos hacct]; rfl,
      (.accepted, createSession), (if_pos hacct).trans rfl⟩
  · exact ⟨{ createSession with state := .pending }, by rw [if_neg hacct]; rfl,
      (.accepted, createSession), (if_neg hacct).trans rfl⟩

/-- **What `AAASendMessage` returns** for the first message of a session. -/
theorem aaaSendMessage_eq (hh : Holds h m ids vs) (hroom : encLen vs < 2 ^ 32) :
    ∃ s, aaaSendMessage env h m createSession = .ok (decide (Sends env m), s) := by
  unfold aaaSendMessage
  by_cases hcode : m.commandCode ∈ [257, 280, 282, 274, 275, 258]
  · have hs : ¬ Sends env m := fun hs => hs.1 hcode
    simp only [List.mem_cons, List.not_mem_nil, or_false] at hcode
    refine ⟨createSession, ?_⟩
    by_cases h1 : m.commandCode = 257 ∨ m.commandCode = 280 ∨ m.commandCode = 282
    · simp [h1, hs]
    · have h2 : m.commandCode = 274 ∨ m.commandCode = 275 ∨ m.commandCode = 258 := by tauto
      simp [h1, h2, hs]
  have hcode' := hcode
  simp only [List.mem_cons, List.not_mem_nil, or_false, not_or] at hcode'
  obtain ⟨c1, c2, c3, c4, c5, c6⟩ := hcode'
  simp only [c1, c2, c3, c4, c5, c6, or_self, if_false]
  cases hreq : isReq m with
  | false => exact ⟨createSession, by simp [Sends, hreq]⟩
  | true =>
      have hseq := hh.list.avpSeq_eq.trans hh.seq
      cases hbuf : env.bufMem with
      | false =>
          obtain ⟨as, has, -⟩ := avpsOf_of_avpSeq hseq
          refine ⟨createSession, ?_⟩
          simp [aaaBuildMsgBuffer, has, buildRc, Sends, hbuf]
      | true =>
          simp only [aaaBuildMsgBuffer_eq hseq hroom, Res.ok_bind, buildRc]
          cases htrans : env.transMem with
          | false => exact ⟨createSession, by simp [Sends, htrans]⟩
          | true =>
              obtain ⟨s, hgo, x, hback⟩ := createSession_sends m
              simp only [sentMsg] at hgo hback ⊢
              cases hsent : env.sent with
              | false => exact ⟨x.2, by simp [Sends, hsent, hgo, hback]⟩
              | true =>
                  have hs : Sends env m := ⟨hcode, hreq, hbuf, htrans, hsent⟩
                  exact ⟨s, by simp [hs, hgo]⟩

theorem length_nextSID (aaaIdentity : List UInt8) (mgr : SesMgr) (rand : UInt32) :
    (mgr.nextSID aaaIdentity rand).length ≤ aaaIdentity.length + 49
      ∧ mgr.nextSID aaaIdentity rand ≠ [] := by
  have hhi := length_decText mgr.sIDHigh
  have hlo := length_decText mgr.sIDLow
  have hrand := length_hexText rand
  have hcode := length_hexText (mgr.nextHash aaaIdentity rand)
  have hlabel := length_hexText (mgr.sesTable.nextLabel (mgr.nextHash aaaIdentity rand))
  constructor
  · simp only [SesMgr.nextSID, sessionIDHead, sessionIDTail, List.length_append, List.length_cons,
      List.length_nil]
    omega
  · simp [SesMgr.nextSID, sessionIDTail]

/-- There is room for the AVPs in front. -/
theorem encLen_requestAvps (x : Incoming cfg) {sid : List UInt8}
    (hsid : sid.length ≤ cfg.aaaIdentity.length + 49) (acc : Bool) :
    encLen (requestAvps cfg sid acc x.vs) < 2 ^ 32 := by
  have hpad : ∀ n, padLen n ≤ 3 := by
    intro n
    unfold padLen
    split <;> omega
  have h1 := hpad sid.length
  have h2 := hpad appId1.length
  have h3 := hpad cfg.aaaIdentity.length
  have h4 := hpad cfg.aaaRealm.length
  have happ : appId1.length = 1 := rfl
  have hfits := x.fits
  have hid : avpHdrSize (setAvpFields 263 0).1 = 8 := by decide
  have hhost : avpHdrSize (setAvpFields 264 0).1 = 8 := by decide
  have hrealm : avpHdrSize (setAvpFields 296 0).1 = 8 := by decide
  have hacc : avpHdrSize (setAvpFields (if acc then 259 else 258) 0).1 = 8 := by
    cases acc <;> rfl
  simp only [encLen, encAvps, requestAvps, List.flatMap_cons, List.length_append, length_encAvp,
    hacc, hid, hhost, hrealm] at hfits ⊢
  omega

end Message

/-! ## A round -/

section Round

variable {cfg : SipCfg} {env : HandleEnv} {w w' : SipClient}

instance {x : Incoming cfg} : Decidable (Starts env x) := inferInstanceAs (Decidable (_ ∧ _))

/-- The client with one more context, or with the place it had. -/
def SipClient.withCtx (w : SipClient) (ctx : Option CtxEntry) : SipClient :=
  { w with ctxs := w.ctxs ++ [ctx] }

theorem setCtx_withCtx (w : SipClient) (o : Option CtxEntry) (ctx : CtxEntry) :
    (w.withCtx o).setCtx w.ctxs.length ctx = w.withCtx (some ctx) := by
  simp [SipClient.setCtx, SipClient.withCtx]

theorem freeCtx_withCtx (w : SipClient) (o : Option CtxEntry) :
    (w.withCtx o).freeCtx w.ctxs.length = w.withCtx none := by
  simp [SipClient.freeCtx, SipClient.withCtx]

/-- A round that started no session: a context was allocated and is gone again. -/
structure Undone (w w' : SipClient) : Prop where
  table : w'.mgr.sesTable = w.mgr.sesTable
  nextSes : w.mgr.nextSes ≤ w'.mgr.nextSes
  context : w'.context = w.context
  ctxs : ∀ c < w.ctxs.length, w'.ctxs[c]? = w.ctxs[c]?

/-- A round that started a session: its context is there at the end, or it is not. -/
structure Begun (aaaIdentity : List UInt8) (sock : Nat) (done : Bool) (w w' : SipClient) :
    Prop where
  mgr : ∃ rand, w'.mgr = w.mgr.begun aaaIdentity rand
  context : w'.context = Function.update w.context w.mgr.nextSes (some w.ctxs.length)
  ctxs : ∀ c < w.ctxs.length, w'.ctxs[c]? = w.ctxs[c]?
  ctx : ∃ ctx, ctx.inPort = sock
    ∧ w'.ctxs[w.ctxs.length]? = some (if done then some ctx else none)

theorem Undone.withCtx {mgr : SesMgr} (htable : mgr.sesTable = w.mgr.sesTable)
    (hnext : w.mgr.nextSes ≤ mgr.nextSes) (o : Option CtxEntry) :
    Undone w (({ w with mgr } : SipClient).withCtx o) :=
  ⟨htable, hnext, rfl, fun _ hc => List.getElem?_append_left hc⟩

/-- A session is started if there is memory for it and its id. -/
theorem startSession_cases (aaaIdentity : List UInt8) (mgr : SesMgr) (env : StartEnv) :
    (¬ (env.sesMem = true ∧ env.sidMem = true) →
        ∃ mgr', mgr.aaaStartSession aaaIdentity env = .ok mgr' ∧ mgr'.sesTable = mgr.sesTable
          ∧ mgr.nextSes ≤ mgr'.nextSes ∧ mgr'.started = mgr.started)
      ∧ (env.sesMem = true ∧ env.sidMem = true →
        mgr.aaaStartSession aaaIdentity env = .ok (mgr.begun aaaIdentity env.rand)) := by
  rw [SesMgr.aaaStartSession_eq]
  cases hses : env.sesMem with
  | false => exact ⟨fun _ => ⟨_, rfl, rfl, Nat.le_refl _, rfl⟩, fun h => absurd h.1 (by simp)⟩
  | true =>
      cases hsid : env.sidMem with
      | false => exact ⟨fun _ => ⟨_, rfl, rfl, Nat.le_succ _, rfl⟩, fun h => absurd h.2 (by simp)⟩
      | true => exact ⟨fun h => absurd ⟨rfl, rfl⟩ h, fun _ => rfl⟩

/-- From the start of the session on. -/
theorem startAndSend_cases (env : HandleEnv) (x : Incoming cfg) (w : SipClient) {ctx : CtxEntry}
    (hctx : ctx.inPort = x.sock) (acc : Bool) :
    (¬ (env.start.sesMem = true ∧ env.start.sidMem = true) →
        ∃ w', startAndSend cfg env x.h x.m w.ctxs.length acc (w.withCtx (some ctx)) = .ok (false, w')
          ∧ Undone w w')
      ∧ (env.start.sesMem = true ∧ env.start.sidMem = true →
        ∃ w', startAndSend cfg env x.h x.m w.ctxs.length acc (w.withCtx (some ctx))
            = .ok (decide (Updates cfg env ∧ Sends env x.m), w')
          ∧ Begun cfg.aaaIdentity x.sock (decide (Updates cfg env ∧ Sends env x.m)) w w') := by
  obtain ⟨hold, hnew⟩ := startSession_cases cfg.aaaIdentity w.mgr env.start
  have hmgr : (w.withCtx (some ctx)).mgr = w.mgr := rfl
  unfold startAndSend
  rw [hmgr]
  constructor
  · intro hno
    obtain ⟨mgr, hstart, htable, hnext, hsame⟩ := hold hno
    rw [hstart, Res.ok_bind, hsame, List.getElem?_eq_none (Nat.le_refl _)]
    exact ⟨_, congrArg (fun w => Res.ok (false, w)) (freeCtx_withCtx { w with mgr } _),
      Undone.withCtx htable hnext none⟩
  · intro hmem
    have hlast : (w.mgr.begun cfg.aaaIdentity env.start.rand).started[w.mgr.started.length]?
        = some ⟨w.mgr.nextSes, w.mgr.nextSID cfg.aaaIdentity env.start.rand⟩ := by
      simp [SesMgr.begun]
    obtain ⟨hlen, hne⟩ := length_nextSID cfg.aaaIdentity w.mgr env.start.rand
    obtain ⟨h', m', hup, hmade⟩ := @updateMessage_eq cfg env _ _ _ _ x.holds _ hne acc
    rw [hnew hmem, Res.ok_bind, hlast]
    simp only [hup, Res.ok_bind]
    by_cases hu : Updates cfg env
    · obtain ⟨ids', hh', hhdr⟩ := hmade hu
      obtain ⟨s, hsend⟩ := @aaaSendMessage_eq env _ _ _ _ hh' (encLen_requestAvps x hlen acc)
      have hsame : Sends env m' ↔ Sends env x.m := by
        simp only [Message.header, Prod.mk.injEq] at hhdr
        rw [Sends, Sends, isReq, isReq, hhdr.1, hhdr.2.1]
      have hses : ((w.withCtx (some ctx)).newSes (w.mgr.begun cfg.aaaIdentity env.start.rand)
          w.mgr.nextSes w.ctxs.length).ses w.mgr.nextSes = createSession :=
        Function.update_self _ _ _
      simp only [decide_eq_true hu, Bool.true_eq_false, if_false, hses, hsend, Res.ok_bind, hsame]
      by_cases hs : Sends env x.m
      · refine ⟨_, by simp [hu, hs]; rfl, ⟨⟨_, rfl⟩, rfl, fun c hc => ?_, ctx, hctx, ?_⟩⟩
        · exact List.getElem?_append_left hc
        · simp [hu, hs, SipClient.withCtx, SipClient.newSes, SipClient.setSes]
      · refine ⟨_, by simp [hs]; rfl, ⟨⟨_, rfl⟩, rfl, fun c hc => ?_, ctx, hctx, ?_⟩⟩
        · simp [SipClient.withCtx, SipClient.newSes, SipClient.setSes, SipClient.freeCtx,
            List.getElem?_append_left hc]
        · simp [hs, SipClient.withCtx, SipClient.newSes, SipClient.setSes, SipClient.freeCtx]
    · refine ⟨_, by simp [hu]; rfl, ⟨⟨_, rfl⟩, rfl, fun c hc => ?_, ctx, hctx, ?_⟩⟩
      · simp [SipClient.withCtx, SipClient.newSes, SipClient.freeCtx,
          List.getElem?_append_left hc]
      · simp [hu, SipClient.withCtx, SipClient.newSes, SipClient.freeCtx]

/-- **A round**, by whether it gets to start a session. -/
theorem handleMessage_cases (env : HandleEnv) (x : Incoming cfg) (w : SipClient) :
    (¬ Starts env x → ∃ w', handleMessage cfg env x.sock x.h x.m w = .ok (false, w') ∧ Undone w w')
      ∧ (Starts env x → ∃ w', handleMessage cfg env x.sock x.h x.m w
          = .ok (decide (Updates cfg env ∧ Sends env x.m), w')
        ∧ Begun cfg.aaaIdentity x.sock (decide (Updates cfg env ∧ Sends env x.m)) w w') := by
  have hfind : ∀ code : UInt32, (∃ i, aaaFindMatchingAVP x.h x.m none code 0 .forward = .ok (some i)
        ∧ (∃ a, x.h.cells[i]? = some a) ∧ ∃ i ∈ x.ids, x.h.isAvp code 0 i = true)
      ∨ (aaaFindMatchingAVP x.h x.m none code 0 .forward = .ok none
        ∧ ¬ ∃ i ∈ x.ids, x.h.isAvp code 0 i = true) := by
    intro code
    rw [aaaFindMatchingAVP_eq x.holds.list]
    cases hf : (met x.ids none .forward).find? (x.h.isAvp code 0) with
    | none =>
        refine .inr ⟨rfl, ?_⟩
        rintro ⟨i, hi, hm⟩
        exact List.find?_eq_none.mp hf i hi hm
    | some i =>
        have hm := List.find?_some hf
        obtain ⟨a, ha, -⟩ := isAvp_iff.mp hm
        exact .inl ⟨i, rfl, ⟨a, ha⟩, i, List.mem_of_find?_eq_some hf, hm⟩
  have hfreed : ∀ o, ∃ w', (w.withCtx o).freeCtx w.ctxs.length = w' ∧ Undone w w' := fun o =>
    ⟨_, freeCtx_withCtx w o, Undone.withCtx rfl (Nat.le_refl _) none⟩
  unfold handleMessage
  cases hctx : env.ctxMem with
  | false =>
      refine ⟨fun _ => ⟨w, rfl, rfl, Nat.le_refl _, rfl, fun _ _ => rfl⟩, fun hs => ?_⟩
      exact absurd (hctx.symm.trans hs.1) (by simp)
  | true =>
      simp only [Bool.true_eq_false, if_false, show w.newCtx x.sock
        = w.withCtx (some ⟨x.sock, 0, 0⟩) from rfl]
      rcases hfind avpSipMsgId with ⟨i, hi, ⟨a, ha⟩, hid⟩ | ⟨hi, hid⟩
      · rw [hi, Res.ok_bind]
        simp only [ha, Res.ofAccess_some, Res.ok_bind, setCtx_withCtx]
        rcases hfind avpServiceType with ⟨k, hk, ⟨b, hb⟩, hsvc⟩ | ⟨hk, hsvc⟩
        · rw [hk, Res.ok_bind]
          simp only [hb, Res.ofAccess_some, Res.ok_bind]
          obtain ⟨hno, hyes⟩ := @startAndSend_cases cfg env x w ⟨x.sock, _, _⟩ rfl
            (decide (dataByte env b 0 = sipAccService))
          exact ⟨fun hs => hno fun hmem => hs ⟨hctx, hmem.1, hmem.2, hid, hsvc⟩,
            fun hs => hyes ⟨hs.2.1, hs.2.2.1⟩⟩
        · rw [hk, Res.ok_bind]
          obtain ⟨w', hw', hun⟩ := hfreed (some ⟨x.sock, 0, _⟩)
          exact ⟨fun _ => ⟨w', congrArg (fun w => Res.ok (false, w)) hw', hun⟩,
            fun hs => absurd hs.2.2.2.2 hsvc⟩
      · rw [hi, Res.ok_bind]
        obtain ⟨w', hw', hun⟩ := hfreed (some ⟨x.sock, 0, 0⟩)
        exact ⟨fun _ => ⟨w', congrArg (fun w => Res.ok (false, w)) hw', hun⟩,
          fun hs => absurd hs.2.2.2.1 hid⟩

/-- What holds of a client whose rounds had no late failure. -/
structure SipClient.Kept (w : SipClient) : Prop where
  numbered : ∀ ses, w.Live ses → ses < w.mgr.nextSes
  freed : w.NoneFreed

theorem live_iff_of_table (h : w'.mgr.sesTable = w.mgr.sesTable) (ses : Nat) :
    w'.Live ses ↔ w.Live ses := by
  rw [SipClient.Live, SipClient.Live, h]

/-- A context that is there stays if no round frees it. -/
theorem SipClient.Kept.context (h : w.Kept) (hctxs : ∀ c < w.ctxs.length, w'.ctxs[c]? = w.ctxs[c]?)
    {ses : Nat} (hlive : w.Live ses) :
    ∃ c ctx, w.context ses = some c ∧ w'.ctxs[c]? = some (some ctx) := by
  obtain ⟨c, ctx, hc, hget⟩ := h.freed ses hlive
  exact ⟨c, ctx, hc, (hctxs c (List.getElem?_eq_some_iff.mp hget).1).trans hget⟩

theorem Undone.kept (hu : Undone w w') (h : w.Kept) : w'.Kept := by
  refine ⟨fun ses hl => ?_, fun ses hl => ?_⟩
  · exact Nat.lt_of_lt_of_le (h.numbered ses ((live_iff_of_table hu.table ses).mp hl)) hu.nextSes
  · rw [hu.context]
    exact h.context hu.ctxs ((live_iff_of_table hu.table ses).mp hl)

section

variable {aaaIdentity : List UInt8} {sock : Nat} {done : Bool}

/-- The session that was started is in the table, behind those that were there. -/
theorem Begun.live_iff (hb : Begun aaaIdentity sock done w w') (ses : Nat) :
    w'.Live ses ↔ w.Live ses ∨ ses = w.mgr.nextSes := by
  obtain ⟨rand, hmgr⟩ := hb.mgr
  simp only [SipClient.Live, hmgr, SesMgr.begun, HTable.addCell, List.mem_append,
    List.mem_singleton]
  constructor
  · rintro ⟨l, hl | rfl, rfl⟩
    · exact .inl ⟨l, hl, rfl⟩
    · exact .inr rfl
  · rintro (⟨l, hl, rfl⟩ | rfl)
    · exact ⟨l, .inl hl, rfl⟩
    · exact ⟨_, .inr rfl, rfl⟩

theorem Begun.kept (hb : Begun aaaIdentity sock true w w') (h : w.Kept) : w'.Kept := by
  have hnext : w'.mgr.nextSes = w.mgr.nextSes + 1 := by
    obtain ⟨rand, hmgr⟩ := hb.mgr
    rw [hmgr]
    rfl
  refine ⟨fun ses hl => ?_, fun ses hl => ?_⟩
  · rcases (hb.live_iff ses).mp hl with hl | rfl
    · have := h.numbered ses hl
      omega
    · omega
  · rw [hb.context]
    rcases (hb.live_iff ses).mp hl with hl | rfl
    · rw [Function.update_of_ne (Nat.ne_of_lt (h.numbered ses hl))]
      exact h.context hb.ctxs hl
    · obtain ⟨ctx, -, hget⟩ := hb.ctx
      exact ⟨w.ctxs.length, ctx, Function.update_self _ _ _, hget⟩

end

theorem kept_of_runs (h : SipClient.Runs cfg w) : w.Kept := by
  refine Reach.invariant ?_ ?_ h
  · rintro _ ⟨lo, hi, nextLabel, rfl⟩
    have hnone : ∀ ses, ¬ (SipClient.init lo hi nextLabel).Live ses := by
      rintro ses ⟨l, hl, -⟩
      exact absurd hl (by simp [SipClient.init, SesMgr.init, buildHtable])
    exact ⟨fun ses hl => absurd hl (hnone ses), fun ses hl => absurd hl (hnone ses)⟩
  · intro w a w' hk hok hs
    cases a with
    | receive env x =>
        have hok : NoLateFailure env x := hok
        obtain ⟨hno, hyes⟩ := handleMessage_cases env x w
        by_cases hst : Starts env x
        · obtain ⟨w₁, hrun, hb⟩ := hyes hst
          rw [decide_eq_true (hok hst)] at hb
          simp only [SipClient.step, hrun, Res.toOption, Option.map_some, Option.some.injEq] at hs
          exact hs ▸ hb.kept hk
        · obtain ⟨w₁, hrun, hu⟩ := hno hst
          simp only [SipClient.step, hrun, Res.toOption, Option.map_some, Option.some.injEq] at hs
          exact hs ▸ hu.kept hk
    | finish ses statefull =>
        simp only [SipClient.step] at hs
        split at hs
        · obtain rfl := Option.some.inj hs
          have hsub : ∀ t, ({ w with mgr := w.mgr.aaaEndSession ses statefull } : SipClient).Live t →
              w.Live t := by
            rintro t ⟨l, hl, hpay⟩
            exact ⟨l, (SesMgr.aaaEndSession_cells w.mgr ses statefull).subset hl, hpay⟩
          exact ⟨fun t ht => hk.numbered t (hsub t ht), fun t ht => hk.freed t (hsub t ht)⟩
        · exact absurd hs (by simp)

/-- After a late failure the session is still there. -/
theorem late_failure_not_right (hk : w.Kept) {x : Incoming cfg} (hst : Starts env x)
    (hbad : ¬ (Updates cfg env ∧ Sends env x.m)) :
    ¬ HandledRight w x.sock (handleMessage cfg env x.sock x.h x.m w) := by
  obtain ⟨w', hrun, hb⟩ := (handleMessage_cases env x w).2 hst
  have hnew : ¬ w.Live w.mgr.nextSes := fun hl => Nat.lt_irrefl _ (hk.numbered _ hl)
  have hlive : w'.Live w.mgr.nextSes := (hb.live_iff _).mpr (.inr rfl)
  rw [decide_eq_false hbad] at hrun
  rintro ⟨ok, w₁, hrun₁, -, hfail, -⟩
  obtain ⟨rfl, rfl⟩ := Prod.mk.inj (Res.ok.inj (hrun.symm.trans hrun₁))
  exact hnew (hfail rfl _ hlive)

/--
**What a round leaves behind** is right exactly when nothing fails once the session is started,
after any rounds of which this holds; and in such a run no live session loses its context.
-/
theorem handleMessage_right_iff (h : SipClient.Runs cfg w) :
    w.NoneFreed ∧ ∀ env (x : Incoming cfg),
      HandledRight w x.sock (handleMessage cfg env x.sock x.h x.m w) ↔ NoLateFailure env x := by
  have hk := kept_of_runs h
  refine ⟨hk.freed, fun env x => ?_⟩
  obtain ⟨hno, hyes⟩ := handleMessage_cases env x w
  by_cases hst : Starts env x
  · obtain ⟨w', hrun, hb⟩ := hyes hst
    have hnew : ¬ w.Live w.mgr.nextSes := fun hl => Nat.lt_irrefl _ (hk.numbered _ hl)
    have hlive : w'.Live w.mgr.nextSes := (hb.live_iff _).mpr (.inr rfl)
    by_cases hgood : Updates cfg env ∧ Sends env x.m
    · rw [decide_eq_true hgood] at hrun hb
      refine iff_of_true ?_ fun _ => hgood
      obtain ⟨ctx, hsock, hget⟩ := hb.ctx
      refine ⟨true, w', hrun, (hb.kept hk).freed, fun hf => absurd hf (by simp), fun _ => ?_⟩
      refine ⟨w.mgr.nextSes, w.ctxs.length, ctx, ⟨hlive, hnew⟩, fun t ht hold => ?_, ?_, hget, hsock⟩
      · exact ((hb.live_iff t).mp ht).resolve_left hold
      · rw [hb.context, Function.update_self]
    · exact iff_of_false (late_failure_not_right hk hst hgood) fun hn => hgood (hn hst)
  · obtain ⟨w', hrun, hu⟩ := hno hst
    refine iff_of_true ?_ fun h' => absurd h' hst
    exact ⟨false, w', hrun, (hu.kept hk).freed,
      fun _ ses hl => (live_iff_of_table hu.table ses).mp hl, fun hf => absurd hf (by simp)⟩

end Round

/-! ## A request and what becomes of it -/

def sampleCfg : SipCfg := ⟨ascii "aaa://c", ascii "r"⟩

/-- Everything goes well, unless no peer is there. -/
def peerEnv (sent : Bool) : HandleEnv where
  ctxMem := true
  start := ⟨true, true, fun _ => 0, 7⟩
  avpMem := fun _ => ⟨true, true⟩
  bufMem := true
  transMem := true
  sent := sent
  behind := fun _ => 0

/-- An authorisation request with the service type and the message id of the SIP server. -/
def sampleRequest : Message :=
  { Message.zero with flags := 0x80, commandCode := 265, head := some 0, tail := some 1 }

def sampleRequestHeap : Heap :=
  ⟨[⟨some 1, none, avpServiceType, 0, .data, 0, ⟨[54], 0, 1⟩, false⟩,
    ⟨none, some 0, avpSipMsgId, 0, .data, 0, ⟨[1, 0, 0, 0], 0, 4⟩, false⟩]⟩

def sampleIncoming : Incoming sampleCfg where
  sock := 9
  h := sampleRequestHeap
  m := sampleRequest
  ids := [0, 1]
  vs := [⟨avpServiceType, 0, 0, [54]⟩, ⟨avpSipMsgId, 0, 0, [1, 0, 0, 0]⟩]
  holds := ⟨⟨⟨by decide, ⟨rfl, rfl, rfl⟩, ⟨rfl, rfl, rfl⟩⟩, by decide⟩, rfl⟩
  fits := by decide

def freshClient : SipClient := .init 0 0 fun _ => 0

theorem runs_fresh : SipClient.Runs sampleCfg freshClient := .init ⟨0, 0, _, rfl⟩

theorem handleMessage_right_sample :
    HandledRight freshClient 9
      (handleMessage sampleCfg (peerEnv true) 9 sampleRequestHeap sampleRequest freshClient) :=
  ((handleMessage_right_iff runs_fresh).2 (peerEnv true) sampleIncoming).mpr fun _ =>
    ⟨⟨by decide, by decide, fun _ _ => rfl⟩, by decide, by decide, rfl, rfl, rfl⟩

/-- No peer takes the request: its session stays, and the context is gone. -/
theorem session_without_context :
    ¬ HandledRight freshClient 9
      (handleMessage sampleCfg (peerEnv false) 9 sampleRequestHeap sampleRequest freshClient) :=
  @late_failure_not_right sampleCfg (peerEnv false) freshClient (kept_of_runs runs_fresh)
    sampleIncoming ⟨rfl, rfl, rfl, ⟨1, by decide, by decide⟩, 0, by decide, by decide⟩
    fun h => absurd h.2.2.2.2.2 (by decide)

end Disc.SipAuth
