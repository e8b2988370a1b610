import Disc.Transport.HashTable
import Disc.Transport.Read
import Disc.Transport.Wire

/-!
# A peer and its state machine

`struct peer` and the functions of `peer.c` that act on it. A `World` is one peer
together with what these functions read and write outside of it: the command pipe
of its receive thread, the timer lists its links can be in, the descriptor sets
of the thread, the sockets the kernel has handed out, the clock.

The number of the next socket is a field, and counted up, so that in the run of one
peer a number names one TCP connection. The kernel gives numbers out again; what
comes of that is said of a `Thread`, where the peers are put together and the number
of each new socket is any that is not open.

A few fields are there only to talk about runs. `resets` counts the calls of
`reset_peer`; `ceLog` and `writes` remember what was exchanged on which
connection; a command, a transaction or a timer link remembers the connection it
was made for; `bugTimer` is raised where `add_to_timer_list` finds its link
already linked. No function of the source reads them.

The handlers run under the mutex of the peer, so each of them is one step. What
the environment decides in it (allocations, the outcome of a `write`) comes in
through an `Env`.
-/

namespace Disc.Transport

open Disc.Lib Disc.Msg

/-! ## Data -/

/-- `AAA_PEER_STATE`. -/
inductive PeerState where
  | unconn | conn | error | waitCer | waitCea | waitDwa | waitDpa
deriving Repr, DecidableEq

/-- `PEER_TO_DESTROY`. -/
def peerToDestroy : UInt8 := 1

/-- `PEER_CONN_IN_PROG`. -/
def peerConnInProg : UInt8 := 2

/-- The two timer lists the link of a peer can be in. -/
inductive TimerList where
  | reconn | waitCer
deriving Repr, DecidableEq

/-- `p->tl` while it is in a list. -/
structure TimerLink where
  list : TimerList
  timeout : Nat
  /-- The connection the timer was started for. -/
  sock : Option Nat
deriving Repr, DecidableEq

/-- What a command or a transaction was made for: the connection, and how many resets came before. -/
structure Origin where
  sock : Option Nat
  resets : Nat
deriving Repr, DecidableEq

/-- A command in the pipe. The `fd` of a `TIMEOUT_PEER_CMD` is an event, its `attrs` the event's argument. -/
inductive Cmd where
  | addPeer
  | connect
  | accepted (sock : Nat)
  | inactivity
  | close (o : Origin)
  | reconnTimeout
  | cerTimeout (sock : Option Nat)
  | trTimeout (info : UInt32) (o : Origin)
deriving Repr, DecidableEq

/-- What a write was made for: a message of this layer, or one of the workers'. -/
inductive WriteKind where
  | req (code : Nat)
  | ans (code : Nat) (resCode : UInt32)
  | request
  | response
deriving Repr, DecidableEq

/-- `struct trans`, as far as the peer's functions use it. -/
structure Trans where
  /-- Its address. -/
  id : Nat
  inPeer : Option Nat
  origHopbyhopId : UInt32
  info : UInt32
  /-- `timeout_f` is `peer_trans_timeout_f`: the transaction of a CER, DWR or DPR. -/
  internal : Bool
  /-- The command code of its request. -/
  reqCode : Nat
  origin : Origin
deriving Repr, DecidableEq

/-- A successful `process_ce`: the message, and what was stored of it. -/
structure CeEntry where
  sock : Option Nat
  isReq : Bool
  buf : List UInt8
  caps : Caps
deriving Repr, DecidableEq

/-- A `write` on a socket and the bytes that went out. -/
structure WriteRec where
  sock : Option Nat
  kind : WriteKind
  bytes : List UInt8
  /-- All of the buffer was written. -/
  whole : Bool
deriving Repr, DecidableEq

/-- One peer and its surroundings. -/
structure World where
  /-- `p->state`. -/
  state : PeerState
  /-- `p->flags`. -/
  flags : UInt8
  /-- `p->sock`, absent when it is -1. -/
  sock : Option Nat
  /-- `p->tl`, absent while `timer_list` is null. -/
  tl : Option TimerLink
  /-- `p->lh` is linked in `activ_peers`. -/
  inActiv : Bool
  /-- `p->last_activ_time`. -/
  lastActivTime : Nat
  /-- `p->conn_cnt`. -/
  connCnt : UInt32
  /-- `p->endtoendID`. -/
  endtoendID : UInt32
  /-- `p->local_ip`. -/
  localIp : IpAddr
  /-- `p->first_4bytes`, `p->buf`, `p->buf_len`. -/
  rb : ReadBuf
  /-- `p->supp_auth_app_ids`, `p->supp_acct_app_ids`, `p->aaa_realm`. -/
  caps : Caps
  /-- `p->trans_table`. -/
  table : HTable Trans
  /-- The links of this peer's transactions in `tr_timeout_timer`, with their deadlines. -/
  trTimer : List (Nat × Nat)
  /-- Commands for this peer in the pipe of its receive thread. -/
  pipe : List Cmd
  /-- `jiffies`. -/
  jiffies : Nat
  /-- `rd_set` of the receive thread. -/
  rdSet : List Nat
  /-- `wr_set` of the receive thread. -/
  wrSet : List Nat
  /-- Open sockets. -/
  opened : List Nat
  /-- The number the next socket gets. -/
  nextSock : Nat
  /-- The address the next transaction gets. -/
  nextTrans : Nat
  /-- Session messages from this peer waiting for a worker. -/
  queue : List (List UInt8)
  /-- Calls of `reset_peer` so far. -/
  resets : Nat
  /-- Successful calls of `process_ce`, with the connection they were made on. -/
  ceLog : List CeEntry
  /-- Everything written. -/
  writes : List WriteRec
  /-- `add_to_timer_list` met a link that was in a list already. -/
  bugTimer : Bool

/-- `RECONN_TIMEOUT`. -/
def reconnTimeout : Nat := 120

/-- `WAIT_CER_TIMEOUT`. -/
def waitCerTimeout : Nat := 10

/-- `SEND_DWR_TIMEOUT`. -/
def sendDwrTimeout : Nat := 35

/-- `TR_TIMEOUT_TIMEOUT`. -/
def trTimeoutTimeout : Nat := 10

/-- What `write` returns: a number of bytes (a call that was interrupted is repeated), or -1. -/
inductive WriteRes where
  | wrote (n : Nat)
  | failed
deriving Repr, DecidableEq

/-- What the environment decides in one handler. -/
structure Env where
  /-- `shm_malloc` of the message to send. -/
  msgMem : Bool
  /-- `shm_malloc` of its transaction. -/
  trMem : Bool
  ceMem : CeMem
  write : WriteRes
deriving Repr, DecidableEq

/-! ## Timers, pipe and sockets -/

namespace World

/-- `write_command` to the receive thread of this peer. -/
def command (w : World) (c : Cmd) : World := { w with pipe := w.pipe ++ [c] }

/-- `add_to_timer_list( &(p->tl), l, timeout)`. -/
def addToTimerList (w : World) (l : TimerList) (timeout : Nat) : World :=
  match w.tl with
  | some _ => { w with bugTimer := true }
  | none => { w with tl := some { list := l, timeout, sock := w.sock } }

/-- `rmv_from_timer_list( &(p->tl), l)`. -/
def rmvFromTimerList (w : World) (l : TimerList) : World :=
  match w.tl with
  | some t => if t.list = l then { w with tl := none } else w
  | none => w

/-- `close(s)`. -/
def closeSock (w : World) (s : Option Nat) : World :=
  { w with opened := w.opened.filter (fun x => some x ≠ s) }

/-- `tcp_close`. -/
def tcpClose (w : World) : World :=
  { w.closeSock w.sock with
    rdSet := w.rdSet.filter (fun x => some x ≠ w.sock)
    wrSet := w.wrSet.filter (fun x => some x ≠ w.sock) }

/--
`reset_peer`. The test for `PEER_TO_DESTROY` reads `!p->flags&PEER_TO_DESTROY`,
which is true exactly when no flag at all is set.
-/
def resetPeer (w : World) : World :=
  let w := w.rmvFromTimerList .waitCer
  let w := w.rmvFromTimerList .reconn
  let w := { w with sock := none, flags := w.flags &&& peerToDestroy }
  let w := if w.flags = 0 then w.addToTimerList .reconn (w.jiffies + reconnTimeout) else w
  { w with
    inActiv := false
    rb := .empty
    caps := { w.caps with suppAuthAppIds := none, suppAcctAppIds := none, realm := none }
    connCnt := w.connCnt + 1
    resets := w.resets + 1 }

/-- The three lines most handlers end a connection with. -/
def closeAndReset (w : World) : World := { w.tcpClose.resetPeer with state := .unconn }

/-! ## Sending -/

/-- `safe_write`, and whether it returned -1. A short write counts as success here. -/
def safeWrite (w : World) (r : WriteRes) (k : WriteKind) (buf : List UInt8) : Bool × World :=
  let fail : World := { w with state := .error }
  match r with
  | .failed => (false, fail.command (.close ⟨w.sock, w.resets⟩))
  | .wrote n =>
      let w' := { w with writes := w.writes ++ [⟨w.sock, k, buf.take n, buf.length ≤ n⟩] }
      if buf.length ≤ n then (true, w')
      else (true, { w' with state := .error }.command (.close ⟨w.sock, w.resets⟩))

/-- The hash of an end-to-end identifier. -/
def eteHash (w : World) (ete : UInt32) : UInt32 := hash (le 4 ete.toNat) w.table.hashSize

/-- Link a new transaction into the hash table and the timer list; its label is returned. -/
def startTrans (w : World) (ete : UInt32) (tr : Trans) : UInt32 × World :=
  let (label, table) := w.table.addCell (w.eteHash ete) tr
  (label,
   { w with
     table
     trTimer := w.trTimer ++ [(tr.id, w.jiffies + trTimeoutTimeout)]
     nextTrans := w.nextTrans + 1 })

/-- `internal_send_request`; the code of the request is remembered with its transaction. -/
def internalSendRequest (w : World) (env : Env) (code : Nat) (buf : List UInt8) : Bool × World :=
  if !env.trMem then (false, w)
  else
    let ete := w.endtoendID
    let w := { w with endtoendID := w.endtoendID + 1 }
    let buf := setWord buf 4 (le 4 ete.toNat)
    let (label, w) := w.startTrans ete
      { id := w.nextTrans, inPeer := none, origHopbyhopId := 0, info := w.connCnt,
        internal := true, reqCode := code, origin := ⟨w.sock, w.resets⟩ }
    let buf := setWord buf 3 (le 4 label.toNat)
    (true, (w.safeWrite env.write (.req code) buf).2)

/-- The frame of `send_cer`, `send_dwr` and `send_dpr`. -/
def sendStdReq (w : World) (cfg : Cfg) (env : Env) (code : Nat) (avps : List UInt8) :
    Bool × World :=
  if !env.msgMem then (false, w)
  else w.internalSendRequest env code (buildReq cfg code avps)

/-- `send_cer`. -/
def sendCer (w : World) (cfg : Cfg) (env : Env) : Bool × World :=
  w.sendStdReq cfg env ceMsgCode (ceAvp cfg w.localIp)

/-- `send_dwr`. -/
def sendDwr (w : World) (cfg : Cfg) (env : Env) : Bool × World :=
  w.sendStdReq cfg env dwMsgCode []

/-- `send_dpr`. -/
def sendDpr (w : World) (cfg : Cfg) (env : Env) (cause : UInt32) : Bool × World :=
  w.sendStdReq cfg env dpMsgCode (dprAvp cause)

/-- The frame of `send_cea`, `send_dwa` and `send_dpa`. -/
def sendStdAns (w : World) (cfg : Cfg) (env : Env) (avps req : List UInt8) (resCode : UInt32) :
    Bool × World :=
  if !env.msgMem then (false, w)
  else w.safeWrite env.write (.ans (msgCode req) resCode) (buildAns cfg avps req resCode)

/-- `send_cea`. -/
def sendCea (w : World) (cfg : Cfg) (env : Env) (cer : List UInt8) (resCode : UInt32) :
    Bool × World :=
  w.sendStdAns cfg env (ceAvp cfg w.localIp) cer resCode

/-- `send_dwa`. -/
def sendDwa (w : World) (cfg : Cfg) (env : Env) (dwr : List UInt8) (resCode : UInt32) :
    Bool × World :=
  w.sendStdAns cfg env [] dwr resCode

/-- `send_dpa`. -/
def sendDpa (w : World) (cfg : Cfg) (env : Env) (dpr : List UInt8) (resCode : UInt32) :
    Bool × World :=
  w.sendStdAns cfg env [] dpr resCode

/-- `process_ce` on a message received on the current connection: its code, and the updated peer. -/
def runProcessCe (w : World) (cfg : Cfg) (env : Env) (buf : List UInt8) (isReq : Bool) :
    Res (UInt32 × World) := do
  let (code, caps) ← processCe cfg env.ceMem buf isReq
  match caps with
  | none => return (code, w)
  | some c => return (code, { w with caps := c, ceLog := w.ceLog ++ [⟨w.sock, isReq, buf, c⟩] })

/-! ## The state machine -/

end World

/-- `AAA_PEER_EVENT`, each with the argument it comes with. -/
inductive Event where
  | tcpAccept (sock : Nat) (localIp : IpAddr)
  | tcpConnected (sock : Nat) (localIp : IpAddr)
  | tcpConnInProg (sock : Nat)
  | tcpConnFailed
  | tcpConnClose
  | cerReceived (buf : List UInt8)
  | ceaReceived (buf : List UInt8)
  | dwrReceived (buf : List UInt8)
  | dwaReceived (buf : List UInt8)
  | dprReceived (buf : List UInt8)
  | dpaReceived (buf : List UInt8)
  | peerIsInactiv
  | peerHangup (cause : UInt32)
  | peerTrTimeout (info : UInt32)
  | peerCerTimeout
  | peerReconnTimeout
deriving Repr, DecidableEq

namespace World

/-- Events that report on TCP connections. -/
def onTcpAccept (w : World) (sock : Nat) (localIp : IpAddr) : Bool × World :=
  match w.state with
  | .unconn =>
      let w := w.rmvFromTimerList .reconn
      let w := if w.flags &&& peerConnInProg ≠ 0 then w.tcpClose else w
      let w := { w with sock := some sock, localIp }
      let w := w.addToTimerList .waitCer (w.jiffies + waitCerTimeout)
      (true, { w with state := .waitCer })
  | _ => (false, w)

/-- `p->flags &= !PEER_CONN_IN_PROG` clears every flag, since `!` makes the constant zero. -/
def onTcpConnected (w : World) (cfg : Cfg) (env : Env) (sock : Nat) (localIp : IpAddr) :
    Bool × World :=
  match w.state with
  | .unconn =>
      let w := { w with flags := 0, sock := some sock, localIp }
      match w.sendCer cfg env with
      | (true, w) => (true, { w with state := .waitCea })
      | (false, w) => (true, w.tcpClose.resetPeer)
  | _ => (false, w)

def onTcpConnInProg (w : World) (sock : Nat) : Bool × World :=
  match w.state with
  | .unconn => (true, { w with sock := some sock, flags := w.flags ||| peerConnInProg })
  | _ => (false, w)

def onTcpConnFailed (w : World) : Bool × World :=
  match w.state with
  | .unconn => (true, { w.resetPeer with state := .unconn })
  | _ => (false, w)

def onTcpConnClose (w : World) : Bool × World :=
  if w.state ≠ .unconn ∨ w.flags &&& peerConnInProg ≠ 0 then (true, w.closeAndReset)
  else (true, w)

def onPeerCerTimeout (w : World) : Bool × World :=
  match w.state with
  | .waitCer => (true, w.closeAndReset)
  | _ => (false, w)

def onPeerReconnTimeout (w : World) : Bool × World :=
  match w.state with
  | .unconn =>
      let w := if w.flags &&& peerConnInProg ≠ 0 then w.tcpClose else w
      (true, w.command .connect)
  | _ => (true, w)

def onPeerTrTimeout (w : World) (info : UInt32) : Bool × World :=
  if info ≠ w.connCnt then (true, w)
  else match w.state with
    | .waitDwa => (true, { w with inActiv := false }.closeAndReset)
    | .waitCea => (true, w.closeAndReset)
    | .waitDpa => (true, w.closeAndReset)
    | _ => (false, w)

def onCeaReceived (w : World) (cfg : Cfg) (env : Env) (buf : List UInt8) : Res (Bool × World) :=
  match w.state with
  | .waitCea => do
      let (code, w) ← w.runProcessCe cfg env buf false
      if code ≠ aaaSuccess then return (true, w.closeAndReset)
      else return (true, { w with inActiv := true, state := .conn })
  | _ => return (false, w)

def onCerReceived (w : World) (cfg : Cfg) (env : Env) (buf : List UInt8) : Res (Bool × World) :=
  let answer (w : World) : Res (Bool × World) := do
    let (res, w) ← w.runProcessCe cfg env buf true
    let (sent, w) := w.sendCea cfg env buf res
    if !sent ∨ res ≠ aaaSuccess then return (true, w.closeAndReset)
    else return (true, { w with inActiv := true, state := .conn })
  match w.state with
  | .waitCer => answer (w.rmvFromTimerList .waitCer)
  | .waitCea => answer w
  | _ => return (false, w)

def onDwrReceived (w : World) (cfg : Cfg) (env : Env) (buf : List UInt8) : Res (Bool × World) :=
  if w.state = .conn ∨ w.state = .waitDwa ∨ w.state = .waitDpa then do
    let good ← processDw buf true
    let res := if good then aaaSuccess else aaaMissingAvp
    let (sent, w) := w.sendDwa cfg env buf res
    if !sent ∨ res ≠ aaaSuccess then return (true, w.closeAndReset)
    else return (true, w)
  else return (false, w)

/-- A DWR that cannot be sent leaves the peer out of the list; the other branches put it back. -/
def onPeerIsInactiv (w : World) (cfg : Cfg) (env : Env) : Bool × World :=
  match w.state with
  | .conn =>
      if w.lastActivTime + sendDwrTimeout ≤ w.jiffies then
        match w.sendDwr cfg env with
        | (false, w) => (true, w)
        | (true, w) => (true, { w with state := .waitDwa })
      else (true, { w with inActiv := true })
  | _ => (false, { w with inActiv := true })

def onDwaReceived (w : World) (buf : List UInt8) : Res (Bool × World) :=
  match w.state with
  | .waitDwa => do
      let _ ← processDw buf false
      return (true, { w with inActiv := true, state := .conn })
  | _ => return (false, w)

def onDprReceived (w : World) (cfg : Cfg) (env : Env) (buf : List UInt8) : Res (Bool × World) :=
  if w.state = .conn ∨ w.state = .waitDwa ∨ w.state = .waitDpa then do
    let w := { w with inActiv := false }
    let good ← processDp buf true
    let res := if good then aaaSuccess else aaaMissingAvp
    let (_, w) := w.sendDpa cfg env buf res
    return (true, w.closeAndReset)
  else return (false, w)

def onDpaReceived (w : World) : Bool × World :=
  match w.state with
  | .waitDpa => (true, w.closeAndReset)
  | _ => (false, w)

def onPeerHangup (w : World) (cfg : Cfg) (env : Env) (cause : UInt32) : Bool × World :=
  match w.state with
  | .conn =>
      match { w with inActiv := false }.sendDpr cfg env cause with
      | (false, w) => (true, w.closeAndReset)
      | (true, w) => (true, { w with state := .waitDpa })
  | _ => (false, w)

/-! ## What the handlers of messages come to -/

section Received

variable {w w' : World} {cfg : Cfg} {env : Env} {buf : List UInt8} {b : Bool}

/-- A CEA that was waited for either brings the peer up or resets it. -/
theorem onCeaReceived_cases (h : w.onCeaReceived cfg env buf = .ok (b, w')) :
    (w.state ≠ .waitCea ∧ w' = w)
    ∨ ∃ code v, w.state = .waitCea ∧ w.runProcessCe cfg env buf false = .ok (code, v)
        ∧ ((code ≠ aaaSuccess ∧ w' = v.closeAndReset)
          ∨ (code = aaaSuccess ∧ w' = { v with inActiv := true, state := .conn })) := by
  unfold onCeaReceived at h
  split at h
  · rename_i hs
    obtain ⟨⟨code, v⟩, hce, hk⟩ := Res.bind_eq_ok h
    refine Or.inr ⟨code, v, hs, hce, ?_⟩
    dsimp only at hk
    by_cases hcode : code = aaaSuccess
    · rw [if_neg (by simpa using hcode)] at hk
      exact Or.inr ⟨hcode, (Prod.mk.inj (Res.ok.inj hk)).2.symm⟩
    · rw [if_pos hcode] at hk
      exact Or.inl ⟨hcode, (Prod.mk.inj (Res.ok.inj hk)).2.symm⟩
  · rename_i hne
    exact Or.inl ⟨hne, (Prod.mk.inj (Res.ok.inj h)).2.symm⟩

/-- So does a CER, once it was answered; one of the two waiting states stops its timer first. -/
theorem onCerReceived_cases (h : w.onCerReceived cfg env buf = .ok (b, w')) :
    (w.state ≠ .waitCer ∧ w.state ≠ .waitCea ∧ w' = w)
    ∨ ∃ u res v sent v', ((w.state = .waitCer ∧ u = w.rmvFromTimerList .waitCer)
          ∨ (w.state = .waitCea ∧ u = w))
        ∧ u.runProcessCe cfg env buf true = .ok (res, v) ∧ v.sendCea cfg env buf res = (sent, v')
        ∧ (((sent = false ∨ res ≠ aaaSuccess) ∧ w' = v'.closeAndReset)
          ∨ (sent = true ∧ res = aaaSuccess ∧ w' = { v' with inActiv := true, state := .conn })) := by
  have hanswer : ∀ {u : World}, (do
      let (res, w) ← u.runProcessCe cfg env buf true
      let (sent, w) := w.sendCea cfg env buf res
      if !sent ∨ res ≠ aaaSuccess then return (true, w.closeAndReset)
      else return (true, { w with inActiv := true, state := .conn }) : Res (Bool × World))
      = .ok (b, w') → ∃ res v sent v', u.runProcessCe cfg env buf true = .ok (res, v)
        ∧ v.sendCea cfg env buf res = (sent, v')
        ∧ (((sent = false ∨ res ≠ aaaSuccess) ∧ w' = v'.closeAndReset)
          ∨ (sent = true ∧ res = aaaSuccess ∧ w' = { v' with inActiv := true, state := .conn })) := by
    intro u hu
    obtain ⟨⟨res, v⟩, hce, hk⟩ := Res.bind_eq_ok hu
    dsimp only at hk
    rcases hcea : v.sendCea cfg env buf res with ⟨sent, v'⟩
    refine ⟨res, v, sent, v', hce, hcea, ?_⟩
    rw [hcea] at hk
    by_cases hbad : sent = false ∨ res ≠ aaaSuccess
    · rw [if_pos (by simpa using hbad)] at hk
      exact Or.inl ⟨hbad, (Prod.mk.inj (Res.ok.inj hk)).2.symm⟩
    · rw [if_neg (by simpa using hbad)] at hk
      obtain ⟨hsent, hres⟩ : sent = true ∧ res = aaaSuccess := by simpa using hbad
      exact Or.inr ⟨hsent, hres, (Prod.mk.inj (Res.ok.inj hk)).2.symm⟩
  unfold onCerReceived at h
  dsimp only at h
  split at h
  · rename_i hs
    obtain ⟨res, v, sent, v', hu⟩ := hanswer h
    exact Or.inr ⟨_, res, v, sent, v', Or.inl ⟨hs, rfl⟩, hu⟩
  · rename_i hs
    obtain ⟨res, v, sent, v', hu⟩ := hanswer h
    exact Or.inr ⟨_, res, v, sent, v', Or.inr ⟨hs, rfl⟩, hu⟩
  · rename_i hne hne'
    exact Or.inl ⟨hne, hne', (Prod.mk.inj (Res.ok.inj h)).2.symm⟩

/-- The states in which a DWR or a DPR is answered. -/
def Answering (w : World) : Prop := w.state = .conn ∨ w.state = .waitDwa ∨ w.state = .waitDpa

/-- A DWR is answered; the peer is reset if that fails or the DWR was not in order. -/
theorem onDwrReceived_cases (h : w.onDwrReceived cfg env buf = .ok (b, w')) :
    (¬ w.Answering ∧ w' = w)
    ∨ ∃ res sent v, w.Answering ∧ w.sendDwa cfg env buf res = (sent, v)
        ∧ (((sent = false ∨ res ≠ aaaSuccess) ∧ w' = v.closeAndReset)
          ∨ (sent = true ∧ res = aaaSuccess ∧ w' = v)) := by
  unfold onDwrReceived at h
  split at h
  · rename_i hs
    obtain ⟨good, -, hk⟩ := Res.bind_eq_ok h
    dsimp only at hk
    -- which code is sent does not matter, only whether it is success
    generalize (if good = true then aaaSuccess else aaaMissingAvp) = res at hk
    rcases hdwa : w.sendDwa cfg env buf res with ⟨sent, v⟩
    refine Or.inr ⟨res, sent, v, hs, hdwa, ?_⟩
    rw [hdwa] at hk
    by_cases hbad : sent = false ∨ res ≠ aaaSuccess
    · rw [if_pos (by simpa using hbad)] at hk
      exact Or.inl ⟨hbad, (Prod.mk.inj (Res.ok.inj hk)).2.symm⟩
    · rw [if_neg (by simpa using hbad)] at hk
      obtain ⟨hsent, hres⟩ : sent = true ∧ res = aaaSuccess := by simpa using hbad
      exact Or.inr ⟨hsent, hres, (Prod.mk.inj (Res.ok.inj hk)).2.symm⟩
  · rename_i hne
    exact Or.inl ⟨hne, (Prod.mk.inj (Res.ok.inj h)).2.symm⟩

/-- A DPR is answered, and whatever became of the answer the peer is reset. -/
theorem onDprReceived_cases (h : w.onDprReceived cfg env buf = .ok (b, w')) :
    (¬ w.Answering ∧ w' = w)
    ∨ ∃ res sent v, w.Answering
        ∧ ({ w with inActiv := false } : World).sendDpa cfg env buf res = (sent, v)
        ∧ w' = v.closeAndReset := by
  unfold onDprReceived at h
  split at h
  · rename_i hs
    obtain ⟨good, -, hk⟩ := Res.bind_eq_ok h
    exact Or.inr ⟨_, _, _, hs, rfl, (Prod.mk.inj (Res.ok.inj hk)).2.symm⟩
  · rename_i hne
    exact Or.inl ⟨hne, (Prod.mk.inj (Res.ok.inj h)).2.symm⟩

end Received

end World

/-- `peer_state_machine`, and whether it returned 1. -/
def peerStateMachine (cfg : Cfg) (env : Env) (w : World) : Event → Res (Bool × World)
  | .tcpAccept s ip => return w.onTcpAccept s ip
  | .tcpConnected s ip => return w.onTcpConnected cfg env s ip
  | .tcpConnInProg s => return w.onTcpConnInProg s
  | .tcpConnFailed => return w.onTcpConnFailed
  | .tcpConnClose => return w.onTcpConnClose
  | .cerReceived buf => w.onCerReceived cfg env buf
  | .ceaReceived buf => w.onCeaReceived cfg env buf
  | .dwrReceived buf => w.onDwrReceived cfg env buf
  | .dwaReceived buf => w.onDwaReceived buf
  | .dprReceived buf => w.onDprReceived cfg env buf
  | .dpaReceived _ => return w.onDpaReceived
  | .peerIsInactiv => return w.onPeerIsInactiv cfg env
  | .peerHangup cause => return w.onPeerHangup cfg env cause
  | .peerTrTimeout info => return w.onPeerTrTimeout info
  | .peerCerTimeout => return w.onPeerCerTimeout
  | .peerReconnTimeout => return w.onPeerReconnTimeout

end Disc.Transport
