import Disc.Lib.Run
import Disc.Transport.Peer

/-!
# The receive thread, the timers and the workers

Who calls the state machine of a peer: the receive thread of `tcp_receive.c`, which
executes the commands in its pipe and serves the sockets that are ready;
`peer_timer_handler` and `timeout_handler`, which turn expired links into commands;
the worker threads, which send requests and answers and look up transactions; and
the accept thread, which hands over new connections.

`World.step` makes one of these a step of the system. The environment chooses the
action and everything in it that the code does not control, so a run of steps is
one interleaving of all threads.
-/

namespace Disc.Transport

open Disc.Lib Disc.Msg

/-- How `connect` on a non-blocking socket returns. -/
inductive ConnectRes where
  | done | inProgress | failed
deriving Repr, DecidableEq

/-- The outcomes of the socket calls of one `tcp_connect`, `do_connect` or `tcp_accept`. -/
structure SockEnv where
  /-- `socket` succeeds. -/
  socket : Bool
  /-- `init_su` succeeds. -/
  initSu : Bool
  connect : ConnectRes
  /-- `setsockopt` and `getsockname` succeed. -/
  sockopt : Bool
  localIp : IpAddr
deriving Repr, DecidableEq

namespace World

/-- `do_connect`. -/
def doConnect (w : World) (cfg : Cfg) (env : Env) (io : SockEnv) (s : Nat) : Res World := do
  if !io.sockopt then
    let (_, w) ← peerStateMachine cfg env w .tcpConnFailed
    return w.closeSock (some s)
  else
    let (ok, w) ← peerStateMachine cfg env w (.tcpConnected s io.localIp)
    if !ok then return w.closeSock (some s)
    else return { w with rdSet := w.rdSet ++ [s] }

/-- `tcp_connect`. -/
def tcpConnect (w : World) (cfg : Cfg) (env : Env) (io : SockEnv) : Res World := do
  if !io.socket then
    let (_, w) ← peerStateMachine cfg env w .tcpConnFailed
    return w
  else
    let s := w.nextSock
    let w := { w with nextSock := w.nextSock + 1, opened := w.opened ++ [s] }
    if !io.initSu then
      let (_, w) ← peerStateMachine cfg env (w.closeSock (some s)) .tcpConnFailed
      return w
    else match io.connect with
      | .done => w.doConnect cfg env io s
      | .inProgress => do
          let (ok, w) ← peerStateMachine cfg env w (.tcpConnInProg s)
          if !ok then return w.closeSock (some s)
          else return { w with wrSet := w.wrSet ++ [s] }
      | .failed => do
          let (_, w) ← peerStateMachine cfg env (w.closeSock (some s)) .tcpConnFailed
          return w

/-- `tcp_accept`. -/
def tcpAccept (w : World) (cfg : Cfg) (env : Env) (io : SockEnv) (s : Nat) : Res World := do
  if !io.sockopt then return w.closeSock (some s)
  else
    let (ok, w) ← peerStateMachine cfg env w (.tcpAccept s io.localIp)
    if !ok then return w.closeSock (some s)
    else return { w with rdSet := w.rdSet ++ [s] }

/-- One command, taken out of the pipe by `do_receive`. -/
def execute (w : World) (cfg : Cfg) (env : Env) (io : SockEnv) : Cmd → Res World
  | .addPeer => w.tcpConnect cfg env io
  | .connect => w.tcpConnect cfg env io
  | .accepted s => w.tcpAccept cfg env io s
  | .inactivity => do return (← peerStateMachine cfg env w .peerIsInactiv).2
  | .close _ => do return (← peerStateMachine cfg env w .tcpConnClose).2
  | .reconnTimeout => do return (← peerStateMachine cfg env w .peerReconnTimeout).2
  | .cerTimeout _ => do return (← peerStateMachine cfg env w .peerCerTimeout).2
  | .trTimeout info _ => do return (← peerStateMachine cfg env w (.peerTrTimeout info)).2

/-- `transaction_lookup`: take the transaction out of the table and out of the timer list. -/
def transactionLookup (w : World) (ete hbh : UInt32) : Option (Trans × World) :=
  match w.table.cellLookupAndRemove (w.eteHash ete) hbh with
  | none => none
  | some (l, table) =>
      some (l.payload,
        { w with table, trTimer := w.trTimer.filter (fun e => e.1 ≠ l.payload.id) })

/-- `dispatch_message`. -/
def dispatchMessage (w : World) (cfg : Cfg) (env : Env) (buf : List UInt8) : Res World :=
  let w := { w with lastActivTime := w.jiffies }
  let handle (req ans : Event) : Res World :=
    if isReqBuf buf then do return (← peerStateMachine cfg env w req).2
    else match w.transactionLookup (endtoendOf buf) (hopbyhopOf buf) with
      | none => return w
      | some (_, w) => do return (← peerStateMachine cfg env w ans).2
  if msgCode buf = ceMsgCode then handle (.cerReceived buf) (.ceaReceived buf)
  else if msgCode buf = dwMsgCode then handle (.dwrReceived buf) (.dwaReceived buf)
  else if msgCode buf = dpMsgCode then handle (.dprReceived buf) (.dpaReceived buf)
  else return { w with queue := w.queue ++ [buf] }

/-- The receive thread serves a readable socket: `do_read`, and closing when that fails. -/
def serveRead (w : World) (cfg : Cfg) (env : Env) (evs : List RecvEv) (avail : List UInt8) :
    Res World := do
  let out ← doRead evs w.rb avail
  let w := { w with rb := out.rb }
  let w ← match out.msg with
    | some buf => w.dispatchMessage cfg env buf
    | none => pure w
  if out.ok then return w
  else return (← peerStateMachine cfg env w .tcpConnClose).2

/-- The receive thread serves a socket whose `connect` has finished. -/
def serveWrite (w : World) (cfg : Cfg) (env : Env) (io : SockEnv) (s : Nat) (ok : Bool) :
    Res World := do
  let w := { w with wrSet := w.wrSet.filter (· ≠ s) }
  if !ok then
    let (_, w) ← peerStateMachine cfg env (w.closeSock (some s)) .tcpConnFailed
    return w
  else w.doConnect cfg env io s

/-! ## Workers -/

/-- Can requests and answers of the workers be sent? -/
def canSend (w : World) : Bool := w.state = .conn ∨ w.state = .waitDwa

/-- `send_req_to_peer`, for the transaction of a request that came from `inPeer` or is local. -/
def sendReqToPeer (w : World) (env : Env) (inPeer : Option Nat) (origHopbyhopId : UInt32)
    (req : List UInt8) : Bool × World :=
  if !w.canSend then (false, w)
  else
    let ete := match inPeer with
      | some _ => endtoendOf req
      | none => w.endtoendID
    let w := match inPeer with
      | some _ => w
      | none => { w with endtoendID := w.endtoendID + 1 }
    let req := match inPeer with
      | some _ => req
      | none => setWord req 4 (le 4 ete.toNat)
    let (label, w) := w.startTrans ete
      { id := w.nextTrans, inPeer, origHopbyhopId, info := 0, internal := false,
        reqCode := msgCode req, origin := ⟨w.sock, w.resets⟩ }
    let req := setWord req 3 (le 4 label.toNat)
    (true, (w.safeWrite env.write .request req).2)

/-- `send_res_to_peer`. -/
def sendResToPeer (w : World) (env : Env) (buf : List UInt8) : Bool × World :=
  if w.canSend then w.safeWrite env.write .response buf else (false, w)

/-! ## Timers -/

/-- Take the link of an expired transaction out of the timer list, and the transaction out of the table. -/
def expireTrans (w : World) (id : Nat) : World :=
  let w := { w with trTimer := w.trTimer.filter (fun e => e.1 ≠ id) }
  match w.table.cells.find? (fun l => l.payload.id == id) with
  | none => w
  | some l =>
      let w := { w with table := { w.table with
        cells := w.table.cells.eraseP (fun l => l.payload.id == id) } }
      if l.payload.internal then w.command (.trTimeout l.payload.info l.payload.origin) else w

end World

/-- What can happen next. -/
inductive Act where
  /-- The receive thread executes the first command of the pipe. -/
  | exec (env : Env) (io : SockEnv)
  /-- The socket is readable. -/
  | read (env : Env) (evs : List RecvEv) (avail : List UInt8)
  /-- The `connect` on the socket has finished, well or not. -/
  | connectDone (env : Env) (io : SockEnv) (ok : Bool)
  /-- Somebody asks to leave the peer. -/
  | hangup (env : Env) (cause : UInt32)
  /-- A worker sends a request. -/
  | sendReq (env : Env) (inPeer : Option Nat) (origHopbyhopId : UInt32) (req : List UInt8)
  /-- A worker sends an answer. -/
  | sendRes (env : Env) (buf : List UInt8)
  /-- A worker is done with one of the session messages of this peer, which may have parsed or not. -/
  | work (i : Nat) (parsed : Bool)
  /-- The accept thread got a connection from this peer. -/
  | accept
  /-- The clock advances. -/
  | tick
  /-- `peer_timer_handler` finds the link of the peer expired. -/
  | expireLink
  /-- `peer_timer_handler` finds the peer inactive. -/
  | expireActiv
  /-- `timeout_handler` finds a transaction expired. -/
  | expireTrans (id : Nat)

namespace World

/--
A worker and one session message: an answer that parses ends its transaction. The
workers run side by side, so the messages need not be finished in their order.
-/
def work (w : World) (i : Nat) (parsed : Bool) : Option World :=
  match w.queue[i]? with
  | none => none
  | some buf =>
      let w := { w with queue := w.queue.eraseIdx i }
      if parsed ∧ !isReqBuf buf then
        match w.transactionLookup (endtoendOf buf) (hopbyhopOf buf) with
        | none => some w
        | some (_, w) => some w
      else some w

/--
`peer_timer_handler` and the link of this peer, with the detached chain walked at once.
`Timed` lets other steps come between.
-/
def expireLink (w : World) : Option World :=
  match w.tl with
  | none => none
  | some t =>
      if t.timeout ≤ w.jiffies then
        let w := { w with tl := none }
        match t.list with
        | .reconn => some (if w.flags = 0 then w.command .reconnTimeout else w)
        | .waitCer => some (w.command (.cerTimeout t.sock))
      else none

/--
`peer_timer_handler` and the list of active peers, when the sweep gets to this peer. Which
ones it gets to is up to the others in the list, in a `PeerTable`.
-/
def expireActiv (w : World) : Option World :=
  if w.inActiv ∧ w.lastActivTime + sendDwrTimeout ≤ w.jiffies then
    some ({ w with inActiv := false }.command .inactivity)
  else none

/-- The state a fault or an endless loop leads to is none. -/
def ofRes : Res World → Option World
  | .ok w => some w
  | _ => none

/-- One step of the system. -/
def step (cfg : Cfg) (w : World) : Act → Option World
  | .exec env io =>
      match w.pipe with
      | [] => none
      | c :: rest => ofRes ({ w with pipe := rest }.execute cfg env io c)
  | .read env evs avail =>
      match w.sock with
      | none => none
      | some s => if s ∈ w.rdSet then ofRes (w.serveRead cfg env evs avail) else none
  | .connectDone env io ok =>
      match w.sock with
      | none => none
      | some s =>
          -- the set `select` returned may still name a socket closed since
          if s ∈ w.wrSet then ofRes (w.serveWrite cfg env io s ok)
          else if w.flags &&& peerConnInProg ≠ 0 ∧ s ∉ w.opened then
            ofRes (w.serveWrite cfg env io s false)
          else none
  | .hangup env cause =>
      ofRes (do return (← peerStateMachine cfg env w (.peerHangup cause)).2)
  | .sendReq env inPeer orig req => some (w.sendReqToPeer env inPeer orig req).2
  | .sendRes env buf => some (w.sendResToPeer env buf).2
  | .work i parsed => w.work i parsed
  | .accept =>
      some ({ w with nextSock := w.nextSock + 1, opened := w.opened ++ [w.nextSock] }.command
        (.accepted w.nextSock))
  | .tick => some { w with jiffies := w.jiffies + 1 }
  | .expireLink => w.expireLink
  | .expireActiv => w.expireActiv
  | .expireTrans id =>
      if w.trTimer.any (fun e => e.1 == id && decide (e.2 ≤ w.jiffies)) then
        some (w.expireTrans id)
      else none

/-- The peer as `add_peer` leaves it: zeroed, with arbitrary counters, and its first command on the way. -/
def start (nextLabel : UInt32 → UInt32) (endtoendID : UInt32) (jiffies : Nat) : World where
  state := .unconn
  flags := 0
  sock := some 0
  tl := none
  inActiv := false
  lastActivTime := 0
  connCnt := 0
  endtoendID := endtoendID
  localIp := { isV6 := false, addr := [0, 0, 0, 0] }
  rb := .empty
  caps := { suppAuthAppIds := none, suppAcctAppIds := none, realm := none, realmLen := 0 }
  table := buildHtable 256 nextLabel
  trTimer := []
  pipe := [.addPeer]
  jiffies := jiffies
  rdSet := []
  wrSet := []
  opened := []
  nextSock := 1
  nextTrans := 0
  queue := []
  resets := 0
  ceLog := []
  writes := []
  bugTimer := false

/-- The initial worlds. -/
def Init (w : World) : Prop := ∃ nextLabel ete jiffies, w = start nextLabel ete jiffies

/-- The worlds of runs whose steps all satisfy `ok`. -/
def Runs (cfg : Cfg) (ok : World → Act → Prop) : World → Prop := Reach Init (step cfg) ok

/-- The reachable worlds. -/
def Reachable (cfg : Cfg) : World → Prop := Runs cfg anyStep

/-- A run whose steps are checked on the way, and something about the world it ends in. -/
theorem Runs.of_trace {β : Type} {cfg : Cfg} {ok : World → Act → Bool} {as : List Act} {f : World → β}
    {b : β} (h : (trace (step cfg) ok as (start (fun _ => 0) 0 0)).map f = some b) :
    ∃ w, Runs cfg (fun w a => ok w a = true) w ∧ f w = b := by
  obtain ⟨w, hw, hf⟩ := Option.map_eq_some_iff.mp h
  exact ⟨w, Reach.trace (.init ⟨_, _, _, rfl⟩) hw, hf⟩

theorem Reachable.of_trace {β : Type} {cfg : Cfg} {as : List Act} {f : World → β} {b : β}
    (h : (trace (step cfg) (fun _ _ => true) as (start (fun _ => 0) 0 0)).map f = some b) :
    ∃ w, Reachable cfg w ∧ f w = b := by
  obtain ⟨w, hw, hf⟩ := Runs.of_trace h
  exact ⟨w, hw.any, hf⟩

end World

/-! ## A small node, for runs written out -/

/-- A node with one authentication module. -/
def sampleCfg : Cfg :=
  { aaaIdentity := [97], aaaRealm := [114], productName := [100], vendorId := 0
    modules := [{ appId := 1, doesAuth := true, doesAcct := false }], doRelay := false }

/-- Everything works. -/
def sampleEnv : Env :=
  { msgMem := true, trMem := true, ceMem := ⟨true, true, true⟩, write := .wrote 65536 }

/-- A connect that succeeds at once. -/
def sampleIo : SockEnv :=
  { socket := true, initSu := true, connect := .done, sockopt := true
    localIp := { isV6 := false, addr := [10, 0, 0, 1] } }

/-- The CER of a node like this one. -/
def sampleCer : List UInt8 :=
  buildReq sampleCfg ceMsgCode (ceAvp sampleCfg { isV6 := false, addr := [10, 0, 0, 2] })

/-- The first connect fails, and the remote node connects instead. -/
def sampleAccept : List Act :=
  [.accept, .exec sampleEnv { sampleIo with socket := false }, .exec sampleEnv sampleIo,
   .read sampleEnv [.got 4, .got 65536] sampleCer]

end Disc.Transport
