import Disc.Msg.Message
import Disc.Transport.World

/-!
# The workers of a node

`server.c`. A node has any number of peers, and worker threads that take session
messages from a queue the receive threads fill. A request is answered here or
forwarded to another peer; a reply ends the transaction its two identifiers select,
and goes back to the peer the request came from.

A forwarded request is recorded in `forwards`, with the bytes that came in and those
that went out. Nothing reads the record.

Where a request is forwarded to is left open: every choice is a run of the system here,
among them the one `process_incoming_request` and `do_route` make from the destination and
the routing table (see `Disc.Server.Request`). So is the order in which the workers take the
messages.
-/

namespace Disc.Server

open Disc.Lib Disc.Msg Disc.Transport

/-- `is_req(msg)`. -/
def isReq (m : Message) : Bool := m.flags &&& 0x80 ≠ 0

/-- `AAATranslateMessage( buf.s, buf.len, 1)`, for a buffer at address `addr`. -/
def translate (mem : TranslateMem) (addr : Nat) (buf : List UInt8) : Res Message :=
  if h : addr + buf.length < 2 ^ 32 then do
    let (_, m) ← aaaTranslateMessage mem ⟨[]⟩ ⟨addr, buf, h⟩ buf.length true
    return m
  else .fault

/-- `msg->buf`. -/
def msgBuf (m : Message) : List UInt8 := m.buf.getD []

/-- The checks `server_worker` makes on a request before it looks at its destination. -/
def isSane (m : Message) : Bool :=
  m.commandCode ≠ 274 && m.commandCode ≠ 258 && m.commandCode ≠ 275
    && m.sessionId.isSome && m.origHost.isSome && m.origRealm.isSome && m.destRealm.isSome

/-- A reply in the hands of a worker, between `transaction_lookup` and `send_res_to_peer`. -/
structure Relay where
  /-- `tr->in_peer`. -/
  inPeer : Nat
  /-- `msg->buf`. -/
  buf : List UInt8
deriving Repr, DecidableEq

/-- A request that was forwarded. -/
structure Forward where
  inPeer : Nat
  outPeer : Nat
  /-- As it came in. -/
  req : List UInt8
  /-- As it was handed to `safe_write`. -/
  sent : List UInt8
  /-- The address of its transaction. -/
  tr : Nat
deriving Repr, DecidableEq

structure Node where
  peers : Nat → World
  /-- What each worker is about to send back. -/
  relays : Nat → Option Relay
  forwards : List Forward

/-- What `send_req_to_peer` makes of a request that is forwarded: the label is its hop-by-hop id. -/
def outgoing (w : World) (req : List UInt8) : List UInt8 :=
  setWord req 3 (le 4 (w.table.nextLabel (w.eteHash (endtoendOf req))).toNat)

namespace Node

def setPeer (n : Node) (p : Nat) (w : World) : Node :=
  { n with peers := fun q => if q = p then w else n.peers q }

def setRelay (n : Node) (t : Nat) (r : Option Relay) : Node :=
  { n with relays := fun u => if u = t then r else n.relays u }

/-- The message `i` of peer `p` is done with. -/
def dequeue (n : Node) (p i : Nat) : Node :=
  n.setPeer p { n.peers p with queue := (n.peers p).queue.eraseIdx i }

/-- `forward_request`. -/
def forwardRequest (n : Node) (env : Env) (m : Message) (inP outP : Nat) : Bool × Node :=
  if !env.trMem then (false, n)
  else
    match (n.peers outP).sendReqToPeer env (some inP) m.hopbyhopId (msgBuf m) with
    | (false, _) => (false, n)
    | (true, w) =>
        let f : Forward :=
          { inPeer := inP, outPeer := outP, req := msgBuf m
            sent := outgoing (n.peers outP) (msgBuf m), tr := (n.peers outP).nextTrans }
        (true, { n.setPeer outP w with forwards := n.forwards ++ [f] })

/-- `server_worker` and a reply from `p`, up to the point where the reply is sent on. -/
def takeReply (n : Node) (t p : Nat) (m : Message) : Node :=
  match (n.peers p).transactionLookup m.endtoendId m.hopbyhopId with
  | none => n
  | some (tr, w) =>
      let n := n.setPeer p w
      match tr.inPeer with
      | some d => n.setRelay t (some ⟨d, setWord (msgBuf m) 3 (le 4 tr.origHopbyhopId.toNat)⟩)
      -- a reply to a request of this node: the source calls it a bug and drops it
      | none => n

end Node

/-- What can happen next. -/
inductive Act where
  /-- The threads of a peer, or a module or an error that sends an answer. -/
  | peer (p : Nat) (a : Transport.Act)
  /-- The clock advances. -/
  | tick
  /-- A worker forwards a request of peer `p` to peer `q`; if that fails it still has it. -/
  | forward (p i q : Nat) (env : Env) (mem : TranslateMem) (addr : Nat)
  /-- Worker `t` takes a reply of peer `p`. -/
  | reply (t p i : Nat) (mem : TranslateMem) (addr : Nat)
  /-- Worker `t` sends it on. -/
  | relay (t : Nat) (env : Env)
  /-- A worker is done with a message in another way. -/
  | done (p i : Nat)

/-- The steps of a peer that are not taken by the workers of this model. -/
def ownStep : Transport.Act → Bool
  | .work _ _ => false
  | .tick => false
  | .sendReq _ (some _) _ _ => false
  | _ => true

namespace Node

/-- One step of the node. -/
def step (cfg : Cfg) (n : Node) : Act → Option Node
  | .peer p a =>
      if ownStep a then ((n.peers p).step cfg a).map (n.setPeer p) else none
  | .tick => some { n with peers := fun p => { n.peers p with jiffies := (n.peers p).jiffies + 1 } }
  | .forward p i q env mem addr =>
      match (n.peers p).queue[i]? with
      | none => none
      | some buf =>
          match translate mem addr buf with
          | .ok m =>
              if isReq m && isSane m then
                match n.forwardRequest env m p q with
                | (true, n) => some (n.dequeue p i)
                | (false, _) => some n
              else none
          | _ => none
  | .reply t p i mem addr =>
      match n.relays t, (n.peers p).queue[i]? with
      | none, some buf =>
          match translate mem addr buf with
          | .ok m => if isReq m then none else some ((n.dequeue p i).takeReply t p m)
          -- the message is dropped
          | .error => some (n.dequeue p i)
          | _ => none
      | _, _ => none
  | .relay t env =>
      match n.relays t with
      | none => none
      | some r =>
          some ((n.setPeer r.inPeer ((n.peers r.inPeer).sendResToPeer env r.buf).2).setRelay t none)
  | .done p i => if i < (n.peers p).queue.length then some (n.dequeue p i) else none

/-- A node that has just started. -/
def Init (n : Node) : Prop :=
  (∀ p, World.Init (n.peers p)) ∧ n.relays = (fun _ => none) ∧ n.forwards = []

/-- The reachable states of a node. -/
def Reachable (cfg : Cfg) : Node → Prop := Reach Init (step cfg) anyStep

end Node

end Disc.Server
