import Disc.Transport.World

/-!
# What a step can do to a peer

An abstract peer, `Core`: the state, the connection, the timer link, the commands
in flight, the outstanding transactions and what was exchanged. Everything else
of a `World` (buffers, descriptor sets, counters for identifiers, the clock) has no
influence on these beyond the choices it makes, and the choices are left open here.

`Core.Step` lists what can happen to a peer, once. `World.step_core` shows that
every step of the program is one of these, so an invariant of the abstract peer is
an invariant of the program, and each invariant below is a case analysis over
`Core.Step` and nothing more.
-/

namespace Disc.Transport

open Disc.Lib Disc.Msg

/-- The part of a peer the state machine is about. -/
structure Core where
  state : PeerState
  flags : UInt8
  sock : Option Nat
  /-- The timer list the link is in, and the connection it was started for. -/
  tl : Option (TimerList × Option Nat)
  connCnt : UInt32
  resets : Nat
  pipe : List Cmd
  /-- Cells of the transaction table. -/
  cells : List (HLink Trans)
  /-- Transactions in the timer list. -/
  timed : List Nat
  nextTrans : Nat
  /-- Session messages waiting for a worker. -/
  queue : List (List UInt8)
  ceLog : List CeEntry
  writes : List WriteRec
  bugTimer : Bool

/-- The abstract view of a peer. -/
def World.core (w : World) : Core where
  state := w.state
  flags := w.flags
  sock := w.sock
  tl := w.tl.map fun t => (t.list, t.sock)
  connCnt := w.connCnt
  resets := w.resets
  pipe := w.pipe
  cells := w.table.cells
  timed := w.trTimer.map (·.1)
  nextTrans := w.nextTrans
  queue := w.queue
  ceLog := w.ceLog
  writes := w.writes
  bugTimer := w.bugTimer

namespace Core

/-- A connect is pending. -/
def InProg (c : Core) : Prop := c.flags &&& peerConnInProg ≠ 0

/-- The peer is reset: no connection, and waiting to reconnect unless it is to be destroyed. -/
def reset (c : Core) : Core :=
  { c with
    state := .unconn
    flags := c.flags &&& peerToDestroy
    sock := none
    tl := if c.flags &&& peerToDestroy = 0 then some (.reconn, none) else none
    connCnt := c.connCnt + 1
    resets := c.resets + 1 }

/-- The outcome of a `safe_write`: all went out, or the peer is in error and its close is on the way. -/
inductive Wrote (k : WriteKind) (c : Core) : Core → Prop
  | whole (bs : List UInt8) :
      Wrote k c { c with writes := c.writes ++ [⟨c.sock, k, bs, true⟩] }
  | broken (rs : List WriteRec) (hrs : ∀ r ∈ rs, r.sock = c.sock ∧ r.kind = k ∧ r.whole = false)
      (hone : rs.length ≤ 1) :
      Wrote k c { c with writes := c.writes ++ rs, state := .error,
                         pipe := c.pipe ++ [.close ⟨c.sock, c.resets⟩] }

/-- What a write leaves alone; the only command it may add is a close of the connection. -/
theorem Wrote.frame {k : WriteKind} {c c' : Core} (hw : Wrote k c c') :
    c'.sock = c.sock ∧ c'.tl = c.tl ∧ c'.ceLog = c.ceLog
      ∧ ∀ cmd ∈ c'.pipe, cmd ∈ c.pipe ∨ cmd = .close ⟨c.sock, c.resets⟩ := by
  cases hw with
  | whole bs => exact ⟨rfl, rfl, rfl, fun _ hc => Or.inl hc⟩
  | broken rs hrs =>
      refine ⟨rfl, rfl, rfl, ?_⟩
      intro cmd hc
      rcases List.mem_append.mp hc with hc | hc
      · exact Or.inl hc
      · exact Or.inr (List.mem_singleton.mp hc)

/-- A new transaction, linked into the table and the timer list. -/
def start (c : Core) (hashCode label : UInt32) (tr : Trans) : Core :=
  { c with cells := c.cells ++ [⟨hashCode, label, tr⟩], timed := c.timed ++ [tr.id]
           nextTrans := c.nextTrans + 1 }

/-- The transaction of a request this layer sends on the current connection. -/
def internalTrans (c : Core) (code : Nat) : Trans :=
  { id := c.nextTrans, inPeer := none, origHopbyhopId := 0, info := c.connCnt, internal := true,
    reqCode := code, origin := ⟨c.sock, c.resets⟩ }

/-- A CER, DWR or DPR goes out with its transaction. -/
def Requested (c : Core) (code : Nat) (c' : Core) : Prop :=
  ∃ h lab, Wrote (.req code) (c.start h lab (c.internalTrans code)) c'

theorem Requested.ceLog {code : Nat} {c c' : Core} (h : Requested c code c') :
    c'.ceLog = c.ceLog := by
  obtain ⟨_, _, hw⟩ := h
  exact hw.frame.2.2.1

/-- A transaction ends: one cell less, and its link out of the timer list. -/
def drop (c : Core) (p : HLink Trans → Bool) (id : Nat) : Core :=
  { c with cells := c.cells.eraseP p, timed := c.timed.filter (· ≠ id) }

/-- What conditions on runs are about: a new connection, a request, or an answer `buf` that ends `l`. -/
inductive Op where
  | quiet
  | opens
  | hears (buf : List UInt8)
  | ends (buf : List UInt8) (l : HLink Trans)

/-- What the command that was taken out of the pipe does. -/
inductive Exec : Op → Cmd → Core → Core → Prop
  /-- A connect for a peer that has a connection, or an accept that is refused. -/
  | skipOpen {cmd : Cmd} {c : Core} (hcmd : cmd = .addPeer ∨ cmd = .connect ∨ ∃ s, cmd = .accepted s)
      (hs : (cmd = .addPeer ∨ cmd = .connect) → c.state ≠ .unconn) : Exec .quiet cmd c c
  -- a failed connect resets a peer that had nothing open
  | connectFailed {cmd : Cmd} {c : Core} (hcmd : cmd = .addPeer ∨ cmd = .connect)
      (hs : c.state = .unconn) : Exec .quiet cmd c c.reset
  | connectInProg {cmd : Cmd} {c : Core} {s : Nat} (hcmd : cmd = .addPeer ∨ cmd = .connect)
      (hs : c.state = .unconn) :
      Exec .opens cmd c { c with sock := some s, flags := c.flags ||| peerConnInProg }
  | connected {cmd : Cmd} {c c' : Core} {s : Nat} (hcmd : cmd = .addPeer ∨ cmd = .connect)
      (hs : c.state = .unconn)
      (hw : Requested { c with flags := 0, sock := some s } ceMsgCode c') :
      Exec .opens cmd c { c' with state := .waitCea }
  | connectedFailed {cmd : Cmd} {c : Core} {s : Nat} (hcmd : cmd = .addPeer ∨ cmd = .connect)
      (hs : c.state = .unconn) : Exec .quiet cmd c ({ c with flags := 0, sock := some s }).reset
  /-- The link is taken out of the reconnect list; it must not be in the other one. -/
  | accepted {c : Core} {s : Nat} (hs : c.state = .unconn) :
      Exec .opens (.accepted s) c
        (match c.tl with
          | some (.waitCer, _) => { c with sock := some s, state := .waitCer, bugTimer := true }
          | _ => { c with sock := some s, state := .waitCer, tl := some (.waitCer, some s) })
  -- not connected, not idle after all, or no memory for the DWR
  | inactivSkip {c : Core} : Exec .quiet .inactivity c c
  | inactivSent {c c' : Core} (hs : c.state = .conn) (hw : Requested c dwMsgCode c') :
      Exec .quiet .inactivity c { c' with state := .waitDwa }
  | closeSkip {c : Core} {o : Origin} (hs : c.state = .unconn) (hi : ¬ c.InProg) :
      Exec .quiet (.close o) c c
  | close {c : Core} {o : Origin} (hs : c.state ≠ .unconn ∨ c.InProg) :
      Exec .quiet (.close o) c c.reset
  | reconnSkip {c : Core} (hs : c.state ≠ .unconn) : Exec .quiet .reconnTimeout c c
  | reconn {c : Core} (hs : c.state = .unconn) :
      Exec .quiet .reconnTimeout c { c with pipe := c.pipe ++ [.connect] }
  -- the handler does not look at the connection the timeout was started for
  | cerSkip {c : Core} {k : Option Nat} (hs : c.state ≠ .waitCer) : Exec .quiet (.cerTimeout k) c c
  | cer {c : Core} {k : Option Nat} (hs : c.state = .waitCer) :
      Exec .quiet (.cerTimeout k) c c.reset
  | trSkip {c : Core} {info : UInt32} {o : Origin}
      (hs : info ≠ c.connCnt ∨ (c.state ≠ .waitCea ∧ c.state ≠ .waitDwa ∧ c.state ≠ .waitDpa)) :
      Exec .quiet (.trTimeout info o) c c
  | tr {c : Core} {info : UInt32} {o : Origin} (hi : info = c.connCnt)
      (hs : c.state = .waitCea ∨ c.state = .waitDwa ∨ c.state = .waitDpa) :
      Exec .quiet (.trTimeout info o) c c.reset

/-- The timeout of a request resets a peer that waits, if it carries the current count. -/
theorem Exec.tr_cases {op : Op} {info : UInt32} {o : Origin} {c c' : Core}
    (h : Exec op (.trTimeout info o) c c') : c' = c ∨ (c' = c.reset ∧ info = c.connCnt) := by
  cases h with
  | skipOpen hcmd | connectFailed hcmd | connectInProg hcmd | connected hcmd
  | connectedFailed hcmd => exact absurd hcmd (by simp)
  | trSkip hs => exact Or.inl rfl
  | tr hi hs => exact Or.inr ⟨rfl, hi⟩

/--
A connection is given up: without a word, or after an answer. The answer to a CER is
given in the two states that wait for one, and if it says success it was not written.
-/
inductive LastWords (buf : List UInt8) (st : PeerState) (c : Core) : Core → Prop
  | none : LastWords buf st c c
  | refused {c' : Core} {res : UInt32} (hr : isReqBuf buf = true) (hc : msgCode buf = ceMsgCode)
      (hs : st = .waitCer ∨ st = .waitCea) (hw : Wrote (.ans ceMsgCode res) c c')
      (hres : res = aaaSuccess → c'.writes = c.writes) : LastWords buf st c c'
  | answered {c' : Core} {res : UInt32} (hr : isReqBuf buf = true) (hc : msgCode buf ≠ ceMsgCode)
      (hs : st = .conn ∨ st = .waitDwa ∨ st = .waitDpa) (hw : Wrote (.ans (msgCode buf) res) c c') :
      LastWords buf st c c'

theorem LastWords.wrote {buf : List UInt8} {st : PeerState} {c c' : Core}
    (h : LastWords buf st c c') : c' = c ∨ ∃ code res, Wrote (.ans code res) c c' := by
  cases h with
  | none => exact Or.inl rfl
  | refused hr hc hs hw hres => exact Or.inr ⟨_, _, hw⟩
  | answered hr hc hs hw => exact Or.inr ⟨_, _, hw⟩

/-- What the state machine does with a CE, DW or DP message that `dispatch_message` hands to it. -/
inductive Handled (buf : List UInt8) : Core → Core → Prop
  | ignored {c : Core}
      (hs : isReqBuf buf = false → ¬ (msgCode buf = ceMsgCode ∧ c.state = .waitCea)
        ∧ ¬ (msgCode buf = dwMsgCode ∧ c.state = .waitDwa)
        ∧ ¬ (msgCode buf = dpMsgCode ∧ c.state = .waitDpa))
      (hq : isReqBuf buf = true → msgCode buf = ceMsgCode → c.state ≠ .waitCer) : Handled buf c c
  | cea {c : Core} {caps : Caps} (hr : isReqBuf buf = false) (hs : c.state = .waitCea)
      (hc : msgCode buf = ceMsgCode) :
      Handled buf c { c with state := .conn, ceLog := c.ceLog ++ [⟨c.sock, false, buf, caps⟩] }
  -- a CER is taken while waiting for one, and also while waiting for the CEA
  | cer {c c₁ c₂ : Core} {caps : Caps} (hr : isReqBuf buf = true)
      (hs : (c.state = .waitCer ∧ c₁ = { c with tl := c.tl.filter (·.1 ≠ .waitCer) })
        ∨ (c.state = .waitCea ∧ c₁ = c))
      (hw : Wrote (.ans ceMsgCode aaaSuccess)
        { c₁ with ceLog := c₁.ceLog ++ [⟨c₁.sock, true, buf, caps⟩] } c₂)
      (hc : msgCode buf = ceMsgCode) : Handled buf c { c₂ with state := .conn }
  /-- The connection is given up, after an answer was sent or not. -/
  | gaveUp {c c₁ c₂ : Core} {l : List CeEntry} {t : Option (TimerList × Option Nat)}
      (hs : c.state ≠ .unconn) (h₁ : c₁ = { c with ceLog := c.ceLog ++ l, tl := t })
      (hw : LastWords buf c.state c₁ c₂) (hl : ∀ e ∈ l, e.sock = c.sock) : Handled buf c c₂.reset
  | dwr {c c' : Core} (hr : isReqBuf buf = true)
      (hs : c.state = .conn ∨ c.state = .waitDwa ∨ c.state = .waitDpa)
      (hw : Wrote (.ans dwMsgCode aaaSuccess) c c') : Handled buf c c'
  | dwa {c : Core} (hr : isReqBuf buf = false) (hs : c.state = .waitDwa) :
      Handled buf c { c with state := .conn }

/-- The code of a message that is for the peer itself. -/
def ForPeer (buf : List UInt8) : Prop :=
  msgCode buf = ceMsgCode ∨ msgCode buf = dwMsgCode ∨ msgCode buf = dpMsgCode

/-- What can happen to a peer. -/
inductive Step : Op → Core → Core → Prop
  /-- Nothing that matters here. -/
  | idle {c : Core} : Step .quiet c c
  | exec {op : Op} {c c' : Core} {cmd : Cmd} {rest : List Cmd} (hp : c.pipe = cmd :: rest)
      (he : Exec op cmd { c with pipe := rest } c') : Step op c c'
  | request {c c' : Core} {buf : List UInt8} (hr : isReqBuf buf = true) (hh : Handled buf c c') :
      Step (.hears buf) c c'
  /-- An answer to a transaction, which is then gone. -/
  | answer {c c' : Core} {buf : List UInt8} {l : HLink Trans} {h : UInt32}
      (hr : isReqBuf buf = false) (hc : ForPeer buf)
      (hfind : c.cells.find? (·.is h (hopbyhopOf buf)) = some l)
      (hh : Handled buf (c.drop (·.is h (hopbyhopOf buf)) l.payload.id) c') :
      Step (.ends buf l) c c'
  | enqueue {c : Core} {buf : List UInt8} (hc : ¬ ForPeer buf) :
      Step .quiet c { c with queue := c.queue ++ [buf] }
  /-- The connection broke while reading. -/
  | broke {c : Core} (hs : c.state ≠ .unconn ∨ c.InProg) : Step .quiet c c.reset
  /-- A pending connect came to an end. -/
  | pendingFailed {c : Core} (hs : c.state = .unconn) : Step .quiet c c.reset
  | pendingDone {c c' : Core} {s : Nat} (hs : c.state = .unconn) (hsock : c.sock = some s)
      (hw : Requested { c with flags := 0, sock := some s } ceMsgCode c') :
      Step .quiet c { c' with state := .waitCea }
  | pendingRefused {c : Core} {s : Nat} (hs : c.state = .unconn) (hsock : c.sock = some s) :
      Step .quiet c ({ c with flags := 0, sock := some s }).reset
  | hangup {c c' : Core} (hs : c.state = .conn) (hw : Requested c dpMsgCode c') :
      Step .quiet c { c' with state := .waitDpa }
  | hangupFailed {c : Core} (hs : c.state = .conn) : Step .quiet c c.reset
  /-- A worker sends a request. -/
  | sendReq {c c' : Core} {h lab : UInt32} {tr : Trans} (hs : c.state = .conn ∨ c.state = .waitDwa)
      (ht : tr.internal = false) (hid : tr.id = c.nextTrans)
      (hw : Wrote .request (c.start h lab tr) c') : Step .quiet c c'
  | sendRes {c c' : Core} (hs : c.state = .conn ∨ c.state = .waitDwa)
      (hw : Wrote .response c c') : Step .quiet c c'
  -- a request, an unknown answer, or a message that is not understood
  | workSkip {c : Core} {i : Nat} : Step .quiet c { c with queue := c.queue.eraseIdx i }
  /-- A worker takes an answer, and the transaction it selects is gone. -/
  | work {c : Core} {i : Nat} {buf : List UInt8} {l : HLink Trans} {h : UInt32}
      (hq : buf ∈ c.queue) (hr : isReqBuf buf = false)
      (hfind : c.cells.find? (·.is h (hopbyhopOf buf)) = some l) :
      Step (.ends buf l) c
        (({ c with queue := c.queue.eraseIdx i }).drop (·.is h (hopbyhopOf buf)) l.payload.id)
  | accept {c : Core} {s : Nat} : Step .quiet c { c with pipe := c.pipe ++ [.accepted s] }
  | reconnExpired {c : Core} {k : Option Nat} (ht : c.tl = some (.reconn, k)) :
      Step .quiet c (if c.flags = 0 then { c with tl := none, pipe := c.pipe ++ [.reconnTimeout] }
        else { c with tl := none })
  | cerExpired {c : Core} {k : Option Nat} (ht : c.tl = some (.waitCer, k)) :
      Step .quiet c { c with tl := none, pipe := c.pipe ++ [.cerTimeout k] }
  | inactiv {c : Core} : Step .quiet c { c with pipe := c.pipe ++ [.inactivity] }
  /-- A transaction expires; an internal one reports it. -/
  | transExpired {c : Core} {l : HLink Trans}
      (hfind : c.cells.find? (fun x => x.payload.id == l.payload.id) = some l) :
      Step .quiet c (let d := c.drop (fun x => x.payload.id == l.payload.id) l.payload.id
        if l.payload.internal then
          { d with pipe := d.pipe ++ [.trTimeout l.payload.info l.payload.origin] }
        else d)
  | orphanExpired {c : Core} {id : Nat} (hn : ∀ l ∈ c.cells, l.payload.id ≠ id) :
      Step .quiet c { c with timed := c.timed.filter (· ≠ id) }

end Core

end Disc.Transport
