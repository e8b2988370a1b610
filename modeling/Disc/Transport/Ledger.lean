import Disc.Transport.Refine

/-!
# What a step is made of

A second view of a peer, complementary to `Core`: not what state it is in but what
it keeps and what it has told others. The transaction table with its labels, the
read buffer and the queue, the descriptors, and the two logs.

`Moves` closes a handful of elementary changes under composition, and every step
that does not read is such a composition. What each change says about the bytes it
adds to a log is exact, so an invariant over the logs or the table is an induction
over `Moves`.
-/

namespace Disc.Transport

open Disc.Lib Disc.Msg

/-- The descriptors that wait in the pipe to be handed to the peer. -/
def pending (pipe : List Cmd) : List Nat :=
  pipe.filterMap fun
    | .accepted s => some s
    | _ => none

theorem pending_append (p q : List Cmd) : pending (p ++ q) = pending p ++ pending q :=
  List.filterMap_append

/-- What `reset_peer` leaves of what is stored about the peer. -/
def Caps.cleared (c : Caps) : Caps :=
  { c with suppAuthAppIds := none, suppAcctAppIds := none, realm := none }

/-- What a peer keeps and what it has told others. -/
structure Ledger where
  table : HTable Trans
  nextTrans : Nat
  rb : ReadBuf
  queue : List (List UInt8)
  sock : Option Nat
  nextSock : Nat
  /-- Accepted connections the peer has not got yet. -/
  pending : List Nat
  caps : Caps
  ceLog : List CeEntry
  writes : List WriteRec

def World.ledger (w : World) : Ledger where
  table := w.table
  nextTrans := w.nextTrans
  rb := w.rb
  queue := w.queue
  sock := w.sock
  nextSock := w.nextSock
  pending := pending w.pipe
  caps := w.caps
  ceLog := w.ceLog
  writes := w.writes

/-- The identifiers of a request are filled in last. -/
def stamp (buf : List UInt8) (hopbyhopId endtoendId : UInt32) : List UInt8 :=
  setWord (setWord buf 4 (le 4 endtoendId.toNat)) 3 (le 4 hopbyhopId.toNat)

/--
A buffer that can be written for `k`: a message of this layer is the one its
configuration makes, and of the workers' messages `P` is known.
-/
def Fits (cfg : Cfg) (P : List UInt8 → Prop) (buf : List UInt8) : WriteKind → Prop
  | .req code => ∃ avps hbh ete, buf = stamp (buildReq cfg code avps) hbh ete
      ∧ ((code = ceMsgCode ∧ ∃ ip, avps = ceAvp cfg ip)
        ∨ (code = dwMsgCode ∧ avps = []) ∨ (code = dpMsgCode ∧ ∃ cause, avps = dprAvp cause))
  | .ans code res => ∃ avps req, msgCode req = code ∧ buf = buildAns cfg avps req res
      ∧ ((code = ceMsgCode ∧ ∃ ip, avps = ceAvp cfg ip) ∨ (code ≠ ceMsgCode ∧ avps = []))
  | .request => P buf
  | .response => P buf

/-- Elementary changes, and what they add up to. -/
inductive Moves (cfg : Cfg) (P : List UInt8 → Prop) : Ledger → Ledger → Prop
  | refl (l : Ledger) : Moves cfg P l l
  | trans {l₁ l₂ l₃ : Ledger} (h : Moves cfg P l₁ l₂) (h' : Moves cfg P l₂ l₃) : Moves cfg P l₁ l₃
  /-- A transaction is linked into the table. -/
  | start {l : Ledger} (hashCode : UInt32) (tr : Trans) (hid : tr.id = l.nextTrans) :
      Moves cfg P l { l with table := (l.table.addCell hashCode tr).2, nextTrans := l.nextTrans + 1 }
  /-- Transactions leave the table. -/
  | drop {l : Ledger} (cells : List (HLink Trans)) (hsub : cells.Sublist l.table.cells) :
      Moves cfg P l { l with table := { l.table with cells } }
  | wrote {l : Ledger} (k : WriteKind) (buf : List UInt8) (n : Nat) (hfit : Fits cfg P buf k) :
      Moves cfg P l { l with writes := l.writes ++ [⟨l.sock, k, buf.take n, buf.length ≤ n⟩] }
  /-- `process_ce` accepts a message. -/
  | exchanged {l : Ledger} (mem : CeMem) (isReq : Bool) (buf : List UInt8) (caps : Caps)
      (hce : processCe cfg mem buf isReq = .ok (aaaSuccess, some caps)) :
      Moves cfg P l { l with caps, ceLog := l.ceLog ++ [⟨l.sock, isReq, buf, caps⟩] }
  | reset {l : Ledger} : Moves cfg P l { l with sock := none, rb := .empty, caps := l.caps.cleared }
  /-- A socket is created and comes to nothing. -/
  | socket {l : Ledger} : Moves cfg P l { l with nextSock := l.nextSock + 1 }
  /-- A socket is created for the peer. -/
  | connect {l : Ledger} :
      Moves cfg P l { l with nextSock := l.nextSock + 1, sock := some l.nextSock }
  /-- A connection is accepted for the peer. -/
  | accept {l : Ledger} :
      Moves cfg P l { l with nextSock := l.nextSock + 1, pending := l.pending ++ [l.nextSock] }
  /-- It is refused. -/
  | refuse {l : Ledger} {s : Nat} {rest : List Nat} (hp : l.pending = s :: rest) :
      Moves cfg P l { l with pending := rest }
  /-- The peer gets it. -/
  | take {l : Ledger} {s : Nat} {rest : List Nat} (hp : l.pending = s :: rest) :
      Moves cfg P l { l with pending := rest, sock := some s }
  /-- A worker is done with a session message. -/
  | unqueue {l : Ledger} (i : Nat) : Moves cfg P l { l with queue := l.queue.eraseIdx i }

theorem Moves.of_eq {cfg : Cfg} {P : List UInt8 → Prop} {l l' : Ledger} (h : l' = l) :
    Moves cfg P l l' := by
  rw [h]
  exact .refl l

namespace World

/-! ## The parts handlers are made of -/

section

variable (w : World)

@[simp] theorem ledger_rmvFromTimerList (l : TimerList) :
    (w.rmvFromTimerList l).ledger = w.ledger := by
  rw [rmvFromTimerList_eq]
  rfl

@[simp] theorem ledger_addToTimerList (l : TimerList) (t : Nat) :
    (w.addToTimerList l t).ledger = w.ledger := by
  unfold addToTimerList
  cases w.tl <;> rfl

/-- Only an accepted connection shows in the pipe. -/
theorem ledger_command {c : Cmd} (h : ∀ s, c ≠ .accepted s) : (w.command c).ledger = w.ledger := by
  have hp : pending [c] = [] := by
    cases c with
    | accepted s => exact absurd rfl (h s)
    | _ => rfl
  simp only [ledger, command, pending_append, hp, List.append_nil]

theorem ledger_resetPeer :
    w.resetPeer.ledger = { w.ledger with sock := none, rb := .empty, caps := w.caps.cleared } := by
  simp only [resetPeer, rmv_both]
  split
  · simp [addToTimerList, ledger, Caps.cleared]
  · rfl

theorem ledger_closeAndReset :
    w.closeAndReset.ledger = { w.ledger with sock := none, rb := .empty, caps := w.caps.cleared } :=
  ledger_resetPeer w.tcpClose

variable {cfg : Cfg} {P : List UInt8 → Prop}

theorem moves_resetPeer : Moves cfg P w.ledger w.resetPeer.ledger := by
  rw [ledger_resetPeer]
  exact .reset

theorem moves_closeAndReset : Moves cfg P w.ledger w.closeAndReset.ledger := by
  rw [ledger_closeAndReset]
  exact .reset

theorem moves_safeWrite (r : WriteRes) {k : WriteKind} {buf : List UInt8} (h : Fits cfg P buf k) :
    Moves cfg P w.ledger (w.safeWrite r k buf).2.ledger := by
  cases r with
  | failed =>
      refine .of_eq ?_
      exact ledger_command ({ w with state := .error } : World) (by simp)
  | wrote n =>
      unfold safeWrite
      dsimp only
      split
      · exact .wrote k buf n h
      · refine .trans (.wrote k buf n h) (.of_eq ?_)
        exact ledger_command ({ w with
          writes := w.writes ++ [⟨w.sock, k, buf.take n, buf.length ≤ n⟩], state := .error } : World)
          (by simp)

/-- A request goes out with its transaction. -/
theorem moves_request (r : WriteRes) (ete : UInt32) {t : Trans} (h : t.id = w.nextTrans)
    {k : WriteKind} {buf : List UInt8} (hfit : Fits cfg P buf k) :
    Moves cfg P w.ledger ((w.startTrans ete t).2.safeWrite r k buf).2.ledger :=
  (Moves.start (l := w.ledger) _ t h).trans (moves_safeWrite (w.startTrans ete t).2 r hfit)

end

section

variable {cfg : Cfg} {P : List UInt8 → Prop} {w w' : World} {env : Env}

theorem moves_sendStdReq {code : Nat} {avps : List UInt8} {sent : Bool}
    (hcode : (code = ceMsgCode ∧ ∃ ip, avps = ceAvp cfg ip)
        ∨ (code = dwMsgCode ∧ avps = []) ∨ (code = dpMsgCode ∧ ∃ cause, avps = dprAvp cause))
    (h : w.sendStdReq cfg env code avps = (sent, w')) : Moves cfg P w.ledger w'.ledger := by
  unfold sendStdReq at h
  split at h
  · obtain ⟨-, rfl⟩ := Prod.mk.inj h
    exact .refl _
  · unfold internalSendRequest at h
    split at h
    · obtain ⟨-, rfl⟩ := Prod.mk.inj h
      exact .refl _
    · obtain ⟨-, rfl⟩ := Prod.mk.inj h
      exact moves_request ({ w with endtoendID := w.endtoendID + 1 } : World) env.write w.endtoendID
        (t := w.core.internalTrans code) rfl ⟨avps, _, _, rfl, hcode⟩

theorem moves_sendStdAns {avps req : List UInt8} {res : UInt32} {sent : Bool}
    (hcode : (msgCode req = ceMsgCode ∧ ∃ ip, avps = ceAvp cfg ip)
      ∨ (msgCode req ≠ ceMsgCode ∧ avps = []))
    (h : w.sendStdAns cfg env avps req res = (sent, w')) : Moves cfg P w.ledger w'.ledger := by
  unfold sendStdAns at h
  split at h
  · obtain ⟨-, rfl⟩ := Prod.mk.inj h
    exact .refl _
  · rw [show w' = (w.safeWrite env.write (.ans (msgCode req) res) (buildAns cfg avps req res)).2 by
      rw [h]]
    exact moves_safeWrite _ _ ⟨avps, req, rfl, rfl, hcode⟩

theorem moves_runProcessCe {buf : List UInt8} {isReq : Bool} {code : UInt32}
    (h : w.runProcessCe cfg env buf isReq = .ok (code, w')) : Moves cfg P w.ledger w'.ledger := by
  unfold runProcessCe at h
  obtain ⟨⟨code', caps⟩, hce, h⟩ := Res.bind_eq_ok h
  rcases processCe_cases hce with ⟨-, rfl⟩ | ⟨rfl, c, rfl⟩
  · obtain ⟨-, rfl⟩ := Prod.mk.inj (Res.ok.inj h)
    exact .refl _
  · obtain ⟨-, rfl⟩ := Prod.mk.inj (Res.ok.inj h)
    exact .exchanged env.ceMem isReq buf c hce

/-! ## Handlers -/

theorem moves_onTcpConnected {s : Nat} {ip : IpAddr} (hs : w.state = .unconn) :
    Moves cfg P { w.ledger with sock := some s } (w.onTcpConnected cfg env s ip).2.ledger := by
  unfold onTcpConnected
  split
  · set v : World := { w with flags := 0, sock := some s, localIp := ip } with hv
    cases hcer : v.sendCer cfg env with
    | mk sent v' =>
        simp only [hcer]
        have hm : Moves cfg P v.ledger v'.ledger := moves_sendStdReq (Or.inl ⟨rfl, _, rfl⟩) hcer
        cases sent with
        | true => exact hm
        | false => exact hm.trans (moves_resetPeer v'.tcpClose)
  · rename_i hne
    exact absurd hs hne

theorem moves_onCerReceived {buf : List UInt8} {b : Bool} (hc : msgCode buf = ceMsgCode)
    (h : w.onCerReceived cfg env buf = .ok (b, w')) : Moves cfg P w.ledger w'.ledger := by
  rcases onCerReceived_cases h with ⟨-, -, rfl⟩ | ⟨u, res, v, sent, v', hu, hce, hcea, hk⟩
  · exact .refl _
  have hul : u.ledger = w.ledger := by
    rcases hu with ⟨-, rfl⟩ | ⟨-, rfl⟩
    · exact ledger_rmvFromTimerList _ _
    · rfl
  have hm : Moves cfg P w.ledger v'.ledger :=
    hul ▸ (moves_runProcessCe hce).trans (moves_sendStdAns (Or.inl ⟨hc, _, rfl⟩) hcea)
  rcases hk with ⟨-, rfl⟩ | ⟨-, -, rfl⟩
  · exact hm.trans (moves_closeAndReset v')
  · exact hm

theorem moves_onCeaReceived {buf : List UInt8} {b : Bool}
    (h : w.onCeaReceived cfg env buf = .ok (b, w')) : Moves cfg P w.ledger w'.ledger := by
  rcases onCeaReceived_cases h with ⟨-, rfl⟩ | ⟨code, v, -, hce, hk⟩
  · exact .refl _
  have hm : Moves cfg P w.ledger v.ledger := moves_runProcessCe hce
  rcases hk with ⟨-, rfl⟩ | ⟨-, rfl⟩
  · exact hm.trans (moves_closeAndReset v)
  · exact hm

theorem moves_onDwrReceived {buf : List UInt8} {b : Bool} (hc : msgCode buf ≠ ceMsgCode)
    (h : w.onDwrReceived cfg env buf = .ok (b, w')) : Moves cfg P w.ledger w'.ledger := by
  rcases onDwrReceived_cases h with ⟨-, rfl⟩ | ⟨res, sent, v, -, hdwa, hk⟩
  · exact .refl _
  have hm : Moves cfg P w.ledger v.ledger := moves_sendStdAns (Or.inr ⟨hc, rfl⟩) hdwa
  rcases hk with ⟨-, rfl⟩ | ⟨-, -, rfl⟩
  · exact hm.trans (moves_closeAndReset v)
  · exact hm

theorem moves_onDprReceived {buf : List UInt8} {b : Bool} (hc : msgCode buf ≠ ceMsgCode)
    (h : w.onDprReceived cfg env buf = .ok (b, w')) : Moves cfg P w.ledger w'.ledger := by
  rcases onDprReceived_cases h with ⟨-, rfl⟩ | ⟨res, sent, v, -, hdpa, rfl⟩
  · exact .refl _
  · have hm : Moves cfg P ({ w with inActiv := false } : World).ledger v.ledger :=
      moves_sendStdAns (Or.inr ⟨hc, rfl⟩) hdpa
    exact hm.trans (moves_closeAndReset v)

theorem moves_onPeerIsInactiv : Moves cfg P w.ledger (w.onPeerIsInactiv cfg env).2.ledger := by
  unfold onPeerIsInactiv
  split
  · split
    · cases hdwr : w.sendDwr cfg env with
      | mk sent v =>
          have hm : Moves cfg P w.ledger v.ledger :=
            moves_sendStdReq (Or.inr (Or.inl ⟨rfl, rfl⟩)) hdwr
          cases sent with
          | true => exact hm
          | false => exact hm
    · exact .refl _
  · exact .refl _

theorem moves_onPeerHangup {cause : UInt32} :
    Moves cfg P w.ledger (w.onPeerHangup cfg env cause).2.ledger := by
  unfold onPeerHangup
  split
  · cases hdpr : ({ w with inActiv := false } : World).sendDpr cfg env cause with
    | mk sent v =>
        have hm : Moves cfg P ({ w with inActiv := false } : World).ledger v.ledger :=
          moves_sendStdReq (Or.inr (Or.inr ⟨rfl, _, rfl⟩)) hdpr
        cases sent with
        | true => exact hm
        | false => exact hm.trans (moves_closeAndReset v)
  · exact .refl _

/-- The message of an event is of its kind, and the event is not about a new socket. -/
def Admitted : Event → Prop
  | .tcpAccept _ _ => False
  | .tcpConnected _ _ => False
  | .tcpConnInProg _ => False
  | .cerReceived buf => msgCode buf = ceMsgCode
  | .dwrReceived buf => msgCode buf ≠ ceMsgCode
  | .dprReceived buf => msgCode buf ≠ ceMsgCode
  | _ => True

theorem moves_peerStateMachine {e : Event} {b : Bool}
    (h : peerStateMachine cfg env w e = .ok (b, w')) (he : Admitted e) :
    Moves cfg P w.ledger w'.ledger := by
  cases e with
  -- these three bring a socket, and are described with the functions that open it
  | tcpAccept | tcpConnected | tcpConnInProg => exact absurd he (by simp [Admitted])
  | cerReceived buf => exact moves_onCerReceived he h
  | ceaReceived buf => exact moves_onCeaReceived h
  | dwrReceived buf => exact moves_onDwrReceived he h
  | dprReceived buf => exact moves_onDprReceived he h
  | dwaReceived buf =>
      have h : w.onDwaReceived buf = .ok (b, w') := h
      unfold onDwaReceived at h
      split at h
      · obtain ⟨_, -, hk⟩ := Res.bind_eq_ok h
        obtain ⟨-, rfl⟩ := Prod.mk.inj (Res.ok.inj hk)
        exact .refl _
      · obtain ⟨-, rfl⟩ := Prod.mk.inj (Res.ok.inj h)
        exact .refl _
  | tcpConnFailed =>
      obtain rfl : w.onTcpConnFailed.2 = w' := congrArg Prod.snd (Res.ok.inj h)
      unfold onTcpConnFailed
      split
      · exact moves_resetPeer w
      · exact .refl _
  | tcpConnClose =>
      obtain rfl : w.onTcpConnClose.2 = w' := congrArg Prod.snd (Res.ok.inj h)
      unfold onTcpConnClose
      split
      · exact moves_closeAndReset w
      · exact .refl _
  | dpaReceived buf =>
      obtain rfl : w.onDpaReceived.2 = w' := congrArg Prod.snd (Res.ok.inj h)
      unfold onDpaReceived
      split
      · exact moves_closeAndReset w
      · exact .refl _
  | peerIsInactiv =>
      obtain rfl : (w.onPeerIsInactiv cfg env).2 = w' := congrArg Prod.snd (Res.ok.inj h)
      exact moves_onPeerIsInactiv
  | peerHangup cause =>
      obtain rfl : (w.onPeerHangup cfg env cause).2 = w' := congrArg Prod.snd (Res.ok.inj h)
      exact moves_onPeerHangup
  | peerTrTimeout info =>
      obtain rfl : (w.onPeerTrTimeout info).2 = w' := congrArg Prod.snd (Res.ok.inj h)
      unfold onPeerTrTimeout
      split
      · exact .refl _
      · split
        · exact moves_closeAndReset { w with inActiv := false }
        · exact moves_closeAndReset w
        · exact moves_closeAndReset w
        · exact .refl _
  | peerCerTimeout =>
      obtain rfl : w.onPeerCerTimeout.2 = w' := congrArg Prod.snd (Res.ok.inj h)
      unfold onPeerCerTimeout
      split
      · exact moves_closeAndReset w
      · exact .refl _
  | peerReconnTimeout =>
      obtain rfl : w.onPeerReconnTimeout.2 = w' := congrArg Prod.snd (Res.ok.inj h)
      unfold onPeerReconnTimeout
      split
      · refine .of_eq ?_
        rw [ledger_command _ (by simp)]
        split <;> rfl
      · exact .refl _

/-! ## Commands -/

theorem moves_event {e : Event}
    (h : (do return (← peerStateMachine cfg env w e).2 : Res World) = .ok w') (he : Admitted e) :
    Moves cfg P w.ledger w'.ledger := by
  obtain ⟨⟨b, v⟩, hm, hk⟩ := Res.bind_eq_ok h
  obtain rfl := Res.ok.inj hk
  exact moves_peerStateMachine hm he

/-- The socket of a connect that has finished is the peer's, unless that failed. -/
theorem moves_doConnect {io : SockEnv} {s : Nat} (h : w.doConnect cfg env io s = .ok w') :
    Moves cfg P w.ledger w'.ledger ∨ Moves cfg P { w.ledger with sock := some s } w'.ledger := by
  unfold doConnect at h
  cases hopt : io.sockopt with
  | false =>
      rw [hopt] at h
      obtain ⟨⟨b, v⟩, hm, hk⟩ := Res.bind_eq_ok h
      obtain rfl := Res.ok.inj hk
      have hmv := moves_peerStateMachine (P := P) hm trivial
      exact Or.inl hmv
  | true =>
      rw [hopt] at h
      obtain ⟨⟨b, v⟩, hm, hk⟩ := Res.bind_eq_ok h
      have hv : v.ledger = w'.ledger := by
        dsimp only at hk
        split at hk
        · obtain rfl := Res.ok.inj hk
          rfl
        · obtain rfl := Res.ok.inj hk
          rfl
      rw [← hv, show v = (w.onTcpConnected cfg env s io.localIp).2 from
        (congrArg Prod.snd (Res.ok.inj hm)).symm]
      by_cases hs : w.state = .unconn
      · exact Or.inr (moves_onTcpConnected hs)
      · have hskip : w.onTcpConnected cfg env s io.localIp = (false, w) := by
          unfold onTcpConnected
          split
          · contradiction
          · rfl
        rw [hskip]
        exact Or.inl (.refl _)

theorem moves_tcpConnect {io : SockEnv} (h : w.tcpConnect cfg env io = .ok w') :
    Moves cfg P w.ledger w'.ledger := by
  unfold tcpConnect at h
  cases hsock : io.socket with
  | false =>
      rw [hsock] at h
      obtain ⟨⟨b, v⟩, hm, hk⟩ := Res.bind_eq_ok h
      obtain rfl := Res.ok.inj hk
      exact moves_peerStateMachine hm trivial
  | true =>
      rw [hsock] at h
      set v : World := { w with nextSock := w.nextSock + 1, opened := w.opened ++ [w.nextSock] }
        with hv
      -- the socket is used up in any case; whether the peer takes it is seen below
      have hnew : Moves cfg P w.ledger v.ledger := .socket
      have htake : Moves cfg P w.ledger { v.ledger with sock := some w.nextSock } := .connect
      cases hsu : io.initSu with
      | false =>
          rw [hsu] at h
          obtain ⟨⟨b, v₁⟩, hm, hk⟩ := Res.bind_eq_ok h
          obtain rfl := Res.ok.inj hk
          have hmv := moves_peerStateMachine (P := P) hm trivial
          exact hnew.trans hmv
      | true =>
          rw [hsu] at h
          cases hcon : io.connect with
          | failed =>
              rw [hcon] at h
              obtain ⟨⟨b, v₁⟩, hm, hk⟩ := Res.bind_eq_ok h
              obtain rfl := Res.ok.inj hk
              have hmv := moves_peerStateMachine (P := P) hm trivial
              exact hnew.trans hmv
          | inProgress =>
              rw [hcon] at h
              obtain ⟨⟨b, v₁⟩, hm, hk⟩ := Res.bind_eq_ok h
              have hm : v.onTcpConnInProg w.nextSock = (b, v₁) := Res.ok.inj hm
              dsimp only at hk
              unfold onTcpConnInProg at hm
              split at hm
              · obtain ⟨rfl, rfl⟩ := Prod.mk.inj hm
                obtain rfl := Res.ok.inj hk
                exact htake
              · obtain ⟨rfl, rfl⟩ := Prod.mk.inj hm
                obtain rfl := Res.ok.inj hk
                exact hnew
          | done =>
              rw [hcon] at h
              rcases moves_doConnect (show v.doConnect cfg env io w.nextSock = .ok w' from h) with
                hm | hm
              · exact hnew.trans hm
              · exact htake.trans hm

theorem moves_tcpAccept {io : SockEnv} {s : Nat} (h : w.tcpAccept cfg env io s = .ok w') :
    w'.ledger = w.ledger ∨ w'.ledger = { w.ledger with sock := some s } := by
  unfold tcpAccept at h
  cases hopt : io.sockopt with
  | false =>
      rw [hopt] at h
      obtain rfl := Res.ok.inj h
      exact Or.inl rfl
  | true =>
      rw [hopt] at h
      obtain ⟨⟨b, v⟩, hm, hk⟩ := Res.bind_eq_ok h
      have hm : w.onTcpAccept s io.localIp = (b, v) := Res.ok.inj hm
      have hv : v.ledger = w'.ledger := by
        dsimp only at hk
        split at hk
        · obtain rfl := Res.ok.inj hk
          rfl
        · obtain rfl := Res.ok.inj hk
          rfl
      rw [← hv]
      unfold onTcpAccept at hm
      split at hm
      · obtain ⟨-, rfl⟩ := Prod.mk.inj hm
        refine Or.inr ?_
        -- the timer lists do not show in the ledger
        generalize hu : w.rmvFromTimerList .reconn = u
        have hul : u.ledger = w.ledger := by rw [← hu, ledger_rmvFromTimerList]
        dsimp only
        split
        · rw [← hul]
          exact ledger_addToTimerList ({ u.tcpClose with sock := some s, localIp := io.localIp } : World)
            _ _
        · rw [← hul]
          exact ledger_addToTimerList ({ u with sock := some s, localIp := io.localIp } : World) _ _
      · obtain ⟨-, rfl⟩ := Prod.mk.inj hm
        exact Or.inl rfl

theorem moves_exec {io : SockEnv} {cmd : Cmd} {rest : List Cmd} (hp : w.pipe = cmd :: rest)
    (h : ({ w with pipe := rest } : World).execute cfg env io cmd = .ok w') :
    Moves cfg P w.ledger w'.ledger := by
  -- only an accepted connection shows while it is in the pipe
  have hpop : (∀ s, cmd ≠ .accepted s) → ({ w with pipe := rest } : World).ledger = w.ledger := by
    intro hne
    have hp' : pending (cmd :: rest) = pending rest := by
      cases cmd with
      | accepted s => exact absurd rfl (hne s)
      | _ => rfl
    simp only [ledger, hp, hp']
  cases cmd with
  | addPeer | connect => exact hpop (by simp) ▸ moves_tcpConnect h
  | inactivity | close | reconnTimeout | cerTimeout | trTimeout =>
      exact hpop (by simp) ▸ moves_event h trivial
  | accepted s =>
      have hpend : w.ledger.pending = s :: pending rest := by simp only [ledger, hp]; rfl
      rcases moves_tcpAccept h with hl | hl
      · rw [hl]
        exact .refuse hpend
      · rw [hl]
        exact .take hpend

/-! ## Steps -/

theorem moves_transactionLookup {ete hbh : UInt32} {tr : Trans} {v : World}
    (h : w.transactionLookup ete hbh = some (tr, v)) : Moves cfg P w.ledger v.ledger := by
  unfold transactionLookup at h
  cases hl : w.table.cellLookupAndRemove (w.eteHash ete) hbh with
  | none =>
      rw [hl] at h
      exact absurd h (by simp)
  | some r =>
      obtain ⟨l, t⟩ := r
      rw [hl] at h
      obtain ⟨-, rfl⟩ := Prod.mk.inj (Option.some.inj h)
      obtain ⟨-, -, -, rfl⟩ := HTable.cellLookupAndRemove_some hl
      exact .drop _ List.eraseP_sublist

theorem moves_serveWrite {io : SockEnv} {s : Nat} {ok : Bool} (hs : w.sock = some s)
    (h : w.serveWrite cfg env io s ok = .ok w') : Moves cfg P w.ledger w'.ledger := by
  unfold serveWrite at h
  dsimp only at h
  split at h
  · obtain ⟨⟨b, v⟩, hm, hk⟩ := Res.bind_eq_ok h
    obtain rfl := Res.ok.inj hk
    have hmv := moves_peerStateMachine (P := P) hm trivial
    exact hmv
  · rcases moves_doConnect h with hm | hm
    · exact hm
    · have hsame : ({ w.ledger with sock := some s } : Ledger) = w.ledger := by
        simp only [ledger, hs]
      rw [← hsame]
      exact hm

theorem moves_sendReqToPeer {inPeer : Option Nat} {orig : UInt32} {req : List UInt8}
    (hP : ∀ hbh ete : UInt32, P (setWord req 3 (le 4 hbh.toNat)) ∧ P (stamp req hbh ete)) :
    Moves cfg P w.ledger (w.sendReqToPeer env inPeer orig req).2.ledger := by
  unfold sendReqToPeer
  split
  · exact .refl _
  · cases inPeer with
    | some p => exact moves_request w env.write (endtoendOf req) rfl (hP _ 0).1
    | none =>
        exact moves_request ({ w with endtoendID := w.endtoendID + 1 } : World) env.write
          w.endtoendID rfl (hP _ _).2

theorem moves_work {i : Nat} {parsed : Bool} (h : w.work i parsed = some w') :
    Moves cfg P w.ledger w'.ledger := by
  unfold work at h
  split at h
  · exact absurd h (by simp)
  · rename_i buf _
    set v : World := { w with queue := w.queue.eraseIdx i } with hv
    have hun : Moves cfg P w.ledger v.ledger := .unqueue i
    dsimp only at h
    split at h
    · cases htl : v.transactionLookup (endtoendOf buf) (hopbyhopOf buf) with
      | none =>
          rw [htl] at h
          obtain rfl := Option.some.inj h
          exact hun
      | some r =>
          rw [htl] at h
          obtain ⟨tr, u⟩ := r
          obtain rfl := Option.some.inj h
          exact hun.trans (moves_transactionLookup htl)
    · obtain rfl := Option.some.inj h
      exact hun

theorem moves_expireLink (h : w.expireLink = some w') : Moves cfg P w.ledger w'.ledger := by
  refine .of_eq ?_
  unfold expireLink at h
  split at h
  · exact absurd h (by simp)
  · split at h
    · split at h
      · obtain rfl := Option.some.inj h
        split
        · exact ledger_command _ (by simp)
        · rfl
      · obtain rfl := Option.some.inj h
        exact ledger_command _ (by simp)
    · exact absurd h (by simp)

theorem moves_expireTrans (id : Nat) : Moves cfg P w.ledger (w.expireTrans id).ledger := by
  unfold expireTrans
  dsimp only
  split
  · exact .refl _
  · have hdrop : Moves cfg P w.ledger { w.ledger with table := { w.table with
        cells := w.table.cells.eraseP (fun l => l.payload.id == id) } } :=
      .drop _ List.eraseP_sublist
    split
    · rw [ledger_command _ (by simp)]
      exact hdrop
    · exact hdrop

end

end World

/-- What is known of the messages a worker sends. -/
def Act.Sends (P : List UInt8 → Prop) : Act → Prop
  | .sendReq _ _ _ req => ∀ hbh ete : UInt32, P (setWord req 3 (le 4 hbh.toNat)) ∧ P (stamp req hbh ete)
  | .sendRes _ buf => P buf
  | _ => True

/-- The step reads from the socket. -/
def Act.Reads : Act → Prop
  | .read _ _ _ => True
  | _ => False

namespace World

variable {cfg : Cfg} {P : List UInt8 → Prop} {w w' : World}

/-- **A step that does not read** is a composition of elementary changes. -/
theorem step_moves {a : Act} (hP : a.Sends P) (ha : ¬ a.Reads) (h : step cfg w a = some w') :
    Moves cfg P w.ledger w'.ledger := by
  cases a with
  | read env evs avail => exact absurd trivial ha
  | exec env io =>
      simp only [step] at h
      split at h
      · exact absurd h (by simp)
      · rename_i cmd rest hp
        exact moves_exec hp (ofRes_eq_some h)
  | connectDone env io ok =>
      simp only [step] at h
      split at h
      · exact absurd h (by simp)
      · rename_i s hs
        split at h
        · exact moves_serveWrite hs (ofRes_eq_some h)
        · split at h
          · exact moves_serveWrite hs (ofRes_eq_some h)
          · exact absurd h (by simp)
  | hangup env cause =>
      have h : (do return (← peerStateMachine cfg env w (.peerHangup cause)).2 : Res World) = .ok w' :=
        ofRes_eq_some h
      exact moves_event h trivial
  | sendReq env inPeer orig req =>
      obtain rfl := Option.some.inj h
      exact moves_sendReqToPeer hP
  | sendRes env buf =>
      obtain rfl := Option.some.inj h
      unfold sendResToPeer
      split
      · exact moves_safeWrite _ _ hP
      · exact .refl _
  | work i parsed => exact moves_work h
  | accept =>
      obtain rfl := Option.some.inj h
      have hl : (({ w with nextSock := w.nextSock + 1, opened := w.opened ++ [w.nextSock] } :
          World).command (.accepted w.nextSock)).ledger
          = { w.ledger with nextSock := w.nextSock + 1, pending := w.ledger.pending ++ [w.nextSock] } := by
        simp only [ledger, command, pending_append]
        rfl
      rw [hl]
      exact .accept
  | tick =>
      obtain rfl := Option.some.inj h
      exact .refl _
  | expireLink => exact moves_expireLink h
  | expireActiv =>
      simp only [step, World.expireActiv] at h
      split at h
      · obtain rfl := Option.some.inj h
        exact .of_eq (ledger_command _ (by simp))
      · exact absurd h (by simp)
  | expireTrans id =>
      simp only [step] at h
      split at h
      · obtain rfl := Option.some.inj h
        exact moves_expireTrans id
      · exact absurd h (by simp)

theorem moves_dispatchKind {env : Env} {buf : List UInt8} {req ans : Event}
    (h : (if isReqBuf buf then do return (← peerStateMachine cfg env w req).2
        else match w.transactionLookup (endtoendOf buf) (hopbyhopOf buf) with
          | none => return w
          | some (_, w) => do return (← peerStateMachine cfg env w ans).2 : Res World) = .ok w')
    (hreq : Admitted req) (hans : Admitted ans) : Moves cfg P w.ledger w'.ledger := by
  split at h
  · exact moves_event h hreq
  · cases htl : w.transactionLookup (endtoendOf buf) (hopbyhopOf buf) with
    | none =>
        rw [htl] at h
        obtain rfl := Res.ok.inj h
        exact .refl _
    | some r =>
        rw [htl] at h
        exact (moves_transactionLookup htl).trans (moves_event h hans)

/-- `dispatch_message`: the message is for the peer, or it is queued for the workers. -/
theorem moves_dispatchMessage {env : Env} {buf : List UInt8}
    (h : w.dispatchMessage cfg env buf = .ok w') :
    Moves cfg P w.ledger w'.ledger
    ∨ ¬ Core.ForPeer buf ∧ w'.ledger = { w.ledger with queue := w.queue ++ [buf] } := by
  unfold dispatchMessage at h
  dsimp only at h
  split at h
  · rename_i hc
    have hm := moves_dispatchKind (P := P) h hc trivial
    exact Or.inl hm
  · rename_i hce
    split at h
    · have hm := moves_dispatchKind (P := P) h hce trivial
      exact Or.inl hm
    · rename_i hdw
      split at h
      · have hm := moves_dispatchKind (P := P) h hce trivial
        exact Or.inl hm
      · rename_i hdp
        obtain rfl := Res.ok.inj h
        refine Or.inr ⟨?_, rfl⟩
        rintro (hc | hc | hc)
        · exact hce hc
        · exact hdw hc
        · exact hdp hc

/-- **A step that reads**: what `do_read` hands over is dispatched, or queued for the workers. -/
theorem read_moves {env : Env} {evs : List RecvEv} {avail : List UInt8}
    (h : step cfg w (.read env evs avail) = some w') :
    ∃ s out, w.sock = some s ∧ doRead evs w.rb avail = .ok out
      ∧ (Moves cfg P { w.ledger with rb := out.rb } w'.ledger
        ∨ ∃ buf, out.msg = some buf ∧ ¬ Core.ForPeer buf
          ∧ w'.ledger = { w.ledger with rb := out.rb, queue := w.queue ++ [buf] }) := by
  simp only [step] at h
  split at h
  · exact absurd h (by simp)
  · rename_i s hs
    split at h
    · obtain ⟨out, hout, h⟩ := Res.bind_eq_ok (ofRes_eq_some h)
      refine ⟨s, out, hs, hout, ?_⟩
      cases hmsg : out.msg with
      | none =>
          rw [hmsg] at h
          dsimp only [Res.pure_eq, Res.ok_bind] at h
          split at h
          · obtain rfl := Res.ok.inj h
            exact Or.inl (.refl _)
          -- the connection is gone, and the close of it is an event like others
          · have hm := moves_event (P := P) h trivial
            exact Or.inl hm
      | some buf =>
          rw [hmsg, doRead_msg hout hmsg] at h
          obtain ⟨v, hd, hk⟩ := Res.bind_eq_ok h
          obtain rfl := Res.ok.inj hk
          rcases moves_dispatchMessage (P := P) hd with hm | ⟨hne, hl⟩
          · exact Or.inl hm
          · exact Or.inr ⟨buf, rfl, hne, hl⟩
    · exact absurd h (by simp)

end World

end Disc.Transport
