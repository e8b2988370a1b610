import Disc.Transport.Core

/-!
# The program refines the abstract peer

One lemma for each function of the peer, saying what it does to the abstract view;
handlers are then read off these, and `World.step_core` puts them together.
-/

namespace Disc.Transport

open Disc.Lib Disc.Msg

/-- The socket calls of a connect get as far as a connection, made or pending. -/
def SockEnv.connects (io : SockEnv) : Bool :=
  io.socket && io.initSu
    && (io.connect = .inProgress || (io.connect = .done && io.sockopt))

namespace World

/-! ## Timers and resets -/

theorem core_rmvFromTimerList (w : World) (l : TimerList) :
    (w.rmvFromTimerList l).core = { w.core with tl := w.core.tl.filter (·.1 ≠ l) } := by
  unfold rmvFromTimerList
  cases ht : w.tl with
  | none => simp [World.core, ht]
  | some t =>
      by_cases hl : t.list = l
      · simp [World.core, ht, hl, Option.filter]
      · simp [World.core, ht, hl, Option.filter]

@[simp] theorem core_tcpClose (w : World) : w.tcpClose.core = w.core := rfl

@[simp] theorem core_closeSock (w : World) (s : Option Nat) : (w.closeSock s).core = w.core := rfl

/-- Taking the link out of a list changes nothing else. -/
theorem rmvFromTimerList_eq (w : World) (l : TimerList) :
    w.rmvFromTimerList l = { w with tl := (w.rmvFromTimerList l).tl } := by
  unfold rmvFromTimerList
  cases ht : w.tl with
  | none => simp
  | some t =>
      by_cases hl : t.list = l
      · simp [hl]
      · simp [hl]

/-- Between them the two calls of `reset_peer` always take the link out. -/
theorem rmv_both (w : World) :
    (w.rmvFromTimerList .waitCer).rmvFromTimerList .reconn = { w with tl := none } := by
  have htl : ((w.rmvFromTimerList .waitCer).rmvFromTimerList .reconn).tl = none := by
    cases ht : w.tl with
    | none => simp [rmvFromTimerList, ht]
    | some t => cases hl : t.list <;> simp [rmvFromTimerList, ht, hl]
  rw [rmvFromTimerList_eq, htl, rmvFromTimerList_eq w]

/-- `reset_peer` is the abstract reset, up to the state, which its callers set. -/
theorem core_resetPeer (w : World) :
    w.resetPeer.core = { w.core.reset with state := w.state } := by
  simp only [resetPeer, rmv_both]
  by_cases hf : w.flags &&& peerToDestroy = 0
  · simp [World.core, Core.reset, hf, addToTimerList]
  · simp [World.core, Core.reset, hf]

/-- Closing and resetting is the abstract reset. -/
theorem core_closeAndReset (w : World) : w.closeAndReset.core = w.core.reset := by
  have h : w.closeAndReset.core = { w.tcpClose.resetPeer.core with state := .unconn } := rfl
  rw [h, core_resetPeer]
  rfl

/-- Resetting a peer that is unconnected. -/
theorem core_resetPeer_unconn {w : World} (hs : w.state = .unconn) :
    w.resetPeer.core = w.core.reset := by
  rw [core_resetPeer, hs]
  rfl

/-! ## Sending -/

theorem wrote_safeWrite (w : World) (r : WriteRes) (k : WriteKind) (buf : List UInt8) :
    Core.Wrote k w.core (w.safeWrite r k buf).2.core := by
  cases r with
  | failed =>
      have h := Core.Wrote.broken (k := k) (c := w.core) [] (by simp) (Nat.zero_le 1)
      rw [List.append_nil] at h
      exact h
  | wrote n =>
      unfold safeWrite
      by_cases hn : buf.length ≤ n
      · simp only [hn, if_true, decide_true]
        exact .whole _
      · simp only [hn, if_false, decide_false]
        exact .broken (c := w.core) [⟨w.sock, k, buf.take n, false⟩] (by simp [World.core]) (Nat.le_refl 1)

/-- A `safe_write` that returns -1 wrote nothing. -/
theorem safeWrite_failed (w : World) (r : WriteRes) (k : WriteKind) (buf : List UInt8)
    (h : (w.safeWrite r k buf).1 = false) : (w.safeWrite r k buf).2.core.writes = w.core.writes := by
  cases r with
  | failed => rfl
  | wrote n =>
      have hn : (w.safeWrite (.wrote n) k buf).1 = true := by
        simp only [safeWrite]
        split <;> rfl
      rw [hn] at h
      exact absurd h (by simp)

theorem core_startTrans (w : World) (ete : UInt32) (tr : Trans) :
    (w.startTrans ete tr).2.core
      = w.core.start (w.eteHash ete) (w.startTrans ete tr).1 tr := by
  simp [startTrans, World.core, Core.start, HTable.addCell]

/-- A request that goes out does so with a transaction of the current connection. -/
theorem internalSendRequest_cases (w : World) (env : Env) (code : Nat) (buf : List UInt8) :
    ((w.internalSendRequest env code buf).1 = false ∧ (w.internalSendRequest env code buf).2 = w)
    ∨ ((w.internalSendRequest env code buf).1 = true
      ∧ Core.Requested w.core code (w.internalSendRequest env code buf).2.core) := by
  unfold internalSendRequest
  cases env.trMem with
  | false => exact Or.inl ⟨rfl, rfl⟩
  | true =>
      refine Or.inr ⟨rfl, ?_⟩
      set w₁ : World := { w with endtoendID := w.endtoendID + 1 } with hw₁
      set tr := w.core.internalTrans code with htr
      have hwr := wrote_safeWrite (w₁.startTrans w.endtoendID tr).2 env.write (.req code)
        (setWord (setWord buf 4 (le 4 w.endtoendID.toNat)) 3
          (le 4 (w₁.startTrans w.endtoendID tr).1.toNat))
      rw [core_startTrans] at hwr
      exact ⟨_, _, hwr⟩

/-- The requests of this layer: not sent, and nothing happened, or sent with a transaction. -/
theorem sendStdReq_cases {w w' : World} {cfg : Cfg} {env : Env} {code : Nat} {avps : List UInt8}
    {sent : Bool} (h : w.sendStdReq cfg env code avps = (sent, w')) :
    (sent = false ∧ w' = w) ∨ (sent = true ∧ Core.Requested w.core code w'.core) := by
  unfold sendStdReq at h
  cases hm : env.msgMem with
  | false =>
      rw [hm] at h
      obtain ⟨rfl, rfl⟩ := Prod.mk.inj h
      exact Or.inl ⟨rfl, rfl⟩
  | true =>
      rw [hm] at h
      have hc := internalSendRequest_cases w env code (buildReq cfg code avps)
      rw [show w.internalSendRequest env code (buildReq cfg code avps) = (sent, w') from h] at hc
      exact hc

/-- The answers of this layer: not built, and nothing happened, or written, if only in part. -/
theorem sendStdAns_cases {w w' : World} {cfg : Cfg} {env : Env} {avps req : List UInt8}
    {resCode : UInt32} {sent : Bool} (h : w.sendStdAns cfg env avps req resCode = (sent, w')) :
    (sent = false ∧ w' = w) ∨ (Core.Wrote (.ans (msgCode req) resCode) w.core w'.core
      ∧ (sent = false → w'.core.writes = w.core.writes)) := by
  unfold sendStdAns at h
  cases hm : env.msgMem with
  | false =>
      rw [hm] at h
      obtain ⟨rfl, rfl⟩ := Prod.mk.inj h
      exact Or.inl ⟨rfl, rfl⟩
  | true =>
      rw [hm] at h
      have hw := wrote_safeWrite w env.write (.ans (msgCode req) resCode)
        (buildAns cfg avps req resCode)
      have hf := safeWrite_failed w env.write (.ans (msgCode req) resCode)
        (buildAns cfg avps req resCode)
      rw [show w.safeWrite env.write _ _ = (sent, w') from h] at hw hf
      exact Or.inr ⟨hw, hf⟩

/-- `process_ce` leaves an entry in the log exactly when it succeeds. -/
theorem runProcessCe_cases {w w' : World} {cfg : Cfg} {env : Env} {buf : List UInt8} {isReq : Bool}
    {code : UInt32} (h : w.runProcessCe cfg env buf isReq = .ok (code, w')) :
    (code ≠ aaaSuccess ∧ w' = w)
    ∨ (code = aaaSuccess ∧ ∃ c,
        w' = { w with caps := c, ceLog := w.ceLog ++ [⟨w.sock, isReq, buf, c⟩] }) := by
  unfold runProcessCe at h
  obtain ⟨⟨code', caps⟩, hce, h⟩ := Res.bind_eq_ok h
  rcases processCe_cases hce with ⟨hne, rfl⟩ | ⟨he, c, rfl⟩
  · simp only [Res.pure_eq, Res.ok.injEq, Prod.mk.injEq] at h
    exact Or.inl ⟨h.1 ▸ hne, h.2.symm⟩
  · simp only [Res.pure_eq, Res.ok.injEq, Prod.mk.injEq] at h
    exact Or.inr ⟨h.1 ▸ he, c, h.2.symm⟩

/-! ## Connections -/

theorem core_onTcpAccept {w : World} (hs : w.state = .unconn) (s : Nat) (ip : IpAddr) :
    (w.onTcpAccept s ip).1 = true
      ∧ Core.Exec .opens (.accepted s) w.core (w.onTcpAccept s ip).2.core := by
  have hc : w.core.state = .unconn := hs
  have hex := Core.Exec.accepted (s := s) hc
  unfold onTcpAccept
  simp only [hs, true_and]
  -- the flags decide whether the pending socket is closed, which the abstract peer does not see
  suffices h : ∀ v : World, v = w.rmvFromTimerList .reconn ∨ v = (w.rmvFromTimerList .reconn).tcpClose →
      Core.Exec .opens (.accepted s) w.core
        ({ ({ v with sock := some s, localIp := ip } : World).addToTimerList .waitCer
          (v.jiffies + waitCerTimeout) with state := .waitCer } : World).core by
    split
    · exact h _ (Or.inr rfl)
    · exact h _ (Or.inl rfl)
  rintro v (rfl | rfl)
  · cases ht : w.tl with
    | none => simpa [rmvFromTimerList, addToTimerList, World.core, ht] using hex
    | some t =>
        cases hl : t.list <;>
          simpa [rmvFromTimerList, addToTimerList, World.core, ht, hl] using hex
  · cases ht : w.tl with
    | none => simpa [rmvFromTimerList, addToTimerList, World.core, ht, tcpClose, closeSock] using hex
    | some t =>
        cases hl : t.list <;>
          simpa [rmvFromTimerList, addToTimerList, World.core, ht, hl, tcpClose, closeSock] using hex

/-- A CER goes out on a new connection, or the connection is given up at once. -/
theorem core_onTcpConnected {w : World} (hs : w.state = .unconn) (cfg : Cfg) (env : Env) (s : Nat)
    (ip : IpAddr) : (w.onTcpConnected cfg env s ip).1 = true
      ∧ ((w.onTcpConnected cfg env s ip).2.core = ({ w.core with flags := 0, sock := some s }).reset
        ∨ ∃ c, Core.Requested { w.core with flags := 0, sock := some s } ceMsgCode c
          ∧ (w.onTcpConnected cfg env s ip).2.core = { c with state := .waitCea }) := by
  unfold onTcpConnected
  split
  · set v : World := { w with flags := 0, sock := some s, localIp := ip } with hv
    cases hcer : v.sendCer cfg env with
    | mk sent v' =>
        rcases sendStdReq_cases hcer with ⟨rfl, rfl⟩ | ⟨rfl, hreq⟩
        · simp only [hcer, true_and]
          refine Or.inl ?_
          have hu : v.tcpClose.state = .unconn := hs
          rw [core_resetPeer_unconn hu, core_tcpClose]
          rfl
        · simp only [hcer, true_and]
          exact Or.inr ⟨_, hreq, rfl⟩
  · rename_i hne
    exact absurd hs hne

/-! ## Messages -/

/-- The connection is given up, with nothing done before but perhaps a failed answer. -/
theorem handled_reset {buf : List UInt8} {c c' : Core} (hs : c.state ≠ .unconn)
    (hw : Core.LastWords buf c.state c c') : Core.Handled buf c c'.reset :=
  .gaveUp (l := []) (t := c.tl) hs (by rw [List.append_nil]) hw (by simp)

theorem handled_cea {w w' : World} {cfg : Cfg} {env : Env} {buf : List UInt8} {b : Bool}
    (hr : isReqBuf buf = false) (hc : msgCode buf = ceMsgCode)
    (h : w.onCeaReceived cfg env buf = .ok (b, w')) : Core.Handled buf w.core w'.core := by
  rcases onCeaReceived_cases h with ⟨hne, rfl⟩ | ⟨code, v, hs, hce, hk⟩
  · exact .ignored (fun _ => ⟨fun ⟨_, hs⟩ => hne hs, by simp [hc, ceMsgCode, dwMsgCode],
      by simp [hc, ceMsgCode, dpMsgCode]⟩) fun hf => absurd hf (by simp [hr])
  · have hne : w.core.state ≠ .unconn := by rw [show w.core.state = _ from hs]; decide
    rcases runProcessCe_cases hce with ⟨hcode, rfl⟩ | ⟨rfl, caps, rfl⟩
    · rcases hk with ⟨-, rfl⟩ | ⟨hsucc, -⟩
      · rw [core_closeAndReset]
        exact handled_reset hne .none
      · exact absurd hsucc hcode
    · rcases hk with ⟨hcode, -⟩ | ⟨-, rfl⟩
      · exact absurd rfl hcode
      · exact .cea (c := w.core) hr hs hc

theorem handled_cer {w w' : World} {cfg : Cfg} {env : Env} {buf : List UInt8} {b : Bool}
    (hr : isReqBuf buf = true) (hc : msgCode buf = ceMsgCode)
    (h : w.onCerReceived cfg env buf = .ok (b, w')) : Core.Handled buf w.core w'.core := by
  rcases onCerReceived_cases h with ⟨hne, -, rfl⟩ | ⟨u, res, v, sent, v', hu, hce, hcea, hk⟩
  · exact .ignored (fun hf => absurd hf (by simp [hr])) fun _ _ => hne
  have hcore : (w.core.state = .waitCer ∧ u.core = { w.core with tl := w.core.tl.filter (·.1 ≠ .waitCer) })
      ∨ (w.core.state = .waitCea ∧ u.core = w.core) := by
    rcases hu with ⟨hs, rfl⟩ | ⟨hs, rfl⟩
    · exact Or.inl ⟨hs, core_rmvFromTimerList _ _⟩
    · exact Or.inr ⟨hs, rfl⟩
  have hlog : ∃ t, u.core = { w.core with tl := t } := by
    rcases hcore with ⟨-, h⟩ | ⟨-, h⟩
    · exact ⟨_, h⟩
    · exact ⟨w.core.tl, h⟩
  have hst : w.core.state = .waitCer ∨ w.core.state = .waitCea := hcore.imp And.left And.left
  have hne : w.core.state ≠ .unconn := by
    rcases hst with hs | hs <;> rw [hs] <;> decide
  have hans := sendStdAns_cases hcea
  rw [hc] at hans
  rcases hk with ⟨hbad, rfl⟩ | ⟨rfl, rfl, rfl⟩
  · rw [core_closeAndReset]
    -- the answer says success only if it could not be written
    have hans' : Core.LastWords buf w.core.state v.core v'.core := by
      rcases hans with ⟨-, rfl⟩ | ⟨hw, hf⟩
      · exact .none
      · refine .refused hr hc hst hw ?_
        intro hres
        refine hf ?_
        simpa [hres] using hbad
    obtain ⟨t, ht⟩ := hlog
    rcases runProcessCe_cases hce with ⟨-, rfl⟩ | ⟨-, caps, rfl⟩
    · exact .gaveUp (l := []) (t := t) hne (by rw [List.append_nil, ht]) hans' (by simp)
    · have hsock : u.sock = w.core.sock := congrArg Core.sock ht
      refine .gaveUp (l := [⟨u.sock, true, buf, caps⟩]) (t := t) hne ?_ hans' (by simpa using hsock)
      show ({ u.core with ceLog := u.core.ceLog ++ [⟨u.sock, true, buf, caps⟩] } : Core) = _
      rw [ht]
  · rcases runProcessCe_cases hce with ⟨hcode, -⟩ | ⟨-, caps, rfl⟩
    · exact absurd rfl hcode
    · rcases hans with ⟨hf, -⟩ | ⟨hw, -⟩
      · exact absurd hf (by simp)
      · exact .cer (c := w.core) hr hcore hw hc

theorem handled_dwr {w w' : World} {cfg : Cfg} {env : Env} {buf : List UInt8} {b : Bool}
    (hr : isReqBuf buf = true) (hc : msgCode buf = dwMsgCode)
    (h : w.onDwrReceived cfg env buf = .ok (b, w')) : Core.Handled buf w.core w'.core := by
  have hce : msgCode buf ≠ ceMsgCode := by rw [hc]; decide
  rcases onDwrReceived_cases h with ⟨-, rfl⟩ | ⟨res, sent, v, hs, hdwa, hk⟩
  · exact .ignored (fun hf => absurd hf (by simp [hr])) fun _ hf => absurd hf hce
  have hne : w.core.state ≠ .unconn := by
    rcases hs with hs | hs | hs <;> rw [show w.core.state = _ from hs] <;> decide
  have hans := sendStdAns_cases hdwa
  rcases hk with ⟨-, rfl⟩ | ⟨rfl, rfl, rfl⟩
  · rw [core_closeAndReset]
    rcases hans with ⟨-, rfl⟩ | ⟨hw, -⟩
    · exact handled_reset hne .none
    · exact handled_reset hne (.answered hr hce hs hw)
  · rcases hans with ⟨hf, -⟩ | ⟨hw, -⟩
    · exact absurd hf (by simp)
    · rw [hc] at hw
      exact .dwr hr hs hw

theorem handled_dwa {w w' : World} {buf : List UInt8} {b : Bool} (hr : isReqBuf buf = false)
    (hc : msgCode buf = dwMsgCode) (h : w.onDwaReceived buf = .ok (b, w')) :
    Core.Handled buf w.core w'.core := by
  unfold onDwaReceived at h
  split at h
  · rename_i hs
    obtain ⟨_, -, hk⟩ := Res.bind_eq_ok h
    obtain ⟨-, rfl⟩ := Prod.mk.inj (Res.ok.inj hk)
    exact .dwa (c := w.core) hr hs
  · rename_i hne
    obtain ⟨-, rfl⟩ := Prod.mk.inj (Res.ok.inj h)
    exact .ignored (fun _ => ⟨by simp [hc, ceMsgCode, dwMsgCode], fun ⟨_, hs⟩ => hne hs,
      by simp [hc, dpMsgCode, dwMsgCode]⟩) fun hf => absurd hf (by simp [hr])

theorem handled_dpr {w w' : World} {cfg : Cfg} {env : Env} {buf : List UInt8} {b : Bool}
    (hr : isReqBuf buf = true) (hc : msgCode buf = dpMsgCode)
    (h : w.onDprReceived cfg env buf = .ok (b, w')) : Core.Handled buf w.core w'.core := by
  have hce : msgCode buf ≠ ceMsgCode := by rw [hc]; decide
  rcases onDprReceived_cases h with ⟨-, rfl⟩ | ⟨res, sent, v, hs, hdpa, rfl⟩
  · exact .ignored (fun hf => absurd hf (by simp [hr])) fun _ hf => absurd hf hce
  have hne : w.core.state ≠ .unconn := by
    rcases hs with hs | hs | hs <;> rw [show w.core.state = _ from hs] <;> decide
  rw [core_closeAndReset]
  rcases sendStdAns_cases hdpa with ⟨-, rfl⟩ | ⟨hw, -⟩
  · exact handled_reset hne .none
  · exact handled_reset hne (.answered hr hce hs hw)

theorem handled_dpa {w : World} {buf : List UInt8} (hr : isReqBuf buf = false)
    (hc : msgCode buf = dpMsgCode) :
    Core.Handled buf w.core w.onDpaReceived.2.core := by
  unfold onDpaReceived
  split
  · rename_i hs
    have hne : w.core.state ≠ .unconn := by rw [show w.core.state = _ from hs]; decide
    show Core.Handled buf w.core w.closeAndReset.core
    rw [core_closeAndReset]
    exact handled_reset hne .none
  · rename_i hne
    exact .ignored (fun _ => ⟨by simp [hc, ceMsgCode, dpMsgCode], by simp [hc, dpMsgCode, dwMsgCode],
      fun ⟨_, hs⟩ => hne hs⟩) fun hf => absurd hf (by simp [hr])

/-! ## Commands -/

theorem core_onTcpConnFailed (w : World) :
    w.onTcpConnFailed.2.core = w.core ∧ w.state ≠ .unconn
    ∨ w.onTcpConnFailed.2.core = w.core.reset ∧ w.state = .unconn := by
  unfold onTcpConnFailed
  split
  · rename_i hs
    refine Or.inr ⟨?_, hs⟩
    show ({ w.resetPeer.core with state := .unconn } : Core) = _
    rw [core_resetPeer_unconn hs]
    rfl
  · rename_i hne
    exact Or.inl ⟨rfl, hne⟩

theorem core_onTcpConnClose (w : World) :
    w.onTcpConnClose.2.core = w.core ∧ w.state = .unconn ∧ ¬ w.core.InProg
    ∨ w.onTcpConnClose.2.core = w.core.reset ∧ (w.state ≠ .unconn ∨ w.core.InProg) := by
  unfold onTcpConnClose
  split
  · rename_i hs
    exact Or.inr ⟨core_closeAndReset w, hs⟩
  · rename_i hs
    rw [not_or, not_not] at hs
    exact Or.inl ⟨rfl, hs⟩

/-- `do_connect`, on the connection the peer has been waiting for or on one made at once. -/
theorem core_doConnect {w w' : World} {cfg : Cfg} {env : Env} {io : SockEnv} {s : Nat}
    (h : w.doConnect cfg env io s = .ok w') :
    w'.core = w.core ∧ w.state ≠ .unconn
    ∨ w.state = .unconn ∧ (w'.core = w.core.reset
      ∨ io.sockopt = true ∧ w'.core = ({ w.core with flags := 0, sock := some s }).reset
      ∨ io.sockopt = true ∧ ∃ c, Core.Requested { w.core with flags := 0, sock := some s } ceMsgCode c
        ∧ w'.core = { c with state := .waitCea }) := by
  unfold doConnect at h
  cases hopt : io.sockopt with
  | false =>
      rw [hopt] at h
      obtain ⟨⟨b, v⟩, hm, hk⟩ := Res.bind_eq_ok h
      obtain ⟨-, rfl⟩ := Prod.mk.inj (Res.ok.inj hm)
      obtain rfl := Res.ok.inj hk
      rw [core_closeSock]
      rcases core_onTcpConnFailed w with ⟨hc, hs⟩ | ⟨hc, hs⟩
      · exact Or.inl ⟨hc, hs⟩
      · exact Or.inr ⟨hs, Or.inl hc⟩
  | true =>
      rw [hopt] at h
      obtain ⟨⟨b, v⟩, hm, hk⟩ := Res.bind_eq_ok h
      have hm : w.onTcpConnected cfg env s io.localIp = (b, v) := Res.ok.inj hm
      dsimp only at hk
      by_cases hs : w.state = .unconn
      · have hc := core_onTcpConnected hs cfg env s io.localIp
        rw [hm] at hc
        obtain ⟨rfl, hc⟩ := hc
        obtain rfl := Res.ok.inj hk
        rcases hc with hc | hc
        · exact Or.inr ⟨hs, Or.inr (Or.inl ⟨rfl, hc⟩)⟩
        · exact Or.inr ⟨hs, Or.inr (Or.inr ⟨rfl, hc⟩)⟩
      -- the event is refused in any other state, and the socket is closed again
      · have hskip : w.onTcpConnected cfg env s io.localIp = (false, w) := by
          unfold onTcpConnected
          split
          · contradiction
          · rfl
        rw [hskip] at hm
        obtain ⟨rfl, rfl⟩ := Prod.mk.inj hm
        obtain rfl := Res.ok.inj hk
        exact Or.inl ⟨rfl, hs⟩

/-- `tcp_connect`: it is skipped, it fails, or it leads to a connection, made or pending. -/
theorem core_tcpConnect {w w' : World} {cfg : Cfg} {env : Env} {io : SockEnv} {cmd : Cmd}
    (hcmd : cmd = .addPeer ∨ cmd = .connect) (h : w.tcpConnect cfg env io = .ok w') :
    Core.Exec .quiet cmd w.core w'.core
    ∨ (Core.Exec .opens cmd w.core w'.core ∧ w.state = .unconn ∧ io.connects = true) := by
  have hcmd' : cmd = .addPeer ∨ cmd = .connect ∨ ∃ s, cmd = .accepted s := by
    rcases hcmd with h | h
    · exact Or.inl h
    · exact Or.inr (Or.inl h)
  -- what `TCP_CONN_FAILED` does, from whatever socket is closed on the way
  have hfail : ∀ v : World, v.core = w.core → Core.Exec .quiet cmd w.core v.onTcpConnFailed.2.core := by
    intro v hv
    have hst : v.state = w.state := congrArg Core.state hv
    rcases core_onTcpConnFailed v with ⟨hc, hs⟩ | ⟨hc, hs⟩
    · rw [hc, hv]
      exact .skipOpen hcmd' fun _ => by rw [← hv]; exact hs
    · rw [hc, hv]
      exact .connectFailed hcmd (hst.symm.trans hs)
  unfold tcpConnect at h
  cases hsock : io.socket with
  | false =>
      rw [hsock] at h
      obtain ⟨⟨b, v⟩, hm, hk⟩ := Res.bind_eq_ok h
      obtain ⟨-, rfl⟩ := Prod.mk.inj (Res.ok.inj hm)
      obtain rfl := Res.ok.inj hk
      exact Or.inl (hfail w rfl)
  | true =>
      rw [hsock] at h
      cases hsu : io.initSu with
      | false =>
          rw [hsu] at h
          obtain ⟨⟨b, v⟩, hm, hk⟩ := Res.bind_eq_ok h
          obtain ⟨-, rfl⟩ := Prod.mk.inj (Res.ok.inj hm)
          obtain rfl := Res.ok.inj hk
          exact Or.inl (hfail _ rfl)
      | true =>
          rw [hsu] at h
          cases hcon : io.connect with
          | failed =>
              rw [hcon] at h
              obtain ⟨⟨b, v⟩, hm, hk⟩ := Res.bind_eq_ok h
              obtain ⟨-, rfl⟩ := Prod.mk.inj (Res.ok.inj hm)
              obtain rfl := Res.ok.inj hk
              exact Or.inl (hfail _ rfl)
          | inProgress =>
              rw [hcon] at h
              obtain ⟨⟨b, v⟩, hm, hk⟩ := Res.bind_eq_ok h
              have hm := Res.ok.inj hm
              dsimp only at hk
              unfold onTcpConnInProg at hm
              split at hm
              · rename_i hs
                obtain ⟨rfl, rfl⟩ := Prod.mk.inj hm
                obtain rfl := Res.ok.inj hk
                exact Or.inr ⟨.connectInProg hcmd hs, hs, by simp [SockEnv.connects, hsock, hsu, hcon]⟩
              · rename_i hs
                obtain ⟨rfl, rfl⟩ := Prod.mk.inj hm
                obtain rfl := Res.ok.inj hk
                exact Or.inl (.skipOpen hcmd' fun _ => hs)
          | done =>
              rw [hcon] at h
              rcases core_doConnect (show doConnect _ cfg env io w.nextSock = .ok w' from h) with
                ⟨hc, hs⟩ | ⟨hs, hc | ⟨hopt, hc⟩ | ⟨hopt, c, hreq, hc⟩⟩
              · rw [hc]
                exact Or.inl (.skipOpen hcmd' fun _ => hs)
              · rw [hc]
                exact Or.inl (.connectFailed hcmd hs)
              · rw [hc]
                exact Or.inl (.connectedFailed hcmd hs)
              · rw [hc]
                exact Or.inr ⟨.connected hcmd hs hreq, hs,
                  by simp [SockEnv.connects, hsock, hsu, hcon, hopt]⟩

/-- `tcp_accept`: the peer takes the connection, or it is closed again. -/
theorem core_tcpAccept {w w' : World} {cfg : Cfg} {env : Env} {io : SockEnv} {s : Nat}
    (h : w.tcpAccept cfg env io s = .ok w') :
    Core.Exec .quiet (.accepted s) w.core w'.core
    ∨ (Core.Exec .opens (.accepted s) w.core w'.core ∧ w.state = .unconn ∧ io.sockopt = true) := by
  have hskip : Core.Exec .quiet (.accepted s) w.core w.core :=
    .skipOpen (Or.inr (Or.inr ⟨s, rfl⟩)) (by simp)
  unfold tcpAccept at h
  cases hopt : io.sockopt with
  | false =>
      rw [hopt] at h
      obtain rfl := Res.ok.inj h
      exact Or.inl hskip
  | true =>
      rw [hopt] at h
      obtain ⟨⟨b, v⟩, hm, hk⟩ := Res.bind_eq_ok h
      have hm : w.onTcpAccept s io.localIp = (b, v) := Res.ok.inj hm
      by_cases hs : w.state = .unconn
      · have hc := core_onTcpAccept hs s io.localIp
        rw [hm] at hc
        obtain ⟨rfl, hc⟩ := hc
        obtain rfl := Res.ok.inj hk
        exact Or.inr ⟨hc, hs, rfl⟩
      · have hno : w.onTcpAccept s io.localIp = (false, w) := by
          unfold onTcpAccept
          split
          · contradiction
          · rfl
        rw [hno] at hm
        obtain ⟨rfl, rfl⟩ := Prod.mk.inj hm
        obtain rfl := Res.ok.inj hk
        exact Or.inl hskip

theorem core_onPeerIsInactiv (w : World) (cfg : Cfg) (env : Env) :
    Core.Exec .quiet .inactivity w.core (w.onPeerIsInactiv cfg env).2.core := by
  unfold onPeerIsInactiv
  split
  · rename_i hs
    split
    · cases hdwr : w.sendDwr cfg env with
      | mk sent v =>
          rcases sendStdReq_cases hdwr with ⟨rfl, rfl⟩ | ⟨rfl, hreq⟩
          · exact .inactivSkip
          · exact .inactivSent hs hreq
    · exact .inactivSkip
  · exact .inactivSkip

theorem core_onPeerReconnTimeout (w : World) :
    Core.Exec .quiet .reconnTimeout w.core w.onPeerReconnTimeout.2.core := by
  unfold onPeerReconnTimeout
  split
  · rename_i hs
    have h := Core.Exec.reconn (c := w.core) hs
    dsimp only
    split
    · exact h
    · exact h
  · rename_i hs
    exact .reconnSkip hs

theorem core_onPeerCerTimeout (w : World) (k : Option Nat) :
    Core.Exec .quiet (.cerTimeout k) w.core w.onPeerCerTimeout.2.core := by
  unfold onPeerCerTimeout
  split
  · rename_i hs
    show Core.Exec .quiet (.cerTimeout k) w.core w.closeAndReset.core
    rw [core_closeAndReset]
    exact .cer hs
  · rename_i hs
    exact .cerSkip hs

theorem core_onPeerTrTimeout (w : World) (info : UInt32) (o : Origin) :
    Core.Exec .quiet (.trTimeout info o) w.core (w.onPeerTrTimeout info).2.core := by
  unfold onPeerTrTimeout
  split
  -- a timeout from an earlier connection
  · rename_i hi
    exact .trSkip (Or.inl hi)
  · rename_i hi
    rw [not_not] at hi
    split
    · rename_i hs
      show Core.Exec _ _ _ ({ w with inActiv := false } : World).closeAndReset.core
      rw [core_closeAndReset]
      exact .tr (c := w.core) hi (Or.inr (Or.inl hs))
    · rename_i hs
      show Core.Exec _ _ _ w.closeAndReset.core
      rw [core_closeAndReset]
      exact .tr (c := w.core) hi (Or.inl hs)
    · rename_i hs
      show Core.Exec _ _ _ w.closeAndReset.core
      rw [core_closeAndReset]
      exact .tr (c := w.core) hi (Or.inr (Or.inr hs))
    · rename_i h₁ h₂ h₃
      exact .trSkip (Or.inr ⟨h₂, h₁, h₃⟩)

/-- A command, taken out of the pipe and executed. -/
theorem core_execute {w w' : World} {cfg : Cfg} {env : Env} {io : SockEnv} {cmd : Cmd}
    (h : w.execute cfg env io cmd = .ok w') :
    Core.Exec .quiet cmd w.core w'.core
    ∨ (Core.Exec .opens cmd w.core w'.core ∧ w.state = .unconn
      ∧ ((cmd = .addPeer ∨ cmd = .connect) ∧ io.connects = true
        ∨ (∃ s, cmd = .accepted s) ∧ io.sockopt = true)) := by
  cases cmd with
  | addPeer =>
      rcases core_tcpConnect (Or.inl rfl) h with he | ⟨he, hs, hio⟩
      · exact Or.inl he
      · exact Or.inr ⟨he, hs, Or.inl ⟨Or.inl rfl, hio⟩⟩
  | connect =>
      rcases core_tcpConnect (Or.inr rfl) h with he | ⟨he, hs, hio⟩
      · exact Or.inl he
      · exact Or.inr ⟨he, hs, Or.inl ⟨Or.inr rfl, hio⟩⟩
  | accepted s =>
      rcases core_tcpAccept h with he | ⟨he, hs, hio⟩
      · exact Or.inl he
      · exact Or.inr ⟨he, hs, Or.inr ⟨⟨s, rfl⟩, hio⟩⟩
  | inactivity =>
      obtain rfl := Res.ok.inj h
      exact Or.inl (core_onPeerIsInactiv w cfg env)
  | close o =>
      obtain rfl := Res.ok.inj h
      rcases core_onTcpConnClose w with ⟨hc, hs, hi⟩ | ⟨hc, hs⟩
      · rw [show _ = w.core from hc]
        exact Or.inl (.closeSkip hs hi)
      · rw [show _ = w.core.reset from hc]
        exact Or.inl (.close hs)
  | reconnTimeout =>
      obtain rfl := Res.ok.inj h
      exact Or.inl (core_onPeerReconnTimeout w)
  | cerTimeout k =>
      obtain rfl := Res.ok.inj h
      exact Or.inl (core_onPeerCerTimeout w k)
  | trTimeout info o =>
      obtain rfl := Res.ok.inj h
      exact Or.inl (core_onPeerTrTimeout w info o)

/-! ## Reading and the workers -/

/-- `transaction_lookup` ends the transaction its two numbers select. -/
theorem transactionLookup_some {w w' : World} {ete hbh : UInt32} {tr : Trans}
    (h : w.transactionLookup ete hbh = some (tr, w')) :
    ∃ l, w.table.cellLookup (w.eteHash ete) hbh = some l ∧ l.payload = tr
      ∧ w'.core = w.core.drop (·.is (w.eteHash ete) hbh) l.payload.id := by
  unfold transactionLookup HTable.cellLookupAndRemove at h
  cases hl : w.table.cellLookup (w.eteHash ete) hbh with
  | none =>
      rw [hl] at h
      exact absurd h (by simp)
  | some l =>
      rw [hl] at h
      obtain ⟨rfl, rfl⟩ := Prod.mk.inj (Option.some.inj h)
      refine ⟨l, rfl, rfl, ?_⟩
      simp only [World.core, Core.drop, Core.mk.injEq, true_and, and_true, List.filter_map]
      rfl

/-- The cell an answer selects. -/
def selects (w : World) (buf : List UInt8) : Option (HLink Trans) :=
  w.table.cellLookup (w.eteHash (endtoendOf buf)) (hopbyhopOf buf)

/-- What `dispatch_message` does with a CE, DW or DP message, given what the events do. -/
theorem core_dispatchKind {w w' : World} {cfg : Cfg} {env : Env} {buf : List UInt8} {req ans : Event}
    (hfor : Core.ForPeer buf)
    (hreq : ∀ b v v', isReqBuf buf = true → peerStateMachine cfg env v req = .ok (b, v') →
      Core.Handled buf v.core v'.core)
    (hans : ∀ b v v', isReqBuf buf = false → peerStateMachine cfg env v ans = .ok (b, v') →
      Core.Handled buf v.core v'.core)
    (h : (if isReqBuf buf then do return (← peerStateMachine cfg env w req).2
        else match w.transactionLookup (endtoendOf buf) (hopbyhopOf buf) with
          -- an answer to no transaction is dropped
          | none => return w
          | some (_, w) => do return (← peerStateMachine cfg env w ans).2 : Res World) = .ok w') :
    Core.Step .quiet w.core w'.core ∨ Core.Step (.hears buf) w.core w'.core
    ∨ (isReqBuf buf = false ∧ ∃ l, w.selects buf = some l
      ∧ Core.Step (.ends buf l) w.core w'.core) := by
  cases hr : isReqBuf buf with
  | true =>
      rw [hr] at h
      obtain ⟨⟨b, v⟩, hm, hk⟩ := Res.bind_eq_ok h
      obtain rfl := Res.ok.inj hk
      exact Or.inr (Or.inl (.request hr (hreq b w v hr hm)))
  | false =>
      rw [hr] at h
      cases htl : w.transactionLookup (endtoendOf buf) (hopbyhopOf buf) with
      | none =>
          rw [htl] at h
          obtain rfl := Res.ok.inj h
          exact Or.inl .idle
      | some r =>
          rw [htl] at h
          obtain ⟨tr, v⟩ := r
          obtain ⟨⟨b, v'⟩, hm, hk⟩ := Res.bind_eq_ok h
          obtain rfl := Res.ok.inj hk
          obtain ⟨l, hl, -, hcore⟩ := transactionLookup_some htl
          have hh := hans b v v' hr hm
          rw [hcore] at hh
          exact Or.inr (Or.inr ⟨rfl, l, hl, .answer hr hfor hl hh⟩)

/-- `dispatch_message`: the message is handled or queued, and an answer may end a transaction. -/
theorem core_dispatchMessage {w w' : World} {cfg : Cfg} {env : Env} {buf : List UInt8}
    (h : w.dispatchMessage cfg env buf = .ok w') :
    Core.Step .quiet w.core w'.core ∨ Core.Step (.hears buf) w.core w'.core
    ∨ (isReqBuf buf = false ∧ ∃ l, w.selects buf = some l
      ∧ Core.Step (.ends buf l) w.core w'.core) := by
  unfold dispatchMessage at h
  dsimp only at h
  split at h
  · rename_i hc
    refine core_dispatchKind (w := { w with lastActivTime := w.jiffies }) (Or.inl hc) ?_ ?_ h
    · intro b v v' hr hm
      exact handled_cer hr hc hm
    · intro b v v' hr hm
      exact handled_cea hr hc hm
  · rename_i hnce
    split at h
    · rename_i hc
      refine core_dispatchKind (w := { w with lastActivTime := w.jiffies })
        (Or.inr (Or.inl hc)) ?_ ?_ h
      · intro b v v' hr hm
        exact handled_dwr hr hc hm
      · intro b v v' hr hm
        exact handled_dwa hr hc hm
    · rename_i hndw
      split at h
      · rename_i hc
        refine core_dispatchKind (w := { w with lastActivTime := w.jiffies })
          (Or.inr (Or.inr hc)) ?_ ?_ h
        · intro b v v' hr hm
          exact handled_dpr hr hc hm
        · intro b v v' hr hm
          have hv : v.onDpaReceived = (b, v') := Res.ok.inj hm
          have hh := handled_dpa (w := v) hr hc
          rw [hv] at hh
          exact hh
      · rename_i hndp
        obtain rfl := Res.ok.inj h
        -- anything else is for the workers, whatever state the peer is in
        refine Or.inl (.enqueue (c := w.core) ?_)
        rintro (hc | hc | hc)
        · exact hnce hc
        · exact hndw hc
        · exact hndp hc

/-- The message a step reads, if it reads one. -/
def message (w : World) : Act → Option (List UInt8)
  | .read _ evs avail =>
      match doRead evs w.rb avail with
      | .ok out => out.msg
      | _ => none
  | _ => none

/-- The answer a step takes up, if it takes up one. -/
def answer (w : World) : Act → Option (List UInt8)
  | .read _ evs avail =>
      match doRead evs w.rb avail with
      | .ok out => out.msg.filter (fun buf => !isReqBuf buf)
      | _ => none
  | .work i true => w.queue[i]?.filter (fun buf => !isReqBuf buf)
  | _ => none

/-- The step gives the peer a new connection. -/
def opens (w : World) : Act → Bool
  | .exec _ io =>
      match w.pipe with
      | .addPeer :: _ => w.state = .unconn && io.connects
      | .connect :: _ => w.state = .unconn && io.connects
      | .accepted _ :: _ => w.state = .unconn && io.sockopt
      | _ => false
  | _ => false

end World

/-- What an abstract operation says about the step that made it. -/
def Core.Op.Of (w : World) (a : Act) : Core.Op → Prop
  | .quiet => True
  | .opens => w.opens a = true
  | .hears buf => w.message a = some buf
  | .ends buf l => w.answer a = some buf ∧ w.selects buf = some l

namespace World

theorem core_serveRead {w w' : World} {cfg : Cfg} {env : Env} {evs : List RecvEv}
    {avail : List UInt8} (h : w.serveRead cfg env evs avail = .ok w') :
    ∃ op, Core.Step op w.core w'.core ∧ op.Of w (.read env evs avail) := by
  unfold serveRead at h
  obtain ⟨out, hout, hk⟩ := Res.bind_eq_ok h
  dsimp only at hk
  cases hm : out.msg with
  | some buf =>
      rw [hm] at hk
      obtain ⟨v, hd, hk⟩ := Res.bind_eq_ok hk
      rw [if_pos (doRead_msg hout hm)] at hk
      obtain rfl := Res.ok.inj hk
      rcases core_dispatchMessage hd with hq | hs | ⟨hr, l, hl, hs⟩
      · exact ⟨.quiet, hq, trivial⟩
      · refine ⟨.hears buf, hs, ?_⟩
        simp [Core.Op.Of, message, hout, hm]
      · refine ⟨.ends buf l, hs, ?_, hl⟩
        simp [answer, hout, hm, hr]
  | none =>
      rw [hm] at hk
      simp only [Res.pure_eq, Res.ok_bind] at hk
      refine ⟨.quiet, ?_, trivial⟩
      split at hk
      · obtain rfl := Res.ok.inj hk
        exact .idle
      · obtain rfl := Res.ok.inj hk
        -- the read failed, and `TCP_CONN_CLOSE` is raised on the spot
        rcases core_onTcpConnClose { w with rb := out.rb } with ⟨hc, -, -⟩ | ⟨hc, hs⟩
        · rw [show _ = w.core from hc]
          exact .idle
        · rw [show _ = w.core.reset from hc]
          exact .broke hs

theorem core_serveWrite {w w' : World} {cfg : Cfg} {env : Env} {io : SockEnv} {s : Nat} {ok : Bool}
    (hsock : w.sock = some s) (h : w.serveWrite cfg env io s ok = .ok w') :
    Core.Step .quiet w.core w'.core := by
  have hfail : ∀ v : World, v.core = w.core → Core.Step .quiet w.core v.onTcpConnFailed.2.core := by
    intro v hv
    have hst : v.state = w.state := congrArg Core.state hv
    rcases core_onTcpConnFailed v with ⟨hc, -⟩ | ⟨hc, hs⟩
    · rw [hc, hv]
      exact .idle
    · rw [hc, hv]
      exact .pendingFailed (hst.symm.trans hs)
  unfold serveWrite at h
  dsimp only at h
  cases ok with
  | false =>
      obtain ⟨⟨b, v⟩, hm, hk⟩ := Res.bind_eq_ok h
      obtain ⟨-, rfl⟩ := Prod.mk.inj (Res.ok.inj hm)
      obtain rfl := Res.ok.inj hk
      exact hfail _ rfl
  | true =>
      rcases core_doConnect h with ⟨hc, -⟩ | ⟨hs, hc | ⟨-, hc⟩ | ⟨-, c, hreq, hc⟩⟩
      · rw [show _ = w.core from hc]
        exact .idle
      · rw [show _ = w.core.reset from hc]
        exact .pendingFailed hs
      · rw [hc]
        exact .pendingRefused (c := w.core) hs hsock
      · rw [hc]
        exact .pendingDone (c := w.core) hs hsock hreq

theorem core_onPeerHangup (w : World) (cfg : Cfg) (env : Env) (cause : UInt32) :
    Core.Step .quiet w.core (w.onPeerHangup cfg env cause).2.core := by
  unfold onPeerHangup
  split
  · rename_i hs
    cases hdpr : ({ w with inActiv := false } : World).sendDpr cfg env cause with
    | mk sent v =>
        rcases sendStdReq_cases hdpr with ⟨rfl, rfl⟩ | ⟨rfl, hreq⟩
        · show Core.Step .quiet w.core (World.closeAndReset _).core
          rw [core_closeAndReset]
          exact .hangupFailed hs
        · exact .hangup (c := w.core) hs hreq
  · exact .idle

/-- A request is written with its transaction in place. -/
theorem wrote_startTrans (w : World) (env : Env) (ete : UInt32) (tr : Trans)
    (req : UInt32 → List UInt8) :
    Core.Wrote .request (w.core.start (w.eteHash ete) (w.startTrans ete tr).1 tr)
      ((w.startTrans ete tr).2.safeWrite env.write .request (req (w.startTrans ete tr).1)).2.core := by
  rw [← core_startTrans]
  exact wrote_safeWrite _ _ _ _

theorem core_sendReqToPeer (w : World) (env : Env) (inPeer : Option Nat) (orig : UInt32)
    (req : List UInt8) : Core.Step .quiet w.core (w.sendReqToPeer env inPeer orig req).2.core := by
  unfold sendReqToPeer
  cases hc : w.canSend with
  | false => exact .idle
  | true =>
      have hs : w.state = .conn ∨ w.state = .waitDwa := by simpa [canSend] using hc
      cases inPeer with
      | none =>
          exact .sendReq (c := w.core) hs rfl rfl
            (wrote_startTrans { w with endtoendID := w.endtoendID + 1 } env w.endtoendID
              { id := w.nextTrans, inPeer := none, origHopbyhopId := orig, info := 0,
                internal := false, reqCode := msgCode (setWord req 4 (le 4 w.endtoendID.toNat)),
                origin := ⟨w.sock, w.resets⟩ }
              fun label => setWord (setWord req 4 (le 4 w.endtoendID.toNat)) 3 (le 4 label.toNat))
      | some p =>
          exact .sendReq (c := w.core) hs rfl rfl
            (wrote_startTrans w env (endtoendOf req)
              { id := w.nextTrans, inPeer := some p, origHopbyhopId := orig, info := 0,
                internal := false, reqCode := msgCode req, origin := ⟨w.sock, w.resets⟩ }
              fun label => setWord req 3 (le 4 label.toNat))

theorem core_sendResToPeer (w : World) (env : Env) (buf : List UInt8) :
    Core.Step .quiet w.core (w.sendResToPeer env buf).2.core := by
  unfold sendResToPeer
  cases hc : w.canSend with
  | false => exact .idle
  | true =>
      have hs : w.state = .conn ∨ w.state = .waitDwa := by simpa [canSend] using hc
      exact .sendRes (c := w.core) hs (wrote_safeWrite w _ _ _)

theorem core_work {w w' : World} {i : Nat} {parsed : Bool} (h : w.work i parsed = some w') :
    ∃ op, Core.Step op w.core w'.core ∧ op.Of w (.work i parsed) := by
  unfold work at h
  cases hq : w.queue[i]? with
  | none =>
      rw [hq] at h
      exact absurd h (by simp)
  | some buf =>
      rw [hq] at h
      dsimp only at h
      have hskip : Core.Step .quiet w.core ({ w with queue := w.queue.eraseIdx i } : World).core :=
        .workSkip (c := w.core)
      split at h
      · rename_i hp
        obtain ⟨rfl, hr⟩ := hp
        have hr : isReqBuf buf = false := by simpa using hr
        cases htl : ({ w with queue := w.queue.eraseIdx i } : World).transactionLookup
            (endtoendOf buf) (hopbyhopOf buf) with
        | none =>
            rw [htl] at h
            obtain rfl := Option.some.inj h
            exact ⟨.quiet, hskip, trivial⟩
        | some r =>
            rw [htl] at h
            obtain ⟨tr, v⟩ := r
            obtain rfl := Option.some.inj h
            obtain ⟨l, hl, -, hcore⟩ := transactionLookup_some htl
            have hs : Core.Step (.ends buf l) w.core v.core := by
              rw [hcore]
              exact .work (c := w.core) (List.mem_of_getElem? hq) hr hl
            exact ⟨.ends buf l, hs, by simp [answer, hq, hr], hl⟩
      · obtain rfl := Option.some.inj h
        exact ⟨.quiet, hskip, trivial⟩

/-! ## Timers -/

theorem core_expireLink {w w' : World} (h : w.expireLink = some w') :
    Core.Step .quiet w.core w'.core := by
  unfold expireLink at h
  cases ht : w.tl with
  | none =>
      rw [ht] at h
      exact absurd h (by simp)
  | some t =>
      rw [ht] at h
      dsimp only at h
      have htl : w.core.tl = some (t.list, t.sock) := by simp [World.core, ht]
      split at h
      · cases hl : t.list with
        | reconn =>
            rw [hl] at h htl
            obtain rfl := Option.some.inj h
            have hs := Core.Step.reconnExpired htl
            -- with a flag set the link is taken out of the list and nothing is sent
            by_cases hf : w.flags = 0
            · rw [if_pos (show w.core.flags = 0 from hf)] at hs
              rw [if_pos hf]
              exact hs
            · rw [if_neg (show ¬ w.core.flags = 0 from hf)] at hs
              rw [if_neg hf]
              exact hs
        | waitCer =>
            rw [hl] at h htl
            obtain rfl := Option.some.inj h
            exact .cerExpired htl
      · exact absurd h (by simp)

theorem core_expireTrans (w : World) (id : Nat) :
    Core.Step .quiet w.core (w.expireTrans id).core := by
  have htimed : w.core.timed.filter (· ≠ id)
      = (w.trTimer.filter (fun e => e.1 ≠ id)).map (·.1) := by
    rw [show w.core.timed = w.trTimer.map (·.1) from rfl, List.filter_map]
    rfl
  unfold expireTrans
  dsimp only
  cases hf : w.table.cells.find? (fun l => l.payload.id == id) with
  | none =>
      have hn : ∀ l ∈ w.core.cells, l.payload.id ≠ id := by
        intro l hl
        simpa using List.find?_eq_none.mp hf l hl
      -- answered in the meantime: only the link is left
      have hs := Core.Step.orphanExpired hn
      rw [htimed] at hs
      exact hs
  | some l =>
      have hid : l.payload.id = id := by simpa using List.find?_some hf
      subst hid
      have hs := Core.Step.transExpired (c := w.core) hf
      cases hi : l.payload.internal with
      | true =>
          simp only [hi, if_true, Core.drop] at hs ⊢
          rw [htimed] at hs
          exact hs
      | false =>
          simp only [hi, Bool.false_eq_true, if_false, Core.drop] at hs ⊢
          rw [htimed] at hs
          exact hs

theorem ofRes_eq_some {r : Res World} {w : World} (h : ofRes r = some w) : r = .ok w := by
  cases r with
  | ok v => rw [Option.some.inj h]
  | error => exact absurd h (by simp [ofRes])
  | fault => exact absurd h (by simp [ofRes])
  | diverge => exact absurd h (by simp [ofRes])

/-- The receive thread executes the first command. -/
theorem step_exec {cfg : Cfg} {w w' : World} {env : Env} {io : SockEnv} {cmd : Cmd} {rest : List Cmd}
    (hp : w.pipe = cmd :: rest) (h : step cfg w (.exec env io) = some w') :
    ∃ op, Core.Exec op cmd { w.core with pipe := rest } w'.core ∧ op.Of w (.exec env io) := by
  simp only [step, hp] at h
  rcases core_execute (ofRes_eq_some h) with he | ⟨he, hs, hio⟩
  · exact ⟨.quiet, he, trivial⟩
  · refine ⟨.opens, he, ?_⟩
    have hs : w.state = .unconn := hs
    rcases hio with ⟨rfl | rfl, hio⟩ | ⟨⟨s, rfl⟩, hio⟩
    · simp [Core.Op.Of, opens, hp, hs, hio]
    · simp [Core.Op.Of, opens, hp, hs, hio]
    · simp [Core.Op.Of, opens, hp, hs, hio]

/-- **Every step of the program is a step of the abstract peer**, of the kind the step says. -/
theorem step_core {cfg : Cfg} {w w' : World} {a : Act} (h : step cfg w a = some w') :
    ∃ op, Core.Step op w.core w'.core ∧ op.Of w a := by
  have hquiet : Core.Step .quiet w.core w'.core →
      ∃ op, Core.Step op w.core w'.core ∧ op.Of w a := fun hs => ⟨.quiet, hs, trivial⟩
  cases a with
  | exec env io =>
      cases hp : w.pipe with
      | nil => simp [step, hp] at h
      | cons cmd rest =>
          obtain ⟨op, he, hop⟩ := step_exec hp h
          exact ⟨op, .exec (c := w.core) hp he, hop⟩
  | read env evs avail =>
      cases hsk : w.sock with
      | none => simp [step, hsk] at h
      | some s =>
          simp only [step, hsk] at h
          split at h
          · exact core_serveRead (ofRes_eq_some h)
          · exact absurd h (by simp)
  | connectDone env io ok =>
      cases hsk : w.sock with
      | none => simp [step, hsk] at h
      | some s =>
          simp only [step, hsk] at h
          split at h
          · exact hquiet (core_serveWrite hsk (ofRes_eq_some h))
          · split at h
            · exact hquiet (core_serveWrite hsk (ofRes_eq_some h))
            · exact absurd h (by simp)
  | hangup env cause =>
      obtain rfl := Res.ok.inj (ofRes_eq_some h)
      exact hquiet (core_onPeerHangup w cfg env cause)
  | sendReq env inPeer orig req =>
      obtain rfl := Option.some.inj h
      exact hquiet (core_sendReqToPeer w env inPeer orig req)
  | sendRes env buf =>
      obtain rfl := Option.some.inj h
      exact hquiet (core_sendResToPeer w env buf)
  | work i parsed => exact core_work h
  | accept =>
      obtain rfl := Option.some.inj h
      exact hquiet (.accept (c := w.core))
  | tick =>
      obtain rfl := Option.some.inj h
      exact hquiet .idle
  | expireLink => exact hquiet (core_expireLink h)
  | expireActiv =>
      simp only [step, expireActiv] at h
      split at h
      · obtain rfl := Option.some.inj h
        exact hquiet (.inactiv (c := w.core))
      · exact absurd h (by simp)
  | expireTrans id =>
      simp only [step] at h
      split at h
      · obtain rfl := Option.some.inj h
        exact hquiet (core_expireTrans w id)
      · exact absurd h (by simp)

/-- The abstract peer at the beginning. -/
theorem core_init {w : World} (h : Init w) :
    w.core = { state := .unconn, flags := 0, sock := some 0, tl := none, connCnt := 0, resets := 0,
               pipe := [.addPeer], cells := [], timed := [], nextTrans := 0, queue := [], ceLog := [], writes := [],
               bugTimer := false } := by
  obtain ⟨nextLabel, ete, jiffies, rfl⟩ := h
  rfl

end World

end Disc.Transport
