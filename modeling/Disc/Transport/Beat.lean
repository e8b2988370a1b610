import Disc.Transport.Refine

/-!
# What a step does to the state, the list of active peers and the pipe

A third view of a peer, for what hangs together with the watchdog and with writes that
fail: the state, whether the peer stands in `activ_peers`, the commands in the pipe.

`Beat` says what an event can do to these, apart from the inactivity command, which has
a relation of its own. When `safe_write` cannot write all of a message it sets the peer
to `PEER_ERROR` and sends a close; some handlers then set a state of their own, as if
the message had gone out. `Event.cut` says when that happens, and `Beat` that a close
is sent in no other case without the peer being left in error or reset.
-/

namespace Disc.Transport

open Disc.Lib Disc.Msg

/-- `write` does not take all of the buffer. -/
def WriteRes.short (r : WriteRes) (len : Nat) : Bool :=
  match r with
  | .wrote n => n < len
  | .failed => false

/-- Nothing was heard from the peer for `SEND_DWR_TIMEOUT`. -/
def World.idle (w : World) : Bool := w.lastActivTime + sendDwrTimeout ≤ w.jiffies

/-- A request of this layer is sent, and its write fails or is short. -/
def Env.cutsReq (env : Env) (cfg : Cfg) (code : Nat) (avps : List UInt8) : Bool :=
  env.msgMem && env.trMem
    && (env.write = .failed || env.write.short (buildReq cfg code avps).length)

/-- An answer that says success is sent, and its write is short. -/
def Env.cutsCea (env : Env) (cfg : Cfg) (ip : IpAddr) (cer : List UInt8) : Bool :=
  env.msgMem && env.write.short (buildAns cfg (ceAvp cfg ip) cer aaaSuccess).length
    && match processCe cfg env.ceMem cer true with
      | .ok (code, _) => code = aaaSuccess
      | _ => false

/-- The handler sets the state after `safe_write` has set the peer to `PEER_ERROR`. -/
def Event.cut (cfg : Cfg) (env : Env) (w : World) : Event → Bool
  | .tcpConnected _ ip => w.state = .unconn && env.cutsReq cfg ceMsgCode (ceAvp cfg ip)
  | .cerReceived buf => (w.state = .waitCer || w.state = .waitCea) && env.cutsCea cfg w.localIp buf
  | .peerIsInactiv => w.state = .conn && w.idle && env.cutsReq cfg dwMsgCode []
  | .peerHangup cause => w.state = .conn && env.cutsReq cfg dpMsgCode (dprAvp cause)
  | _ => false

/-- The list is left alone, and no command is lost. -/
structure Kept (w w' : World) : Prop where
  inActiv : w'.inActiv = w.inActiv
  pipe : w.pipe <+: w'.pipe
  resets : w'.resets = w.resets

/-- No close was sent. -/
def Calm (w w' : World) : Prop := ∀ o, Cmd.close o ∈ w'.pipe → Cmd.close o ∈ w.pipe

/-- What an event does to the list, and to the state and the commands that go with it. -/
inductive Beat (cut : Bool) (w w' : World) : Prop
  | reset (hs : w'.state = .unconn) (hl : w'.inActiv = false) (hr : w'.resets = w.resets + 1)
  | hold (hk : Kept w w')
      (hs : w'.state = w.state ∨ (w'.state = .error ∧ ∃ o, Cmd.close o ∈ w'.pipe)
        ∨ (w.state = .unconn ∧ (w'.state = .waitCer ∨ w'.state = .waitCea)))
      (hc : Calm w w' ∨ w'.state = .error ∨ cut = true)
  /-- A CER, CEA or DWA. -/
  | up (hw : w.state ≠ .conn) (hs : w'.state = .conn) (hl : w'.inActiv = true)
      (hc : Calm w w' ∨ cut = true)
  /-- The peer is left. -/
  | leave (hs : w'.state = .waitDpa) (hl : w'.inActiv = false) (hc : Calm w w' ∨ cut = true)

theorem Kept.refl (w : World) : Kept w w := ⟨rfl, List.prefix_rfl, rfl⟩

theorem Kept.trans {w v w' : World} (h : Kept w v) (h' : Kept v w') : Kept w w' :=
  ⟨h'.inActiv.trans h.inActiv, h.pipe.trans h'.pipe, h'.resets.trans h.resets⟩

/-- Nothing that matters here. -/
theorem Beat.same {cut : Bool} {w w' : World} (h : Kept w w') (hc : Calm w w')
    (hs : w'.state = w.state) : Beat cut w w' :=
  .hold h (Or.inl hs) (Or.inl hc)

theorem Beat.refl {cut : Bool} (w : World) : Beat cut w w := .same (.refl w) (fun _ ho => ho) rfl

/-- Only the state, the list, the pipe and the number of resets matter. -/
def World.watch (w : World) : PeerState × Bool × List Cmd × Nat :=
  (w.state, w.inActiv, w.pipe, w.resets)

theorem Beat.congr {cut : Bool} {w v w' v' : World} (h : Beat cut v v') (hw : v.watch = w.watch)
    (hw' : v'.watch = w'.watch) : Beat cut w w' := by
  simp only [World.watch, Prod.mk.injEq] at hw hw'
  obtain ⟨hs, hl, hp, hr⟩ := hw
  obtain ⟨hs', hl', hp', hr'⟩ := hw'
  have hcalm : Calm v v' → Calm w w' := fun hc o ho => hp ▸ hc o (hp' ▸ ho)
  cases h with
  | reset h₁ h₂ h₃ => exact .reset (hs' ▸ h₁) (hl' ▸ h₂) (hr' ▸ hr ▸ h₃)
  | hold h₁ h₂ h₃ =>
      refine .hold ⟨hl' ▸ hl ▸ h₁.inActiv, hp' ▸ hp ▸ h₁.pipe, hr' ▸ hr ▸ h₁.resets⟩
        (hs' ▸ hs ▸ hp' ▸ h₂) ?_
      rcases h₃ with h₃ | h₃
      · exact Or.inl (hcalm h₃)
      · exact Or.inr (hs' ▸ h₃)
  | up h₀ h₁ h₂ h₃ => exact .up (hs ▸ h₀) (hs' ▸ h₁) (hl' ▸ h₂) (h₃.imp hcalm id)
  | leave h₁ h₂ h₃ => exact .leave (hs' ▸ h₁) (hl' ▸ h₂) (h₃.imp hcalm id)

/-- A step that cuts nothing can stand where one may. -/
theorem Beat.of_uncut {cut : Bool} {w w' : World} (h : Beat false w w') : Beat cut w w' := by
  cases h with
  | reset hs hl hr => exact .reset hs hl hr
  | hold hk hs hc => exact .hold hk hs (hc.imp id fun hc => Or.inl (hc.resolve_right (by decide)))
  | up hw hs hl hc => exact .up hw hs hl (Or.inl (hc.resolve_right (by decide)))
  | leave hs hl hc => exact .leave hs hl (Or.inl (hc.resolve_right (by decide)))

/-- The list, the pipe and the rest of the view are those of `w`. -/
theorem Beat.of_watch {cut : Bool} {w w' : World} (h : w'.watch = w.watch) : Beat cut w w' :=
  (Beat.refl w).congr rfl h.symm

/-- Commands are added that are not closes. -/
theorem Beat.added {cut : Bool} {w w' : World} {l : List Cmd} (hl : ∀ o, Cmd.close o ∉ l)
    (h : w'.watch = (w.state, w.inActiv, w.pipe ++ l, w.resets)) : Beat cut w w' := by
  simp only [World.watch, Prod.mk.injEq] at h
  obtain ⟨hs, ha, hp, hr⟩ := h
  refine .same ⟨ha, by rw [hp]; exact List.prefix_append _ _, hr⟩ ?_ hs
  intro o ho
  rw [hp] at ho
  rcases List.mem_append.mp ho with ho | ho
  · exact ho
  · exact absurd ho (hl o)

namespace World

/-! ## The parts handlers are made of -/

section

variable {w w' : World} {cfg : Cfg} {env : Env} {cut : Bool}

@[simp] theorem watch_rmvFromTimerList (w : World) (l : TimerList) :
    (w.rmvFromTimerList l).watch = w.watch := by
  rw [rmvFromTimerList_eq]
  rfl

theorem watch_addToTimerList (w : World) (l : TimerList) (t : Nat) :
    (w.addToTimerList l t).watch = w.watch := by
  unfold addToTimerList
  cases w.tl with
  | none => rfl
  | some _ => rfl

theorem state_resetPeer (w : World) : w.resetPeer.state = w.state :=
  congrArg Core.state (core_resetPeer w)

theorem resets_resetPeer (w : World) : w.resetPeer.resets = w.resets + 1 :=
  congrArg Core.resets (core_resetPeer w)

/-- The connection is given up. -/
theorem beat_closeAndReset {v : World} (h : v.resets = w.resets) : Beat cut w v.closeAndReset :=
  .reset rfl rfl ((resets_resetPeer v.tcpClose).trans (by rw [← h]; rfl))

/--
A write leaves the state and the pipe alone, or the peer is in error with its close on
the way, and then the write failed or was short.
-/
theorem beat_safeWrite (w : World) (r : WriteRes) (k : WriteKind) (buf : List UInt8) :
    Kept w (w.safeWrite r k buf).2
      ∧ (((w.safeWrite r k buf).2.state = w.state ∧ Calm w (w.safeWrite r k buf).2)
        ∨ ((w.safeWrite r k buf).2.state = .error ∧ (∃ o, Cmd.close o ∈ (w.safeWrite r k buf).2.pipe)
          ∧ ((r = .failed ∧ (w.safeWrite r k buf).1 = false) ∨ r.short buf.length = true))) := by
  have hclose : ∀ v : World, v.pipe = w.pipe ++ [Cmd.close ⟨w.sock, w.resets⟩] →
      ∃ o, Cmd.close o ∈ v.pipe := by
    intro v hv
    exact ⟨_, by rw [hv]; exact List.mem_append_right _ (List.mem_singleton.mpr rfl)⟩
  cases r with
  -- both failures end the same: `PEER_ERROR` and a close for the connection
  | failed =>
      exact ⟨⟨rfl, List.prefix_append _ _, rfl⟩, Or.inr ⟨rfl, hclose _ rfl, Or.inl ⟨rfl, rfl⟩⟩⟩
  | wrote n =>
      simp only [safeWrite]
      split
      · exact ⟨⟨rfl, List.prefix_rfl, rfl⟩, Or.inl ⟨rfl, fun _ ho => ho⟩⟩
      · rename_i hn
        refine ⟨⟨rfl, List.prefix_append _ _, rfl⟩, Or.inr ⟨rfl, hclose _ rfl, Or.inr ?_⟩⟩
        exact decide_eq_true (by omega)

/-- The peer after a write, when the handler leaves the state as it is. -/
theorem beat_wrote {v : World} (h : v.watch = w.watch) (r : WriteRes) (k : WriteKind)
    (buf : List UInt8) : Beat cut w (v.safeWrite r k buf).2 := by
  obtain ⟨hk, hst⟩ := beat_safeWrite v r k buf
  have hb : Beat cut v (v.safeWrite r k buf).2 := by
    rcases hst with ⟨hs, hc⟩ | ⟨hs, hc, -⟩
    · exact .same hk hc hs
    · exact .hold hk (Or.inr (Or.inl ⟨hs, hc⟩)) (Or.inr (Or.inl hs))
  exact hb.congr h rfl

theorem beat_request {v : World} (h : v.watch = w.watch) (r : WriteRes) (ete : UInt32)
    {t : Trans} {k : WriteKind} {buf : List UInt8} :
    Beat cut w ((v.startTrans ete t).2.safeWrite r k buf).2 :=
  beat_wrote (v := (v.startTrans ete t).2) h r k buf

theorem length_setWord {buf x : List UInt8} {i : Nat} (hx : x.length = 4) (hb : 4 * i + 4 ≤ buf.length) :
    (setWord buf i x).length = buf.length := by
  simp only [setWord, List.length_append, List.length_take, List.length_drop, hx]
  omega

theorem length_orWord {buf x : List UInt8} {i : Nat} (hx : x.length = 4) (hb : 4 * i + 4 ≤ buf.length) :
    (orWord buf i x).length = buf.length := by
  refine length_setWord ?_ hb
  simp only [word, List.length_zipWith, List.length_take, List.length_drop, hx]
  omega

/-- A request has a header. -/
theorem length_buildReq (cfg : Cfg) (code : Nat) (avps : List UInt8) :
    20 ≤ (buildReq cfg code avps).length := by
  have h20 : 20 ≤ (stdReq cfg ++ avps).length := by
    simp only [stdReq, List.length_append, List.length_cons, List.length_nil, List.length_replicate]
    omega
  have h0 : (orWord (stdReq cfg ++ avps) 0 (be 4 (stdReq cfg ++ avps).length)).length
      = (stdReq cfg ++ avps).length := length_orWord (length_be _ _) (by omega)
  rw [buildReq, length_orWord (length_be _ _) (by rw [h0]; omega), h0]
  exact h20

/-- A request of this layer goes out, is cut, or there is no memory for it. -/
theorem kept_sendStdReq {code : Nat} {avps : List UInt8} {sent : Bool}
    (h : w.sendStdReq cfg env code avps = (sent, w')) :
    Kept w w' ∧ (Calm w w' ∨ env.cutsReq cfg code avps = true) := by
  have hnone : Kept w w ∧ (Calm w w ∨ env.cutsReq cfg code avps = true) :=
    ⟨.refl w, Or.inl fun _ ho => ho⟩
  unfold sendStdReq internalSendRequest at h
  cases hmsg : env.msgMem with
  | false =>
      simp only [hmsg, Bool.not_false, if_true, Prod.mk.injEq] at h
      obtain ⟨-, rfl⟩ := h
      exact hnone
  | true =>
      cases htr : env.trMem with
      | false =>
          simp only [hmsg, htr, Bool.not_false, Bool.not_true, Bool.false_eq_true, if_true, if_false,
            Prod.mk.injEq] at h
          obtain ⟨-, rfl⟩ := h
          exact hnone
      | true =>
          simp only [hmsg, htr, Bool.not_true, Bool.false_eq_true, if_false, Prod.mk.injEq] at h
          obtain ⟨-, rfl⟩ := h
          have hlen := length_buildReq cfg code avps
          generalize hb : setWord (setWord (buildReq cfg code avps) 4 _) 3 _ = buf
          -- writing the two ids does not change the length, so the cut depends on the template only
          have hbl : buf.length = (buildReq cfg code avps).length := by
            have h4 : ∀ x, x.length = 4 → (setWord (buildReq cfg code avps) 4 x).length
                = (buildReq cfg code avps).length := fun x hx => length_setWord hx (by omega)
            rw [← hb, length_setWord (length_le _ _) (by rw [h4 _ (length_le _ _)]; omega),
              h4 _ (length_le _ _)]
          generalize hv : (({ w with endtoendID := w.endtoendID + 1 } : World).startTrans _ _).2 = v
          have hwv : v.watch = w.watch := by rw [← hv]; rfl
          obtain ⟨hk, hst⟩ := beat_safeWrite v env.write (.req code) buf
          simp only [watch, Prod.mk.injEq] at hwv
          obtain ⟨-, hl, hp, hr⟩ := hwv
          refine ⟨⟨hk.inActiv.trans hl, hp ▸ hk.pipe, hk.resets.trans hr⟩, ?_⟩
          rcases hst with ⟨-, hc⟩ | ⟨-, -, hf | hf⟩
          · exact Or.inl fun o ho => hp ▸ hc o ho
          · exact Or.inr (by simp [Env.cutsReq, hmsg, htr, hf.1])
          · rw [hbl] at hf
            exact Or.inr (by simp [Env.cutsReq, hmsg, htr, hf])

theorem runProcessCe_watch {buf : List UInt8} {isReq : Bool} {code : UInt32}
    (h : w.runProcessCe cfg env buf isReq = .ok (code, w')) :
    w'.watch = w.watch ∧ w'.localIp = w.localIp
      ∧ ∃ caps, processCe cfg env.ceMem buf isReq = .ok (code, caps) := by
  unfold runProcessCe at h
  obtain ⟨⟨code', caps⟩, hce, h⟩ := Res.bind_eq_ok h
  cases caps with
  | none =>
      obtain ⟨rfl, rfl⟩ := Prod.mk.inj (Res.ok.inj h)
      exact ⟨rfl, rfl, _, hce⟩
  | some c =>
      obtain ⟨rfl, rfl⟩ := Prod.mk.inj (Res.ok.inj h)
      exact ⟨rfl, rfl, _, hce⟩

/-! ## Events -/

theorem beat_onTcpAccept (w : World) (s : Nat) (ip : IpAddr) :
    Beat cut w (w.onTcpAccept s ip).2 := by
  unfold onTcpAccept
  split
  · rename_i hs
    -- only the socket, its address and the timer change before the state is set
    have hopen : ∀ v : World, v.watch = w.watch →
        Beat cut w { v.addToTimerList .waitCer (v.jiffies + waitCerTimeout) with state := .waitCer } := by
      intro v hv
      have hw := (watch_addToTimerList v .waitCer (v.jiffies + waitCerTimeout)).trans hv
      simp only [watch, Prod.mk.injEq] at hw
      obtain ⟨-, hl, hp, hr⟩ := hw
      refine .hold ⟨hl, hp ▸ List.prefix_rfl, hr⟩ (Or.inr (Or.inr ⟨hs, Or.inl rfl⟩)) (Or.inl ?_)
      intro o ho
      exact hp ▸ ho
    dsimp only
    split
    · exact hopen { (w.rmvFromTimerList .reconn).tcpClose with sock := some s, localIp := ip }
        (watch_rmvFromTimerList w .reconn)
    · exact hopen { w.rmvFromTimerList .reconn with sock := some s, localIp := ip }
        (watch_rmvFromTimerList w .reconn)
  · exact .refl w

theorem beat_onTcpConnected (w : World) (s : Nat) (ip : IpAddr) :
    Beat (Event.cut cfg env w (.tcpConnected s ip)) w (w.onTcpConnected cfg env s ip).2 := by
  unfold onTcpConnected
  split
  · rename_i hs
    cases hcer : ({ w with flags := 0, sock := some s, localIp := ip } : World).sendCer cfg env with
    | mk sent v =>
        dsimp only
        rw [hcer]
        cases sent with
        -- whatever the write of the CER did, the state is set
        | true =>
            obtain ⟨hk, hc⟩ := kept_sendStdReq hcer
            refine .hold ⟨hk.inActiv, hk.pipe, hk.resets⟩ (Or.inr (Or.inr ⟨hs, Or.inr rfl⟩)) ?_
            refine hc.imp id fun hcut => Or.inr ?_
            have hcut : env.cutsReq cfg ceMsgCode (ceAvp cfg ip) = true := hcut
            simp [Event.cut, hs, hcut]
        | false =>
            rcases sendStdReq_cases hcer with ⟨-, rfl⟩ | ⟨hf, -⟩
            · exact .reset ((state_resetPeer _).trans hs) rfl (resets_resetPeer _)
            · exact absurd hf (by simp)
  · exact .refl w

theorem beat_onCeaReceived {buf : List UInt8} {b : Bool}
    (h : w.onCeaReceived cfg env buf = .ok (b, w')) : Beat cut w w' := by
  rcases onCeaReceived_cases h with ⟨-, rfl⟩ | ⟨code, v, hs, hce, hk⟩
  · exact .refl w'
  have hw := (runProcessCe_watch hce).1
  simp only [watch, Prod.mk.injEq] at hw
  rcases hk with ⟨-, rfl⟩ | ⟨-, rfl⟩
  · exact beat_closeAndReset hw.2.2.2
  · refine .up (by rw [hs]; decide) rfl rfl (Or.inl ?_)
    intro o ho
    exact hw.2.2.1 ▸ ho

theorem resets_sendStdAns {avps req : List UInt8} {res : UInt32} {sent : Bool}
    (h : w.sendStdAns cfg env avps req res = (sent, w')) : w'.resets = w.resets := by
  unfold sendStdAns at h
  split at h
  · obtain ⟨-, rfl⟩ := Prod.mk.inj h
    rfl
  · have hk := (beat_safeWrite w env.write (.ans (msgCode req) res) (buildAns cfg avps req res)).1
    rw [h] at hk
    exact hk.resets

/-- The answer to a CER that was accepted went out, or it was cut. -/
theorem kept_sendCea {v v₁ : World} {buf : List UInt8} {res : UInt32} {sent : Bool}
    (h : v.sendCea cfg env buf res = (sent, v₁)) :
    v₁.resets = v.resets ∧ (sent = true → Calm v v₁
      ∨ (env.msgMem = true ∧ env.write.short (buildAns cfg (ceAvp cfg v.localIp) buf res).length = true)) := by
  unfold sendCea sendStdAns at h
  cases hmsg : env.msgMem with
  | false =>
      simp only [hmsg, Bool.not_false, if_true, Prod.mk.injEq] at h
      obtain ⟨rfl, rfl⟩ := h
      exact ⟨rfl, fun hf => absurd hf (by simp)⟩
  | true =>
      simp only [hmsg, Bool.not_true, Bool.false_eq_true, if_false] at h
      obtain ⟨hk, hst⟩ := beat_safeWrite v env.write (.ans (msgCode buf) res)
        (buildAns cfg (ceAvp cfg v.localIp) buf res)
      rw [h] at hk hst
      refine ⟨hk.resets, fun hsent => ?_⟩
      rcases hst with ⟨-, hc⟩ | ⟨-, -, ⟨-, hf⟩ | hf⟩
      · exact Or.inl hc
      · exact absurd (hsent.symm.trans hf) (by decide)
      · exact Or.inr ⟨rfl, hf⟩

theorem beat_onCerReceived {buf : List UInt8} {b : Bool}
    (h : w.onCerReceived cfg env buf = .ok (b, w')) :
    Beat (Event.cut cfg env w (.cerReceived buf)) w w' := by
  rcases onCerReceived_cases h with ⟨-, -, rfl⟩ | ⟨u, res, v, sent, v', hu, hce, hcea, hk⟩
  · exact .refl w'
  obtain ⟨hs, huw, huip⟩ : (w.state = .waitCer ∨ w.state = .waitCea) ∧ u.watch = w.watch
      ∧ u.localIp = w.localIp := by
    rcases hu with ⟨hs, rfl⟩ | ⟨hs, rfl⟩
    · exact ⟨Or.inl hs, watch_rmvFromTimerList w .waitCer, by rw [rmvFromTimerList_eq]⟩
    · exact ⟨Or.inr hs, rfl, rfl⟩
  obtain ⟨hw, hip, caps, hpc⟩ := runProcessCe_watch hce
  have hw := hw.trans huw
  simp only [watch, Prod.mk.injEq] at hw
  obtain ⟨hr, hc⟩ := kept_sendCea hcea
  rcases hk with ⟨-, rfl⟩ | ⟨hsent, rfl, rfl⟩
  · exact beat_closeAndReset (hr.trans hw.2.2.2)
  · refine .up (by rcases hs with hs | hs <;> rw [hs] <;> decide) rfl rfl ?_
    -- a CEA cut short counts as sent, and `PEER_CONN` overwrites the error
    rcases hc hsent with hc | ⟨hmsg, hshort⟩
    · exact Or.inl fun o ho => hw.2.2.1 ▸ hc o ho
    · rw [hip, huip] at hshort
      refine Or.inr ?_
      rcases hs with hs | hs
      · simp [Event.cut, Env.cutsCea, hs, hmsg, hshort, hpc]
      · simp [Event.cut, Env.cutsCea, hs, hmsg, hshort, hpc]

/-- An answer without a CEA's AVPs, followed by a reset. -/
theorem beat_sendStdAns_reset {u v : World} {avps req : List UInt8} {res : UInt32} {sent : Bool}
    (hu : u.resets = w.resets) (h : u.sendStdAns cfg env avps req res = (sent, v)) :
    Beat cut w v.closeAndReset :=
  beat_closeAndReset ((resets_sendStdAns h).trans hu)

theorem beat_onDwrReceived {buf : List UInt8} {b : Bool}
    (h : w.onDwrReceived cfg env buf = .ok (b, w')) : Beat cut w w' := by
  rcases onDwrReceived_cases h with ⟨-, rfl⟩ | ⟨res, sent, v, -, hdwa, hk⟩
  · exact .refl w'
  rcases hk with ⟨-, rfl⟩ | ⟨-, -, rfl⟩
  · exact beat_sendStdAns_reset rfl hdwa
  · unfold sendDwa sendStdAns at hdwa
    split at hdwa
    · obtain ⟨-, rfl⟩ := Prod.mk.inj hdwa
      exact .refl w
    · obtain rfl := congrArg Prod.snd hdwa
      exact beat_wrote rfl _ _ _

theorem beat_onDprReceived {buf : List UInt8} {b : Bool}
    (h : w.onDprReceived cfg env buf = .ok (b, w')) : Beat cut w w' := by
  rcases onDprReceived_cases h with ⟨-, rfl⟩ | ⟨res, sent, v, -, hdpa, rfl⟩
  · exact .refl w'
  · have hr : ({ w with inActiv := false } : World).resets = w.resets := rfl
    exact beat_sendStdAns_reset hr hdpa

theorem beat_onPeerHangup (w : World) (cause : UInt32) :
    Beat (Event.cut cfg env w (.peerHangup cause)) w (w.onPeerHangup cfg env cause).2 := by
  unfold onPeerHangup
  split
  · rename_i hs
    cases hdpr : ({ w with inActiv := false } : World).sendDpr cfg env cause with
    | mk sent v =>
        obtain ⟨hk, hc⟩ := kept_sendStdReq hdpr
        cases sent with
        | true =>
            refine .leave rfl hk.inActiv (hc.imp id fun hcut => ?_)
            simp [Event.cut, hs, hcut]
        | false => exact beat_closeAndReset hk.resets
  · exact .refl w

/-- **What an event does**, if it is not about inactivity. -/
theorem beat_peerStateMachine {e : Event} {b : Bool} (he : e ≠ .peerIsInactiv)
    (h : peerStateMachine cfg env w e = .ok (b, w')) : Beat (Event.cut cfg env w e) w w' := by
  cases e with
  | peerIsInactiv => exact absurd rfl he
  | cerReceived buf => exact beat_onCerReceived h
  | ceaReceived buf => exact beat_onCeaReceived h
  | dwrReceived buf => exact beat_onDwrReceived h
  | dprReceived buf => exact beat_onDprReceived h
  | tcpAccept s ip =>
      obtain rfl : (w.onTcpAccept s ip).2 = w' := congrArg Prod.snd (Res.ok.inj h)
      exact beat_onTcpAccept w s ip
  | tcpConnected s ip =>
      obtain rfl : (w.onTcpConnected cfg env s ip).2 = w' := congrArg Prod.snd (Res.ok.inj h)
      exact beat_onTcpConnected w s ip
  | peerHangup cause =>
      obtain rfl : (w.onPeerHangup cfg env cause).2 = w' := congrArg Prod.snd (Res.ok.inj h)
      exact beat_onPeerHangup w cause
  -- the rest are a few assignments each
  | tcpConnInProg s =>
      obtain rfl : (w.onTcpConnInProg s).2 = w' := congrArg Prod.snd (Res.ok.inj h)
      unfold onTcpConnInProg
      split
      · exact .of_watch rfl
      · exact .refl w
  | tcpConnFailed =>
      obtain rfl : w.onTcpConnFailed.2 = w' := congrArg Prod.snd (Res.ok.inj h)
      unfold onTcpConnFailed
      split
      · exact .reset rfl rfl (resets_resetPeer w)
      · exact .refl w
  | tcpConnClose =>
      obtain rfl : w.onTcpConnClose.2 = w' := congrArg Prod.snd (Res.ok.inj h)
      unfold onTcpConnClose
      split
      · exact beat_closeAndReset rfl
      · exact .refl w
  | dwaReceived buf =>
      have h : w.onDwaReceived buf = .ok (b, w') := h
      unfold onDwaReceived at h
      split at h
      · rename_i hs
        obtain ⟨_, -, hk⟩ := Res.bind_eq_ok h
        obtain ⟨-, rfl⟩ := Prod.mk.inj (Res.ok.inj hk)
        exact .up (by rw [hs]; decide) rfl rfl (Or.inl fun _ ho => ho)
      · obtain ⟨-, rfl⟩ := Prod.mk.inj (Res.ok.inj h)
        exact .refl w
  | dpaReceived buf =>
      obtain rfl : w.onDpaReceived.2 = w' := congrArg Prod.snd (Res.ok.inj h)
      unfold onDpaReceived
      split
      · exact beat_closeAndReset rfl
      · exact .refl w
  | peerTrTimeout info =>
      obtain rfl : (w.onPeerTrTimeout info).2 = w' := congrArg Prod.snd (Res.ok.inj h)
      unfold onPeerTrTimeout
      split
      · exact .refl w
      · split
        · exact beat_closeAndReset (v := { w with inActiv := false }) rfl
        · exact beat_closeAndReset rfl
        · exact beat_closeAndReset rfl
        · exact .refl w
  | peerCerTimeout =>
      obtain rfl : w.onPeerCerTimeout.2 = w' := congrArg Prod.snd (Res.ok.inj h)
      unfold onPeerCerTimeout
      split
      · exact beat_closeAndReset rfl
      · exact .refl w
  | peerReconnTimeout =>
      obtain rfl : w.onPeerReconnTimeout.2 = w' := congrArg Prod.snd (Res.ok.inj h)
      unfold onPeerReconnTimeout
      split
      · rename_i hs
        refine .added (l := [.connect]) (by simp) ?_
        dsimp only
        split
        · exact congrArg (fun st => (st, w.inActiv, w.pipe ++ [Cmd.connect], w.resets)) rfl
        · exact congrArg (fun st => (st, w.inActiv, w.pipe ++ [Cmd.connect], w.resets)) rfl
      · exact .refl w

/-! ## Commands -/

/-- `do_connect` reaches the state machine with a connection. -/
theorem beat_doConnect {io : SockEnv} {s : Nat} (h : w.doConnect cfg env io s = .ok w') :
    Beat (io.sockopt && Event.cut cfg env w (.tcpConnected s io.localIp)) w w' := by
  unfold doConnect at h
  cases hopt : io.sockopt with
  | false =>
      rw [hopt] at h
      obtain ⟨⟨b, v⟩, hm, hk⟩ := Res.bind_eq_ok h
      obtain rfl := Res.ok.inj hk
      exact (beat_peerStateMachine (by simp) hm).congr rfl rfl
  | true =>
      rw [hopt] at h
      obtain ⟨⟨b, v⟩, hm, hk⟩ := Res.bind_eq_ok h
      have hb := beat_peerStateMachine (by simp) hm
      dsimp only at hk
      split at hk
      · obtain rfl := Res.ok.inj hk
        exact hb.congr rfl rfl
      · obtain rfl := Res.ok.inj hk
        exact hb.congr rfl rfl

theorem beat_tcpConnect {io : SockEnv} (h : w.tcpConnect cfg env io = .ok w') :
    Beat (io.socket && io.initSu && io.connect = .done && io.sockopt
      && Event.cut cfg env w (.tcpConnected w.nextSock io.localIp)) w w' := by
  unfold tcpConnect at h
  cases hsock : io.socket with
  | false =>
      rw [hsock] at h
      obtain ⟨⟨b, v⟩, hm, hk⟩ := Res.bind_eq_ok h
      obtain rfl := Res.ok.inj hk
      exact beat_peerStateMachine (by simp) hm
  | true =>
      rw [hsock] at h
      set u : World := { w with nextSock := w.nextSock + 1, opened := w.opened ++ [w.nextSock] }
      cases hsu : io.initSu with
      | false =>
          rw [hsu] at h
          obtain ⟨⟨b, v⟩, hm, hk⟩ := Res.bind_eq_ok h
          obtain rfl := Res.ok.inj hk
          exact (beat_peerStateMachine (by simp) hm).congr rfl rfl
      | true =>
          rw [hsu] at h
          cases hcon : io.connect with
          | failed =>
              rw [hcon] at h
              obtain ⟨⟨b, v⟩, hm, hk⟩ := Res.bind_eq_ok h
              obtain rfl := Res.ok.inj hk
              exact (beat_peerStateMachine (by simp) hm).congr rfl rfl
          | inProgress =>
              rw [hcon] at h
              obtain ⟨⟨b, v⟩, hm, hk⟩ := Res.bind_eq_ok h
              have hb := beat_peerStateMachine (by simp) hm
              dsimp only at hk
              split at hk
              · obtain rfl := Res.ok.inj hk
                exact hb.congr rfl rfl
              · obtain rfl := Res.ok.inj hk
                exact hb.congr rfl rfl
          -- only a connection made at once gets as far as the CER
          | done =>
              rw [hcon] at h
              have h : u.doConnect cfg env io w.nextSock = .ok w' := h
              have hb : Beat _ w w' := (beat_doConnect h).congr rfl rfl
              have hcut : Event.cut cfg env u (.tcpConnected w.nextSock io.localIp)
                  = Event.cut cfg env w (.tcpConnected w.nextSock io.localIp) := rfl
              rw [hcut] at hb
              simpa using hb

theorem beat_tcpAccept {io : SockEnv} {s : Nat} (h : w.tcpAccept cfg env io s = .ok w') :
    Beat cut w w' := by
  unfold tcpAccept at h
  split at h
  · obtain rfl := Res.ok.inj h
    exact .of_watch rfl
  · obtain ⟨⟨b, v⟩, hm, hk⟩ := Res.bind_eq_ok h
    obtain rfl : (w.onTcpAccept s io.localIp).2 = v := congrArg Prod.snd (Res.ok.inj hm)
    have hb : Beat cut w (w.onTcpAccept s io.localIp).2 := beat_onTcpAccept w s io.localIp
    dsimp only at hk
    split at hk
    · obtain rfl := Res.ok.inj hk
      exact hb.congr rfl rfl
    · obtain rfl := Res.ok.inj hk
      exact hb.congr rfl rfl

theorem beat_event {e : Event} (he : e ≠ .peerIsInactiv)
    (h : (do return (← peerStateMachine cfg env w e).2 : Res World) = .ok w') :
    Beat (Event.cut cfg env w e) w w' := by
  obtain ⟨⟨b, v⟩, hm, hk⟩ := Res.bind_eq_ok h
  obtain rfl := Res.ok.inj hk
  exact beat_peerStateMachine he hm

/-! ## Reading -/

theorem watch_transactionLookup {ete hbh : UInt32} {tr : Trans} {v : World}
    (h : w.transactionLookup ete hbh = some (tr, v)) : v.watch = w.watch := by
  unfold transactionLookup at h
  split at h
  · exact absurd h (by simp)
  · obtain ⟨-, rfl⟩ := Prod.mk.inj (Option.some.inj h)
    rfl

theorem beat_dispatchKind {buf : List UInt8} {req ans : Event}
    (hreq : req ≠ .peerIsInactiv) (hans : ans ≠ .peerIsInactiv)
    (hcut : ∀ v, Event.cut cfg env v ans = false)
    (h : (if isReqBuf buf then do return (← peerStateMachine cfg env w req).2
        else match w.transactionLookup (endtoendOf buf) (hopbyhopOf buf) with
          | none => return w
          | some (_, w) => do return (← peerStateMachine cfg env w ans).2 : Res World) = .ok w') :
    Beat (isReqBuf buf && Event.cut cfg env w req) w w' := by
  cases hr : isReqBuf buf with
  | true =>
      rw [hr] at h
      exact beat_event hreq h
  | false =>
      rw [hr] at h
      cases htl : w.transactionLookup (endtoendOf buf) (hopbyhopOf buf) with
      | none =>
          rw [htl] at h
          obtain rfl := Res.ok.inj h
          exact .refl w
      | some r =>
          rw [htl] at h
          have hb : Beat _ w w' := (beat_event hans h).congr (watch_transactionLookup htl) rfl
          rw [hcut] at hb
          exact hb

/-- A CER is the only message whose answer can be cut. -/
theorem beat_dispatchMessage {buf : List UInt8} (h : w.dispatchMessage cfg env buf = .ok w') :
    Beat (msgCode buf = ceMsgCode && isReqBuf buf && Event.cut cfg env w (.cerReceived buf)) w w' := by
  unfold dispatchMessage at h
  dsimp only at h
  split at h
  -- a CE message; the activity time it sets is nothing the watchdog looks at
  · rename_i hc
    have hb : Beat _ w w' := (beat_dispatchKind (by simp) (by simp) (fun _ => rfl) h).congr rfl rfl
    have hcut : Event.cut cfg env { w with lastActivTime := w.jiffies } (.cerReceived buf)
        = Event.cut cfg env w (.cerReceived buf) := rfl
    rw [hcut] at hb
    rw [hc]
    simpa using hb
  · rename_i hc
    have hcut : (decide (msgCode buf = ceMsgCode) && isReqBuf buf
        && Event.cut cfg env w (.cerReceived buf)) = false := by simp [hc]
    rw [hcut]
    split at h
    · have hb : Beat _ w w' := (beat_dispatchKind (by simp) (by simp) (fun _ => rfl) h).congr rfl rfl
      simpa [Event.cut] using hb
    · split at h
      · have hb : Beat _ w w' := (beat_dispatchKind (by simp) (by simp) (fun _ => rfl) h).congr rfl rfl
        simpa [Event.cut] using hb
      · obtain rfl := Res.ok.inj h
        exact .of_watch rfl

theorem beat_serveRead {evs : List RecvEv} {avail : List UInt8}
    (h : w.serveRead cfg env evs avail = .ok w') :
    Beat ((w.message (.read env evs avail)).any fun buf => msgCode buf = ceMsgCode && isReqBuf buf
      && Event.cut cfg env w (.cerReceived buf)) w w' := by
  unfold serveRead at h
  obtain ⟨out, hout, hk⟩ := Res.bind_eq_ok h
  dsimp only at hk
  simp only [message, hout]
  cases hm : out.msg with
  | some buf =>
      rw [hm] at hk
      obtain ⟨v, hd, hk⟩ := Res.bind_eq_ok hk
      rw [if_pos (doRead_msg hout hm)] at hk
      obtain rfl := Res.ok.inj hk
      exact (beat_dispatchMessage hd).congr rfl rfl
  | none =>
      rw [hm] at hk
      simp only [Res.pure_eq, Res.ok_bind] at hk
      split at hk
      · obtain rfl := Res.ok.inj hk
        exact .of_watch rfl
      · have hb := beat_event (by simp) hk
        exact hb.congr rfl rfl

theorem beat_serveWrite {io : SockEnv} {s : Nat} {ok : Bool}
    (h : w.serveWrite cfg env io s ok = .ok w') :
    Beat (ok && io.sockopt && Event.cut cfg env w (.tcpConnected s io.localIp)) w w' := by
  unfold serveWrite at h
  dsimp only at h
  cases ok with
  | false =>
      obtain ⟨⟨b, v⟩, hm, hk⟩ := Res.bind_eq_ok h
      obtain rfl := Res.ok.inj hk
      exact (beat_peerStateMachine (by simp) hm).congr rfl rfl
  | true => exact (beat_doConnect h).congr rfl rfl

/-! ## Workers and timers -/

theorem beat_sendReqToPeer (w : World) (inPeer : Option Nat) (orig : UInt32) (req : List UInt8) :
    Beat cut w (w.sendReqToPeer env inPeer orig req).2 := by
  unfold sendReqToPeer
  split
  · exact .refl w
  · cases inPeer with
    | some p => exact beat_request rfl env.write (endtoendOf req)
    | none =>
        exact beat_request (w := w) (v := { w with endtoendID := w.endtoendID + 1 }) rfl env.write
          w.endtoendID

theorem beat_work {i : Nat} {parsed : Bool} (h : w.work i parsed = some w') : Beat cut w w' := by
  unfold work at h
  split at h
  · exact absurd h (by simp)
  · dsimp only at h
    split at h
    · split at h
      · obtain rfl := Option.some.inj h
        exact .of_watch rfl
      · rename_i htl
        obtain rfl := Option.some.inj h
        exact .of_watch ((watch_transactionLookup htl).trans rfl)
    · obtain rfl := Option.some.inj h
      exact .of_watch rfl

theorem beat_expireLink (h : w.expireLink = some w') : Beat cut w w' := by
  unfold expireLink at h
  split at h
  · exact absurd h (by simp)
  · split at h
    · split at h
      · obtain rfl := Option.some.inj h
        split
        · exact .added (l := [.reconnTimeout]) (by simp) rfl
        · exact .of_watch rfl
      · obtain rfl := Option.some.inj h
        exact .added (l := [.cerTimeout _]) (by simp) rfl
    · exact absurd h (by simp)

theorem beat_expireTrans (w : World) (id : Nat) : Beat cut w (w.expireTrans id) := by
  unfold expireTrans
  dsimp only
  split
  · exact .of_watch rfl
  · split
    · exact .added (l := [.trTimeout _ _]) (by simp) rfl
    · exact .of_watch rfl

end

/-! ## The inactivity command -/

/-- The four ways of `PEER_IS_INACTIV`. -/
inductive Probed (cfg : Cfg) (env : Env) (w w' : World) : Prop
  | misplaced (hs : w.state ≠ .conn) (h : w'.watch = (w.state, true, w.pipe, w.resets))
  | falseAlarm (hs : w.state = .conn) (hi : w.idle = false)
      (h : w'.watch = (.conn, true, w.pipe, w.resets))
  | noMemory (hs : w.state = .conn) (hi : w.idle = true) (hm : (env.msgMem && env.trMem) = false)
      (h : w' = w)
  | sent (hs : w.state = .conn) (hi : w.idle = true) (hm : (env.msgMem && env.trMem) = true)
      (hs' : w'.state = .waitDwa) (hk : Kept w w')
      (hc : Calm w w' ∨ Event.cut cfg env w .peerIsInactiv = true)
      (hw : ∀ n, env.write = .wrote n → ∃ bs whole, w'.writes
        = w.writes ++ [⟨w.sock, .req dwMsgCode, bs, whole⟩])

theorem probed_onPeerIsInactiv (cfg : Cfg) (env : Env) (w : World) :
    Probed cfg env w (w.onPeerIsInactiv cfg env).2 := by
  unfold onPeerIsInactiv
  split
  · rename_i hs
    split
    · rename_i hi
      have hi : w.idle = true := by simpa [idle] using hi
      cases hdwr : w.sendDwr cfg env with
      | mk sent v =>
          obtain ⟨hk, hc⟩ := kept_sendStdReq hdwr
          unfold sendDwr sendStdReq internalSendRequest at hdwr
          cases hmsg : env.msgMem with
          | false =>
              simp only [hmsg, Bool.not_false, if_true, Prod.mk.injEq] at hdwr
              obtain ⟨rfl, rfl⟩ := hdwr
              -- nothing is sent, and nobody puts the peer back on the inactivity list
              exact .noMemory hs hi (by simp [hmsg]) rfl
          | true =>
              cases htr : env.trMem with
              | false =>
                  simp only [hmsg, htr, Bool.not_false, Bool.not_true, Bool.false_eq_true, if_true,
                    if_false, Prod.mk.injEq] at hdwr
                  obtain ⟨rfl, rfl⟩ := hdwr
                  exact .noMemory hs hi (by simp [htr]) rfl
              | true =>
                  simp only [hmsg, htr, Bool.not_true, Bool.false_eq_true, if_false,
                    Prod.mk.injEq] at hdwr
                  obtain ⟨rfl, rfl⟩ := hdwr
                  refine .sent hs hi (by simp [hmsg, htr]) rfl ⟨hk.inActiv, hk.pipe, hk.resets⟩ ?_ ?_
                  · refine hc.imp id fun hcut => ?_
                    simp [Event.cut, hs, hi, hcut]
                  · intro n hn
                    simp only [hn, safeWrite]
                    split
                    · exact ⟨_, _, rfl⟩
                    · exact ⟨_, _, rfl⟩
    · rename_i hi
      exact .falseAlarm hs (by simpa [idle] using hi) (by rw [← hs]; rfl)
  · rename_i hs
    exact .misplaced hs rfl

/-! ## Steps -/

/-- The step sets the state after `safe_write` has set the peer to `PEER_ERROR`. -/
def overrides (cfg : Cfg) (w : World) : Act → Bool
  | .exec env io =>
      match w.pipe with
      | .inactivity :: _ => Event.cut cfg env w .peerIsInactiv
      | .addPeer :: _ => io.socket && io.initSu && io.connect = .done && io.sockopt
          && Event.cut cfg env w (.tcpConnected w.nextSock io.localIp)
      | .connect :: _ => io.socket && io.initSu && io.connect = .done && io.sockopt
          && Event.cut cfg env w (.tcpConnected w.nextSock io.localIp)
      | _ => false
  | .connectDone env io ok => ok && io.sockopt && Event.cut cfg env w (.tcpConnected 0 io.localIp)
  | .hangup env cause => Event.cut cfg env w (.peerHangup cause)
  | .read env evs avail => (w.message (.read env evs avail)).any fun buf => msgCode buf = ceMsgCode
      && isReqBuf buf && Event.cut cfg env w (.cerReceived buf)
  | _ => false

/-- The receive thread executes a command. -/
def Execs (w : World) (a : Act) (cmd : Cmd) (rest : List Cmd) : Prop :=
  (∃ env io, a = .exec env io) ∧ w.pipe = cmd :: rest

/-- What a step does, whichever thread takes it. -/
inductive Watched (cfg : Cfg) (w : World) (a : Act) (w' : World) : Prop
  | other (ha : ∀ env io, a ≠ .exec env io) (h : Beat (w.overrides cfg a) w w')
  | exec {cmd : Cmd} {rest : List Cmd} (he : Execs w a cmd rest) (hc : cmd ≠ .inactivity)
      (h : Beat (w.overrides cfg a) { w with pipe := rest } w')
      (hclose : ∀ o, cmd = .close o → w.state = .unconn ∨ w'.state = .unconn)
  /-- `peer_timer_handler` finds the peer inactive. -/
  | alarm (ha : ∀ env io, a ≠ .exec env io)
      (h : w'.watch = (w.state, false, w.pipe ++ [Cmd.inactivity], w.resets))
  | probe {env : Env} {io : SockEnv} {rest : List Cmd} (ha : a = .exec env io)
      (hp : w.pipe = .inactivity :: rest)
      (h : w' = (({ w with pipe := rest } : World).onPeerIsInactiv cfg env).2)

theorem step_watched {cfg : Cfg} {w w' : World} {a : Act} (h : step cfg w a = some w') :
    Watched cfg w a w' := by
  cases a with
  | exec env io =>
      cases hp : w.pipe with
      | nil => simp [step, hp] at h
      | cons cmd rest =>
          simp only [step, hp] at h
          have he := ofRes_eq_some h
          have hx : Execs w (.exec env io) cmd rest := ⟨⟨env, io, rfl⟩, hp⟩
          cases cmd with
          -- the probe has its own description; all other commands keep the beat
          | inactivity => exact .probe rfl hp (Res.ok.inj he).symm
          | close o =>
              refine .exec hx (by simp) ?_ ?_
              · rw [overrides, hp]
                exact beat_event (e := .tcpConnClose) (by simp) he
              · intro _ _
                obtain rfl := Res.ok.inj he
                simp only [onTcpConnClose]
                split
                · exact Or.inr rfl
                · rename_i hn
                  exact Or.inl (by_contra fun hne => hn (Or.inl hne))
          | addPeer | connect =>
              refine .exec hx (by simp) ?_ (by simp)
              rw [overrides, hp]
              exact beat_tcpConnect he
          | accepted s => exact .exec hx (by simp) (beat_tcpAccept he) (by simp)
          | reconnTimeout | cerTimeout | trTimeout =>
              refine .exec hx (by simp) ?_ (by simp)
              rw [overrides, hp]
              exact beat_event (by simp) he
  | read env evs avail =>
      simp only [step] at h
      split at h
      · exact absurd h (by simp)
      · split at h
        · exact .other (by simp) (beat_serveRead (ofRes_eq_some h))
        · exact absurd h (by simp)
  | connectDone env io ok =>
      simp only [step] at h
      split at h
      · exact absurd h (by simp)
      · split at h
        · -- which socket it is does not matter
          have hb := beat_serveWrite (ofRes_eq_some h)
          exact .other (by simp) hb
        · split at h
          · have hb := beat_serveWrite (ofRes_eq_some h)
            exact .other (by simp) (.of_uncut (by simpa using hb))
          · exact absurd h (by simp)
  | hangup env cause =>
      have h : (do return (← peerStateMachine cfg env w (.peerHangup cause)).2 : Res World) = .ok w' :=
        ofRes_eq_some h
      exact .other (by simp) (beat_event (by simp) h)
  | sendReq env inPeer orig req =>
      obtain rfl := Option.some.inj h
      exact .other (by simp) (beat_sendReqToPeer w inPeer orig req)
  | sendRes env buf =>
      obtain rfl := Option.some.inj h
      unfold sendResToPeer
      split
      · exact .other (by simp) (beat_wrote rfl _ _ _)
      · exact .other (by simp) (.refl w)
  | work i parsed => exact .other (by simp) (beat_work h)
  | accept =>
      obtain rfl := Option.some.inj h
      exact .other (by simp) (.added (l := [.accepted w.nextSock]) (by simp) rfl)
  | tick =>
      obtain rfl := Option.some.inj h
      exact .other (by simp) (.of_watch rfl)
  | expireLink => exact .other (by simp) (beat_expireLink h)
  -- off the list now, and probed when the command is executed
  | expireActiv =>
      simp only [step, World.expireActiv] at h
      split at h
      · obtain rfl := Option.some.inj h
        exact .alarm (by simp) rfl
      · exact absurd h (by simp)
  | expireTrans id =>
      simp only [step] at h
      split at h
      · obtain rfl := Option.some.inj h
        exact .other (by simp) (beat_expireTrans w id)
      · exact absurd h (by simp)

end World

end Disc.Transport
