import Disc.Transport.Exchange
import Disc.Transport.Listen

/-!
# What a peer has said on a connection

What the bytes of a write are is in its record, and of an answer it is known that the
request was heard in the same step. A node that dials says nothing before its CER, and
nothing behind it until it is answered. A node that was called says nothing before its
CEA, and nothing behind one that refuses. So as long as the exchange has not taken place,
all that is on the wire in either direction is one message, or the front of it.
-/

namespace Disc.Transport

open Disc.Lib Disc.Msg

/-! ## Records -/

/-- A record of an answer to `req`: the one `internal_send_response` builds, or the front of it. -/
def Answers (cfg : Cfg) (req : List UInt8) (r : WriteRec) : Prop :=
  ∃ avps res n, r.kind = .ans (msgCode req) res ∧ r.bytes = (buildAns cfg avps req res).take n
    ∧ (r.whole = true → (buildAns cfg avps req res).length ≤ n)
    ∧ ((msgCode req = ceMsgCode ∧ ∃ ip, avps = ceAvp cfg ip) ∨ (msgCode req ≠ ceMsgCode ∧ avps = []))

/-- A record of a buffer that fits its kind, or of the front of one. -/
def Recorded (cfg : Cfg) (r : WriteRec) : Prop :=
  ∃ buf n, r.bytes = buf.take n ∧ (r.whole = true → buf.length ≤ n) ∧ Fits cfg (fun _ => True) buf r.kind

/-- All that is written is answers to `req`. -/
def Replies (cfg : Cfg) (req : List UInt8) (w w' : World) : Prop :=
  ∀ r ∈ w'.writes, r ∈ w.writes ∨ Answers cfg req r

namespace World

section

variable {cfg : Cfg} {w w' : World} {env : Env}

theorem writes_closeAndReset (w : World) : w.closeAndReset.writes = w.writes :=
  congrArg Ledger.writes (ledger_closeAndReset w)

theorem writes_runProcessCe {buf : List UInt8} {isReq : Bool} {code : UInt32}
    (h : w.runProcessCe cfg env buf isReq = .ok (code, w')) : w'.writes = w.writes := by
  rcases runProcessCe_cases h with ⟨-, rfl⟩ | ⟨-, c, rfl⟩
  · rfl
  · rfl

theorem replies_of_eq {req : List UInt8} (h : w'.writes = w.writes) : Replies cfg req w w' := by
  intro r hr
  rw [h] at hr
  exact Or.inl hr

theorem replies_sendStdAns {avps req : List UInt8} {res : UInt32} {sent : Bool}
    (hcode : (msgCode req = ceMsgCode ∧ ∃ ip, avps = ceAvp cfg ip)
      ∨ (msgCode req ≠ ceMsgCode ∧ avps = []))
    (h : w.sendStdAns cfg env avps req res = (sent, w')) : Replies cfg req w w' := by
  unfold sendStdAns at h
  split at h
  · obtain ⟨-, rfl⟩ := Prod.mk.inj h
    exact replies_of_eq rfl
  · obtain rfl : (w.safeWrite env.write (.ans (msgCode req) res) (buildAns cfg avps req res)).2 = w' :=
      congrArg Prod.snd h
    cases env.write with
    | failed => exact replies_of_eq rfl
    | wrote n =>
        -- the record is made whether the write was whole or short
        have hwr : (w.safeWrite (.wrote n) (.ans (msgCode req) res) (buildAns cfg avps req res)).2.writes
            = w.writes ++ [⟨w.sock, .ans (msgCode req) res, (buildAns cfg avps req res).take n,
              (buildAns cfg avps req res).length ≤ n⟩] := by
          unfold safeWrite
          dsimp only
          split <;> rfl
        intro r hr
        rw [hwr] at hr
        rcases List.mem_append.mp hr with hr | hr
        · exact Or.inl hr
        · obtain rfl := List.mem_singleton.mp hr
          refine Or.inr ⟨avps, res, n, rfl, rfl, fun hw => ?_, hcode⟩
          simpa only [decide_eq_true_eq] using hw

/-- Resetting the peer writes nothing. -/
theorem replies_reset {buf : List UInt8} {v : World} (h : Replies cfg buf w v) :
    Replies cfg buf w v.closeAndReset := by
  rw [Replies, writes_closeAndReset]
  exact h

theorem replies_onCerReceived {buf : List UInt8} {b : Bool} (hc : msgCode buf = ceMsgCode)
    (h : w.onCerReceived cfg env buf = .ok (b, w')) : Replies cfg buf w w' := by
  rcases onCerReceived_cases h with ⟨-, -, rfl⟩ | ⟨u, res, v, sent, v', hu, hce, hcea, hk⟩
  · exact replies_of_eq rfl
  -- `process_ce` writes nothing, so the CEA is all there is
  have hv : v.writes = w.writes := by
    rw [writes_runProcessCe hce]
    rcases hu with ⟨-, rfl⟩ | ⟨-, rfl⟩
    · rw [rmvFromTimerList_eq]
    · rfl
  have hv' : Replies cfg buf w v' := by
    intro r hr
    rw [← hv]
    exact replies_sendStdAns (Or.inl ⟨hc, _, rfl⟩) hcea r hr
  rcases hk with ⟨-, rfl⟩ | ⟨-, -, rfl⟩
  · exact replies_reset hv'
  · exact hv'

theorem replies_onDwrReceived {buf : List UInt8} {b : Bool} (hc : msgCode buf ≠ ceMsgCode)
    (h : w.onDwrReceived cfg env buf = .ok (b, w')) : Replies cfg buf w w' := by
  rcases onDwrReceived_cases h with ⟨-, rfl⟩ | ⟨res, sent, v, -, hdwa, hk⟩
  · exact replies_of_eq rfl
  have hv : Replies cfg buf w v := replies_sendStdAns (Or.inr ⟨hc, rfl⟩) hdwa
  rcases hk with ⟨-, rfl⟩ | ⟨-, -, rfl⟩
  · exact replies_reset hv
  · exact hv

theorem replies_onDprReceived {buf : List UInt8} {b : Bool} (hc : msgCode buf ≠ ceMsgCode)
    (h : w.onDprReceived cfg env buf = .ok (b, w')) : Replies cfg buf w w' := by
  rcases onDprReceived_cases h with ⟨-, rfl⟩ | ⟨res, sent, v, -, hdpa, rfl⟩
  · exact replies_of_eq rfl
  · have hv := replies_sendStdAns (Or.inr ⟨hc, rfl⟩) hdpa
    have hv : Replies cfg buf w v := hv
    exact replies_reset hv

/-- A request is answered by the handler of its event. -/
theorem replies_request {buf : List UInt8} (hr : isReqBuf buf = true)
    (h : w.dispatchMessage cfg env buf = .ok w') : Replies cfg buf w w' := by
  unfold dispatchMessage at h
  simp only [hr, if_true] at h
  split at h
  · rename_i hc
    obtain ⟨⟨b, v⟩, hm, hk⟩ := Res.bind_eq_ok h
    obtain rfl := Res.ok.inj hk
    have hv := replies_onCerReceived hc hm
    exact hv
  · rename_i hc
    split at h
    · obtain ⟨⟨b, v⟩, hm, hk⟩ := Res.bind_eq_ok h
      obtain rfl := Res.ok.inj hk
      have hv := replies_onDwrReceived hc hm
      exact hv
    · split at h
      · obtain ⟨⟨b, v⟩, hm, hk⟩ := Res.bind_eq_ok h
        obtain rfl := Res.ok.inj hk
        have hv := replies_onDprReceived hc hm
        exact hv
      · obtain rfl := Res.ok.inj h
        exact replies_of_eq rfl

end

end World

/-! ## Messages that come in -/

theorem IsFrame.length_le {buf : List UInt8} (h : IsFrame buf) : 20 ≤ buf.length := (msgSize_some h).2.1

namespace World

section

variable {cfg : Cfg} {w w' : World} {a : Act} {buf : List UInt8}

theorem message_read (h : w.message a = some buf) :
    ∃ env evs avail out, a = .read env evs avail ∧ doRead evs w.rb avail = .ok out ∧ out.msg = some buf := by
  cases a with
  | read env evs avail =>
      simp only [message] at h
      split at h
      · rename_i out hout
        exact ⟨env, evs, avail, out, rfl, hout, h⟩
      · exact absurd h (by simp)
  | _ => exact absurd h (by simp [message])

theorem message_isFrame (hi : Inbox w.ledger) (h : w.message a = some buf) : IsFrame buf := by
  obtain ⟨env, evs, avail, out, -, hout, hmsg⟩ := message_read h
  obtain ⟨tail, hb⟩ := hi.rb
  obtain ⟨out', hout', hadv, -⟩ := doRead_advanced evs hb avail
  obtain rfl : out = out' := Res.ok.inj (hout.symm.trans hout')
  exact hadv.isFrame hmsg

/-- The socket that is read is in the read set, and a whole message is dispatched. -/
theorem read_dispatch {env : Env} {evs : List RecvEv} {avail : List UInt8}
    (h : step cfg w (.read env evs avail) = some w') :
    ∃ s out, w.sock = some s ∧ s ∈ w.rdSet ∧ doRead evs w.rb avail = .ok out
      ∧ ∀ buf, out.msg = some buf →
        ({ w with rb := out.rb } : World).dispatchMessage cfg env buf = .ok w' := by
  simp only [step] at h
  split at h
  · exact absurd h (by simp)
  · rename_i s hs
    split at h
    · rename_i hrd
      obtain ⟨out, hout, h⟩ := Res.bind_eq_ok (ofRes_eq_some h)
      refine ⟨s, out, hs, hrd, hout, fun buf hmsg => ?_⟩
      rw [hmsg, doRead_msg hout hmsg] at h
      obtain ⟨v, hd, hk⟩ := Res.bind_eq_ok h
      obtain rfl := Res.ok.inj hk
      exact hd
    · exact absurd h (by simp)

theorem replies_message (h : step cfg w a = some w') (hm : w.message a = some buf)
    (hr : isReqBuf buf = true) : Replies cfg buf w w' := by
  obtain ⟨env, evs, avail, out, rfl, hout, hmsg⟩ := message_read hm
  obtain ⟨s, out', -, -, hout', hd⟩ := read_dispatch h
  obtain rfl : out = out' := Res.ok.inj (hout.symm.trans hout')
  have hv := replies_request hr (hd buf hmsg)
  exact hv

/-- **Every answer that was written answers a request that has a header.** -/
theorem answers_reachable (h : Reachable cfg w) :
    ∀ r ∈ w.writes, ∀ code res, r.kind = .ans code res → ∃ req, 20 ≤ req.length ∧ Answers cfg req r := by
  refine Reach.invariant_of (J := fun w => Inbox w.ledger) (I := fun w => ∀ r ∈ w.writes, ∀ code res,
    r.kind = .ans code res → ∃ req, 20 ≤ req.length ∧ Answers cfg req r) ?_ ?_ ?_ h
  · exact fun w hr => inbox_reachable hr
  · rintro w ⟨nextLabel, ete, jiffies, rfl⟩ r hr
    exact absurd hr (by simp [start])
  · intro w a w' hJ hi _ hst r hr code res hkind
    obtain ⟨op, hcore, hop⟩ := step_core hst
    have hold : w'.writes = w.writes → ∃ req, 20 ≤ req.length ∧ Answers cfg req r := by
      intro hw
      exact hi r (hw ▸ hr) code res hkind
    have hheard : ∀ buf, op = .hears buf → ∃ req, 20 ≤ req.length ∧ Answers cfg req r := by
      rintro buf rfl
      rcases replies_message hst hop (hcore.hears rfl) r hr with hr | ha
      · exact hi r hr code res hkind
      · exact ⟨buf, (message_isFrame hJ hop).length_le, ha⟩
    -- a record that is new is of the kind its step says
    have hnew : ∀ rs : List WriteRec, w'.writes = w.writes ++ rs →
        (r ∈ rs → ∃ req, 20 ≤ req.length ∧ Answers cfg req r) →
        ∃ req, 20 ≤ req.length ∧ Answers cfg req r := by
      intro rs hw hrs
      rw [hw] at hr
      rcases List.mem_append.mp hr with hr | hr
      · exact hi r hr code res hkind
      · exact hrs hr
    cases hcore.speech with
    | same hw | lost hw | opened hw | answered hw => exact hold hw
    | cer rs hw hone hrs =>
        refine hnew rs hw fun hr => ?_
        exact absurd ((hrs r hr).2.symm.trans hkind) (by simp)
    | cea buf hbuf => exact hheard buf hbuf
    | refused buf hbuf => exact hheard buf hbuf
    | up rs hw hrs =>
        refine hnew rs hw fun hr => ?_
        obtain ⟨buf, hbuf⟩ := (hrs r hr).2 code res hkind
        exact hheard buf hbuf

theorem recorded_moves {l l' : Ledger} (hm : Moves cfg (fun _ => True) l l')
    (hi : ∀ r ∈ l.writes, Recorded cfg r) : ∀ r ∈ l'.writes, Recorded cfg r := by
  induction hm with
  | trans _ _ ih ih' => exact ih' (ih hi)
  | wrote k buf n hfit =>
      intro r hr
      rcases List.mem_append.mp hr with hr | hr
      · exact hi r hr
      · obtain rfl := List.mem_singleton.mp hr
        refine ⟨buf, n, rfl, fun hw => ?_, hfit⟩
        simpa only [decide_eq_true_eq] using hw
  | _ => exact hi

theorem recorded_reachable (h : Reachable cfg w) : ∀ r ∈ w.writes, Recorded cfg r := by
  refine Reach.invariant (I := fun w => ∀ r ∈ w.writes, Recorded cfg r) ?_ ?_ h
  · rintro w ⟨nextLabel, ete, jiffies, rfl⟩ r hr
    exact absurd hr (by simp [start])
  · intro w a w' hi _ hst
    exact step_kept (I := fun l => ∀ r ∈ l.writes, Recorded cfg r) (fun _ _ => recorded_moves)
      (fun _ _ _ _ hi => ⟨hi, fun _ _ => hi⟩) hi hst

end

/-! ## What was said on a connection -/

/-- The records of connection `s`. -/
def on (w : World) (s : Nat) : List WriteRec := w.writes.filter fun r => r.sock = some s

/-- The bytes that went out on it. -/
def said (w : World) (s : Nat) : List UInt8 := (w.on s).flatMap (·.bytes)

section

variable {cfg : Cfg} {w w' : World} {a : Act} {s : Nat}

theorem on_append {rs : List WriteRec} (h : w'.writes = w.writes ++ rs) :
    w'.on s = w.on s ++ rs.filter fun r => r.sock = some s := by
  rw [on, h, List.filter_append]
  rfl

theorem on_eq (h : w'.writes = w.writes) : w'.on s = w.on s := by
  rw [on, h]
  rfl

/-- Records of another connection do not show. -/
theorem on_other {rs : List WriteRec} (h : w'.writes = w.writes ++ rs) (hrs : ∀ r ∈ rs, r.sock ≠ some s) :
    w'.on s = w.on s := by
  have hnil : rs.filter (fun r => r.sock = some s) = [] := by
    refine List.filter_eq_nil_iff.mpr fun r hr => ?_
    simpa using hrs r hr
  rw [on_append h, hnil, List.append_nil]

/-- Records of this one all do. -/
theorem on_this {rs : List WriteRec} (h : w'.writes = w.writes ++ rs) (hrs : ∀ r ∈ rs, r.sock = some s) :
    w'.on s = w.on s ++ rs := by
  have hall : rs.filter (fun r => r.sock = some s) = rs := by
    refine List.filter_eq_self.mpr fun r hr => ?_
    simpa using hrs r hr
  rw [on_append h, hall]

theorem on_fresh (hk : Sockets w.ledger) (hf : w.ledger.Fresh s) : w.on s = [] := by
  refine List.filter_eq_nil_iff.mpr fun r hr hs => ?_
  exact hk.writes r hr s (of_decide_eq_true hs) hf

theorem said_eq (h : w'.on s = w.on s) : w'.said s = w.said s := by rw [said, h, said]

theorem said_nil (h : w.on s = []) : w.said s = [] := by rw [said, h, List.flatMap_nil]

/-- What a step adds to the records. -/
theorem step_writes (h : step cfg w a = some w') :
    ∃ rs : List WriteRec, w'.writes = w.writes ++ rs ∧ ∀ r ∈ rs, r.sock = w.sock ∨ r.sock = w'.sock := by
  obtain ⟨op, hcore, -⟩ := step_core h
  exact hcore.speech.records

/-- **What was said stays said.** -/
theorem step_said (h : step cfg w a = some w') (s : Nat) : w.said s <+: w'.said s := by
  obtain ⟨rs, hw, -⟩ := step_writes h
  rw [said, said, on_append hw, List.flatMap_append]
  exact List.prefix_append _ _

/-- On a connection that the peer neither has nor gets nothing is said. -/
theorem step_on_other (h : step cfg w a = some w') (hs : w.sock ≠ some s) (hs' : w'.sock ≠ some s) :
    w'.on s = w.on s := by
  obtain ⟨rs, hw, hrs⟩ := step_writes h
  refine on_other hw fun r hr hr' => ?_
  rcases hrs r hr with hk | hk
  · exact hs (hk.symm.trans hr')
  · exact hs' (hk.symm.trans hr')

end

/-! ## The node that dials -/

/-- The peer is waiting for a CEA on `s`, or may get there. -/
def Dialing (w : World) (s : Nat) : Prop :=
  w.ledger.Fresh s ∨ (w.sock = some s ∧ (w.state = .unconn ∨ w.state = .waitCea))

/-- What was said on the connection of a peer that dials. -/
structure Dials (cfg : Cfg) (w : World) : Prop where
  unconn : w.state = .unconn → ∀ s, w.sock = some s → w.on s = []
  waitCea : w.state = .waitCea → ∀ s, w.sock = some s →
    ∃ ip hbh ete, w.said s <+: stamp (buildReq cfg ceMsgCode (ceAvp cfg ip)) hbh ete

section

variable {cfg : Cfg} {w w' : World} {a : Act} {s : Nat}

/-- A record of a CER is its front. -/
theorem cer_recorded {r : WriteRec} (h : Recorded cfg r) (hk : r.kind = .req ceMsgCode) :
    ∃ ip hbh ete, r.bytes <+: stamp (buildReq cfg ceMsgCode (ceAvp cfg ip)) hbh ete := by
  obtain ⟨buf, n, hb, -, hfit⟩ := h
  rw [hk] at hfit
  obtain ⟨avps, hbh, ete, rfl, ⟨-, ip, rfl⟩ | ⟨hc, -⟩ | ⟨hc, -⟩⟩ := hfit
  · refine ⟨ip, hbh, ete, ?_⟩
    rw [hb]
    exact List.take_prefix n _
  · exact absurd hc (by decide)
  · exact absurd hc (by decide)

theorem dials_step (hi : Dials cfg w) (hr : Reachable cfg w) (h : step cfg w a = some w') :
    Dials cfg w' := by
  have hr' : Reachable cfg w' := .step hr trivial h
  have hkeys := sockets_reachable hr
  obtain ⟨op, hcore, -⟩ := step_core h
  -- nothing was said on the connection an unconnected peer has or gets
  have hempty : w.state = .unconn → ∀ s, w'.sock = some s → w.on s = [] := by
    intro hu s hs
    rcases step_sock_source h hs with hs | hf
    · exact hi.unconn hu s hs
    · exact on_fresh hkeys hf
  refine ⟨fun hu s hs => ?_, fun hwait s hs => ?_⟩
  · rcases hcore.speech.unconn hu with hk | ⟨hst, hw⟩
    · exact absurd (hs.symm.trans hk) (by simp)
    · exact (on_eq hw).trans (hempty hst s hs)
  · rcases hcore.speech.waitCea hwait with ⟨hst, hk, hw⟩ | ⟨hst, rs, hw, hone, hrs⟩
    · rw [said_eq (on_eq hw)]
      exact hi.waitCea hst s (hk.symm.trans hs)
    · have hw : w'.writes = w.writes ++ rs := hw
      have hon : w'.on s = rs := by
        rw [on_this hw fun r hr => (hrs r hr).1.trans hs, hempty hst s hs, List.nil_append]
      rw [said, hon]
      -- the CER is all there is, unless not a byte of it was written
      match rs, hone with
      | [], _ => exact ⟨w.localIp, 0, 0, List.nil_prefix⟩
      | [r], _ =>
          rw [List.flatMap_singleton]
          have hmem : r ∈ w'.writes := by
            rw [hw]
            exact List.mem_append_right _ (List.mem_singleton.mpr rfl)
          exact cer_recorded (recorded_reachable hr' r hmem) (hrs r (List.mem_singleton.mpr rfl)).2

theorem dials_reachable (h : Reachable cfg w) : Dials cfg w := by
  refine Reach.invariant_of (J := Reachable cfg) (I := Dials cfg) (fun _ hr => hr) ?_ ?_ h
  · rintro w ⟨nextLabel, ete, jiffies, rfl⟩
    exact ⟨fun _ s _ => rfl, fun hw => absurd hw (by simp [start])⟩
  · intro w a w' hr hi _ hst
    exact dials_step hi hr hst

/-- **All that a node that dials has said is its CER, or the front of it.** -/
theorem dialing_said (h : Reachable cfg w) (hd : Dialing w s) :
    ∃ ip hbh ete, w.said s <+: stamp (buildReq cfg ceMsgCode (ceAvp cfg ip)) hbh ete := by
  have hi := dials_reachable h
  rcases hd with hf | ⟨hs, hu | hwait⟩
  · rw [said_nil (on_fresh (sockets_reachable h) hf)]
    exact ⟨w.localIp, 0, 0, List.nil_prefix⟩
  · rw [said_nil (hi.unconn hu s hs)]
    exact ⟨w.localIp, 0, 0, List.nil_prefix⟩
  · exact hi.waitCea hwait s hs

/-- A node that dials was dialling before. -/
theorem dialing_of_step (h : step cfg w a = some w') (hd : Dialing w' s) : Dialing w s := by
  obtain ⟨rb, queue, hmv⟩ := step_ledger h
  obtain ⟨op, hcore, -⟩ := step_core h
  have huses : ∀ x, w'.ledger.Fresh x → w.ledger.Fresh x := hmv.sock_source.1
  rcases hd with hf | ⟨hs, hst⟩
  · exact Or.inl (huses s hf)
  · rcases step_sock_source h hs with hs₀ | hf
    · refine Or.inr ⟨hs₀, ?_⟩
      -- a node that waits for a CEA now waited already, or had the connection in the making
      rcases hst with hu | hwait
      · rcases hcore.speech.unconn hu with hk | ⟨hu₀, -⟩
        · exact absurd (hs.symm.trans hk) (by simp)
        · exact Or.inl hu₀
      · rcases hcore.speech.waitCea hwait with ⟨hwait₀, -⟩ | ⟨hu₀, -⟩
        · exact Or.inr hwait₀
        · exact Or.inl hu₀
    · exact Or.inl hf

end

/-! ## The node that is called -/

/--
The exchange has not taken place on `s`: nothing was said there, or only a CEA that
refuses, with which the connection was given up.
-/
inductive Unmet (cfg : Cfg) (s : Nat) (w : World) : Prop
  | silent (hon : w.on s = []) (hs : w.sock = some s → w.state = .waitCer)
  | refused (hs : w.sock ≠ some s) (hf : ¬ w.ledger.Fresh s) {ip : IpAddr} {req : List UInt8} {res : UInt32}
      (hreq : 20 ≤ req.length) (hc : msgCode req = ceMsgCode) (hres : res ≠ aaaSuccess)
      (hsaid : w.said s <+: buildAns cfg (ceAvp cfg ip) req res)

section

variable {cfg : Cfg} {w w' : World} {a : Act} {s : Nat}

/-- A record of a CEA is its front. -/
theorem cea_answers {req : List UInt8} {r : WriteRec} (h : Answers cfg req r) (hc : msgCode req = ceMsgCode)
    (hne : r.kind ≠ .ans ceMsgCode aaaSuccess) :
    ∃ ip res, res ≠ aaaSuccess ∧ r.bytes <+: buildAns cfg (ceAvp cfg ip) req res := by
  obtain ⟨avps, res, n, hkind, hb, -, ⟨-, ip, rfl⟩ | ⟨hnc, -⟩⟩ := h
  · refine ⟨ip, res, ?_, ?_⟩
    · rintro rfl
      exact hne (hc ▸ hkind)
    · rw [hb]
      exact List.take_prefix n _
  · exact absurd hc hnc

/-- The CER is refused, and the connection is given up. -/
theorem unmet_of_refusal {buf : List UInt8} {rs : List WriteRec} (hr : Reachable cfg w)
    (h : step cfg w a = some w') (hm : w.message a = some buf) (hreq : isReqBuf buf = true)
    (hc : msgCode buf = ceMsgCode) (hs : w.sock = some s) (hon : w.on s = [])
    (hw : w'.writes = w.writes ++ rs) (hone : rs.length ≤ 1) (hrs : ∀ r ∈ rs, r.sock = w.sock)
    (hne : ∀ r ∈ rs, r.kind ≠ .ans ceMsgCode aaaSuccess) (hs' : w'.sock = none) : Unmet cfg s w' := by
  have hkeys := sockets_reachable (.step hr trivial h : Reachable cfg w')
  have hlost : w'.sock ≠ some s := by simp [hs']
  have hon' : w'.on s = rs := by
    rw [on_this hw fun r hr => (hrs r hr).trans hs, hon, List.nil_append]
  match rs, hone with
  | [], _ => exact .silent hon' fun hs'' => absurd hs'' hlost
  | [r], _ =>
      have hself : r ∈ [r] := List.mem_singleton.mpr rfl
      have hmem : r ∈ w'.writes := by
        rw [hw]
        exact List.mem_append_right _ hself
      have hsock : r.sock = some s := (hrs r hself).trans hs
      -- it is new, since there was none on this connection
      have hans : Answers cfg buf r := by
        rcases replies_message h hm hreq r hmem with hold | hans
        · have hin : r ∈ w.on s := List.mem_filter.mpr ⟨hold, by simpa using hsock⟩
          exact absurd hin (by simp [hon])
        · exact hans
      obtain ⟨ip, res, hres, hfront⟩ := cea_answers hans hc (hne r hself)
      have hsaid : w'.said s <+: buildAns cfg (ceAvp cfg ip) buf res := by
        rw [said, hon', List.flatMap_singleton]
        exact hfront
      exact .refused hlost (hkeys.writes r hmem s hsock)
        (message_isFrame (inbox_reachable hr) hm).length_le hc hres hsaid

/--
A step of a node that was called, or may be: nothing has happened yet, or it has
handled a CER and is connected.
-/
theorem unmet_step (hr : Reachable cfg w) (hi : Unmet cfg s w) (h : step cfg w a = some w')
    (htake : w'.sock = some s → w.sock ≠ some s → ∃ rest, w.pipe = .accepted s :: rest) :
    Unmet cfg s w' ∨ (w.sock = some s ∧ w.state ≠ .conn ∧ w'.state = .conn
      ∧ ∃ buf, w.message a = some buf ∧ msgCode buf = ceMsgCode ∧ isReqBuf buf = true) := by
  obtain ⟨op, hcore, hop⟩ := step_core h
  cases hi with
  | refused hs hf hreq hc hres hsaid =>
      obtain ⟨rb, queue, hmv⟩ := step_ledger h
      -- a socket that was given up is not used again
      have hs' : w'.sock ≠ some s := by
        intro hs'
        rcases step_sock_source h hs' with hs' | hf'
        · exact hs hs'
        · exact hf hf'
      rw [← said_eq (step_on_other h hs hs')] at hsaid
      exact Or.inl (.refused hs' (fun hf' => hf (hmv.sock_source.1 s hf')) hreq hc hres hsaid)
  | silent hon hst =>
      by_cases hs : w.sock = some s
      · have hwait : w.state = .waitCer := hst hs
        cases hcore.speech with
        | same hw hst' hk => exact Or.inl (.silent ((on_eq hw).trans hon) fun _ => hst'.trans hwait)
        | lost hw hst' hk =>
            exact Or.inl (.silent ((on_eq hw).trans hon) fun hs' => absurd (hs'.symm.trans hk) (by simp))
        -- the one way out: the CER is accepted
        | cea buf hbuf hc rs hw hrs hst' hconn hk =>
            subst hbuf
            exact Or.inr ⟨hs, by rw [hwait]; decide, hconn, buf, hop, hc, hcore.hears rfl⟩
        | refused buf hbuf rs hw hone hrs hcer hst' hlost hk =>
            subst hbuf
            obtain ⟨hc, hne⟩ := hcer hwait
            exact Or.inl (unmet_of_refusal hr h hop (hcore.hears rfl) hc hs hon hw hone hrs hne hk)
        | opened hw hu => exact absurd (hwait.symm.trans hu) (by decide)
        | cer rs hw hone hrs hu => exact absurd (hwait.symm.trans hu) (by decide)
        | answered hw hst' =>
            rcases hst' with hst' | hst' <;> exact absurd (hwait.symm.trans hst') (by decide)
        | up rs hw hrs hup =>
            rcases hup with hup | hup | hup <;> exact absurd (hwait.symm.trans hup) (by decide)
      · by_cases hs' : w'.sock = some s
        · -- the connection is handed over, which says nothing
          obtain ⟨rest, hp⟩ := htake hs' hs
          have hwait : w'.state = .waitCer := hcore.taken hp hs hs'
          exact Or.inl (.silent ((on_eq (hcore.speech.waitCer hwait)).trans hon) fun _ => hwait)
        · exact Or.inl (.silent ((step_on_other h hs hs').trans hon) fun hs'' => absurd hs'' hs')

end

end World

end Disc.Transport
