import Disc.Transport.FdSets
import Disc.Transport.Says
import Disc.Transport.Sockets

/-!
# The read buffer and the connection it belongs to

`reset_peer` empties the read buffer, and bytes get into it only from the socket of the
peer while that is in the read set. A peer that is not connected has no such socket: a
pending connect is in the write set. So a connection always starts with an empty buffer.

All there is to know about the read set for this is that the state machine only takes
descriptors out.
-/

namespace Disc.Transport

open Disc.Lib Disc.Msg

namespace World

/-! ## The read set -/

variable {cfg : Cfg} {w w' : World} {env : Env}

theorem rdSet_of_fds {f : Fds} (h : w'.fds = f) (hf : f.rdSet ⊆ w.rdSet) : w'.rdSet ⊆ w.rdSet := by
  have hrd : w'.rdSet = f.rdSet := congrArg Fds.rdSet h
  rw [hrd]
  exact hf

theorem rdSet_shut (w : World) : w.fds.shut.rdSet ⊆ w.rdSet := List.filter_subset_self _

theorem Kept.rdSet (h : Kept w w') : w'.rdSet ⊆ w.rdSet := by
  rcases h with h | h
  · exact rdSet_of_fds h (List.Subset.refl _)
  · exact rdSet_of_fds h (rdSet_shut w)

/-- **The state machine takes descriptors out of the read set only.** -/
theorem rdSet_peerStateMachine {e : Event} {b : Bool}
    (h : peerStateMachine cfg env w e = .ok (b, w')) : w'.rdSet ⊆ w.rdSet := by
  have hpure : ∀ r : Bool × World, (Res.ok r : Res (Bool × World)) = .ok (b, w') → r.2 = w' :=
    fun r hr => congrArg Prod.snd (Res.ok.inj hr)
  cases e with
  | tcpAccept s ip =>
      obtain rfl := hpure _ h
      by_cases hs : w.state = .unconn
      · obtain ⟨-, g, hg, hf⟩ := fds_onTcpAccept hs s ip
        rcases hg with ⟨-, rfl⟩ | ⟨-, rfl⟩
        · exact rdSet_of_fds hf (rdSet_shut w)
        · exact rdSet_of_fds hf (List.Subset.refl _)
      · rw [(refuses hs cfg env s ip).1]
        exact List.Subset.refl _
  | tcpConnected s ip =>
      obtain rfl := hpure _ h
      by_cases hs : w.state = .unconn
      · rcases (fds_onTcpConnected hs cfg env s ip).2 with ⟨-, hf⟩ | ⟨-, hf⟩
        · exact rdSet_of_fds hf (List.Subset.refl _)
        · exact rdSet_of_fds hf (List.filter_subset_self _)
      · rw [(refuses hs cfg env s ip).2.1]
        exact List.Subset.refl _
  | tcpConnInProg s =>
      obtain rfl := hpure _ h
      unfold onTcpConnInProg
      split <;> exact List.Subset.refl _
  | tcpConnFailed =>
      obtain rfl := hpure _ h
      by_cases hs : w.state = .unconn
      · exact rdSet_of_fds (fds_onTcpConnFailed hs) (List.Subset.refl _)
      · rw [refuses_failed hs]
        exact List.Subset.refl _
  | peerReconnTimeout =>
      obtain rfl := hpure _ h
      rcases fds_onPeerReconnTimeout w with hf | hf
      · exact rdSet_of_fds hf (List.Subset.refl _)
      · exact rdSet_of_fds hf (rdSet_shut w)
  | _ => exact (kept_peerStateMachine h trivial).rdSet

theorem rdSet_event {e : Event} (h : (do return (← peerStateMachine cfg env w e).2 : Res World) = .ok w') :
    w'.rdSet ⊆ w.rdSet := by
  obtain ⟨⟨b, v⟩, hm, hk⟩ := Res.bind_eq_ok h
  obtain rfl := Res.ok.inj hk
  exact rdSet_peerStateMachine hm

/-! ## New descriptors in it -/

/-- A descriptor that was added: it is in use, and its peer is connected unless it gave it up. -/
def Added (w' : World) (x : Nat) : Prop :=
  ¬ w'.ledger.Fresh x ∧ (w'.sock = some x → w'.state ≠ .unconn)

/-- A connection that was made is the peer's, or was given up again. -/
theorem onTcpConnected_true {s : Nat} {ip : IpAddr} {v : World}
    (h : w.onTcpConnected cfg env s ip = (true, v)) :
    w.state = .unconn ∧ (v.sock = some s → v.state ≠ .unconn) := by
  have hs : w.state = .unconn := by
    unfold onTcpConnected at h
    split at h
    · assumption
    · exact absurd (Prod.mk.inj h).1 (by simp)
  refine ⟨hs, fun hk hu => ?_⟩
  have hv : (w.onTcpConnected cfg env s ip).2 = v := congrArg Prod.snd h
  rcases (core_onTcpConnected hs cfg env s ip).2 with hc | ⟨c, -, hc⟩
  · rw [hv] at hc
    have hnone : v.sock = none := congrArg Core.sock hc
    exact absurd (hk.symm.trans hnone) (by simp)
  · rw [hv] at hc
    have hst : v.state = .waitCea := congrArg Core.state hc
    exact absurd (hu.symm.trans hst) (by decide)

theorem rdSet_doConnect {io : SockEnv} {s : Nat} (h : w.doConnect cfg env io s = .ok w')
    (hs : ¬ w.ledger.Fresh s) : ∀ x ∈ w'.rdSet, x ∈ w.rdSet ∨ Added w' x := by
  unfold doConnect at h
  cases hopt : io.sockopt with
  | false =>
      rw [hopt] at h
      obtain ⟨⟨b, v⟩, hm, hk⟩ := Res.bind_eq_ok h
      obtain rfl := Res.ok.inj hk
      exact fun x hx => Or.inl (rdSet_peerStateMachine hm hx)
  | true =>
      rw [hopt] at h
      obtain ⟨⟨b, v⟩, hm, hk⟩ := Res.bind_eq_ok h
      have hsub := rdSet_peerStateMachine hm
      have hm : w.onTcpConnected cfg env s io.localIp = (b, v) := Res.ok.inj hm
      cases b with
      | false =>
          obtain rfl := Res.ok.inj hk
          exact fun x hx => Or.inl (hsub hx)
      | true =>
          obtain rfl := Res.ok.inj hk
          intro x hx
          -- the socket is added after the state machine took it
          rcases List.mem_append.mp hx with hx | hx
          · exact Or.inl (hsub hx)
          · obtain rfl := List.mem_singleton.mp hx
            obtain ⟨hst, hup⟩ := onTcpConnected_true hm
            have hmv := @moves_onTcpConnected cfg (fun _ => True) w env x io.localIp hst
            rw [hm] at hmv
            exact Or.inr ⟨fun hf => hs (hmv.sock_source.1 x hf), hup⟩

theorem rdSet_tcpConnect {io : SockEnv} (h : w.tcpConnect cfg env io = .ok w')
    (hp : ∀ s ∈ w.ledger.pending, s < w.nextSock) : ∀ x ∈ w'.rdSet, x ∈ w.rdSet ∨ Added w' x := by
  unfold tcpConnect at h
  cases hsock : io.socket with
  | false =>
      rw [hsock] at h
      obtain ⟨⟨b, v⟩, hm, hk⟩ := Res.bind_eq_ok h
      obtain rfl := Res.ok.inj hk
      exact fun x hx => Or.inl (rdSet_peerStateMachine hm hx)
  | true =>
      rw [hsock] at h
      set v : World := { w with nextSock := w.nextSock + 1, opened := w.opened ++ [w.nextSock] }
        with hv
      cases hsu : io.initSu with
      | false =>
          rw [hsu] at h
          obtain ⟨⟨b, v₁⟩, hm, hk⟩ := Res.bind_eq_ok h
          obtain rfl := Res.ok.inj hk
          exact fun x hx => Or.inl (rdSet_peerStateMachine hm hx)
      | true =>
          rw [hsu] at h
          cases hcon : io.connect with
          | failed =>
              rw [hcon] at h
              obtain ⟨⟨b, v₁⟩, hm, hk⟩ := Res.bind_eq_ok h
              obtain rfl := Res.ok.inj hk
              exact fun x hx => Or.inl (rdSet_peerStateMachine hm hx)
          | inProgress =>
              rw [hcon] at h
              obtain ⟨⟨b, v₁⟩, hm, hk⟩ := Res.bind_eq_ok h
              have hsub := rdSet_peerStateMachine hm
              have hsub : v₁.rdSet ⊆ w.rdSet := hsub
              have hv₁ : w'.rdSet = v₁.rdSet := by
                cases b with
                | false =>
                    obtain rfl := Res.ok.inj hk
                    rfl
                | true =>
                    obtain rfl := Res.ok.inj hk
                    rfl
              exact fun x hx => Or.inl (hsub (hv₁ ▸ hx))
          | done =>
              rw [hcon] at h
              -- the new number is below the next one, and none of those that wait
              have hfresh : ¬ v.ledger.Fresh w.nextSock := by
                rintro (hf | hf)
                · have hlt : w.nextSock < w.nextSock := hp w.nextSock hf
                  omega
                · have hle : w.nextSock + 1 ≤ w.nextSock := hf
                  omega
              have h : v.doConnect cfg env io w.nextSock = .ok w' := h
              have hd := rdSet_doConnect h hfresh
              exact hd

theorem rdSet_tcpAccept {io : SockEnv} {s : Nat} (h : w.tcpAccept cfg env io s = .ok w')
    (hs : ¬ w.ledger.Fresh s) : ∀ x ∈ w'.rdSet, x ∈ w.rdSet ∨ Added w' x := by
  have hl := moves_tcpAccept h
  unfold tcpAccept at h
  cases hopt : io.sockopt with
  | false =>
      rw [hopt] at h
      obtain rfl := Res.ok.inj h
      exact fun x hx => Or.inl hx
  | true =>
      rw [hopt] at h
      obtain ⟨⟨b, v⟩, hm, hk⟩ := Res.bind_eq_ok h
      have hsub := rdSet_peerStateMachine hm
      have hm : w.onTcpAccept s io.localIp = (b, v) := Res.ok.inj hm
      cases b with
      | false =>
          obtain rfl := Res.ok.inj hk
          exact fun x hx => Or.inl (hsub hx)
      | true =>
          obtain rfl := Res.ok.inj hk
          intro x hx
          rcases List.mem_append.mp hx with hx | hx
          · exact Or.inl (hsub hx)
          · obtain rfl := List.mem_singleton.mp hx
            refine Or.inr ⟨?_, fun _ hu => ?_⟩
            · rcases hl with hl | hl
              · rw [hl]
                exact hs
              · rw [hl]
                exact hs
            · unfold onTcpAccept at hm
              split at hm
              · obtain ⟨-, rfl⟩ := Prod.mk.inj hm
                exact absurd hu (by simp)
              · exact absurd (Prod.mk.inj hm).1 (by simp)

theorem rdSet_serveWrite {io : SockEnv} {s : Nat} {ok : Bool}
    (h : w.serveWrite cfg env io s ok = .ok w') (hs : ¬ w.ledger.Fresh s) :
    ∀ x ∈ w'.rdSet, x ∈ w.rdSet ∨ Added w' x := by
  unfold serveWrite at h
  dsimp only at h
  split at h
  · obtain ⟨⟨b, v⟩, hm, hk⟩ := Res.bind_eq_ok h
    obtain rfl := Res.ok.inj hk
    have hsub := rdSet_peerStateMachine hm
    exact fun x hx => Or.inl (hsub hx)
  · have hd := rdSet_doConnect h hs
    exact hd

theorem rdSet_exec {io : SockEnv} {cmd : Cmd} {rest : List Cmd} (hp : w.pipe = cmd :: rest)
    (h : ({ w with pipe := rest } : World).execute cfg env io cmd = .ok w') (hk : Sockets w.ledger) :
    ∀ x ∈ w'.rdSet, x ∈ w.rdSet ∨ Added w' x := by
  have hpend : w.ledger.pending = pending (cmd :: rest) := by simp only [ledger, hp]
  have hn := hk.nodup
  have hlt := hk.pending
  rw [hpend] at hn hlt
  have hconn : (cmd = .addPeer ∨ cmd = .connect) →
      ∀ s ∈ ({ w with pipe := rest } : World).ledger.pending, s < w.nextSock := by
    rintro (rfl | rfl)
    · exact hlt
    · exact hlt
  cases cmd with
  | addPeer =>
      have hd := rdSet_tcpConnect h (hconn (Or.inl rfl))
      exact hd
  | connect =>
      have hd := rdSet_tcpConnect h (hconn (Or.inr rfl))
      exact hd
  | accepted s =>
      -- the one that is handed to the peer does not wait any more
      have hfresh : ¬ ({ w with pipe := rest } : World).ledger.Fresh s := by
        rintro (hf | hf)
        · exact (List.nodup_cons.mp hn).1 hf
        · exact absurd (hlt s List.mem_cons_self) (Nat.not_lt.mpr hf)
      have hd := rdSet_tcpAccept h hfresh
      exact hd
  | inactivity | close | reconnTimeout | cerTimeout | trTimeout =>
      have hsub := rdSet_event h
      exact fun x hx => Or.inl (hsub hx)

/-- **What a step can add to the read set.** -/
theorem step_rdSet {a : Act} (h : step cfg w a = some w') (hk : Sockets w.ledger) :
    ∀ x ∈ w'.rdSet, x ∈ w.rdSet ∨ Added w' x := by
  have hkept : w'.fds = w.fds → ∀ x ∈ w'.rdSet, x ∈ w.rdSet ∨ Added w' x :=
    fun hf x hx => Or.inl (rdSet_of_fds hf (List.Subset.refl _) hx)
  cases a with
  | exec env io =>
      simp only [step] at h
      split at h
      · exact absurd h (by simp)
      · rename_i cmd rest hp
        exact rdSet_exec hp (ofRes_eq_some h) hk
  | read env evs avail =>
      simp only [step] at h
      split at h
      · exact absurd h (by simp)
      · split at h
        · exact fun x hx => Or.inl ((kept_serveRead (ofRes_eq_some h)).rdSet hx)
        · exact absurd h (by simp)
  | connectDone env io ok =>
      simp only [step] at h
      split at h
      · exact absurd h (by simp)
      · rename_i s hs
        split at h
        · exact rdSet_serveWrite (ofRes_eq_some h) (hk.sock s hs)
        · split at h
          · exact rdSet_serveWrite (ofRes_eq_some h) (hk.sock s hs)
          · exact absurd h (by simp)
  | hangup env cause =>
      have h : (do return (← peerStateMachine cfg env w (.peerHangup cause)).2 : Res World) = .ok w' :=
        ofRes_eq_some h
      exact fun x hx => Or.inl (rdSet_event h hx)
  | sendReq env inPeer orig req =>
      obtain rfl := Option.some.inj h
      exact hkept (fds_sendReqToPeer w env inPeer orig req)
  | sendRes env buf =>
      obtain rfl := Option.some.inj h
      exact hkept (fds_sendResToPeer w env buf)
  | work i parsed => exact hkept (fds_work h)
  | accept | tick =>
      obtain rfl := Option.some.inj h
      exact fun x hx => Or.inl hx
  | expireLink => exact hkept (fds_expireLink h)
  | expireActiv =>
      simp only [step, World.expireActiv] at h
      split at h
      · obtain rfl := Option.some.inj h
        exact fun x hx => Or.inl hx
      · exact absurd h (by simp)
  | expireTrans id =>
      simp only [step] at h
      split at h
      · obtain rfl := Option.some.inj h
        exact hkept (fds_expireTrans w id)
      · exact absurd h (by simp)

end World

/-! ## The read buffer -/

/-- **The read buffer stays or is emptied**, and is emptied when a connection is lost. -/
theorem Moves.rb {cfg : Cfg} {P : List UInt8 → Prop} {l l' : Ledger} (hm : Moves cfg P l l') :
    (l'.rb = l.rb ∨ l'.rb = .empty) ∧ (l'.sock = none → l.sock = none ∨ l'.rb = .empty)
      ∧ ∀ s, l'.sock = some s → (l.sock = some s ∧ l'.rb = l.rb) ∨ l.Fresh s := by
  induction hm with
  | refl l => exact ⟨Or.inl rfl, Or.inl, fun s hs => Or.inl ⟨hs, rfl⟩⟩
  | @trans l₁ l₂ l₃ h₁ h₂ ih₁ ih₂ =>
      obtain ⟨hrb₁, hnone₁, hsome₁⟩ := ih₁
      obtain ⟨hrb₂, hnone₂, hsome₂⟩ := ih₂
      refine ⟨?_, fun hn => ?_, fun s hs => ?_⟩
      · rcases hrb₂ with h | h
        · rw [h]
          exact hrb₁
        · exact Or.inr h
      -- emptied once, it stays empty: a move never fills it
      · rcases hnone₂ hn with hn | he
        · rcases hnone₁ hn with hn | he
          · exact Or.inl hn
          · rcases hrb₂ with h | h
            · exact Or.inr (h.trans he)
            · exact Or.inr h
        · exact Or.inr he
      · rcases hsome₂ s hs with ⟨hs, h⟩ | hf
        · rcases hsome₁ s hs with ⟨hs, h'⟩ | hf
          · exact Or.inl ⟨hs, h.trans h'⟩
          · exact Or.inr hf
        · exact Or.inr (h₁.sock_source.1 s hf)
  | start | drop | unqueue | wrote | exchanged | socket | accept | refuse =>
      exact ⟨Or.inl rfl, Or.inl, fun s hs => Or.inl ⟨hs, rfl⟩⟩
  | reset => exact ⟨Or.inr rfl, fun _ => Or.inr rfl, fun s hs => absurd hs (by simp)⟩
  | connect =>
      refine ⟨Or.inl rfl, fun hn => absurd hn (by simp), fun s hs => Or.inr (Or.inr ?_)⟩
      exact Nat.le_of_eq (Option.some.inj hs)
  | take hp =>
      refine ⟨Or.inl rfl, fun hn => absurd hn (by simp), fun s hs => Or.inr (Or.inl ?_)⟩
      rw [hp, ← Option.some.inj hs]
      exact List.mem_cons_self

/-- **What is stored about the peer** stays until `process_ce` accepts something, or the connection is lost. -/
theorem Moves.caps {cfg : Cfg} {P : List UInt8 → Prop} {l l' : Ledger} (hm : Moves cfg P l l') :
    l.ceLog.length ≤ l'.ceLog.length
      ∧ (l'.caps = l.caps ∨ l.ceLog.length < l'.ceLog.length ∨ ∀ s, l'.sock = some s → l.Fresh s) := by
  induction hm with
  | @trans l₁ l₂ l₃ h₁ h₂ ih₁ ih₂ =>
      obtain ⟨hle₁, hc₁⟩ := ih₁
      obtain ⟨hle₂, hc₂⟩ := ih₂
      refine ⟨Nat.le_trans hle₁ hle₂, ?_⟩
      rcases hc₂ with hc₂ | hlt | hlost
      · rcases hc₁ with hc₁ | hlt | hlost
        · exact Or.inl (hc₂.trans hc₁)
        · exact Or.inr (Or.inl (Nat.lt_of_lt_of_le hlt hle₂))
        · -- lost in the first part, so what there is at the end is new
          refine Or.inr (Or.inr fun s hs => ?_)
          rcases h₂.sock_source.2 s hs with hs | hf
          · exact hlost s hs
          · exact h₁.sock_source.1 s hf
      · exact Or.inr (Or.inl (Nat.lt_of_le_of_lt hle₁ hlt))
      · exact Or.inr (Or.inr fun s hs => h₁.sock_source.1 s (hlost s hs))
  | exchanged mem isReq buf caps hce =>
      have hlen : ∀ (log : List CeEntry) (e : CeEntry), log.length < (log ++ [e]).length := by
        intro log e
        rw [List.length_append, List.length_singleton]
        exact Nat.lt_succ_self _
      exact ⟨Nat.le_of_lt (hlen _ _), Or.inr (Or.inl (hlen _ _))⟩
  | reset => exact ⟨Nat.le_refl _, Or.inr (Or.inr fun s hs => absurd hs (by simp))⟩
  | _ => exact ⟨Nat.le_refl _, Or.inl rfl⟩

/-- Where bytes can come from, and that there are none where they cannot. -/
structure Listens (w : World) : Prop where
  rdSet : ∀ s ∈ w.rdSet, ¬ w.ledger.Fresh s
  unconn : w.state = .unconn → w.rb = .empty ∧ ∀ s, w.sock = some s → s ∉ w.rdSet

namespace World

variable {cfg : Cfg} {w w' : World} {a : Act}

theorem listens_step (hi : Listens w) (hsh : Core.Shaken w.core) (hk : Sockets w.ledger)
    (h : step cfg w a = some w') : Listens w' := by
  obtain ⟨op, hcore, -⟩ := step_core h
  obtain ⟨rb, queue, hmv⟩ := step_ledger h
  have huses : w.ledger.Uses w'.ledger := hmv.sock_source.1
  have hrd := step_rdSet h hk
  refine ⟨fun s hs => ?_, fun hu => ⟨?_, fun s hs hmem => ?_⟩⟩
  · rcases hrd s hs with hs | hs
    · exact fun hf => hi.rdSet s hs (huses s hf)
    · exact hs.1
  · have hlost : w.state ≠ .unconn → w.sock ≠ none ∧ w'.sock = none := by
      intro hne
      obtain ⟨s, hs⟩ := hsh.sock hne
      have hs : w.sock = some s := hs
      rcases hcore.speech.unconn hu with hnone | ⟨hs₀, -⟩
      · exact ⟨by simp [hs], hnone⟩
      · exact absurd hs₀ hne
    by_cases hr : a.Reads
    · -- nothing is read from a peer that is not connected
      cases a with
      | read env evs avail =>
          obtain ⟨s, out, hs, -, hm⟩ := @read_moves cfg (fun _ => True) w w' env evs avail h
          have hne : w.state ≠ .unconn := by
            intro hu₀
            refine (hi.unconn hu₀).2 s hs ?_
            simp only [step, hs] at h
            split at h
            · assumption
            · exact absurd h (by simp)
          obtain ⟨hsome, hnone⟩ := hlost hne
          rcases hm with hm | ⟨buf, -, -, hl⟩
          · rcases hm.rb.2.1 hnone with hn | he
            · exact absurd hn hsome
            · exact he
          · have hsock : w'.sock = w.sock := congrArg Ledger.sock hl
            exact absurd (hsock.symm.trans hnone) hsome
      | _ => exact absurd hr (by simp [Act.Reads])
    · have hm := step_moves (sends_any a) hr h
      by_cases hu₀ : w.state = .unconn
      · rcases hm.rb.1 with he | he
        · exact he.trans (hi.unconn hu₀).1
        · exact he
      · obtain ⟨hsome, hnone⟩ := hlost hu₀
        rcases hm.rb.2.1 hnone with hn | he
        · exact absurd hn hsome
        · exact he
  -- in the set and the socket of the peer: from before, or added by a peer that then waits
  · rcases hrd s hmem with hold | hnew
    · rcases step_sock_source h hs with hs₀ | hf
      · rcases hcore.speech.unconn hu with hnone | ⟨hu₀, -⟩
        · exact absurd (hs.symm.trans hnone) (by simp)
        · exact (hi.unconn hu₀).2 s hs₀ hold
      · exact hi.rdSet s hold hf
    · exact hnew.2 hs hu

/-- After the exchange what is stored stays, as long as the peer has the connection. -/
theorem step_caps {s : Nat} (hk : Sockets w.ledger) (h : step cfg w a = some w') (hs : w.sock = some s)
    (hs' : w'.sock = some s) (hst : w.state ≠ .waitCer ∧ w.state ≠ .waitCea) : w'.caps = w.caps := by
  obtain ⟨rb, queue, hmv⟩ := step_ledger h
  obtain ⟨op, hcore, -⟩ := step_core h
  have hlog : w'.ceLog = w.ceLog := by
    rcases hcore.ceLog with hlog | hnone | hwait | hwait
    · exact hlog
    · exact absurd (hs'.symm.trans hnone) (by simp)
    · exact absurd hwait hst.1
    · exact absurd hwait hst.2
  rcases hmv.caps.2 with hcaps | hlt | hlost
  · exact hcaps
  · have hlt : w.ceLog.length < w'.ceLog.length := hlt
    rw [hlog] at hlt
    exact absurd hlt (Nat.lt_irrefl _)
  · exact absurd (hlost s hs') (hk.sock s hs)

/-- **A connection starts with an empty read buffer.** -/
theorem listens_reachable (h : Reachable cfg w) : Listens w := by
  refine Reach.invariant_of (J := fun w => Core.Shaken w.core ∧ Sockets w.ledger) (I := Listens)
    ?_ ?_ ?_ h
  · intro w hr
    exact ⟨shaken_reachable hr, sockets_reachable hr⟩
  · rintro w ⟨nextLabel, ete, jiffies, rfl⟩
    exact ⟨fun s hs => absurd hs (by simp [start]), fun _ => ⟨rfl, fun s _ => by simp [start]⟩⟩
  · intro w a w' hJ hi _ hst
    exact listens_step hi hJ.1 hJ.2 hst

end World

end Disc.Transport
