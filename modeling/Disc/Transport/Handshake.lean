import Disc.Transport.Refine

/-!
# Handshake safety

A peer is up in the states in which messages of others may go out or come in. It
gets there only through a CER or CEA that `process_ce` accepted, and every way to
lose or replace the connection leads through `PEER_UNCONN` first. So while the
peer is up, the log of accepted capabilities exchanges has an entry for the
number it goes by.
-/

namespace Disc.Transport

open Disc.Lib Disc.Msg

namespace Core

/-- The states after the handshake. -/
def Up (c : Core) : Prop := c.state = .conn ∨ c.state = .waitDwa ∨ c.state = .waitDpa

/-- `process_ce` has succeeded on this connection. -/
def Exchanged (log : List CeEntry) (sock : Option Nat) : Prop :=
  ∃ s, sock = some s ∧ ∃ e ∈ log, e.sock = some s

/-- The log only grows. -/
theorem Exchanged.mono {log more : List CeEntry} {sock : Option Nat} (h : Exchanged log sock) :
    Exchanged (log ++ more) sock := by
  obtain ⟨s, hs, e, he, hes⟩ := h
  exact ⟨s, hs, e, List.mem_append_left _ he, hes⟩

/-- What links the state of a peer to its connection. -/
structure Shaken (c : Core) : Prop where
  /-- Only an unconnected peer is without a connection. -/
  sock : c.state ≠ .unconn → ∃ s, c.sock = some s
  up : c.Up → Exchanged c.ceLog c.sock
  /-- Everything the workers sent went out after the exchange. -/
  sent : ∀ r ∈ c.writes, r.kind = .request ∨ r.kind = .response → Exchanged c.ceLog r.sock

theorem Up.ne_unconn {c : Core} (h : c.Up) : c.state ≠ .unconn := by
  rcases h with h | h | h <;> rw [h] <;> decide

/-- Only the state, the connection and the two logs matter. -/
theorem Shaken.of_eq {c c' : Core} (h : Shaken c) (hs : c'.state = c.state) (hk : c'.sock = c.sock)
    (hl : c'.ceLog = c.ceLog) (hw : c'.writes = c.writes) : Shaken c' := by
  refine ⟨?_, ?_, ?_⟩
  · rw [hs, hk]
    exact h.sock
  · rw [Up, hs, hl, hk]
    exact h.up
  · rw [hw, hl]
    exact h.sent

theorem Shaken.reset {c : Core} (h : Shaken c) : Shaken c.reset :=
  ⟨fun hs => absurd rfl hs, fun hu => absurd rfl hu.ne_unconn, h.sent⟩

/-- A peer that is not up keeps nothing but what was sent. -/
theorem Shaken.down {c c' : Core} (h : Shaken c) (hk : ∃ s, c'.sock = some s) (hu : ¬ c'.Up)
    (hl : c'.ceLog = c.ceLog) (hw : c'.writes = c.writes) : Shaken c' := by
  refine ⟨fun _ => hk, fun hu' => absurd hu' hu, ?_⟩
  rw [hw, hl]
  exact h.sent

/-- The state changes, with the connection in place and the exchange done where it matters. -/
theorem Shaken.setState {c : Core} (h : Shaken c) {st : PeerState} (hk : ∃ s, c.sock = some s)
    (hu : st = .conn ∨ st = .waitDwa ∨ st = .waitDpa → Exchanged c.ceLog c.sock) :
    Shaken { c with state := st } :=
  ⟨fun _ => hk, hu, h.sent⟩

/-- A write of this layer, or one on a connection where the exchange is done. -/
theorem Shaken.wrote {c c' : Core} {k : WriteKind} (h : Shaken c) (hk : ∃ s, c.sock = some s)
    (hu : k = .request ∨ k = .response → Exchanged c.ceLog c.sock) (hw : Wrote k c c') : Shaken c' := by
  cases hw with
  | whole bs =>
      refine ⟨fun _ => hk, h.up, ?_⟩
      intro r hr hne
      rcases List.mem_append.mp hr with hr | hr
      · exact h.sent r hr hne
      · obtain rfl := List.mem_singleton.mp hr
        exact hu hne
  | broken rs hrs =>
      refine ⟨fun _ => hk, fun hu' => ?_, ?_⟩
      · rcases hu' with hu' | hu' | hu' <;> exact absurd hu' (by simp)
      · intro r hr hne
        rcases List.mem_append.mp hr with hr | hr
        · exact h.sent r hr hne
        · obtain ⟨hrk, hkind, -⟩ := hrs r hr
          rw [hrk]
          exact hu (hkind ▸ hne)

/-- A request of this layer goes out, and the peer waits for its answer. -/
theorem Shaken.requested {c c' : Core} {code : Nat} {st : PeerState} (h : Shaken c)
    (hk : ∃ s, c.sock = some s) (hw : Requested c code c')
    (hu : st = .conn ∨ st = .waitDwa ∨ st = .waitDpa → Exchanged c.ceLog c.sock) :
    Shaken { c' with state := st } := by
  obtain ⟨hc, lab, hw⟩ := hw
  have hstart : Shaken (c.start hc lab (c.internalTrans code)) := h.of_eq rfl rfl rfl rfl
  obtain ⟨hsock, -, hlog, -⟩ := hw.frame
  refine (hstart.wrote hk (by simp) hw).setState ?_ ?_
  · rw [hsock]
    exact hk
  · rw [hsock, hlog]
    exact hu

theorem Shaken.exec {op : Op} {cmd : Cmd} {c c' : Core} (h : Shaken c) (he : Exec op cmd c c') :
    Shaken c' := by
  cases he with
  | skipOpen => exact h
  | connectFailed => exact h.reset
  | connectInProg hcmd hs => exact h.down ⟨_, rfl⟩ (fun hu => hu.ne_unconn hs) rfl rfl
  | @connected _ _ _ s hcmd hs hw =>
      have hd : Shaken { c with flags := 0, sock := some s } :=
        h.down ⟨s, rfl⟩ (fun hu => hu.ne_unconn hs) rfl rfl
      exact hd.requested ⟨s, rfl⟩ hw (by simp)
  | @connectedFailed _ _ s hcmd hs =>
      have hd : Shaken { c with flags := 0, sock := some s } :=
        h.down ⟨s, rfl⟩ (fun hu => hu.ne_unconn hs) rfl rfl
      exact hd.reset
  -- the peer had no connection, so nothing was up before
  | accepted hs =>
      split
      · exact h.down ⟨_, rfl⟩ (by simp [Up]) rfl rfl
      · exact h.down ⟨_, rfl⟩ (by simp [Up]) rfl rfl
  | inactivSkip => exact h
  | inactivSent hs hw =>
      exact h.requested (h.sock (by rw [hs]; decide)) hw fun _ => h.up (Or.inl hs)
  | closeSkip => exact h
  | close => exact h.reset
  | reconnSkip => exact h
  | reconn => exact h.of_eq rfl rfl rfl rfl
  | cerSkip => exact h
  | cer => exact h.reset
  | trSkip => exact h
  | tr => exact h.reset

theorem Shaken.drop {c : Core} (h : Shaken c) (p : HLink Trans → Bool) (id : Nat) :
    Shaken (c.drop p id) := h.of_eq rfl rfl rfl rfl

theorem Shaken.handled {buf : List UInt8} {c c' : Core} (h : Shaken c) (hh : Handled buf c c') :
    Shaken c' := by
  cases hh with
  | ignored => exact h
  | @cea caps hr hs =>
      obtain ⟨s, hk⟩ := h.sock (by rw [hs]; decide)
      refine ⟨fun _ => ⟨s, hk⟩, fun _ => ?_, fun r hr hne => (h.sent r hr hne).mono⟩
      exact ⟨s, hk, _, List.mem_append_right _ (List.mem_singleton.mpr rfl), hk⟩
  | @cer c₁ c₂ caps hr hs hw =>
      -- stopping the timer changes nothing here, so the entry of this very exchange counts
      have h₁ : Shaken c₁ ∧ ∃ s, c₁.sock = some s := by
        rcases hs with ⟨hs, rfl⟩ | ⟨hs, rfl⟩
        · exact ⟨h.of_eq rfl rfl rfl rfl, h.sock (by rw [hs]; decide)⟩
        · exact ⟨h, h.sock (by rw [hs]; decide)⟩
      obtain ⟨h₁, s, hk⟩ := h₁
      have hlogged : Shaken { c₁ with ceLog := c₁.ceLog ++ [⟨c₁.sock, true, buf, caps⟩] } :=
        ⟨h₁.sock, fun hu => (h₁.up hu).mono, fun r hr hne => (h₁.sent r hr hne).mono⟩
      obtain ⟨hsock, -, hlog, -⟩ := hw.frame
      have hk₂ : c₂.sock = some s := by rw [hsock]; exact hk
      refine (hlogged.wrote ⟨s, hk⟩ (by simp) hw).setState ⟨s, hk₂⟩ fun _ => ?_
      rw [hlog]
      exact ⟨s, hk₂, _, List.mem_append_right _ (List.mem_singleton.mpr rfl), hk⟩
  | @gaveUp c₁ c₂ l t hs h₁ hw =>
      have hs₁ : Shaken c₁ := by
        rw [h₁]
        exact ⟨h.sock, fun hu => (h.up hu).mono, fun r hr hne => (h.sent r hr hne).mono⟩
      have hk₁ : ∃ s, c₁.sock = some s := by
        rw [h₁]
        exact h.sock hs
      rcases hw.wrote with rfl | ⟨_, _, hw⟩
      · exact hs₁.reset
      · exact (hs₁.wrote hk₁ (by simp) hw).reset
  | dwr hr hs hw => exact h.wrote (h.sock (Up.ne_unconn hs)) (by simp) hw
  | dwa hr hs =>
      exact h.setState (h.sock (by rw [hs]; decide)) fun _ => h.up (Or.inr (Or.inl hs))

theorem Shaken.step {op : Op} {c c' : Core} (h : Shaken c) (hst : Step op c c') : Shaken c' := by
  cases hst with
  | idle => exact h
  | exec hp he =>
      refine Shaken.exec ?_ he
      exact h.of_eq rfl rfl rfl rfl
  | request hr hh => exact h.handled hh
  | answer hr hc hfind hh => exact (h.drop _ _).handled hh
  | enqueue => exact h.of_eq rfl rfl rfl rfl
  | broke => exact h.reset
  | pendingFailed => exact h.reset
  | @pendingDone _ _ s hs hsock hw =>
      have hd : Shaken { c with flags := 0, sock := some s } :=
        h.down ⟨s, rfl⟩ (fun hu => hu.ne_unconn hs) rfl rfl
      exact hd.requested ⟨s, rfl⟩ hw (by simp)
  | @pendingRefused _ s hs hsock =>
      have hd : Shaken { c with flags := 0, sock := some s } :=
        h.down ⟨s, rfl⟩ (fun hu => hu.ne_unconn hs) rfl rfl
      exact hd.reset
  | hangup hs hw => exact h.requested (h.sock (by rw [hs]; decide)) hw fun _ => h.up (Or.inl hs)
  | hangupFailed => exact h.reset
  -- `send_req_to_peer` looks at the state, and these states come after the exchange
  | @sendReq _ _ hc lab tr hs ht hid hw =>
      have hu : c.Up := by
        rcases hs with hs | hs
        · exact Or.inl hs
        · exact Or.inr (Or.inl hs)
      have hstart : Shaken (c.start hc lab tr) := h.of_eq rfl rfl rfl rfl
      exact hstart.wrote (h.sock hu.ne_unconn) (fun _ => h.up hu) hw
  | sendRes hs hw =>
      have hu : c.Up := by
        rcases hs with hs | hs
        · exact Or.inl hs
        · exact Or.inr (Or.inl hs)
      exact h.wrote (h.sock hu.ne_unconn) (fun _ => h.up hu) hw
  | workSkip => exact h.of_eq rfl rfl rfl rfl
  | work => exact h.of_eq rfl rfl rfl rfl
  | accept => exact h.of_eq rfl rfl rfl rfl
  | reconnExpired =>
      split
      · exact h.of_eq rfl rfl rfl rfl
      · exact h.of_eq rfl rfl rfl rfl
  | cerExpired => exact h.of_eq rfl rfl rfl rfl
  | inactiv => exact h.of_eq rfl rfl rfl rfl
  | transExpired =>
      dsimp only
      split
      · exact h.of_eq rfl rfl rfl rfl
      · exact h.drop _ _
  | orphanExpired => exact h.of_eq rfl rfl rfl rfl

end Core

/-- The peer and its connection, in every reachable world. -/
theorem shaken_reachable {cfg : Cfg} {w : World} (h : World.Reachable cfg w) :
    Core.Shaken w.core := by
  refine Reach.invariant (I := fun w => Core.Shaken w.core) ?_ ?_ h
  · intro s hs
    rw [World.core_init hs]
    exact ⟨fun hne => absurd rfl hne, fun hu => absurd rfl hu.ne_unconn, by simp⟩
  · intro s a s' hi _ hst
    obtain ⟨op, hstep, -⟩ := World.step_core hst
    exact hi.step hstep

end Disc.Transport
