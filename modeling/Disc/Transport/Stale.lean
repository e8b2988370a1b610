import Disc.Transport.Handshake

/-!
# Commands that come too late

A close and the timeout of a CER say which peer they are for, but not which of its
connections. By the time they are executed the peer may be on a later one, and
`TCP_CONN_CLOSE` and `PEER_CER_TIMEOUT` then hit that. It takes a connection that is
opened while such a command is on its way: the pipe is first in, first out, so the
accepted connection must have been queued before the command was, and the old
connection must break before it is taken up.

The timer process takes expired links out of its list first and writes their commands
afterwards, without a lock, so the timeout of a CER can also be late because the link
was in its hand for a while. The steps of `World` do both at once; here they are two.

As long as no connection is opened over such a command or such a link, all of them are
either for the present connection or find a peer that has none.
-/

namespace Disc.Transport

open Disc.Lib Disc.Msg

/-- The connection a close or the timeout of a CER was issued for. -/
def Cmd.issuedFor : Cmd → Option (Option Nat)
  | .close o => some o.sock
  | .cerTimeout k => some k
  | _ => none

namespace Core

/-- No connection, and none pending. -/
def Idle (c : Core) : Prop := c.state = .unconn ∧ ¬ c.InProg ∧ c.sock = none

/--
Commands and the timer are for the present connection, or there is none; `hand` is the
connection a CER did not come on in time, while the timer process has not reported it.
-/
structure Fresh (hand : Option (Option Nat)) (c : Core) : Prop where
  pipe : ∀ cmd ∈ c.pipe, ∀ k, cmd.issuedFor = some k → k = c.sock ∨ c.Idle
  link : ∀ k, c.tl = some (.waitCer, k) → k = c.sock ∧ c.state = .waitCer
  late : ∀ k, hand = some k → k = c.sock ∨ c.Idle

/-- Nothing is pending after a reset. -/
theorem idle_reset (c : Core) : c.reset.Idle := by
  refine ⟨rfl, ?_, rfl⟩
  show ¬ (c.flags &&& peerToDestroy) &&& peerConnInProg ≠ 0
  rw [UInt8.and_assoc, show peerToDestroy &&& peerConnInProg = 0 from rfl, UInt8.and_zero]
  simp

section Fresh

variable {hand : Option (Option Nat)}

theorem fresh_reset (c : Core) : Fresh hand c.reset := by
  refine ⟨fun _ _ _ _ => Or.inr (idle_reset c), ?_, fun _ _ => Or.inr (idle_reset c)⟩
  intro k hk
  simp only [reset] at hk
  split at hk <;> simp at hk

/-- The connection stays, and every new command is for it. -/
theorem Fresh.keep {c c' : Core} (h : Fresh hand c) (hk : c'.sock = c.sock) (hi : c.Idle → c'.Idle)
    (hp : ∀ cmd ∈ c'.pipe, ∀ k, cmd.issuedFor = some k → cmd ∈ c.pipe ∨ k = c.sock)
    (ht : ∀ k, c'.tl = some (.waitCer, k) → c.tl = some (.waitCer, k) ∧ c'.state = c.state) :
    Fresh hand c' := by
  refine ⟨?_, ?_, ?_⟩
  · intro cmd hcmd k hfor
    rw [hk]
    rcases hp cmd hcmd k hfor with hold | hnew
    · rcases h.pipe cmd hold k hfor with heq | hidle
      · exact Or.inl heq
      · exact Or.inr (hi hidle)
    · exact Or.inl hnew
  · intro k hk'
    obtain ⟨hold, hst⟩ := ht k hk'
    obtain ⟨h₁, h₂⟩ := h.link k hold
    exact ⟨h₁.trans hk.symm, hst.trans h₂⟩
  · intro k hlate
    rw [hk]
    rcases h.late k hlate with heq | hidle
    · exact Or.inl heq
    · exact Or.inr (hi hidle)

/-- Only fields that do not matter here change. -/
theorem Fresh.same {c c' : Core} (h : Fresh hand c) (hs : c'.state = c.state) (hf : c'.flags = c.flags)
    (hk : c'.sock = c.sock) (hp : c'.pipe = c.pipe) (ht : c'.tl = c.tl) : Fresh hand c' := by
  refine h.keep hk ?_ ?_ ?_
  · rintro ⟨h₁, h₂, h₃⟩
    exact ⟨hs.trans h₁, by rw [InProg, hf]; exact h₂, hk.trans h₃⟩
  · intro cmd hcmd k _
    exact Or.inl (hp ▸ hcmd)
  · intro k hk'
    exact ⟨ht ▸ hk', hs⟩

/-- One more command, which is for no connection in particular or for the present one. -/
theorem Fresh.command {c : Core} (h : Fresh hand c) {cmd : Cmd}
    (hcmd : ∀ k, cmd.issuedFor = some k → k = c.sock) :
    Fresh hand { c with pipe := c.pipe ++ [cmd] } := by
  refine h.keep rfl (fun hi => hi) ?_ (fun k hk => ⟨hk, rfl⟩)
  intro x hx k hfor
  rcases List.mem_append.mp hx with hx | hx
  · exact Or.inl hx
  · obtain rfl := List.mem_singleton.mp hx
    exact Or.inr (hcmd k hfor)

/-- A write on a connection, and the state set after it. -/
theorem Fresh.wrote {c c' : Core} {k : WriteKind} {st : PeerState} (h : Fresh hand c) (hw : Wrote k c c')
    (hs : c.sock ≠ none) (hl : ∀ k, c.tl ≠ some (.waitCer, k)) :
    Fresh hand { c' with state := st } := by
  obtain ⟨hk, ht, -, hp⟩ := hw.frame
  refine h.keep hk (fun hi => absurd hi.2.2 hs) ?_ ?_
  · intro cmd hcmd k hfor
    rcases hp cmd hcmd with hold | rfl
    · exact Or.inl hold
    · exact Or.inr (Option.some.inj hfor).symm
  · intro k hk'
    exact absurd (ht ▸ hk') (hl k)

theorem Fresh.requested {c c' : Core} {code : Nat} {st : PeerState} (h : Fresh hand c)
    (hw : Requested c code c') (hs : c.sock ≠ none) (hl : ∀ k, c.tl ≠ some (.waitCer, k)) :
    Fresh hand { c' with state := st } := by
  obtain ⟨hc, lab, hw⟩ := hw
  have hstart : Fresh hand (c.start hc lab (c.internalTrans code)) := h.same rfl rfl rfl rfl rfl
  exact hstart.wrote hw hs hl

/-- Only a peer that waits for a CER is in the list for it. -/
theorem Fresh.no_link {c : Core} (h : Fresh hand c) (hs : c.state ≠ .waitCer) (k : Option Nat) :
    c.tl ≠ some (.waitCer, k) := fun hk => hs (h.link k hk).2

/-- A connection that is opened over no command. -/
theorem Fresh.opened {c : Core} (h : Fresh hand c) (hs : c.state = .unconn)
    (hnone : (∀ cmd ∈ c.pipe, cmd.issuedFor = none) ∧ hand = none) (s : Nat) (f : UInt8) :
    Fresh hand { c with flags := f, sock := some s } := by
  refine ⟨?_, ?_, fun k hk => absurd (hnone.2.symm.trans hk) (by simp)⟩
  · intro cmd hcmd k hfor
    rw [hnone.1 cmd hcmd] at hfor
    exact absurd hfor (by simp)
  · intro k hk
    exact absurd hk (h.no_link (by rw [hs]; decide) k)

theorem Fresh.exec {op : Op} {cmd : Cmd} {c c' : Core} (h : Fresh hand c)
    (hop : op = .opens → (∀ cmd ∈ c.pipe, cmd.issuedFor = none) ∧ hand = none) (he : Exec op cmd c c')
    (hsock : c.state ≠ .unconn → c.sock ≠ none) : Fresh hand c' := by
  cases he with
  | skipOpen => exact h
  | connectFailed => exact fresh_reset c
  | connectInProg hcmd hs => exact h.opened hs (hop rfl) _ _
  | connected hcmd hs hw =>
      refine (h.opened hs (hop rfl) _ _).requested hw (by simp) ?_
      exact h.no_link (by rw [hs]; decide)
  | connectedFailed => exact fresh_reset _
  | @accepted _ s hs =>
      have hl : ∀ k, c.tl ≠ some (.waitCer, k) := h.no_link (by rw [hs]; decide)
      split
      -- an unconnected peer has no link in the list of the CER timeouts
      · rename_i k hk
        exact absurd hk (hl k)
      · refine ⟨?_, ?_, fun k hk => absurd ((hop rfl).2.symm.trans hk) (by simp)⟩
        · intro cmd hcmd k hfor
          rw [(hop rfl).1 cmd hcmd] at hfor
          exact absurd hfor (by simp)
        · intro k hk
          simp only [Option.some.injEq, Prod.mk.injEq, true_and] at hk
          exact ⟨hk.symm, rfl⟩
  | inactivSkip => exact h
  | inactivSent hs hw =>
      exact h.requested hw (hsock (by rw [hs]; decide)) (h.no_link (by rw [hs]; decide))
  | closeSkip => exact h
  | close => exact fresh_reset c
  | reconnSkip => exact h
  | reconn => exact h.command (by simp [Cmd.issuedFor])
  | cerSkip => exact h
  | cer => exact fresh_reset c
  | trSkip => exact h
  | tr => exact fresh_reset c

theorem Fresh.handled {buf : List UInt8} {c c' : Core} (h : Fresh hand c) (hh : Handled buf c c')
    (hsock : c.state ≠ .unconn → c.sock ≠ none) : Fresh hand c' := by
  have hup : c.state ≠ .unconn → c.state ≠ .waitCer →
      ∀ log st, Fresh hand { c with state := st, ceLog := log } := by
    intro hu hw log st
    refine h.keep rfl (fun hi => absurd hi.1 hu) (fun cmd hcmd _ _ => Or.inl hcmd) ?_
    intro k hk
    exact absurd hk (h.no_link hw k)
  cases hh with
  | ignored => exact h
  | cea hr hs => exact hup (by rw [hs]; decide) (by rw [hs]; decide) _ _
  | @cer c₁ c₂ caps hr hs hw =>
      -- the timer is stopped, or was not running
      have h₁ : Fresh hand { c₁ with ceLog := c₁.ceLog ++ [⟨c₁.sock, true, buf, caps⟩] } ∧ c₁.sock ≠ none
          ∧ ∀ k, c₁.tl ≠ some (.waitCer, k) := by
        rcases hs with ⟨hs, rfl⟩ | ⟨hs, rfl⟩
        · have hl : ∀ k, c.tl.filter (·.1 ≠ .waitCer) ≠ some (.waitCer, k) := by
            intro k hk
            exact absurd (Option.mem_filter_iff.mp hk).2 (by simp)
          refine ⟨?_, hsock (by rw [hs]; decide), hl⟩
          refine h.keep rfl (fun hi => hi) (fun cmd hcmd _ _ => Or.inl hcmd) ?_
          intro k hk
          exact absurd hk (hl k)
        · exact ⟨h.same rfl rfl rfl rfl rfl, hsock (by rw [hs]; decide),
            h.no_link (by rw [hs]; decide)⟩
      exact h₁.1.wrote hw h₁.2.1 h₁.2.2
  | gaveUp => exact fresh_reset _
  | dwr hr hs hw =>
      have hu : c.state ≠ .unconn := Up.ne_unconn hs
      have hl : ∀ k, c.tl ≠ some (.waitCer, k) := by
        refine h.no_link ?_
        rcases hs with hs | hs | hs <;> rw [hs] <;> decide
      have hc' : Fresh hand { c' with state := c'.state } := h.wrote hw (hsock hu) hl
      exact hc'
  | dwa hr hs => exact hup (by rw [hs]; decide) (by rw [hs]; decide) _ _

theorem Fresh.step {op : Op} {c c' : Core} (h : Fresh hand c)
    (hop : op = .opens → (∀ cmd ∈ c.pipe, cmd.issuedFor = none) ∧ hand = none) (hst : Step op c c')
    (hsock : c.state ≠ .unconn → c.sock ≠ none) : Fresh hand c' := by
  have hsent : ∀ {d d' : Core} {k : WriteKind}, Fresh hand d → d.state = .conn ∨ d.state = .waitDwa →
      d.sock ≠ none → Wrote k d d' → Fresh hand d' := by
    intro d d' k hd hs hne hw
    have hl : ∀ k, d.tl ≠ some (.waitCer, k) := by
      refine hd.no_link ?_
      rcases hs with hs | hs <;> rw [hs] <;> decide
    have hd' : Fresh hand { d' with state := d'.state } := hd.wrote hw hne hl
    exact hd'
  cases hst with
  | idle => exact h
  | @exec _ _ _ _ rest hp he =>
      have hrest : ∀ cmd ∈ rest, cmd ∈ c.pipe := by
        intro cmd hcmd
        rw [hp]
        exact List.mem_cons_of_mem _ hcmd
      have hpop : Fresh hand { c with pipe := rest } :=
        h.keep rfl (fun hi => hi) (fun cmd hcmd _ _ => Or.inl (hrest cmd hcmd))
          (fun k hk => ⟨hk, rfl⟩)
      exact hpop.exec (fun ho => ⟨fun cmd hcmd => (hop ho).1 cmd (hrest cmd hcmd), (hop ho).2⟩) he hsock
  | request hr hh => exact h.handled hh hsock
  | answer hr hc hfind hh =>
      refine Fresh.handled ?_ hh hsock
      exact h.same rfl rfl rfl rfl rfl
  | enqueue => exact h.same rfl rfl rfl rfl rfl
  | broke => exact fresh_reset c
  | pendingFailed => exact fresh_reset c
  | @pendingDone _ _ s hs hk hw =>
      -- the pending connection is the one the peer has had all along
      have hl : ∀ k, c.tl ≠ some (.waitCer, k) := h.no_link (by rw [hs]; decide)
      have hpend : Fresh hand { c with flags := 0, sock := some s } := by
        refine h.keep hk.symm ?_ (fun cmd hcmd _ _ => Or.inl hcmd) (fun k hk' => absurd hk' (hl k))
        intro hi
        rw [hi.2.2] at hk
        exact absurd hk (by simp)
      exact hpend.requested hw (by simp) hl
  | pendingRefused => exact fresh_reset _
  | hangup hs hw =>
      exact h.requested hw (hsock (by rw [hs]; decide)) (h.no_link (by rw [hs]; decide))
  | hangupFailed => exact fresh_reset c
  | @sendReq _ _ hc lab tr hs ht hid hw =>
      have hstart : Fresh hand (c.start hc lab tr) := h.same rfl rfl rfl rfl rfl
      refine hsent hstart hs (hsock ?_) hw
      rcases hs with hs | hs <;> rw [hs] <;> decide
  | sendRes hs hw =>
      refine hsent h hs (hsock ?_) hw
      rcases hs with hs | hs <;> rw [hs] <;> decide
  | workSkip => exact h.same rfl rfl rfl rfl rfl
  | work => exact h.same rfl rfl rfl rfl rfl
  | accept => exact h.command (by simp [Cmd.issuedFor])
  | reconnExpired ht =>
      have hnone : Fresh hand { c with tl := none } :=
        h.keep rfl (fun hi => hi) (fun cmd hcmd _ _ => Or.inl hcmd) (fun k hk => absurd hk (by simp))
      split
      · exact hnone.command (by simp [Cmd.issuedFor])
      · exact hnone
  | @cerExpired _ k ht =>
      have hnone : Fresh hand { c with tl := none } :=
        h.keep rfl (fun hi => hi) (fun cmd hcmd _ _ => Or.inl hcmd) (fun k hk => absurd hk (by simp))
      refine hnone.command ?_
      intro k' hk'
      rw [← Option.some.inj hk']
      exact (h.link k ht).1
  | inactiv => exact h.command (by simp [Cmd.issuedFor])
  | @transExpired _ l hfind =>
      dsimp only
      have hdrop : Fresh hand (c.drop (fun x => x.payload.id == l.payload.id) l.payload.id) :=
        h.same rfl rfl rfl rfl rfl
      split
      · exact hdrop.command (by simp [Cmd.issuedFor])
      · exact hdrop
  | orphanExpired => exact h.same rfl rfl rfl rfl rfl

/-- The timer takes an expired link out of its list. -/
theorem Fresh.detached {c : Core} (h : Fresh none c) {l : TimerList} {k : Option Nat}
    (ht : c.tl = some (l, k)) :
    Fresh (if l = .waitCer then some k else none) { c with tl := none } := by
  refine ⟨h.pipe, fun k hk => absurd hk (by simp), ?_⟩
  intro k' hk'
  cases l with
  | reconn => exact absurd hk' (by simp)
  | waitCer =>
      obtain rfl := Option.some.inj hk'
      exact Or.inl (h.link k ht).1

end Fresh

end Core

/-! ## The timer process -/

namespace World

/-- `get_expired_from_timer_list`: the link of the peer is taken out of its list. -/
def detachLink (w : World) : Option (World × TimerList × Option Nat) :=
  match w.tl with
  | none => none
  | some t => if t.timeout ≤ w.jiffies then some ({ w with tl := none }, t.list, t.sock) else none

/-- `peer_timer_handler` and a link it has in hand. -/
def reportLink (w : World) (l : TimerList) (k : Option Nat) : World :=
  match l with
  | .reconn => if w.flags = 0 then w.command .reconnTimeout else w
  | .waitCer => w.command (.cerTimeout k)

/-- Done at once, the two are the step of `World`. -/
theorem expireLink_eq (w : World) :
    w.expireLink = w.detachLink.map fun r => r.1.reportLink r.2.1 r.2.2 := by
  unfold expireLink detachLink
  cases w.tl with
  | none => rfl
  | some t =>
      dsimp only
      split
      · unfold reportLink
        cases t.list <;> rfl
      · rfl

end World

/-- A peer, and the link of it that the timer process has in hand. -/
structure Timed where
  world : World
  hand : Option (TimerList × Option Nat)

/-- What can happen next. -/
inductive TimedAct where
  /-- Also that a link is taken out and reported at once. -/
  | act (a : Act)
  /-- The expired links are taken out of their list, that of this peer among them. -/
  | detach
  /-- The walk gets to the link in its list, over a link of the chain that was linked again. -/
  | stray
  /-- The walk is at the link, and the command is written. -/
  | report

namespace Timed

/-- One step of the system. -/
def step (cfg : Cfg) (t : Timed) : TimedAct → Option Timed
  | .act a => (World.step cfg t.world a).map fun w => { t with world := w }
  | .detach =>
      match t.hand with
      | none => t.world.detachLink.map fun r => ⟨r.1, some r.2⟩
      | some _ => none
  | .stray =>
      match t.hand, t.world.tl with
      | none, some l => some { t with hand := some (l.list, l.sock) }
      | _, _ => none
  | .report => t.hand.map fun l => ⟨t.world.reportLink l.1 l.2, none⟩

/-- The connection whose CER is late, if the timer process has that in hand. -/
def late (t : Timed) : Option (Option Nat) :=
  match t.hand with
  | some (.waitCer, k) => some k
  | _ => none

/-- The initial states. -/
def Init (t : Timed) : Prop := World.Init t.world ∧ t.hand = none

/--
No connection is opened while a close or the timeout of a CER is on its way, or the timer
process has such a timeout in hand.
-/
def opensClear (t : Timed) : TimedAct → Bool
  | .act a => !t.world.opens a
      || (t.world.pipe.all (fun cmd => cmd.issuedFor.isNone) && t.late.isNone)
  | _ => true

/-- The runs in which that is so. -/
def ClearRun (cfg : Cfg) : Timed → Prop := Reach Init (step cfg) fun t a => t.opensClear a = true

/-- A run whose steps are checked on the way. -/
theorem of_trace {β : Type} {cfg : Cfg} {ok : Timed → TimedAct → Bool} {as : List TimedAct}
    {f : Timed → β} {b : β}
    (h : (trace (step cfg) ok as ⟨World.start (fun _ => 0) 0 0, none⟩).map f = some b) :
    ∃ t, Reach Init (step cfg) (fun t a => ok t a = true) t ∧ f t = b := by
  obtain ⟨t, ht, hf⟩ := Option.map_eq_some_iff.mp h
  exact ⟨t, Reach.trace (.init ⟨⟨_, _, _, rfl⟩, rfl⟩) ht, hf⟩

end Timed

end Disc.Transport
