import Disc.Transport.Handshake

/-!
# No peer is forgotten

A peer that is waiting for something always has somebody who will come back to it:
a link in a timer list, a pending connect, or a command on its way through the
pipe. The link is shared by two timer lists, so it must also never be put into one
while it is in the other; the one place where that could happen is an accepted
connection, and there the link can only be in the reconnect list.
-/

namespace Disc.Transport

open Disc.Lib Disc.Msg

namespace Core

/-- A command that makes an unconnected peer connect is on its way. -/
def Retry (pipe : List Cmd) : Prop := .addPeer ∈ pipe ∨ .connect ∈ pipe ∨ .reconnTimeout ∈ pipe

/-- Who comes back to a peer. -/
structure Tended (c : Core) : Prop where
  flags : c.flags = 0 ∨ c.flags = peerConnInProg
  unconn : c.state = .unconn → (∃ k, c.tl = some (.reconn, k)) ∨ c.InProg ∨ Retry c.pipe
  waitCer : c.state = .waitCer → (∃ k, c.tl = some (.waitCer, k)) ∨ ∃ k, .cerTimeout k ∈ c.pipe
  error : c.state = .error → ∃ o, .close o ∈ c.pipe
  /-- Only a peer that waits for a CER is in the list for it. -/
  link : ∀ k, c.tl = some (.waitCer, k) → c.state = .waitCer
  bug : c.bugTimer = false

theorem Retry.append {p q : List Cmd} (h : Retry p) : Retry (p ++ q) := by
  rcases h with h | h | h
  · exact Or.inl (List.mem_append_left _ h)
  · exact Or.inr (Or.inl (List.mem_append_left _ h))
  · exact Or.inr (Or.inr (List.mem_append_left _ h))

/-- More commands do no harm, and the rest of the abstract peer is not looked at. -/
theorem Tended.more {c c' : Core} (h : Tended c) (hf : c'.flags = c.flags) (hs : c'.state = c.state)
    (ht : c'.tl = c.tl) (hp : ∃ q, c'.pipe = c.pipe ++ q) (hb : c'.bugTimer = c.bugTimer) :
    Tended c' := by
  obtain ⟨q, hp⟩ := hp
  refine ⟨hf ▸ h.flags, ?_, ?_, ?_, ?_, hb ▸ h.bug⟩
  · rw [hs, ht, hp, InProg, hf]
    intro hu
    rcases h.unconn hu with h | h | h
    · exact Or.inl h
    · exact Or.inr (Or.inl h)
    · exact Or.inr (Or.inr h.append)
  · rw [hs, ht, hp]
    intro hw
    rcases h.waitCer hw with h | ⟨k, hk⟩
    · exact Or.inl h
    · exact Or.inr ⟨k, List.mem_append_left _ hk⟩
  · rw [hs, hp]
    intro he
    obtain ⟨o, ho⟩ := h.error he
    exact ⟨o, List.mem_append_left _ ho⟩
  · rw [hs, ht]
    exact h.link

theorem Tended.same {c c' : Core} (h : Tended c) (hf : c'.flags = c.flags) (hs : c'.state = c.state)
    (ht : c'.tl = c.tl) (hp : c'.pipe = c.pipe) (hb : c'.bugTimer = c.bugTimer) : Tended c' :=
  h.more hf hs ht ⟨[], by rw [hp, List.append_nil]⟩ hb

/-- Whatever a connection ends with, the peer is then in the reconnect list. -/
theorem tended_reset {c : Core} (hf : c.flags = 0 ∨ c.flags = peerConnInProg)
    (hb : c.bugTimer = false) : Tended c.reset := by
  have hf0 : c.flags &&& peerToDestroy = 0 := by
    rcases hf with hf | hf <;> rw [hf] <;> decide
  refine ⟨Or.inl hf0, fun _ => Or.inl ⟨none, if_pos hf0⟩, ?_, ?_, ?_, hb⟩
  · intro hs
    exact absurd hs (by simp [reset])
  · intro hs
    exact absurd hs (by simp [reset])
  · intro k hk
    have : c.reset.tl = some (.reconn, none) := if_pos hf0
    rw [this] at hk
    exact absurd hk (by simp)

/-- A peer in a state that nobody has to come back to; its link is not in the list for CERs. -/
theorem tended_settled {c : Core} (hf : c.flags = 0 ∨ c.flags = peerConnInProg)
    (hb : c.bugTimer = false) (hl : ∀ k, c.tl ≠ some (.waitCer, k))
    (hu : c.state ≠ .unconn) (hw : c.state ≠ .waitCer) (he : c.state ≠ .error) : Tended c :=
  ⟨hf, fun h => absurd h hu, fun h => absurd h hw, fun h => absurd h he,
    fun k hk => absurd hk (hl k), hb⟩

/-- A peer elsewhere is not in the list for CERs. -/
theorem Tended.no_link {c : Core} (h : Tended c) (hs : c.state ≠ .waitCer) (k : Option Nat) :
    c.tl ≠ some (.waitCer, k) := fun hk => hs (h.link k hk)

/-- The first command may go when it is not the one the peer depends on. -/
theorem Tended.pop {c : Core} {cmd : Cmd} {rest : List Cmd} (h : Tended c) (hp : c.pipe = cmd :: rest)
    (hu : c.state = .unconn → cmd ≠ .addPeer ∧ cmd ≠ .connect ∧ cmd ≠ .reconnTimeout)
    (hw : c.state = .waitCer → ∀ k, cmd ≠ .cerTimeout k)
    (he : c.state = .error → ∀ o, cmd ≠ .close o) : Tended { c with pipe := rest } := by
  have hmem : ∀ x, x ∈ c.pipe → cmd ≠ x → x ∈ rest := by
    intro x hx hne
    rw [hp] at hx
    rcases List.mem_cons.mp hx with rfl | hx
    · exact absurd rfl hne
    · exact hx
  refine ⟨h.flags, ?_, ?_, ?_, h.link, h.bug⟩
  · intro hs
    obtain ⟨h₁, h₂, h₃⟩ := hu hs
    rcases h.unconn hs with ht | hi | hr | hr | hr
    · exact Or.inl ht
    · exact Or.inr (Or.inl hi)
    · exact Or.inr (Or.inr (Or.inl (hmem _ hr h₁)))
    · exact Or.inr (Or.inr (Or.inr (Or.inl (hmem _ hr h₂))))
    · exact Or.inr (Or.inr (Or.inr (Or.inr (hmem _ hr h₃))))
  · intro hs
    rcases h.waitCer hs with ht | ⟨k, hk⟩
    · exact Or.inl ht
    · exact Or.inr ⟨k, hmem _ hk (hw hs k)⟩
  · intro hs
    obtain ⟨o, ho⟩ := h.error hs
    exact ⟨o, hmem _ ho (he hs o)⟩

/-- A write that fails leaves its close behind. -/
theorem Tended.wrote {c c' : Core} {k : WriteKind} (h : Tended c) (hs : c.state ≠ .waitCer)
    (hw : Wrote k c c') : Tended c' := by
  cases hw with
  | whole bs => exact h.same rfl rfl rfl rfl rfl
  | broken rs hrs =>
      refine ⟨h.flags, ?_, ?_, ?_, ?_, h.bug⟩
      · intro hu
        exact absurd hu (by simp)
      · intro hu
        exact absurd hu (by simp)
      · intro _
        exact ⟨_, List.mem_append_right _ (List.mem_singleton.mpr rfl)⟩
      · intro k hk
        exact absurd hk (h.no_link hs k)

/-- What a write and the state set after it leave is settled, if the state is. -/
theorem tended_wrote_settled {c c' : Core} {k : WriteKind} {st : PeerState} (hw : Wrote k c c')
    (hf : c.flags = 0 ∨ c.flags = peerConnInProg) (hb : c.bugTimer = false)
    (hl : ∀ k, c.tl ≠ some (.waitCer, k)) (hst : st ≠ .unconn ∧ st ≠ .waitCer ∧ st ≠ .error) : Tended { c' with state := st } := by
  cases hw with
  | whole bs => exact tended_settled hf hb hl hst.1 hst.2.1 hst.2.2
  | broken rs hrs => exact tended_settled hf hb hl hst.1 hst.2.1 hst.2.2

theorem tended_requested {c c' : Core} {code : Nat} {st : PeerState} (hw : Requested c code c')
    (hf : c.flags = 0 ∨ c.flags = peerConnInProg) (hb : c.bugTimer = false)
    (hl : ∀ k, c.tl ≠ some (.waitCer, k)) (hst : st ≠ .unconn ∧ st ≠ .waitCer ∧ st ≠ .error) : Tended { c' with state := st } := by
  obtain ⟨h, lab, hw⟩ := hw
  exact tended_wrote_settled hw hf hb hl hst

theorem Tended.exec {op : Op} {cmd : Cmd} {c c' : Core} {rest : List Cmd} (h : Tended c)
    (hp : c.pipe = cmd :: rest) (he : Exec op cmd { c with pipe := rest } c') : Tended c' := by
  cases he with
  | skipOpen hcmd hs =>
      refine h.pop hp ?_ ?_ ?_
      · intro hu
        rcases hcmd with rfl | rfl | ⟨s, rfl⟩
        · exact absurd hu (hs (Or.inl rfl))
        · exact absurd hu (hs (Or.inr rfl))
        · exact ⟨by simp, by simp, by simp⟩
      · rintro - k rfl
        exact absurd hcmd (by simp)
      · rintro - o rfl
        exact absurd hcmd (by simp)
  | connectFailed => exact tended_reset h.flags h.bug
  | connectInProg hcmd hs =>
      have hs : c.state = .unconn := hs
      -- the other flag of a peer is never set
      have hflags : c.flags ||| peerConnInProg = peerConnInProg := by
        rcases h.flags with hf | hf <;> rw [hf] <;> decide
      refine ⟨Or.inr hflags, ?_, ?_, ?_, h.link, h.bug⟩
      · intro _
        refine Or.inr (Or.inl ?_)
        show (c.flags ||| peerConnInProg) &&& peerConnInProg ≠ 0
        rw [hflags]
        decide
      · intro hw
        exact absurd (hs.symm.trans hw) (by decide)
      · intro hw
        exact absurd (hs.symm.trans hw) (by decide)
  | connected hcmd hs hw =>
      have hs : c.state = .unconn := hs
      exact tended_requested hw (Or.inl rfl) h.bug (h.no_link (by rw [hs]; decide)) (by decide)
  | connectedFailed => exact tended_reset (Or.inl rfl) h.bug
  | accepted hs =>
      have hs : c.state = .unconn := hs
      have hl : ∀ k, c.tl ≠ some (.waitCer, k) := h.no_link (by rw [hs]; decide)
      split
      -- the link is in no list, so the check of `add_to_timer_list` passes
      · rename_i k hk
        exact absurd hk (hl k)
      · refine ⟨h.flags, ?_, ?_, ?_, ?_, h.bug⟩
        · intro hu
          exact absurd hu (by simp)
        · intro _
          exact Or.inl ⟨_, rfl⟩
        · intro he
          exact absurd he (by simp)
        · intro k _
          rfl
  | inactivSkip => exact h.pop hp (by simp) (by simp) (by simp)
  | inactivSent hs hw =>
      have hs : c.state = .conn := hs
      exact tended_requested hw h.flags h.bug (h.no_link (by rw [hs]; decide)) (by decide)
  | closeSkip hs hi =>
      have hs : c.state = .unconn := hs
      exact h.pop hp (by simp) (by simp) (by simp [hs])
  | close => exact tended_reset h.flags h.bug
  | reconnSkip hs => exact h.pop hp (fun hu => absurd hu hs) (by simp) (by simp)
  -- the timeout is gone from the pipe, and the connect is behind it
  | reconn hs =>
      have hs : c.state = .unconn := hs
      refine ⟨h.flags, ?_, ?_, ?_, h.link, h.bug⟩
      · intro _
        refine Or.inr (Or.inr (Or.inr (Or.inl ?_)))
        exact List.mem_append_right _ (List.mem_singleton.mpr rfl)
      · intro hw
        exact absurd (hs.symm.trans hw) (by decide)
      · intro hw
        exact absurd (hs.symm.trans hw) (by decide)
  | cerSkip hs => exact h.pop hp (by simp) (fun hw => absurd hw hs) (by simp)
  | cer => exact tended_reset h.flags h.bug
  | trSkip => exact h.pop hp (by simp) (by simp) (by simp)
  | tr => exact tended_reset h.flags h.bug

theorem Tended.handled {buf : List UInt8} {c c' : Core} (h : Tended c) (hh : Handled buf c c') :
    Tended c' := by
  cases hh with
  | ignored => exact h
  | cea hr hs =>
      exact tended_settled h.flags h.bug (h.no_link (by rw [hs]; decide)) (by simp) (by simp)
        (by simp)
  | @cer c₁ c₂ caps hr hs hw =>
      have hfb : (c₁.flags = 0 ∨ c₁.flags = peerConnInProg) ∧ c₁.bugTimer = false
          ∧ ∀ k, c₁.tl ≠ some (.waitCer, k) := by
        rcases hs with ⟨hs, rfl⟩ | ⟨hs, rfl⟩
        · refine ⟨h.flags, h.bug, ?_⟩
          intro k hk
          exact absurd (Option.mem_filter_iff.mp hk).2 (by simp)
        · exact ⟨h.flags, h.bug, h.no_link (by rw [hs]; decide)⟩
      exact tended_wrote_settled hw hfb.1 hfb.2.1 hfb.2.2 (by decide)
  | @gaveUp c₁ c₂ l t hs h₁ hw =>
      have hfb : (c₁.flags = 0 ∨ c₁.flags = peerConnInProg) ∧ c₁.bugTimer = false := by
        rw [h₁]
        exact ⟨h.flags, h.bug⟩
      rcases hw.wrote with rfl | ⟨_, _, hw⟩
      · exact tended_reset hfb.1 hfb.2
      · cases hw with
        | whole bs => exact tended_reset hfb.1 hfb.2
        | broken rs hrs => exact tended_reset hfb.1 hfb.2
  | dwr hr hs hw =>
      refine h.wrote ?_ hw
      rcases hs with hs | hs | hs <;> rw [hs] <;> decide
  | dwa hr hs =>
      exact tended_settled h.flags h.bug (h.no_link (by rw [hs]; decide)) (by simp) (by simp)
        (by simp)

/-- The link was taken out of the reconnect list by the timer. -/
theorem Tended.expired {c : Core} {k : Option Nat} (h : Tended c) (ht : c.tl = some (.reconn, k)) :
    Tended (if c.flags = 0 then { c with tl := none, pipe := c.pipe ++ [.reconnTimeout] }
      else { c with tl := none }) := by
  have hcer : c.state = .waitCer → ∃ k, .cerTimeout k ∈ c.pipe := by
    intro hs
    rcases h.waitCer hs with ⟨k', hk'⟩ | h
    · rw [ht] at hk'
      exact absurd hk' (by simp)
    · exact h
  split
  · refine ⟨h.flags, ?_, ?_, ?_, by simp, h.bug⟩
    · intro _
      exact Or.inr (Or.inr (Or.inr (Or.inr (List.mem_append_right _ (List.mem_singleton.mpr rfl)))))
    · intro hs
      obtain ⟨k', hk'⟩ := hcer hs
      exact Or.inr ⟨k', List.mem_append_left _ hk'⟩
    · intro hs
      obtain ⟨o, ho⟩ := h.error hs
      exact ⟨o, List.mem_append_left _ ho⟩
  · -- a flag is set, so a connect is pending
    rename_i hf
    refine ⟨h.flags, ?_, ?_, h.error, by simp, h.bug⟩
    · intro _
      refine Or.inr (Or.inl ?_)
      rcases h.flags with hf0 | hf2
      · exact absurd hf0 hf
      · show c.flags &&& peerConnInProg ≠ 0
        rw [hf2]
        decide
    · intro hs
      exact Or.inr (hcer hs)

theorem Tended.step {op : Op} {c c' : Core} (h : Tended c) (hst : Step op c c') : Tended c' := by
  cases hst with
  | idle => exact h
  | exec hp he => exact h.exec hp he
  | request hr hh => exact h.handled hh
  | answer hr hc hfind hh =>
      refine Tended.handled ?_ hh
      exact h.same rfl rfl rfl rfl rfl
  | enqueue => exact h.same rfl rfl rfl rfl rfl
  | broke => exact tended_reset h.flags h.bug
  | pendingFailed => exact tended_reset h.flags h.bug
  | pendingDone hs hsock hw =>
      exact tended_requested hw (Or.inl rfl) h.bug (h.no_link (by rw [hs]; decide)) (by decide)
  | pendingRefused => exact tended_reset (Or.inl rfl) h.bug
  | hangup hs hw =>
      exact tended_requested hw h.flags h.bug (h.no_link (by rw [hs]; decide)) (by decide)
  | hangupFailed => exact tended_reset h.flags h.bug
  | @sendReq _ _ hc lab tr hs ht hid hw =>
      have hstart : Tended (c.start hc lab tr) := h.same rfl rfl rfl rfl rfl
      refine hstart.wrote ?_ hw
      rcases hs with hs | hs <;> rw [show (c.start hc lab tr).state = _ from hs] <;> decide
  | sendRes hs hw =>
      refine h.wrote ?_ hw
      rcases hs with hs | hs <;> rw [hs] <;> decide
  | workSkip => exact h.same rfl rfl rfl rfl rfl
  | work => exact h.same rfl rfl rfl rfl rfl
  | accept => exact h.more rfl rfl rfl ⟨_, rfl⟩ rfl
  | reconnExpired ht => exact h.expired ht
  -- the link is gone from the list, and its timeout is in the pipe
  | @cerExpired _ k ht =>
      refine ⟨h.flags, ?_, ?_, ?_, by simp, h.bug⟩
      · intro hu
        exact absurd (hu.symm.trans (h.link k ht)) (by decide)
      · intro _
        exact Or.inr ⟨k, List.mem_append_right _ (List.mem_singleton.mpr rfl)⟩
      · intro he
        exact absurd (he.symm.trans (h.link k ht)) (by decide)
  | inactiv => exact h.more rfl rfl rfl ⟨_, rfl⟩ rfl
  | transExpired =>
      dsimp only
      split
      · exact h.more rfl rfl rfl ⟨_, rfl⟩ rfl
      · exact h.same rfl rfl rfl rfl rfl
  | orphanExpired => exact h.same rfl rfl rfl rfl rfl

end Core

/-- Somebody comes back to the peer, in every reachable world. -/
theorem tended_reachable {cfg : Cfg} {w : World} (h : World.Reachable cfg w) :
    Core.Tended w.core := by
  refine Reach.invariant (I := fun w => Core.Tended w.core) ?_ ?_ h
  · intro s hs
    rw [World.core_init hs]
    refine ⟨Or.inl rfl, ?_, by simp, by simp, by simp, rfl⟩
    intro _
    exact Or.inr (Or.inr (Or.inl (List.mem_singleton.mpr rfl)))
  · intro s a s' hi _ hst
    obtain ⟨op, hstep, -⟩ := World.step_core hst
    exact hi.step hstep

/--
**No peer is stranded.**

In every reachable world, an unconnected peer that is not to be destroyed is in the
reconnect list, has a connect pending, or has a command on its way that makes it
connect; a peer that waits for a CER is in the list for that or its timeout is on
its way; a peer in error has its close on its way; and `add_to_timer_list` has never
been called for a link that was in a list.
-/
theorem reachable_not_stranded {cfg : Cfg} {w : World} (h : World.Reachable cfg w) :
    (w.state = .unconn → w.flags &&& peerToDestroy = 0 →
      (∃ t, w.tl = some t ∧ t.list = .reconn) ∨ w.flags &&& peerConnInProg ≠ 0
        ∨ .addPeer ∈ w.pipe ∨ .connect ∈ w.pipe ∨ .reconnTimeout ∈ w.pipe)
    ∧ (w.state = .waitCer →
      (∃ t, w.tl = some t ∧ t.list = .waitCer) ∨ ∃ k, .cerTimeout k ∈ w.pipe)
    ∧ (w.state = .error → ∃ o, .close o ∈ w.pipe)
    ∧ w.bugTimer = false := by
  have hi := tended_reachable h
  have hlink : ∀ {l k}, w.core.tl = some (l, k) → ∃ t, w.tl = some t ∧ t.list = l := by
    intro l k hk
    obtain ⟨t, ht, heq⟩ := Option.map_eq_some_iff.mp hk
    exact ⟨t, ht, congrArg Prod.fst heq⟩
  refine ⟨?_, ?_, hi.error, hi.bug⟩
  · intro hs _
    rcases hi.unconn hs with ⟨k, hk⟩ | hp | hr
    · exact Or.inl (hlink hk)
    · exact Or.inr (Or.inl hp)
    · exact Or.inr (Or.inr hr)
  · intro hs
    rcases hi.waitCer hs with ⟨k, hk⟩ | hk
    · exact Or.inl (hlink hk)
    · exact Or.inr hk

theorem reachable_not_stranded_accepted :
    ∃ w, World.Reachable sampleCfg w ∧ w.state = .waitCer
      ∧ ((∃ t, w.tl = some t ∧ t.list = .waitCer) ∨ ∃ k, .cerTimeout k ∈ w.pipe) := by
  obtain ⟨w, hr, hs⟩ := @World.Reachable.of_trace _ sampleCfg (sampleAccept.take 3)
    (fun w => w.state) .waitCer (by decide +kernel)
  exact ⟨w, hr, hs, (reachable_not_stranded hr).2.1 hs⟩

end Disc.Transport
