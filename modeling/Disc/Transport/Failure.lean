import Disc.Transport.Beat

/-!
# Writes that fail

`safe_write` answers a write that failed or was short with `PEER_ERROR`, and in the
same breath it sends the receive thread a close of the connection. A close in the pipe
that carries the present number of resets is therefore the mark of such a write on the
present connection: it is there until the peer is reset.

A peer in error is left alone by everything but the close. Some handlers set a state of
their own after the write, and in a run in which none of these writes fails the mark
and the state agree.
-/

namespace Disc.Transport

open Disc.Lib Disc.Msg

namespace Core

/--
Resets are counted, and every close in the pipe is an old one or it is about the
connection as it was last.
-/
structure Onward (c c' : Core) : Prop where
  grows : c.resets ≤ c'.resets
  closes : ∀ o, Cmd.close o ∈ c'.pipe → Cmd.close o ∈ c.pipe
    ∨ (o.resets = c.resets ∧ (c'.resets = c.resets → c'.sock = o.sock))

/-- Only commands that are no closes are added. -/
theorem Onward.added {c c' : Core} {l : List Cmd} (hr : c'.resets = c.resets)
    (h : c'.pipe = c.pipe ++ l) (hl : ∀ o, Cmd.close o ∉ l) : Onward c c' := by
  refine ⟨Nat.le_of_eq hr.symm, fun o ho => ?_⟩
  rw [h] at ho
  rcases List.mem_append.mp ho with ho | ho
  · exact Or.inl ho
  · exact absurd ho (hl o)

theorem Onward.same {c c' : Core} (hr : c'.resets = c.resets) (h : c'.pipe = c.pipe) : Onward c c' :=
  ⟨Nat.le_of_eq hr.symm, fun _ ho => Or.inl (h ▸ ho)⟩

theorem Onward.reset {c c₁ : Core} (hr : c₁.resets = c.resets) (h : c₁.pipe = c.pipe) :
    Onward c c₁.reset :=
  ⟨Nat.le_succ_of_le (Nat.le_of_eq hr.symm), fun _ ho => Or.inl (h ▸ ho)⟩

theorem Wrote.resets {k : WriteKind} {c c' : Core} (h : Wrote k c c') : c'.resets = c.resets := by
  cases h with
  | whole bs => rfl
  | broken rs hrs => rfl

/-- A write on the connection the peer had last, whatever is done after it. -/
theorem Wrote.onward {k : WriteKind} {c c₁ c₂ c' : Core} (h : Wrote k c₁ c₂)
    (hp : c₁.pipe = c.pipe) (hr : c₁.resets = c.resets) (hp' : c'.pipe = c₂.pipe)
    (hr' : c₂.resets ≤ c'.resets) (hs : c'.resets = c₂.resets → c'.sock = c₂.sock) : Onward c c' := by
  have hres := h.resets
  obtain ⟨hsock, -, -, hpipe⟩ := h.frame
  refine ⟨by omega, fun o ho => ?_⟩
  rcases hpipe _ (hp' ▸ ho) with ho | ho
  · exact Or.inl (hp ▸ ho)
  · obtain rfl := Cmd.close.inj ho
    exact Or.inr ⟨hr, fun hr' => (hs (by omega)).trans hsock⟩

/-- A request on the connection the peer had last, and a state set after it. -/
theorem Requested.onward {code : Nat} {c c₁ c₂ : Core} {st : PeerState} (h : Requested c₁ code c₂)
    (hp : c₁.pipe = c.pipe) (hr : c₁.resets = c.resets) : Onward c { c₂ with state := st } := by
  obtain ⟨_, _, hw⟩ := h
  exact hw.onward hp hr rfl (Nat.le_refl _) fun _ => rfl

theorem Exec.onward {op : Op} {cmd : Cmd} {c c' : Core} (h : Exec op cmd c c') : Onward c c' := by
  cases h with
  | skipOpen | inactivSkip | closeSkip | reconnSkip | cerSkip | trSkip | connectInProg =>
      exact .same rfl rfl
  | connectFailed | connectedFailed | close | cer | tr => exact .reset rfl rfl
  | connected hcmd hs hw => exact hw.onward rfl rfl
  | inactivSent hs hw => exact hw.onward rfl rfl
  | accepted hs =>
      split
      · exact .same rfl rfl
      · exact .same rfl rfl
  | reconn hs => exact .added rfl rfl (by simp)

theorem Handled.onward {buf : List UInt8} {c c' : Core} (h : Handled buf c c') : Onward c c' := by
  cases h with
  | ignored | cea | dwa => exact .same rfl rfl
  | cer hr hs hw =>
      rcases hs with ⟨-, rfl⟩ | ⟨-, rfl⟩
      · exact hw.onward rfl rfl rfl (Nat.le_refl _) fun _ => rfl
      · exact hw.onward rfl rfl rfl (Nat.le_refl _) fun _ => rfl
  | @gaveUp c₁ c₂ _ _ hs h₁ hw =>
      subst h₁
      rcases hw.wrote with rfl | ⟨code, res, hw⟩
      · exact .reset rfl rfl
      · -- the reset counts as a new connection
        refine hw.onward rfl rfl rfl (Nat.le_succ _) fun hr => ?_
        have hr : c₂.resets + 1 = c₂.resets := hr
        omega
  | dwr hr hs hw => exact hw.onward rfl rfl rfl (Nat.le_refl _) fun _ => rfl

/-- **The closes a step sends** are about the connection it leaves, unless it resets the peer. -/
theorem Step.onward {op : Op} {c c' : Core} (h : Step op c c') : Onward c c' := by
  cases h with
  | idle | enqueue | workSkip | work | orphanExpired => exact .same rfl rfl
  | broke | pendingFailed | pendingRefused | hangupFailed => exact .reset rfl rfl
  | exec hp he =>
      obtain ⟨hr, hc⟩ := he.onward
      refine ⟨hr, fun o ho => ?_⟩
      rcases hc o ho with ho | ho
      · exact Or.inl (by rw [hp]; exact List.mem_cons_of_mem _ ho)
      · exact Or.inr ho
  | request hr hh => exact hh.onward
  | answer hr hc hfind hh =>
      obtain ⟨hr, hc⟩ := hh.onward
      exact ⟨hr, hc⟩
  | pendingDone hs hsock hw => exact hw.onward rfl rfl
  | hangup hs hw => exact hw.onward rfl rfl
  | sendReq hs ht hid hw => exact hw.onward rfl rfl rfl (Nat.le_refl _) fun _ => rfl
  | sendRes hs hw => exact hw.onward rfl rfl rfl (Nat.le_refl _) fun _ => rfl
  | accept | cerExpired | inactiv => exact .added rfl rfl (by simp)
  | reconnExpired ht =>
      split
      · exact .added rfl rfl (by simp)
      · exact .same rfl rfl
  | transExpired hfind =>
      dsimp only
      split
      · exact .added rfl rfl (by simp)
      · exact .same rfl rfl

/-! ## A peer in error -/

/-- Nothing is written, and the peer stays in error or is reset. -/
structure Stuck (c c' : Core) : Prop where
  writes : c'.writes = c.writes
  next : (c'.state = .error ∧ c'.sock = c.sock ∧ c'.resets = c.resets)
    ∨ (c'.state = .unconn ∧ c'.sock = none ∧ c'.resets = c.resets + 1)

theorem Exec.stuck {op : Op} {cmd : Cmd} {c c' : Core} (h : Exec op cmd c c')
    (he : c.state = .error) : Stuck c c' := by
  cases h with
  | skipOpen | inactivSkip | closeSkip | reconnSkip | cerSkip | trSkip =>
      exact ⟨rfl, Or.inl ⟨he, rfl, rfl⟩⟩
  | connectFailed hcmd hs | connectInProg hcmd hs | connected hcmd hs | connectedFailed hcmd hs =>
      exact absurd (he.symm.trans hs) (by decide)
  | accepted hs | inactivSent hs | reconn hs | cer hs => exact absurd (he.symm.trans hs) (by decide)
  | close hs => exact ⟨rfl, Or.inr ⟨rfl, rfl, rfl⟩⟩
  | tr hi hs => rcases hs with hs | hs | hs <;> exact absurd (he.symm.trans hs) (by decide)

theorem Handled.stuck {buf : List UInt8} {c c' : Core} (h : Handled buf c c')
    (he : c.state = .error) : Stuck c c' := by
  cases h with
  | ignored => exact ⟨rfl, Or.inl ⟨he, rfl, rfl⟩⟩
  | cea hr hs => exact absurd (he.symm.trans hs) (by decide)
  | dwa hr hs => exact absurd (he.symm.trans hs) (by decide)
  | cer hr hs =>
      rcases hs with ⟨hs, -⟩ | ⟨hs, -⟩ <;> exact absurd (he.symm.trans hs) (by decide)
  | dwr hr hs => rcases hs with hs | hs | hs <;> exact absurd (he.symm.trans hs) (by decide)
  | gaveUp hs h₁ hw =>
      subst h₁
      cases hw with
      | none => exact ⟨rfl, Or.inr ⟨rfl, rfl, rfl⟩⟩
      | refused hr hc hs => rcases hs with hs | hs <;> exact absurd (he.symm.trans hs) (by decide)
      | answered hr hc hs =>
          rcases hs with hs | hs | hs <;> exact absurd (he.symm.trans hs) (by decide)

/-- **A peer in error** is left alone until it is reset. -/
theorem Step.stuck {op : Op} {c c' : Core} (h : Step op c c') (he : c.state = .error) :
    Stuck c c' := by
  have hsame : ∀ d : Core, d.state = c.state → d.sock = c.sock → d.resets = c.resets →
      d.writes = c.writes → Stuck c d :=
    fun d hs hk hr hw => ⟨hw, Or.inl ⟨hs.trans he, hk, hr⟩⟩
  cases h with
  | idle | enqueue | workSkip | work | accept | cerExpired | inactiv | orphanExpired =>
      exact hsame _ rfl rfl rfl rfl
  | exec hp hx =>
      obtain ⟨hw, hn⟩ := hx.stuck he
      exact ⟨hw, hn⟩
  | request hr hh => exact hh.stuck he
  | answer hr hc hfind hh =>
      obtain ⟨hw, hn⟩ := hh.stuck he
      exact ⟨hw, hn⟩
  | broke hs => exact ⟨rfl, Or.inr ⟨rfl, rfl, rfl⟩⟩
  | pendingFailed hs | pendingDone hs | pendingRefused hs | hangup hs | hangupFailed hs =>
      exact absurd (he.symm.trans hs) (by decide)
  | sendReq hs | sendRes hs => rcases hs with hs | hs <;> exact absurd (he.symm.trans hs) (by decide)
  | reconnExpired ht =>
      split
      · exact hsame _ rfl rfl rfl rfl
      · exact hsame _ rfl rfl rfl rfl
  | transExpired hfind =>
      dsimp only
      split
      · exact hsame _ rfl rfl rfl rfl
      · exact hsame _ rfl rfl rfl rfl

end Core

namespace World

/-! ## The mark of a failed write and the state -/

/-- A close of the present connection is in the pipe only while the peer is in error. -/
structure Failing (w : World) : Prop where
  past : ∀ o, Cmd.close o ∈ w.pipe → o.resets ≤ w.resets
  now : ∀ o, Cmd.close o ∈ w.pipe → o.resets = w.resets → w.state = .error ∧ w.sock = o.sock

/-- A step that cuts nothing sends no close unless the peer is in error or reset after it. -/
theorem calm_of_beat {w w' : World} (h : Beat false w w') :
    Calm w w' ∨ w'.state = .error ∨ w'.resets = w.resets + 1 := by
  cases h with
  | reset hs hl hr => exact Or.inr (Or.inr hr)
  | hold hk hs hc =>
      rcases hc with hc | hc | hc
      · exact Or.inl hc
      · exact Or.inr (Or.inl hc)
      · exact absurd hc (by decide)
  | up hw hs hl hc => exact Or.inl (hc.resolve_right (by decide))
  | leave hs hl hc => exact Or.inl (hc.resolve_right (by decide))

theorem step_calm {cfg : Cfg} {w w' : World} {a : Act} (h : step cfg w a = some w')
    (hok : w.overrides cfg a = false) :
    Calm w w' ∨ w'.state = .error ∨ w'.resets = w.resets + 1 := by
  have hpop : ∀ {cmd : Cmd} {rest : List Cmd}, w.pipe = cmd :: rest →
      ∀ o, Cmd.close o ∈ rest → Cmd.close o ∈ w.pipe := by
    intro cmd rest hp o ho
    rw [hp]
    exact List.mem_cons_of_mem _ ho
  cases step_watched h with
  | other ha hb => exact calm_of_beat (hok ▸ hb)
  | exec he hc hb hclose =>
      rw [hok] at hb
      rcases calm_of_beat hb with hc | hc
      · exact Or.inl fun o ho => hpop he.2 o (hc o ho)
      · exact Or.inr hc
  | alarm ha hw =>
      have hp : w'.pipe = w.pipe ++ [Cmd.inactivity] := congrArg (·.2.2.1) hw
      refine Or.inl fun o ho => ?_
      rw [hp] at ho
      simpa using ho
  | @probe env io rest ha hp hw =>
      subst ha hw
      refine Or.inl fun o ho => hpop hp o ?_
      cases probed_onPeerIsInactiv cfg env { w with pipe := rest } with
      | misplaced hs hv =>
          have hv : _ = rest := congrArg (·.2.2.1) hv
          exact hv ▸ ho
      | falseAlarm hs hi hv =>
          have hv : _ = rest := congrArg (·.2.2.1) hv
          exact hv ▸ ho
      | noMemory hs hi hm hv =>
          rw [hv] at ho
          exact ho
      | sent hs hi hm hs' hk hc =>
          rcases hc with hc | hc
          · exact hc o ho
          -- a DWR that was cut is what `overrides` names
          · rw [overrides, hp] at hok
            exact absurd (hc.symm.trans hok) (by decide)

theorem Failing.step {cfg : Cfg} {w w' : World} {a : Act} (h : Failing w)
    (hok : w.overrides cfg a = false) (hst : World.step cfg w a = some w') : Failing w' := by
  obtain ⟨op, hcore, -⟩ := step_core hst
  obtain ⟨hgrow, hfrom⟩ := hcore.onward
  have hstuck : w.state = .error → Core.Stuck w.core w'.core := fun he => hcore.stuck he
  have hgrow : w.resets ≤ w'.resets := hgrow
  refine ⟨fun o ho => ?_, fun o ho hr => ?_⟩
  · rcases hfrom o ho with ho | ⟨hr, -⟩
    · exact Nat.le_trans (h.past o ho) hgrow
    · exact Nat.le_trans (Nat.le_of_eq hr) hgrow
  · rcases hfrom o ho with hold | ⟨hnew, hsock⟩
    · -- it was there before, so the peer was in error
      have hle := h.past o hold
      obtain ⟨he, hs⟩ := h.now o hold (by omega)
      rcases (hstuck he).next with ⟨he', hs', -⟩ | ⟨-, -, hr'⟩
      · exact ⟨he', (show w'.sock = w.sock from hs').trans hs⟩
      · have hr' : w'.resets = w.resets + 1 := hr'
        omega
    -- sent in this step, for the connection the peer had
    · have hnew : o.resets = w.resets := hnew
      have hsock : w'.sock = o.sock := hsock (hr.symm.trans hnew)
      rcases step_calm hst hok with hc | he | hr'
      · obtain ⟨he, hs⟩ := h.now o (hc o ho) hnew
        rcases (hstuck he).next with ⟨he', -, -⟩ | ⟨-, -, hr'⟩
        · exact ⟨he', hsock⟩
        · have hr' : w'.resets = w.resets + 1 := hr'
          omega
      · exact ⟨he, hsock⟩
      · omega

/--
**A failed write is final** in every run in which no CER, DWR or DPR is cut, nor a CEA
that says success is written short.

As long as the close that `safe_write` sent for the present connection is in the pipe,
the peer is in `PEER_ERROR` on that connection. And whatever happens to a peer in
`PEER_ERROR`, nothing is written, and it stays so or is reset to `PEER_UNCONN`.
-/
theorem error_kept {cfg : Cfg} {w : World} (h : Runs cfg (fun w a => w.overrides cfg a = false) w) :
    (∀ o, Cmd.close o ∈ w.pipe → o.resets = w.resets → w.state = .error ∧ w.sock = o.sock)
    ∧ ∀ a w', step cfg w a = some w' → w.state = .error → w'.writes = w.writes
      ∧ ((w'.state = .error ∧ w'.sock = w.sock ∧ w'.resets = w.resets)
        ∨ (w'.state = .unconn ∧ w'.sock = none ∧ w'.resets = w.resets + 1)) := by
  refine ⟨?_, ?_⟩
  · have hi : Failing w := by
      refine Reach.invariant (I := Failing) ?_ ?_ h
      · rintro w ⟨nextLabel, ete, jiffies, rfl⟩
        exact ⟨by simp [start], by simp [start]⟩
      · intro w a w' hi hok hst
        exact hi.step hok hst
    exact hi.now
  · intro a w' hst he
    obtain ⟨op, hcore, -⟩ := step_core hst
    obtain ⟨hw, hn⟩ := hcore.stuck he
    exact ⟨hw, hn⟩

/-- A worker's request comes short, and the close is on the way. -/
def sampleShort : List Act :=
  sampleAccept ++ [Act.sendReq { sampleEnv with write := .wrote 3 } (some 1) 7 sampleCer]

theorem error_kept_short :
    ∃ w, Runs sampleCfg (fun w a => w.overrides sampleCfg a = false) w ∧ w.state = .error
      ∧ (∃ o, Cmd.close o ∈ w.pipe ∧ o.resets = w.resets ∧ w.sock = o.sock)
      ∧ ∃ w', step sampleCfg w (.exec sampleEnv sampleIo) = some w' ∧ w'.writes = w.writes
        ∧ w'.state = .unconn := by
  obtain ⟨w, hr, hw⟩ := @Runs.of_trace _ sampleCfg (fun w a => !w.overrides sampleCfg a) sampleShort
    (fun w => (w.pipe, w.resets, (step sampleCfg w (.exec sampleEnv sampleIo)).map (·.state)))
    ([.close ⟨some 1, 1⟩], 1, some .unconn) (by decide +kernel)
  simp only [Prod.mk.injEq, Option.map_eq_some_iff] at hw
  obtain ⟨hp, hres, w', hst, hs'⟩ := hw
  have hr : Runs sampleCfg (fun w a => w.overrides sampleCfg a = false) w := by simpa using hr
  have hc : Cmd.close ⟨some 1, 1⟩ ∈ w.pipe := by rw [hp]; exact List.mem_singleton.mpr rfl
  obtain ⟨hnow, hnext⟩ := error_kept hr
  obtain ⟨he, hs⟩ := hnow _ hc hres.symm
  obtain ⟨hwr, -⟩ := hnext _ _ hst he
  exact ⟨w, hr, he, ⟨_, hc, hres.symm, hs⟩, w', hst, hwr, hs'⟩

/--
The write of a DWR fails: the peer waits for the DWA as if it had gone out, and what
the workers have to send is written on the connection.
-/
theorem error_overridden :
    ∃ w w', Reachable sampleCfg w ∧ (∃ o, Cmd.close o ∈ w.pipe ∧ o.resets = w.resets ∧ w.sock = o.sock)
      ∧ w.state = .waitDwa
      ∧ step sampleCfg w (.sendRes sampleEnv sampleCer) = some w'
      ∧ w'.writes = w.writes ++ [⟨w.sock, .response, sampleCer, true⟩] := by
  obtain ⟨w, hr, hw⟩ := @Reachable.of_trace _ sampleCfg
    (sampleAccept ++ List.replicate 35 Act.tick
      ++ [Act.expireActiv, Act.exec { sampleEnv with write := .failed } sampleIo])
    (fun w => (w.pipe, w.resets, w.sock, w.state)) ([.close ⟨some 1, 1⟩], 1, some 1, .waitDwa)
    (by decide +kernel)
  simp only [Prod.mk.injEq] at hw
  obtain ⟨hp, hres, hsock, hs⟩ := hw
  refine ⟨w, _, hr, ⟨⟨some 1, 1⟩, ?_, hres.symm, hsock⟩, hs, rfl, ?_⟩
  · rw [hp]
    exact List.mem_singleton.mpr rfl
  · have hcan : w.canSend = true := by simp [canSend, hs]
    have hlen : sampleCer.length ≤ 65536 := by decide +kernel
    simp only [sendResToPeer, hcan, if_true, sampleEnv, safeWrite]
    rw [if_pos hlen, List.take_of_length_le hlen, decide_eq_true hlen]

end World

end Disc.Transport
