import Disc.Transport.Beat

/-!
# The watchdog

`activ_peers` holds the peers whose silence is measured. A peer that was silent for
`SEND_DWR_TIMEOUT` is taken out and an inactivity command is sent to the receive thread,
which sends a DWR; the DWA puts the peer back.

What a step of one peer does to this: a connected peer stays in the list or keeps its
inactivity command on the way, the command comes closer, and it sends the DWR. And a peer
in the list is connected, as long as the commands find the peer as the timer left it.
-/

namespace Disc.Transport

open Disc.Lib Disc.Msg

/-- The receive thread executes a command. -/
def Act.executes : Act → Bool
  | .exec _ _ => true
  | _ => false

theorem Act.executes_eq_false {a : Act} (h : ∀ env io, a ≠ .exec env io) : a.executes = false := by
  cases a with
  | exec env io => exact absurd rfl (h env io)
  | _ => rfl

namespace World

/-! ## A connected peer is watched -/

/-- In the list, or with an inactivity command on the way. -/
def Watching (w : World) : Prop := w.state = .conn → w.inActiv = true ∨ Cmd.inactivity ∈ w.pipe

theorem Watching.beat {cut : Bool} {w w' : World} (h : Watching w) (hb : Beat cut w w') : Watching w' := by
  intro hs
  cases hb with
  | reset hs' => exact absurd (hs.symm.trans hs') (by decide)
  | up _ _ hl => exact Or.inl hl
  | leave hs' => exact absurd (hs.symm.trans hs') (by decide)
  | hold hk hs' =>
      rcases hs' with hs' | ⟨hs', -⟩ | ⟨-, hs' | hs'⟩
      · rcases h (hs' ▸ hs) with hw | hw
        · exact Or.inl (hk.inActiv.trans hw)
        · exact Or.inr (hk.pipe.subset hw)
      · exact absurd (hs.symm.trans hs') (by decide)
      · exact absurd (hs.symm.trans hs') (by decide)
      · exact absurd (hs.symm.trans hs') (by decide)

/--
A DWR that is due finds memory. Of all steps only the inactivity command asks for
one.
-/
def dwrMemory (w : World) : Act → Bool
  | .exec env _ => w.pipe.head? ≠ some .inactivity || w.state ≠ .conn || !w.idle
      || (env.msgMem && env.trMem)
  | _ => true

theorem dwrMemory_probe {w : World} {env : Env} {io : SockEnv} {rest : List Cmd}
    (h : w.dwrMemory (.exec env io) = true) (hp : w.pipe = .inactivity :: rest)
    (hs : w.state = .conn) (hi : w.idle = true) : (env.msgMem && env.trMem) = true := by
  simpa [dwrMemory, hp, hs, hi] using h

theorem Watching.step {cfg : Cfg} {w w' : World} {a : Act} (h : Watching w)
    (hok : w.dwrMemory a = true) (hst : World.step cfg w a = some w') : Watching w' := by
  cases step_watched hst with
  | other _ hb => exact h.beat hb
  | @exec cmd rest he hc hb _ =>
      refine Watching.beat ?_ hb
      intro hs
      rcases h hs with hw | hw
      · exact Or.inl hw
      · rw [he.2] at hw
        rcases List.mem_cons.mp hw with hw | hw
        · exact absurd hw.symm hc
        · exact Or.inr hw
  | alarm _ hw =>
      intro _
      have hp : w'.pipe = w.pipe ++ [Cmd.inactivity] := congrArg (·.2.2.1) hw
      exact Or.inr (by rw [hp]; exact List.mem_append_right _ (List.mem_singleton.mpr rfl))
  | @probe env io rest ha hp hw =>
      subst ha
      rw [hw]
      intro hs
      cases probed_onPeerIsInactiv cfg env { w with pipe := rest } with
      -- each way the probe can end, but one, leaves the peer watched or not connected
      | misplaced hs' hv => exact absurd ((congrArg (·.1) hv).symm.trans hs) hs'
      | falseAlarm _ _ hv => exact Or.inl (congrArg (·.2.1) hv)
      | noMemory hs' hi hm _ =>
          have hmem := dwrMemory_probe hok hp hs' hi
          exact absurd (hm.symm.trans hmem) (by decide)
      | sent _ _ _ hs' => exact absurd (hs.symm.trans hs') (by decide)

/-- A peer that stays connected keeps its commands. -/
theorem Beat.pipe_prefix {cut : Bool} {w w' : World} (h : Beat cut w w') (hs : w.state = .conn)
    (hs' : w'.state = .conn) : w.pipe <+: w'.pipe := by
  cases h with
  | reset hs'' => exact absurd (hs'.symm.trans hs'') (by decide)
  | up hne => exact absurd hs hne
  | leave hs'' => exact absurd (hs'.symm.trans hs'') (by decide)
  | hold hk => exact hk.pipe

/-- **The command comes closer** with every command that is executed, while the peer is silent. -/
theorem step_closer {cfg : Cfg} {w w' : World} {a : Act} {k : Nat} (hst : step cfg w a = some w')
    (hok : w.dwrMemory a = true) (hs : w.state = .conn) (hi : w.idle = true)
    (hs' : w'.state = .conn) (hk : w.pipe[k]? = some .inactivity) :
    ∃ k', w'.pipe[k']? = some .inactivity ∧ k' + a.executes.toNat ≤ k := by
  have hget : ∀ {p : List Cmd} {j : Nat}, p <+: w'.pipe → p[j]? = some .inactivity →
      w'.pipe[j]? = some .inactivity := by
    intro p j hp hj
    obtain ⟨hlt, -⟩ := List.getElem?_eq_some_iff.mp hj
    obtain ⟨r, hr⟩ := hp
    rw [← hr, List.getElem?_append_left hlt]
    exact hj
  cases step_watched hst with
  | other ha hb =>
      refine ⟨k, hget (Beat.pipe_prefix hb hs hs') hk, ?_⟩
      rw [Act.executes_eq_false ha]
      exact Nat.le_refl k
  | @exec cmd rest he hc hb _ =>
      -- the first command is another one, so the place was not the first
      obtain ⟨env, io, rfl⟩ := he.1
      have hpre : rest <+: w'.pipe := Beat.pipe_prefix hb hs hs'
      rw [he.2] at hk
      cases k with
      | zero => exact absurd (Option.some.inj hk) hc
      | succ j =>
          rw [List.getElem?_cons_succ] at hk
          exact ⟨j, hget hpre hk, Nat.le_refl (j + 1)⟩
  | alarm ha hw =>
      have hp : w'.pipe = w.pipe ++ [Cmd.inactivity] := congrArg (·.2.2.1) hw
      refine ⟨k, hget (hp ▸ List.prefix_append _ _) hk, ?_⟩
      rw [Act.executes_eq_false ha]
      exact Nat.le_refl k
  | @probe env io rest ha hp hw =>
      subst ha
      have hmem := dwrMemory_probe hok hp hs hi
      rw [hw] at hs'
      cases probed_onPeerIsInactiv cfg env { w with pipe := rest } with
      | misplaced hne => exact absurd hs hne
      | falseAlarm _ hni => exact absurd (hni.symm.trans hi) (by decide)
      | noMemory _ _ hm => exact absurd (hm.symm.trans hmem) (by decide)
      | sent _ _ _ hs'' => exact absurd (hs'.symm.trans hs'') (by decide)

/-- **When the command is executed** on a silent peer, a DWR goes out. -/
theorem step_probe {cfg : Cfg} {w : World} {env : Env} {io : SockEnv} {rest : List Cmd}
    (hp : w.pipe = .inactivity :: rest) (hs : w.state = .conn) (hi : w.idle = true)
    (hok : w.dwrMemory (.exec env io) = true) :
    ∃ w', step cfg w (.exec env io) = some w' ∧ w'.state = .waitDwa
      ∧ ∀ n, env.write = .wrote n → ∃ bs whole, w'.writes
        = w.writes ++ [⟨w.sock, .req dwMsgCode, bs, whole⟩] := by
  have hmem := dwrMemory_probe hok hp hs hi
  refine ⟨(({ w with pipe := rest } : World).onPeerIsInactiv cfg env).2, ?_, ?_⟩
  · simp only [step, hp]
    rfl
  · cases probed_onPeerIsInactiv cfg env { w with pipe := rest } with
    | misplaced hne => exact absurd hs hne
    | falseAlarm _ hni => exact absurd (hni.symm.trans hi) (by decide)
    | noMemory _ _ hm => exact absurd (hm.symm.trans hmem) (by decide)
    | sent _ _ _ hs' _ _ hw => exact ⟨hs', hw⟩

/-! ## A peer that is listed is connected -/

/-- A peer in the list is connected or in error, and a peer in error is about to be closed. -/
structure Listed (w : World) : Prop where
  state : w.inActiv = true → w.state = .conn ∨ w.state = .error
  closing : w.state = .error → ∃ o, Cmd.close o ∈ w.pipe

theorem Listed.beat {cut : Bool} {w w' : World} (h : Listed w) (hb : Beat cut w w') : Listed w' := by
  cases hb with
  | reset hs hl =>
      refine ⟨fun hl' => absurd (hl'.symm.trans hl) (by decide), fun hs' => ?_⟩
      exact absurd (hs'.symm.trans hs) (by decide)
  | up _ hs => exact ⟨fun _ => Or.inl hs, fun hs' => absurd (hs'.symm.trans hs) (by decide)⟩
  | leave hs hl =>
      refine ⟨fun hl' => absurd (hl'.symm.trans hl) (by decide), fun hs' => ?_⟩
      exact absurd (hs'.symm.trans hs) (by decide)
  | hold hk hs =>
      rcases hs with hs | ⟨hs, hc⟩ | ⟨hu, hs⟩
      · refine ⟨fun hl' => ?_, fun hs' => ?_⟩
        · rw [hs]
          exact h.state (hk.inActiv.symm.trans hl')
        · obtain ⟨o, ho⟩ := h.closing (hs.symm.trans hs')
          exact ⟨o, hk.pipe.subset ho⟩
      · exact ⟨fun _ => Or.inr hs, fun _ => hc⟩
      · -- an unconnected peer is not in the list, and does not go to error
        refine ⟨fun hl' => ?_, fun hs' => ?_⟩
        · rcases h.state (hk.inActiv.symm.trans hl') with hw | hw
          · exact absurd (hu.symm.trans hw) (by decide)
          · exact absurd (hu.symm.trans hw) (by decide)
        · rcases hs with hs | hs
          · exact absurd (hs'.symm.trans hs) (by decide)
          · exact absurd (hs'.symm.trans hs) (by decide)

/-- A peer in error that is closed is not in the list any more. -/
theorem Beat.closed {cut : Bool} {w w' : World} (h : Beat cut w w') (hs : w.state = .error) (hs' : w'.state = .unconn) :
    w'.inActiv = false := by
  cases h with
  | reset _ hl => exact hl
  | up _ hs'' => exact absurd (hs'.symm.trans hs'') (by decide)
  | leave hs'' => exact absurd (hs'.symm.trans hs'') (by decide)
  | hold _ hs'' =>
      rcases hs'' with hs'' | ⟨hs'', -⟩ | ⟨hu, -⟩
      · exact absurd (hs'.symm.trans (hs''.trans hs)) (by decide)
      · exact absurd (hs'.symm.trans hs'') (by decide)
      · exact absurd (hs.symm.trans hu) (by decide)

/--
The inactivity command finds the peer connected, and not in the list unless it has been
heard since or there is no memory for the DWR; or it finds the peer in error.
-/
def probeTimely (w : World) : Act → Bool
  | .exec env _ => w.pipe.head? ≠ some .inactivity || w.state = .error
      || (w.state = .conn && !(w.inActiv && w.idle && env.msgMem && env.trMem))
  | _ => true

theorem Listed.probe {cfg : Cfg} {w : World} {env : Env} {io : SockEnv} {rest : List Cmd}
    (h : Listed w) (hp : w.pipe = .inactivity :: rest) (hok : w.probeTimely (.exec env io) = true) :
    Listed (({ w with pipe := rest } : World).onPeerIsInactiv cfg env).2 := by
  have hdue : w.state = .error ∨ (w.state = .conn ∧ (((w.inActiv = false ∨ w.idle = false)
      ∨ env.msgMem = false) ∨ env.trMem = false)) := by
    simpa [probeTimely, hp] using hok
  have hprobed := probed_onPeerIsInactiv cfg env { w with pipe := rest }
  generalize (({ w with pipe := rest } : World).onPeerIsInactiv cfg env).2 = v at hprobed ⊢
  cases hprobed with
  | misplaced hne hv =>
      have hvp : v.pipe = rest := congrArg (·.2.2.1) hv
      have hs : w.state = .error := by
        rcases hdue with hs | hs
        · exact hs
        · exact absurd hs.1 hne
      refine ⟨fun _ => Or.inr ((congrArg (·.1) hv).trans hs), fun _ => ?_⟩
      obtain ⟨o, ho⟩ := h.closing hs
      rw [hp] at ho
      rcases List.mem_cons.mp ho with ho | ho
      · exact absurd ho (by simp)
      · exact ⟨o, by rw [hvp]; exact ho⟩
  | falseAlarm _ _ hv =>
      have hs : v.state = .conn := congrArg (·.1) hv
      exact ⟨fun _ => Or.inl hs, fun hs' => absurd (hs'.symm.trans hs) (by decide)⟩
  | noMemory hs _ _ hv =>
      have hs : v.state = .conn := (congrArg World.state hv).trans hs
      exact ⟨fun _ => Or.inl hs, fun hs' => absurd (hs'.symm.trans hs) (by decide)⟩
  | sent hs hi hm hs' hk =>
      refine ⟨fun hl => ?_, fun he => absurd (he.symm.trans hs') (by decide)⟩
      -- the peer would have been in the list before
      have hs : w.state = .conn := hs
      have hl : w.inActiv = true := hk.inActiv.symm.trans hl
      have hi : w.idle = true := hi
      obtain ⟨hmsg, htr⟩ : env.msgMem = true ∧ env.trMem = true := by simpa using hm
      simp [hs, hl, hi, hmsg, htr] at hdue

theorem Listed.step {cfg : Cfg} {w w' : World} {a : Act} (h : Listed w)
    (hok : w.probeTimely a = true) (hst : World.step cfg w a = some w') : Listed w' := by
  cases step_watched hst with
  | other _ hb => exact h.beat hb
  | @exec cmd rest he hc hb hclose =>
      -- the close of a peer in error is the one command that may not be lost
      by_cases hne : ∃ o, cmd = .close o ∧ w.state = .error
      · obtain ⟨o, rfl, hs⟩ := hne
        rcases hclose o rfl with hu | hu
        · exact absurd (hs.symm.trans hu) (by decide)
        · refine ⟨fun hl => ?_, fun hs' => absurd (hs'.symm.trans hu) (by decide)⟩
          exact absurd (hl.symm.trans (Beat.closed hb hs hu)) (by decide)
      · refine Listed.beat (w := { w with pipe := rest }) ⟨h.state, fun hs => ?_⟩ hb
        obtain ⟨o, ho⟩ := h.closing hs
        rw [he.2] at ho
        rcases List.mem_cons.mp ho with ho | ho
        · exact absurd ⟨o, ho.symm, hs⟩ hne
        · exact ⟨o, ho⟩
  | alarm _ hw =>
      have hl' : w'.inActiv = false := congrArg (·.2.1) hw
      have hs' : w'.state = w.state := congrArg (·.1) hw
      have hp : w'.pipe = w.pipe ++ [Cmd.inactivity] := congrArg (·.2.2.1) hw
      refine ⟨fun hl => absurd (hl.symm.trans hl') (by decide), fun hs => ?_⟩
      obtain ⟨o, ho⟩ := h.closing (hs'.symm.trans hs)
      exact ⟨o, by rw [hp]; exact List.mem_append_left _ ho⟩
  | @probe env io rest ha hp hw =>
      subst ha
      rw [hw]
      exact h.probe hp hok

/--
**A listed peer is connected** in every run whose inactivity commands are timely, or
it is in error with its close on the way.
-/
theorem listed_connected {cfg : Cfg} {w : World}
    (h : Runs cfg (fun w a => w.probeTimely a = true) w) (hl : w.inActiv = true) :
    w.state = .conn ∨ (w.state = .error ∧ ∃ o, Cmd.close o ∈ w.pipe) := by
  have hi : Listed w := by
    refine Reach.invariant (I := Listed) ?_ ?_ h
    · rintro w ⟨nextLabel, ete, jiffies, rfl⟩
      exact ⟨by simp [start], by simp [start]⟩
    · intro w a w' hi hok hst
      exact hi.step hok hst
  rcases hi.state hl with hs | hs
  · exact Or.inl hs
  · exact Or.inr ⟨hs, hi.closing hs⟩

/-- A connection on which nothing is heard for as long as it takes. -/
def sampleSilence : List Act := sampleAccept ++ List.replicate 35 Act.tick ++ [Act.expireActiv]

/-- The peer is heard before the command is executed. -/
theorem listed_connected_heard :
    ∃ w, Runs sampleCfg (fun w a => w.probeTimely a = true) w ∧ w.inActiv = true
      ∧ (w.state = .conn ∨ (w.state = .error ∧ ∃ o, Cmd.close o ∈ w.pipe)) := by
  obtain ⟨w, hr, hl⟩ := @Runs.of_trace _ sampleCfg probeTimely
    (sampleSilence ++ [Act.read sampleEnv [.got 4, .got 65536] sampleCer, Act.exec sampleEnv sampleIo])
    (fun w => w.inActiv) true (by decide +kernel)
  exact ⟨w, hr, hl, listed_connected hr hl⟩

/-- The connection is lost before the command is executed, which puts the peer back all the same. -/
theorem listed_unconnected :
    ∃ w, Reachable sampleCfg w ∧ w.inActiv = true ∧ w.state = .unconn := by
  obtain ⟨w, hr, hw⟩ := @Reachable.of_trace _ sampleCfg
    (sampleSilence ++ [Act.read sampleEnv [.fin] [], Act.exec sampleEnv sampleIo])
    (fun w => (w.inActiv, w.state)) (true, .unconn) (by decide +kernel)
  obtain ⟨hl, hs⟩ := Prod.mk.inj hw
  exact ⟨w, hr, hl, hs⟩

end World

end Disc.Transport
