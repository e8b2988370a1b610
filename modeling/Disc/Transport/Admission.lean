import Disc.Transport.Handshake
import Disc.Transport.Sockets

/-!
# Session messages and the handshake

`dispatch_message` hands CE, DW and DP messages to the state machine, which looks at the
state of the peer, and puts everything else into the queue of the workers, which do not.
So a session message is queued in every state in which the connection is read, also
before the capabilities were exchanged on it.

What a step says about the states on its two sides, and what it adds to the logs: where a
waiting peer comes from, how a peer comes to be up, and when a worker writes.
-/

namespace Disc.Transport

open Disc.Lib Disc.Msg

/-- A message that a worker had to send. -/
def WriteKind.byWorker : WriteKind → Bool
  | .request | .response => true
  | _ => false

namespace Core

/-- The states before the capabilities were exchanged. -/
def Waiting (c : Core) : Prop := c.state = .unconn ∨ c.state = .waitCer ∨ c.state = .waitCea

/-- The states in which workers may send. -/
theorem up_of_sends {c : Core} (h : c.state = .conn ∨ c.state = .waitDwa) : c.Up := by
  rcases h with hs | hs
  · exact Or.inl hs
  · exact Or.inr (Or.inl hs)

/-- What a step into a waiting state or into error says about the step's start. -/
structure Turns (c c' : Core) : Prop where
  waiting : c'.Waiting → c'.sock = none ∨ (c.Waiting ∧ c'.ceLog = c.ceLog)
  error : c'.state = .error → (c.Up ∨ c.state = .error) ∧ c'.sock = c.sock ∧ c'.ceLog = c.ceLog

theorem Turns.reset {c c₁ : Core} : Turns c c₁.reset :=
  ⟨fun _ => Or.inl rfl, fun he => absurd he (by simp [Core.reset])⟩

/-- The state, the connection and the log stay. -/
theorem Turns.same {c c' : Core} (hs : c'.state = c.state) (hk : c'.sock = c.sock)
    (hl : c'.ceLog = c.ceLog) : Turns c c' := by
  refine ⟨fun hw => Or.inr ⟨?_, hl⟩, fun he => ⟨Or.inr (hs ▸ he), hk, hl⟩⟩
  rw [Waiting, ← hs]
  exact hw

/-- A waiting peer turns to its next state, with the log as it is. -/
theorem Turns.opened {c c' : Core} (hw : c.Waiting) (hl : c'.ceLog = c.ceLog)
    (he : c'.state ≠ .error) : Turns c c' :=
  ⟨fun _ => Or.inr ⟨hw, hl⟩, fun he' => absurd he' he⟩

/-- The next state is one after the exchange. -/
theorem Turns.up {c c' : Core} (h : c'.Up) : Turns c c' := by
  refine ⟨fun hw => ?_, fun he => ?_⟩
  · rcases h with h | h | h <;> rcases hw with hw | hw | hw <;> exact absurd (h.symm.trans hw) (by decide)
  · rcases h with h | h | h <;> exact absurd (h.symm.trans he) (by decide)

/-- A message is written in a state after the exchange. -/
theorem Turns.wrote {k : WriteKind} {c c₁ c' : Core} (hu : c.Up) (hs : c₁.state = c.state)
    (hk : c₁.sock = c.sock) (hl : c₁.ceLog = c.ceLog) (hw : Wrote k c₁ c') : Turns c c' := by
  cases hw with
  | whole bs => exact .same hs hk hl
  | broken rs hrs hone => exact ⟨fun hw => absurd hw (by simp [Waiting]), fun _ => ⟨Or.inl hu, hk, hl⟩⟩

theorem Exec.turns {op : Op} {cmd : Cmd} {c c' : Core} (h : Exec op cmd c c') : Turns c c' := by
  cases h with
  | skipOpen | inactivSkip | closeSkip | reconnSkip | reconn | cerSkip | trSkip =>
      exact .same rfl rfl rfl
  | connectFailed | connectedFailed | close | cer | tr => exact .reset
  | connectInProg hcmd hs => exact .opened (Or.inl hs) rfl (by rw [hs]; decide)
  | connected hcmd hs hw => exact .opened (Or.inl hs) hw.ceLog (by simp)
  | accepted hs =>
      split
      · exact .opened (Or.inl hs) rfl (by simp)
      · exact .opened (Or.inl hs) rfl (by simp)
  | inactivSent hs hw => exact .up (Or.inr (Or.inl rfl))

theorem Handled.turns {buf : List UInt8} {c c' : Core} (h : Handled buf c c') : Turns c c' := by
  cases h with
  | ignored => exact .same rfl rfl rfl
  | cea | cer | dwa => exact .up (Or.inl rfl)
  | gaveUp => exact .reset
  | dwr hr hs hw => exact .wrote hs rfl rfl rfl hw

/-- **What a step into a waiting state or into error comes from.** -/
theorem Step.turns {op : Op} {c c' : Core} (h : Step op c c') : Turns c c' := by
  cases h with
  | idle | enqueue | workSkip | work | accept | cerExpired | inactiv | orphanExpired =>
      exact .same rfl rfl rfl
  | exec hp he =>
      obtain ⟨hw, herr⟩ := he.turns
      exact ⟨hw, herr⟩
  | request hr hh => exact hh.turns
  | answer hr hc hfind hh =>
      obtain ⟨hw, herr⟩ := hh.turns
      exact ⟨hw, herr⟩
  | broke | pendingFailed | pendingRefused | hangupFailed => exact .reset
  | pendingDone hs hsock hw => exact .opened (Or.inl hs) hw.ceLog (by simp)
  | hangup hs hw => exact .up (Or.inr (Or.inr rfl))
  | sendReq hs ht hid hw =>
      refine .wrote (up_of_sends hs) ?_ ?_ ?_ hw
      · rfl
      · rfl
      · rfl
  | sendRes hs hw => exact .wrote (up_of_sends hs) rfl rfl rfl hw
  | reconnExpired ht =>
      split
      · exact .same rfl rfl rfl
      · exact .same rfl rfl rfl
  | transExpired hfind =>
      dsimp only
      split
      · exact .same rfl rfl rfl
      · exact .same rfl rfl rfl

/-! ## The logs -/

/-- What a step adds to the log of writes, as seen from its start. -/
def Adds (c c' : Core) : Prop :=
  ∃ l, c'.writes = c.writes ++ l ∧ ∀ r ∈ l, r.kind.byWorker = true → c.Up ∧ r.sock = c.sock

theorem Adds.none {c c' : Core} (h : c'.writes = c.writes) : Adds c c' :=
  ⟨[], by rw [h, List.append_nil], by simp⟩

theorem Wrote.adds {k : WriteKind} {c c₁ c' : Core} (h : Wrote k c₁ c') (hw : c₁.writes = c.writes)
    (hk : k.byWorker = true → c.Up ∧ c₁.sock = c.sock) : Adds c c' := by
  cases h with
  | whole bs =>
      refine ⟨[⟨c₁.sock, k, bs, true⟩], by rw [← hw], fun r hr => ?_⟩
      obtain rfl := List.mem_singleton.mp hr
      exact hk
  | broken rs hrs hone =>
      refine ⟨rs, by rw [← hw], fun r hr hb => ?_⟩
      obtain ⟨hs, hkind, -⟩ := hrs r hr
      rw [hs]
      exact hk (hkind ▸ hb)

theorem Requested.adds {code : Nat} {c c₁ c' : Core} (h : Requested c₁ code c')
    (hw : c₁.writes = c.writes) : Adds c c' := by
  obtain ⟨_, _, h⟩ := h
  exact h.adds hw (fun hk => absurd hk (by simp [WriteKind.byWorker]))

theorem Exec.adds {op : Op} {cmd : Cmd} {c c' : Core} (h : Exec op cmd c c') : Adds c c' := by
  cases h with
  | connected hcmd hs hw =>
      have ha := hw.adds (c := c) rfl
      exact ha
  | inactivSent hs hw =>
      have ha := hw.adds (c := c) rfl
      exact ha
  | accepted hs =>
      split
      · exact .none rfl
      · exact .none rfl
  | _ => exact .none rfl

theorem Handled.adds {buf : List UInt8} {c c' : Core} (h : Handled buf c c') : Adds c c' := by
  cases h with
  | ignored | cea | dwa => exact .none rfl
  | @cer c₁ c₂ caps hr hs hw =>
      have hc₁ : c₁.writes = c.writes := by
        rcases hs with ⟨-, rfl⟩ | ⟨-, rfl⟩
        · rfl
        · rfl
      have ha := hw.adds (c := c) hc₁ (fun hk => absurd hk (by simp [WriteKind.byWorker]))
      exact ha
  | gaveUp hs h₁ hw =>
      subst h₁
      rcases hw.wrote with rfl | ⟨_, _, hw⟩
      · exact .none rfl
      · have ha := hw.adds (c := c) rfl (fun hk => absurd hk (by simp [WriteKind.byWorker]))
        exact ha
  | dwr hr hs hw => exact hw.adds rfl (fun hk => absurd hk (by simp [WriteKind.byWorker]))

/-- **Workers write** in the states after the exchange, and on the peer's connection. -/
theorem Step.adds {op : Op} {c c' : Core} (h : Step op c c') : Adds c c' := by
  cases h with
  | exec hp he =>
      have ha := he.adds
      exact ha
  | request hr hh => exact hh.adds
  | answer hr hc hfind hh =>
      have ha := hh.adds
      exact ha
  | pendingDone hs hsock hw =>
      have ha := hw.adds (c := c) rfl
      exact ha
  | hangup hs hw =>
      have ha := hw.adds (c := c) rfl
      exact ha
  | sendReq hs ht hid hw => exact hw.adds rfl fun _ => ⟨up_of_sends hs, rfl⟩
  | sendRes hs hw => exact hw.adds rfl fun _ => ⟨up_of_sends hs, rfl⟩
  | reconnExpired ht =>
      split
      · exact .none rfl
      · exact .none rfl
  | transExpired hfind =>
      dsimp only
      split
      · exact .none rfl
      · exact .none rfl
  | _ => exact .none rfl

/-- What a step adds to the log of exchanges, and how a peer comes to be up. -/
structure Rises (c c' : Core) : Prop where
  log : ∃ l, c'.ceLog = c.ceLog ++ l ∧ ∀ e ∈ l, e.sock = c.sock
  up : c'.Up → c'.sock = c.sock ∧ (c.Up ∨ ∃ e, c'.ceLog = c.ceLog ++ [e])

/-- The log stays, and the peer is not up unless it was. -/
theorem Rises.same {c c' : Core} (hl : c'.ceLog = c.ceLog)
    (hu : c'.Up → c'.sock = c.sock ∧ c.Up) : Rises c c' :=
  ⟨⟨[], by rw [hl, List.append_nil], by simp⟩, fun h => ⟨(hu h).1, Or.inl (hu h).2⟩⟩

theorem Rises.down {c c' : Core} (hl : c'.ceLog = c.ceLog) (hu : ¬ c'.Up) : Rises c c' :=
  .same hl fun h => absurd h hu

theorem not_up_reset (c : Core) : ¬ c.reset.Up := by simp [Up, reset]

/-- A write keeps the peer as it was, or it is in error. -/
theorem Wrote.rises {k : WriteKind} {c c₁ c' : Core} (h : Wrote k c₁ c') (hl : c₁.ceLog = c.ceLog)
    (hs : c₁.state = c.state) (hk : c₁.sock = c.sock) : Rises c c' := by
  cases h with
  | whole bs =>
      refine .same hl fun hu => ⟨hk, ?_⟩
      rw [Up, ← hs]
      exact hu
  | broken rs hrs hone => exact .down hl (by simp [Up])

theorem Exec.rises {op : Op} {cmd : Cmd} {c c' : Core} (h : Exec op cmd c c') : Rises c c' := by
  cases h with
  | skipOpen | inactivSkip | closeSkip | reconnSkip | reconn | cerSkip | trSkip =>
      exact .same rfl fun hu => ⟨rfl, hu⟩
  | connectFailed | connectedFailed | close | cer | tr => exact .down rfl (not_up_reset _)
  | connectInProg hcmd hs => exact .down rfl fun hu => hu.ne_unconn hs
  | connected hcmd hs hw => exact .down hw.ceLog (by simp [Up])
  | accepted hs =>
      split
      · exact .down rfl (by simp [Up])
      · exact .down rfl (by simp [Up])
  | inactivSent hs hw =>
      have hlog := hw.ceLog
      obtain ⟨_, _, hw⟩ := hw
      exact .same hlog fun _ => ⟨hw.frame.1, Or.inl hs⟩

theorem Handled.rises {buf : List UInt8} {c c' : Core} (h : Handled buf c c') : Rises c c' := by
  cases h with
  | ignored => exact .same rfl fun hu => ⟨rfl, hu⟩
  | cea => exact ⟨⟨_, rfl, by simp⟩, fun _ => ⟨rfl, Or.inr ⟨_, rfl⟩⟩⟩
  | @cer c₁ c₂ caps hr hs hw =>
      have h₁ : c₁.sock = c.sock ∧ c₁.ceLog = c.ceLog := by
        rcases hs with ⟨-, rfl⟩ | ⟨-, rfl⟩
        · exact ⟨rfl, rfl⟩
        · exact ⟨rfl, rfl⟩
      obtain ⟨hsock, -, hlog, -⟩ := hw.frame
      have hlog : c₂.ceLog = c.ceLog ++ [⟨c₁.sock, true, buf, caps⟩] := by rw [hlog, ← h₁.2]
      exact ⟨⟨_, hlog, by simpa using h₁.1⟩, fun _ => ⟨hsock.trans h₁.1, Or.inr ⟨_, hlog⟩⟩⟩
  | @gaveUp c₁ c₂ l t hs h₁ hw hl =>
      subst h₁
      have hlog : c₂.ceLog = c.ceLog ++ l := by
        rcases hw.wrote with rfl | ⟨_, _, hw⟩
        · rfl
        · exact hw.frame.2.2.1
      exact ⟨⟨l, hlog, hl⟩, fun hu => absurd hu (not_up_reset _)⟩
  | dwr hr hs hw => exact hw.rises rfl rfl rfl
  | dwa hr hs => exact .same rfl fun _ => ⟨rfl, Or.inr (Or.inl hs)⟩

/-- **A peer comes to be up** by an exchange on the connection it is on. -/
theorem Step.rises {op : Op} {c c' : Core} (h : Step op c c') : Rises c c' := by
  cases h with
  | idle | enqueue | workSkip | work | accept | cerExpired | inactiv | orphanExpired =>
      exact .same rfl fun hu => ⟨rfl, hu⟩
  | exec hp he =>
      obtain ⟨hlog, hup⟩ := he.rises
      exact ⟨hlog, hup⟩
  | request hr hh => exact hh.rises
  | answer hr hc hfind hh =>
      obtain ⟨hlog, hup⟩ := hh.rises
      exact ⟨hlog, hup⟩
  | broke | pendingFailed | pendingRefused | hangupFailed => exact .down rfl (not_up_reset _)
  | pendingDone hs hsock hw => exact .down hw.ceLog (by simp [Up])
  | hangup hs hw =>
      have hlog := hw.ceLog
      obtain ⟨_, _, hw⟩ := hw
      exact .same hlog fun _ => ⟨hw.frame.1, Or.inl hs⟩
  | sendReq hs ht hid hw =>
      refine hw.rises ?_ ?_ ?_
      · rfl
      · rfl
      · rfl
  | sendRes hs hw => exact hw.rises rfl rfl rfl
  | reconnExpired ht =>
      split
      · exact .same rfl fun hu => ⟨rfl, hu⟩
      · exact .same rfl fun hu => ⟨rfl, hu⟩
  | transExpired hfind =>
      dsimp only
      split
      · exact .same rfl fun hu => ⟨rfl, hu⟩
      · exact .same rfl fun hu => ⟨rfl, hu⟩

end Core

namespace World

variable {cfg : Cfg} {w w' : World} {a : Act}

/-! ## The queue -/

theorem queue_sublist {P : List UInt8 → Prop} {l l' : Ledger} (h : Moves cfg P l l') :
    l'.queue.Sublist l.queue := by
  induction h with
  | trans _ _ ih ih' => exact ih'.trans ih
  | unqueue i => exact List.eraseIdx_sublist ..
  | _ => exact List.Sublist.refl _

/-- A session message that is read is queued. -/
theorem queue_message {buf : List UInt8} (h : step cfg w a = some w') (hm : w.message a = some buf)
    (hb : ¬ Core.ForPeer buf) : w'.queue = w.queue ++ [buf] := by
  cases a with
  | read env evs avail =>
      simp only [step] at h
      split at h
      · exact absurd h (by simp)
      · split at h
        · obtain ⟨out, hout, hk⟩ := Res.bind_eq_ok (ofRes_eq_some h)
          have hmsg : out.msg = some buf := by simpa only [message, hout] using hm
          rw [hmsg, doRead_msg hout hmsg] at hk
          obtain ⟨v, hd, hk⟩ := Res.bind_eq_ok hk
          obtain rfl := Res.ok.inj hk
          -- the dispatcher falls through its three cases to the queue
          have hce : msgCode buf ≠ ceMsgCode := fun hc => hb (Or.inl hc)
          have hdw : msgCode buf ≠ dwMsgCode := fun hc => hb (Or.inr (Or.inl hc))
          have hdp : msgCode buf ≠ dpMsgCode := fun hc => hb (Or.inr (Or.inr hc))
          simp only [dispatchMessage, if_neg hce, if_neg hdw, if_neg hdp] at hd
          obtain rfl := Res.ok.inj hd
          rfl
        · exact absurd h (by simp)
  | _ => exact absurd hm (by simp [message])

/-- Only such a message makes the queue longer. -/
theorem message_of_queue {buf : List UInt8} (h : step cfg w a = some w')
    (hq : w'.queue = w.queue ++ [buf]) : w.message a = some buf ∧ ¬ Core.ForPeer buf := by
  -- every other step only takes from the queue
  have hlong : ¬ w'.queue.Sublist w.queue := by
    intro hsub
    have hlen := hsub.length_le
    rw [hq, List.length_append, List.length_singleton] at hlen
    omega
  by_cases hr : a.Reads
  · cases a with
    | read env evs avail =>
        obtain ⟨s, out, -, hout, hm | ⟨buf', hmsg, hb, hl⟩⟩ := read_moves (P := fun _ => True) h
        · exact absurd (queue_sublist hm) hlong
        · have hq' : w'.queue = w.queue ++ [buf'] := congrArg Ledger.queue hl
          obtain rfl : buf' = buf := by simpa using hq'.symm.trans hq
          exact ⟨by simp only [message, hout, hmsg], hb⟩
    | _ => exact absurd hr (by simp [Act.Reads])
  · exact absurd (queue_sublist (step_moves (sends_any a) hr h)) hlong

/-- A session request, and no CE message before it. -/
def sampleSession : List UInt8 := setWord sampleCer 1 [0x80, 0, 1, 15]

end World

end Disc.Transport
