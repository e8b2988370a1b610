import Disc.Transport.Handshake

/-!
# What a step says

When something is written, the states before and after the step tell what it is: a CER,
a CEA, an answer that is also a good-bye, or anything at all after the exchange. So the
way a peer gets into a state says what it has said on its connection by then.
-/

namespace Disc.Transport

open Disc.Lib Disc.Msg

/-! ## What is written, and where the state goes -/

namespace Core

/-- What a step writes. The records are on the connection of the peer before or after the step. -/
inductive Says (op : Op) (c c' : Core) : Prop
  | same (hw : c'.writes = c.writes) (hs : c'.state = c.state) (hk : c'.sock = c.sock)
  | lost (hw : c'.writes = c.writes) (hs : c'.state = .unconn) (hk : c'.sock = none)
  /-- A connect is pending, or a connection was accepted. -/
  | opened (hw : c'.writes = c.writes) (hs : c.state = .unconn)
      (hs' : c'.state = .unconn ∨ c'.state = .waitCer)
  /-- An answer came. -/
  | answered (hw : c'.writes = c.writes) (hs : c.state = .waitCea ∨ c.state = .waitDwa)
      (hs' : c'.state = .conn) (hk : c'.sock = c.sock)
  | cer (rs : List WriteRec) (hw : c'.writes = c.writes ++ rs) (hone : rs.length ≤ 1)
      (hrs : ∀ r ∈ rs, r.sock = c'.sock ∧ r.kind = .req ceMsgCode)
      (hs : c.state = .unconn) (hs' : c'.state = .waitCea)
  -- an accepted CER; the CEA may fail, and the peer is connected all the same
  | cea (buf : List UInt8) (hop : op = .hears buf) (hc : msgCode buf = ceMsgCode)
      (rs : List WriteRec) (hw : c'.writes = c.writes ++ rs) (hrs : ∀ r ∈ rs, r.sock = c.sock)
      (hs : c.state = .waitCer ∨ c.state = .waitCea) (hs' : c'.state = .conn) (hk : c'.sock = c.sock)
  /-- A request is answered, and the connection given up. -/
  | refused (buf : List UInt8) (hop : op = .hears buf) (rs : List WriteRec)
      (hw : c'.writes = c.writes ++ rs) (hone : rs.length ≤ 1) (hrs : ∀ r ∈ rs, r.sock = c.sock)
      (hcer : c.state = .waitCer → msgCode buf = ceMsgCode
        ∧ ∀ r ∈ rs, r.kind ≠ .ans ceMsgCode aaaSuccess)
      (hs : c.state ≠ .unconn) (hs' : c'.state = .unconn) (hk : c'.sock = none)
  /-- Anything, after the exchange. -/
  | up (rs : List WriteRec) (hw : c'.writes = c.writes ++ rs)
      (hrs : ∀ r ∈ rs, r.sock = c.sock ∧ ∀ code res, r.kind = .ans code res → ∃ buf, op = .hears buf)
      (hu : c.Up) (hs' : c'.Up ∨ c'.state = .error) (hk : c'.sock = c.sock)

theorem Wrote.records {k : WriteKind} {c c' : Core} (h : Wrote k c c') :
    (∃ rs : List WriteRec, c'.writes = c.writes ++ rs ∧ rs.length ≤ 1
      ∧ ∀ r ∈ rs, r.sock = c.sock ∧ r.kind = k)
    ∧ c'.sock = c.sock ∧ (c'.state = c.state ∨ c'.state = .error) := by
  cases h with
  | whole bs => exact ⟨⟨_, rfl, Nat.le_refl 1, by simp⟩, rfl, Or.inl rfl⟩
  | broken rs hrs hone =>
      exact ⟨⟨rs, rfl, hone, fun r hr => ⟨(hrs r hr).1, (hrs r hr).2.1⟩⟩, rfl, Or.inr rfl⟩

theorem says_reset {op : Op} {c c₁ : Core} (hw : c₁.writes = c.writes) : Says op c c₁.reset :=
  .lost hw rfl rfl

/-- The peer has dialled and sends its CER. -/
theorem says_cer {op : Op} {c c' : Core} {s : Nat} (hs : c.state = .unconn)
    (hw : Requested { c with flags := 0, sock := some s } ceMsgCode c') :
    Says op c { c' with state := .waitCea } := by
  obtain ⟨_, _, hw⟩ := hw
  obtain ⟨⟨rs, hrs, hone, hall⟩, hk, -⟩ := hw.records
  refine .cer rs hrs hone (fun r hr => ⟨?_, (hall r hr).2⟩) hs rfl
  exact (hall r hr).1.trans hk.symm

/-- A request of this layer, or one of the workers', after the exchange. -/
theorem says_up {op : Op} {k : WriteKind} {c c₁ c' : Core} {st : PeerState}
    (hk : ∀ code res, k = .ans code res → ∃ buf, op = .hears buf) (hu : c.Up)
    (h₁ : c₁.writes = c.writes ∧ c₁.sock = c.sock) (hw : Wrote k c₁ c')
    (hs : st = .conn ∨ st = .waitDwa ∨ st = .waitDpa ∨ st = .error) :
    Says op c { c' with state := st } := by
  obtain ⟨⟨rs, hrs, -, hall⟩, hsock, -⟩ := hw.records
  refine .up rs (by rw [← h₁.1]; exact hrs) (fun r hr => ⟨?_, fun code res hr' => ?_⟩) hu ?_
    (hsock.trans h₁.2)
  · exact (hall r hr).1.trans h₁.2
  · exact hk code res ((hall r hr).2.symm.trans hr')
  · rcases hs with hs | hs | hs | hs
    · exact Or.inl (Or.inl hs)
    · exact Or.inl (Or.inr (Or.inl hs))
    · exact Or.inl (Or.inr (Or.inr hs))
    · exact Or.inr hs

/-- The same, with the state the write leaves. -/
theorem says_wrote {op : Op} {k : WriteKind} {c c₁ c' : Core}
    (hk : ∀ code res, k = .ans code res → ∃ buf, op = .hears buf) (hu : c.Up)
    (h₁ : c₁.writes = c.writes ∧ c₁.sock = c.sock) (hs : c₁.state = c.state) (hw : Wrote k c₁ c') :
    Says op c c' := by
  have hst : c'.state = .conn ∨ c'.state = .waitDwa ∨ c'.state = .waitDpa ∨ c'.state = .error := by
    rcases hw.records.2.2 with h | h
    · rw [h, hs]
      rcases hu with hu | hu | hu
      · exact Or.inl hu
      · exact Or.inr (Or.inl hu)
      · exact Or.inr (Or.inr (Or.inl hu))
    · exact Or.inr (Or.inr (Or.inr h))
  exact says_up hk hu h₁ hw hst

theorem Exec.speech {op : Op} {cmd : Cmd} {c c' : Core} (h : Exec op cmd c c') : Says op c c' := by
  cases h with
  | skipOpen | inactivSkip | closeSkip | reconnSkip | reconn | cerSkip | trSkip =>
      exact .same rfl rfl rfl
  | connectFailed | connectedFailed | close | cer | tr => exact says_reset rfl
  | connectInProg hcmd hs => exact .opened rfl hs (Or.inl hs)
  | connected hcmd hs hw => exact says_cer hs hw
  | accepted hs =>
      split
      · exact .opened rfl hs (Or.inr rfl)
      · exact .opened rfl hs (Or.inr rfl)
  | inactivSent hs hw =>
      obtain ⟨_, _, hw⟩ := hw
      refine says_up (by simp) (Or.inl hs) ?_ hw (Or.inr (Or.inl rfl))
      exact ⟨rfl, rfl⟩

theorem Handled.says_request {buf : List UInt8} {c c' : Core} (h : Handled buf c c')
    (hr : isReqBuf buf = true) : Says (.hears buf) c c' := by
  cases h with
  | ignored => exact .same rfl rfl rfl
  | cea hr' => exact absurd (hr.symm.trans hr') (by simp)
  | dwa hr' => exact absurd (hr.symm.trans hr') (by simp)
  | @cer c₁ c₂ caps _ hs hw hc =>
      obtain ⟨⟨rs, hrs, -, hall⟩, hk, -⟩ := hw.records
      rcases hs with ⟨hs, rfl⟩ | ⟨hs, rfl⟩
      · exact .cea buf rfl hc rs hrs (fun r hr => (hall r hr).1) (Or.inl hs) rfl hk
      · exact .cea buf rfl hc rs hrs (fun r hr => (hall r hr).1) (Or.inr hs) rfl hk
  | @gaveUp c₁ c₂ l t hs h₁ hw =>
      subst h₁
      cases hw with
      | none => exact says_reset rfl
      | @refused _ res _ hc hst hw hres =>
          obtain ⟨⟨rs, hrs, hone, hall⟩, hk, -⟩ := hw.records
          refine .refused buf rfl rs hrs hone (fun r hr => (hall r hr).1) (fun _ => ⟨hc, ?_⟩) hs rfl rfl
          -- what says success was not written
          intro r hr hkind
          have hsucc : res = aaaSuccess := (WriteKind.ans.inj ((hall r hr).2.symm.trans hkind)).2
          have hnil : rs = [] := by
            have hsame : c.writes ++ rs = c.writes ++ [] := by
              rw [List.append_nil]
              exact hrs.symm.trans (hres hsucc)
            exact List.append_cancel_left hsame
          exact absurd hr (by simp [hnil])
      | @answered _ res _ hc hst hw =>
          obtain ⟨⟨rs, hrs, hone, hall⟩, hk, -⟩ := hw.records
          refine .refused buf rfl rs hrs hone (fun r hr => (hall r hr).1) (fun hwait => ?_) hs rfl rfl
          rcases hst with hst | hst | hst <;> exact absurd (hwait.symm.trans hst) (by decide)
  | dwr _ hs hw => exact says_wrote (fun _ _ _ => ⟨buf, rfl⟩) hs ⟨rfl, rfl⟩ rfl hw

theorem Handled.says_answer {op : Op} {buf : List UInt8} {c c' : Core} (h : Handled buf c c')
    (hr : isReqBuf buf = false) : Says op c c' := by
  cases h with
  | ignored => exact .same rfl rfl rfl
  | cea _ hs => exact .answered rfl (Or.inl hs) rfl rfl
  | dwa _ hs => exact .answered rfl (Or.inr hs) rfl rfl
  | cer hr' => exact absurd (hr.symm.trans hr') (by simp)
  | dwr hr' => exact absurd (hr.symm.trans hr') (by simp)
  | @gaveUp c₁ c₂ l t hs h₁ hw =>
      subst h₁
      cases hw with
      | none => exact says_reset rfl
      | refused hr' => exact absurd (hr.symm.trans hr') (by simp)
      | answered hr' => exact absurd (hr.symm.trans hr') (by simp)

/-- The pipe and the transactions do not matter. -/
theorem Says.congr {op : Op} {c d c' : Core} (h : Says op d c') (hw : d.writes = c.writes)
    (hs : d.state = c.state) (hk : d.sock = c.sock) : Says op c c' := by
  cases h with
  | same hw' hs' hk' => exact .same (hw'.trans hw) (hs'.trans hs) (hk'.trans hk)
  | lost hw' hs' hk' => exact .lost (hw'.trans hw) hs' hk'
  | opened hw' hs₀ hs' => exact .opened (hw'.trans hw) (hs ▸ hs₀) hs'
  | answered hw' hs₀ hs' hk' => exact .answered (hw'.trans hw) (hs ▸ hs₀) hs' (hk'.trans hk)
  | cer rs hw' hone hrs hs₀ hs' => exact .cer rs (hw ▸ hw') hone hrs (hs ▸ hs₀) hs'
  | cea buf hop hc rs hw' hrs hs₀ hs' hk' =>
      exact .cea buf hop hc rs (hw ▸ hw') (hk ▸ hrs) (hs ▸ hs₀) hs' (hk'.trans hk)
  | refused buf hop rs hw' hone hrs hcer hs₀ hs' hk' =>
      exact .refused buf hop rs (hw ▸ hw') hone (hk ▸ hrs) (hs ▸ hcer) (hs ▸ hs₀) hs' hk'
  | up rs hw' hrs hu hs' hk' =>
      refine .up rs (hw ▸ hw') (hk ▸ hrs) ?_ hs' (hk'.trans hk)
      rw [Up, ← hs]
      exact hu

/-- **What a step writes, and where the state goes.** -/
theorem Step.speech {op : Op} {c c' : Core} (h : Step op c c') : Says op c c' := by
  have hsend : c.state = .conn ∨ c.state = .waitDwa → c.Up := by
    rintro (hs | hs)
    · exact Or.inl hs
    · exact Or.inr (Or.inl hs)
  cases h with
  | idle | enqueue | workSkip | work | accept | cerExpired | inactiv | orphanExpired =>
      exact .same rfl rfl rfl
  | exec hp he => exact he.speech.congr rfl rfl rfl
  | request hr hh => exact hh.says_request hr
  | answer hr hc hfind hh => exact (hh.says_answer hr).congr rfl rfl rfl
  | broke | pendingFailed | hangupFailed => exact says_reset rfl
  | pendingRefused => exact says_reset rfl
  | pendingDone hs hsock hw => exact says_cer hs hw
  | hangup hs hw =>
      obtain ⟨_, _, hw⟩ := hw
      refine says_up (by simp) (Or.inl hs) ?_ hw (Or.inr (Or.inr (Or.inl rfl)))
      exact ⟨rfl, rfl⟩
  | sendReq hs ht hid hw =>
      refine says_wrote (by simp) (hsend hs) ?_ ?_ hw
      · exact ⟨rfl, rfl⟩
      · rfl
  | sendRes hs hw => exact says_wrote (by simp) (hsend hs) ⟨rfl, rfl⟩ rfl hw
  | reconnExpired ht =>
      split
      · exact .same rfl rfl rfl
      · exact .same rfl rfl rfl
  | transExpired hfind =>
      dsimp only
      split
      · exact .same rfl rfl rfl
      · exact .same rfl rfl rfl

/-! ## How a state is reached -/

section

variable {op : Op} {c c' : Core}

/-- A connection is kept or lost, or the peer had none. -/
theorem Says.sock (h : Says op c c') : c'.sock = c.sock ∨ c'.sock = none ∨ c.state = .unconn := by
  cases h with
  | same hw hs hk => exact Or.inl hk
  | answered hw hs hs' hk => exact Or.inl hk
  | cea buf hop hc rs hw hrs hs hs' hk => exact Or.inl hk
  | up rs hw hrs hu hs' hk => exact Or.inl hk
  | lost hw hs hk => exact Or.inr (Or.inl hk)
  | refused buf hop rs hw hone hrs hcer hs hs' hk => exact Or.inr (Or.inl hk)
  | opened hw hs => exact Or.inr (Or.inr hs)
  | cer rs hw hone hrs hs => exact Or.inr (Or.inr hs)

/-- What is written is written on the connection before or after the step. -/
theorem Says.records (h : Says op c c') :
    ∃ rs : List WriteRec, c'.writes = c.writes ++ rs ∧ ∀ r ∈ rs, r.sock = c.sock ∨ r.sock = c'.sock := by
  cases h with
  | same hw | lost hw | opened hw | answered hw =>
      exact ⟨[], by rw [hw, List.append_nil], fun r hr => absurd hr (by simp)⟩
  | cer rs hw hone hrs => exact ⟨rs, hw, fun r hr => Or.inr (hrs r hr).1⟩
  | cea buf hop hc rs hw hrs => exact ⟨rs, hw, fun r hr => Or.inl (hrs r hr)⟩
  | refused buf hop rs hw hone hrs => exact ⟨rs, hw, fun r hr => Or.inl (hrs r hr)⟩
  | up rs hw hrs => exact ⟨rs, hw, fun r hr => Or.inl (hrs r hr).1⟩

/-- A peer becomes unconnected by a reset, which takes its connection away. -/
theorem Says.unconn (h : Says op c c') (hu : c'.state = .unconn) :
    c'.sock = none ∨ (c.state = .unconn ∧ c'.writes = c.writes) := by
  cases h with
  | same hw hs => exact Or.inr ⟨hs.symm.trans hu, hw⟩
  | opened hw hs => exact Or.inr ⟨hs, hw⟩
  | lost hw hs hk => exact Or.inl hk
  | refused buf hop rs hw hone hrs hcer hs hs' hk => exact Or.inl hk
  | answered hw hs hs' => exact absurd (hu.symm.trans hs') (by decide)
  | cer rs hw hone hrs hs hs' => exact absurd (hu.symm.trans hs') (by decide)
  | cea buf hop hc rs hw hrs hs hs' => exact absurd (hu.symm.trans hs') (by decide)
  | up rs hw hrs hup hs' =>
      rcases hs' with hs' | hs'
      · exact absurd hu hs'.ne_unconn
      · exact absurd (hu.symm.trans hs') (by decide)

/-- It waits for a CEA since it has sent its CER, and has said nothing else since. -/
theorem Says.waitCea (h : Says op c c') (hwait : c'.state = .waitCea) :
    (c.state = .waitCea ∧ c'.sock = c.sock ∧ c'.writes = c.writes)
    ∨ (c.state = .unconn ∧ ∃ rs : List WriteRec, c'.writes = c.writes ++ rs ∧ rs.length ≤ 1
      ∧ ∀ r ∈ rs, r.sock = c'.sock ∧ r.kind = .req ceMsgCode) := by
  cases h with
  | same hw hs hk => exact Or.inl ⟨hs.symm.trans hwait, hk, hw⟩
  | cer rs hw hone hrs hs => exact Or.inr ⟨hs, rs, hw, hone, hrs⟩
  | lost hw hs => exact absurd (hwait.symm.trans hs) (by decide)
  | opened hw hs hs' => rcases hs' with hs' | hs' <;> exact absurd (hwait.symm.trans hs') (by decide)
  | answered hw hs hs' => exact absurd (hwait.symm.trans hs') (by decide)
  | cea buf hop hc rs hw hrs hs hs' => exact absurd (hwait.symm.trans hs') (by decide)
  | refused buf hop rs hw hone hrs hcer hs hs' => exact absurd (hwait.symm.trans hs') (by decide)
  | up rs hw hrs hup hs' =>
      rcases hs' with (hs' | hs' | hs') | hs' <;> exact absurd (hwait.symm.trans hs') (by decide)

/-- It waits for a CER in silence. -/
theorem Says.waitCer (h : Says op c c') (hwait : c'.state = .waitCer) : c'.writes = c.writes := by
  cases h with
  | same hw | lost hw | opened hw | answered hw => exact hw
  | cer rs hw hone hrs hs hs' => exact absurd (hwait.symm.trans hs') (by decide)
  | cea buf hop hc rs hw hrs hs hs' => exact absurd (hwait.symm.trans hs') (by decide)
  | refused buf hop rs hw hone hrs hcer hs hs' => exact absurd (hwait.symm.trans hs') (by decide)
  | up rs hw hrs hup hs' =>
      rcases hs' with (hs' | hs' | hs') | hs' <;> exact absurd (hwait.symm.trans hs') (by decide)

/-- After the exchange a peer stays up, or in error, as long as it has the connection. -/
theorem Says.up_or_error (h : Says op c c') (hu : c.Up ∨ c.state = .error) (hk : c'.sock ≠ none) :
    c'.Up ∨ c'.state = .error := by
  -- the states that come before the exchange are ruled out
  have hne : ∀ {st : PeerState}, c.state = st → st = .unconn ∨ st = .waitCer ∨ st = .waitCea → False := by
    rintro _ rfl hst
    rcases hu with (hu | hu | hu) | hu <;> rw [hu] at hst <;> exact absurd hst (by decide)
  cases h with
  | same hw hs =>
      rw [Up, hs]
      exact hu
  | answered hw hs hs' => exact Or.inl (Or.inl hs')
  | up rs hw hrs hup hs' => exact hs'
  | lost hw hs hnone => exact absurd hnone hk
  | refused buf hop rs hw hone hrs hcer hs hs' hnone => exact absurd hnone hk
  | opened hw hs => exact absurd (Or.inl rfl) (hne hs)
  | cer rs hw hone hrs hs => exact absurd (Or.inl rfl) (hne hs)
  | cea buf hop hc rs hw hrs hs =>
      rcases hs with hs | hs
      · exact absurd (Or.inr (Or.inl rfl)) (hne hs)
      · exact absurd (Or.inr (Or.inr rfl)) (hne hs)

end

/-- What `process_ce` accepts in a state that does not wait for it ends the connection. -/
theorem Handled.ceLog {buf : List UInt8} {c c' : Core} (h : Handled buf c c') :
    c'.ceLog = c.ceLog ∨ c'.sock = none ∨ c.state = .waitCer ∨ c.state = .waitCea := by
  cases h with
  | ignored | dwa => exact Or.inl rfl
  | cea hr hs => exact Or.inr (Or.inr (Or.inr hs))
  | gaveUp => exact Or.inr (Or.inl rfl)
  | dwr hr hs hw => exact Or.inl hw.frame.2.2.1
  | cer hr hs hw =>
      rcases hs with ⟨hs, -⟩ | ⟨hs, -⟩
      · exact Or.inr (Or.inr (Or.inl hs))
      · exact Or.inr (Or.inr (Or.inr hs))

theorem Step.ceLog {op : Op} {c c' : Core} (h : Step op c c') :
    c'.ceLog = c.ceLog ∨ c'.sock = none ∨ c.state = .waitCer ∨ c.state = .waitCea := by
  cases h with
  | idle | enqueue | workSkip | work | accept | cerExpired | inactiv | orphanExpired => exact Or.inl rfl
  | broke | pendingFailed | pendingRefused | hangupFailed => exact Or.inr (Or.inl rfl)
  | request hr hh => exact hh.ceLog
  | answer hr hc hfind hh => exact hh.ceLog
  | exec hp he =>
      cases he with
      | connectFailed | connectedFailed | close | cer | tr => exact Or.inr (Or.inl rfl)
      | connected hcmd hs hw => exact Or.inl hw.ceLog
      | inactivSent hs hw => exact Or.inl hw.ceLog
      | accepted hs =>
          refine Or.inl ?_
          split <;> rfl
      | _ => exact Or.inl rfl
  | pendingDone hs hsock hw => exact Or.inl hw.ceLog
  | hangup hs hw => exact Or.inl hw.ceLog
  | sendReq hs ht hid hw => exact Or.inl hw.frame.2.2.1
  | sendRes hs hw => exact Or.inl hw.frame.2.2.1
  | reconnExpired ht =>
      refine Or.inl ?_
      split <;> rfl
  | transExpired hfind =>
      refine Or.inl ?_
      dsimp only
      split <;> rfl

/-- A message changes the connection only by ending it. -/
theorem Handled.sock {buf : List UInt8} {c c' : Core} (h : Handled buf c c') :
    c'.sock = c.sock ∨ c'.sock = none := by
  cases h with
  | ignored | cea | dwa => exact Or.inl rfl
  | gaveUp => exact Or.inr rfl
  | cer hr hs hw =>
      refine Or.inl (hw.frame.1.trans ?_)
      rcases hs with ⟨-, rfl⟩ | ⟨-, rfl⟩
      · rfl
      · rfl
  | dwr hr hs hw => exact Or.inl hw.frame.1

/-- A peer that takes an accepted connection waits for a CER on it. -/
theorem Step.taken {op : Op} {c c' : Core} {s : Nat} {rest : List Cmd} (h : Step op c c')
    (hp : c.pipe = .accepted s :: rest) (hs : c.sock ≠ some s) (hs' : c'.sock = some s) :
    c'.state = .waitCer := by
  -- a step that keeps or drops its connection does not get a new one
  have hhandled : c'.sock = c.sock ∨ c'.sock = none → c'.state = .waitCer := by
    rintro (hk | hk)
    · exact absurd (hk.symm.trans hs') hs
    · exact absurd (hk.symm.trans hs') (by simp)
  cases h with
  | exec hp' he =>
      obtain ⟨rfl, rfl⟩ := List.cons.inj (hp.symm.trans hp')
      cases he with
      | skipOpen => exact absurd hs' hs
      | connectFailed hcmd | connectInProg hcmd | connected hcmd | connectedFailed hcmd =>
          exact absurd hcmd (by simp)
      | accepted hu => split <;> rfl
  | idle | enqueue | workSkip | work | accept | cerExpired | inactiv | orphanExpired =>
      exact absurd hs' hs
  | request hr hh => exact hhandled hh.sock
  | answer hr hc hfind hh => exact hhandled hh.sock
  | broke | pendingFailed | pendingRefused | hangupFailed => exact absurd hs' (by simp [reset])
  | pendingDone hu hsock hw =>
      obtain ⟨_, _, hw⟩ := hw
      exact hhandled (Or.inl (hw.frame.1.trans hsock.symm))
  | hangup hu hw =>
      obtain ⟨_, _, hw⟩ := hw
      exact hhandled (Or.inl hw.frame.1)
  | sendReq hu ht hid hw => exact hhandled (Or.inl hw.frame.1)
  | sendRes hu hw => exact hhandled (Or.inl hw.frame.1)
  | reconnExpired ht =>
      refine hhandled (Or.inl ?_)
      split <;> rfl
  | transExpired hfind =>
      refine hhandled (Or.inl ?_)
      dsimp only
      split <;> rfl

/-- Only a request is heard. -/
theorem Step.hears {op : Op} {c c' : Core} {buf : List UInt8} (h : Step op c c') (hop : op = .hears buf) :
    isReqBuf buf = true := by
  cases h with
  | request hr hh =>
      obtain rfl := Op.hears.inj hop
      exact hr
  | exec hp he => cases he <;> exact absurd hop (by simp)
  | _ => exact absurd hop (by simp)

end Core

end Disc.Transport
