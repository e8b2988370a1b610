import Disc.Client.Threads

/-!
# Callbacks and the end of a session

The module is called when the state machine returns 1. For a session that was ended it
returns 0 with the last answer, which destroys the session, but 1 with every answer or
timeout before that. So the module is not called any more if one request at most is
under way when it ends the session; and the session timer, and a thread that is about
to call, are not stopped by the end either.
-/

namespace Disc.Client

open Disc.Lib

namespace ClientSes

/--
The session is ended when nothing calls the module any more: no callback is under way,
the timer of a session that is kept does not run, and there is no request, or a single
one, which is the one the session waits for.
-/
def quietEnd (c : ClientSes) : ClientAct → Bool
  | .endSession => c.ses.peerIdentity = .serverStateless && c.jobs.all (·.request.isSome)
      && match c.requests with
        | [] => !c.ses.timed || (c.ses.state ≠ .pending && c.ses.pendingAccts = 0)
        | [code] => !c.ses.timed && if code = acctCode then c.ses.state ≠ .pending && c.ses.pendingAccts = 1
            else c.ses.state = .pending && c.ses.pendingAccts = 0
        | _ => false
  | _ => true

/-- The request is the one the session waits for. -/
def Awaited (s : Session) (code : UInt32) : Prop :=
  if code = acctCode then s.prevState ≠ .pending ∧ s.pendingAccts = 1
  else s.prevState = .pending ∧ s.pendingAccts = 0

/-- A session that was ended and has nothing left to say. -/
inductive Quiet (c : ClientSes) : Prop
  | gone (hr : c.requests = []) (hd : c.ses.destroyed ≠ 0) (ht : c.ses.timed = false)
  | none (hr : c.requests = []) (hs : c.ses.state = .toDestroy)
      (hid : c.ses.peerIdentity = .serverStateless) (ht : c.ses.timed = false)
  | one {code : UInt32} (hr : c.requests = [code]) (hs : c.ses.state = .toDestroy)
      (hid : c.ses.peerIdentity = .serverStateless) (ht : c.ses.timed = false) (hw : Awaited c.ses code)

theorem Quiet.timed {c : ClientSes} (h : Quiet c) : c.ses.timed = false := by
  cases h with
  | gone _ _ ht => exact ht
  | none _ _ _ ht => exact ht
  | one _ _ _ ht => exact ht

/-- Only the session and the requests matter, wherever these are. -/
theorem Quiet.of_perm {c c' : ClientSes} (h : Quiet c) (hs : c'.ses = c.ses)
    (hp : c.requests.Perm c'.requests) : Quiet c' := by
  cases h with
  | gone hr hd ht => exact .gone (List.nil_perm.mp (hr ▸ hp)) (hs ▸ hd) (hs ▸ ht)
  | none hr hst hid ht => exact .none (List.nil_perm.mp (hr ▸ hp)) (hs ▸ hst) (hs ▸ hid) (hs ▸ ht)
  | one hr hst hid ht hw =>
      exact .one (List.singleton_perm.mp (hr ▸ hp)).symm (hs ▸ hst) (hs ▸ hid) (hs ▸ ht) (hs ▸ hw)

/-! ## The last request -/

/-- A session that was ended accepts no request. -/
theorem rejected_sendEvent {s ses : Session} {code : UInt32} {msg : Option SesMsg} {r : Ret}
    (hs : s.state = .toDestroy) (hid : s.peerIdentity = .serverStateless)
    (h : s.sessionStateMachine (sendEvent code) msg = .ok (r, ses)) : r = .rejected ∧ ses = s := by
  have hres := (resolves_sendEvent code msg).1
  have ht := Session.turn_of_identity hid h
  generalize hx : (r, ses) = x at ht
  cases ht with
  | rejected => exact Prod.mk.inj hx
  | authSent he hs' => rcases hs' with hs' | hs' <;> exact absurd (hs.symm.trans hs') (by decide)
  | acctSent he hs' => exact absurd hs hs'.2
  | authDone he | authEnded he | acctEnded he => exact absurd (hres.symm.trans he) (by simp)

/-- What the session is told about a request that failed names its kind. -/
theorem Tells.kind {job : Job} {code : UInt32} {e : AaaEvent} {msg : Option SesMsg} {k : Kind}
    (h : Tells job e msg) (hr : job.request = some code) (he : e.resolves msg = some k) :
    e = .authAReceived ∨ e = .acctAReceived ∨ k = .ofCode code := by
  cases h with
  | unsent =>
      obtain rfl := Option.some.inj hr
      exact Or.inr (Or.inr (Option.some.inj he).symm)
  | timeout =>
      obtain rfl := Option.some.inj hr
      exact Or.inr (Or.inr (Option.some.inj he).symm)
  | unparsed hm => exact absurd he (by simp [AaaEvent.resolves])
  | answer hm hc =>
      unfold answerEvent
      split
      · exact Or.inr (Or.inl rfl)
      · exact Or.inl rfl

/-- The last request of a session that was ended: it is destroyed, or nothing happens. -/
theorem last_told {s ses : Session} {job : Job} {code : UInt32} {e : AaaEvent} {msg : Option SesMsg}
    {r : Ret} (ht : Tells job e msg) (hr : job.request = some code) (hs : s.state = .toDestroy)
    (hw : Awaited s code) (h : s.Turn e msg (r, ses)) :
    (r = .rejected ∧ ses = s) ∨ (r = .aborted ∧ ses.destroyed ≠ 0 ∧ ses.timed = false) := by
  have hgone : ∀ t : Session, (r, ses) = t.release 0 →
      r = .aborted ∧ ses.destroyed ≠ 0 ∧ ses.timed = false := by
    intro t hx
    rw [Session.release, if_pos rfl] at hx
    obtain ⟨rfl, rfl⟩ := Prod.mk.inj hx
    exact ⟨rfl, Nat.succ_ne_zero _, rfl⟩
  generalize hx : (r, ses) = x at h
  -- the other kinds of turn need a state the session has left
  cases h with
  | rejected => exact Or.inl (Prod.mk.inj hx)
  | authSent he hs' => rcases hs' with hs' | hs' <;> exact absurd (hs.symm.trans hs') (by decide)
  | acctSent he hs' => exact absurd hs hs'.2
  | authDone he hs' => exact absurd (hs.symm.trans hs') (by decide)
  | authEnded he hs' hp =>
      by_cases hc : code = acctCode
      -- an accounting request does not end an authorisation: the answer was of the wrong kind
      · rw [Awaited, if_pos hc] at hw
        rcases ht.kind hr he with hk | hk | hk
        · exact absurd (hp hk) hw.1
        · rw [hk] at he
          exact absurd he (by simp [AaaEvent.resolves])
        · exact absurd hk (by simp [Kind.ofCode, hc])
      · rw [Awaited, if_neg hc] at hw
        rw [hw.2] at hx
        exact Or.inr (hgone _ hx)
  | acctEnded he hn =>
      by_cases hc : code = acctCode
      · rw [Awaited, if_pos hc] at hw
        rw [Session.acctDone, if_pos hs, if_neg hw.1, hw.2] at hx
        exact Or.inr (hgone _ hx)
      · rw [Awaited, if_neg hc] at hw
        rcases ht.kind hr he with hk | hk | hk
        · rw [hk] at he
          exact absurd he (by simp [AaaEvent.resolves])
        · exact absurd hw.2 (hn hk)
        · exact absurd hk (by simp [Kind.ofCode, hc])

/-! ## Runs -/

/-- No callback was invoked after the end, and none will be. -/
structure Silent (c : ClientSes) : Prop where
  calls : ∀ x ∈ c.calls, x.2 = false
  jobs : c.ended = true → ∀ job ∈ c.jobs, job.request.isSome = true
  quiet : c.ended = true → Quiet c

/-- Before the end nothing is asked. -/
theorem Silent.before {c : ClientSes} (he : c.ended = false) (hc : ∀ x ∈ c.calls, x.2 = false) :
    Silent c :=
  ⟨hc, fun he' => absurd (he.symm.trans he') (by decide), fun he' => absurd (he.symm.trans he') (by decide)⟩

theorem Quiet.ofEnd {c : ClientSes} (h : c.quietEnd .endSession = true) :
    Quiet { c with ses := c.ses.endSession, ended := true } := by
  simp only [quietEnd, Bool.and_eq_true, decide_eq_true_eq] at h
  obtain ⟨⟨hid, -⟩, h⟩ := h
  have hend : c.ses.endSession = if c.ses.state = .pending ∨ c.ses.pendingAccts ≠ 0 then
      { c.ses with prevState := c.ses.state, state := .toDestroy } else c.ses.destroySession := by
    unfold Session.endSession
    rw [if_neg (by rw [hid]; decide)]
  have hreq : ({ c with ses := c.ses.endSession, ended := true } : ClientSes).requests = c.requests := rfl
  -- `quietEnd` admits no request, or one that the session waits for
  split at h
  · rename_i hr
    by_cases hp : c.ses.state = .pending ∨ c.ses.pendingAccts ≠ 0
    · rw [if_pos hp] at hend
      have ht : c.ses.timed = false := by
        rcases Bool.or_eq_true_iff.mp h with h | h
        · simpa using h
        · simp only [Bool.and_eq_true, decide_eq_true_eq] at h
          rcases hp with hp | hp
          · exact absurd hp h.1
          · exact absurd h.2 hp
      exact .none hr (by rw [hend]) (by rw [hend]; exact hid) (by rw [hend]; exact ht)
    · rw [if_neg hp] at hend
      exact .gone hr (by rw [hend]; exact Nat.succ_ne_zero _) (by rw [hend]; rfl)
  · rename_i code hr
    simp only [Bool.and_eq_true, Bool.not_eq_true'] at h
    obtain ⟨ht, h⟩ := h
    have hp : c.ses.state = .pending ∨ c.ses.pendingAccts ≠ 0 := by
      split at h
      · simp only [Bool.and_eq_true, decide_eq_true_eq] at h
        exact Or.inr (by rw [h.2]; decide)
      · simp only [Bool.and_eq_true, decide_eq_true_eq] at h
        exact Or.inl h.1
    rw [if_pos hp] at hend
    refine .one hr (by rw [hend]) (by rw [hend]; exact hid) (by rw [hend]; exact ht) ?_
    rw [hend, Awaited]
    split at h
    · rename_i hc
      rw [if_pos hc]
      simpa using h
    · rename_i hc
      rw [if_neg hc]
      simpa using h
  · exact absurd h (by decide)

/-- A step after the end. -/
theorem Silent.stepEnded {c c' : ClientSes} {a : ClientAct} (h : Silent c) (he : c.ended = true)
    (hst : Stepped c a c') : Silent c' := by
  have hq := h.quiet he
  have hj := h.jobs he
  have hold : ∀ {jobs : List Job}, (∀ job ∈ jobs, job ∈ c.jobs) →
      ∀ job ∈ jobs, job.request.isSome = true := fun hsub job hjob => hj job (hsub job hjob)
  have herase : ∀ i, ∀ job ∈ c.jobs.eraseIdx i, job ∈ c.jobs :=
    fun i job hjob => (List.eraseIdx_sublist ..).subset hjob
  cases hst with
  | unsent => exact h
  | @asked code mem r ses hal hsm =>
      -- the session takes no new request after the end
      have hrej : r = .rejected ∧ ses = c.ses := by
        cases hq with
        | gone hr hd => exact absurd (show c.ses.destroyed = 0 by simpa [alive] using hal) hd
        | none hr hs hid => exact rejected_sendEvent hs hid hsm
        | one hr hs hid => exact rejected_sendEvent hs hid hsm
      obtain ⟨rfl, rfl⟩ := hrej
      simp only [reduceCtorEq, if_false, List.append_nil]
      exact h
  | @linked i code hji =>
      exact ⟨h.calls, fun _ => hold (herase i), fun _ => hq.of_perm rfl (requests_linked hji)⟩
  | @taken _ i code job hl hr =>
      refine ⟨h.calls, fun _ => ?_, fun _ => hq.of_perm rfl (requests_taken hl hr)⟩
      intro job' hjob
      rcases List.mem_append.mp hjob with hjob | hjob
      · exact hj job' hjob
      · rw [List.mem_singleton.mp hjob, hr]
        rfl
  | @swallowed i code ans hl hd =>
      have hp := requests_swallowed hl
      have hmem : code ∈ c.requests := hp.mem_iff.mpr List.mem_cons_self
      refine ⟨h.calls, fun _ => hj, fun _ => ?_⟩
      cases hq with
      | gone hnil => exact absurd hmem (by rw [hnil]; simp)
      | none hnil => exact absurd hmem (by rw [hnil]; simp)
      | one hone hs hid htimed hw =>
          obtain rfl : code = _ := List.mem_singleton.mp (hone ▸ hmem)
          rw [hone] at hp
          exact .none (List.nil_perm.mp hp.cons_inv) hs hid htimed
  | @told _ i job e msg r ses next ha hal hji ht hsm hn =>
      obtain ⟨code, hr⟩ := Option.isSome_iff_exists.mp (hj job (List.mem_of_getElem? hji))
      have hmem := mem_requests hji hr
      cases hq with
      | gone hnil => exact absurd hmem (by rw [hnil]; simp)
      | none hnil => exact absurd hmem (by rw [hnil]; simp)
      | one hone hs hid htimed hw =>
          obtain rfl : code = _ := List.mem_singleton.mp (hone ▸ hmem)
          have hlast := last_told ht hr hs hw (Session.turn_of_identity hid hsm)
          -- the module is called only when the session accepts the event, which it does not here
          have hnext : next = [] := by
            rcases hn with hn | ⟨hacc, -⟩
            · exact hn
            · rcases hlast with ⟨hl, -⟩ | ⟨hl, -⟩ <;> exact absurd (hacc.symm.trans hl) (by decide)
          subst hnext
          have hnil : ({ c with ses, jobs := c.jobs.eraseIdx i ++ [] } : ClientSes).requests = [] := by
            have hp := requests_done hji hr ses [] rfl
            rw [hone] at hp
            exact List.nil_perm.mp hp.cons_inv
          refine ⟨h.calls, fun _ => ?_, fun _ => ?_⟩
          · rw [List.append_nil]
            exact hold (herase i)
          · rcases hlast with ⟨-, rfl⟩ | ⟨-, hd, htd⟩
            · exact .none hnil hs hid htimed
            · exact .gone hnil hd htd
  | @dropped i code ans hji hc =>
      have hmem := mem_requests hji rfl
      have hp := requests_done hji rfl c.ses [] rfl
      rw [List.append_nil] at hp
      refine ⟨h.calls, fun _ => hold (herase i), fun _ => ?_⟩
      cases hq with
      | gone hnil => exact absurd hmem (by rw [hnil]; simp)
      | none hnil => exact absurd hmem (by rw [hnil]; simp)
      | one hone hs hid htimed hw =>
          obtain rfl : code = _ := List.mem_singleton.mp (hone ▸ hmem)
          rw [hone] at hp
          exact .none (List.nil_perm.mp hp.cons_inv) hs hid htimed
  | called hji => exact absurd (hj _ (List.mem_of_getElem? hji)) (by simp [Job.request])
  | ended hal he' => exact absurd (he.symm.trans he') (by decide)
  | timer he' => exact absurd (he.symm.trans he') (by decide)
  | fired ht => exact absurd (hq.timed.symm.trans ht) (by decide)

theorem Silent.step {c c' : ClientSes} {a : ClientAct} (h : Silent c) (hok : c.quietEnd a = true)
    (hst : c.step a = some c') : Silent c' := by
  have hs := step_stepped hst
  cases he : c.ended with
  | true => exact h.stepEnded he hs
  | false =>
      cases hs with
      | unsent => exact h
      | ended =>
          refine ⟨h.calls, fun _ => ?_, fun _ => Quiet.ofEnd hok⟩
          simp only [quietEnd, Bool.and_eq_true] at hok
          exact List.all_eq_true.mp hok.1.2
      | called hj =>
          refine .before he fun x hx => ?_
          rcases List.mem_append.mp hx with hx | hx
          · exact h.calls x hx
          · rw [List.mem_singleton.mp hx]
            exact he
      | asked | linked | taken | swallowed | told | dropped | timer | fired => exact .before he h.calls

/--
**The module is not called after it has ended the session**, in every run in which the
session is ended when nothing calls the module any more.
-/
theorem silent_after_end {c : ClientSes} (h : Runs quietEnd c) : ∀ x ∈ c.calls, x.2 = false := by
  have hi : Silent c := by
    refine Reach.invariant (I := Silent) ?_ ?_ h
    · rintro c rfl
      exact .before rfl (by simp [start])
    · intro c a c' hi hok hst
      exact hi.step hok hst
  exact hi.calls

/-- A request is answered and told to the module; the session is ended while another is under way. -/
def sampleLast : List ClientAct :=
  [.send 265 true, .sent 0 true, .answer 0 ⟨265, some ⟨265, some 2001, none⟩⟩, .handle 0, .call 0,
   .send 271 true, .sent 0 true, .endSession, .expire 0, .handle 0]

theorem silent_after_end_last :
    ∃ c, Runs quietEnd c ∧ c.ended = true ∧ c.ses.destroyed = 1 ∧ c.calls.length = 1
      ∧ ∀ x ∈ c.calls, x.2 = false := by
  obtain ⟨c, hr, hf⟩ := @Runs.of_trace _ quietEnd sampleLast
    (fun c => (c.ended, c.ses.destroyed, c.calls.length)) (true, 1, 1) (by decide)
  simp only [Prod.mk.injEq] at hf
  obtain ⟨he, hd, hl⟩ := hf
  exact ⟨c, hr, he, hd, hl, silent_after_end hr⟩

/-- Two accounting requests are under way when the session is ended, and one is answered. -/
theorem called_after_end :
    ∃ c, Runs (fun _ _ => true) c ∧ (Callback.modMsg, true) ∈ c.calls := by
  obtain ⟨c, hr, hf⟩ := @Runs.of_trace _ (fun _ _ => true)
    [.send 271 true, .sent 0 true, .send 271 true, .sent 0 true, .endSession,
     .answer 0 ⟨271, some ⟨271, some 2001, none⟩⟩, .handle 0, .call 0]
    (fun c => c.calls) [(.modMsg, true)] (by decide)
  exact ⟨c, hr, by rw [hf]; exact List.mem_singleton.mpr rfl⟩

end ClientSes

end Disc.Client
