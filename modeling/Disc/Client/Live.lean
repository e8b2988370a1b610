import Disc.Client.Pending
import Disc.Client.Threads

/-!
# What a session counts, and its transactions

The books of a session are kept here by the client itself: a request is under way as
long as it is a transaction or in the hands of a thread. Every step of the client is an
event of the session with its books, or it leaves both alone, as long as the answers
are of the kind of the requests they answer and none has a code the peers keep for
themselves. So what holds of the books holds of the
client, and when no thread is in the middle of something the requests under way are the
transactions.
-/

namespace Disc.Client

open Disc.Lib

namespace ClientSes

/-- How many of the requests are of this kind. -/
def count (codes : List UInt32) (k : Kind) : Nat := codes.countP fun code => Kind.ofCode code = k

/-- The session and its requests, as the books have them. -/
def books (c : ClientSes) : Books where
  ses := c.ses
  auths := count c.requests .auth
  accts := count c.requests .acct
  ended := c.ended

theorem count_perm {l l' : List UInt32} (h : l.Perm l') (k : Kind) : count l k = count l' k :=
  h.countP_eq _

theorem count_cons (code : UInt32) (l : List UInt32) (k : Kind) :
    count (code :: l) k = count l k + if Kind.ofCode code = k then 1 else 0 := by
  simp [count, List.countP_cons]

theorem ofCode_eq_acct {code : UInt32} : Kind.ofCode code = .acct ↔ code = acctCode := by
  unfold Kind.ofCode
  split <;> simp_all

/-- The books depend on the requests and not on where they are. -/
theorem books_perm {c : ClientSes} {ses : Session} {live : List UInt32} {jobs : List Job}
    {calls : List (Callback × Bool)}
    (h : c.requests.Perm ({ c with live, jobs } : ClientSes).requests) :
    ({ c with ses, live, jobs, calls } : ClientSes).books = { c.books with ses } := by
  have hr : ({ c with ses, live, jobs, calls } : ClientSes).requests
      = ({ c with live, jobs } : ClientSes).requests := rfl
  simp only [books, hr, ← count_perm h]

/-- A request is over. -/
theorem books_done {c c' : ClientSes} {code : UInt32} (h : c.requests.Perm (code :: c'.requests))
    (he : c'.ended = c.ended) :
    c'.books = ({ c.books with ses := c'.ses } : Books).resolved (some (.ofCode code)) := by
  have hcount : ∀ k, count c.requests k = count c'.requests k + if Kind.ofCode code = k then 1 else 0 :=
    fun k => (count_perm h k).trans (count_cons code _ k)
  cases hk : Kind.ofCode code with
  | auth => simp [books, Books.resolved, hcount, hk, he]
  | acct => simp [books, Books.resolved, hcount, hk, he]

theorem has_request {c : ClientSes} {code : UInt32} (h : code ∈ c.requests) :
    c.books.has (some (.ofCode code)) = true := by
  have hpos : ∀ k, Kind.ofCode code = k → count c.requests k ≠ 0 := by
    intro k hk
    exact Nat.pos_iff_ne_zero.mp (List.countP_pos_iff.mpr ⟨code, h, by simp [hk]⟩)
  cases hk : Kind.ofCode code with
  | auth => exact decide_eq_true (hpos _ hk)
  | acct => exact decide_eq_true (hpos _ hk)

/-! ## Runs with proper answers -/

/-- An answer that is handled now is of the kind of its request, and does not ask for a stateful server. -/
def properAnswer (c : ClientSes) (code : UInt32) (ans : Answer) : Bool :=
  decide (ans.code = acctCode ↔ code = acctCode) && decide (ans.code ≠ stCode)
  && (code = acctCode || ans.msg.any fun m => m.resCode.isSome
      && (c.ses.state ≠ .pending || decide (m.authSesState ≠ some sessionStateMaintained)))
  && ans.msg.isSome

/-- The steps the books can follow. -/
def proper (c : ClientSes) : ClientAct → Bool
  | .handle i =>
      match c.jobs[i]? with
      | some (.answered code ans) => c.properAnswer code ans
      | _ => true
  | .send code _ => code ≠ acctCode || count c.requests .acct + 1 < 2 ^ 32
  | .answer _ ans => !isDispatched ans.code
  | _ => true

/-- The client and its books agree. -/
structure Sound (c : ClientSes) : Prop where
  inv : Books.Inv c.books
  identity : c.ses.peerIdentity = .serverStateless

theorem sound_start : Sound start := ⟨Books.inv_start, rfl⟩

theorem destroyed_of_alive {c : ClientSes} (h : c.alive = true) : c.ses.destroyed = 0 := by
  simpa [alive] using h

/-- Sending is accepted or rejected; it does not end anything. -/
theorem Turn.sending {s : Session} {e : AaaEvent} {msg : Option SesMsg} {r : Ret} {ses : Session}
    (h : s.Turn e msg (r, ses)) (he : e.resolves msg = none) : r = .accepted ∨ r = .rejected := by
  generalize hx : (r, ses) = x at h
  cases h with
  | rejected => exact Or.inr (congrArg Prod.fst hx)
  | authSent | acctSent => exact Or.inl (congrArg Prod.fst hx)
  | authDone h' | authEnded h' | acctEnded h' => exact absurd (he.symm.trans h') (by simp)

theorem Sound.asked {c : ClientSes} {code : UInt32} {r : Ret} {ses : Session} (h : Sound c)
    (hroom : code = acctCode → count c.requests .acct + 1 < 2 ^ 32) (hal : c.alive = true)
    (hsm : c.ses.sessionStateMachine (sendEvent code) (some (bare code)) = .ok (r, ses)) :
    Sound { c with ses, jobs := c.jobs ++ if r = .accepted then [.sending code] else [] } := by
  have ht := Session.turn_of_identity h.identity hsm
  obtain ⟨hres, hsend⟩ := resolves_sendEvent code (some (bare code))
  have hroom' : c.books.room (.event (sendEvent code) (some (bare code))) = true := by
    unfold sendEvent
    split
    · rename_i hc
      exact decide_eq_true (hroom hc)
    · rfl
  have hi := h.inv.turn (destroyed_of_alive hal) (by rw [hres]; rfl) hroom' ht
  rw [hres, hsend] at hi
  have hid : ses.peerIdentity = .serverStateless := by
    refine (ht.identity fun he => ?_).trans h.identity
    exact absurd (congrArg (AaaEvent.resolves (some (bare code))) he)
      (by rw [hres]; simp [AaaEvent.resolves])
  rcases Turn.sending ht hres with rfl | rfl
  · refine ⟨?_, hid⟩
    -- one request more, at the end of the jobs
    have hperm : (code :: c.requests).Perm (c.requests ++ [code]) :=
      (List.perm_append_singleton code c.requests).symm
    have hreq : ({ c with ses, jobs := c.jobs ++ [.sending code] } : ClientSes).requests
        = c.requests ++ [code] := by
      simp [requests, Job.request]
    have hb : ({ c with ses, jobs := c.jobs ++ [.sending code] } : ClientSes).books
        = ({ c.books with ses } : Books).sent (some (.ofCode code)) := by
      have hcount : ∀ k, count (c.requests ++ [code]) k
          = count c.requests k + if Kind.ofCode code = k then 1 else 0 :=
        fun k => (count_perm hperm k).symm.trans (count_cons code _ k)
      cases hk : Kind.ofCode code with
      | auth => simp [books, Books.sent, hreq, hcount, hk]
      | acct => simp [books, Books.sent, hreq, hcount, hk]
    rw [if_pos rfl, hb]
    exact hi
  · refine ⟨?_, hid⟩
    simp only [reduceCtorEq, if_false, List.append_nil]
    exact hi

/-- A request is over, and the session was told what it is about. -/
theorem Sound.told {c : ClientSes} {i : Nat} {job : Job} {code : UInt32} {e : AaaEvent}
    {msg : Option SesMsg} {r : Ret} {ses : Session} {next : List Job} (h : Sound c)
    (hal : c.alive = true) (hj : c.jobs[i]? = some job) (hr : job.request = some code)
    (hres : e.resolves msg = some (.ofCode code))
    (hsm : c.ses.sessionStateMachine e msg = .ok (r, ses)) (hnext : next.filterMap Job.request = [])
    (hm : e = .authAReceived → c.ses.state = .pending →
      ∀ m, msg = some m → m.authSesState ≠ some sessionStateMaintained) :
    Sound { c with ses, jobs := c.jobs.eraseIdx i ++ next } := by
  have ht := Session.turn_of_identity h.identity hsm
  have hroom : c.books.room (.event e msg) = true := by
    cases e with
    | sendingAcctR => exact absurd hres (by simp [AaaEvent.resolves])
    | _ => rfl
  have hi := h.inv.turn (destroyed_of_alive hal)
    (by rw [hres]; exact has_request (mem_requests hj hr)) hroom ht
  rw [AaaEvent.sends_of_resolves hres, hres] at hi
  refine ⟨?_, (ht.identity hm).trans h.identity⟩
  rw [books_done (requests_done hj hr ses next hnext) rfl]
  split at hi
  · exact hi
  · exact hi

/-- What a proper answer is, spelt out. -/
theorem properAnswer_iff {c : ClientSes} {code : UInt32} {ans : Answer} :
    c.properAnswer code ans = true ↔ (ans.code = acctCode ↔ code = acctCode) ∧ ans.code ≠ stCode
      ∧ ∃ m, ans.msg = some m ∧ (code ≠ acctCode → m.resCode.isSome = true
        ∧ (c.ses.state = .pending → m.authSesState ≠ some sessionStateMaintained)) := by
  cases hm : ans.msg with
  | none => simp [properAnswer, hm]
  | some m =>
      simp only [properAnswer, hm, Option.any_some, Option.isSome_some, Bool.and_true, Bool.and_eq_true,
        Bool.or_eq_true, decide_eq_true_eq, and_assoc, Option.some.injEq, exists_eq_left']
      refine and_congr_right fun _ => and_congr_right fun _ => ?_
      by_cases hc : code = acctCode
      · simp [hc]
      · by_cases hp : c.ses.state = .pending
        · simp [hc, hp]
        · simp [hc, hp]

theorem Sound.step {c c' : ClientSes} {a : ClientAct} (h : Sound c) (hok : c.proper a = true)
    (hst : c.step a = some c') : Sound c' := by
  cases step_stepped hst with
  | unsent => exact h
  | @asked code mem r ses hal hsm =>
      refine h.asked (fun hc => ?_) hal hsm
      simpa [proper, hc] using hok
  | linked hj => exact ⟨books_perm (requests_linked hj) ▸ h.inv, h.identity⟩
  | taken hl hr => exact ⟨books_perm (requests_taken hl hr) ▸ h.inv, h.identity⟩
  | swallowed hl hd => exact absurd hd (by simpa [proper] using hok)
  | @told _ i job e msg r ses next ha hal hj ht hsm hn =>
      have hnext : next.filterMap Job.request = [] := by
        rcases hn with rfl | ⟨-, cb, rfl⟩
        · rfl
        · rfl
      cases ht with
      | unsent => exact h.told hal hj rfl rfl hsm hnext (by simp)
      | timeout => exact h.told hal hj rfl rfl hsm hnext (by simp)
      -- an answer that does not parse is not proper
      | @unparsed code ans hm =>
          rcases ha with rfl | rfl
          · have hp : c.properAnswer code ans = true := by simpa only [proper, hj] using hok
            obtain ⟨-, -, m, hm', -⟩ := properAnswer_iff.mp hp
            exact absurd (hm.symm.trans hm') (by simp)
          · simp only [ClientSes.step, hj] at hst
            exact absurd hst (by simp)
      | @answer code ans m hm hc =>
          rcases ha with rfl | rfl
          · have hp : c.properAnswer code ans = true := by simpa only [proper, hj] using hok
            obtain ⟨hkind, -, m', hm', hauth⟩ := properAnswer_iff.mp hp
            obtain rfl := Option.some.inj (hm.symm.trans hm')
            -- the kind of the answer is that of the request, so it ends what the request began
            have hcode : Kind.ofCode ans.code = Kind.ofCode code := by simp only [Kind.ofCode, hkind]
            refine h.told hal hj rfl ?_ hsm hnext ?_
            · rw [resolves_answerEvent, hcode]
            · intro he hs m' hm'
              obtain rfl := Option.some.inj hm'
              have hne : code ≠ acctCode := by
                intro hcc
                rw [answerEvent, if_pos (hkind.mpr hcc)] at he
                exact absurd he (by decide)
              exact (hauth hne).2 hs
          · simp only [ClientSes.step, hj] at hst
            exact absurd hst (by simp)
  | @dropped i code ans hj hc =>
      have hp : c.properAnswer code ans = true := by simpa only [proper, hj] using hok
      exact absurd hc (properAnswer_iff.mp hp).2.1
  | called hj => exact ⟨books_perm (requests_called hj) ▸ h.inv, h.identity⟩
  | ended hal he =>
      refine ⟨h.inv.endSession (destroyed_of_alive hal) he h.identity, ?_⟩
      have hid : c.ses.endSession.peerIdentity = c.ses.peerIdentity := by
        unfold Session.endSession
        split
        · rfl
        · split
          · rfl
          · rfl
      exact hid.trans h.identity
  | @timer _ t he => exact ⟨h.inv.timed t, h.identity⟩
  | fired ht =>
      refine ⟨?_, h.identity⟩
      have hreq : ({ c with ses := { c.ses with timed := false }, jobs := c.jobs ++ [.calling .sessionTimeout] } :
          ClientSes).requests = c.requests := by simp [requests, Job.request]
      simp only [books, hreq]
      exact h.inv.timed false

theorem sound_runs {c : ClientSes} (h : Runs proper c) : Sound c := by
  refine Reach.invariant (I := Sound) ?_ ?_ h
  · rintro c rfl
    exact sound_start
  · intro c a c' hi hok hst
    exact hi.step hok hst

/-! ## When nothing is half done -/

/-- Nothing but callbacks is under way. -/
theorem requests_settled {c : ClientSes} (h : ∀ job ∈ c.jobs, job.request = none) :
    c.requests = c.live := by
  have hnil : c.jobs.filterMap Job.request = [] := List.filterMap_eq_nil_iff.mpr h
  rw [requests, hnil, List.append_nil]

/-- A session with a request under way is there. -/
theorem Sound.alive {c : ClientSes} (h : Sound c) {code : UInt32} (hc : code ∈ c.requests) :
    c.alive = true := by
  have hhas := has_request hc
  refine decide_eq_true ?_
  cases h.inv.phase with
  | settled hd => exact hd
  | pending hd => exact hd
  | ending hd => exact hd
  | gone hd he hs ha hn =>
      cases hk : Kind.ofCode code with
      | auth => simp [hk, Books.has, ha] at hhas
      | acct => simp [hk, Books.has, hn] at hhas

/-- The state machine takes a proper answer. -/
theorem stateless_answer {s : Session} {code : UInt32} {m : SesMsg}
    (h : code ≠ acctCode → m.resCode.isSome = true) :
    ∃ x, s.stateless (answerEvent code) (some m) = .ok x := by
  unfold answerEvent
  split
  · simp only [Session.stateless]
    split
    · exact ⟨_, rfl⟩
    · exact ⟨_, rfl⟩
  · rename_i hc
    obtain ⟨res, hres⟩ := Option.isSome_iff_exists.mp (h hc)
    simp only [Session.stateless, Res.ofAccess_some, Res.ok_bind, hres, Res.pure_eq]
    split
    · exact ⟨_, rfl⟩
    · split
      · exact ⟨_, rfl⟩
      · exact ⟨_, rfl⟩
    · exact ⟨_, rfl⟩

theorem tell_ok {c : ClientSes} {i : Nat} {e : AaaEvent} {msg : Option SesMsg} {cb : Callback}
    {x : Ret × Session} (h : c.ses.sessionStateMachine e msg = .ok x) :
    ∃ c', c.tell i e msg cb = .ok c' := by
  unfold tell
  rw [h, Res.ok_bind]
  dsimp only
  split
  · exact ⟨_, rfl⟩
  · exact ⟨_, rfl⟩

/--
**The session counts its transactions** in every run with proper answers.

When no send, answer or timeout is half done, `pending_accts` is the number of
accounting transactions, and the session waits for an authorisation answer exactly when
there is an authorisation transaction. And a proper answer to a transaction is always
taken up by the session.
-/
theorem live_counted {c : ClientSes} (h : Runs proper c) :
    ((∀ job ∈ c.jobs, job.request = none) →
      c.ses.pendingAccts.toNat = c.live.countP (· = acctCode)
      ∧ ((c.ses.state = .pending ∨ (c.ses.state = .toDestroy ∧ c.ses.prevState = .pending))
        ↔ ∃ code ∈ c.live, code ≠ acctCode))
    ∧ ∀ i code ans, c.jobs[i]? = some (.answered code ans) → c.properAnswer code ans = true →
      ∃ c', c.step (.handle i) = some c' := by
  have hs := sound_runs h
  refine ⟨fun hq => ?_, fun i code ans hj hp => ?_⟩
  -- with no request in the hands of a thread the books are those of the transactions
  · have hreq := requests_settled hq
    refine ⟨?_, ?_⟩
    · have hc := hs.inv.accts
      simp only [books, hreq, count, ofCode_eq_acct] at hc
      exact hc
    · refine hs.inv.phase.awaitsAuth.trans ?_
      simp only [books, hreq, count]
      rw [← Nat.pos_iff_ne_zero, List.countP_pos_iff]
      refine exists_congr fun code => and_congr_right fun _ => ?_
      unfold Kind.ofCode
      split <;> simp_all
  · obtain ⟨hkind, hst, m, hm, hauth⟩ := properAnswer_iff.mp hp
    -- a request that is not over keeps the session alive
    have hal : c.alive = true := hs.alive (mem_requests hj rfl)
    obtain ⟨x, hx⟩ := @stateless_answer c.ses ans.code m fun hc => (hauth fun hcc => hc (hkind.mpr hcc)).1
    have hsm : c.ses.sessionStateMachine (answerEvent ans.code) (some m) = .ok x := by
      unfold Session.sessionStateMachine
      rw [hs.identity]
      exact hx
    obtain ⟨c', hc'⟩ := tell_ok (i := i) (c := c) hsm
    refine ⟨c', ?_⟩
    simp only [step, hal, if_true, hj, clientWorker, hm, if_neg hst]
    rw [hc']
    rfl

/-- Two requests are with a peer, and the accounting request is answered. -/
def sampleAnswered : List ClientAct :=
  [.send 265 true, .sent 0 true, .send 271 true, .sent 0 true,
   .answer 1 ⟨271, some ⟨271, some 2001, none⟩⟩, .handle 0]

theorem live_counted_answered :
    ∃ c, Runs proper c ∧ c.live = [265] ∧ (∀ job ∈ c.jobs, job.request = none)
      ∧ c.ses.pendingAccts.toNat = c.live.countP (· = acctCode) ∧ c.ses.state = .pending := by
  obtain ⟨c, hr, hf⟩ := @Runs.of_trace _ proper sampleAnswered
    (fun c => (c.live, c.jobs, c.ses.state)) ([265], [.calling .modMsg], .pending) (by decide)
  simp only [Prod.mk.injEq] at hf
  obtain ⟨hl, hj, hs⟩ := hf
  have hq : ∀ job ∈ c.jobs, job.request = none := by
    rw [hj]
    simp [Job.request]
  exact ⟨c, hr, hl, hq, ((live_counted hr).1 hq).1, hs⟩

/--
An accounting request is answered by a message with another code. The session takes it
for an authorisation answer and rejects it: the transaction is gone and the request is
pending forever.
-/
theorem live_miscounted :
    ∃ c, Runs (fun _ _ => true) c ∧ c.jobs = [] ∧ c.live = [] ∧ c.ses.destroyed = 0
      ∧ c.ses.pendingAccts.toNat = 1 := by
  obtain ⟨c, hr, hf⟩ := @Runs.of_trace _ (fun _ _ => true)
    [.send 271 true, .sent 0 true, .answer 0 ⟨265, some ⟨265, some 2001, none⟩⟩, .handle 0]
    (fun c => (c.jobs, c.live, c.ses.destroyed, c.ses.pendingAccts.toNat)) ([], [], 0, 1) (by decide)
  simp only [Prod.mk.injEq] at hf
  obtain ⟨hj, hl, hd, hp⟩ := hf
  exact ⟨c, hr, hj, hl, hd, hp⟩

end ClientSes

end Disc.Client
