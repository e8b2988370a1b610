import Disc.Client.Session
import Disc.Lib.Run
import Mathlib.Data.List.Perm.Basic

/-!
# A client and one of its sessions

`AAASendMessage` of `sender.c`, `client_worker` of `client.c`, `timeout_handler` of
`trans.c` and the session timer, as far as they concern one session. Each of them works
in steps, between which the others run: a request is announced to the session before it
is handed to a peer, a transaction is taken out of the hash table before the session is
told about the answer or the timeout, and the module is called after that. An answer
with one of the codes the peers use among themselves takes its transaction along too,
in `dispatch_message` of `peer.c`, but it goes no further.

What is left of a thread between two of its steps is a `Job`.
-/

namespace Disc.Client

open Disc.Lib

/-- An answer: the code in its header, and the message it parses to. -/
structure Answer where
  code : UInt32
  msg : Option SesMsg
deriving Repr, DecidableEq

/-- `ST_MSG_CODE`. -/
def stCode : UInt32 := 275

/-- The functions of the module. -/
inductive Callback where
  | modMsg
  /-- `mod_tout` with `ANSWER_TIMEOUT_EVENT`. -/
  | answerTimeout
  /-- `mod_tout` with `SESSION_TIMEOUT_EVENT`. -/
  | sessionTimeout
deriving Repr, DecidableEq

/-- What a thread is in the middle of; a request is named by its command code. -/
inductive Job where
  /-- The session knows of the request, which is handed to the peers. -/
  | sending (code : UInt32)
  /-- The transaction of the request is gone, and the session is to be told about the answer. -/
  | answered (code : UInt32) (ans : Answer)
  /-- The same for a timeout. -/
  | expired (code : UInt32)
  /-- The module is to be called. -/
  | calling (cb : Callback)
deriving Repr, DecidableEq

/-- The request a job is about. -/
def Job.request : Job → Option UInt32
  | .sending code => some code
  | .answered code _ => some code
  | .expired code => some code
  | .calling _ => none

/-- A session, its transactions and the threads that deal with it. -/
structure ClientSes where
  ses : Session
  /-- The transactions in the hash tables of the peers, by the command code in `info`. -/
  live : List UInt32
  jobs : List Job
  /-- `AAAEndSession` was called. -/
  ended : Bool
  /-- The callbacks that were invoked, and whether the session had been ended by then. -/
  calls : List (Callback × Bool)
deriving Repr, DecidableEq

/-- What can happen next; jobs and transactions are chosen by their place. -/
inductive ClientAct where
  /-- A module sends a request, for which there is memory or not. -/
  | send (code : UInt32) (mem : Bool)
  /-- `send_local_request` returns. -/
  | sent (i : Nat) (ok : Bool)
  /-- An answer to a transaction has come in. -/
  | answer (i : Nat) (ans : Answer)
  /-- `timeout_handler` takes a transaction out. -/
  | expire (i : Nat)
  /-- The session is told about an answer or a timeout. -/
  | handle (i : Nat)
  | call (i : Nat)
  | endSession
  | timerStart
  | timerStop
  /-- `ses_timer_handler` finds the session expired. -/
  | timerFire

namespace ClientSes

def start : ClientSes := { ses := createSession, live := [], jobs := [], ended := false, calls := [] }

/-- Codes a module may not send. -/
def isRefused (code : UInt32) : Bool :=
  code = 257 || code = 280 || code = 282 || code = 274 || code = 275 || code = 258

/-- The codes `dispatch_message` deals with itself, so that no worker ever sees the message. -/
def isDispatched (code : UInt32) : Bool := code = 257 || code = 280 || code = 282

/-- The event of sending a request. -/
def sendEvent (code : UInt32) : AaaEvent := if code = acctCode then .sendingAcctR else .sendingAuthR

/-- The event of an answer, by the answer's own code. -/
def answerEvent (code : UInt32) : AaaEvent := if code = acctCode then .acctAReceived else .authAReceived

/-- The message `ses_trans_timeout_f` makes up, and what `AAASendMessage` has of a request. -/
def bare (code : UInt32) : SesMsg := { commandCode := code, resCode := none, authSesState := none }

/-- `AAASendMessage` up to the point where the session has accepted the request. -/
def send (c : ClientSes) (code : UInt32) (mem : Bool) : Res ClientSes :=
  -- these codes are the library's own
  if isRefused code ∨ !mem then .ok c
  else do
    let (r, ses) ← c.ses.sessionStateMachine (sendEvent code) (some (bare code))
    if r = .accepted then return { c with ses, jobs := c.jobs ++ [.sending code] }
    else return { c with ses }

/-- The session is told, and if it accepts the module is called next. -/
def tell (c : ClientSes) (i : Nat) (e : AaaEvent) (msg : Option SesMsg) (cb : Callback) : Res ClientSes := do
  let (r, ses) ← c.ses.sessionStateMachine e msg
  let c := { c with ses, jobs := c.jobs.eraseIdx i }
  if r = .accepted then return { c with jobs := c.jobs ++ [.calling cb] } else return c

/-- `client_worker` with an answer whose transaction was found. -/
def clientWorker (c : ClientSes) (i : Nat) (ans : Answer) : Res ClientSes :=
  match ans.msg with
  -- an answer that does not parse is told as a timeout, without a message
  | none => c.tell i .sessionReqTimeout none .answerTimeout
  | some msg =>
      if ans.code = stCode then .ok { c with jobs := c.jobs.eraseIdx i }
      else c.tell i (answerEvent ans.code) (some msg) .modMsg

/-- A fault ends the run. -/
def ofRes : Res ClientSes → Option ClientSes
  | .ok c => some c
  | _ => none

/-- The session is still there. -/
def alive (c : ClientSes) : Bool := c.ses.destroyed = 0

/-- One step; a step that needs the session is no step when its memory was freed. -/
def step (c : ClientSes) : ClientAct → Option ClientSes
  | .send code mem => if c.alive then ofRes (c.send code mem) else none
  | .sent i ok =>
      match c.jobs[i]? with
      | some (.sending code) =>
          if ok then some { c with live := c.live ++ [code], jobs := c.jobs.eraseIdx i }
          else if c.alive then ofRes do
            let (_, ses) ← c.ses.sessionStateMachine .sendFailed (some (bare code))
            return { c with ses, jobs := c.jobs.eraseIdx i }
          else none
      | _ => none
  | .answer i ans =>
      match c.live[i]? with
      | some code =>
          -- the transaction is looked up and destroyed either way
          if isDispatched ans.code then some { c with live := c.live.eraseIdx i }
          else some { c with live := c.live.eraseIdx i, jobs := c.jobs ++ [.answered code ans] }
      | none => none
  | .expire i =>
      match c.live[i]? with
      | some code => some { c with live := c.live.eraseIdx i, jobs := c.jobs ++ [.expired code] }
      | none => none
  | .handle i =>
      if c.alive then
        match c.jobs[i]? with
        | some (.answered _ ans) => ofRes (c.clientWorker i ans)
        | some (.expired code) =>
            ofRes (c.tell i .sessionReqTimeout (some (bare code)) .answerTimeout)
        | _ => none
      else none
  | .call i =>
      match c.jobs[i]? with
      | some (.calling cb) =>
          -- the callback runs without the session, which may have been ended meanwhile
          some { c with jobs := c.jobs.eraseIdx i, calls := c.calls ++ [(cb, c.ended)] }
      | _ => none
  | .endSession =>
      if c.alive ∧ !c.ended then some { c with ses := c.ses.endSession, ended := true } else none
  | .timerStart => if c.alive ∧ !c.ended then some { c with ses := { c.ses with timed := true } } else none
  | .timerStop => if c.alive ∧ !c.ended then some { c with ses := { c.ses with timed := false } } else none
  | .timerFire =>
      if c.ses.timed then
        some { c with ses := { c.ses with timed := false }, jobs := c.jobs ++ [.calling .sessionTimeout] }
      else none

/-- The clients of all runs whose steps satisfy `ok`. -/
def Runs (ok : ClientSes → ClientAct → Bool) : ClientSes → Prop :=
  Reach (· = start) step fun c a => ok c a = true

/-- A run that is written out, and something about the client it ends with. -/
theorem Runs.of_trace {β : Type} {ok : ClientSes → ClientAct → Bool} {as : List ClientAct}
    {f : ClientSes → β} {x : β} (h : (trace step ok as start).map f = some x) :
    ∃ c, Runs ok c ∧ f c = x := by
  obtain ⟨c, hc, hf⟩ := Option.map_eq_some_iff.mp h
  exact ⟨c, Reach.trace (.init rfl) hc, hf⟩

/-- The requests that are not over, as transactions or in the hands of a thread. -/
def requests (c : ClientSes) : List UInt32 := c.live ++ c.jobs.filterMap Job.request

/-! ## What a step can do -/

/-- The event a job ends with. -/
inductive Tells : Job → AaaEvent → Option SesMsg → Prop
  | unsent {code : UInt32} : Tells (.sending code) .sendFailed (some (bare code))
  | unparsed {code : UInt32} {ans : Answer} (hm : ans.msg = none) :
      Tells (.answered code ans) .sessionReqTimeout none
  | answer {code : UInt32} {ans : Answer} {msg : SesMsg} (hm : ans.msg = some msg)
      (hc : ans.code ≠ stCode) : Tells (.answered code ans) (answerEvent ans.code) (some msg)
  | timeout {code : UInt32} : Tells (.expired code) .sessionReqTimeout (some (bare code))

/-- The ways a step can go. -/
inductive Stepped (c : ClientSes) : ClientAct → ClientSes → Prop
  /-- `AAASendMessage` gives up early. -/
  | unsent {code : UInt32} {mem : Bool} : Stepped c (.send code mem) c
  /-- The session is asked about a request. -/
  | asked {code : UInt32} {mem : Bool} {r : Ret} {ses : Session} (hal : c.alive = true)
      (h : c.ses.sessionStateMachine (sendEvent code) (some (bare code)) = .ok (r, ses)) :
      Stepped c (.send code mem)
        { c with ses, jobs := c.jobs ++ if r = .accepted then [.sending code] else [] }
  /-- The request is with a peer. -/
  | linked {i : Nat} {code : UInt32} (hj : c.jobs[i]? = some (.sending code)) :
      Stepped c (.sent i true) { c with live := c.live ++ [code], jobs := c.jobs.eraseIdx i }
  /-- A transaction is taken out, to be told to the session. -/
  | taken {a : ClientAct} {i : Nat} {code : UInt32} {job : Job} (hl : c.live[i]? = some code)
      (hr : job.request = some code) :
      Stepped c a { c with live := c.live.eraseIdx i, jobs := c.jobs ++ [job] }
  /-- The peer state machine gets the answer, and the session is told nothing. -/
  | swallowed {i : Nat} {code : UInt32} {ans : Answer} (hl : c.live[i]? = some code)
      (hd : isDispatched ans.code = true) :
      Stepped c (.answer i ans) { c with live := c.live.eraseIdx i }
  /-- The session is told that a request is over. -/
  | told {a : ClientAct} {i : Nat} {job : Job} {e : AaaEvent} {msg : Option SesMsg} {r : Ret}
      {ses : Session} {next : List Job} (ha : a = .handle i ∨ a = .sent i false)
      (hal : c.alive = true) (hj : c.jobs[i]? = some job) (ht : Tells job e msg)
      (h : c.ses.sessionStateMachine e msg = .ok (r, ses))
      (hn : next = [] ∨ (r = .accepted ∧ ∃ cb, next = [.calling cb])) :
      Stepped c a { c with ses, jobs := c.jobs.eraseIdx i ++ next }
  /-- A session termination answer is dropped. -/
  | dropped {i : Nat} {code : UInt32} {ans : Answer} (hj : c.jobs[i]? = some (.answered code ans))
      (hc : ans.code = stCode) : Stepped c (.handle i) { c with jobs := c.jobs.eraseIdx i }
  | called {i : Nat} {cb : Callback} (hj : c.jobs[i]? = some (.calling cb)) :
      Stepped c (.call i)
        { c with jobs := c.jobs.eraseIdx i, calls := c.calls ++ [(cb, c.ended)] }
  | ended (hal : c.alive = true) (he : c.ended = false) :
      Stepped c .endSession { c with ses := c.ses.endSession, ended := true }
  | timer {a : ClientAct} {t : Bool} (he : c.ended = false) :
      Stepped c a { c with ses := { c.ses with timed := t } }
  | fired (ht : c.ses.timed = true) :
      Stepped c .timerFire
        { c with ses := { c.ses with timed := false }, jobs := c.jobs ++ [.calling .sessionTimeout] }

theorem ofRes_eq_some {x : Res ClientSes} {c : ClientSes} (h : ofRes x = some c) : x = .ok c := by
  cases x with
  | ok d => exact congrArg Res.ok (Option.some.inj h)
  | _ => exact absurd h (by simp [ofRes])

theorem stepped_tell {c c' : ClientSes} {a : ClientAct} {i : Nat} {job : Job} {e : AaaEvent}
    {msg : Option SesMsg} {cb : Callback} (ha : a = .handle i ∨ a = .sent i false)
    (hal : c.alive = true) (hj : c.jobs[i]? = some job) (ht : Tells job e msg)
    (h : c.tell i e msg cb = .ok c') : Stepped c a c' := by
  unfold tell at h
  obtain ⟨⟨r, ses⟩, hsm, h⟩ := Res.bind_eq_ok h
  dsimp only at h
  split at h
  · rename_i hr
    obtain rfl := Res.ok.inj h
    exact .told ha hal hj ht hsm (Or.inr ⟨hr, cb, rfl⟩)
  · obtain rfl := Res.ok.inj h
    have hd := Stepped.told ha hal hj ht hsm (Or.inl rfl)
    rw [List.append_nil] at hd
    exact hd

/-- **What a step can do.** -/
theorem step_stepped {c c' : ClientSes} {a : ClientAct} (h : c.step a = some c') : Stepped c a c' := by
  cases a with
  | send code mem =>
      simp only [step] at h
      split at h
      · rename_i hal
        have h := ofRes_eq_some h
        unfold send at h
        split at h
        · obtain rfl := Res.ok.inj h
          exact .unsent
        · obtain ⟨⟨r, ses⟩, hsm, h⟩ := Res.bind_eq_ok h
          -- the session was asked; whether the request goes on depends on what it returned
          have hd : Stepped c (.send code mem) _ := .asked hal hsm
          dsimp only at h
          split at h
          · rename_i hr
            obtain rfl := Res.ok.inj h
            rw [if_pos hr] at hd
            exact hd
          · rename_i hr
            obtain rfl := Res.ok.inj h
            rw [if_neg hr, List.append_nil] at hd
            exact hd
      · exact absurd h (by simp)
  | sent i ok =>
      simp only [step] at h
      split at h
      · rename_i code hj
        cases ok with
        | true =>
            obtain rfl := Option.some.inj h
            exact .linked hj
        | false =>
            simp only [Bool.false_eq_true, if_false] at h
            split at h
            · rename_i hal
              obtain ⟨⟨r, ses⟩, hsm, h⟩ := Res.bind_eq_ok (ofRes_eq_some h)
              obtain rfl := Res.ok.inj h
              have hd := Stepped.told (Or.inr rfl) hal hj .unsent hsm (Or.inl rfl)
              rw [List.append_nil] at hd
              exact hd
            · exact absurd h (by simp)
      · exact absurd h (by simp)
  | answer i ans =>
      simp only [step] at h
      split at h
      · rename_i code hl
        split at h
        · rename_i hd
          obtain rfl := Option.some.inj h
          exact .swallowed hl hd
        · obtain rfl := Option.some.inj h
          exact .taken hl rfl
      · exact absurd h (by simp)
  | expire i =>
      simp only [step] at h
      split at h
      · rename_i code hl
        obtain rfl := Option.some.inj h
        exact .taken hl rfl
      · exact absurd h (by simp)
  | handle i =>
      simp only [step] at h
      split at h
      · rename_i hal
        split at h
        · rename_i code ans hj
          have h := ofRes_eq_some h
          unfold clientWorker at h
          split at h
          · rename_i hm
            exact stepped_tell (Or.inl rfl) hal hj (.unparsed hm) h
          · rename_i msg hm
            split at h
            · rename_i hc
              obtain rfl := Res.ok.inj h
              exact .dropped hj hc
            · rename_i hc
              exact stepped_tell (Or.inl rfl) hal hj (.answer hm hc) h
        · rename_i code hj
          exact stepped_tell (Or.inl rfl) hal hj .timeout (ofRes_eq_some h)
        · exact absurd h (by simp)
      · exact absurd h (by simp)
  | call i =>
      simp only [step] at h
      split at h
      · rename_i cb hj
        obtain rfl := Option.some.inj h
        exact .called hj
      · exact absurd h (by simp)
  | endSession =>
      simp only [step] at h
      split at h
      · rename_i hg
        obtain rfl := Option.some.inj h
        exact .ended hg.1 (by simpa using hg.2)
      · exact absurd h (by simp)
  | timerStart =>
      simp only [step] at h
      split at h
      · rename_i hg
        obtain rfl := Option.some.inj h
        exact .timer (by simpa using hg.2)
      · exact absurd h (by simp)
  | timerStop =>
      simp only [step] at h
      split at h
      · rename_i hg
        obtain rfl := Option.some.inj h
        exact .timer (by simpa using hg.2)
      · exact absurd h (by simp)
  | timerFire =>
      simp only [step] at h
      split at h
      · rename_i ht
        obtain rfl := Option.some.inj h
        exact .fired ht
      · exact absurd h (by simp)

theorem resolves_sendEvent (code : UInt32) (msg : Option SesMsg) :
    (sendEvent code).resolves msg = none ∧ (sendEvent code).sends = some (.ofCode code) := by
  unfold sendEvent Kind.ofCode
  split <;> exact ⟨rfl, rfl⟩

theorem resolves_answerEvent (code : UInt32) (msg : Option SesMsg) :
    (answerEvent code).resolves msg = some (.ofCode code) := by
  unfold answerEvent Kind.ofCode
  split <;> rfl

/-! ## Requests on the way -/

variable {c : ClientSes} {i : Nat} {code : UInt32} {job : Job}

/-- A job that is done takes its request with it. -/
theorem requests_done (hj : c.jobs[i]? = some job) (hr : job.request = some code) (ses : Session)
    (next : List Job) (hn : next.filterMap Job.request = []) :
    c.requests.Perm (code :: ({ c with ses, jobs := c.jobs.eraseIdx i ++ next } : ClientSes).requests) := by
  obtain ⟨hlt, hget⟩ := List.getElem?_eq_some_iff.mp hj
  have hp : (job :: c.jobs.eraseIdx i).Perm c.jobs := hget ▸ List.getElem_cons_eraseIdx_perm hlt
  have hf := (hp.filterMap Job.request).symm
  rw [List.filterMap_cons_some hr] at hf
  simp only [requests, List.filterMap_append, hn, List.append_nil]
  exact (hf.append_left c.live).trans List.perm_middle

/-- A transaction that is taken out is in the hands of a thread. -/
theorem requests_taken (hl : c.live[i]? = some code) (hr : job.request = some code) :
    c.requests.Perm
      ({ c with live := c.live.eraseIdx i, jobs := c.jobs ++ [job] } : ClientSes).requests := by
  obtain ⟨hlt, hget⟩ := List.getElem?_eq_some_iff.mp hl
  have hp : (code :: c.live.eraseIdx i).Perm c.live := hget ▸ List.getElem_cons_eraseIdx_perm hlt
  simp only [requests, List.filterMap_append, List.filterMap_cons_some hr, List.filterMap_nil]
  rw [← List.append_assoc]
  refine (hp.symm.append_right _).trans ?_
  rw [List.cons_append]
  exact (List.perm_append_singleton code _).symm

/-- A transaction that is taken out and told to nobody. -/
theorem requests_swallowed (hl : c.live[i]? = some code) :
    c.requests.Perm (code :: ({ c with live := c.live.eraseIdx i } : ClientSes).requests) := by
  obtain ⟨hlt, hget⟩ := List.getElem?_eq_some_iff.mp hl
  have hp : (code :: c.live.eraseIdx i).Perm c.live := hget ▸ List.getElem_cons_eraseIdx_perm hlt
  exact hp.symm.append_right _

/-- A request that was sent is with a peer. -/
theorem requests_linked (hj : c.jobs[i]? = some (.sending code)) :
    c.requests.Perm
      ({ c with live := c.live ++ [code], jobs := c.jobs.eraseIdx i } : ClientSes).requests := by
  have hd := requests_done hj rfl c.ses [] rfl
  rw [List.append_nil] at hd
  refine hd.trans ?_
  simp only [requests, List.append_assoc, List.singleton_append]
  exact List.perm_middle.symm

/-- A callback is about no request. -/
theorem requests_called {cb : Callback} (hj : c.jobs[i]? = some (.calling cb)) :
    c.requests.Perm ({ c with jobs := c.jobs.eraseIdx i } : ClientSes).requests := by
  obtain ⟨hlt, hget⟩ := List.getElem?_eq_some_iff.mp hj
  have hp : (.calling cb :: c.jobs.eraseIdx i).Perm c.jobs := hget ▸ List.getElem_cons_eraseIdx_perm hlt
  have hf := (hp.filterMap Job.request).symm
  rw [List.filterMap_cons_none rfl] at hf
  exact hf.append_left c.live

theorem mem_requests (hj : c.jobs[i]? = some job) (hr : job.request = some code) :
    code ∈ c.requests := by
  have hmem := List.mem_of_getElem? hj
  exact List.mem_append_right _ (List.mem_filterMap.mpr ⟨job, hmem, hr⟩)

end ClientSes

end Disc.Client
