import Disc.Client.Threads
import Disc.Lib.Deref
import Disc.Msg.Shortcuts

/-!
# The AVPs an answer does not have

`client_worker` and `session_state_machine` with the message and its AVPs as pointers
that may be null. The server decides what the answer holds: one that does not parse is
told to the session as a timeout, with a null message, and the timeout of a request is
told by the command code of its message; an answer to an authorisation request is asked
for its Result-Code without looking whether there is one.

The states and counters are those of `Disc.Client.Session`, which takes a null pointer for
a fault of its own.
-/

namespace Disc.Client

open Disc.Lib Disc.Msg Disc.Transport

/-- What is followed: the message, and two of its shortcuts. -/
inductive AnswerPtr where
  | msg | authSesState | resCode
deriving Repr, DecidableEq

namespace Answers

section Worker

-- what the memory holds behind the buffer
variable (behind : List UInt8)

/-- `avp2int`: the four bytes at the data of an AVP, which may run over the end of the buffer. -/
def avp2int (h : Heap) (x : Nat) : Res UInt32 := do
  let a ← Res.ofAccess h.cells[x]?
  return UInt32.ofNat (ofBe (((a.data.blk ++ behind).drop a.data.off).take 4))

/-- `msg->auth_ses_state && SESSION_STATE_MAINTAINED==avp2int(msg->auth_ses_state)`. -/
def keepsState (h : Heap) (m : Message) : Deref AnswerPtr Bool :=
  if m.authSesState.isSome then do
    let x ← follow .authSesState m.authSesState
    let n ← avp2int behind h x
    return decide (n = sessionStateMaintained)
  else return false

/-- An authorisation answer that the session waits for. -/
def authAnswer (s : Session) (h : Heap) (m : Message) : Deref AnswerPtr (Ret × Session) := do
  let kept ← keepsState behind h m
  let s := if kept then { s with peerIdentity := .serverStatefull } else s
  let x ← follow .resCode m.resCode
  let code ← avp2int behind h x
  return (.accepted, { s with state := if code = aaaSuccess then .opened else s.prevState })

/-- The events of a session with a stateless server; those left to `Session` read no message. -/
def stateless (s : Session) (event : AaaEvent) (h : Heap) (msg : Option Message) :
    Deref AnswerPtr (Ret × Session) :=
  match event with
  | .authAReceived =>
      match s.state with
      | .pending => do
          let m ← follow .msg msg
          authAnswer behind s h m
      | _ => s.stateless .authAReceived none
  | .sessionReqTimeout | .sendFailed => do
      let m ← follow .msg msg
      let r ← s.stateless event (some (ClientSes.bare m.commandCode))
      return r
  | event => s.stateless event none

/-- `session_state_machine`. -/
def sessionStateMachine (s : Session) (event : AaaEvent) (h : Heap) (msg : Option Message) :
    Deref AnswerPtr (Ret × Session) :=
  match s.peerIdentity with
  | .serverStateless => stateless behind s event h msg
  | _ => s.sessionStateMachine event none

/-- What `Session` sees of a message. -/
def sesMsg (h : Heap) (m : Message) : SesMsg where
  commandCode := m.commandCode
  resCode := m.resCode.bind fun x => (avp2int behind h x).toOption
  authSesState := m.authSesState.bind fun x => (avp2int behind h x).toOption

/-- The module is called when the session has accepted the event. -/
def thenCall (cb : Callback) (r : Ret × Session) : Session × Option Callback :=
  (r.2, if r.1 = .accepted then some cb else none)

/-- `client_worker` and a buffer whose transaction belongs to the session. -/
def clientWorker (mem : TranslateMem) (src : Block) (s : Session) :
    Deref AnswerPtr (Session × Option Callback) :=
  if isReqBuf src.bytes then return (s, none)
  else
    match aaaTranslateMessage mem ⟨[]⟩ src src.bytes.length true with
    | .ok (h, m) =>
        if msgCode src.bytes = stCode.toNat then return (s, none)
        else do
          let event := if msgCode src.bytes = acctCode.toNat then .acctAReceived else .authAReceived
          let r ← sessionStateMachine behind s event h (some m)
          return thenCall .modMsg r
    -- an answer that does not parse is told as a timeout, without a message
    | .error => do
        let r ← sessionStateMachine behind s .sessionReqTimeout ⟨[]⟩ none
        return thenCall .answerTimeout r
    | .fault => (Res.fault : Res (Session × Option Callback))
    | .diverge => (Res.diverge : Res (Session × Option Callback))

end Worker

/--
What an answer has to be like: it parses, and if it is taken for the answer to an
authorisation request that is under way, it has a Result-Code.
-/
def Bearable (mem : TranslateMem) (src : Block) (s : Session) : Prop :=
  isReqBuf src.bytes = true ∨ s.peerIdentity ≠ .serverStateless
    ∨ (aaaTranslateMessage mem ⟨[]⟩ src src.bytes.length true ≠ .error
      ∧ (msgCode src.bytes = stCode.toNat ∨ msgCode src.bytes = acctCode.toNat
        ∨ s.state ≠ .pending
        ∨ ∀ h m, aaaTranslateMessage mem ⟨[]⟩ src src.bytes.length true = .ok (h, m) →
            HasAvp h m 268))

section Worker

variable {behind : List UInt8} {mem : TranslateMem} {src : Block} {s : Session} {h : Heap}
  {m : Message}

theorem noNull_keepsState : NoNull (keepsState behind h m) := by
  unfold keepsState
  split
  · rename_i hsome
    exact (noNull_follow hsome).bind fun x => (noNull_lift _).bind fun n => noNull_pure _
  · exact noNull_pure _

/-- The cell of a shortcut of a decoded message is there. -/
theorem avp2int_ok (hw : WellLinked h m) {c : UInt32} (hc : c ∈ shortcutCodes) {x : Nat}
    (hx : m.shortcut c = some x) : ∃ n, avp2int behind h x = .ok n := by
  obtain ⟨ids, -, hr⟩ := hw
  have hcode := ((hr c hc).2 x hx).2
  unfold avp2int
  cases hcell : h.cells[x]? with
  | none => simp [Heap.code, Heap.body, hcell] at hcode
  | some a => exact ⟨_, rfl⟩

theorem keepsState_eq (hw : WellLinked h m) :
    (keepsState behind h m).run
      = .ok (.ok (decide ((sesMsg behind h m).authSesState = some sessionStateMaintained))) := by
  unfold keepsState sesMsg
  cases hs : m.authSesState with
  | none => rfl
  | some x =>
      obtain ⟨n, hn⟩ : ∃ n, avp2int behind h x = .ok n :=
        avp2int_ok (c := 277) hw (by decide) hs
      simp only [Option.bind_some, hn, Res.toOption, Option.some.injEq]
      rw [Option.isSome_some, if_pos rfl, follow_some]
      show (do let n ← avp2int behind h x; return decide (n = sessionStateMaintained) :
        Deref AnswerPtr Bool).run = _
      rw [hn]
      rfl

/-- **An authorisation answer is asked for its Result-Code.** -/
theorem authAnswer_noNull_iff (hw : WellLinked h m) :
    NoNull (authAnswer behind s h m) ↔ HasAvp h m 268 := by
  have hshort : m.resCode.isSome ↔ HasAvp h m 268 :=
    WellLinked.shortcut_iff (c := 268) hw (by decide)
  rw [← hshort]
  unfold authAnswer
  constructor
  · intro hno
    by_contra hnone
    refine hno .resCode (FollowsNull.after (keepsState_eq hw) ?_)
    rw [Option.not_isSome_iff_eq_none.mp hnone]
    exact followsNull_bind _ _
  · intro hsome
    refine noNull_keepsState.bind fun b => ?_
    exact (noNull_follow hsome).bind fun x => (noNull_lift _).bind fun code => noNull_pure _

/-- What `Session` is left with reads no message. -/
theorem noNull_acctAnswer : NoNull (sessionStateMachine behind s .acctAReceived h (some m)) := by
  unfold sessionStateMachine stateless
  split <;> exact noNull_lift _

theorem authReceived_noNull_iff (hw : WellLinked h m) :
    NoNull (sessionStateMachine behind s .authAReceived h (some m))
      ↔ s.peerIdentity ≠ .serverStateless ∨ s.state ≠ .pending ∨ HasAvp h m 268 := by
  unfold sessionStateMachine
  cases hid : s.peerIdentity with
  | serverStateless =>
      simp only [stateless]
      cases hs : s.state with
      | pending =>
          show NoNull (authAnswer behind s h m) ↔ _
          rw [authAnswer_noNull_iff hw]
          simp
      | _ => exact iff_of_true (noNull_lift _) (Or.inr (Or.inl (by simp)))
  | _ => exact iff_of_true (noNull_lift _) (Or.inl (by simp))

theorem authAnswer_session (hw : WellLinked h m) (hs : s.state = .pending) {x : Ret × Session}
    (hrun : (authAnswer behind s h m).run = .ok (.ok x)) :
    s.stateless .authAReceived (some (sesMsg behind h m)) = .ok x := by
  obtain ⟨b, hb, hrun⟩ := deref_bind_ok hrun
  obtain ⟨a, ha, hrun⟩ := deref_bind_ok hrun
  obtain ⟨code, hcode, hrun⟩ := deref_bind_ok hrun
  rw [keepsState_eq hw] at hb
  obtain rfl := Except.ok.inj (Res.ok.inj hb)
  have hres : (sesMsg behind h m).resCode = some code := by
    cases hm : m.resCode with
    | none => rw [hm] at ha; cases ha
    | some y =>
        rw [hm] at ha
        obtain rfl := deref_pure_ok ha
        simp only [sesMsg, hm, Option.bind_some, deref_lift_ok hcode, Res.toOption]
  rw [deref_pure_ok hrun]
  simp only [Session.stateless, hs, Res.ofAccess_some, Res.ok_bind, hres, decide_eq_true_eq]
  rfl

/-- **What is handled is handled as the session decides.** -/
theorem machine_session (hw : WellLinked h m) {e : AaaEvent} {x : Ret × Session}
    (hrun : (sessionStateMachine behind s e h (some m)).run = .ok (.ok x)) :
    s.sessionStateMachine e (some (sesMsg behind h m)) = .ok x := by
  unfold sessionStateMachine at hrun
  unfold Session.sessionStateMachine
  cases hid : s.peerIdentity with
  | serverStateless =>
      simp only [hid] at hrun ⊢
      cases e with
      | authAReceived =>
          simp only [stateless] at hrun
          cases hs : s.state with
          | pending =>
              rw [hs] at hrun
              obtain ⟨m', hm', hrun⟩ := deref_bind_ok hrun
              obtain rfl := deref_pure_ok hm'
              exact authAnswer_session hw hs hrun
          | _ =>
              rw [hs] at hrun
              have hsame := deref_lift_ok hrun
              simp only [Session.stateless, hs] at hsame ⊢
              exact hsame
      | sessionReqTimeout | sendFailed =>
          obtain ⟨m', hm', hrun⟩ := deref_bind_ok hrun
          obtain rfl := deref_pure_ok hm'
          exact deref_lift_ok hrun
      | _ => exact deref_lift_ok hrun
  | _ =>
      simp only [hid] at hrun ⊢
      have hsame := deref_lift_ok hrun
      rw [Session.sessionStateMachine, hid] at hsame
      exact hsame

theorem unparsed_noNull_iff :
    NoNull (sessionStateMachine behind s .sessionReqTimeout h none)
      ↔ s.peerIdentity ≠ .serverStateless := by
  unfold sessionStateMachine
  cases hid : s.peerIdentity with
  | serverStateless =>
      refine iff_of_false (fun hno => hno .msg ?_) (by simp)
      exact followsNull_bind _ _
  | _ => exact iff_of_true (noNull_lift _) (by simp)

/-- Calling the module follows none of the pointers. -/
theorem noNull_thenCall_iff {x : Deref AnswerPtr (Ret × Session)} {cb : Callback} :
    NoNull (do let r ← x; return thenCall cb r) ↔ NoNull x := by
  constructor
  · intro hno k hk
    refine hno k ?_
    show (x.run >>= _) = _
    rw [hk]
    rfl
  · exact fun hno => hno.bind fun _ => noNull_pure _

/--
**An answer is handled without following a null pointer exactly when it parses and, if it is
taken for the answer to an authorisation request that is under way, has a Result-Code.** A
session with a server that keeps state looks at no answer.
-/
theorem clientWorker_noNull_iff (behind : List UInt8) (mem : TranslateMem) (src : Block)
    (s : Session) : NoNull (clientWorker behind mem src s) ↔ Bearable mem src s := by
  unfold clientWorker Bearable
  by_cases hreq : isReqBuf src.bytes = true
  · rw [if_pos hreq]
    exact iff_of_true (noNull_pure _) (Or.inl hreq)
  · rw [if_neg hreq]
    cases hdec : aaaTranslateMessage mem ⟨[]⟩ src src.bytes.length true with
    | ok hm =>
        obtain ⟨h, m⟩ := hm
        have hw := decoded_wellLinked hdec
        simp only
        by_cases hst : msgCode src.bytes = stCode.toNat
        · rw [if_pos hst]
          exact iff_of_true (noNull_pure _) (Or.inr (Or.inr ⟨by simp, Or.inl hst⟩))
        · rw [if_neg hst]
          rw [noNull_thenCall_iff]
          by_cases hac : msgCode src.bytes = acctCode.toNat
          · rw [if_pos hac]
            exact iff_of_true noNull_acctAnswer (Or.inr (Or.inr ⟨by simp, Or.inr (Or.inl hac)⟩))
          · rw [if_neg hac, authReceived_noNull_iff hw]
            simp [hreq, hst, hac]
    | error =>
        simp only
        rw [noNull_thenCall_iff, unparsed_noNull_iff]
        simp [hreq]
    | fault => exact iff_of_true (noNull_lift _) (Or.inr (Or.inr ⟨by simp, by simp⟩))
    | diverge => exact iff_of_true (noNull_lift _) (Or.inr (Or.inr ⟨by simp, by simp⟩))

end Worker

/-! ## Two answers -/

/-- An answer to an authorisation request that is a Result-Code, 2001. -/
def successAnswer : List UInt8 :=
  [1, 0, 0, 32, 0, 0, 1, 9, 0, 0, 0, 4, 0, 0, 0, 7, 0, 0, 0, 8,
   0, 0, 1, 12, 0x40, 0, 0, 12, 0, 0, 7, 209]

/-- A session that waits for it. -/
def pendingSession : Session := { createSession with state := .pending }

/-- What the decoder makes of it. -/
def successHeap : Heap := ⟨[cellAt successAnswer 20]⟩

def successMessage : Message :=
  { hdrMessage successAnswer with
    resCode := some 0, head := some 0, tail := some 0, buf := some successAnswer }

theorem clientWorker_noNull_sample :
    NoNull (clientWorker [] .all ⟨2 ^ 24, successAnswer, by decide⟩ pendingSession) := by
  have hdec : aaaTranslateMessage .all ⟨[]⟩ ⟨2 ^ 24, successAnswer, by decide⟩
      successAnswer.length true = .ok (successHeap, successMessage) := by decide +kernel
  refine (clientWorker_noNull_iff _ _ _ _).mpr (Or.inr (Or.inr ⟨?_, Or.inr (Or.inr (Or.inr ?_))⟩))
  · rw [hdec]
    simp
  · intro h m hok
    rw [hdec] at hok
    obtain ⟨rfl, rfl⟩ := Prod.mk.inj (Res.ok.inj hok)
    exact ⟨_, rfl, _, List.mem_singleton.mpr rfl, by decide⟩

/-- A header that gives two as the version. -/
def unparsedAnswer : List UInt8 :=
  [2, 0, 0, 20, 0, 0, 1, 9, 0, 0, 0, 4, 0, 0, 0, 7, 0, 0, 0, 8]

/-- An answer to an authorisation request that is only a header. -/
def bareAnswer : List UInt8 :=
  [1, 0, 0, 20, 0, 0, 1, 9, 0, 0, 0, 4, 0, 0, 0, 7, 0, 0, 0, 8]

/-- The first is no message, in any state; the second has no Result-Code. -/
theorem answers_follow_null :
    FollowsNull (clientWorker [] .all ⟨2 ^ 24, unparsedAnswer, by decide⟩ createSession) .msg
      ∧ FollowsNull (clientWorker [] .all ⟨2 ^ 24, bareAnswer, by decide⟩ pendingSession)
        .resCode := by
  constructor
  · show ExceptT.run _ = _
    decide +kernel
  · show ExceptT.run _ = _
    decide +kernel

end Answers

end Disc.Client
