import Disc.Transport.Wire

/-!
# The session state machine

`session.c`. A session with a stateless server has one authorisation request under way
at most, which is what `PENDING` says, and any number of accounting requests, which are
counted. A session that is ended while answers are still expected is kept until the
last of them is in or given up.

The machine returns 1 when the event was accepted, 0 when the session was destroyed
and -1 when the event does not fit; its callers look at that.
-/

namespace Disc.Client

open Disc.Lib Disc.Transport

/-- `AAA_STATUS`: what the other end of a session is. -/
inductive PeerIdentity where
  | undefined | client | serverStateless | serverStatefull
deriving Repr, DecidableEq

/-- The states of a session. -/
inductive SesState where
  | idle | pending | opened | discon | toDestroy
deriving Repr, DecidableEq

/-- `AAA_EVENTS`. -/
inductive AaaEvent where
  | acctRReceived | acctAReceived | sendingAcctR | sendingAcctA
  | authAReceived | authRReceived | sendingAuthR | sendingAuthA
  | asrReceived | asaReceived | sendingAsr | sendingAsa
  | rarReceived | raaReceived | sendingRar | sendingRaa
  | strReceived | staReceived | sendingStr | sendingSta
  | sessionReqTimeout | sendFailed
deriving Repr, DecidableEq

/-- What the state machine reads of a message: its code, and what two AVPs say if they are there. -/
structure SesMsg where
  commandCode : UInt32
  /-- `avp2int(msg->res_code)`. -/
  resCode : Option UInt32
  /-- `avp2int(msg->auth_ses_state)`. -/
  authSesState : Option UInt32
deriving Repr, DecidableEq

def sessionStateMaintained : UInt32 := 0

/-- The code of an accounting message. -/
def acctCode : UInt32 := 271

/-- `struct session`, as far as its events go. -/
structure Session where
  peerIdentity : PeerIdentity
  state : SesState
  prevState : SesState
  /-- Accounting requests without answer or timeout. -/
  pendingAccts : UInt32
  /-- The session is in the timer list. -/
  timed : Bool
  /-- How often `destroy_session` was called; after the first time the memory is gone. -/
  destroyed : Nat
deriving Repr, DecidableEq

/-- What `session_state_machine` returns: 1, 0 or -1. -/
inductive Ret where
  | accepted | aborted | rejected
deriving Repr, DecidableEq

/-- `create_session`, for a session with a server. -/
def createSession : Session where
  peerIdentity := .serverStateless
  state := .idle
  prevState := .idle
  pendingAccts := 0
  timed := false
  destroyed := 0

namespace Session

/-- `destroy_session`. -/
def destroySession (s : Session) : Session := { s with timed := false, destroyed := s.destroyed + 1 }

/-- A session that is to be destroyed goes when nothing is pending any more. -/
def release (s : Session) (pending : UInt32) : Ret × Session :=
  if pending = 0 then (.aborted, s.destroySession) else (.accepted, s)

/-- What an accounting answer or failure does after it was counted. -/
def acctDone (s : Session) : Ret × Session :=
  if s.state = .toDestroy then
    s.release (s.pendingAccts + if s.prevState = .pending then 1 else 0)
  else (.accepted, s)

/-- The events of a session with a stateless server. -/
def stateless (s : Session) (event : AaaEvent) (msg : Option SesMsg) : Res (Ret × Session) :=
  match event with
  | .sendingAuthR =>
      match s.state with
      | .idle | .opened => .ok (.accepted, { s with prevState := s.state, state := .pending })
      | _ => .ok (.rejected, s)
  | .sendingAcctR =>
      match s.state with
      | .discon | .toDestroy => .ok (.rejected, s)
      | _ => .ok (.accepted, { s with pendingAccts := s.pendingAccts + 1 })
  | .authAReceived =>
      match s.state with
      | .pending => do
          -- the message is read without a check, and so is its result code
          let msg ← Res.ofAccess msg
          let s := if msg.authSesState = some sessionStateMaintained then
            { s with peerIdentity := .serverStatefull } else s
          let code ← Res.ofAccess msg.resCode
          return (.accepted, { s with state := if code = aaaSuccess then .opened else s.prevState })
      | .toDestroy =>
          if s.prevState ≠ .pending then .ok (.rejected, s)
          else .ok (({ s with prevState := .discon } : Session).release s.pendingAccts)
      | _ => .ok (.rejected, s)
  | .acctAReceived =>
      -- only an answer is checked against the counter; a timeout below is not
      if s.pendingAccts = 0 then .ok (.rejected, s)
      else .ok ({ s with pendingAccts := s.pendingAccts - 1 } : Session).acctDone
  | .sessionReqTimeout | .sendFailed => do
      let msg ← Res.ofAccess msg
      if msg.commandCode = acctCode then
        return ({ s with pendingAccts := s.pendingAccts - 1 } : Session).acctDone
      else match s.state with
        | .pending => return (.accepted, { s with state := s.prevState })
        | .toDestroy => return ({ s with prevState := .discon } : Session).release s.pendingAccts
        | _ => return (.rejected, s)
  | _ => .ok (.rejected, s)

/-- `session_state_machine`. -/
def sessionStateMachine (s : Session) (event : AaaEvent) (msg : Option SesMsg) :
    Res (Ret × Session) :=
  match s.peerIdentity with
  | .client => .ok (.accepted, s)
  | .serverStateless => s.stateless event msg
  | .serverStatefull => .ok (.accepted, s)
  | .undefined => .ok (.rejected, s)

/-- `AAAEndSession`, apart from the hash table. -/
def endSession (s : Session) : Session :=
  if s.peerIdentity = .serverStatefull then s
  else if s.state = .pending ∨ s.pendingAccts ≠ 0 then
    { s with prevState := s.state, state := .toDestroy }
  else s.destroySession

/-- An authorisation request of the session is under way. -/
def awaitsAuth (s : Session) : Prop :=
  s.state = .pending ∨ (s.state = .toDestroy ∧ s.prevState = .pending)

end Session

/-! ## What an event can do -/

/-- The two kinds of requests a session counts. -/
inductive Kind where
  | auth | acct
deriving Repr, DecidableEq

/-- The kind of a request, by its command code. -/
def Kind.ofCode (code : UInt32) : Kind := if code = acctCode then .acct else .auth

/-- The event of sending a request. -/
def AaaEvent.sends : AaaEvent → Option Kind
  | .sendingAuthR => some .auth
  | .sendingAcctR => some .acct
  | _ => none

/-- The request that is over with an event: an answer came, it failed to come, or nothing was sent. -/
def AaaEvent.resolves (msg : Option SesMsg) : AaaEvent → Option Kind
  | .authAReceived => some .auth
  | .acctAReceived => some .acct
  | .sessionReqTimeout => msg.map fun m => .ofCode m.commandCode
  | .sendFailed => msg.map fun m => .ofCode m.commandCode
  | _ => none

namespace Session

/-- The ways an event of a session with a stateless server can go. -/
inductive Turn (s : Session) (e : AaaEvent) (msg : Option SesMsg) : Ret × Session → Prop
  | rejected (hauth : e.resolves msg = some .auth → ¬ s.awaitsAuth)
      (hacct : e.resolves msg = some .acct → s.pendingAccts = 0) : Turn s e msg (.rejected, s)
  | authSent (he : e = .sendingAuthR) (hs : s.state = .idle ∨ s.state = .opened) :
      Turn s e msg (.accepted, { s with prevState := s.state, state := .pending })
  | acctSent (he : e = .sendingAcctR) (hs : s.state ≠ .discon ∧ s.state ≠ .toDestroy) :
      Turn s e msg (.accepted, { s with pendingAccts := s.pendingAccts + 1 })
  | authDone {st : SesState} {id : PeerIdentity} (he : e.resolves msg = some .auth)
      (hs : s.state = .pending) (hst : st = .opened ∨ st = s.prevState)
      (hid : id = s.peerIdentity ∨ (e = .authAReceived ∧ ∃ m, msg = some m
        ∧ m.authSesState = some sessionStateMaintained)) :
      Turn s e msg (.accepted, { s with state := st, peerIdentity := id })
  | authEnded (he : e.resolves msg = some .auth) (hs : s.state = .toDestroy)
      (hp : e = .authAReceived → s.prevState = .pending) :
      Turn s e msg (({ s with prevState := .discon } : Session).release s.pendingAccts)
  | acctEnded (he : e.resolves msg = some .acct) (hn : e = .acctAReceived → s.pendingAccts ≠ 0) :
      Turn s e msg ({ s with pendingAccts := s.pendingAccts - 1 } : Session).acctDone

/-- A request that timed out or could not be sent. -/
theorem turn_failed {s : Session} {e : AaaEvent} {msg : Option SesMsg} {x : Ret × Session}
    (he : e = .sessionReqTimeout ∨ e = .sendFailed) (h : s.stateless e msg = .ok x) :
    Turn s e msg x := by
  have hne : e ≠ .authAReceived ∧ e ≠ .acctAReceived := by
    rcases he with rfl | rfl <;> exact ⟨by decide, by decide⟩
  have hres : e.resolves msg = msg.map fun m => .ofCode m.commandCode := by
    rcases he with rfl | rfl <;> rfl
  -- the two events share one branch of the switch
  have h : (do
      let msg ← Res.ofAccess msg
      if msg.commandCode = acctCode then
        return ({ s with pendingAccts := s.pendingAccts - 1 } : Session).acctDone
      else match s.state with
        | .pending => return (.accepted, { s with state := s.prevState })
        | .toDestroy => return ({ s with prevState := .discon } : Session).release s.pendingAccts
        | _ => return (.rejected, s) : Res (Ret × Session)) = .ok x := by
    rcases he with rfl | rfl <;> exact h
  obtain ⟨m, hm, h⟩ := Res.bind_eq_ok h
  cases msg with
  | none => exact absurd hm (by nofun)
  | some m' =>
      obtain rfl := Res.ok.inj hm
      split at h
      · rename_i hc
        obtain rfl := Res.ok.inj h
        refine .acctEnded ?_ (fun heq => absurd heq hne.2)
        simp only [hres, Option.map_some, Kind.ofCode, if_pos hc]
      · rename_i hc
        have hauth : e.resolves (some m') = some .auth := by
          simp only [hres, Option.map_some, Kind.ofCode, if_neg hc]
        split at h
        · rename_i hs
          obtain rfl := Res.ok.inj h
          exact .authDone hauth hs (Or.inr rfl) (Or.inl rfl)
        · rename_i hs
          obtain rfl := Res.ok.inj h
          exact .authEnded hauth hs (fun heq => absurd heq hne.1)
        · rename_i hp hd
          obtain rfl := Res.ok.inj h
          refine .rejected (fun _ => ?_) (fun hk => absurd (hauth.symm.trans hk) (by decide))
          rintro (hs | ⟨hs, -⟩)
          · exact hp hs
          · exact hd hs

/-- **What an event can do.** -/
theorem stateless_turn {s : Session} {e : AaaEvent} {msg : Option SesMsg} {x : Ret × Session}
    (h : s.stateless e msg = .ok x) : Turn s e msg x := by
  cases e with
  | sendingAuthR =>
      simp only [stateless] at h
      split at h
      · rename_i hs
        obtain rfl := Res.ok.inj h
        exact .authSent rfl (Or.inl hs)
      · rename_i hs
        obtain rfl := Res.ok.inj h
        exact .authSent rfl (Or.inr hs)
      · obtain rfl := Res.ok.inj h
        exact .rejected (by simp [AaaEvent.resolves]) (by simp [AaaEvent.resolves])
  | sendingAcctR =>
      simp only [stateless] at h
      split at h
      · obtain rfl := Res.ok.inj h
        exact .rejected (by simp [AaaEvent.resolves]) (by simp [AaaEvent.resolves])
      · obtain rfl := Res.ok.inj h
        exact .rejected (by simp [AaaEvent.resolves]) (by simp [AaaEvent.resolves])
      · rename_i hd ht
        obtain rfl := Res.ok.inj h
        exact .acctSent rfl ⟨hd, ht⟩
  | authAReceived =>
      simp only [stateless] at h
      split at h
      · rename_i hs
        obtain ⟨m, hmsg, h⟩ := Res.bind_eq_ok h
        obtain ⟨code, -, h⟩ := Res.bind_eq_ok h
        obtain rfl := Res.ok.inj h
        have hmsg : msg = some m := by
          cases msg with
          | none => exact absurd hmsg (by nofun)
          | some m' => exact congrArg some (Res.ok.inj hmsg)
        -- a server that keeps state is remembered as such, whatever the result code
        by_cases hm : m.authSesState = some sessionStateMaintained
        · simp only [if_pos hm]
          exact .authDone rfl hs (by split <;> simp) (Or.inr ⟨rfl, m, hmsg, hm⟩)
        · simp only [if_neg hm]
          exact .authDone rfl hs (by split <;> simp) (Or.inl rfl)
      · rename_i hs
        split at h
        · rename_i hp
          obtain rfl := Res.ok.inj h
          refine .rejected (fun _ => ?_) (by simp [AaaEvent.resolves])
          rintro (hs' | ⟨-, hp'⟩)
          · exact absurd (hs.symm.trans hs') (by decide)
          · exact hp hp'
        · rename_i hp
          obtain rfl := Res.ok.inj h
          exact .authEnded rfl hs (fun _ => by_contra hp)
      · rename_i hp hd
        obtain rfl := Res.ok.inj h
        refine .rejected (fun _ => ?_) (by simp [AaaEvent.resolves])
        rintro (hs | ⟨hs, -⟩)
        · exact hp hs
        · exact hd hs
  | acctAReceived =>
      simp only [stateless] at h
      split at h
      · rename_i hn
        obtain rfl := Res.ok.inj h
        exact .rejected (by simp [AaaEvent.resolves]) (fun _ => hn)
      · rename_i hn
        obtain rfl := Res.ok.inj h
        exact .acctEnded rfl (fun _ => hn)
  | sessionReqTimeout => exact turn_failed (Or.inl rfl) h
  | sendFailed => exact turn_failed (Or.inr rfl) h
  | _ =>
      obtain rfl := Res.ok.inj h
      exact .rejected (by simp [AaaEvent.resolves]) (by simp [AaaEvent.resolves])

theorem turn_of_identity {s : Session} {e : AaaEvent} {msg : Option SesMsg} {x : Ret × Session}
    (hid : s.peerIdentity = .serverStateless) (h : s.sessionStateMachine e msg = .ok x) :
    Turn s e msg x := by
  unfold sessionStateMachine at h
  rw [hid] at h
  exact stateless_turn h

theorem release_ne_rejected (s : Session) (n : UInt32) : (s.release n).1 ≠ .rejected := by
  unfold release
  split <;> simp

theorem acctDone_ne_rejected (s : Session) : s.acctDone.1 ≠ .rejected := by
  unfold acctDone
  split
  · exact release_ne_rejected _ _
  · simp

theorem identity_release (s : Session) (n : UInt32) :
    (s.release n).2.peerIdentity = s.peerIdentity := by
  unfold release
  split <;> rfl

/-- Only an answer that says so makes the server a stateful one. -/
theorem Turn.identity {s : Session} {e : AaaEvent} {msg : Option SesMsg} {x : Ret × Session}
    (h : Turn s e msg x) (hm : e = .authAReceived → s.state = .pending →
      ∀ m, msg = some m → m.authSesState ≠ some sessionStateMaintained) :
    x.2.peerIdentity = s.peerIdentity := by
  cases h with
  | rejected | authSent | acctSent => rfl
  | authDone he hs hst hid =>
      rcases hid with hid | ⟨he, m, hmsg, hsaid⟩
      · exact hid
      · exact absurd hsaid (hm he hs m hmsg)
  | authEnded => exact identity_release _ _
  | acctEnded =>
      unfold acctDone
      split
      · exact identity_release _ _
      · rfl

/-- An event that is rejected leaves the session as it is. -/
theorem Turn.of_rejected {s s' : Session} {e : AaaEvent} {msg : Option SesMsg}
    (h : Turn s e msg (.rejected, s')) : s' = s := by
  generalize hx : (Ret.rejected, s') = x at h
  cases h with
  | rejected => exact congrArg Prod.snd hx
  | authSent | acctSent | authDone => exact absurd (congrArg Prod.fst hx) (by simp)
  | authEnded => exact absurd (congrArg Prod.fst hx).symm (release_ne_rejected _ _)
  | acctEnded => exact absurd (congrArg Prod.fst hx).symm (acctDone_ne_rejected _)

/-- **Rejected events** change nothing, whoever the other end is. -/
theorem eq_of_rejected {s s' : Session} {e : AaaEvent} {msg : Option SesMsg}
    (h : s.sessionStateMachine e msg = .ok (.rejected, s')) : s' = s := by
  unfold sessionStateMachine at h
  split at h
  · exact absurd (congrArg Prod.fst (Res.ok.inj h)) (by simp)
  · exact (stateless_turn h).of_rejected
  · exact absurd (congrArg Prod.fst (Res.ok.inj h)) (by simp)
  · exact (congrArg Prod.snd (Res.ok.inj h)).symm

end Session

/-- An event is about a request that is sent or about one that is over, not about both. -/
theorem AaaEvent.sends_of_resolves {e : AaaEvent} {msg : Option SesMsg} {k : Kind}
    (h : e.resolves msg = some k) : e.sends = none := by
  cases e with
  | sendingAuthR | sendingAcctR => exact absurd h (by simp [AaaEvent.resolves])
  | _ => rfl

end Disc.Client
