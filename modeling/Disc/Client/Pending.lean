import Disc.Client.Session
import Disc.Lib.Run

/-!
# What a session counts

The requests of a session that are neither answered nor given up are counted here from
the outside, and the session counts them in `state`, `prev_state` and `pending_accts`.
As long as every event about a request follows the sending of that request, the two
agree, and the session is destroyed when it was ended and nothing is pending.

`pending_accts` has 32 bits, so this needs that never `2 ^ 32` accounting requests are
pending at once.
-/

namespace Disc.Client

open Disc.Lib

/-- A session, and its requests counted from the outside. -/
structure Books where
  ses : Session
  /-- Authorisation requests that were sent and are not over. -/
  auths : Nat
  accts : Nat
  /-- `AAAEndSession` was called. -/
  ended : Bool
deriving Repr, DecidableEq

/-- The events of a session, and its end. -/
inductive BooksAct where
  | event (e : AaaEvent) (msg : Option SesMsg)
  | endSession

namespace Books

def start : Books := { ses := createSession, auths := 0, accts := 0, ended := false }

/-- A request was sent. -/
def sent (b : Books) : Option Kind → Books
  | some .auth => { b with auths := b.auths + 1 }
  | some .acct => { b with accts := b.accts + 1 }
  | none => b

/-- A request is over. -/
def resolved (b : Books) : Option Kind → Books
  | some .auth => { b with auths := b.auths - 1 }
  | some .acct => { b with accts := b.accts - 1 }
  | none => b

/-- One event or the end; a session whose memory was freed has no events. -/
def step (b : Books) (a : BooksAct) : Option Books :=
  if b.ses.destroyed ≠ 0 then none
  else match a with
    | .event e msg =>
        match b.ses.sessionStateMachine e msg with
        | .ok (r, ses) =>
            let b := { b with ses }
            some ((if r = .rejected then b else b.sent e.sends).resolved (e.resolves msg))
        | _ => none
    | .endSession => some { b with ses := b.ses.endSession, ended := true }

/-- Is a request of this kind under way? -/
def has (b : Books) : Option Kind → Bool
  | some .auth => b.auths ≠ 0
  | some .acct => b.accts ≠ 0
  | none => true

/--
Events about a request follow the sending of one of its kind, the session is ended once,
and the server stays stateless.
-/
def matched (b : Books) (a : BooksAct) : Bool :=
  (match a with
    | .event e msg => b.has (e.resolves msg)
    | .endSession => !b.ended)
  && (b.step a).all fun b' => b'.ses.peerIdentity = .serverStateless

/-- There is room for another accounting request. -/
def room (b : Books) : BooksAct → Bool
  | .event .sendingAcctR _ => b.accts + 1 < 2 ^ 32
  | _ => true

/-- The books of all runs whose steps satisfy `ok`. -/
def Runs (ok : Books → BooksAct → Bool) : Books → Prop :=
  Reach (· = start) step fun b a => ok b a = true

/-- A run that is written out, and something about the books it ends with. -/
theorem Runs.of_trace {β : Type} {ok : Books → BooksAct → Bool} {as : List BooksAct} {f : Books → β}
    {x : β} (h : (trace step ok as start).map f = some x) : ∃ b, Runs ok b ∧ f b = x := by
  obtain ⟨b, hb, hf⟩ := Option.map_eq_some_iff.mp h
  exact ⟨b, Reach.trace (.init rfl) hb, hf⟩

/-- Where the session is between its start and its end. -/
inductive Phase (b : Books) : Prop
  | settled (hd : b.ses.destroyed = 0) (he : b.ended = false)
      (hs : b.ses.state = .idle ∨ b.ses.state = .opened) (ha : b.auths = 0)
  | pending (hd : b.ses.destroyed = 0) (he : b.ended = false) (hs : b.ses.state = .pending)
      (hp : b.ses.prevState = .idle ∨ b.ses.prevState = .opened) (ha : b.auths = 1)
  | ending (hd : b.ses.destroyed = 0) (he : b.ended = true) (hs : b.ses.state = .toDestroy)
      (ha : b.auths = if b.ses.prevState = .pending then 1 else 0) (hn : b.auths ≠ 0 ∨ b.accts ≠ 0)
  | gone (hd : b.ses.destroyed = 1) (he : b.ended = true) (hs : ¬ b.ses.awaitsAuth)
      (ha : b.auths = 0) (hn : b.accts = 0)

/-- The session agrees with the books. -/
structure Inv (b : Books) : Prop where
  accts : b.ses.pendingAccts.toNat = b.accts
  phase : Phase b

theorem inv_start : Inv start :=
  ⟨rfl, .settled rfl rfl (Or.inl rfl) rfl⟩

theorem Phase.awaitsAuth {b : Books} (h : Phase b) : b.ses.awaitsAuth ↔ b.auths ≠ 0 := by
  cases h with
  | settled hd he hs ha => rcases hs with hs | hs <;> simp [Session.awaitsAuth, hs, ha]
  | pending hd he hs hp ha => simp [Session.awaitsAuth, hs, ha]
  | ending hd he hs ha hn => simp [Session.awaitsAuth, hs, ha]
  | gone hd he hs ha hn => simp [hs, ha]

theorem Phase.destroyed {b : Books} (h : Phase b) :
    b.ses.destroyed = if b.ended ∧ b.auths = 0 ∧ b.accts = 0 then 1 else 0 := by
  cases h with
  | settled hd he hs ha => simp [hd, he]
  | pending hd he hs hp ha => simp [hd, he]
  | ending hd he hs ha hn =>
      rw [hd, if_neg]
      rintro ⟨-, ha, hc⟩
      rcases hn with hn | hn
      · exact hn ha
      · exact hn hc
  | gone hd he hs ha hn => simp [hd, he, ha, hn]

/-! ## The counter -/

theorem toNat_succ {n : UInt32} {k : Nat} (h : n.toNat = k) (hk : k + 1 < 2 ^ 32) :
    (n + 1).toNat = k + 1 := by
  rw [UInt32.toNat_add, h]
  exact Nat.mod_eq_of_lt hk

theorem toNat_pred {n : UInt32} {k : Nat} (h : n.toNat = k) (hk : k ≠ 0) :
    (n - 1).toNat = k - 1 := by
  have hlt := n.toNat_lt
  rw [UInt32.toNat_sub, h]
  simp only [UInt32.reduceToNat]
  omega

theorem eq_zero_iff {n : UInt32} {k : Nat} (h : n.toNat = k) : n = 0 ↔ k = 0 := by
  rw [← h, ← UInt32.toNat_inj]
  rfl

/-! ## Steps -/

/-- A session that is to be destroyed loses a request: it goes, or it still waits for another. -/
theorem inv_release {b : Books} {s : Session} {n : UInt32} {auths accts : Nat}
    (hd : s.destroyed = 0) (he : b.ended = true) (hs : s.state = .toDestroy)
    (hc : s.pendingAccts.toNat = accts) (ha : auths = if s.prevState = .pending then 1 else 0)
    (hn : n = 0 ↔ auths = 0 ∧ accts = 0) :
    Inv { b with ses := (s.release n).2, auths, accts } := by
  unfold Session.release
  split
  · rename_i hz
    obtain ⟨ha0, hc0⟩ := hn.mp hz
    refine ⟨hc, .gone (by simp [Session.destroySession, hd]) he ?_ ha0 hc0⟩
    rintro (hp | ⟨-, hp⟩)
    · exact absurd (hs.symm.trans hp) (by decide)
    · have hp : s.prevState = .pending := hp
      rw [if_pos hp] at ha
      omega
  · rename_i hz
    refine ⟨hc, .ending hd he hs ha ?_⟩
    by_contra hno
    push Not at hno
    exact hz (hn.mpr hno)

/-- The session did not change, and no request is over. -/
theorem Inv.rejected {b : Books} {e : AaaEvent} {msg : Option SesMsg} (h : Inv b)
    (hm : b.has (e.resolves msg) = true) (hauth : e.resolves msg = some .auth → ¬ b.ses.awaitsAuth)
    (hacct : e.resolves msg = some .acct → b.ses.pendingAccts = 0) : Inv (b.resolved (e.resolves msg)) := by
  cases hk : e.resolves msg with
  | none => exact h
  | some k =>
      rw [hk] at hm
      cases k with
      | auth =>
          have ha : b.auths ≠ 0 := by simpa [has] using hm
          exact absurd (h.phase.awaitsAuth.mpr ha) (hauth hk)
      | acct =>
          have hc : b.accts ≠ 0 := by simpa [has] using hm
          exact absurd ((eq_zero_iff h.accts).mp (hacct hk)) hc

/-- An accounting request is over. -/
theorem Inv.acctEnded {b : Books} (h : Inv b) (hlive : b.ses.destroyed = 0) (hc : b.accts ≠ 0) :
    Inv { b with ses := ({ b.ses with pendingAccts := b.ses.pendingAccts - 1 } : Session).acctDone.2
                 accts := b.accts - 1 } := by
  have hpred := toNat_pred h.accts hc
  unfold Session.acctDone
  cases h.phase with
  | settled hd he hs ha =>
      have hne : b.ses.state ≠ .toDestroy := by rcases hs with hs | hs <;> rw [hs] <;> decide
      rw [if_neg hne]
      exact ⟨hpred, .settled hd he hs ha⟩
  | pending hd he hs hp ha =>
      have hne : b.ses.state ≠ .toDestroy := by rw [hs]; decide
      rw [if_neg hne]
      exact ⟨hpred, .pending hd he hs hp ha⟩
  | ending hd he hs ha hn =>
      rw [if_pos hs]
      refine inv_release hd he hs hpred ha ?_
      -- the sum does not wrap, since a request has just been taken off
      have hlt := b.ses.pendingAccts.toNat_lt
      have hacc := h.accts
      rw [← UInt32.toNat_inj, UInt32.toNat_add, hpred]
      by_cases hp : b.ses.prevState = .pending
      · rw [if_pos hp] at ha ⊢
        simp only [UInt32.reduceToNat]
        omega
      · rw [if_neg hp] at ha ⊢
        simp only [UInt32.reduceToNat]
        omega
  | gone hd => exact absurd (hlive.symm.trans hd) (by decide)

/-- An authorisation request of a session that was ended is over. -/
theorem Inv.authEnded {b : Books} (h : Inv b) (hlive : b.ses.destroyed = 0)
    (hs : b.ses.state = .toDestroy) :
    Inv { b with ses := (({ b.ses with prevState := .discon } : Session).release b.ses.pendingAccts).2
                 auths := b.auths - 1 } := by
  cases h.phase with
  | settled hd he hs' => rcases hs' with hs' | hs' <;> exact absurd (hs.symm.trans hs') (by decide)
  | pending hd he hs' => exact absurd (hs.symm.trans hs') (by decide)
  | gone hd => exact absurd (hlive.symm.trans hd) (by decide)
  | ending hd he _ ha' hn =>
      have hone : b.auths - 1 = 0 := by split at ha' <;> omega
      refine inv_release hd he hs h.accts ?_ ?_
      · simp [hone]
      · rw [eq_zero_iff h.accts, hone]
        simp

/-- **An event of a matched run**, in the cases of the state machine. -/
theorem Inv.turn {b : Books} {e : AaaEvent} {msg : Option SesMsg} {r : Ret} {ses : Session}
    (h : Inv b) (hlive : b.ses.destroyed = 0) (hm : b.has (e.resolves msg) = true)
    (hroom : b.room (.event e msg) = true) (ht : b.ses.Turn e msg (r, ses)) :
    Inv ((if r = .rejected then ({ b with ses } : Books) else ({ b with ses } : Books).sent e.sends).resolved
      (e.resolves msg)) := by
  generalize hx : (r, ses) = x at ht
  cases ht with
  | rejected hauth hacct =>
      obtain ⟨rfl, rfl⟩ := Prod.mk.inj hx
      exact h.rejected hm hauth hacct
  | authSent he hs =>
      subst he
      obtain ⟨rfl, rfl⟩ := Prod.mk.inj hx
      refine ⟨h.accts, ?_⟩
      cases h.phase with
      | settled hd hend _ ha => exact .pending hd hend rfl hs (by simp [sent, resolved, AaaEvent.sends, AaaEvent.resolves, ha])
      | pending hd _ hs' => rcases hs with hs | hs <;> exact absurd (hs.symm.trans hs') (by decide)
      | ending hd _ hs' => rcases hs with hs | hs <;> exact absurd (hs.symm.trans hs') (by decide)
      | gone hd => exact absurd (hlive.symm.trans hd) (by decide)
  | acctSent he hs =>
      subst he
      obtain ⟨rfl, rfl⟩ := Prod.mk.inj hx
      -- the counter has room, so the increment does not wrap
      have hlt : b.accts + 1 < 2 ^ 32 := by simpa [room] using hroom
      refine ⟨toNat_succ h.accts hlt, ?_⟩
      cases h.phase with
      | settled hd hend hs' ha => exact .settled hd hend hs' ha
      | pending hd hend hs' hp ha => exact .pending hd hend hs' hp ha
      | ending hd _ hs' => exact absurd hs' hs.2
      | gone hd => exact absurd (hlive.symm.trans hd) (by decide)
  | authDone he hs hst =>
      obtain ⟨rfl, rfl⟩ := Prod.mk.inj hx
      rw [AaaEvent.sends_of_resolves he, he]
      refine ⟨h.accts, ?_⟩
      cases h.phase with
      | settled hd _ hs' => rcases hs' with hs' | hs' <;> exact absurd (hs.symm.trans hs') (by decide)
      | ending hd _ hs' => exact absurd (hs.symm.trans hs') (by decide)
      | gone hd => exact absurd (hlive.symm.trans hd) (by decide)
      | pending hd hend _ hp ha =>
          refine .settled hd hend ?_ (by simp [sent, resolved, ha])
          rcases hst with rfl | rfl
          · exact Or.inr rfl
          · exact hp
  -- the last two may destroy the session, which is the work of their own lemmas
  | authEnded he hs hp =>
      have hne : r ≠ .rejected := by
        rw [show r = _ from congrArg Prod.fst hx]
        exact Session.release_ne_rejected _ _
      have hses := congrArg Prod.snd hx
      dsimp only at hses
      rw [if_neg hne, AaaEvent.sends_of_resolves he, he, hses]
      exact h.authEnded hlive hs
  | acctEnded he hn =>
      have hne : r ≠ .rejected := by
        rw [show r = _ from congrArg Prod.fst hx]
        exact Session.acctDone_ne_rejected _
      have hses := congrArg Prod.snd hx
      dsimp only at hses
      rw [he] at hm
      rw [if_neg hne, AaaEvent.sends_of_resolves he, he, hses]
      exact h.acctEnded hlive (by simpa [has] using hm)

/-- The timer of the session is none of the books' business. -/
theorem Inv.timed {b : Books} (h : Inv b) (t : Bool) :
    Inv { b with ses := { b.ses with timed := t } } := by
  refine ⟨h.accts, ?_⟩
  cases h.phase with
  | settled hd he hs ha => exact .settled hd he hs ha
  | pending hd he hs hp ha => exact .pending hd he hs hp ha
  | ending hd he hs ha hn => exact .ending hd he hs ha hn
  | gone hd he hs ha hn => exact .gone hd he hs ha hn

theorem Inv.endSession {b : Books} (h : Inv b) (hlive : b.ses.destroyed = 0) (he : b.ended = false)
    (hid : b.ses.peerIdentity = .serverStateless) :
    Inv { b with ses := b.ses.endSession, ended := true } := by
  unfold Session.endSession
  rw [if_neg (by rw [hid]; decide)]
  cases h.phase with
  | ending hd he' => exact absurd (he.symm.trans he') (by decide)
  | gone hd => exact absurd (hlive.symm.trans hd) (by decide)
  | settled hd _ hs ha =>
      have hnp : b.ses.state ≠ .pending := by rcases hs with hs | hs <;> rw [hs] <;> decide
      by_cases hz : b.ses.pendingAccts = 0
      · rw [if_neg (by simp [hnp, hz])]
        refine ⟨h.accts, .gone (by simp [Session.destroySession, hd]) rfl ?_ ha ((eq_zero_iff h.accts).mp hz)⟩
        rintro (hp | ⟨hp, -⟩)
        · exact hnp hp
        · rcases hs with hs | hs <;> exact absurd (hs.symm.trans hp) (by decide)
      · rw [if_pos (Or.inr hz)]
        refine ⟨h.accts, .ending hd rfl rfl (by simp [ha, hnp]) (Or.inr ?_)⟩
        exact fun hc => hz ((eq_zero_iff h.accts).mpr hc)
  | pending hd _ hs hp ha =>
      rw [if_pos (Or.inl hs)]
      exact ⟨h.accts, .ending hd rfl rfl (by simp [ha, hs]) (Or.inl (by simp [ha]))⟩

/-- The identity stays what it is, by assumption on the run. -/
theorem identity_runs {ok : Books → BooksAct → Bool} (hok : ∀ b a, ok b a = true → b.matched a = true)
    {b : Books} (h : Runs ok b) : b.ses.peerIdentity = .serverStateless := by
  refine Reach.invariant (I := fun b => b.ses.peerIdentity = .serverStateless) ?_ ?_ h
  · rintro b rfl
    rfl
  · intro b a b' _ hba hst
    have hm := hok b a hba
    simp only [matched, hst, Option.all_some, Bool.and_eq_true, decide_eq_true_eq] at hm
    exact hm.2

theorem Inv.step {b b' : Books} {a : BooksAct} (h : Inv b)
    (hid : b.ses.peerIdentity = .serverStateless) (hm : b.matched a = true) (hroom : b.room a = true)
    (hst : b.step a = some b') : Inv b' := by
  have hm := (Bool.and_eq_true_iff.mp hm).1
  unfold Books.step at hst
  split at hst
  · exact absurd hst (by simp)
  · rename_i hlive
    have hlive : b.ses.destroyed = 0 := not_not.mp hlive
    cases a with
    | event e msg =>
        dsimp only at hst hm
        split at hst
        · rename_i r ses hsm
          obtain rfl := Option.some.inj hst
          exact h.turn hlive hm hroom (Session.turn_of_identity hid hsm)
        · exact absurd hst (by simp)
    | endSession =>
        obtain rfl := Option.some.inj hst
        exact h.endSession hlive (by simpa using hm) hid

theorem inv_runs {b : Books} (h : Runs (fun b a => b.matched a && b.room a) b) : Inv b := by
  have hok : ∀ (b : Books) (a : BooksAct), (b.matched a && b.room a) = true → b.matched a = true := by
    intro b a hba
    exact (Bool.and_eq_true_iff.mp hba).1
  refine Reach.invariant_of (J := fun b => b.ses.peerIdentity = .serverStateless) (I := Inv)
    (fun b hb => identity_runs hok hb) ?_ ?_ h
  · rintro b rfl
    exact inv_start
  · intro b a b' hid hi hba hst
    obtain ⟨hm, hroom⟩ := Bool.and_eq_true_iff.mp hba
    exact hi.step hid hm hroom hst

/--
**A session counts its requests.**

In every run whose events match requests that were sent, with never `2 ^ 32` accounting
requests pending at once: `pending_accts` is the number of accounting requests that are
not over; the session waits for an authorisation answer exactly when such a request is
not over; it was destroyed once if it was ended and nothing is pending, and not at all
otherwise; and an event that is rejected changes nothing.
-/
theorem pending_counted {b : Books} (h : Runs (fun b a => b.matched a && b.room a) b) :
    b.ses.pendingAccts.toNat = b.accts
    ∧ ((b.ses.state = .pending ∨ (b.ses.state = .toDestroy ∧ b.ses.prevState = .pending))
      ↔ b.auths ≠ 0)
    ∧ b.ses.destroyed = (if b.ended ∧ b.auths = 0 ∧ b.accts = 0 then 1 else 0)
    ∧ ∀ e msg ses, b.ses.sessionStateMachine e msg = .ok (.rejected, ses) → ses = b.ses := by
  have hi := inv_runs h
  exact ⟨hi.accts, hi.phase.awaitsAuth, hi.phase.destroyed, fun _ _ _ hr => Session.eq_of_rejected hr⟩

/-- Both kinds of requests are sent, the session is ended, and the requests are over one by one. -/
def sampleEnding : List BooksAct :=
  [.event .sendingAuthR none, .event .sendingAcctR none, .endSession, .event .acctAReceived none,
   .event .sessionReqTimeout (some ⟨265, none, none⟩)]

theorem pending_counted_ending :
    ∃ b b', Runs (fun b a => b.matched a && b.room a) b ∧ Runs (fun b a => b.matched a && b.room a) b'
      ∧ b.ended = true ∧ b.auths = 1 ∧ b.ses.state = .toDestroy ∧ b.ses.prevState = .pending
      ∧ b.ses.destroyed = 0 ∧ b'.ended = true ∧ b'.auths = 0 ∧ b'.accts = 0 ∧ b'.ses.destroyed = 1 := by
  obtain ⟨b, hb, hf⟩ := @Runs.of_trace _ (fun b a => b.matched a && b.room a) (sampleEnding.take 4)
    (fun b => (b.ended, b.auths, b.ses.state)) (true, 1, .toDestroy) (by decide)
  obtain ⟨b', hb', hf'⟩ := @Runs.of_trace _ (fun b a => b.matched a && b.room a) sampleEnding
    (fun b => (b.ended, b.auths, b.accts)) (true, 0, 0) (by decide)
  simp only [Prod.mk.injEq] at hf hf'
  obtain ⟨he, ha, hs⟩ := hf
  obtain ⟨he', ha', hc'⟩ := hf'
  obtain ⟨-, hauth, hd, -⟩ := pending_counted hb
  obtain ⟨-, -, hd', -⟩ := pending_counted hb'
  rw [he, ha] at hd
  rw [he', ha', hc'] at hd'
  refine ⟨b, b', hb, hb', he, ha, hs, ?_, by simpa using hd, he', ha', hc', by simpa using hd'⟩
  rcases hauth.mpr (by rw [ha]; decide) with hp | ⟨-, hp⟩
  · exact absurd (hs.symm.trans hp) (by decide)
  · exact hp

/-- `n` accounting requests are sent, and none of them is over. -/
theorem runs_many (n : Nat) :
    Runs matched { start with ses := { createSession with pendingAccts := UInt32.ofNat n }, accts := n } := by
  induction n with
  | zero => exact .init rfl
  | succ n ih =>
      refine .step (a := .event .sendingAcctR none) ih rfl ?_
      simp only [step, Session.sessionStateMachine, Session.stateless, createSession, start, sent, resolved,
        AaaEvent.sends, AaaEvent.resolves]
      rw [UInt32.ofNat_add]
      rfl

/-- With `2 ^ 32` of them pending the counter of the session has come round to zero. -/
theorem pending_uncounted :
    ¬ ∀ b, Runs matched b → b.ses.pendingAccts.toNat = b.accts := by
  intro h
  have hn : (UInt32.ofNat (2 ^ 32)).toNat = 2 ^ 32 := h _ (runs_many (2 ^ 32))
  have hlt := (UInt32.ofNat (2 ^ 32)).toNat_lt
  omega

end Books

end Disc.Client
