import Disc.Transport.Ledger

/-!
# What a step does to the descriptors

A third view of a peer: its socket, whether it is up or connecting, and what it shares
with the other peers of its receive thread, the two descriptor sets and the open sockets.

`Fds.Step` lists what a step can do to these, once, and `World.step_fds` shows that a step
of a peer does one of them, unless it slips. There are two slips: to connect a peer whose
connect is still pending, and to finish a connect when there is no memory for the CER.
Both leave a bit in a set that nobody will clear, and `World.step_slips` shows where.
-/

namespace Disc.Transport

open Disc.Lib Disc.Msg

/-- A peer as the descriptor sets see it. -/
structure Fds where
  /-- It is in another state than unconnected. -/
  up : Bool
  /-- A connect is in progress, or its flag was left behind. -/
  inProg : Bool
  sock : Option Nat
  rdSet : List Nat
  wrSet : List Nat
  opened : List Nat
  /-- Accepted connections the peer has not got yet. -/
  accepted : List Nat

def World.fds (w : World) : Fds where
  up := w.state != .unconn
  inProg := w.flags &&& peerConnInProg != 0
  sock := w.sock
  rdSet := w.rdSet
  wrSet := w.wrSet
  opened := w.opened
  accepted := pending w.pipe

namespace Fds

/-- `close(s)`. -/
@[grind =] def close (f : Fds) (s : Option Nat) : Fds :=
  { f with opened := f.opened.filter (fun x => some x ≠ s) }

/-- `tcp_close`. -/
@[grind =] def shut (f : Fds) : Fds :=
  { f.close f.sock with
    rdSet := f.rdSet.filter (fun x => some x ≠ f.sock)
    wrSet := f.wrSet.filter (fun x => some x ≠ f.sock) }

/-- The peer is reset. -/
@[grind =] def failed (f : Fds) : Fds := { f with inProg := false, sock := none }

/-- The connection is closed and the peer reset. -/
@[grind =] def lost (f : Fds) : Fds := { f.shut.failed with up := false }

/-- There is a new socket. -/
@[grind =] def opening (f : Fds) (n : Nat) : Fds := { f with opened := f.opened ++ [n] }

/-- A connect is pending on it. -/
@[grind =] def connecting (f : Fds) (n : Nat) : Fds :=
  { f.opening n with inProg := true, sock := some n, wrSet := f.wrSet ++ [n] }

/-- `FD_CLR` in the write set. -/
@[grind =] def unwatch (f : Fds) (s : Nat) : Fds := { f with wrSet := f.wrSet.filter (· ≠ s) }

/-- A connection is made, and the CER sent. -/
@[grind =] def watch (f : Fds) (s : Nat) : Fds :=
  { f with up := true, inProg := false, sock := some s, rdSet := f.rdSet ++ [s] }

/-- A connection is made and given up again, and its bit is set all the same. -/
def slip (f : Fds) (s : Nat) : Fds :=
  let g := ({ f with sock := some s } : Fds).lost
  { g with rdSet := g.rdSet ++ [s] }

/-- The peer is in some state or other, but not unconnected. -/
def raise (f : Fds) : Fds := { f with up := true }

/-- No connect of this peer is pending. -/
def Settled (f : Fds) : Prop := ∀ s, f.sock = some s → s ∉ f.wrSet

theorem slip_closed (f : Fds) (s : Nat) : s ∈ (f.slip s).rdSet ∧ s ∉ (f.slip s).opened := by
  simp [slip, lost, shut, failed, close]

theorem raise_eq {f : Fds} (h : f.up = true) : f.raise = f := by
  unfold raise
  rw [← h]

/-- A write leaves everything as it was, or it fails and the state is another. -/
def Wrote (f f' : Fds) : Prop := f' = f ∨ f' = f.raise

theorem Wrote.raise {f f' : Fds} (h : f.Wrote f') : f'.raise = f.raise := by
  rcases h with rfl | rfl
  · rfl
  · rfl

/-- What is lost does not depend on the state. -/
theorem Wrote.lost {f f' : Fds} (h : f.Wrote f') : f'.lost = f.lost := by
  rcases h with rfl | rfl
  · rfl
  · rfl

theorem Wrote.eq {f f' : Fds} (h : f.Wrote f') (hu : f.up = true) : f' = f := by
  rcases h with rfl | rfl
  · rfl
  · exact raise_eq hu

theorem lost_lost (f : Fds) : f.lost.lost = f.lost := by
  simp [lost, failed, shut, close]

/-- Closing a socket that was just opened. -/
theorem close_opening {f : Fds} {n : Nat} (h : n ∉ f.opened) : (f.opening n).close (some n) = f := by
  have hf : (f.opened ++ [n]).filter (fun x => some x ≠ some n) = f.opened := by
    rw [List.filter_append, List.filter_eq_self.mpr]
    · simp
    · rintro x hx
      have hne : x ≠ n := fun he => h (he ▸ hx)
      simpa using hne
  unfold opening close
  rw [hf]

/-- What comes of a connect on `s`; `made` says whether the socket calls led to a connection. -/
inductive Finishes (s : Nat) (made cerMem : Bool) (f : Fds) : Fds → Prop
  | refused (hu : f.up = true) : Finishes s made cerMem f (f.close (some s))
  | failed (hu : f.up = false) (hm : made = false) :
      Finishes s made cerMem f (f.close (some s)).failed
  | done (hu : f.up = false) (hm : made = true) (hc : cerMem = true) :
      Finishes s made cerMem f (f.watch s)
  | slip (hu : f.up = false) (hm : made = true) (hc : cerMem = false) :
      Finishes s made cerMem f (f.slip s)

/-- What comes of a connect on a new socket with the number `n`. -/
inductive Connects (n : Nat) (made cerMem : Bool) (f : Fds) : Fds → Prop
  | refused (hu : f.up = true) : Connects n made cerMem f f
  | failed (hu : f.up = false) (hm : made = false) : Connects n made cerMem f f.failed
  | pending (hu : f.up = false) (hm : made = false) : Connects n made cerMem f (f.connecting n)
  | done (hu : f.up = false) (hm : made = true) (hc : cerMem = true) :
      Connects n made cerMem f ((f.opening n).watch n)
  | slip (hu : f.up = false) (hm : made = true) (hc : cerMem = false) :
      Connects n made cerMem f ((f.opening n).slip n)

/-- What a step can do that does not slip; `n` is the number the next socket gets. -/
inductive Step (n : Nat) : Fds → Fds → Prop
  | idle {f : Fds} : Step n f f
  | lost {f : Fds} : Step n f f.lost
  /-- A pending connect is closed, and the peer keeps the number. -/
  | shut {f : Fds} : Step n f f.shut
  -- a connect fails at once, is pending, or is made at once
  | failed {f : Fds} (hu : f.up = false) (hs : f.Settled) : Step n f f.failed
  | connecting {f : Fds} (hu : f.up = false) (hs : f.Settled) : Step n f (f.connecting n)
  | connected {f : Fds} (hu : f.up = false) (hs : f.Settled) : Step n f ((f.opening n).watch n)
  -- a pending connect has finished: badly, well, or for a peer that is connected by now
  | pendingFailed {f : Fds} {s : Nat} (hu : f.up = false) (hs : f.sock = some s) :
      Step n f ((f.unwatch s).close (some s)).failed
  | pendingDone {f : Fds} {s : Nat} (hu : f.up = false) (hs : f.sock = some s) (hw : s ∈ f.wrSet) :
      Step n f ((f.unwatch s).watch s)
  | pendingLate {f : Fds} {s : Nat} (hu : f.up = true) (hs : f.sock = some s)
      (hw : s ∈ f.wrSet ∨ s ∉ f.opened) : Step n f ((f.unwatch s).close (some s))
  /-- The accept thread has a connection for the peer. -/
  | accept {f : Fds} (hs : f.sock ≠ some n) :
      Step n f { f.opening n with accepted := f.accepted ++ [n] }
  | refused {f : Fds} {s : Nat} {rest : List Nat} (ha : f.accepted = s :: rest) :
      Step n f ({ f with accepted := rest }.close (some s))
  /-- The peer gets it, in place of a pending connect if there is one. -/
  | taken {f g : Fds} {s : Nat} {rest : List Nat} (ha : f.accepted = s :: rest)
      (hu : f.up = false) (hg : (f.inProg = true ∧ g = f.shut) ∨ (f.inProg = false ∧ g = f)) :
      Step n f { g with up := true, sock := some s, accepted := rest, rdSet := g.rdSet ++ [s] }

/-- What a step does to the numbers a peer goes by, whether it slips or not. -/
inductive Renumbers (n : Nat) (f f' : Fds) : Prop
  | kept (hs : f'.sock = f.sock ∨ f'.sock = none) (ha : f'.accepted = f.accepted)
  | connect (hs : f'.sock = some n) (ho : n ∈ f'.opened) (ha : f'.accepted = f.accepted)
  | accept (hs : f'.sock = f.sock) (hn : f.sock ≠ some n) (ho : n ∈ f'.opened)
      (ha : f'.accepted = f.accepted ++ [n])
  /-- An accepted connection is refused, or the peer gets it. -/
  | taken {s : Nat} {rest : List Nat} (hp : f.accepted = s :: rest)
      (hs : f'.sock = f.sock ∨ f'.sock = some s) (ha : f'.accepted = rest)

theorem mem_opening (f : Fds) (n : Nat) : n ∈ (f.opening n).opened :=
  List.mem_append_right _ (List.mem_singleton.mpr rfl)

theorem Step.renumbers {n : Nat} {f f' : Fds} (h : Step n f f') : Renumbers n f f' := by
  cases h with
  | idle | shut | pendingLate => exact .kept (Or.inl rfl) rfl
  | lost | failed | pendingFailed => exact .kept (Or.inr rfl) rfl
  | connecting | connected => exact .connect rfl (mem_opening f n) rfl
  | pendingDone hu hs hw => exact .kept (Or.inl hs.symm) rfl
  | accept hs => exact .accept rfl hs (mem_opening f n) rfl
  | refused ha => exact .taken ha (Or.inl rfl) rfl
  | taken ha => exact .taken ha (Or.inr rfl) rfl

theorem Connects.renumbers {n : Nat} {made cerMem : Bool} {f f' : Fds}
    (h : Connects n made cerMem f f') : Renumbers n f f' := by
  cases h with
  | refused => exact .kept (Or.inl rfl) rfl
  | failed | slip => exact .kept (Or.inr rfl) rfl
  | pending | done => exact .connect rfl (mem_opening f n) rfl

/-- A connect that was pending brings no new number. -/
theorem Finishes.renumbers {n s : Nat} {made cerMem : Bool} {f f' : Fds} (hs : f.sock = some s)
    (h : Finishes s made cerMem (f.unwatch s) f') : Renumbers n f f' := by
  cases h with
  | refused => exact .kept (Or.inl rfl) rfl
  | failed | slip => exact .kept (Or.inr rfl) rfl
  | done => exact .kept (Or.inl hs.symm) rfl

/-- The connections a peer has not got yet are different, and none is its own. -/
structure Queued (f : Fds) : Prop where
  apart : ∀ s ∈ f.accepted, f.sock ≠ some s
  nodup : f.accepted.Nodup

section

variable {n s : Nat} {f f' : Fds}

/-- **The number a peer goes by** is its own from before, a new one, or one that waited for it. -/
theorem Renumbers.sock (h : Renumbers n f f') (hs : f'.sock = some s) :
    f.sock = some s ∨ (s = n ∧ s ∈ f'.opened) ∨ s ∈ f.accepted := by
  cases h with
  | kept hk ha =>
      rcases hk with hk | hk
      · exact Or.inl (hk.symm.trans hs)
      · exact absurd (hk.symm.trans hs) (by simp)
  | connect hk ho ha =>
      obtain rfl := Option.some.inj (hk.symm.trans hs)
      exact Or.inr (Or.inl ⟨rfl, ho⟩)
  | accept hk => exact Or.inl (hk.symm.trans hs)
  | taken hp hk ha =>
      rcases hk with hk | hk
      · exact Or.inl (hk.symm.trans hs)
      · obtain rfl := Option.some.inj (hk.symm.trans hs)
        exact Or.inr (Or.inr (hp ▸ List.mem_cons_self))

theorem Renumbers.accepted (h : Renumbers n f f') (hs : s ∈ f'.accepted) :
    s ∈ f.accepted ∨ (s = n ∧ s ∈ f'.opened ∧ f.sock ≠ some s) := by
  cases h with
  | kept hk ha => exact Or.inl (ha ▸ hs)
  | connect hk ho ha => exact Or.inl (ha ▸ hs)
  | accept hk hn ho ha =>
      rw [ha] at hs
      rcases List.mem_append.mp hs with hs | hs
      · exact Or.inl hs
      · obtain rfl := List.mem_singleton.mp hs
        exact Or.inr ⟨rfl, ho, hn⟩
  | taken hp hk ha => exact Or.inl (hp ▸ List.mem_cons_of_mem _ (ha ▸ hs))

theorem Renumbers.queued (h : Renumbers n f f') (hq : f.Queued) (hn : n ∉ f.accepted) : f'.Queued := by
  obtain ⟨hapart, hnd⟩ := hq
  cases h with
  | kept hk ha =>
      refine ⟨fun s hin hs => ?_, ha ▸ hnd⟩
      rcases hk with hk | hk
      · exact hapart s (ha ▸ hin) (hk.symm.trans hs)
      · exact absurd (hk.symm.trans hs) (by simp)
  | connect hk ho ha =>
      refine ⟨fun s hin hs => ?_, ha ▸ hnd⟩
      obtain rfl := Option.some.inj (hk.symm.trans hs)
      exact hn (ha ▸ hin)
  | accept hk hne ho ha =>
      refine ⟨fun s hin hs => ?_, ?_⟩
      · rw [ha] at hin
        rcases List.mem_append.mp hin with hin | hin
        · exact hapart s hin (hk.symm.trans hs)
        · obtain rfl := List.mem_singleton.mp hin
          exact hne (hk.symm.trans hs)
      · rw [ha]
        refine List.nodup_append.mpr ⟨hnd, List.nodup_singleton n, fun a hin b hb hab => ?_⟩
        obtain rfl := List.mem_singleton.mp hb
        exact hn (hab ▸ hin)
  -- the one that was taken does not wait any more
  | @taken s₀ rest hp hk ha =>
      rw [hp] at hnd
      obtain ⟨hout, hnd⟩ := List.nodup_cons.mp hnd
      refine ⟨fun s hin hs => ?_, ha ▸ hnd⟩
      rw [ha] at hin
      rcases hk with hk | hk
      · exact hapart s (hp ▸ List.mem_cons_of_mem _ hin) (hk.symm.trans hs)
      · obtain rfl := Option.some.inj (hk.symm.trans hs)
        exact hout hin

end

end Fds

/-- The events of a connection: not of one that comes about, and not of one that is due again. -/
def Event.Inner : Event → Prop
  | .tcpAccept .. | .tcpConnected .. | .tcpConnInProg _ | .tcpConnFailed | .peerReconnTimeout => False
  | _ => True

/-- The socket calls of a connect get as far as a connection at once. -/
def SockEnv.made (io : SockEnv) : Bool :=
  io.socket && io.initSu && io.connect = .done && io.sockopt

/-- There is memory for a CER and for its transaction. -/
def Env.cerMem (env : Env) : Bool := env.msgMem && env.trMem

namespace World

/-! ## The parts handlers are made of -/

section

variable (w : World)

@[simp] theorem fds_rmvFromTimerList (l : TimerList) : (w.rmvFromTimerList l).fds = w.fds := by
  rw [rmvFromTimerList_eq]
  rfl

@[simp] theorem fds_addToTimerList (l : TimerList) (t : Nat) :
    (w.addToTimerList l t).fds = w.fds := by
  unfold addToTimerList
  cases w.tl <;> rfl

theorem fds_command {c : Cmd} (h : ∀ s, c ≠ .accepted s) : (w.command c).fds = w.fds := by
  have hp : pending (w.pipe ++ [c]) = pending w.pipe := congrArg Ledger.pending (ledger_command w h)
  simp only [fds, command, hp]

theorem fds_resetPeer : w.resetPeer.fds = w.fds.failed := by
  -- the one flag that is kept is not the one of a pending connect
  have hf : (w.flags &&& peerToDestroy) &&& peerConnInProg = 0 := by
    rw [UInt8.and_assoc, show peerToDestroy &&& peerConnInProg = 0 from rfl, UInt8.and_zero]
  simp only [resetPeer, rmv_both]
  split
  · simp [addToTimerList, fds, Fds.failed, hf]
  · simp [fds, Fds.failed, hf]

theorem fds_closeAndReset : w.closeAndReset.fds = w.fds.lost := by
  have h : w.closeAndReset.fds = { w.tcpClose.resetPeer.fds with up := false } := rfl
  rw [h, fds_resetPeer]
  rfl

theorem fds_safeWrite (r : WriteRes) (k : WriteKind) (buf : List UInt8) :
    w.fds.Wrote (w.safeWrite r k buf).2.fds := by
  have herr : ∀ v : World, v.fds = w.fds →
      (({ v with state := .error } : World).command (.close ⟨w.sock, w.resets⟩)).fds
        = w.fds.raise := by
    intro v hv
    rw [fds_command _ (by simp)]
    exact congrArg Fds.raise hv
  cases r with
  | failed => exact Or.inr (herr w rfl)
  | wrote n =>
      unfold safeWrite
      dsimp only
      split
      · exact Or.inl rfl
      · exact Or.inr (herr { w with
          writes := w.writes ++ [⟨w.sock, k, buf.take n, buf.length ≤ n⟩] } rfl)

end

variable {cfg : Cfg} {w w' : World} {env : Env}

theorem fds_sendStdReq {code : Nat} {avps : List UInt8} {sent : Bool}
    (h : w.sendStdReq cfg env code avps = (sent, w')) : w.fds.Wrote w'.fds := by
  unfold sendStdReq internalSendRequest at h
  split at h
  · obtain ⟨-, rfl⟩ := Prod.mk.inj h
    exact Or.inl rfl
  · split at h
    · obtain ⟨-, rfl⟩ := Prod.mk.inj h
      exact Or.inl rfl
    · obtain ⟨-, rfl⟩ := Prod.mk.inj h
      exact fds_safeWrite _ _ _ _

/-- A request goes out if there is memory for it and its transaction, and else nothing happens. -/
theorem sendStdReq_sent {code : Nat} {avps : List UInt8} {sent : Bool}
    (h : w.sendStdReq cfg env code avps = (sent, w')) :
    sent = env.cerMem ∧ (sent = false → w' = w) := by
  unfold sendStdReq internalSendRequest at h
  unfold Env.cerMem
  cases hm : env.msgMem with
  | false =>
      rw [hm] at h
      obtain ⟨rfl, rfl⟩ := Prod.mk.inj h
      exact ⟨rfl, fun _ => rfl⟩
  | true =>
      cases ht : env.trMem with
      | false =>
          rw [hm, ht] at h
          obtain ⟨rfl, rfl⟩ := Prod.mk.inj h
          exact ⟨rfl, fun _ => rfl⟩
      | true =>
          rw [hm, ht] at h
          obtain ⟨rfl, -⟩ := Prod.mk.inj h
          exact ⟨rfl, fun hno => absurd hno (by simp)⟩

theorem fds_sendStdAns {avps req : List UInt8} {res : UInt32} {sent : Bool}
    (h : w.sendStdAns cfg env avps req res = (sent, w')) : w.fds.Wrote w'.fds := by
  unfold sendStdAns at h
  split at h
  · obtain ⟨-, rfl⟩ := Prod.mk.inj h
    exact Or.inl rfl
  · obtain rfl : (w.safeWrite env.write (.ans (msgCode req) res) (buildAns cfg avps req res)).2 = w' :=
      congrArg Prod.snd h
    exact fds_safeWrite _ _ _ _

theorem fds_runProcessCe {buf : List UInt8} {isReq : Bool} {code : UInt32}
    (h : w.runProcessCe cfg env buf isReq = .ok (code, w')) : w'.fds = w.fds := by
  rcases runProcessCe_cases h with ⟨-, rfl⟩ | ⟨-, c, rfl⟩
  · rfl
  · rfl

theorem fds_transactionLookup {ete hbh : UInt32} {tr : Trans} {v : World}
    (h : w.transactionLookup ete hbh = some (tr, v)) : v.fds = w.fds := by
  unfold transactionLookup at h
  split at h
  · exact absurd h (by simp)
  · obtain ⟨-, rfl⟩ := Prod.mk.inj (Option.some.inj h)
    rfl

theorem up_of_eq {s : PeerState} (h : w.state = s) (hs : s ≠ .unconn) : w.fds.up = true :=
  bne_iff_ne.mpr fun hu => hs (h.symm.trans hu)

theorem Answering.up (h : w.Answering) : w.fds.up = true := by
  rcases h with hs | hs | hs
  · exact up_of_eq hs (by decide)
  · exact up_of_eq hs (by decide)
  · exact up_of_eq hs (by decide)

/-! ## Events that concern the current connection -/

/-- All that can come of them is that it is lost. -/
def Kept (w w' : World) : Prop := w'.fds = w.fds ∨ w'.fds = w.fds.lost

theorem Kept.of_closed {v : World} (h : w.fds.Wrote v.fds) : Kept w v.closeAndReset :=
  Or.inr (by rw [fds_closeAndReset, h.lost])

/-- A peer that is up goes to another such state. -/
theorem Kept.of_raise {v : World} (h : w.fds.Wrote v.fds) (hu : w.fds.up = true)
    (hv : w'.fds = v.fds.raise) : Kept w w' :=
  Or.inl (by rw [hv, h.raise, Fds.raise_eq hu])

theorem Kept.trans {u v : World} (h : Kept w u) (h' : Kept u v) : Kept w v := by
  rcases h with h | h
  · exact h'.imp (·.trans h) (fun h' => by rw [h', h])
  · rcases h' with h' | h'
    · exact Or.inr (h'.trans h)
    · exact Or.inr (by rw [h', h, Fds.lost_lost])

theorem kept_onCeaReceived {buf : List UInt8} {b : Bool}
    (h : w.onCeaReceived cfg env buf = .ok (b, w')) : Kept w w' := by
  rcases onCeaReceived_cases h with ⟨-, rfl⟩ | ⟨code, v, hs, hce, hk⟩
  · exact Or.inl rfl
  have hv : w.fds.Wrote v.fds := Or.inl (fds_runProcessCe hce)
  rcases hk with ⟨-, rfl⟩ | ⟨-, rfl⟩
  · exact .of_closed hv
  · exact .of_raise hv (up_of_eq hs (by decide)) rfl

theorem kept_onCerReceived {buf : List UInt8} {b : Bool}
    (h : w.onCerReceived cfg env buf = .ok (b, w')) : Kept w w' := by
  rcases onCerReceived_cases h with ⟨-, -, rfl⟩ | ⟨u, res, v, sent, v', hu, hce, hcea, hk⟩
  · exact Or.inl rfl
  have huw : u.fds = w.fds := by
    rcases hu with ⟨-, rfl⟩ | ⟨-, rfl⟩
    · exact fds_rmvFromTimerList w .waitCer
    · rfl
  have hv : w.fds.Wrote v'.fds := (fds_runProcessCe hce).trans huw ▸ fds_sendStdAns hcea
  have hup : w.fds.up = true := by
    rcases hu with ⟨hs, -⟩ | ⟨hs, -⟩
    · exact up_of_eq hs (by decide)
    · exact up_of_eq hs (by decide)
  rcases hk with ⟨-, rfl⟩ | ⟨-, -, rfl⟩
  · exact .of_closed hv
  · exact .of_raise hv hup rfl

theorem kept_onDwrReceived {buf : List UInt8} {b : Bool}
    (h : w.onDwrReceived cfg env buf = .ok (b, w')) : Kept w w' := by
  rcases onDwrReceived_cases h with ⟨-, rfl⟩ | ⟨res, sent, v, hs, hdwa, hk⟩
  · exact Or.inl rfl
  have hv : w.fds.Wrote v.fds := fds_sendStdAns hdwa
  rcases hk with ⟨-, rfl⟩ | ⟨-, -, rfl⟩
  · exact .of_closed hv
  · exact Or.inl (hv.eq hs.up)

theorem kept_onDprReceived {buf : List UInt8} {b : Bool}
    (h : w.onDprReceived cfg env buf = .ok (b, w')) : Kept w w' := by
  rcases onDprReceived_cases h with ⟨-, rfl⟩ | ⟨res, sent, v, -, hdpa, rfl⟩
  · exact Or.inl rfl
  · have hv := fds_sendStdAns hdpa
    exact .of_closed hv

theorem kept_onDwaReceived {buf : List UInt8} {b : Bool}
    (h : w.onDwaReceived buf = .ok (b, w')) : Kept w w' := by
  unfold onDwaReceived at h
  split at h
  · rename_i hs
    obtain ⟨_, -, hk⟩ := Res.bind_eq_ok h
    obtain ⟨-, rfl⟩ := Prod.mk.inj (Res.ok.inj hk)
    exact .of_raise (Or.inl rfl) (up_of_eq hs (by decide)) rfl
  · obtain ⟨-, rfl⟩ := Prod.mk.inj (Res.ok.inj h)
    exact Or.inl rfl

theorem kept_onPeerIsInactiv (w : World) (cfg : Cfg) (env : Env) :
    Kept w (w.onPeerIsInactiv cfg env).2 := by
  unfold onPeerIsInactiv
  split
  · rename_i hs
    have hu := up_of_eq hs (by decide)
    split
    · cases hdwr : w.sendDwr cfg env with
      | mk sent v =>
          have hv : w.fds.Wrote v.fds := fds_sendStdReq hdwr
          cases sent with
          | false => exact Or.inl (hv.eq hu)
          | true => exact .of_raise hv hu rfl
    · exact Or.inl rfl
  · exact Or.inl rfl

theorem kept_onPeerHangup (w : World) (cfg : Cfg) (env : Env) (cause : UInt32) :
    Kept w (w.onPeerHangup cfg env cause).2 := by
  unfold onPeerHangup
  split
  · rename_i hs
    have hu := up_of_eq hs (by decide)
    cases hdpr : ({ w with inActiv := false } : World).sendDpr cfg env cause with
    | mk sent v =>
        have hv := fds_sendStdReq hdpr
        have hv : w.fds.Wrote v.fds := hv
        cases sent with
        | false => exact .of_closed hv
        | true => exact .of_raise hv hu rfl
  · exact Or.inl rfl

/-- Closing and resetting, or nothing. -/
theorem kept_closeAndReset (w : World) : Kept w w.closeAndReset := .of_closed (Or.inl rfl)

theorem kept_onPeerTrTimeout (w : World) (info : UInt32) : Kept w (w.onPeerTrTimeout info).2 := by
  unfold onPeerTrTimeout
  split
  · exact Or.inl rfl
  · split
    · have hk := kept_closeAndReset { w with inActiv := false }
      exact hk
    · exact kept_closeAndReset w
    · exact kept_closeAndReset w
    · exact Or.inl rfl

theorem kept_onTcpConnClose (w : World) : Kept w w.onTcpConnClose.2 := by
  unfold onTcpConnClose
  split
  · exact kept_closeAndReset w
  · exact Or.inl rfl

theorem kept_onDpaReceived (w : World) : Kept w w.onDpaReceived.2 := by
  unfold onDpaReceived
  split
  · exact kept_closeAndReset w
  · exact Or.inl rfl

theorem kept_onPeerCerTimeout (w : World) : Kept w w.onPeerCerTimeout.2 := by
  unfold onPeerCerTimeout
  split
  · exact kept_closeAndReset w
  · exact Or.inl rfl

theorem kept_peerStateMachine {e : Event} {b : Bool}
    (h : peerStateMachine cfg env w e = .ok (b, w')) (he : e.Inner) : Kept w w' := by
  have hpure : ∀ r : Bool × World, (Res.ok r : Res (Bool × World)) = .ok (b, w') → r.2 = w' :=
    fun r hr => congrArg Prod.snd (Res.ok.inj hr)
  cases e with
  | cerReceived buf => exact kept_onCerReceived h
  | ceaReceived buf => exact kept_onCeaReceived h
  | dwrReceived buf => exact kept_onDwrReceived h
  | dwaReceived buf => exact kept_onDwaReceived h
  | dprReceived buf => exact kept_onDprReceived h
  | dpaReceived buf => exact hpure _ h ▸ kept_onDpaReceived w
  | tcpConnClose => exact hpure _ h ▸ kept_onTcpConnClose w
  | peerIsInactiv => exact hpure _ h ▸ kept_onPeerIsInactiv w cfg env
  | peerHangup cause => exact hpure _ h ▸ kept_onPeerHangup w cfg env cause
  | peerTrTimeout info => exact hpure _ h ▸ kept_onPeerTrTimeout w info
  | peerCerTimeout => exact hpure _ h ▸ kept_onPeerCerTimeout w
  | tcpAccept | tcpConnected | tcpConnInProg | tcpConnFailed | peerReconnTimeout => exact he.elim

theorem kept_event {e : Event}
    (h : (do return (← peerStateMachine cfg env w e).2 : Res World) = .ok w') (he : e.Inner) :
    Kept w w' := by
  obtain ⟨⟨b, v⟩, hm, hk⟩ := Res.bind_eq_ok h
  obtain rfl := Res.ok.inj hk
  exact kept_peerStateMachine hm he

/-! ## A readable socket -/

theorem kept_dispatchKind {buf : List UInt8} {req ans : Event}
    (h : (if isReqBuf buf then do return (← peerStateMachine cfg env w req).2
        else match w.transactionLookup (endtoendOf buf) (hopbyhopOf buf) with
          | none => return w
          | some (_, w) => do return (← peerStateMachine cfg env w ans).2 : Res World) = .ok w')
    (hreq : req.Inner) (hans : ans.Inner) : Kept w w' := by
  split at h
  · exact kept_event h hreq
  · cases htl : w.transactionLookup (endtoendOf buf) (hopbyhopOf buf) with
    | none =>
        rw [htl] at h
        obtain rfl := Res.ok.inj h
        exact Or.inl rfl
    | some r =>
        rw [htl] at h
        exact .trans (Or.inl (fds_transactionLookup htl)) (kept_event h hans)

theorem kept_dispatchMessage {buf : List UInt8} (h : w.dispatchMessage cfg env buf = .ok w') :
    Kept w w' := by
  unfold dispatchMessage at h
  dsimp only at h
  split at h
  · have hk := kept_dispatchKind h trivial trivial
    exact hk
  · split at h
    · have hk := kept_dispatchKind h trivial trivial
      exact hk
    · split at h
      · have hk := kept_dispatchKind h trivial trivial
        exact hk
      · obtain rfl := Res.ok.inj h
        exact Or.inl rfl

theorem kept_serveRead {evs : List RecvEv} {avail : List UInt8}
    (h : w.serveRead cfg env evs avail = .ok w') : Kept w w' := by
  obtain ⟨out, -, h⟩ := Res.bind_eq_ok h
  have hend : ∀ v : World, Kept w v → (if out.ok then return v
      else return (← peerStateMachine cfg env v .tcpConnClose).2 : Res World) = .ok w' →
      Kept w w' := by
    intro v hv hk
    split at hk
    · obtain rfl := Res.ok.inj hk
      exact hv
    · exact hv.trans (kept_event hk trivial)
  cases hmsg : out.msg with
  | none =>
      rw [hmsg] at h
      exact hend { w with rb := out.rb } (Or.inl rfl) h
  | some buf =>
      rw [hmsg] at h
      obtain ⟨v, hd, hk⟩ := Res.bind_eq_ok h
      have hv := kept_dispatchMessage hd
      exact hend v hv hk

/-! ## New connections -/

theorem not_up_iff : w.fds.up = false ↔ w.state = .unconn := by
  simp [fds]

theorem not_up (h : w.state = .unconn) : w.fds.up = false := not_up_iff.mpr h

/-- Only an unconnected peer takes a connection, -/
theorem refuses (h : w.state ≠ .unconn) (cfg : Cfg) (env : Env) (s : Nat) (ip : IpAddr) :
    w.onTcpAccept s ip = (false, w) ∧ w.onTcpConnected cfg env s ip = (false, w)
      ∧ w.onTcpConnInProg s = (false, w) := by
  unfold onTcpAccept onTcpConnected onTcpConnInProg
  cases hs : w.state with
  | unconn => exact absurd hs h
  | _ => exact ⟨rfl, rfl, rfl⟩

/-- or cares that one has failed. -/
theorem refuses_failed (h : w.state ≠ .unconn) : w.onTcpConnFailed = (false, w) := by
  unfold onTcpConnFailed
  cases hs : w.state with
  | unconn => exact absurd hs h
  | _ => rfl

theorem fds_onTcpConnFailed (h : w.state = .unconn) : w.onTcpConnFailed.2.fds = w.fds.failed := by
  have hf : ({ w.resetPeer with state := .unconn } : World).fds
      = { w.resetPeer.fds with up := false } := rfl
  unfold onTcpConnFailed
  split
  · rw [hf, fds_resetPeer, Fds.failed, ← not_up h]
  · rename_i hne
    exact absurd h hne

/-- An unconnected peer takes the new connection, and gives it up if there is no memory for the CER. -/
theorem fds_onTcpConnected (h : w.state = .unconn) (cfg : Cfg) (env : Env) (s : Nat) (ip : IpAddr) :
    (w.onTcpConnected cfg env s ip).1 = true
      ∧ ((env.cerMem = true ∧ (w.onTcpConnected cfg env s ip).2.fds
          = { w.fds with up := true, inProg := false, sock := some s })
        ∨ (env.cerMem = false ∧ (w.onTcpConnected cfg env s ip).2.fds
          = ({ w.fds with sock := some s } : Fds).lost)) := by
  unfold onTcpConnected
  split
  · set u : World := { w with flags := 0, sock := some s, localIp := ip } with hu
    have huf : u.fds = { w.fds with inProg := false, sock := some s } := by simp [hu, fds]
    cases hcer : u.sendCer cfg env with
    | mk sent v =>
        obtain ⟨hsent, hnone⟩ := sendStdReq_sent hcer
        cases sent with
        | true =>
            have hv := (fds_sendStdReq hcer).raise
            simp only [hcer]
            refine ⟨trivial, Or.inl ⟨hsent.symm, Eq.trans (b := v.fds.raise) rfl ?_⟩⟩
            rw [hv, huf]
            rfl
        | false =>
            simp only [hcer]
            refine ⟨trivial, Or.inr ⟨hsent.symm, ?_⟩⟩
            have hcl : u.tcpClose.fds = u.fds.shut := rfl
            have hup : w.fds.up = false := not_up h
            rw [hnone rfl, fds_resetPeer, hcl, huf]
            simp [Fds.lost, Fds.failed, Fds.shut, Fds.close, hup]
  · rename_i hne
    exact absurd h hne

/-- The same for a connect that is pending. -/
theorem fds_onTcpConnInProg (h : w.state = .unconn) (s : Nat) :
    (w.onTcpConnInProg s).1 = true
      ∧ (w.onTcpConnInProg s).2.fds = { w.fds with inProg := true, sock := some s } := by
  have hf : (w.flags ||| peerConnInProg) &&& peerConnInProg ≠ 0 := by
    intro h0
    have hbit := congrArg (fun x : UInt8 => x.toBitVec.getLsbD 1) h0
    simp [peerConnInProg] at hbit
  unfold onTcpConnInProg
  split
  · refine ⟨rfl, ?_⟩
    simp only [fds, bne_iff_ne.mpr hf]
  · rename_i hne
    exact absurd h hne

/-- So does it take an accepted one, and gives up the connect that was pending. -/
theorem fds_onTcpAccept (h : w.state = .unconn) (s : Nat) (ip : IpAddr) :
    (w.onTcpAccept s ip).1 = true
      ∧ ∃ g, ((w.fds.inProg = true ∧ g = w.fds.shut) ∨ (w.fds.inProg = false ∧ g = w.fds))
        ∧ (w.onTcpAccept s ip).2.fds = { g with up := true, sock := some s } := by
  have hadd : ∀ (v : World) (t : Nat),
      ({ ({ v with sock := some s, localIp := ip } : World).addToTimerList .waitCer t with
        state := .waitCer } : World).fds = { v.fds with up := true, sock := some s } := by
    intro v t
    have hv := fds_addToTimerList ({ v with sock := some s, localIp := ip } : World) .waitCer t
    exact congrArg Fds.raise hv
  have hrm := fds_rmvFromTimerList w .reconn
  have hflags : (w.rmvFromTimerList .reconn).flags = w.flags := by rw [rmvFromTimerList_eq]
  unfold onTcpAccept
  split
  · refine ⟨rfl, ?_⟩
    dsimp only
    rw [hadd, hflags]
    by_cases hp : w.flags &&& peerConnInProg ≠ 0
    · rw [if_pos hp]
      refine ⟨w.fds.shut, Or.inl ⟨bne_iff_ne.mpr hp, rfl⟩, ?_⟩
      have hcl : (w.rmvFromTimerList .reconn).tcpClose.fds
          = (w.rmvFromTimerList .reconn).fds.shut := rfl
      rw [hcl, hrm]
    · rw [if_neg hp, hrm]
      exact ⟨w.fds, Or.inr ⟨by simpa [fds] using hp, rfl⟩, rfl⟩
  · rename_i hne
    exact absurd h hne

/-- A pending connect that is due again is closed, which neither resets nor clears the flag. -/
theorem fds_onPeerReconnTimeout (w : World) :
    w.onPeerReconnTimeout.2.fds = w.fds ∨ w.onPeerReconnTimeout.2.fds = w.fds.shut := by
  unfold onPeerReconnTimeout
  split
  · dsimp only
    rw [fds_command _ (by simp)]
    split
    · exact Or.inr rfl
    · exact Or.inl rfl
  · exact Or.inl rfl

theorem fds_doConnect {io : SockEnv} {s : Nat} (h : w.doConnect cfg env io s = .ok w') :
    w.fds.Finishes s io.sockopt env.cerMem w'.fds := by
  unfold doConnect at h
  cases hopt : io.sockopt with
  | false =>
      rw [hopt] at h
      obtain ⟨⟨b, v⟩, hv, hk⟩ := Res.bind_eq_ok h
      obtain rfl := Res.ok.inj hk
      have hv : w.onTcpConnFailed = (b, v) := Res.ok.inj hv
      have hcl : (v.closeSock (some s)).fds = v.fds.close (some s) := rfl
      by_cases hs : w.state = .unconn
      · have hf := fds_onTcpConnFailed hs
        rw [hv] at hf
        rw [hcl, hf]
        exact .failed (not_up hs) rfl
      · rw [refuses_failed hs] at hv
        obtain ⟨rfl, rfl⟩ := Prod.mk.inj hv
        rw [hcl]
        exact .refused (up_of_eq rfl hs)
  | true =>
      rw [hopt] at h
      obtain ⟨⟨b, v⟩, hv, hk⟩ := Res.bind_eq_ok h
      have hv : w.onTcpConnected cfg env s io.localIp = (b, v) := Res.ok.inj hv
      by_cases hs : w.state = .unconn
      · have hc := fds_onTcpConnected hs cfg env s io.localIp
        rw [hv] at hc
        obtain ⟨rfl, hc⟩ := hc
        obtain rfl := Res.ok.inj hk
        have hrd : ({ v with rdSet := v.rdSet ++ [s] } : World).fds
            = { v.fds with rdSet := v.fds.rdSet ++ [s] } := rfl
        rw [hrd]
        rcases hc with ⟨hm, hc⟩ | ⟨hm, hc⟩
        · have hc : v.fds = { w.fds with up := true, inProg := false, sock := some s } := hc
          rw [hc]
          exact .done (not_up hs) rfl hm
        · have hc : v.fds = ({ w.fds with sock := some s } : Fds).lost := hc
          rw [hc]
          exact .slip (not_up hs) rfl hm
      · rw [(refuses hs cfg env s io.localIp).2.1] at hv
        obtain ⟨rfl, rfl⟩ := Prod.mk.inj hv
        obtain rfl := Res.ok.inj hk
        exact .refused (up_of_eq rfl hs)

/-- What becomes of a connect that has failed, when its socket is gone already. -/
theorem fds_failedEvent {v : World} {f : Fds} (hv : v.fds = f)
    (h : (do let (_, w) ← peerStateMachine cfg env v .tcpConnFailed; return w) = .ok w') :
    (f.up = true ∧ w'.fds = f) ∨ (f.up = false ∧ w'.fds = f.failed) := by
  obtain ⟨⟨b, u⟩, hu, hk⟩ := Res.bind_eq_ok h
  obtain rfl := Res.ok.inj hk
  have hu : v.onTcpConnFailed = (b, u) := Res.ok.inj hu
  by_cases hst : v.state = .unconn
  · have hf := fds_onTcpConnFailed hst
    rw [hu, hv] at hf
    exact Or.inr ⟨hv ▸ not_up hst, hf⟩
  · rw [refuses_failed hst] at hu
    obtain ⟨-, rfl⟩ := Prod.mk.inj hu
    exact Or.inl ⟨hv ▸ up_of_eq rfl hst, hv⟩

theorem fds_tcpConnect {io : SockEnv} {n : Nat} (h : w.tcpConnect cfg env io = .ok w')
    (hn : w.nextSock = n) (hnew : n ∉ w.opened) :
    w.fds.Connects n io.made env.cerMem w'.fds := by
  subst hn
  have hfail : io.made = false → (w.fds.up = true ∧ w'.fds = w.fds)
      ∨ (w.fds.up = false ∧ w'.fds = w.fds.failed) →
      w.fds.Connects w.nextSock io.made env.cerMem w'.fds := by
    rintro hm (⟨hu, hf⟩ | ⟨hu, hf⟩)
    · rw [hf]
      exact .refused hu
    · rw [hf]
      exact .failed hu hm
  unfold tcpConnect at h
  cases hsock : io.socket with
  | false =>
      rw [hsock] at h
      exact hfail (by simp [SockEnv.made, hsock]) (fds_failedEvent rfl h)
  | true =>
      rw [hsock] at h
      set v : World := { w with nextSock := w.nextSock + 1, opened := w.opened ++ [w.nextSock] }
        with hv
      have hvf : v.fds = w.fds.opening w.nextSock := rfl
      have hclose : (v.closeSock (some w.nextSock)).fds = w.fds := Fds.close_opening (f := w.fds) hnew
      cases hsu : io.initSu with
      | false =>
          rw [hsu] at h
          exact hfail (by simp [SockEnv.made, hsu]) (fds_failedEvent hclose h)
      | true =>
          rw [hsu] at h
          cases hcon : io.connect with
          | failed =>
              rw [hcon] at h
              exact hfail (by simp [SockEnv.made, hcon]) (fds_failedEvent hclose h)
          | inProgress =>
              rw [hcon] at h
              obtain ⟨⟨b, u⟩, hu, hk⟩ := Res.bind_eq_ok h
              have hu : v.onTcpConnInProg w.nextSock = (b, u) := Res.ok.inj hu
              by_cases hst : v.state = .unconn
              · have hp := fds_onTcpConnInProg hst w.nextSock
                rw [hu] at hp
                obtain ⟨rfl, hp⟩ := hp
                obtain rfl := Res.ok.inj hk
                have hwr : ({ u with wrSet := u.wrSet ++ [w.nextSock] } : World).fds
                    = { u.fds with wrSet := u.fds.wrSet ++ [w.nextSock] } := rfl
                have hp : u.fds = { v.fds with inProg := true, sock := some w.nextSock } := hp
                rw [hwr, hp]
                exact .pending (not_up hst) (by simp [SockEnv.made, hcon])
              · rw [(refuses hst cfg env w.nextSock io.localIp).2.2] at hu
                obtain ⟨rfl, rfl⟩ := Prod.mk.inj hu
                obtain rfl := Res.ok.inj hk
                rw [hclose]
                exact .refused (up_of_eq (w := v) rfl hst)
          | done =>
              rw [hcon] at h
              have hd : v.doConnect cfg env io w.nextSock = .ok w' := h
              have hclose : v.fds.close (some w.nextSock) = w.fds := hclose
              have hmade : io.made = io.sockopt := by simp [SockEnv.made, hsock, hsu, hcon]
              rw [hmade]
              have hc := fds_doConnect hd
              generalize w'.fds = f at hc ⊢
              cases hc with
              | refused hu =>
                  rw [hclose]
                  exact .refused hu
              | failed hu hm =>
                  rw [hclose]
                  exact .failed hu hm
              | done hu hm hc => exact .done hu hm hc
              | slip hu hm hc => exact .slip hu hm hc

/-- A connect that does not slip. -/
theorem step_tcpConnect {io : SockEnv} {n : Nat} (h : w.tcpConnect cfg env io = .ok w')
    (hn : w.nextSock = n) (hnew : n ∉ w.opened)
    (hs : w.fds.up = false → w.fds.Settled ∧ (io.made = true → env.cerMem = true)) :
    Fds.Step n w.fds w'.fds := by
  have hc := fds_tcpConnect h hn hnew
  generalize w'.fds = f at hc ⊢
  cases hc with
  | refused hu => exact .idle
  | failed hu hm => exact .failed hu (hs hu).1
  | pending hu hm => exact .connecting hu (hs hu).1
  | done hu hm hc => exact .connected hu (hs hu).1
  | slip hu hm hno => exact absurd (((hs hu).2 hm).symm.trans hno) (by simp)

theorem step_tcpAccept {io : SockEnv} {n s : Nat} {rest : List Nat} {f : Fds}
    (h : w.tcpAccept cfg env io s = .ok w') (hf : f.accepted = s :: rest)
    (hw : w.fds = { f with accepted := rest }) : Fds.Step n f w'.fds := by
  have hcl : ∀ v : World, (v.closeSock (some s)).fds = v.fds.close (some s) := fun _ => rfl
  unfold tcpAccept at h
  cases hopt : io.sockopt with
  | false =>
      rw [hopt] at h
      obtain rfl := Res.ok.inj h
      rw [hcl, hw]
      exact .refused hf
  | true =>
      rw [hopt] at h
      obtain ⟨⟨b, v⟩, hv, hk⟩ := Res.bind_eq_ok h
      have hv : w.onTcpAccept s io.localIp = (b, v) := Res.ok.inj hv
      by_cases hs : w.state = .unconn
      · have ha := fds_onTcpAccept hs s io.localIp
        rw [hv] at ha
        obtain ⟨rfl, g, hg, ha⟩ := ha
        obtain rfl := Res.ok.inj hk
        have hrd : ({ v with rdSet := v.rdSet ++ [s] } : World).fds
            = { v.fds with rdSet := v.fds.rdSet ++ [s] } := rfl
        have ha : v.fds = { g with up := true, sock := some s } := ha
        have hup : f.up = false := by
          have hup := not_up hs
          rw [hw] at hup
          exact hup
        rw [hrd, ha]
        rw [hw] at hg
        rcases hg with ⟨hp, rfl⟩ | ⟨hp, rfl⟩
        · exact .taken (g := f.shut) hf hup (Or.inl ⟨hp, rfl⟩)
        · exact .taken (g := f) hf hup (Or.inr ⟨hp, rfl⟩)
      · rw [(refuses hs cfg env s io.localIp).1] at hv
        obtain ⟨rfl, rfl⟩ := Prod.mk.inj hv
        obtain rfl := Res.ok.inj hk
        rw [hcl, hw]
        exact .refused hf

/-- A pending connect has finished. -/
theorem fds_serveWrite {io : SockEnv} {s : Nat} {ok : Bool}
    (h : w.serveWrite cfg env io s ok = .ok w') :
    (w.fds.unwatch s).Finishes s (ok && io.sockopt) env.cerMem w'.fds := by
  unfold serveWrite at h
  dsimp only at h
  set v : World := { w with wrSet := w.wrSet.filter (· ≠ s) } with hv
  cases ok with
  | false =>
      rcases fds_failedEvent (v := v.closeSock (some s)) rfl h with ⟨hu, hf⟩ | ⟨hu, hf⟩
      · exact hf ▸ .refused hu
      · exact hf ▸ .failed hu rfl
  | true =>
      have h : v.doConnect cfg env io s = .ok w' := h
      exact fds_doConnect h

theorem step_serveWrite {io : SockEnv} {n s : Nat} {ok : Bool}
    (h : w.serveWrite cfg env io s ok = .ok w')
    (hs : w.sock = some s) (hw : s ∈ w.wrSet ∨ (s ∉ w.opened ∧ ok = false))
    (hm : w.fds.up = false → (ok && io.sockopt) = true → env.cerMem = true) :
    Fds.Step n w.fds w'.fds := by
  have hc := fds_serveWrite h
  generalize w'.fds = f at hc ⊢
  cases hc with
  | refused hu => exact .pendingLate hu hs (hw.imp id And.left)
  | failed hu hno => exact .pendingFailed hu hs
  | done hu hok hc =>
      have hin : s ∈ w.wrSet := by
        refine hw.resolve_right fun hgone => ?_
        rw [hgone.2] at hok
        exact absurd hok (by simp)
      exact .pendingDone hu hs hin
  | slip hu hok hno => exact absurd ((hm hu hok).symm.trans hno) (by simp)

theorem step_execute {io : SockEnv} {cmd : Cmd} {rest : List Cmd} (hp : w.pipe = cmd :: rest)
    (h : ({ w with pipe := rest } : World).execute cfg env io cmd = .ok w')
    (hn : w.nextSock ∉ w.opened)
    (hc : cmd = .addPeer ∨ cmd = .connect → w.fds.up = false →
      w.fds.Settled ∧ (io.made = true → env.cerMem = true)) :
    Fds.Step w.nextSock w.fds w'.fds := by
  have hpend : w.fds.accepted = pending (cmd :: rest) := by simp only [fds, hp]
  -- a command that hands over no connection leaves the descriptors alone when it is taken out
  have hpop : pending (cmd :: rest) = pending rest → ({ w with pipe := rest } : World).fds = w.fds := by
    intro he
    have hf : w.fds = { w.fds with accepted := pending rest } := by rw [← he, ← hpend]
    exact hf.symm
  have hkept : pending (cmd :: rest) = pending rest → Kept { w with pipe := rest } w' →
      Fds.Step w.nextSock w.fds w'.fds := by
    intro he hk
    rcases hk with hk | hk
    · rw [hk, hpop he]
      exact .idle
    · rw [hk, hpop he]
      exact .lost
  have hconn : (cmd = .addPeer ∨ cmd = .connect) → pending (cmd :: rest) = pending rest →
      ({ w with pipe := rest } : World).tcpConnect cfg env io = .ok w' →
      Fds.Step w.nextSock w.fds w'.fds := by
    intro hcmd he h
    have hst := step_tcpConnect h (n := w.nextSock) rfl hn
    rw [hpop he] at hst
    exact hst (hc hcmd)
  cases cmd with
  | addPeer => exact hconn (Or.inl rfl) rfl h
  | connect => exact hconn (Or.inr rfl) rfl h
  | accepted s => exact step_tcpAccept h hpend rfl
  | inactivity => exact hkept rfl (kept_event h trivial)
  | close o => exact hkept rfl (kept_event h trivial)
  | cerTimeout k => exact hkept rfl (kept_event h trivial)
  | trTimeout info o => exact hkept rfl (kept_event h trivial)
  | reconnTimeout =>
      obtain ⟨⟨b, v⟩, hv, hk⟩ := Res.bind_eq_ok h
      obtain rfl := Res.ok.inj hk
      obtain rfl : ({ w with pipe := rest } : World).onPeerReconnTimeout.2 = v :=
        congrArg Prod.snd (Res.ok.inj hv)
      rcases fds_onPeerReconnTimeout { w with pipe := rest } with hf | hf
      · rw [hf, hpop rfl]
        exact .idle
      · rw [hf, hpop rfl]
        exact .shut

/-! ## Workers and timers -/

theorem up_of_canSend (h : w.canSend = true) : w.fds.up = true := by
  rcases of_decide_eq_true h with hs | hs
  · exact up_of_eq hs (by decide)
  · exact up_of_eq hs (by decide)

theorem fds_sendReqToPeer (w : World) (env : Env) (inPeer : Option Nat) (orig : UInt32)
    (req : List UInt8) : (w.sendReqToPeer env inPeer orig req).2.fds = w.fds := by
  unfold sendReqToPeer
  split
  · rfl
  · rename_i hs
    have hu : w.fds.up = true := up_of_canSend (by simpa using hs)
    cases inPeer with
    | some p => exact (fds_safeWrite _ _ _ _).eq hu
    | none => exact (fds_safeWrite _ _ _ _).eq hu

theorem fds_sendResToPeer (w : World) (env : Env) (buf : List UInt8) :
    (w.sendResToPeer env buf).2.fds = w.fds := by
  unfold sendResToPeer
  split
  · rename_i hs
    exact (fds_safeWrite _ _ _ _).eq (up_of_canSend hs)
  · rfl

theorem fds_work {i : Nat} {parsed : Bool} (h : w.work i parsed = some w') : w'.fds = w.fds := by
  unfold work at h
  split at h
  · exact absurd h (by simp)
  · dsimp only at h
    split at h
    · split at h
      · obtain rfl := Option.some.inj h
        rfl
      · rename_i htl
        obtain rfl := Option.some.inj h
        have hv := fds_transactionLookup htl
        exact hv
    · obtain rfl := Option.some.inj h
      rfl

theorem fds_expireLink (h : w.expireLink = some w') : w'.fds = w.fds := by
  unfold expireLink at h
  split at h
  · exact absurd h (by simp)
  · split at h
    · split at h
      · obtain rfl := Option.some.inj h
        split
        · exact fds_command { w with tl := none } (by simp)
        · rfl
      · obtain rfl := Option.some.inj h
        exact fds_command { w with tl := none } (by simp)
    · exact absurd h (by simp)

theorem fds_expireTrans (w : World) (id : Nat) : (w.expireTrans id).fds = w.fds := by
  unfold expireTrans
  dsimp only
  split
  · rfl
  · split
    · exact fds_command _ (by simp)
    · rfl

/-! ## Steps -/

/--
The step leaves a bit behind: a connect for a peer whose connect is pending, or a connect
that is finished when there is no memory for the CER.
-/
def Slips (w : World) : Act → Prop
  | .exec env io =>
      match w.pipe with
      | .addPeer :: _ | .connect :: _ =>
          w.state = .unconn ∧ (¬ w.fds.Settled ∨ (io.made = true ∧ env.cerMem = false))
      | _ => False
  | .connectDone env io ok =>
      w.state = .unconn ∧ ¬ w.fds.Settled ∧ (ok && io.sockopt) = true ∧ env.cerMem = false
  | _ => False

/-- The kernel gives an accepted connection the number the peer still has from another one. -/
def Regains (w : World) : Act → Prop
  | .accept => w.sock = some w.nextSock
  | _ => False

/-- **What any other step does to the descriptors.** -/
theorem step_fds {a : Act} (h : step cfg w a = some w') (hn : w.nextSock ∉ w.opened)
    (hs : ¬ w.Slips a) (hr : ¬ w.Regains a) : Fds.Step w.nextSock w.fds w'.fds := by
  have hkept : Kept w w' → Fds.Step w.nextSock w.fds w'.fds := by
    rintro (hk | hk)
    · exact hk ▸ .idle
    · exact hk ▸ .lost
  cases a with
  | exec env io =>
      cases hp : w.pipe with
      | nil => simp [step, hp] at h
      | cons cmd rest =>
          simp only [step, hp] at h
          refine step_execute hp (ofRes_eq_some h) hn fun hcmd hu => ?_
          have hs : ¬ (w.state = .unconn
              ∧ (¬ w.fds.Settled ∨ (io.made = true ∧ env.cerMem = false))) := by
            rcases hcmd with rfl | rfl
            · simpa only [Slips, hp] using hs
            · simpa only [Slips, hp] using hs
          refine ⟨by_contra fun hset => hs ⟨not_up_iff.mp hu, Or.inl hset⟩, fun hmade => ?_⟩
          exact Bool.of_not_eq_false fun hno => hs ⟨not_up_iff.mp hu, Or.inr ⟨hmade, hno⟩⟩
  | read env evs avail =>
      simp only [step] at h
      split at h
      · exact absurd h (by simp)
      · split at h
        · exact hkept (kept_serveRead (ofRes_eq_some h))
        · exact absurd h (by simp)
  | connectDone env io ok =>
      simp only [step] at h
      split at h
      · exact absurd h (by simp)
      · rename_i s hsock
        split at h
        · rename_i hw
          refine step_serveWrite (ofRes_eq_some h) hsock (Or.inl hw) fun hu hok => ?_
          have hset : ¬ w.fds.Settled := fun hset => hset s hsock hw
          exact Bool.of_not_eq_false fun hno => hs ⟨not_up_iff.mp hu, hset, hok, hno⟩
        · split at h
          · rename_i hgone
            exact step_serveWrite (ofRes_eq_some h) hsock (Or.inr ⟨hgone.2, rfl⟩)
              (fun _ hno => absurd hno (by simp))
          · exact absurd h (by simp)
  | hangup env cause =>
      have h : (do return (← peerStateMachine cfg env w (.peerHangup cause)).2 : Res World) = .ok w' :=
        ofRes_eq_some h
      exact hkept (kept_event h trivial)
  | sendReq env inPeer orig req =>
      obtain rfl := Option.some.inj h
      exact hkept (Or.inl (fds_sendReqToPeer w env inPeer orig req))
  | sendRes env buf =>
      obtain rfl := Option.some.inj h
      exact hkept (Or.inl (fds_sendResToPeer w env buf))
  | work i parsed => exact hkept (Or.inl (fds_work h))
  | accept =>
      obtain rfl := Option.some.inj h
      have hp : pending (w.pipe ++ [Cmd.accepted w.nextSock]) = pending w.pipe ++ [w.nextSock] :=
        pending_append _ _
      have ha : Fds.Step w.nextSock w.fds { w.fds with
          opened := w.fds.opened ++ [w.nextSock]
          accepted := w.fds.accepted ++ [w.nextSock] } := .accept hr
      have hf : w.fds.accepted = pending w.pipe := rfl
      rw [hf, ← hp] at ha
      exact ha
  | tick =>
      obtain rfl := Option.some.inj h
      exact .idle
  | expireLink => exact hkept (Or.inl (fds_expireLink h))
  | expireActiv =>
      simp only [step, expireActiv] at h
      split at h
      · obtain rfl := Option.some.inj h
        exact hkept (Or.inl (fds_command { w with inActiv := false } (by simp)))
      · exact absurd h (by simp)
  | expireTrans id =>
      simp only [step] at h
      split at h
      · obtain rfl := Option.some.inj h
        exact hkept (Or.inl (fds_expireTrans w id))
      · exact absurd h (by simp)

/-- **What any step does to the numbers.** -/
theorem step_renumbers {a : Act} (h : step cfg w a = some w') (hn : w.nextSock ∉ w.opened)
    (hr : ¬ w.Regains a) : Fds.Renumbers w.nextSock w.fds w'.fds := by
  by_cases hs : w.Slips a
  · -- a connect, whatever comes of it
    cases a with
    | exec env io =>
        cases hp : w.pipe with
        | nil => simp [step, hp] at h
        | cons cmd rest =>
            simp only [step, hp] at h
            simp only [Slips, hp] at hs
            cases cmd with
            | addPeer | connect =>
                have hf : ({ w with pipe := rest } : World).fds = w.fds := by
                  simp [fds, hp, pending]
                have hc := (fds_tcpConnect (ofRes_eq_some h) rfl hn).renumbers
                rw [hf] at hc
                exact hc
            | _ => exact hs.elim
    | connectDone env io ok =>
        obtain ⟨-, hset, -⟩ := hs
        simp only [Fds.Settled, not_forall, not_not] at hset
        obtain ⟨s, hsock, hin⟩ := hset
        have hsock : w.sock = some s := hsock
        have hin : s ∈ w.wrSet := hin
        simp only [step, hsock, if_pos hin] at h
        exact (fds_serveWrite (ofRes_eq_some h)).renumbers hsock
    | _ => exact hs.elim
  · exact (step_fds h hn hs hr).renumbers

/-- **What a slip leaves behind**: a closed socket in the read set, or nobody's in the write set. -/
theorem step_slips {a : Act} (h : step cfg w a = some w') (hn : w.nextSock ∉ w.opened)
    (hwr : ∀ s ∈ w.wrSet, s ∈ w.opened) (hs : w.Slips a) :
    (∃ s ∈ w'.rdSet, s ∉ w'.opened)
    ∨ ∃ s ∈ w.wrSet, w.sock = some s ∧ s ∈ w'.wrSet ∧ w'.sock ≠ some s := by
  cases a with
  | exec env io =>
      cases hp : w.pipe with
      | nil => simp [step, hp] at h
      | cons cmd rest =>
          simp only [step, hp] at h
          simp only [Slips, hp] at hs
          have hconn : ({ w with pipe := rest } : World).tcpConnect cfg env io = .ok w'
              ∧ w.state = .unconn ∧ (¬ w.fds.Settled ∨ (io.made = true ∧ env.cerMem = false)) := by
            cases cmd with
            | addPeer | connect => exact ⟨ofRes_eq_some h, hs⟩
            | _ => exact hs.elim
          obtain ⟨hconn, hst, hbad⟩ := hconn
          set v : World := { w with pipe := rest } with hv
          -- the socket of a pending connect loses its name, whatever comes of the new one
          have hold : ∀ f : Fds, w'.fds = f → (∀ s ∈ w.wrSet, s ∈ f.wrSet) →
              (f.sock = none ∨ f.sock = some w.nextSock) → ¬ w.fds.Settled →
              ∃ s ∈ w.wrSet, w.sock = some s ∧ s ∈ w'.wrSet ∧ w'.sock ≠ some s := by
            intro f hf hsub hsock hset
            simp only [Fds.Settled, not_forall, not_not] at hset
            obtain ⟨s, hs, hin⟩ := hset
            have hwr' : w'.wrSet = f.wrSet := congrArg Fds.wrSet hf
            have hsock' : w'.sock = f.sock := congrArg Fds.sock hf
            refine ⟨s, hin, hs, hwr' ▸ hsub s hin, ?_⟩
            rw [hsock']
            rcases hsock with hnone | hnew
            · simp [hnone]
            · rw [hnew]
              rintro he
              obtain rfl := Option.some.inj he
              exact hn (hwr _ hin)
          have hup : v.fds.up = false := not_up hst
          have hc := fds_tcpConnect hconn rfl hn
          generalize hf : w'.fds = f at hc
          cases hc with
          | refused hu => exact absurd (hu.symm.trans hup) (by simp)
          | failed _ hm =>
              have hset := hbad.resolve_right fun hb => absurd (hm.symm.trans hb.1) (by simp)
              exact Or.inr (hold _ hf (fun _ hx => hx) (Or.inl rfl) hset)
          | pending _ hm =>
              have hset := hbad.resolve_right fun hb => absurd (hm.symm.trans hb.1) (by simp)
              exact Or.inr (hold _ hf (fun _ hx => List.mem_append_left _ hx) (Or.inr rfl) hset)
          | done _ _ hm =>
              have hset := hbad.resolve_right fun hb => absurd (hm.symm.trans hb.2) (by simp)
              exact Or.inr (hold _ hf (fun _ hx => hx) (Or.inr rfl) hset)
          | slip =>
              obtain ⟨hin, hno⟩ := Fds.slip_closed (v.fds.opening w.nextSock) w.nextSock
              rw [← hf] at hin hno
              exact Or.inl ⟨_, hin, hno⟩
  | connectDone env io ok =>
      obtain ⟨hst, hset, hok, hno⟩ := hs
      simp only [Fds.Settled, not_forall, not_not] at hset
      obtain ⟨s, hsock, hin⟩ := hset
      have hsock : w.sock = some s := hsock
      have hin : s ∈ w.wrSet := hin
      simp only [step, hsock, if_pos hin] at h
      have hup := not_up hst
      have hc := fds_serveWrite (ofRes_eq_some h)
      generalize hf : w'.fds = f at hc
      cases hc with
      | refused hu => exact absurd (hu.symm.trans hup) (by simp)
      | failed _ hm => exact absurd (hm.symm.trans hok) (by simp)
      | done _ _ hm => exact absurd (hm.symm.trans hno) (by simp)
      | slip =>
          obtain ⟨hrd, hcl⟩ := Fds.slip_closed (w.fds.unwatch s) s
          rw [← hf] at hrd hcl
          exact Or.inl ⟨s, hrd, hcl⟩
  | _ => exact hs.elim

end World

end Disc.Transport
