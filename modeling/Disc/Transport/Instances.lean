import Disc.Transport.Admission
import Disc.Transport.Watched

/-!
# Connections and their numbers

The number of a socket names a connection until it is given out again. What a peer is
connected to is the number together with how often it was given out, and on this the
capabilities are exchanged.

Most of the code keeps to that, since a peer that gives up its connection forgets the
number. `PEER_RECONN_TIMEOUT` does not: it closes a pending connect and leaves `p->sock`
as it is. If the kernel gives the number to the socket of another peer, the first one
reads from it and closes it as its own; then the second is connected with a number that
stands for anything the kernel likes, and the workers write there. As long as no socket
gets a number that a peer still goes by, every message of the workers is sent after the
exchange, and the states tell whether one that comes in is.
-/

namespace Disc.Transport

open Disc.Lib Disc.Msg

/-- A TCP connection: the number of its socket, and how often that had been given out. -/
structure TcpConn where
  num : Nat
  given : Nat
deriving DecidableEq

/-- A receive thread, and what its peers did on which connection. -/
structure Wired where
  thread : Thread
  /-- How often a number was given out. -/
  given : Nat → Nat
  /-- Where `process_ce` succeeded, and for which peer. -/
  done : List (Nat × TcpConn)
  /-- Where messages of the workers were written, and for which peer. -/
  sent : List (Nat × TcpConn)

/-- The accept thread has a connection for the peer. -/
def Deed.accepts : Deed → Bool
  | .act .accept => true
  | _ => false

namespace Thread

/--
The number of a new socket is none that a peer still goes by: none of an accept command on
its way, and none in `p->sock`, but that of an unconnected peer whose own connect it is.
-/
def fresh (t : Thread) (u : Turn) : Bool :=
  t.peers.zipIdx.all fun (w, j) => !(pending w.pipe).contains u.num
    && (w.sock != some u.num || (j == u.peer && w.state == .unconn && !u.deed.accepts))

theorem fresh_peer {t : Thread} {u : Turn} {j : Nat} {w : World} (h : t.fresh u = true)
    (hw : t.peers[j]? = some w) : u.num ∉ pending w.pipe
      ∧ (w.sock = some u.num → j = u.peer ∧ w.state = .unconn ∧ u.deed.accepts = false) := by
  have hin : (w, j) ∈ t.peers.zipIdx := List.mem_zipIdx_iff_getElem?.mpr hw
  have hj := List.all_eq_true.mp h (w, j) hin
  simp only [Bool.and_eq_true, Bool.not_eq_true', List.contains_eq_mem, decide_eq_false_iff_not,
    Bool.or_eq_true, bne_iff_ne, beq_iff_eq] at hj
  obtain ⟨hp, hs⟩ := hj
  exact ⟨hp, fun hk => let ⟨⟨hj, hu⟩, ha⟩ := hs.resolve_left (fun hne => hne hk); ⟨hj, hu, ha⟩⟩

end Thread

namespace Wired

/-- The connection a number stands for. -/
def conn (x : Wired) (s : Nat) : TcpConn := ⟨s, x.given s⟩

/-- `process_ce` has succeeded for the peer, on the connection it is on. -/
def Exchanged (x : Wired) (i : Nat) (w : World) : Prop :=
  ∃ s, w.sock = some s ∧ (i, x.conn s) ∈ x.done

/-- What is recorded of log entries that are about these sockets. -/
def entries (given : Nat → Nat) (i : Nat) (socks : List (Option Nat)) : List (Nat × TcpConn) :=
  socks.filterMap fun sock => sock.map fun s => (i, ⟨s, given s⟩)

/-- A new socket has got the number, and is still open after the step. -/
def given' (x : Wired) (w w' : World) (s : Nat) : Nat :=
  if s = w.nextSock ∧ s ∈ w'.opened then x.given s + 1 else x.given s

/-- Record what a peer did. -/
def record (x : Wired) (t : Thread) (i : Nat) (w w' : World) : Wired where
  thread := t
  given := x.given' w w'
  done := x.done ++ entries (x.given' w w') i ((w'.ceLog.drop w.ceLog.length).map (·.sock))
  sent := x.sent ++ entries (x.given' w w') i
    (((w'.writes.drop w.writes.length).filter (·.kind.byWorker)).map (·.sock))

/-- One step of the thread. -/
def step (cfg : Cfg) (x : Wired) (u : Turn) : Option Wired :=
  (x.thread.step cfg u).bind fun t =>
    match x.thread.peers[u.peer]?, t.peers[u.peer]? with
    | some w, some w' => some (x.record t u.peer (x.thread.view u.num w) w')
    | _, _ => none

/-- New peers, and nothing recorded. -/
def Init (x : Wired) : Prop := x.thread.Init ∧ x.done = [] ∧ x.sent = []

def Runs (cfg : Cfg) (ok : Wired → Turn → Prop) : Wired → Prop := Reach Init (step cfg) ok

/-! ## Steps -/

variable {cfg : Cfg} {x x' : Wired} {u : Turn} {i j s : Nat} {w w' : World}

theorem mem_entries {given : Nat → Nat} {socks : List (Option Nat)} {c : TcpConn} :
    (j, c) ∈ entries given i socks ↔ j = i ∧ some c.num ∈ socks ∧ c.given = given c.num := by
  simp only [entries, List.mem_filterMap, Option.map_eq_some_iff]
  constructor
  · rintro ⟨_, hin, s, rfl, he⟩
    obtain ⟨rfl, rfl⟩ := Prod.mk.inj he
    exact ⟨rfl, hin, rfl⟩
  · rintro ⟨rfl, hin, hg⟩
    refine ⟨_, hin, c.num, rfl, ?_⟩
    rw [← hg]

theorem step_cases (h : step cfg x u = some x') :
    ∃ w w', x.thread.peers[u.peer]? = some w ∧ u.num ∉ x.thread.opened
      ∧ u.deed.run cfg (x.thread.view u.num w) = some w'
      ∧ x' = x.record (x.thread.put u.peer w') u.peer (x.thread.view u.num w) w' := by
  obtain ⟨t, ht, h⟩ := Option.bind_eq_some_iff.mp h
  obtain ⟨w, w', hw, hn, rfl, hrun⟩ := Thread.step_cases ht
  have hlt : u.peer < x.thread.peers.length := (List.getElem?_eq_some_iff.mp hw).1
  have hw' : (x.thread.put u.peer w').peers[u.peer]? = some w' := List.getElem?_set_self hlt
  rw [hw, hw'] at h
  exact ⟨w, w', hw, hn, hrun, (Option.some.inj h).symm⟩

theorem given_le (x : Wired) (w w' : World) (s : Nat) : x.given s ≤ x.given' w w' s := by
  unfold given'
  split
  · exact Nat.le_succ _
  · exact Nat.le_refl _

/-- What stands for a number that was not given out is what stood for it before. -/
theorem given_eq (x : Wired) {w w' : World} {s : Nat} (h : s ≠ w.nextSock) :
    x.given' w w' s = x.given s := if_neg fun hs => h hs.1

/-- What a deed does to a peer. -/
structure Done (w w' : World) : Prop where
  rises : Core.Rises w.core w'.core
  turns : Core.Turns w.core w'.core
  adds : Core.Adds w.core w'.core
  shaken : Core.Shaken w.core → Core.Shaken w'.core
  numbers : Fds.Renumbers w.nextSock w.fds w'.fds

theorem deed_done {d : Deed} (h : d.run cfg w = some w') (hn : w.nextSock ∉ w.opened)
    (hr : d.accepts = true → w.sock ≠ some w.nextSock) : Done w w' := by
  cases d with
  | act a =>
      obtain ⟨op, hst, -⟩ := World.step_core h
      refine ⟨hst.rises, hst.turns, hst.adds, fun hs => hs.step hst, ?_⟩
      refine World.step_renumbers h hn fun hreg => ?_
      cases a with
      | accept => exact hr rfl hreg
      | _ => exact hreg.elim
  | post cmd =>
      have hcmd : (∀ s, cmd ≠ .accepted s) ∧ w' = w.command cmd := by
        cases cmd with
        | accepted s => exact absurd h (by simp [Deed.run])
        | _ => exact ⟨by simp, (Option.some.inj h).symm⟩
      obtain ⟨hcmd, rfl⟩ := hcmd
      refine ⟨.same rfl fun hu => ⟨rfl, hu⟩, .same rfl rfl rfl, .none rfl,
        fun hs => hs.of_eq rfl rfl rfl rfl, ?_⟩
      rw [World.fds_command w hcmd]
      exact .kept (Or.inl rfl) rfl

/-! ## What is recorded -/

/-- What the record says about a peer. -/
structure Told (x : Wired) (i : Nat) (w : World) : Prop where
  shaken : Core.Shaken w.core
  up : w.core.Up ∨ w.state = .error → x.Exchanged i w
  waiting : w.core.Waiting → ¬ x.Exchanged i w
  queued : w.fds.Queued
  /-- Nothing was done on a connection that the peer has not got yet. -/
  unused : ∀ s ∈ pending w.pipe, (i, x.conn s) ∉ x.done

/-- The sets do not matter. -/
theorem Told.view (ht : x.Told i w) (n : Nat) : x.Told i (x.thread.view n w) :=
  ⟨ht.shaken, ht.up, ht.waiting, ⟨ht.queued.apart, ht.queued.nodup⟩, ht.unused⟩

structure Sound (x : Wired) : Prop where
  peers : ∀ i w, x.thread.peers[i]? = some w → x.Told i w
  /-- The record is of connections that were there. -/
  past : ∀ j c, (j, c) ∈ x.done → c.given ≤ x.given c.num
  sent : ∀ r ∈ x.sent, r ∈ x.done

/-- A connection that is on record was there before the step. -/
theorem Sound.old (hs : Sound x) (h : (i, TcpConn.mk s (x.given' w w' s)) ∈ x.done) :
    (i, x.conn s) ∈ x.done ∧ ¬ (s = w.nextSock ∧ s ∈ w'.opened) := by
  have hle := hs.past i _ h
  have hno : ¬ (s = w.nextSock ∧ s ∈ w'.opened) := by
    intro hnew
    rw [given', if_pos hnew] at hle
    exact absurd hle (Nat.not_succ_le_self _)
  rw [given', if_neg hno] at h
  exact ⟨h, hno⟩

/-- The record of one peer says nothing about another one. -/
theorem Sound.other (hs : Sound x) {t : Thread}
    (h : (j, TcpConn.mk s (x.given' w w' s)) ∈ (x.record t i w w').done) (hj : j ≠ i) :
    (j, x.conn s) ∈ x.done := by
  rcases List.mem_append.mp h with h | h
  · exact (hs.old h).1
  · exact absurd (mem_entries.mp h).1 hj

/-- A peer whose numbers are not given out keeps what is told about it. -/
theorem Told.other (hs : Sound x) {t : Thread} {v : World} (ht : x.Told j v) (hj : j ≠ i)
    (hsock : v.sock ≠ some w.nextSock) : (x.record t i w w').Told j v := by
  refine ⟨ht.shaken, fun hu => ?_, fun hw => ?_, ht.queued, fun s hin hdone => ?_⟩
  · obtain ⟨s, hsock', hdone⟩ := ht.up hu
    refine ⟨s, hsock', List.mem_append_left _ ?_⟩
    have hne : s ≠ w.nextSock := fun he => hsock (he ▸ hsock')
    have hc : (x.record t i w w').conn s = x.conn s := congrArg (TcpConn.mk s) (x.given_eq hne)
    rw [hc]
    exact hdone
  · rintro ⟨s, hsock', hdone⟩
    exact ht.waiting hw ⟨s, hsock', hs.other hdone hj⟩
  · exact ht.unused s hin (hs.other hdone hj)

section

variable {t : Thread}

/-- An entry about the peer whose turn it is was there before, or is of this step. -/
theorem Sound.entry (hs : Sound x) (hd : Done w w')
    (h : (i, TcpConn.mk s (x.given' w w' s)) ∈ (x.record t i w w').done) :
    ((i, x.conn s) ∈ x.done ∧ ¬ (s = w.nextSock ∧ s ∈ w'.opened))
    ∨ (w.sock = some s ∧ w'.ceLog ≠ w.ceLog) := by
  obtain ⟨l, hlog, hentries⟩ := hd.rises.log
  have hlog : w'.ceLog = w.ceLog ++ l := hlog
  rcases List.mem_append.mp h with h | h
  · exact Or.inl (hs.old h)
  · obtain ⟨-, hin, -⟩ := mem_entries.mp h
    rw [hlog, List.drop_left] at hin
    obtain ⟨e, he, hes⟩ := List.mem_map.mp hin
    refine Or.inr ⟨(hentries e he).symm.trans hes, fun hsame => ?_⟩
    have hnil : l = [] := List.self_eq_append_right.mp (hsame.symm.trans hlog)
    rw [hnil] at he
    exact absurd he (by simp)

/-- What a peer is on and was on before is the same connection. -/
theorem Exchanged.keep (hx : x.Exchanged i w) (hk : w'.sock = w.sock)
    (hsock : w.sock ≠ some w.nextSock) : (x.record t i w w').Exchanged i w' := by
  obtain ⟨s, hs', hdone⟩ := hx
  have hc : (x.record t i w w').conn s = x.conn s :=
    congrArg (TcpConn.mk s) (x.given_eq fun he => hsock (he ▸ hs'))
  exact ⟨s, hk.trans hs', List.mem_append_left _ (by rw [hc]; exact hdone)⟩

/-- **A peer that is up** was up on this connection before, or has just exchanged. -/
theorem Told.own_up (ht : x.Told i w) (hd : Done w w')
    (hsock : w.state ≠ .unconn → w.sock ≠ some w.nextSock) (hu : w'.core.Up) :
    (x.record t i w w').Exchanged i w' := by
  obtain ⟨hk, hsrc⟩ := hd.rises.up hu
  rcases hsrc with hu₀ | ⟨e, he⟩
  · exact (ht.up (Or.inl hu₀)).keep hk (hsock hu₀.ne_unconn)
  · obtain ⟨s, hs'⟩ := (hd.shaken ht.shaken).sock hu.ne_unconn
    obtain ⟨l, hlog, hentries⟩ := hd.rises.log
    have he : w'.ceLog = w.ceLog ++ [e] := he
    obtain rfl : l = [e] := List.append_cancel_left (hlog.symm.trans he)
    have hes : e.sock = some s := (hentries e (List.mem_singleton.mpr rfl)).trans (hk.symm.trans hs')
    refine ⟨s, hs', List.mem_append_right _ (mem_entries.mpr ⟨rfl, ?_, rfl⟩)⟩
    rw [he, List.drop_left]
    simp [conn, hes]

/-- A peer gets into error on the connection on which it was up. -/
theorem Told.own_error (ht : x.Told i w) (hd : Done w w')
    (hsock : w.state ≠ .unconn → w.sock ≠ some w.nextSock) (he : w'.state = .error) :
    (x.record t i w w').Exchanged i w' := by
  obtain ⟨hup, hk, -⟩ := hd.turns.error he
  have hne : w.state ≠ .unconn := by
    rcases hup with hu | he
    · exact hu.ne_unconn
    · intro hu
      exact absurd (he.symm.trans hu) (by decide)
  exact (ht.up hup).keep hk (hsock hne)

/-- **A peer that waits** is on a connection it waited on before, or on one that is new to it. -/
theorem Told.own_waiting (hs : Sound x) (ht : x.Told i w) (hd : Done w w') (hw : w'.core.Waiting) :
    ¬ (x.record t i w w').Exchanged i w' := by
  rintro ⟨s, hs', hdone⟩
  rcases hd.turns.waiting hw with hnone | ⟨hw₀, hsame⟩
  · exact absurd (hs'.symm.trans hnone) (by simp)
  · rcases hs.entry hd hdone with ⟨hold, hno⟩ | ⟨-, hne⟩
    · rcases hd.numbers.sock hs' with hk | hnew | hin
      · exact ht.waiting hw₀ ⟨s, hk, hold⟩
      · exact hno hnew
      · exact ht.unused s hin hold
    · exact hne hsame

/-- **The peer whose turn it is.** -/
theorem Told.own (hs : Sound x) (ht : x.Told i w) (hd : Done w w')
    (hsock : w.state ≠ .unconn → w.sock ≠ some w.nextSock) (hpend : w.nextSock ∉ pending w.pipe) :
    (x.record t i w w').Told i w' := by
  refine ⟨hd.shaken ht.shaken, ?_, ht.own_waiting hs hd, hd.numbers.queued ht.queued hpend,
    fun s hin hdone => ?_⟩
  · rintro (hu | he)
    · exact ht.own_up hd hsock hu
    · exact ht.own_error hd hsock he
  -- what waits afterwards waited before, or is new
  · rcases hs.entry hd hdone with ⟨hold, hno⟩ | ⟨hk, -⟩
    · rcases hd.numbers.accepted hin with hin | ⟨hn, ho, -⟩
      · exact ht.unused s hin hold
      · exact hno ⟨hn, ho⟩
    · rcases hd.numbers.accepted hin with hin | ⟨-, -, hne⟩
      · exact ht.queued.apart s hin hk
      · exact hne hk

/-- **A worker writes** for a peer that is up, so on a connection that was there before. -/
theorem Told.wrote {r : Nat × TcpConn} (ht : x.Told i w) (hd : Done w w')
    (hsock : w.state ≠ .unconn → w.sock ≠ some w.nextSock)
    (h : r ∈ entries (x.given' w w') i
      (((w'.writes.drop w.writes.length).filter (·.kind.byWorker)).map (·.sock))) : r ∈ x.done := by
  obtain ⟨j, c⟩ := r
  obtain ⟨rfl, hmem, hgiven⟩ := mem_entries.mp h
  obtain ⟨l, hlog, hl⟩ := hd.adds
  have hlog : w'.writes = w.writes ++ l := hlog
  rw [hlog, List.drop_left] at hmem
  obtain ⟨rec, hrec, hrs⟩ := List.mem_map.mp hmem
  obtain ⟨hrec, hby⟩ := List.mem_filter.mp hrec
  obtain ⟨hup, hk⟩ := hl rec hrec hby
  have hk : w.sock = some c.num := hk.symm.trans hrs
  obtain ⟨s, hs', hdone⟩ := ht.up (Or.inl hup)
  obtain rfl := Option.some.inj (hk.symm.trans hs')
  have hne : c.num ≠ w.nextSock := fun he => hsock hup.ne_unconn (he ▸ hk)
  rw [x.given_eq hne] at hgiven
  have hc : c = x.conn c.num := congrArg (TcpConn.mk c.num) hgiven
  rw [hc]
  exact hdone

end

theorem Sound.step (hs : Sound x) (h : step cfg x u = some x') (hok : x.thread.fresh u = true) :
    Sound x' := by
  obtain ⟨w, w', hw, hn, hrun, rfl⟩ := step_cases h
  obtain ⟨hpend, hself⟩ := Thread.fresh_peer hok hw
  set v := x.thread.view u.num w with hv
  have htold : x.Told u.peer v := (hs.peers u.peer w hw).view u.num
  have hsock : v.state ≠ .unconn → v.sock ≠ some v.nextSock := fun hne hk => hne (hself hk).2.1
  have hd : Done v w' := deed_done hrun hn fun hacc hk =>
    absurd ((hself hk).2.2.symm.trans hacc) (by simp)
  refine ⟨fun j z hz => ?_, fun j c hin => ?_, fun r hin => ?_⟩
  · rcases Thread.put_cases hz with ⟨rfl, rfl⟩ | ⟨hj, hz⟩
    · exact htold.own hs hd hsock hpend
    · have hself := (Thread.fresh_peer hok hz).2
      exact (hs.peers j z hz).other hs hj fun hk => hj (hself hk).1
  · rcases List.mem_append.mp hin with hin | hin
    · exact Nat.le_trans (hs.past j c hin) (x.given_le v w' c.num)
    · exact Nat.le_of_eq (mem_entries.mp hin).2.2
  · rcases List.mem_append.mp hin with hin | hin
    · exact List.mem_append_left _ (hs.sent r hin)
    · exact List.mem_append_left _ (htold.wrote hd hsock hin)

theorem sound_init (h : Init x) : Sound x := by
  obtain ⟨⟨hpeers, -⟩, hdone, hsent⟩ := h
  refine ⟨fun i w hw => ?_, fun j c hin => ?_, fun r hin => ?_⟩
  · obtain ⟨nextLabel, ete, jiffies, rfl⟩ := hpeers w (List.mem_of_getElem? hw)
    have hpend : pending (World.start nextLabel ete jiffies).pipe = [] := rfl
    refine ⟨⟨fun hne => absurd rfl hne, fun hu => absurd rfl hu.ne_unconn,
      by simp [World.core, World.start]⟩, ?_, ?_, ⟨fun s hin => ?_, List.nodup_nil⟩, fun s hin => ?_⟩
    · rintro (hu | he)
      · exact absurd rfl hu.ne_unconn
      · exact absurd he (by simp [World.start])
    · rintro - ⟨s, -, hin⟩
      rw [hdone] at hin
      exact absurd hin (by simp)
    · exact absurd hin (by simp [World.fds, hpend])
    · rw [hpend] at hin
      exact absurd hin (by simp)
  · rw [hdone] at hin
    exact absurd hin (by simp)
  · rw [hsent] at hin
    exact absurd hin (by simp)

theorem sound_reached (h : Runs cfg (fun x u => x.thread.fresh u = true) x) : Sound x :=
  Reach.invariant (fun _ => sound_init) (fun _ _ _ hs hok hst => hs.step hst hok) h

/-! ## The handshake -/

/-- Two new peers. -/
def sample : Wired where
  thread := Thread.sample
  given := fun _ => 0
  done := []
  sent := []

theorem Runs.of_trace {β : Type} {cfg : Cfg} {ok : Wired → Turn → Bool} {us : List Turn}
    {f : Wired → β} {b : β} (h : (trace (step cfg) ok us sample).map f = some b) :
    ∃ x, Runs cfg (fun x u => ok x u = true) x ∧ f x = b := by
  obtain ⟨x, hx, hf⟩ := Option.map_eq_some_iff.mp h
  exact ⟨x, Reach.trace (.init ⟨Thread.init_sample, rfl, rfl⟩) hx, hf⟩

/-- The peer at place `i` takes steps during which a new socket would get the number `n`. -/
def turns (i n : Nat) (as : List Act) : List Turn := as.map fun a => ⟨i, n, .act a⟩

/-- It is connected by an accepted socket with this number. -/
def sampleConnect (i n : Nat) : List Turn := turns i n [.accept] ++ turns i 9 sampleAccept.tail

/-- A worker has a request for the peer. -/
def sampleSend : Act := .sendReq sampleEnv (some 1) 0 sampleCer

/--
A pending connect of the second peer is due again, and closed. Its number goes to a socket
for the first peer, which gets connected. The second one still goes by it and reads what is
no message, and so it closes the connection of the first.
-/
def sampleClash : List Turn :=
  turns 1 9 ([Act.exec sampleEnv { sampleIo with socket := false }] ++ List.replicate 120 Act.tick
      ++ [Act.expireLink])
    ++ turns 1 3 [.accept]
    ++ turns 1 9 ([Act.exec sampleEnv sampleIo, Act.exec sampleEnv sampleIo, Act.read sampleEnv [.fin] []]
      ++ List.replicate 120 Act.tick ++ [Act.expireLink])
    ++ turns 1 4 [.exec sampleEnv { sampleIo with connect := .inProgress }]
    ++ turns 1 9 [.exec sampleEnv sampleIo]
    ++ sampleConnect 0 4
    ++ turns 1 9 [.read sampleEnv [.got 4] [0, 0, 0, 0]]

/-- The exchange is done on the connection of a peer exactly when it does not wait for it. -/
theorem Told.exchanged_iff (ht : x.Told i w) : x.Exchanged i w ↔ ¬ w.core.Waiting := by
  refine ⟨fun he hw => ht.waiting hw he, fun hw => ?_⟩
  cases hs : w.state with
  | unconn => exact absurd (Or.inl hs) hw
  | waitCer => exact absurd (Or.inr (Or.inl hs)) hw
  | waitCea => exact absurd (Or.inr (Or.inr hs)) hw
  | conn => exact ht.up (Or.inl (Or.inl hs))
  | waitDwa => exact ht.up (Or.inl (Or.inr (Or.inl hs)))
  | waitDpa => exact ht.up (Or.inl (Or.inr (Or.inr hs)))
  | error => exact ht.up (Or.inr hs)

/--
**Which session messages are queued after an exchange**, as long as no socket gets a number
that a peer still goes by.

A step queues a message exactly when it reads one that is not CE, DW or DP. At that moment
`process_ce` has succeeded on the connection exactly when the peer is in none of
`PEER_UNCONN`, `PEER_WAIT_CER` and `PEER_WAIT_CEA`.
-/
theorem queued_exchanged {buf : List UInt8}
    (h : Runs cfg (fun x u => x.thread.fresh u = true) x) (hst : step cfg x u = some x')
    (hw : x.thread.peers[u.peer]? = some w) (hw' : x'.thread.peers[u.peer]? = some w') :
    (w'.queue = w.queue ++ [buf]
      ↔ ∃ a, u.deed = .act a ∧ w.message a = some buf ∧ ¬ Core.ForPeer buf)
    ∧ (w'.queue = w.queue ++ [buf] →
      (x.Exchanged u.peer w ↔ w.state ≠ .unconn ∧ w.state ≠ .waitCer ∧ w.state ≠ .waitCea)) := by
  refine ⟨?_, fun _ => ?_⟩
  · obtain ⟨v, v', hv, -, hrun, rfl⟩ := step_cases hst
    obtain rfl := Option.some.inj (hw.symm.trans hv)
    obtain rfl : w' = v' := by
      rcases Thread.put_cases hw' with ⟨-, he⟩ | ⟨hne, -⟩
      · exact he
      · exact absurd rfl hne
    cases hd : u.deed with
    | act a =>
        rw [hd] at hrun
        set v := x.thread.view u.num w with hv
        have hrun : World.step cfg v a = some w' := hrun
        have hmsg : v.message a = w.message a := by cases a <;> rfl
        have hvq : v.queue = w.queue := rfl
        rw [← hvq]
        refine ⟨fun hq => ?_, ?_⟩
        · obtain ⟨hm, hb⟩ := World.message_of_queue hrun hq
          exact ⟨a, rfl, hmsg ▸ hm, hb⟩
        · rintro ⟨a', ha, hm, hb⟩
          obtain rfl := Deed.act.inj ha
          exact World.queue_message hrun (hmsg.trans hm) hb
    | post cmd =>
        rw [hd] at hrun
        have hq : w'.queue = w.queue := by
          cases cmd with
          | accepted s => exact absurd hrun (by simp [Deed.run])
          | _ => exact (Option.some.inj hrun) ▸ rfl
        refine ⟨fun hq' => absurd (hq.symm.trans hq') (by simp), ?_⟩
        rintro ⟨a, ha, -⟩
        exact absurd ha (by simp)
  · refine ((sound_reached h).peers u.peer w hw).exchanged_iff.trans ?_
    simp only [Core.Waiting, World.core, not_or]

theorem queued_exchanged_connected :
    ∃ (x x' : Wired) (w w' : World),
      step sampleCfg x ⟨0, 9, .act (.read sampleEnv [.got 4, .got 65536] World.sampleSession)⟩
        = some x'
      ∧ x.thread.peers[0]? = some w ∧ x'.thread.peers[0]? = some w'
      ∧ w'.queue = w.queue ++ [World.sampleSession] ∧ x.Exchanged 0 w := by
  obtain ⟨x, hr, hx⟩ := @Runs.of_trace _ sampleCfg (fun x u => x.thread.fresh u) (sampleConnect 0 3)
    (fun x => (x.thread.peers[0]?.map fun w => (w.state, w.queue),
      (step sampleCfg x ⟨0, 9, .act (.read sampleEnv [.got 4, .got 65536] World.sampleSession)⟩).map
        fun x => x.thread.peers[0]?.map (·.queue)))
    (some (.conn, []), some (some [World.sampleSession])) (by decide +kernel)
  simp only [Prod.mk.injEq, Option.map_eq_some_iff] at hx
  obtain ⟨⟨w, hw, hs, hq⟩, x', hst, w', hw', hq'⟩ := hx
  have hqueue : w'.queue = w.queue ++ [World.sampleSession] := by rw [hq', hq]; rfl
  refine ⟨x, x', w, w', hst, hw, hw', hqueue, ?_⟩
  refine ((queued_exchanged hr hst hw hw').2 hqueue).mpr ?_
  rw [hs]
  decide

set_option synthInstance.maxSize 400 in
/--
**Session requests before an exchange.** One is the first message on an accepted connection.
The other is read by a peer that is up, from a connection that has got the number of its own.
-/
theorem queued_unexchanged :
    (∃ (x x' : Wired) (w w' : World), Runs sampleCfg anyStep x
      ∧ step sampleCfg x ⟨0, 9, .act (.read sampleEnv [.got 4, .got 65536] World.sampleSession)⟩ = some x'
      ∧ x.thread.peers[0]? = some w ∧ x'.thread.peers[0]? = some w'
      ∧ w'.queue = w.queue ++ [World.sampleSession] ∧ x.done = [])
    ∧ ∃ (x x' : Wired) (w w' : World), Runs sampleCfg anyStep x
      ∧ step sampleCfg x ⟨0, 9, .act (.read sampleEnv [.got 4, .got 65536] World.sampleSession)⟩ = some x'
      ∧ x.thread.peers[0]? = some w ∧ x'.thread.peers[0]? = some w'
      ∧ w'.queue = w.queue ++ [World.sampleSession] ∧ w.state = .conn ∧ w.sock = some 4
      ∧ ∀ j, (j, x.conn 4) ∉ x.done := by
  constructor
  · obtain ⟨x, hr, hx⟩ := @Runs.of_trace _ sampleCfg (fun _ _ => true)
      (turns 0 3 [.accept] ++ turns 0 9 (sampleAccept.tail.take 2))
      (fun x => (x.thread.peers[0]?.map (·.queue), x.done,
        (step sampleCfg x ⟨0, 9, .act (.read sampleEnv [.got 4, .got 65536] World.sampleSession)⟩).map
          fun x => x.thread.peers[0]?.map (·.queue)))
      (some [], [], some (some [World.sampleSession])) (by decide +kernel)
    simp only [Prod.mk.injEq, Option.map_eq_some_iff] at hx
    obtain ⟨⟨w, hw, hq⟩, hdone, x', hst, w', hw', hq'⟩ := hx
    exact ⟨x, x', w, w', hr.any, hst, hw, hw', by rw [hq', hq]; rfl, hdone⟩
  · obtain ⟨x, hr, hx⟩ := @Runs.of_trace _ sampleCfg (fun _ _ => true)
      (sampleClash ++ turns 1 4 [.accept] ++ turns 1 9 (sampleAccept.tail.take 2))
      (fun x => (x.thread.peers[0]?.map fun w => (w.state, w.sock, w.queue), x.conn 4, x.done,
        (step sampleCfg x ⟨0, 9, .act (.read sampleEnv [.got 4, .got 65536] World.sampleSession)⟩).map
          fun x => x.thread.peers[0]?.map (·.queue)))
      (some (.conn, some 4, []), ⟨4, 3⟩, [(0, ⟨4, 2⟩)], some (some [World.sampleSession]))
      (by decide +kernel)
    simp only [Prod.mk.injEq, Option.map_eq_some_iff] at hx
    obtain ⟨⟨w, hw, hs, hk, hq⟩, hc, hdone, x', hst, w', hw', hq'⟩ := hx
    refine ⟨x, x', w, w', hr.any, hst, hw, hw', by rw [hq', hq]; rfl, hs, hk, fun j => ?_⟩
    rw [hc, hdone]
    simp

end Wired

end Disc.Transport
