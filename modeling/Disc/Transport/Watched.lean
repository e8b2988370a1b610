import Disc.Transport.FdSets

/-!
# What `select` watches

A receive thread serves any number of peers with one pair of descriptor sets. A bit in
them should stand for the open socket of one of these peers: otherwise `select` fails for
all of them, or reports a socket that nobody reads.

Most of the code that opens and closes sockets keeps it that way. What a peer owns is
apart from what the others own, and a step of a peer only touches its own numbers, although
the kernel picks the number of a new socket and may pick one that was closed before.

The rest is a slip each. `do_connect` puts the socket into the set even if the state
machine has just closed it, because there was no memory for the CER. A connect for a peer
whose connect is pending overwrites the only place that names the first socket. And a
pending connect that is due again is closed with `p->sock` left as it is, so that two
peers may come to go by one number.
-/

namespace Disc.Transport

open Disc.Lib Disc.Msg

/-! ## What one peer owns -/

namespace Fds

/-- The numbers a peer goes by, or will go by once it gets the connection. -/
def Refs (f : Fds) (s : Nat) : Prop := f.sock = some s ∨ s ∈ f.accepted

/-- The bits of a peer's socket say what it does, and what it has not got yet has none. -/
structure Own (f : Fds) : Prop where
  rdSet : ∀ s, f.sock = some s → s ∈ f.rdSet → f.up = true
  wrSet : ∀ s, f.sock = some s → s ∈ f.wrSet → f.up = false ∧ f.inProg = true
  accepted : ∀ s ∈ f.accepted, s ∈ f.opened ∧ s ∉ f.rdSet ∧ s ∉ f.wrSet ∧ f.sock ≠ some s
  nodup : f.accepted.Nodup

/-- Nothing closed is in a set. -/
structure Live (f : Fds) : Prop where
  rdSet : ∀ s ∈ f.rdSet, s ∈ f.opened
  wrSet : ∀ s ∈ f.wrSet, s ∈ f.opened

variable {n s : Nat} {f f' : Fds}

/-- The only number that is new to a peer is the one of a new socket. -/
theorem Step.refs (h : Step n f f') (hs : f'.Refs s) : f.Refs s ∨ s = n := by
  cases h <;> grind [Refs]

theorem Step.opens (h : Step n f f') (hs : s ∈ f'.opened) : s ∈ f.opened ∨ s = n := by
  cases h <;> grind

/-- A peer closes what it goes by, and nothing else. -/
theorem Step.closes (h : Step n f f') (hs : s ∈ f.opened) (hr : ¬ f.Refs s) : s ∈ f'.opened := by
  cases h <;> grind [Refs]

/-- **A bit that is set afterwards** is of the peer's socket, or was set before and is not its own. -/
theorem Step.rdSet (h : Step n f f') (ho : f.Own) (hs : s ∈ f'.rdSet) :
    f'.sock = some s ∨ (s ∈ f.rdSet ∧ f.sock ≠ some s) := by
  -- where the old socket is given up without `FD_CLR`, the peer was not up
  have hup := ho.rdSet s
  cases h <;> grind

theorem Step.wrSet (h : Step n f f') (ho : f.Own) (hs : s ∈ f'.wrSet) :
    f'.sock = some s ∨ (s ∈ f.wrSet ∧ f.sock ≠ some s) := by
  -- and a connect was not pending, or it was closed first
  have hprog := ho.wrSet s
  cases h <;> grind [Settled]

theorem Step.own (h : Step n f f') (hn : n ∉ f.opened) (hl : f.Live) (ho : f.Own) : f'.Own := by
  obtain ⟨hrd, hwr, hacc, hnd⟩ := ho
  obtain ⟨hlr, hlw⟩ := hl
  cases h with
  -- no bit is set
  | idle | lost | shut | failed | pendingFailed =>
      constructor <;> grind
  -- the new number is in no set, and none of the accepted ones
  | connecting hu | connected hu => constructor <;> grind
  | pendingDone hu hs hw => constructor <;> grind
  -- the socket of a peer that is up is in no write set, so it was closed before
  | pendingLate hu hs hw => constructor <;> grind
  | accept hs => constructor <;> grind
  -- the one that is closed or taken is none of those that wait behind it
  | refused ha => constructor <;> grind
  | taken ha hu hg => constructor <;> grind

theorem Step.live (h : Step n f f') (hl : f.Live) (ho : f.Own) : f'.Live := by
  obtain ⟨hrd, hwr, hacc, hnd⟩ := ho
  obtain ⟨hlr, hlw⟩ := hl
  cases h with
  | idle | lost | shut | failed | pendingFailed | accept =>
      constructor <;> grind
  | connecting | connected | pendingDone => constructor <;> grind
  | pendingLate hu hs hw => constructor <;> grind
  | refused ha => constructor <;> grind
  | taken ha hu hg => constructor <;> grind

end Fds

/-! ## The thread -/

/-- What happens to a peer next. -/
inductive Deed where
  /-- It takes a step. -/
  | act (a : Act)
  /-- A command is written into the pipe. Only the accept thread hands over connections. -/
  | post (cmd : Cmd)

def Deed.run (cfg : Cfg) (w : World) : Deed → Option World
  | .act a => w.step cfg a
  | .post (.accepted _) => none
  | .post cmd => some (w.command cmd)

/--
A receive thread: its peers, and the descriptors they share. Each peer has its own clock and
its own part of the pipe, so nothing is said about the order in which the commands of
different peers are executed.
-/
structure Thread where
  peers : List World
  rdSet : List Nat
  wrSet : List Nat
  /-- Open sockets. -/
  opened : List Nat

/-- The peer whose turn it is, and the number the kernel gives to the next socket. -/
structure Turn where
  peer : Nat
  num : Nat
  deed : Deed

namespace Thread

/-- A peer, with the sets of the thread for its own. -/
def view (t : Thread) (num : Nat) (w : World) : World :=
  { w with rdSet := t.rdSet, wrSet := t.wrSet, opened := t.opened, nextSock := num }

/-- Store what became of a peer and of the sets. -/
def put (t : Thread) (i : Nat) (w : World) : Thread :=
  { peers := t.peers.set i w, rdSet := w.rdSet, wrSet := w.wrSet, opened := w.opened }

/--
One step of the thread. The kernel gives any number that is not of an open socket;
number zero is the standard input, which stays open.
-/
def step (cfg : Cfg) (t : Thread) (u : Turn) : Option Thread :=
  match t.peers[u.peer]? with
  | none => none
  | some w =>
      if u.num = 0 ∨ u.num ∈ t.opened then none
      else (u.deed.run cfg (t.view u.num w)).map (t.put u.peer)

/-- Any number of new peers, and empty sets. -/
def Init (t : Thread) : Prop :=
  (∀ w ∈ t.peers, World.Init w) ∧ t.rdSet = [] ∧ t.wrSet = [] ∧ t.opened = []

/-- **What is in a set** is open, and the socket of one of the peers. -/
def Watched (t : Thread) : Prop :=
  ∀ s, s ∈ t.rdSet ∨ s ∈ t.wrSet → s ∈ t.opened ∧ ∃ w ∈ t.peers, w.sock = some s

/-- The peer whose turn it is leaves a bit behind. -/
def Slips (t : Thread) (u : Turn) : Prop :=
  ∃ w a, t.peers[u.peer]? = some w ∧ u.deed = .act a ∧ (t.view u.num w).Slips a

/--
The number of the new socket is one that a peer still goes by: another peer, or the peer
itself, if the socket is not to replace the one it has now.
-/
def Regains (t : Thread) (u : Turn) : Prop :=
  ∃ j v, t.peers[j]? = some v ∧ v.sock = some u.num ∧ (j ≠ u.peer ∨ u.deed = .act .accept)

/-- Neither of it. -/
def Careful (t : Thread) (u : Turn) : Prop := ¬ t.Slips u ∧ ¬ t.Regains u

/-! ## Steps -/

/-- A peer as the sets see it. -/
def fds (t : Thread) (w : World) : Fds :=
  { w.fds with rdSet := t.rdSet, wrSet := t.wrSet, opened := t.opened }

variable {cfg : Cfg} {t t' : Thread} {u : Turn}

theorem put_cases {i j : Nat} {w v : World} (h : (t.put i w).peers[j]? = some v) :
    (j = i ∧ v = w) ∨ (j ≠ i ∧ t.peers[j]? = some v) := by
  have h : (t.peers.set i w)[j]? = some v := h
  rw [List.getElem?_set] at h
  by_cases hj : i = j
  · rw [if_pos hj] at h
    split at h
    · exact Or.inl ⟨hj.symm, (Option.some.inj h).symm⟩
    · exact absurd h (by simp)
  · rw [if_neg hj] at h
    exact Or.inr ⟨Ne.symm hj, h⟩

/-- A step of the thread is one of a peer, under a number that is free. -/
theorem step_cases (h : t.step cfg u = some t') :
    ∃ w w', t.peers[u.peer]? = some w ∧ u.num ∉ t.opened ∧ t' = t.put u.peer w'
      ∧ u.deed.run cfg (t.view u.num w) = some w' := by
  unfold step at h
  cases hw : t.peers[u.peer]? with
  | none => simp [hw] at h
  | some w =>
      rw [hw] at h
      by_cases hn : u.num = 0 ∨ u.num ∈ t.opened
      · simp [hn] at h
      · simp only [if_neg hn] at h
        obtain ⟨w', hrun, rfl⟩ := Option.map_eq_some_iff.mp h
        exact ⟨w, w', rfl, fun hin => hn (Or.inr hin), rfl, hrun⟩

theorem step_fds {w w' : World} (hc : t.Careful u) (hw : t.peers[u.peer]? = some w)
    (hn : u.num ∉ t.opened) (hrun : u.deed.run cfg (t.view u.num w) = some w') :
    Fds.Step u.num (t.fds w) w'.fds := by
  have hf : (t.view u.num w).fds = t.fds w := rfl
  rw [← hf]
  cases hd : u.deed with
  | act a =>
      rw [hd] at hrun
      refine World.step_fds hrun hn (fun hs => hc.1 ⟨w, a, hw, hd, hs⟩) fun hr => ?_
      cases a with
      | accept => exact hc.2 ⟨u.peer, w, hw, hr, Or.inr hd⟩
      | _ => exact hr.elim
  | post cmd =>
      rw [hd] at hrun
      cases cmd with
      | accepted s => exact absurd hrun (by simp [Deed.run])
      | _ =>
          obtain rfl := Option.some.inj hrun
          rw [World.fds_command _ (by simp)]
          exact .idle

/-- What keeps the sets in order. -/
structure Sound (t : Thread) : Prop where
  live : ∀ w, (t.fds w).Live
  own : ∀ (i : Nat) (w : World), t.peers[i]? = some w → (t.fds w).Own
  /-- No two peers go by the number of one open socket. -/
  alone : ∀ (i j : Nat) (v w : World) (s : Nat), t.peers[i]? = some v → t.peers[j]? = some w →
    (t.fds v).Refs s → (t.fds w).Refs s → s ∈ t.opened → i = j
  owned : Watched t

/-- What one peer goes by after its step is not what another one goes by. -/
theorem apart {i j n s : Nat} {w w' v : World} (hs : Sound t) (hw : t.peers[i]? = some w)
    (hv : t.peers[j]? = some v) (hj : j ≠ i) (hstep : Fds.Step n (t.fds w) (t'.fds w'))
    (hn : n ∉ t.opened) (hfresh : v.sock ≠ some n) (hr : (t.fds v).Refs s)
    (ho : s ∈ t'.opened) : ¬ (t'.fds w').Refs s := by
  intro hr'
  -- the number of the new socket is none of the other peer's
  have hne : s ≠ n := by
    rintro rfl
    rcases hr with hr | hr
    · exact hfresh hr
    · exact hn ((hs.own j v hv).accepted s hr).1
  have hold : s ∈ t.opened := (hstep.opens ho).resolve_right hne
  have hrw : (t.fds w).Refs s := (hstep.refs hr').resolve_right hne
  exact hj (hs.alone j i v w s hv hw hr hrw hold)

theorem sound_step (hs : Sound t) (h : t.step cfg u = some t') (hc : t.Careful u) : Sound t' := by
  obtain ⟨w, w', hw, hn, rfl, hrun⟩ := step_cases h
  set t' := t.put u.peer w' with ht'
  have hstep : Fds.Step u.num (t.fds w) (t'.fds w') := step_fds hc hw hn hrun
  have hown := hs.own u.peer w hw
  have hlive : (t'.fds w').Live := hstep.live (hs.live w) hown
  have hfresh : ∀ j v, j ≠ u.peer → t.peers[j]? = some v → v.sock ≠ some u.num :=
    fun j v hj hv hsock => hc.2 ⟨j, v, hv, hsock, Or.inl hj⟩
  have hapart : ∀ j v s, j ≠ u.peer → t.peers[j]? = some v → (t.fds v).Refs s → s ∈ t'.opened →
      ¬ (t'.fds w').Refs s :=
    fun j v s hj hv => apart hs hw hv hj hstep hn (hfresh j v hj hv)
  have hself : t'.peers[u.peer]? = some w' := by
    have hlt : u.peer < t.peers.length := (List.getElem?_eq_some_iff.mp hw).1
    exact List.getElem?_set_self hlt
  refine ⟨fun v => ⟨hlive.rdSet, hlive.wrSet⟩, fun j v hv => ?_, fun i j v x s hv hx hr hr' ho => ?_,
    fun s hset => ⟨hset.elim (hlive.rdSet s) (hlive.wrSet s), ?_⟩⟩
  · rcases put_cases hv with ⟨-, rfl⟩ | ⟨hj, hv⟩
    · exact hstep.own hn (hs.live w) hown
    -- the numbers of another peer keep their bits
    · have hold := hs.own j v hv
      refine ⟨fun s hsock hin => ?_, fun s hsock hin => ?_, fun s hacc => ?_, hold.nodup⟩
      · have hno := hapart j v s hj hv (Or.inl hsock) (hlive.rdSet s hin)
        rcases hstep.rdSet hown hin with hs' | ⟨hin, -⟩
        · exact absurd (Or.inl hs') hno
        · exact hold.rdSet s hsock hin
      · have hno := hapart j v s hj hv (Or.inl hsock) (hlive.wrSet s hin)
        rcases hstep.wrSet hown hin with hs' | ⟨hin, -⟩
        · exact absurd (Or.inl hs') hno
        · exact hold.wrSet s hsock hin
      · obtain ⟨hopen, hrd, hwr, hsock⟩ := hold.accepted s hacc
        have hopen' : s ∈ t'.opened := by
          refine hstep.closes hopen fun hr => ?_
          exact hj (hs.alone j u.peer v w s hv hw (Or.inr hacc) hr hopen)
        have hno := hapart j v s hj hv (Or.inr hacc) hopen'
        refine ⟨hopen', fun hin => ?_, fun hin => ?_, hsock⟩
        · exact (hstep.rdSet hown hin).elim (fun hs' => hno (Or.inl hs')) (fun hin => hrd hin.1)
        · exact (hstep.wrSet hown hin).elim (fun hs' => hno (Or.inl hs')) (fun hin => hwr hin.1)
  · rcases put_cases hv with ⟨hi, hvw⟩ | ⟨hi, hv₀⟩
    · rcases put_cases hx with ⟨hj, -⟩ | ⟨hj, hx₀⟩
      · exact hi.trans hj.symm
      · exact absurd (hvw ▸ hr) (hapart j x s hj hx₀ hr' ho)
    · rcases put_cases hx with ⟨-, hxw⟩ | ⟨hj, hx₀⟩
      · exact absurd (hxw ▸ hr') (hapart i v s hi hv₀ hr ho)
      · have hold : s ∈ t.opened := by
          refine (hstep.opens ho).resolve_right fun hsn => ?_
          rcases hr with hr | hr
          · exact hfresh i v hi hv₀ (hsn ▸ hr)
          · exact hn (hsn ▸ ((hs.own i v hv₀).accepted s hr).1)
        exact hs.alone i j v x s hv₀ hx₀ hr hr' hold
  -- a bit that is not of the peer's socket has the owner it had
  · have hsrc : w'.sock = some s ∨ ((s ∈ t.rdSet ∨ s ∈ t.wrSet) ∧ w.sock ≠ some s) := by
      rcases hset with hin | hin
      · exact (hstep.rdSet hown hin).imp id (fun hin => ⟨Or.inl hin.1, hin.2⟩)
      · exact (hstep.wrSet hown hin).imp id (fun hin => ⟨Or.inr hin.1, hin.2⟩)
    rcases hsrc with hsock | ⟨hold, hne⟩
    · exact ⟨w', List.mem_of_getElem? hself, hsock⟩
    · obtain ⟨-, v, hv, hsock⟩ := hs.owned s hold
      obtain ⟨j, hj⟩ := List.mem_iff_getElem?.mp hv
      have hji : j ≠ u.peer := by
        rintro rfl
        obtain rfl := Option.some.inj (hw.symm.trans hj)
        exact hne hsock
      have hv' : t'.peers[j]? = some v := by
        have hset : (t.peers.set u.peer w')[j]? = t.peers[j]? := List.getElem?_set_ne (Ne.symm hji)
        exact hset.trans hj
      exact ⟨v, List.mem_of_getElem? hv', hsock⟩

/-- **A slip is always one**: a bit is left behind. -/
theorem slips_unwatched (hs : Sound t) (h : t.step cfg u = some t') (hslip : t.Slips u) :
    ¬ Watched t' := by
  obtain ⟨w, w', hw, hn, rfl, hrun⟩ := step_cases h
  obtain ⟨x, a, hx, hd, hbad⟩ := hslip
  obtain rfl := Option.some.inj (hw.symm.trans hx)
  rw [hd] at hrun
  intro hwatch
  rcases World.step_slips hrun hn (hs.live w).wrSet hbad with ⟨s, hin, hcl⟩ | ⟨s, hold, hsock, hin, hne⟩
  · exact hcl (hwatch s (Or.inl hin)).1
  · obtain ⟨-, v, hv, hvs⟩ := hwatch s (Or.inr hin)
    obtain ⟨j, hj⟩ := List.mem_iff_getElem?.mp hv
    rcases put_cases hj with ⟨-, rfl⟩ | ⟨hji, hj⟩
    · exact hne hvs
    -- nobody else goes by the number of a socket that was open
    · exact hji (hs.alone j u.peer v w s hj hw (Or.inl hvs) (Or.inl hsock) ((hs.live w).wrSet s hold))

/-- **Where the numbers are kept apart**, the sets stay in order exactly if no peer slips. -/
theorem watched_step_iff (hs : Sound t) (h : t.step cfg u = some t') (hr : ¬ t.Regains u) :
    Watched t' ↔ ¬ t.Slips u :=
  ⟨fun hw hslip => slips_unwatched hs h hslip hw, fun hslip => (sound_step hs h ⟨hslip, hr⟩).owned⟩

theorem sound_init (h : Init t) : Sound t := by
  obtain ⟨hpeers, hrd, hwr, hop⟩ := h
  have hacc : ∀ w ∈ t.peers, (t.fds w).accepted = [] := by
    intro w hw
    obtain ⟨nextLabel, ete, jiffies, rfl⟩ := hpeers w hw
    rfl
  refine ⟨fun w => ⟨fun s hin => ?_, fun s hin => ?_⟩,
    fun i w hw => ⟨fun s _ hin => ?_, fun s _ hin => ?_, fun s hin => ?_, ?_⟩,
    fun i j v w s _ _ _ _ hin => ?_, fun s hin => ?_⟩
  · exact absurd (hrd ▸ hin : s ∈ []) (by simp)
  · exact absurd (hwr ▸ hin : s ∈ []) (by simp)
  · exact absurd (hrd ▸ hin : s ∈ []) (by simp)
  · exact absurd (hwr ▸ hin : s ∈ []) (by simp)
  · rw [hacc w (List.mem_of_getElem? hw)] at hin
    exact absurd hin (by simp)
  · rw [hacc w (List.mem_of_getElem? hw)]
    exact List.nodup_nil
  · exact absurd (hop ▸ hin : s ∈ []) (by simp)
  · rw [hrd, hwr] at hin
    exact absurd hin (by simp)

/-- The threads of the runs whose steps all satisfy `ok`. -/
def Runs (cfg : Cfg) (ok : Thread → Turn → Prop) : Thread → Prop := Reach Init (step cfg) ok

/-- **A thread that is careful watches the open sockets of its peers**, and nothing else. -/
theorem watched_of_careful (h : Runs cfg Careful t) : Watched t := by
  have hs : Sound t := Reach.invariant (fun _ => sound_init)
    (fun _ _ _ hs hc hst => sound_step hs hst hc) h
  exact hs.owned

/-! ## A small thread, for runs written out -/

/-- Two new peers. -/
def sample : Thread where
  peers := [.start (fun _ => 0) 0 0, .start (fun _ => 0) 0 0]
  rdSet := []
  wrSet := []
  opened := []

theorem init_sample : Init sample := by
  refine ⟨fun w hw => ?_, rfl, rfl, rfl⟩
  have hw : w = .start (fun _ => 0) 0 0 := by simpa [sample] using hw
  exact ⟨_, _, _, hw⟩

/-- The first peer connects at once. -/
def sampleTurn (env : Env) : Turn where
  peer := 0
  num := 3
  deed := .act (.exec env sampleIo)

theorem careful_sample : Careful sample (sampleTurn sampleEnv) := by
  have hpeer : ∀ (j : Nat) (v : World), sample.peers[j]? = some v → v = .start (fun _ => 0) 0 0 := by
    intro j v hv
    simpa [sample] using List.mem_of_getElem? hv
  refine ⟨?_, ?_⟩
  · rintro ⟨w, a, hw, hd, hs⟩
    obtain rfl := hpeer 0 w hw
    obtain rfl := Deed.act.inj hd
    rcases hs with ⟨-, hset | ⟨-, hm⟩⟩
    · exact hset fun s _ => by simp [Thread.view, World.fds, sample]
    · exact absurd hm (by decide)
  · rintro ⟨j, v, hv, hsock, -⟩
    obtain rfl := hpeer j v hv
    exact absurd hsock (by decide)

/-- It is connected on socket 3, which is then the only one that is watched. -/
theorem watched_sample : ∃ t, t.rdSet = [3] ∧ t.wrSet = [] ∧ Watched t := by
  have h : (step sampleCfg sample (sampleTurn sampleEnv)).map (fun t => (t.rdSet, t.wrSet))
      = some ([3], []) := by decide
  obtain ⟨t, ht, hf⟩ := Option.map_eq_some_iff.mp h
  obtain ⟨hrd, hwr⟩ := Prod.mk.inj hf
  exact ⟨t, hrd, hwr, watched_of_careful (.step (.init init_sample) careful_sample ht)⟩

/-- **A closed socket that is watched**: there was no memory for the CER. -/
theorem closed_socket_watched : ¬ ∀ (cfg : Cfg) (t : Thread), Runs cfg anyStep t → Watched t := by
  intro hall
  have h : (step sampleCfg sample (sampleTurn { sampleEnv with msgMem := false })).map
      (fun t => (t.rdSet, t.opened)) = some ([3], []) := by decide
  obtain ⟨t, ht, hf⟩ := Option.map_eq_some_iff.mp h
  obtain ⟨hrd, hop⟩ := Prod.mk.inj hf
  obtain ⟨hin, -⟩ := hall sampleCfg t (.step (.init init_sample) trivial ht) 3 (Or.inl (by simp [hrd]))
  rw [hop] at hin
  exact absurd hin (by simp)

end Thread

end Disc.Transport
