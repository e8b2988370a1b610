import Disc.Transport.Watchdog
import Disc.Transport.Watched

/-!
# The list of active peers

`activ_peers` is one list for all peers. `peer_timer_handler` goes through it from the
front, takes off each peer that was silent for `SEND_DWR_TIMEOUT` and sends it the
inactivity command, and stops at the first peer that was not.

No peer is lost as long as memory for its DWR is found. But a silent peer is only found
if nobody stands in front of it who was heard since, and nothing keeps the list in that
order: a message renews the time of its peer where it stands, and a false alarm puts a
peer at the end that was heard earlier than those in front of it.
-/

namespace Disc.Transport

open Disc.Lib Disc.Msg

/-- The peers of a receive thread, and the list of those whose silence is measured. -/
structure PeerTable where
  thread : Thread
  /-- `activ_peers`, by the places of its members in the list of peers. -/
  activ : List Nat

/-- What happens next. -/
inductive TableAct where
  /-- One peer has its turn. -/
  | turn (u : Turn)
  /-- `jiffies` is counted up, for all peers. -/
  | tick
  /-- One round of the loop over `activ_peers` in `peer_timer_handler`. -/
  | check

/-- The clock and the sweep are not a peer's own. -/
def Deed.own : Deed → Bool
  | .act .tick | .act .expireActiv => false
  | _ => true

/-- It executes a command. -/
def Deed.executes : Deed → Bool
  | .act a => a.executes
  | .post _ => false

/-- A command of this peer is executed. -/
def TableAct.executes (i : Nat) : TableAct → Bool
  | .turn u => u.peer == i && u.deed.executes
  | _ => false

def TableAct.checks : TableAct → Bool
  | .check => true
  | _ => false

namespace Thread

/-- The link of the peer in `activ_peers` is set. -/
def linked (t : Thread) (i : Nat) : Bool := t.peers[i]?.any World.inActiv

/-- The clock advances for all. -/
def ticked (t : Thread) : Thread :=
  { t with peers := t.peers.map fun w => { w with jiffies := w.jiffies + 1 } }

end Thread

/--
`list_add_tail_safe` and `list_del_safe`, by whether the link was set before and is set
after; no function takes a peer off the list and puts it back.
-/
def relink (activ : List Nat) (i : Nat) (before after : Bool) : List Nat :=
  match before, after with
  | false, true => activ ++ [i]
  | true, false => activ.erase i
  | _, _ => activ

namespace PeerTable

/-- A peer had its turn, and has been put into the list or taken off it. -/
def after (t : PeerTable) (i : Nat) (thread : Thread) : PeerTable where
  thread := thread
  activ := relink t.activ i (t.thread.linked i) (thread.linked i)

/--
One round of the loop over `activ_peers`: the first peer is taken off the list and sent
its command, or the loop ends. All other steps may come between two rounds, although the
handler keeps the lock of the list.
-/
def check (t : PeerTable) : PeerTable :=
  match t.activ with
  | [] => t
  | i :: rest =>
      match t.thread.peers[i]?.bind World.expireActiv with
      | none => t
      | some w => { thread := { t.thread with peers := t.thread.peers.set i w }, activ := rest }

def step (cfg : Cfg) (t : PeerTable) : TableAct → Option PeerTable
  | .turn u => if u.deed.own then (t.thread.step cfg u).map (t.after u.peer) else none
  | .tick => some { t with thread := t.thread.ticked }
  | .check => some t.check

/-- New peers under one clock, and none of them active. -/
def Init (t : PeerTable) : Prop :=
  t.thread.Init ∧ (∃ now, ∀ w ∈ t.thread.peers, w.jiffies = now) ∧ t.activ = []

def Runs (cfg : Cfg) (ok : PeerTable → TableAct → Prop) : PeerTable → Prop :=
  Reach Init (step cfg) ok

/-- The peer has been silent for too long. -/
def due (t : PeerTable) (i : Nat) : Bool := t.thread.peers[i]?.any World.idle

/--
A DWR that is due finds memory, and the loop does not stop at a peer that is not due
while another one in the list is.
-/
def careful (t : PeerTable) : TableAct → Bool
  | .turn u =>
      match t.thread.peers[u.peer]?, u.deed with
      | some w, .act a => w.dwrMemory a
      | _, _ => true
  | .tick => true
  | .check => t.activ.head?.all t.due || t.activ.all fun i => !t.due i

/-! ## Steps -/

variable {cfg : Cfg} {t t' : PeerTable}

/-- What becomes of one peer. -/
inductive Went (cfg : Cfg) (t : PeerTable) (i : Nat) (w : World) : TableAct → World → Prop
  | same {a : TableAct} (ha : a.executes i = false) : Went cfg t i w a w
  | tick : Went cfg t i w .tick { w with jiffies := w.jiffies + 1 }
  | act {u : Turn} {a : Act} {w' : World} (hu : u.peer = i) (hd : u.deed = .act a)
      (h : World.step cfg (t.thread.view u.num w) a = some w') : Went cfg t i w (.turn u) w'
  | post {u : Turn} {cmd : Cmd} (hu : u.peer = i) (hd : u.deed = .post cmd) :
      Went cfg t i w (.turn u) ((t.thread.view u.num w).command cmd)
  | alarm {rest : List Nat} {w' : World} (hl : t.activ = i :: rest) (h : w.expireActiv = some w') :
      Went cfg t i w .check w'

theorem turn_cases {u : Turn} (h : step cfg t (.turn u) = some t') :
    ∃ w w', t.thread.peers[u.peer]? = some w
      ∧ u.deed.run cfg (t.thread.view u.num w) = some w'
      ∧ t' = t.after u.peer (t.thread.put u.peer w') := by
  simp only [step] at h
  split at h
  · obtain ⟨th, hth, rfl⟩ := Option.map_eq_some_iff.mp h
    obtain ⟨w, w', hw, -, rfl, hrun⟩ := Thread.step_cases hth
    exact ⟨w, w', hw, hrun, rfl⟩
  · exact absurd h (by simp)

/-- A round does nothing, or it takes off the first peer. -/
theorem check_cases (t : PeerTable) : t.check = t
    ∨ ∃ i rest w w', t.activ = i :: rest ∧ t.thread.peers[i]? = some w ∧ w.expireActiv = some w'
        ∧ t.check = { thread := { t.thread with peers := t.thread.peers.set i w' }, activ := rest } := by
  unfold check
  split
  · exact Or.inl rfl
  · rename_i i rest hl
    split
    · exact Or.inl rfl
    · rename_i w' hw'
      obtain ⟨w, hw, he⟩ := Option.bind_eq_some_iff.mp hw'
      exact Or.inr ⟨i, rest, w, w', hl, hw, he, rfl⟩

/-- A peer in front that is due is taken off and gets the command. -/
theorem check_due {i : Nat} {rest : List Nat} {w : World} (hl : t.activ = i :: rest)
    (hw : t.thread.peers[i]? = some w) (ha : w.inActiv = true) (hd : w.idle = true) :
    t.check = { thread := { t.thread with
      peers := t.thread.peers.set i (({ w with inActiv := false } : World).command .inactivity) }
                activ := rest } := by
  have he : w.expireActiv = some (({ w with inActiv := false } : World).command .inactivity) := by
    unfold World.expireActiv
    exact if_pos ⟨ha, by simpa [World.idle] using hd⟩
  unfold check
  rw [hl]
  simp only [hw, Option.bind_some, he]

theorem step_went {a : TableAct} {i : Nat} {w' : World} (h : step cfg t a = some t')
    (hw' : t'.thread.peers[i]? = some w') :
    ∃ w, t.thread.peers[i]? = some w ∧ Went cfg t i w a w' := by
  cases a with
  | turn u =>
      obtain ⟨v, v', hv, hrun, rfl⟩ := turn_cases h
      rcases Thread.put_cases hw' with ⟨rfl, rfl⟩ | ⟨hi, hw⟩
      · refine ⟨v, hv, ?_⟩
        cases hd : u.deed with
        | act a => exact .act rfl hd (by rw [hd] at hrun; exact hrun)
        | post cmd =>
            rw [hd] at hrun
            cases cmd with
            | accepted s => exact absurd hrun (by simp [Deed.run])
            | _ => exact Option.some.inj hrun ▸ .post rfl hd
      · refine ⟨w', hw, .same ?_⟩
        simp [TableAct.executes, Ne.symm hi]
  | tick =>
      obtain rfl := Option.some.inj h
      obtain ⟨w, hw, rfl⟩ := by
        simpa only [Thread.ticked, List.getElem?_map, Option.map_eq_some_iff] using hw'
      exact ⟨w, hw, .tick⟩
  | check =>
      obtain rfl := Option.some.inj h
      rcases check_cases t with hs | ⟨j, rest, v, v', hl, hv, he, hs⟩
      · rw [hs] at hw'
        exact ⟨w', hw', .same rfl⟩
      · rw [hs] at hw'
        rcases Thread.put_cases (t := t.thread) (w := v') hw' with ⟨rfl, rfl⟩ | ⟨-, hw⟩
        · exact ⟨v, hv, .alarm hl he⟩
        · exact ⟨w', hw, .same rfl⟩

/-! ## The list and the links -/

/-- The list holds the peers whose link is set, each once. -/
structure Linked (t : PeerTable) : Prop where
  nodup : t.activ.Nodup
  mem : ∀ i, i ∈ t.activ ↔ t.thread.linked i = true

theorem linked_put {t : Thread} {i j : Nat} {v w : World} (hv : t.peers[j]? = some v) :
    (t.put j w).linked i = if i = j then w.inActiv else t.linked i := by
  have hlt : j < t.peers.length := (List.getElem?_eq_some_iff.mp hv).1
  have hset : (t.put j w).peers = t.peers.set j w := rfl
  by_cases hij : i = j
  · subst hij
    simp [Thread.linked, hset, hlt]
  · simp [Thread.linked, hset, List.getElem?_set_ne (Ne.symm hij), hij]

theorem nodup_relink {activ : List Nat} {i : Nat} {before after : Bool} (hn : activ.Nodup)
    (hm : i ∈ activ ↔ before = true) : (relink activ i before after).Nodup := by
  cases before with
  | false =>
      cases after with
      | false => exact hn
      | true =>
          refine List.nodup_append.mpr ⟨hn, List.nodup_singleton i, fun x hx y hy hxy => ?_⟩
          obtain rfl := List.mem_singleton.mp hy
          exact absurd (hm.mp (hxy ▸ hx)) (by simp)
  | true =>
      cases after with
      | false => exact hn.erase i
      | true => exact hn

theorem mem_relink {activ : List Nat} {i j : Nat} {before after : Bool} (hn : activ.Nodup)
    (hm : i ∈ activ ↔ before = true) :
    j ∈ relink activ i before after ↔ if j = i then after = true else j ∈ activ := by
  cases before <;> cases after <;> by_cases hj : j = i <;>
    simp_all [relink, hn.mem_erase_iff]

theorem Linked.turn {u : Turn} (hi : Linked t) (h : step cfg t (.turn u) = some t') : Linked t' := by
  obtain ⟨w, w', hw, -, rfl⟩ := turn_cases h
  have hm := hi.mem u.peer
  refine ⟨nodup_relink hi.nodup hm, fun i => (mem_relink hi.nodup hm).trans ?_⟩
  have hput : (t.after u.peer (t.thread.put u.peer w')).thread.linked i
      = if i = u.peer then w'.inActiv else t.thread.linked i := linked_put hw
  rw [hput]
  by_cases hiu : i = u.peer
  · rw [if_pos hiu, if_pos hiu, linked_put hw, if_pos rfl]
  · rw [if_neg hiu, if_neg hiu]
    exact hi.mem i

/-- The peer that is taken off has its link cleared. -/
theorem Linked.check (hi : Linked t) : Linked t.check := by
  rcases check_cases t with hs | ⟨j, rest, w, w', hl, hw, he, hs⟩
  · rw [hs]
    exact hi
  · obtain ⟨hj, hn⟩ := List.nodup_cons.mp (hl ▸ hi.nodup)
    have hw' : w'.inActiv = false := by
      unfold World.expireActiv at he
      split at he
      · exact Option.some.inj he ▸ rfl
      · exact absurd he (by simp)
    rw [hs]
    refine ⟨hn, fun i => ?_⟩
    have hput : (t.thread.put j w').linked i = if i = j then w'.inActiv else t.thread.linked i :=
      linked_put hw
    change i ∈ rest ↔ (t.thread.put j w').linked i = true
    rw [hput]
    by_cases hij : i = j
    · rw [if_pos hij, hw', hij]
      simpa using hj
    · rw [if_neg hij, ← hi.mem i, hl]
      simp [hij]

theorem Linked.step {a : TableAct} (hi : Linked t) (h : PeerTable.step cfg t a = some t') :
    Linked t' := by
  cases a with
  | turn u => exact hi.turn h
  | tick =>
      obtain rfl := Option.some.inj h
      refine ⟨hi.nodup, fun i => (hi.mem i).trans ?_⟩
      simp only [Thread.linked, Thread.ticked, List.getElem?_map]
      cases t.thread.peers[i]? <;> rfl
  | check => exact Option.some.inj h ▸ hi.check

theorem linked_init (h : Init t) : Linked t := by
  obtain ⟨⟨hpeers, -⟩, -, hl⟩ := h
  refine ⟨hl ▸ List.nodup_nil, fun i => ?_⟩
  have hno : t.thread.linked i = false := by
    unfold Thread.linked
    cases hw : t.thread.peers[i]? with
    | none => rfl
    | some w =>
        obtain ⟨nextLabel, ete, jiffies, rfl⟩ := hpeers w (List.mem_of_getElem? hw)
        rfl
  simp [hl, hno]

/-! ## Silent peers -/

/-- The peer is in the list and due. -/
def Waits (i : Nat) (t : PeerTable) : Prop := i ∈ t.activ ∧ t.due i = true

/-- The peer is connected and silent. -/
def Silent (i : Nat) (t : PeerTable) : Prop :=
  ∃ w, t.thread.peers[i]? = some w ∧ w.state = .conn ∧ w.idle = true

/-- Taking another one out of a list brings a member forward, or leaves it where it is. -/
theorem getElem?_erase_other {l : List Nat} {i j k : Nat} (h : l[k]? = some i) (hij : i ≠ j) :
    ∃ k', (l.erase j)[k']? = some i ∧ k' ≤ k := by
  induction l generalizing k with
  | nil => exact absurd h (by simp)
  | cons x l ih =>
      by_cases hx : x = j
      · subst hx
        rw [List.erase_cons_head]
        cases k with
        | zero => exact absurd (Option.some.inj h).symm hij
        | succ k => exact ⟨k, h, Nat.le_succ k⟩
      · rw [List.erase_cons_tail (by simpa using hx)]
        cases k with
        | zero => exact ⟨0, h, Nat.le_refl 0⟩
        | succ k =>
            obtain ⟨k', hk', hle⟩ := ih h
            exact ⟨k' + 1, hk', Nat.succ_le_succ hle⟩

theorem getElem?_relink {l : List Nat} {i j k : Nat} {before after : Bool} (h : l[k]? = some i)
    (hi : i ∈ relink l j before after) (hn : l.Nodup) :
    ∃ k', (relink l j before after)[k']? = some i ∧ k' ≤ k := by
  have hlt : k < l.length := (List.getElem?_eq_some_iff.mp h).1
  cases before with
  | false =>
      cases after with
      | false => exact ⟨k, h, Nat.le_refl k⟩
      | true => exact ⟨k, (List.getElem?_append_left hlt).trans h, Nat.le_refl k⟩
  | true =>
      cases after with
      | false =>
          refine getElem?_erase_other h ?_
          rintro rfl
          exact absurd hi hn.not_mem_erase
      | true => exact ⟨k, h, Nat.le_refl k⟩

/-- **A due peer comes forward** with each round of a loop that does not stop in front of it. -/
theorem waits_closer {a : TableAct} {i k : Nat} (hl : Linked t) (hw : Waits i t) (hw' : Waits i t')
    (hok : t.careful a = true) (h : step cfg t a = some t') (hk : t.activ[k]? = some i) :
    ∃ k', t'.activ[k']? = some i ∧ k' + a.checks.toNat ≤ k := by
  cases a with
  | turn u =>
      obtain ⟨w, w', -, -, rfl⟩ := turn_cases h
      exact getElem?_relink hk hw'.1 hl.nodup
  | tick =>
      obtain rfl := Option.some.inj h
      exact ⟨k, hk, Nat.le_refl k⟩
  | check =>
      obtain rfl := Option.some.inj h
      cases hact : t.activ with
      | nil => exact absurd (hact ▸ hw.1) (by simp)
      | cons j rest =>
          -- the first one is due, as this one is
          have hdue : t.due j = true := by
            have hok : t.due j = true ∨ ∀ x ∈ t.activ, t.due x = false := by
              simpa [careful, hact] using hok
            rcases hok with hok | hno
            · exact hok
            · exact absurd (hw.2.symm.trans (hno i hw.1)) (by simp)
          have hlink : t.thread.linked j = true := (hl.mem j).mp (hact ▸ List.mem_cons_self)
          obtain ⟨v, hv, hvi⟩ : ∃ v, t.thread.peers[j]? = some v ∧ v.idle = true := by
            unfold due at hdue
            cases hv : t.thread.peers[j]? with
            | none => simp [hv] at hdue
            | some v => exact ⟨v, rfl, by simpa [hv] using hdue⟩
          have hva : v.inActiv = true := by simpa [Thread.linked, hv] using hlink
          have hrest : t.check.activ = rest := by rw [check_due hact hv hva hvi]
          rw [hact] at hk
          cases k with
          | zero =>
              obtain rfl := Option.some.inj hk
              have hin : j ∈ rest := hrest ▸ hw'.1
              exact absurd hin (List.nodup_cons.mp (hact ▸ hl.nodup)).1
          | succ k => exact ⟨k, hrest ▸ hk, Nat.le_refl (k + 1)⟩

/-- **The command of a silent peer comes closer** with each of its commands that is executed. -/
theorem silent_closer {a : TableAct} {i k : Nat} (hs : Silent i t) (hs' : Silent i t')
    (hok : t.careful a = true) (h : step cfg t a = some t')
    (hk : ∃ w, t.thread.peers[i]? = some w ∧ w.pipe[k]? = some .inactivity) :
    ∃ k', (∃ w, t'.thread.peers[i]? = some w ∧ w.pipe[k']? = some .inactivity)
      ∧ k' + (a.executes i).toNat ≤ k := by
  obtain ⟨w', hw', hconn', -⟩ := hs'
  obtain ⟨w, hw, hwent⟩ := step_went h hw'
  obtain ⟨v, hv, hk⟩ := hk
  obtain rfl := Option.some.inj (hw.symm.trans hv)
  obtain ⟨v, hv, hconn, hidle⟩ := hs
  obtain rfl := Option.some.inj (hw.symm.trans hv)
  have hlt : k < w.pipe.length := (List.getElem?_eq_some_iff.mp hk).1
  cases hwent with
  | same ha =>
      refine ⟨k, ⟨_, hw', hk⟩, ?_⟩
      rw [ha]
      exact Nat.le_refl k
  | tick => exact ⟨k, ⟨_, hw', hk⟩, Nat.le_refl k⟩
  | @act u a _ hu hd hst =>
      have hmem : w.dwrMemory a = true := by simpa [careful, hu, hw, hd] using hok
      obtain ⟨k', hk', hle⟩ := World.step_closer hst hmem hconn hidle hconn' hk
      refine ⟨k', ⟨w', hw', hk'⟩, ?_⟩
      have hx : (TableAct.turn u).executes i = a.executes := by
        simp [TableAct.executes, hu, hd, Deed.executes]
      rw [hx]
      exact hle
  | @post u cmd hu hd =>
      refine ⟨k, ⟨_, hw', (List.getElem?_append_left hlt).trans hk⟩, ?_⟩
      have hx : (TableAct.turn u).executes i = false := by
        simp [TableAct.executes, hd, Deed.executes]
      rw [hx]
      exact Nat.le_refl k
  | alarm hl he =>
      unfold World.expireActiv at he
      split at he
      · obtain rfl := Option.some.inj he
        exact ⟨k, ⟨_, hw', (List.getElem?_append_left hlt).trans hk⟩, Nat.le_refl k⟩
      · exact absurd he (by simp)

/-! ## The watchdog -/

/-- Every peer is watched, each by its own link. -/
def Watching (t : PeerTable) : Prop :=
  ∀ (i : Nat) (w : World), t.thread.peers[i]? = some w → w.Watching

theorem Watching.step {a : TableAct} (hi : Watching t) (hok : t.careful a = true)
    (h : PeerTable.step cfg t a = some t') : Watching t' := by
  intro i w' hw'
  obtain ⟨w, hw, hwent⟩ := step_went h hw'
  have hold := hi i w hw
  cases hwent with
  | same => exact hold
  | tick => exact hold
  | @act u a _ hu hd hst =>
      have hmem : w.dwrMemory a = true := by simpa [careful, hu, hw, hd] using hok
      exact World.Watching.step (w := t.thread.view u.num w) hold hmem hst
  | post => exact fun hs => (hold hs).imp id (List.mem_append_left _)
  | alarm hl he =>
      unfold World.expireActiv at he
      split at he
      · obtain rfl := Option.some.inj he
        exact fun _ => Or.inr (List.mem_append_right _ (List.mem_singleton.mpr rfl))
      · exact absurd he (by simp)

theorem linked_reached {ok : PeerTable → TableAct → Prop} (h : Runs cfg ok t) : Linked t :=
  Reach.invariant (fun _ => linked_init) (fun _ _ _ hi _ hst => hi.step hst) h

/-- A careful run from `t` that stays in `P`. -/
def CarefulIn (cfg : Cfg) (P : PeerTable → Prop) (counted : TableAct → Bool) (t : PeerTable) :
    Nat → PeerTable → Prop :=
  Stays (step cfg) (fun t a => t.careful a = true) P counted t

/-- What the watchdog does for a peer. -/
structure OnWatch (cfg : Cfg) (t : PeerTable) (i : Nat) (w : World) : Prop where
  /-- It is in the list, or the inactivity command is on the way. -/
  watched : w.state = .conn → i ∈ t.activ ∨ Cmd.inactivity ∈ w.pipe
  /-- Behind `k` others it waits in the list for no more than `k` rounds of the loop. -/
  inTurn : ∀ k n t', t.activ[k]? = some i → CarefulIn cfg (Waits i) TableAct.checks t n t' → n ≤ k
  /-- The round that finds it in front sends the command. -/
  found : ∀ rest, t.activ = i :: rest → w.idle = true → ∃ t' w', step cfg t .check = some t'
    ∧ t'.activ = rest ∧ t'.thread.peers[i]? = some w' ∧ Cmd.inactivity ∈ w'.pipe
  /-- While it stays silent, no more than those in front of this command are executed. -/
  inOrder : ∀ k n t', w.pipe[k]? = some Cmd.inactivity →
    CarefulIn cfg (Silent i) (TableAct.executes i) t n t' → n ≤ k
  /-- And when this one is executed, a DWR goes out. -/
  probed : ∀ u env io rest, u.peer = i → u.deed = .act (.exec env io) →
    u.num ≠ 0 → u.num ∉ t.thread.opened → t.careful (.turn u) = true →
    w.pipe = .inactivity :: rest → w.state = .conn → w.idle = true →
    ∃ t' w', step cfg t (.turn u) = some t' ∧ t'.thread.peers[i]? = some w' ∧ w'.state = .waitDwa
      ∧ ∀ n, env.write = .wrote n → ∃ bs whole, w'.writes
        = w.writes ++ [⟨w.sock, .req dwMsgCode, bs, whole⟩]

/-- A due peer that stays in the list sees no more rounds than there are others in front of it. -/
theorem rounds_le {i k n : Nat} (hl : Linked t) (hk : t.activ[k]? = some i)
    (h : CarefulIn cfg (Waits i) TableAct.checks t n t') : n ≤ k := by
  have hstep : ∀ (v : PeerTable) (a : TableAct) (v' : PeerTable) (k : Nat), Waits i v → Waits i v' →
      v.careful a = true → step cfg v a = some v' → Linked v ∧ v.activ[k]? = some i →
      ∃ k', (Linked v' ∧ v'.activ[k']? = some i) ∧ k' + a.checks.toNat ≤ k := by
    rintro v a v' k hv hv' hok hst ⟨hl, hk⟩
    obtain ⟨k', hk', hle⟩ := waits_closer hl hv hv' hok hst hk
    exact ⟨k', ⟨hl.step hst, hk'⟩, hle⟩
  obtain ⟨k', -, hle⟩ := Stays.closer _ hstep h ⟨hl, hk⟩
  omega

/-- A silent peer executes no more commands than there are in front of the inactivity command. -/
theorem commands_le {i k n : Nat} {w : World} (hw : t.thread.peers[i]? = some w)
    (hk : w.pipe[k]? = some .inactivity)
    (h : CarefulIn cfg (Silent i) (TableAct.executes i) t n t') : n ≤ k := by
  obtain ⟨k', -, hle⟩ := Stays.closer _
    (fun _ _ _ _ hv hv' hok hst hk => silent_closer hv hv' hok hst hk) h ⟨w, hw, hk⟩
  omega

/-- A turn of a peer under a number that is free is a step of that peer. -/
theorem step_turn {u : Turn} {a : Act} {w w' : World} (hw : t.thread.peers[u.peer]? = some w)
    (hd : u.deed = .act a) (hown : u.deed.own = true) (hn : u.num ≠ 0) (ho : u.num ∉ t.thread.opened)
    (h : World.step cfg (t.thread.view u.num w) a = some w') :
    ∃ t', step cfg t (.turn u) = some t' ∧ t'.thread.peers[u.peer]? = some w' := by
  have hlt : u.peer < t.thread.peers.length := (List.getElem?_eq_some_iff.mp hw).1
  have hth : t.thread.step cfg u = some (t.thread.put u.peer w') := by
    unfold Thread.step
    rw [hw]
    simp only [hn, ho, or_self, if_false, hd, Deed.run, h]
    rfl
  refine ⟨t.after u.peer (t.thread.put u.peer w'), ?_, List.getElem?_set_self hlt⟩
  simp only [step, hown, if_true, hth]
  rfl

/--
**A connected peer is watched** as long as no DWR fails for want of memory and no sweep
stops in front of a peer that is due.
-/
theorem watchdog_kept (h : Runs cfg (fun t a => t.careful a = true) t) (i : Nat) (w : World)
    (hw : t.thread.peers[i]? = some w) : OnWatch cfg t i w := by
  have hl := linked_reached h
  have hwatch : Watching t := by
    refine Reach.invariant (I := Watching) ?_ (fun _ _ _ hi hok hst => hi.step hok hst) h
    intro t hinit i w hw hs
    obtain ⟨nextLabel, ete, jiffies, rfl⟩ := hinit.1.1 w (List.mem_of_getElem? hw)
    exact absurd hs (by simp [World.start])
  have hlink : i ∈ t.activ ↔ w.inActiv = true := by
    rw [hl.mem i]
    simp [Thread.linked, hw]
  refine ⟨fun hs => (hwatch i w hw hs).imp hlink.mpr id, fun k n t' hk hst => rounds_le hl hk hst,
    fun rest hact hidle => ?_, fun k n t' hk hst => commands_le hw hk hst, ?_⟩
  · have ha : w.inActiv = true := hlink.mp (hact ▸ List.mem_cons_self)
    have hlt : i < t.thread.peers.length := (List.getElem?_eq_some_iff.mp hw).1
    simp only [step]
    rw [check_due hact hw ha hidle]
    exact ⟨_, _, rfl, rfl, List.getElem?_set_self hlt,
      List.mem_append_right w.pipe (List.mem_singleton.mpr rfl)⟩
  · rintro u env io rest rfl hd hn ho hok hp hs hidle
    have hmem : w.dwrMemory (.exec env io) = true := by simpa [careful, hw, hd] using hok
    obtain ⟨w', hst, hs', hsent⟩ := World.step_probe (w := t.thread.view u.num w) hp hs hidle hmem
    obtain ⟨t', ht', hw'⟩ := step_turn hw hd (by rw [hd]; rfl) hn ho hst
    exact ⟨t', w', ht', hw', hs', hsent⟩

/-! ## Two peers -/

/-- Two new peers. -/
def sample : PeerTable where
  thread := Thread.sample
  activ := []

theorem init_sample : Init sample := by
  refine ⟨Thread.init_sample, ⟨0, fun w hw => ?_⟩, rfl⟩
  have hw : w = .start (fun _ => 0) 0 0 := by simpa [sample, Thread.sample] using hw
  rw [hw]
  rfl

theorem Runs.of_trace {β : Type} {cfg : Cfg} {ok : PeerTable → TableAct → Bool} {as : List TableAct}
    {f : PeerTable → β} {b : β} (h : (trace (step cfg) ok as sample).map f = some b) :
    ∃ t, Runs cfg (fun t a => ok t a = true) t ∧ f t = b := by
  obtain ⟨t, ht, hf⟩ := Option.map_eq_some_iff.mp h
  exact ⟨t, Reach.trace (.init init_sample) ht, hf⟩

/-- The peer at place `i` is connected by an accepted socket with the number `n`. -/
def sampleConnect (i n : Nat) : List TableAct :=
  .turn ⟨i, n, .act .accept⟩ :: sampleAccept.tail.map fun a => .turn ⟨i, 9, .act a⟩

/-- Two connected peers of which nothing is heard for as long as it takes. -/
def sampleSilence : List TableAct :=
  sampleConnect 0 3 ++ sampleConnect 1 4 ++ List.replicate 35 TableAct.tick

/-- The first one has been taken off the list, and the second one is next. -/
theorem watchdog_kept_silence :
    ∃ (t : PeerTable) (w : World), t.activ = [1] ∧ t.thread.peers[0]? = some w ∧ w.state = .conn
      ∧ OnWatch sampleCfg t 0 w := by
  obtain ⟨t, hr, ht⟩ := @Runs.of_trace _ sampleCfg careful (sampleSilence ++ [TableAct.check])
    (fun t => (t.activ, t.thread.peers[0]?.map (·.state))) ([1], some .conn) (by decide +kernel)
  obtain ⟨hact, hst⟩ := Prod.mk.inj ht
  obtain ⟨w, hw, hs⟩ := Option.map_eq_some_iff.mp hst
  exact ⟨t, w, hact, hw, hs, watchdog_kept hr 0 w hw⟩

set_option synthInstance.maxSize 400 in
/--
**A peer that is forgotten, and one that is not found.** For the first there is no memory for
the DWR: it is connected and off the list, and nothing is on the way. The second is due, but
the first is not, because a message of it was read in the meantime.
-/
theorem watchdog_lost :
    (∃ (t : PeerTable) (w : World), Runs sampleCfg (fun t a => anyStep t a) t
      ∧ t.thread.peers[0]? = some w ∧ w.state = .conn ∧ ¬ (0 ∈ t.activ ∨ Cmd.inactivity ∈ w.pipe))
    ∧ ∃ (t : PeerTable) (w : World), Runs sampleCfg (fun t a => anyStep t a) t
      ∧ t.thread.peers[1]? = some w ∧ w.state = .conn ∧ w.idle = true ∧ 1 ∈ t.activ
      ∧ t.check.activ = t.activ ∧ Cmd.inactivity ∉ w.pipe := by
  constructor
  · obtain ⟨t, hr, ht⟩ := @Runs.of_trace _ sampleCfg (fun _ _ => true)
      (sampleSilence ++ [TableAct.check,
        TableAct.turn ⟨0, 9, .act (.exec { sampleEnv with msgMem := false } sampleIo)⟩])
      (fun t => (t.activ, t.thread.peers[0]?.map fun w => (w.state, w.pipe))) ([1], some (.conn, []))
      (by decide +kernel)
    obtain ⟨hact, hst⟩ := Prod.mk.inj ht
    obtain ⟨w, hw, hs⟩ := Option.map_eq_some_iff.mp hst
    obtain ⟨hs, hp⟩ := Prod.mk.inj hs
    exact ⟨t, w, hr.any, hw, hs, by rw [hact, hp]; decide⟩
  · obtain ⟨t, hr, ht⟩ := @Runs.of_trace _ sampleCfg (fun _ _ => true)
      (sampleSilence ++ [TableAct.turn ⟨0, 9, .act (.read sampleEnv [.got 4, .got 65536] sampleCer)⟩])
      (fun t => (t.activ, t.check.activ, t.thread.peers[1]?.map fun w => (w.state, w.idle, w.pipe)))
      ([0, 1], [0, 1], some (.conn, true, [])) (by decide +kernel)
    obtain ⟨hact, hrest⟩ := Prod.mk.inj ht
    obtain ⟨hcheck, hst⟩ := Prod.mk.inj hrest
    obtain ⟨w, hw, hs⟩ := Option.map_eq_some_iff.mp hst
    obtain ⟨hs, hidle, hp⟩ : w.state = .conn ∧ w.idle = true ∧ w.pipe = [] := by simpa using hs
    exact ⟨t, w, hr.any, hw, hs, hidle, by rw [hact]; decide, by rw [hact, hcheck], by rw [hp]; decide⟩

end PeerTable

end Disc.Transport
