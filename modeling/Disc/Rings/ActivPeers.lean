import Disc.Lib.Chain
import Disc.Lib.Run
import Disc.Rings.ListHead

/-!
# The list of active peers

The third part of `peer_timer_handler`: it goes through `activ_peers` from the front,
takes out every peer that nothing was heard from for `SEND_DWR_TIMEOUT` seconds, and
stops at the first peer that is not due. A peer is put at the end of the list when it
connects, when it has answered a watchdog request and after a false alarm; a message
from it renews its time where it stands. The two other parts of the handler have lists
of their own and touch neither `activ_peers` nor the times of activity.

The sweep finds all that is due exactly when no peer stands in front of one that is due
earlier.
-/

namespace Disc.Rings

open Disc.Lib

/-- A `list_head`: that of `activ_peers`, or the `lh` of a peer. -/
inductive PNode where
  | activPeers
  | peer (p : Nat)
deriving Repr, DecidableEq

/-- The peers as far as their activity is concerned. -/
structure ActivPeers where
  links : Links PNode
  /-- `p->last_activ_time`. -/
  lastActivTime : Nat → UInt32
  /-- The number of peers, in the list or not. -/
  size : Nat
  /-- The peers an `INACTIVITY_CMD` was written for, in that order. -/
  written : List Nat

/-- `SEND_DWR_TIMEOUT`. -/
def sendDwrTimeout : UInt32 := 35

/-- When the peer is due. The sum wraps around. -/
def ActivPeers.deadline (s : ActivPeers) (p : Nat) : UInt32 := s.lastActivTime p + sendDwrTimeout

/-- What the loop tests. -/
def ActivPeers.due (s : ActivPeers) (ticks : UInt32) (p : Nat) : Bool := s.deadline p ≤ ticks

/-- `init_peer_manager`, and `n` peers that are zeroed. -/
def initActivPeers (n : Nat) : ActivPeers where
  links := initListHead ⟨fun _ => none, fun _ => none⟩ .activPeers
  lastActivTime := fun _ => 0
  size := n
  written := []

/-- `list_add_tail_safe( &p->lh, &activ_peers )`. -/
def listAddTailSafe (s : ActivPeers) (p : Nat) : Res ActivPeers :=
  if s.links.next (.peer p) = none then do
    let links ← listAddTail s.links (.peer p) .activPeers
    .ok { s with links := links }
  else .ok s

/-- `list_del_safe( &p->lh , &activ_peers )`. The links are cleared twice. -/
def listDelSafe (s : ActivPeers) (p : Nat) : Res ActivPeers :=
  if s.links.next (.peer p) = none then .ok s
  else do
    let links ← listDelZero s.links (.peer p)
    .ok { s with links := zeroListHead links (.peer p) }

/-- What `dispatch_message` does first, at `now`. -/
def dispatchMessage (s : ActivPeers) (p : Nat) (now : UInt32) : ActivPeers :=
  { s with lastActivTime := Function.update s.lastActivTime p now }

/-- The loop over `activ_peers`: `n` was read from `pos` before the body runs. -/
def sweepLoop (ticks : UInt32) : Nat → ActivPeers → PNode → Option PNode → Res ActivPeers
  | _, s, .activPeers, _ => .ok s
  | 0, _, .peer _, _ => .diverge
  | fuel + 1, s, .peer p, n =>
      if s.lastActivTime p + sendDwrTimeout ≤ ticks then do
        let links ← listDelZero s.links (.peer p)
        let pos ← Res.ofAccess n
        sweepLoop ticks fuel { s with links := links, written := s.written ++ [p] } pos
          (links.next pos)
      else .ok s

/-- `peer_timer_handler`, the part that is about `activ_peers`. -/
def peerTimerHandler (s : ActivPeers) (ticks : UInt32) : Res ActivPeers :=
  if listEmpty s.links .activPeers then .ok s
  else do
    let pos ← Res.ofAccess (s.links.next .activPeers)
    sweepLoop ticks (s.size + 1) s pos (s.links.next pos)

/-- The peers of the list, in its order. -/
def ActivPeers.activ (s : ActivPeers) : List Nat :=
  (upTo s.links.next .activPeers (s.size + 1) (s.links.next .activPeers)).filterMap fun q =>
    match q with
    | .peer p => some p
    | .activPeers => none

/-! ## The invariant -/

/-- `activ_peers` holds `xs`, and the links of the other peers are null. -/
structure Holds (s : ActivPeers) (xs : List Nat) : Prop where
  ring : Ring s.links .activPeers (xs.map .peer)
  bound : ∀ p ∈ xs, p < s.size
  loose : ∀ p, p ∉ xs → s.links.next (.peer p) = none ∧ s.links.prev (.peer p) = none

section Holds

variable {s : ActivPeers} {xs : List Nat}

theorem mem_map_peer {p : Nat} : PNode.peer p ∈ xs.map .peer ↔ p ∈ xs := by
  simp

theorem Holds.nodup (h : Holds s xs) : xs.Nodup :=
  (List.nodup_cons.mp h.ring.src).2.of_map

theorem Holds.length_le (h : Holds s xs) : xs.length ≤ s.size :=
  length_le_of_nodup h.nodup h.bound

theorem Holds.activ_eq (h : Holds s xs) : s.activ = xs := by
  have hlen : (xs.map PNode.peer).length < s.size + 1 := by
    rw [List.length_map]
    exact Nat.lt_succ_of_le h.length_le
  rw [ActivPeers.activ, Between.upTo_eq h.ring hlen, List.filterMap_map]
  exact List.filterMap_some

/-- The links out of the head and out of the first peer. -/
theorem Holds.front {p : Nat} (h : Holds s (p :: xs)) :
    s.links.next .activPeers = some (.peer p)
      ∧ ∃ q vs, xs.map PNode.peer ++ [PNode.activPeers] = q :: vs
        ∧ s.links.next (.peer p) = some q := by
  have hchain := h.ring.chain
  rw [List.map_cons, List.cons_append, List.isChain_cons_cons] at hchain
  obtain ⟨q, vs, hq⟩ := exists_cons (xs.map PNode.peer) .activPeers
  refine ⟨hchain.1.1, q, vs, hq, ?_⟩
  rw [hq, List.isChain_cons_cons] at hchain
  exact hchain.2.1.1

theorem Holds.linked_iff (h : Holds s xs) (p : Nat) : s.links.next (.peer p) ≠ none ↔ p ∈ xs := by
  refine ⟨fun hne => ?_, fun hp => ?_⟩
  · by_contra hno
    exact hne (h.loose p hno).1
  · obtain ⟨as, bs, rfl⟩ := List.append_of_mem hp
    have hring := h.ring
    rw [List.map_append, List.map_cons] at hring
    obtain ⟨-, -, -, hne, -⟩ := hring.delZero_apart
    exact hne.1

/-- A peer that is in no list is put at the end. -/
theorem Holds.add (h : Holds s xs) {p : Nat} (hp : p ∉ xs) (hlt : p < s.size) :
    ∃ m', listAddTailSafe s p = .ok { s with links := m' }
      ∧ Holds { s with links := m' } (xs ++ [p]) := by
  obtain ⟨m', hadd, hring, hfr⟩ :=
    h.ring.addTail_apart (.peer p) (by simp) (fun hm => hp (mem_map_peer.mp hm))
  refine ⟨m', ?_, ?_, ?_, ?_⟩
  · rw [listAddTailSafe, if_pos (h.loose p hp).1, hadd, Res.ok_bind]
  · rw [List.map_append]
    exact hring
  · intro q hq
    rcases List.mem_append.mp hq with hq | hq
    · exact h.bound q hq
    · rw [List.mem_singleton.mp hq]
      exact hlt
  · intro q hq
    simp only [List.mem_append, List.mem_singleton, not_or] at hq
    have hlinks := hfr (.peer q) (by simp) (fun hm => hq.1 (mem_map_peer.mp hm))
      (fun he => hq.2 (PNode.peer.inj he))
    rw [hlinks.1, hlinks.2]
    exact h.loose q hq.1

/-- Taking a peer out of the list. -/
theorem Holds.delZero {as bs : List Nat} {p : Nat} (h : Holds s (as ++ p :: bs)) :
    ∃ m', listDelZero s.links (.peer p) = .ok m'
      ∧ m'.next (.peer p) = none ∧ m'.prev (.peer p) = none
      ∧ ∀ w, Holds { s with links := m', written := w } (as ++ bs) := by
  have hring := h.ring
  rw [List.map_append, List.map_cons] at hring
  obtain ⟨m', hdel, hring', -, hnull, hfr⟩ := hring.delZero_apart
  refine ⟨m', hdel, hnull.1, hnull.2, fun w => ⟨?_, ?_, ?_⟩⟩
  · rw [List.map_append]
    exact hring'
  · intro q hq
    refine h.bound q ?_
    rcases List.mem_append.mp hq with hq | hq
    · exact List.mem_append.mpr (Or.inl hq)
    · exact List.mem_append.mpr (Or.inr (List.mem_cons_of_mem p hq))
  · intro q hq
    by_cases hqp : q = p
    · rw [hqp]
      exact hnull
    · have hout : q ∉ as ++ p :: bs := by
        simp only [List.mem_append, List.mem_cons, not_or] at hq ⊢
        exact ⟨hq.1, hqp, hq.2⟩
      have hlinks := hfr (.peer q) (by simp) (fun hm => hout ?_)
      · rw [hlinks.1, hlinks.2]
        exact h.loose q hout
      · rw [← List.map_cons, ← List.map_append] at hm
        exact mem_map_peer.mp hm

/-- And leaving its links null a second time. -/
theorem Holds.del {as bs : List Nat} {p : Nat} (h : Holds s (as ++ p :: bs)) :
    ∃ m', listDelSafe s p = .ok { s with links := m' }
      ∧ Holds { s with links := m' } (as ++ bs) := by
  obtain ⟨m', hdel, hnext, hprev, hh⟩ := h.delZero
  refine ⟨m', ?_, hh s.written⟩
  have hlinked : s.links.next (.peer p) ≠ none := (h.linked_iff p).mpr (by simp)
  rw [listDelSafe, if_neg hlinked, hdel, Res.ok_bind, zeroListHead_of_null hnext hprev]

/-! ## The sweep -/

theorem due_iff {ticks : UInt32} {p : Nat} :
    s.due ticks p = true ↔ s.lastActivTime p + sendDwrTimeout ≤ ticks := decide_eq_true_iff

/-- The loop takes out the peers in front that are due, and stops. -/
theorem Holds.loop (h : Holds s xs) (ticks : UInt32) {fuel : Nat} (hf : xs.length ≤ fuel)
    {pos : PNode} (hpos : s.links.next .activPeers = some pos) :
    ∃ m', sweepLoop ticks fuel s pos (s.links.next pos)
        = .ok { s with links := m', written := s.written ++ xs.takeWhile (s.due ticks) }
      ∧ ∀ w, Holds { s with links := m', written := w } (xs.dropWhile (s.due ticks)) := by
  induction xs generalizing s fuel pos with
  | nil =>
      have hchain := h.ring.chain
      rw [List.map_nil, List.nil_append, List.isChain_pair] at hchain
      obtain rfl : pos = .activPeers := Option.some.inj (hpos.symm.trans hchain.1)
      refine ⟨s.links, ?_, fun w => ⟨h.ring, h.bound, h.loose⟩⟩
      cases fuel <;> simp [sweepLoop]
  | cons p xs ih =>
      obtain ⟨hhead, q, vs, hq, hnext⟩ := h.front
      obtain rfl : pos = .peer p := Option.some.inj (hpos.symm.trans hhead)
      obtain ⟨fuel, rfl⟩ := Nat.exists_eq_succ_of_ne_zero (Nat.ne_of_gt (Nat.zero_lt_of_lt hf))
      by_cases hdue : s.due ticks p = true
      · have hfront : Holds s ([] ++ p :: xs) := h
        obtain ⟨m₁, hdel, -, -, hrest⟩ := hfront.delZero
        have h₁ := hrest (s.written ++ [p])
        -- the head is now linked to what the loop has read from the peer it took out
        have hpos₁ : m₁.next .activPeers = some q := by
          have hchain := h₁.ring.chain
          simp only [List.nil_append] at hchain
          rw [hq, List.isChain_cons_cons] at hchain
          exact hchain.1.1
        obtain ⟨m', hloop, hh⟩ := ih h₁ (Nat.le_of_succ_le_succ hf) hpos₁
        refine ⟨m', ?_, ?_⟩
        · rw [sweepLoop, if_pos (due_iff.mp hdue),
            hdel, Res.ok_bind, hnext, Res.ofAccess_some, Res.ok_bind, hloop,
            List.takeWhile_cons_of_pos hdue, List.append_assoc, List.singleton_append]
          rfl
        · rw [List.dropWhile_cons_of_pos hdue]
          exact hh
      · refine ⟨s.links, ?_, fun w => ?_⟩
        · rw [sweepLoop, if_neg (mt due_iff.mpr hdue),
            List.takeWhile_cons_of_neg hdue, List.append_nil]
        · rw [List.dropWhile_cons_of_neg hdue]
          exact ⟨h.ring, h.bound, h.loose⟩

/-- **What the handler does to the list**, whatever its order. -/
theorem Holds.handler (h : Holds s xs) (ticks : UInt32) :
    ∃ m', peerTimerHandler s ticks
        = .ok { s with links := m', written := s.written ++ xs.takeWhile (s.due ticks) }
      ∧ ∀ w, Holds { s with links := m', written := w } (xs.dropWhile (s.due ticks)) := by
  by_cases hempty : listEmpty s.links .activPeers = true
  · obtain rfl : xs = [] := List.map_eq_nil_iff.mp (h.ring.empty_iff.mp hempty)
    refine ⟨s.links, ?_, fun w => ⟨h.ring, h.bound, h.loose⟩⟩
    rw [peerTimerHandler, if_pos hempty, List.takeWhile_nil, List.append_nil]
  · have hpos : ∃ pos, s.links.next .activPeers = some pos := by
      cases xs with
      | nil => exact absurd (h.ring.empty_iff.mpr rfl) hempty
      | cons p xs => exact ⟨_, h.front.1⟩
    obtain ⟨pos, hpos⟩ := hpos
    obtain ⟨m', hloop, hh⟩ := h.loop ticks (Nat.le_succ_of_le h.length_le) hpos
    refine ⟨m', ?_, hh⟩
    rw [peerTimerHandler, if_neg hempty, hpos, Res.ofAccess_some, Res.ok_bind, hloop]

/-- Dropping the front that is due drops all that is due exactly when nothing due stands behind. -/
theorem dropWhile_clear_iff (f : Nat → Bool) (xs : List Nat) :
    (∀ p ∈ xs.dropWhile f, f p = false) ↔ xs.Pairwise fun p q => f q = true → f p = true := by
  induction xs with
  | nil => simp
  | cons x xs ih =>
      rw [List.pairwise_cons]
      by_cases hx : f x = true
      · rw [List.dropWhile_cons_of_pos hx, ih]
        exact ⟨fun h => ⟨fun _ _ _ => hx, h⟩, fun h => h.2⟩
      · rw [List.dropWhile_cons_of_neg hx]
        refine ⟨fun h => ⟨fun q hq hfq => ?_, ?_⟩, fun h q hq => ?_⟩
        · exact absurd hfq (by simp [h q (List.mem_cons_of_mem x hq)])
        · refine List.Pairwise.imp_of_mem ?_ (List.pairwise_of_forall (fun _ _ => trivial))
          intro p q _ hq _ hfq
          exact absurd hfq (by simp [h q (List.mem_cons_of_mem x hq)])
        · by_contra hfq
          rcases List.mem_cons.mp hq with rfl | hq
          · exact hx (by simpa using hfq)
          · exact hx (h.1 q hq (by simpa using hfq))

end Holds

/-! ## Every sequence of insertions, removals, messages and sweeps -/

/-- What happens to the list. -/
inductive PeerOp where
  | add (p : Nat)
  | del (p : Nat)
  | message (p : Nat) (now : UInt32)
  | timer (ticks : UInt32)
deriving Repr, DecidableEq

/-- The peers after an operation that returned; a peer that is added is one of them. -/
def PeerOp.step (s : ActivPeers) (a : PeerOp) : Option ActivPeers :=
  match a with
  | .add p => if p < s.size then (listAddTailSafe s p).toOption else none
  | .del p => (listDelSafe s p).toOption
  | .message p now => some (dispatchMessage s p now)
  | .timer ticks => (peerTimerHandler s ticks).toOption

/--
The operation leaves no peer in front of one that is due earlier: a peer that is added
is due last, and a message comes from a peer whose new deadline fits where it stands.
-/
def PeerOp.KeepsOrder (s : ActivPeers) : PeerOp → Prop
  | .add p => p ∈ s.activ ∨ ∀ q ∈ s.activ, s.deadline q ≤ s.deadline p
  | .message p now => ∀ as bs, s.activ = as ++ p :: bs →
      (∀ q ∈ as, s.deadline q ≤ now + sendDwrTimeout)
        ∧ ∀ q ∈ bs, now + sendDwrTimeout ≤ s.deadline q
  | _ => True

/-- No peer of the list is due at `ticks`. -/
def ActivPeers.Clear (s : ActivPeers) (ticks : UInt32) : Prop :=
  ∀ p ∈ s.activ, ¬ s.lastActivTime p + sendDwrTimeout ≤ ticks

/-- A command was written for exactly the peers that were taken out. -/
def Told (s s' : ActivPeers) : Prop :=
  ∃ gone, s.activ = gone ++ s'.activ ∧ s'.written = s.written ++ gone

/-- No peer of `xs` stands in front of one that is due earlier. -/
def Ordered (s : ActivPeers) (xs : List Nat) : Prop :=
  xs.Pairwise fun p q => s.deadline p ≤ s.deadline q

section Runs

variable {s s' : ActivPeers} {xs : List Nat}

theorem deadline_message_self (s : ActivPeers) (p : Nat) (now : UInt32) :
    (dispatchMessage s p now).deadline p = now + sendDwrTimeout := by
  simp [ActivPeers.deadline, dispatchMessage]

theorem deadline_message_of_ne {p q : Nat} (now : UInt32) (hq : q ≠ p) :
    (dispatchMessage s p now).deadline q = s.deadline q := by
  simp [ActivPeers.deadline, dispatchMessage, hq]

/-- A peer of the list that is heard from. -/
theorem Ordered.message {as bs : List Nat} {p : Nat} {now : UInt32}
    (h : Ordered s (as ++ p :: bs)) (hnd : (as ++ p :: bs).Nodup)
    (has : ∀ q ∈ as, s.deadline q ≤ now + sendDwrTimeout)
    (hbs : ∀ q ∈ bs, now + sendDwrTimeout ≤ s.deadline q) :
    Ordered (dispatchMessage s p now) (as ++ p :: bs) := by
  have hnot : p ∉ as ∧ p ∉ bs := by
    rw [List.nodup_middle, List.nodup_cons, List.mem_append, not_or] at hnd
    exact hnd.1
  have hself := deadline_message_self s p now
  have has' : ∀ q ∈ as, (dispatchMessage s p now).deadline q = s.deadline q :=
    fun q hq => deadline_message_of_ne now fun he => hnot.1 (he ▸ hq)
  have hbs' : ∀ q ∈ bs, (dispatchMessage s p now).deadline q = s.deadline q :=
    fun q hq => deadline_message_of_ne now fun he => hnot.2 (he ▸ hq)
  obtain ⟨hl, hr, hcross⟩ := List.pairwise_append.mp h
  refine List.pairwise_append.mpr ⟨?_, List.pairwise_cons.mpr ⟨?_, ?_⟩, ?_⟩
  · refine hl.imp_of_mem fun hx hy hle => ?_
    rw [has' _ hx, has' _ hy]
    exact hle
  · intro q hq
    rw [hself, hbs' q hq]
    exact hbs q hq
  · refine (List.pairwise_cons.mp hr).2.imp_of_mem fun hx hy hle => ?_
    rw [hbs' _ hx, hbs' _ hy]
    exact hle
  · intro x hx y hy
    rw [has' x hx]
    rcases List.mem_cons.mp hy with rfl | hy
    · rw [hself]
      exact has x hx
    · rw [hbs' y hy]
      exact hcross x hx y (List.mem_cons_of_mem p hy)

/-- **One operation.** The list stays a list, and in order if the operation keeps it. -/
theorem Holds.step (h : Holds s xs) {a : PeerOp} (hs : PeerOp.step s a = some s') :
    ∃ ys, Holds s' ys ∧ (Ordered s xs → PeerOp.KeepsOrder s a → Ordered s' ys) := by
  cases a with
  | add p =>
      simp only [PeerOp.step] at hs
      split at hs
      next hlt =>
        by_cases hp : p ∈ xs
        · rw [listAddTailSafe, if_neg ((h.linked_iff p).mpr hp), Res.toOption,
            Option.some.injEq] at hs
          exact ⟨xs, hs ▸ h, fun hord _ => hs ▸ hord⟩
        · obtain ⟨m', hadd, hh⟩ := h.add hp hlt
          rw [hadd, Res.toOption, Option.some.injEq] at hs
          refine ⟨_, hs ▸ hh, fun hord hk => hs ▸ ?_⟩
          have hlast : ∀ q ∈ xs, s.deadline q ≤ s.deadline p := by
            rw [PeerOp.KeepsOrder, h.activ_eq] at hk
            exact hk.resolve_left hp
          refine List.pairwise_append.mpr ⟨hord, List.pairwise_singleton _ _, fun q hq r hr => ?_⟩
          rw [List.mem_singleton.mp hr]
          exact hlast q hq
      next => exact absurd hs (by simp)
  | del p =>
      by_cases hp : p ∈ xs
      · obtain ⟨as, bs, rfl⟩ := List.append_of_mem hp
        obtain ⟨m', hdel, hh⟩ := h.del
        rw [PeerOp.step, hdel, Res.toOption, Option.some.injEq] at hs
        refine ⟨_, hs ▸ hh, fun hord _ => hs ▸ ?_⟩
        exact hord.sublist ((List.sublist_cons_self p bs).append_left as)
      · rw [PeerOp.step, listDelSafe, if_pos (h.loose p hp).1, Res.toOption,
          Option.some.injEq] at hs
        exact ⟨xs, hs ▸ h, fun hord _ => hs ▸ hord⟩
  | message p now =>
      obtain rfl := Option.some.inj hs
      refine ⟨xs, ⟨h.ring, h.bound, h.loose⟩, fun hord hk => ?_⟩
      by_cases hp : p ∈ xs
      · obtain ⟨as, bs, rfl⟩ := List.append_of_mem hp
        obtain ⟨has, hbs⟩ := hk as bs h.activ_eq
        exact hord.message h.nodup has hbs
      · have hsame : ∀ q ∈ xs, (dispatchMessage s p now).deadline q = s.deadline q :=
          fun q hq => deadline_message_of_ne now fun he => hp (he ▸ hq)
        refine hord.imp_of_mem fun hx hy hle => ?_
        rw [hsame _ hx, hsame _ hy]
        exact hle
  | timer ticks =>
      obtain ⟨m', hrun, hh⟩ := h.handler ticks
      rw [PeerOp.step, hrun, Res.toOption, Option.some.injEq] at hs
      refine ⟨_, hs ▸ hh _, fun hord _ => hs ▸ ?_⟩
      exact hord.sublist (List.dropWhile_sublist _)

theorem holds_init (n : Nat) : Holds (initActivPeers n) [] :=
  ⟨ring_init _ _, by simp, fun p _ => ⟨rfl, rfl⟩⟩

theorem holds_reach {n : Nat} (h : Reach (· = initActivPeers n) PeerOp.step anyStep s) :
    ∃ xs, Holds s xs := by
  refine Reach.invariant (I := fun s => ∃ xs, Holds s xs) ?_ ?_ h
  · intro s hs
    exact ⟨[], hs ▸ holds_init n⟩
  · intro s a s' hi _ hs
    obtain ⟨xs, hh⟩ := hi
    obtain ⟨ys, hys, -⟩ := hh.step hs
    exact ⟨ys, hys⟩

theorem ordered_reach {n : Nat}
    (h : Reach (· = initActivPeers n) PeerOp.step PeerOp.KeepsOrder s) :
    ∃ xs, Holds s xs ∧ Ordered s xs := by
  refine Reach.invariant (I := fun s => ∃ xs, Holds s xs ∧ Ordered s xs) ?_ ?_ h
  · intro s hs
    exact ⟨[], hs ▸ holds_init n, .nil⟩
  · intro s a s' hi hk hs
    obtain ⟨xs, hh, hord⟩ := hi
    obtain ⟨ys, hys, hkeep⟩ := hh.step hs
    exact ⟨ys, hys, hkeep hord hk⟩

/-- What the handler leaves behind, and for whom it writes. -/
theorem Holds.swept (h : Holds s xs) (ticks : UInt32) :
    ∃ s', peerTimerHandler s ticks = .ok s' ∧ Told s s'
      ∧ (s'.Clear ticks ↔ xs.Pairwise fun p q => s.due ticks q = true → s.due ticks p = true) := by
  obtain ⟨m', hrun, hh⟩ := h.handler ticks
  have hactiv := (hh (s.written ++ xs.takeWhile (s.due ticks))).activ_eq
  refine ⟨_, hrun, ⟨xs.takeWhile (s.due ticks), ?_, rfl⟩, ?_⟩
  · rw [hactiv, h.activ_eq, List.takeWhile_append_dropWhile]
  · rw [← dropWhile_clear_iff, ActivPeers.Clear, hactiv]
    refine forall₂_congr fun p _ => ?_
    rw [← Bool.not_eq_true, due_iff]

/--
**A sweep takes out all that is due exactly when no peer that is not due stands in front of
one that is**; it always writes a command for exactly the peers it takes out. In a run in
which insertions and messages keep the list in order, every sweep takes out all that is due.
-/
theorem sweep_clear_iff {n : Nat}
    (h : Reach (· = initActivPeers n) PeerOp.step anyStep s) (ticks : UInt32) :
    ∃ s', peerTimerHandler s ticks = .ok s' ∧ Told s s'
      ∧ (s'.Clear ticks ↔
          s.activ.Pairwise fun p q => s.deadline q ≤ ticks → s.deadline p ≤ ticks)
      ∧ (Reach (· = initActivPeers n) PeerOp.step PeerOp.KeepsOrder s → s'.Clear ticks) := by
  obtain ⟨xs, hh⟩ := holds_reach h
  obtain ⟨s', hrun, htold, hclear⟩ := hh.swept ticks
  simp only [due_iff] at hclear
  refine ⟨s', hrun, htold, ?_, fun hk => hclear.mpr ?_⟩
  · rw [hh.activ_eq]
    exact hclear
  · obtain ⟨ys, hys, hord⟩ := ordered_reach hk
    obtain rfl : ys = xs := hys.activ_eq.symm.trans hh.activ_eq
    exact hord.imp fun hle hq => UInt32.le_trans hle hq

/-- The peer in front was silent longest: the sweep takes it and leaves the other. -/
theorem sweep_clear_iff_two :
    ∃ s s' : ActivPeers, s.activ = [0, 1] ∧ s'.activ = [1] ∧ peerTimerHandler s 36 = .ok s'
      ∧ Told s s' ∧ s'.Clear 36 := by
  have hreach : Reach (· = initActivPeers 2) PeerOp.step anyStep _ :=
    .step (a := .message 1 10) (.step (a := .add 1) (.step (a := .add 0) (.init rfl) trivial rfl)
      trivial rfl) trivial rfl
  obtain ⟨s', hrun, htold, hclear, -⟩ := sweep_clear_iff hreach 36
  refine ⟨_, s', rfl, ?_, hrun, htold, hclear.mpr ?_⟩
  · rw [← Res.ok.inj hrun]
    rfl
  · show [0, 1].Pairwise _
    exact .cons (by decide) (.cons (by simp) .nil)

/-- The peer in front was heard from at 10, the one behind it last at 0: the sweep at 36 finds
nothing. -/
theorem sweep_misses_due :
    ∃ s : ActivPeers, Reach (· = initActivPeers 2) PeerOp.step anyStep s
      ∧ peerTimerHandler s 36 = .ok s ∧ ¬ s.Clear 36 := by
  refine ⟨_, .step (a := .message 0 10) (.step (a := .add 1) (.step (a := .add 0) (.init rfl)
    trivial rfl) trivial rfl) trivial rfl, rfl, fun h => ?_⟩
  have hlast : ¬ (0 : UInt32) + sendDwrTimeout ≤ 36 := h 1 (by decide)
  exact hlast (by decide)

end Runs

end Disc.Rings
