import Disc.Timer.Calls

/-!
# The walk over the links that expired

`peer_timer_handler` and `ses_timer_handler` ask for the links that are due and
follow them, one after the other, to the end of the chain. They do so without a
lock: the links have been cut off their list and are marked as free. But a free link
is one that another thread may arm, and a connection that is accepted does that to
the link of a peer that was about to be reconnected. From then on its `next_tl` leads
into another list.

The timer thread is modelled with a step for each access it makes: the check
before the lock, the part under the lock, reading the payload of a link, reading
its `next_tl`. Calls of other threads on any list may come between any two of them.
-/

namespace Disc.Timer

open Disc.Lib

variable {L : Type}

/-- Where the timer thread is. -/
inductive Thread (L : Type) where
  | idle
  /-- Between the check and the lock. -/
  | locking (l : L) (time : UInt32)
  /-- At the head of `while (tl)`. -/
  | look (tl : Option (Ptr L))
  /-- The payload of `tl` is read, and `tl = tl->next_tl` comes next. -/
  | leave (tl : Ptr L)
deriving Repr, DecidableEq

/-- The memory, the timer thread, and a record of the walk it is on. -/
structure World (L : Type) where
  mem : Mem L
  thread : Thread L
  /-- The links the last call took out of their list. -/
  detached : List Nat
  /-- The cells visited since. -/
  visited : List (Ptr L)

/-- Nothing is armed and no walk has begun. -/
def World.init [DecidableEq L] (n : Nat) : World L := ⟨.fresh n, .idle, [], []⟩

/-- A step of the timer thread, or a call of another thread. -/
inductive Act (L : Type) where
  | check (l : L) (time : UInt32)
  | detach
  | visit
  | leave
  | call (a : Call L)
deriving Repr, DecidableEq

/-- The link a call is about; only the timer thread asks for expired links. -/
def Call.link : Call L → Option Nat
  | .add tl _ _ => some tl
  | .insert tl _ _ => some tl
  | .rmv tl _ => some tl
  | .getExpired _ _ => none

section Step

variable [DecidableEq L]

/-- The check before the lock. A new walk begins when the last one is over. -/
def World.check (w : World L) (l : L) (time : UInt32) : Option (World L) :=
  match w.thread with
  | .idle | .look none =>
      (worthLocking w.mem l time).toOption.map fun b =>
        { w with thread := if b then .locking l time else .look none, detached := [], visited := [] }
  | _ => none

/-- The part under the lock. -/
def World.detach (w : World L) : Option (World L) :=
  match w.thread with
  | .locking l time =>
      (detachExpired w.mem l time).toOption.map fun (r, m) =>
        { mem := m, thread := .look r, visited := [],
          detached := (w.mem.contents l).filter fun i => m.timerList (.link i) ≠ some l }
  | _ => none

/-- One step. -/
def World.step (w : World L) : Act L → Option (World L)
  | .check l time => w.check l time
  | .detach => w.detach
  | .visit =>
      match w.thread with
      | .look (some p) => some { w with thread := .leave p, visited := w.visited ++ [p] }
      | _ => none
  | .leave =>
      match w.thread with
      | .leave p => some { w with thread := .look (w.mem.links.next p) }
      | _ => none
  | .call a =>
      match a.link with
      | some tl => if tl < w.mem.size then (a.step w.mem).map fun m => { w with mem := m } else none
      | none => none

end Step

/-- The walk has not got past link `i` yet. -/
def World.Ahead (w : World L) (i : Nat) : Prop :=
  match w.thread with
  | .look _ => i ∈ w.detached ∧ .link i ∉ w.visited
  | .leave p => i ∈ w.detached ∧ (.link i ∉ w.visited ∨ p = .link i)
  | _ => False

/-- Nobody arms a link the walk has not got past. -/
def Spared (w : World L) : Act L → Prop
  | .call (.add tl _ _) => ¬ w.Ahead tl
  | .call (.insert tl _ _) => ¬ w.Ahead tl
  | _ => True

/-- The walk so far, and where it goes from here. -/
structure WalkRight [DecidableEq L] (w : World L) : Prop where
  /-- It visits the detached links in their order, and nothing else. -/
  visited : w.visited <+: w.detached.map .link
  once : w.visited.Nodup
  /-- What it visits next is a detached link, and in no list. -/
  ahead : ∀ p, w.thread = .look (some p) →
    ∃ i ∈ w.detached, p = .link i ∧ p ∉ w.visited ∧ w.mem.timerList p = none
      ∧ ∀ l, i ∉ w.mem.contents l
  /-- It ends when every link has been visited. -/
  ends : ∀ tl, w.thread = .look tl → (tl = none ↔ w.visited = w.detached.map .link)

/-! ## What the calls of other threads leave alone -/

section Calls

variable [DecidableEq L] {m m' : Mem L} {c : L → List Nat}

/-- Arming a link leaves the other free links alone. -/
theorem arm_spares {tl : Nat} {l : L} {t : UInt32} {x y : Ptr L}
    (hx : m.home x = some l) {i : Nat} (hfree : m.timerList (.link i) = none) (hne : i ≠ tl) :
    (m.arm tl l t x y).links.next (.link i) = m.links.next (.link i)
      ∧ (m.arm tl l t x y).timerList (.link i) = none := by
  have hix : (Ptr.link i : Ptr L) ≠ x := (ne_link_of_home hfree hx).symm
  have hil : (Ptr.link i : Ptr L) ≠ .link tl := by simpa using hne
  rw [arm_next, if_neg hix, if_neg hil, arm_timerList, Function.update_of_ne hil]
  exact ⟨rfl, hfree⟩

/-- A free link that a call does not arm stays as it is. -/
theorem Wired.call (h : Wired m c) {a : Call L} {tl : Nat} (hl : a.link = some tl)
    (hi : tl < m.size) (hs : a.step m = some m') :
    ∃ c', Wired m' c' ∧ ∀ i, m.timerList (.link i) = none → (i = tl → ∃ l, a = .rmv tl l) →
      m'.links.next (.link i) = m.links.next (.link i) ∧ m'.timerList (.link i) = none := by
  have hsame : ∃ c', Wired m c' ∧ ∀ i, m.timerList (.link i) = none →
      (i = tl → ∃ l, a = .rmv tl l) →
      m.links.next (.link i) = m.links.next (.link i) ∧ m.timerList (.link i) = none :=
    ⟨c, h, fun i hfree _ => ⟨rfl, hfree⟩⟩
  cases a with
  | add tl' l t =>
      obtain rfl : tl' = tl := Option.some.inj hl
      cases hk : m.timerList (.link tl') with
      | some k => exact Res.toOption_map_snd (add_refused hk l t) hs ▸ hsame
      | none =>
          obtain ⟨x, y, hrun, hhx, hw⟩ := add_armed h l t hi hk
          refine Res.toOption_map_snd hrun hs ▸ ⟨_, hw, fun i hfree hne => arm_spares hhx hfree ?_⟩
          rintro rfl
          exact absurd (hne rfl) (by simp)
  | insert tl' l t =>
      obtain rfl : tl' = tl := Option.some.inj hl
      cases hk : m.timerList (.link tl') with
      | some k => exact Res.toOption_map_snd (insert_refused hk l t) hs ▸ hsame
      | none =>
          obtain ⟨x, y, as, bs, hrun, hhx, -, hw, -⟩ := insert_armed h l t hi hk
          refine Res.toOption_map_snd hrun hs ▸ ⟨_, hw, fun i hfree hne => arm_spares hhx hfree ?_⟩
          rintro rfl
          exact absurd (hne rfl) (by simp)
  | rmv tl' l =>
      obtain rfl : tl' = tl := Option.some.inj hl
      by_cases hin : tl' ∈ c l
      · obtain ⟨m₁, hrun, hw, -, -, hnext⟩ := rmv_disarmed h hin
        refine Res.toOption_map_snd hrun hs ▸
          ⟨_, hw, fun i hfree _ => ⟨hnext i hfree, hw.timerList_none fun k hk => ?_⟩⟩
        by_cases hkl : k = l
        · subst hkl
          rw [Function.update_self] at hk
          exact h.free hfree k (List.mem_of_mem_erase hk)
        · rw [Function.update_of_ne hkl] at hk
          exact h.free hfree k hk
      · exact Res.toOption_map_snd (rmv_refused (mt (h.field tl' l).mp hin)) hs ▸ hsame
  | getExpired l time => exact absurd hl (by simp [Call.link])

end Calls

/-! ## The walk -/

/-- The links `rest` are still to be visited: they are free, and `tl` leads through them. -/
structure Remaining (m : Mem L) (tl : Option (Ptr L)) (rest : List Nat) : Prop where
  trail : Trail m.links.next tl (rest.map .link)
  free : ∀ i ∈ rest, m.timerList (.link i) = none

/-- The invariant of a walk that is spared. -/
def Walking (w : World L) : Prop :=
  match w.thread with
  | .look tl => ∃ past rest, w.detached = past ++ rest ∧ w.visited = past.map .link
      ∧ Remaining w.mem tl rest
  | .leave p => ∃ past i rest, w.detached = past ++ i :: rest ∧ p = .link i
      ∧ w.visited = (past ++ [i]).map .link ∧ Remaining w.mem (some p) (i :: rest)
  | _ => w.detached = [] ∧ w.visited = []

/-- The invariant: the lists are in order, and so is the walk. -/
structure SweepInv (w : World L) : Prop where
  wired : ∃ c, Wired w.mem c
  nodup : w.detached.Nodup
  walk : Walking w

section Walk

variable {m m' : Mem L}

theorem trail_congr {nxt nxt' : Ptr L → Option (Ptr L)} {tl : Option (Ptr L)}
    {xs : List (Ptr L)} (h : Trail nxt tl xs) (hn : ∀ x ∈ xs, nxt' x = nxt x) :
    Trail nxt' tl xs := by
  induction xs generalizing tl with
  | nil => exact h
  | cons x xs ih =>
      refine ⟨h.1, ?_⟩
      rw [hn x (by simp)]
      exact ih h.2 fun y hy => hn y (by simp [hy])

/-- Links that stay as they are can still be walked. -/
theorem Remaining.congr {tl : Option (Ptr L)} {rest : List Nat} (h : Remaining m tl rest)
    (hn : ∀ i ∈ rest, m'.links.next (.link i) = m.links.next (.link i)
      ∧ m'.timerList (.link i) = none) : Remaining m' tl rest := by
  refine ⟨trail_congr h.trail fun x hx => ?_, fun i hi => (hn i hi).2⟩
  obtain ⟨i, hi, rfl⟩ := List.mem_map.mp hx
  exact (hn i hi).1

end Walk

section Sweep

variable [DecidableEq L] {w w' : World L}

/-- A call that spares the walk keeps it. -/
theorem SweepInv.call (h : SweepInv w) {a : Call L} {tl : Nat} (hl : a.link = some tl)
    (hi : tl < w.mem.size) {m' : Mem L} (hs : a.step w.mem = some m')
    (hok : Spared w (.call a)) : SweepInv { w with mem := m' } := by
  obtain ⟨c, hw⟩ := h.wired
  obtain ⟨c', hw', hfr⟩ := hw.call hl hi hs
  refine ⟨⟨c', hw'⟩, h.nodup, ?_⟩
  have hnot : ∀ i, w.Ahead i → i = tl → ∃ l, a = .rmv tl l := by
    rintro i hahead rfl
    cases a with
    | add tl' l t =>
        obtain rfl : tl' = i := Option.some.inj hl
        exact absurd hahead hok
    | insert tl' l t =>
        obtain rfl : tl' = i := Option.some.inj hl
        exact absurd hahead hok
    | rmv tl' l =>
        obtain rfl : tl' = i := Option.some.inj hl
        exact ⟨l, rfl⟩
    | getExpired l time => exact absurd hl (by simp [Call.link])
  have hwalk := h.walk
  unfold Walking at hwalk ⊢
  have hnd := h.nodup
  cases hth : w.thread with
  | idle => rw [hth] at hwalk; exact hwalk
  | locking l time => rw [hth] at hwalk; exact hwalk
  | look q =>
      rw [hth] at hwalk
      obtain ⟨past, rest, hd, hv, hrem⟩ := hwalk
      refine ⟨past, rest, hd, hv, hrem.congr fun i hir => hfr i (hrem.free i hir) (hnot i ?_)⟩
      rw [hd] at hnd
      simp only [World.Ahead, hth, hd, hv, List.mem_map, Ptr.link.injEq, exists_eq_right]
      exact ⟨List.mem_append_right _ hir,
        fun hp => (List.nodup_append.mp hnd).2.2 i hp i hir rfl⟩
  | leave p =>
      rw [hth] at hwalk
      obtain ⟨past, j, rest, hd, hp, hv, hrem⟩ := hwalk
      refine ⟨past, j, rest, hd, hp, hv, hrem.congr fun i hir => hfr i (hrem.free i hir) (hnot i ?_)⟩
      rw [hd] at hnd
      simp only [World.Ahead, hth, hd, hv, hp, List.mem_map, Ptr.link.injEq, exists_eq_right]
      refine ⟨List.mem_append_right _ hir, ?_⟩
      by_cases hij : i = j
      · exact Or.inr (by rw [hij])
      · refine Or.inl fun hin => ?_
        have hpast : i ∈ past := by simpa [hij] using hin
        exact (List.nodup_append.mp hnd).2.2 i hpast i hir rfl

/-- The links the part under the lock took out are those it returns. -/
theorem detached_eq {m m' : Mem L} {c : L → List Nat} (h : Wired m c) {l : L} {as bs : List Nat}
    (hsplit : c l = as ++ bs) (hw : Wired m' (Function.update c l bs)) :
    ((m.contents l).filter fun i => m'.timerList (.link i) ≠ some l) = as := by
  have hnd := h.nodup l
  have hmem : ∀ i, m'.timerList (.link i) = some l ↔ i ∈ bs := by
    intro i
    rw [hw.field, Function.update_self]
  rw [hsplit] at hnd
  rw [h.contents_eq, hsplit, List.filter_append]
  have has : (as.filter fun i => m'.timerList (.link i) ≠ some l) = as := by
    refine List.filter_eq_self.mpr fun i hi => ?_
    simp only [ne_eq, hmem, decide_not, Bool.not_eq_true', decide_eq_false_iff_not]
    exact fun hb => (List.nodup_append.mp hnd).2.2 i hi i hb rfl
  have hbs : (bs.filter fun i => m'.timerList (.link i) ≠ some l) = [] := by
    refine List.filter_eq_nil_iff.mpr fun i hi => ?_
    simpa using (hmem i).mpr hi
  rw [has, hbs, List.append_nil]

theorem SweepInv.check (h : SweepInv w) {l : L} {time : UInt32} (hs : w.check l time = some w') :
    SweepInv w' := by
  have hnew : ∀ {b : Bool}, w' = { w with
      thread := if b then .locking l time else .look none, detached := [], visited := [] } →
      SweepInv w' := by
    rintro b rfl
    refine ⟨h.wired, List.nodup_nil, ?_⟩
    cases b with
    | true => exact ⟨rfl, rfl⟩
    | false => exact ⟨[], [], rfl, rfl, rfl, by simp⟩
  unfold World.check at hs
  split at hs
  · obtain ⟨b, -, hb⟩ := Option.map_eq_some_iff.mp hs
    exact hnew hb.symm
  · obtain ⟨b, -, hb⟩ := Option.map_eq_some_iff.mp hs
    exact hnew hb.symm
  · exact absurd hs (by simp)

theorem SweepInv.detach (h : SweepInv w) (hs : w.detach = some w') : SweepInv w' := by
  obtain ⟨c, hw⟩ := h.wired
  unfold World.detach at hs
  split at hs
  · rename_i l time hth
    obtain ⟨r, m', hrun, htrail, hw', -, -⟩ := detachExpired_cut hw l time
    rw [hrun] at hs
    obtain rfl := Option.some.inj hs
    have hdet := detached_eq hw List.takeWhile_append_dropWhile.symm hw'
    refine ⟨⟨_, hw'⟩, (hw.contents_eq ▸ hw.nodup l).filter _, [], _, hdet, rfl, htrail, ?_⟩
    intro i hi
    refine hw'.timerList_none fun k hk => ?_
    have hil : i ∈ c l := (List.takeWhile_prefix _).subset hi
    by_cases hkl : k = l
    · subst hkl
      rw [Function.update_self] at hk
      have hnd := hw.nodup k
      rw [← @List.takeWhile_append_dropWhile _ (fun i => w.mem.timeout (.link i) ≤ time) (c k)] at hnd
      exact (List.nodup_append.mp hnd).2.2 i hi i hk rfl
    · rw [Function.update_of_ne hkl, ← hw.field, (hw.field i l).mpr hil] at hk
      exact hkl (Option.some.inj hk).symm
  · exact absurd hs (by simp)

/-- One step, and the walk is still right. -/
theorem SweepInv.step (h : SweepInv w) {a : Act L} (hok : Spared w a)
    (hs : w.step a = some w') : SweepInv w' := by
  have hwalk := h.walk
  unfold Walking at hwalk
  cases a with
  | check l time => exact h.check hs
  | detach => exact h.detach hs
  | visit =>
      simp only [World.step] at hs
      split at hs
      · rename_i p hth
        obtain rfl := Option.some.inj hs
        rw [hth] at hwalk
        obtain ⟨past, rest, hd, hv, hrem⟩ := hwalk
        cases rest with
        | nil => exact absurd hrem.trail (by simp [Trail])
        | cons i rest =>
            obtain rfl : p = .link i := Option.some.inj hrem.trail.1
            refine ⟨h.wired, h.nodup, past, i, rest, hd, rfl, ?_, hrem⟩
            simp [hv]
      · exact absurd hs (by simp)
  | leave =>
      simp only [World.step] at hs
      split at hs
      · rename_i p hth
        obtain rfl := Option.some.inj hs
        rw [hth] at hwalk
        obtain ⟨past, i, rest, hd, rfl, hv, hrem⟩ := hwalk
        refine ⟨h.wired, h.nodup, past ++ [i], rest, ?_, hv, hrem.trail.2, ?_⟩
        · simp [hd]
        · exact fun j hj => hrem.free j (List.mem_cons_of_mem _ hj)
      · exact absurd hs (by simp)
  | call a =>
      simp only [World.step] at hs
      split at hs
      · rename_i tl hl
        split at hs
        · rename_i hi
          obtain ⟨m', hm, rfl⟩ := Option.map_eq_some_iff.mp hs
          exact h.call hl hi hm hok
        · exact absurd hs (by simp)
      · exact absurd hs (by simp)

theorem SweepInv.right (h : SweepInv w) : WalkRight w := by
  obtain ⟨c, hw⟩ := h.wired
  have hnd : (w.detached.map (Ptr.link : Nat → Ptr L)).Nodup :=
    h.nodup.map fun _ _ he => Ptr.link.inj he
  have hwalk := h.walk
  unfold Walking at hwalk
  have hpre : w.visited <+: w.detached.map .link := by
    cases hth : w.thread with
    | idle => rw [hth] at hwalk; simp [hwalk.2]
    | locking l time => rw [hth] at hwalk; simp [hwalk.2]
    | look tl =>
        rw [hth] at hwalk
        obtain ⟨past, rest, hd, hv, -⟩ := hwalk
        exact ⟨rest.map .link, by simp [hd, hv]⟩
    | leave p =>
        rw [hth] at hwalk
        obtain ⟨past, i, rest, hd, -, hv, -⟩ := hwalk
        exact ⟨rest.map .link, by simp [hd, hv]⟩
  refine ⟨hpre, hnd.sublist hpre.sublist, ?_, ?_⟩
  · intro p hth
    rw [hth] at hwalk
    obtain ⟨past, rest, hd, hv, hrem⟩ := hwalk
    cases rest with
    | nil => exact absurd hrem.trail (by simp [Trail])
    | cons i rest =>
        obtain rfl : p = .link i := Option.some.inj hrem.trail.1
        have hfree := hrem.free i (by simp)
        refine ⟨i, by simp [hd], rfl, ?_, hfree, fun l => hw.contents_eq ▸ hw.free hfree l⟩
        rw [hv]
        intro hp
        have hip : i ∈ past := by simpa using hp
        have hnd' := h.nodup
        rw [hd] at hnd'
        exact (List.nodup_append.mp hnd').2.2 i hip i (by simp) rfl
  · intro tl hth
    rw [hth] at hwalk
    obtain ⟨past, rest, hd, hv, hrem⟩ := hwalk
    rw [hv, hd, List.map_append]
    cases rest with
    | nil => exact iff_of_true hrem.trail (by simp)
    | cons i rest =>
        refine iff_of_false (fun he => ?_) (by simp)
        have hp := hrem.trail.1
        rw [he] at hp
        exact absurd hp (by simp)

end Sweep

/--
**A walk that is spared visits exactly the links that were detached.**

In every run in which no other thread arms a link the walk has yet to get past, each walk goes
through the detached links in their order, each once, and ends behind the last of them.
-/
theorem sweep_right [DecidableEq L] {n : Nat} {w : World L}
    (h : Reach (· = World.init n) World.step Spared w) : WalkRight w := by
  have hinv : SweepInv w := by
    refine Reach.invariant (I := SweepInv) ?_ ?_ h
    · rintro w rfl
      exact ⟨⟨_, (lists_fresh n).toWired⟩, List.nodup_nil, rfl, rfl⟩
    · intro w a w' hi hok hs
      exact hi.step hok hs
  exact hinv.right

/-- The two lists of `peer.c` that share the links of the peers. -/
inductive PeerTimer where
  | reconnTimer | waitCerTimer
deriving Repr, DecidableEq

/-- A peer is to be reconnected at 5, and at 5 the timer thread detaches its link. -/
def reconnExpires : List (Act PeerTimer) :=
  [.call (.add 0 .reconnTimer 5), .check .reconnTimer 5, .detach]

/-- Two peers are due; the first of them is armed again once the walk is past it. -/
theorem sweep_right_one :
    ∃ w : World PeerTimer, w.detached = [0, 1] ∧ w.visited = [.link 0, .link 1]
      ∧ w.mem.contents .waitCerTimer = [0] ∧ w.thread = .look none ∧ WalkRight w := by
  refine ⟨_, ?_, ?_, ?_, ?_, sweep_right (n := 3) (.step (a := .leave) (.step (a := .visit)
    (.step (a := .call (.add 0 .waitCerTimer 15)) (.step (a := .leave) (.step (a := .visit)
      (.step (a := .detach) (.step (a := .check .reconnTimer 7)
        (.step (a := .call (.add 2 .reconnTimer 9)) (.step (a := .call (.add 1 .reconnTimer 6))
          (.step (a := .call (.add 0 .reconnTimer 5)) (.init rfl) ?_ rfl) ?_ rfl) ?_ rfl)
        trivial rfl) trivial rfl) trivial rfl) trivial rfl) ?_ rfl) trivial rfl) trivial rfl)⟩
  · rfl
  · rfl
  · rfl
  · rfl
  · exact fun h => h
  · exact fun h => h
  · exact fun h => h
  · exact fun h => h.2 (List.mem_singleton_self _)

/-- Accepting a connection before the link is read makes the walk visit a sentinel. -/
theorem sweep_visits_sentinel :
    ∃ w : World PeerTimer,
      trace World.step (fun _ _ => true) (reconnExpires ++ [Act.call (.rmv 0 .reconnTimer),
        .call (.add 0 .waitCerTimer 15), .visit, .leave, .visit]) (World.init 1) = some w
      ∧ w.detached = [0] ∧ w.visited = [.link 0, .last .waitCerTimer] ∧ ¬ WalkRight w := by
  refine ⟨_, rfl, rfl, rfl, fun h => ?_⟩
  have hlen := h.visited.length_le
  exact absurd hlen (by decide)

end Disc.Timer
