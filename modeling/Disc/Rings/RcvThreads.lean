import Mathlib.Data.List.Range
import Disc.Rings.ListHead

/-!
# The receive threads

`get_new_receive_thread` of `tcp_shell.c` hands the next peer to the first thread of
`rcv_thread_list` and then moves that thread behind the others of its load, so that
the list stays ordered. The statement that puts the thread at the end of the list
stands inside the loop that looks for its place, not behind it: the thread is put
there once for every thread that is passed, and the second time its own links are
what the first time left in the list head. With one thread the loop is never entered.
-/

namespace Disc.Rings

open Disc.Lib

/-- `rcv_thread_list` or the `tl` of a thread. -/
inductive Node where
  | rcvThreadList
  | thread (i : Nat)
deriving Repr, DecidableEq

/-- The receive threads: their ring and their loads. -/
structure Threads where
  links : Links Node
  load : Nat → UInt32

/-- `get_payload`: the thread a list entry is part of. The list head is part of none. -/
def getPayload : Node → Res Nat
  | .rcvThreadList => .fault
  | .thread i => .ok i

/-- The loop that puts `ti` back into the list. -/
def putBack (ti : Nat) : Nat → Threads → Option Node → Res Threads
  | _, _, none => .fault
  | _, s, some .rcvThreadList => .ok s
  | 0, _, some (.thread _) => .diverge
  | fuel + 1, s, some (.thread j) =>
      if s.load j = s.load ti then do
        let links ← listAddTail s.links (.thread ti) (.thread j)
        .ok { s with links := links }
      else do
        let links ← listAddTail s.links (.thread ti) .rcvThreadList
        putBack ti fuel { s with links := links } (links.next (.thread j))

/-- `get_new_receive_thread`, with the number of threads there are. -/
def getNewReceiveThread (n : Nat) (s : Threads) : Res (Nat × Threads) := do
  let first ← Res.ofAccess (s.links.next .rcvThreadList)
  let ti ← getPayload first
  let s := { s with load := Function.update s.load ti (s.load ti + 1) }
  let next ← Res.ofAccess (s.links.next (.thread ti))
  match next with
  | .rcvThreadList => .ok (ti, s)
  | .thread j =>
      if s.load j < s.load ti then do
        let links ← listDelZero s.links first
        let s ← putBack ti (n + 1) { s with links := links } (links.next .rcvThreadList)
        .ok (ti, s)
      else .ok (ti, s)

/-- The ring `init_tcp_shell` builds: one thread after the other is put at the end. -/
def rcvThreadList : Nat → Res (Links Node)
  | 0 => .ok (initListHead ⟨fun _ => none, fun _ => none⟩ .rcvThreadList)
  | n + 1 => do
      let links ← rcvThreadList n
      listAddTail links (.thread n) .rcvThreadList

/-- The threads after `k` calls, starting with no load at all. -/
def afterCalls (n : Nat) : Nat → Res Threads
  | 0 => do
      let links ← rcvThreadList n
      .ok { links := links, load := fun _ => 0 }
  | k + 1 => do
      let s ← afterCalls n k
      let (_, s) ← getNewReceiveThread n s
      .ok s

/-- The ring holds each thread once, in the order of the loads, and the loads are even. -/
structure Balanced (n : Nat) (s : Threads) : Prop where
  ring : ∃ xs : List Nat, Ring s.links .rcvThreadList (xs.map .thread) ∧ xs.Perm (List.range n)
    ∧ xs.Pairwise fun i j => s.load i ≤ s.load j
  even : ∀ i < n, ∀ j < n, (s.load i).toNat ≤ (s.load j).toNat + 1

/-- Along `k` calls the threads stay balanced, and each call takes one with the least load. -/
def BalancesFor (n k : Nat) : Prop :=
  ∀ j ≤ k, ∃ s, afterCalls n j = .ok s ∧ Balanced n s
    ∧ (j < k → ∃ ti s', getNewReceiveThread n s = .ok (ti, s') ∧ ti < n
        ∧ ∀ i < n, s.load ti ≤ s.load i)

/-! ## The ring that is built -/

theorem rcvThreadList_ring (n : Nat) :
    ∃ links, rcvThreadList n = .ok links
      ∧ Ring links .rcvThreadList ((List.range n).map .thread) := by
  induction n with
  | zero => exact ⟨_, rfl, ring_init _ _⟩
  | succ n ih =>
      obtain ⟨links, hl, hring⟩ := ih
      obtain ⟨prev, -, -, hadd, hring'⟩ := hring.addTail (.thread n) (by simp) (by simp)
      refine ⟨listAddBetween links (.thread n) prev .rcvThreadList, ?_, ?_⟩
      · rw [rcvThreadList, hl, Res.ok_bind, hadd]
      · rw [List.range_succ, List.map_append]
        exact hring'

theorem balanced_start (n : Nat) : ∃ s, afterCalls n 0 = .ok s ∧ Balanced n s := by
  obtain ⟨links, hl, hring⟩ := rcvThreadList_ring n
  refine ⟨⟨links, fun _ => 0⟩, by rw [afterCalls, hl, Res.ok_bind], ?_, ?_⟩
  · refine ⟨List.range n, hring, List.Perm.refl _, ?_⟩
    exact List.pairwise_of_forall fun _ _ => Nat.le_refl _
  · intro i _ j _
    simp

/-! ## One thread -/

/-- A single thread is alone in the ring, and stays so. -/
theorem single_call {s : Threads} (h : Ring s.links .rcvThreadList [.thread 0]) :
    getNewReceiveThread 1 s
      = .ok (0, { s with load := Function.update s.load 0 (s.load 0 + 1) }) := by
  have hchain := h.chain
  rw [List.cons_append, List.isChain_cons_cons, List.nil_append, List.isChain_pair] at hchain
  simp [getNewReceiveThread, hchain.1.1, getPayload, hchain.2.1]

theorem single_afterCalls (k : Nat) :
    ∃ s, afterCalls 1 k = .ok s ∧ Ring s.links .rcvThreadList [.thread 0] := by
  induction k with
  | zero =>
      obtain ⟨links, hl, hring⟩ := rcvThreadList_ring 1
      exact ⟨⟨links, fun _ => 0⟩, by rw [afterCalls, hl, Res.ok_bind], hring⟩
  | succ k ih =>
      obtain ⟨s, hs, hring⟩ := ih
      refine ⟨{ s with load := Function.update s.load 0 (s.load 0 + 1) }, ?_, hring⟩
      rw [afterCalls, hs, Res.ok_bind, single_call hring, Res.ok_bind]

theorem single_balances (k : Nat) : BalancesFor 1 k := by
  intro j _
  obtain ⟨s, hs, hring⟩ := single_afterCalls j
  have hzero : ∀ i < 1, i = 0 := fun i hi => Nat.lt_one_iff.mp hi
  refine ⟨s, hs, ⟨⟨[0], hring, List.Perm.refl _, by simp⟩, ?_⟩, fun _ => ?_⟩
  · intro i hi j hj
    rw [hzero i hi, hzero j hj]
    exact Nat.le_succ _
  · refine ⟨0, _, single_call hring, Nat.one_pos, fun i hi => ?_⟩
    rw [hzero i hi]
    exact UInt32.le_refl _

/-! ## More than one thread -/

/-- `y` comes after `x`, which is not thread 0. -/
def Threads.Next (s : Threads) (x y : Node) : Prop := x ≠ .thread 0 ∧ s.links.next x = some y

/--
What is left of the loop once thread 0 stands at the end. Every further thread `js` that is passed
puts it there again, between itself and the list head, and the loop ends at thread 0, which is put
before itself.
-/
theorem putBack_again {s : Threads} {js : List Nat} {x : Node} {fuel : Nat}
    (hlast : s.links.prev .rcvThreadList = some (.thread 0))
    (hprev : ∃ p, s.links.prev (.thread 0) = some p)
    (hload : ∀ j ∈ js, s.load j ≠ s.load 0)
    (hpath : List.IsChain s.Next (x :: (js.map Node.thread ++ [Node.thread 0]))) (hf : js.length < fuel) :
    ∃ s', putBack 0 fuel s (s.links.next x) = .ok s'
      ∧ s'.links.next (.thread 0) = some (.thread 0) := by
  induction js generalizing s x fuel with
  | nil =>
      rw [List.map_nil, List.nil_append, List.isChain_pair] at hpath
      obtain ⟨fuel, rfl⟩ := Nat.exists_eq_succ_of_ne_zero (Nat.ne_of_gt (Nat.zero_lt_of_lt hf))
      obtain ⟨p, hp⟩ := hprev
      rw [hpath.2, putBack, if_pos rfl, listAddTail, hp]
      refine ⟨_, rfl, ?_⟩
      by_cases hp0 : Node.thread 0 = p
      · simp [listAddBetween_next, hp0]
      · simp [listAddBetween_next, hp0]
  | cons j js ih =>
      rw [List.map_cons, List.cons_append, List.isChain_cons_cons] at hpath
      obtain ⟨fuel, rfl⟩ := Nat.exists_eq_succ_of_ne_zero (Nat.ne_of_gt (Nat.zero_lt_of_lt hf))
      have hj : s.load j ≠ s.load 0 := hload j (by simp)
      rw [hpath.1.2, putBack, if_neg hj, listAddTail, hlast, Res.ofAccess_some, Res.ok_bind,
        Res.ok_bind]
      -- only the links of thread 0 and of the list head are written
      refine ih ?_ ⟨.thread 0, ?_⟩ ?_ ?_ (by simpa using hf)
      · simp [listAddBetween_prev]
      · simp [listAddBetween_prev]
      · exact fun i hi => hload i (by simp [hi])
      · refine hpath.2.imp fun y z hyz => ⟨hyz.1, ?_⟩
        rw [listAddBetween_next, if_neg hyz.1, if_neg hyz.1]
        exact hyz.2

theorem isChain_src {R : Node → Node → Prop} {P : Node → Prop} {l : List Node} {z : Node}
    (h : (l ++ [z]).IsChain R) (hp : ∀ x ∈ l, P x) :
    (l ++ [z]).IsChain fun x y => P x ∧ R x y := by
  induction l with
  | nil => exact .singleton z
  | cons x l ih =>
      have hx : P x := hp x (by simp)
      have hl := ih h.tail fun y hy => hp y (by simp [hy])
      obtain ⟨hhead, -⟩ := List.isChain_cons.mp h
      have hsrc : ∀ y ∈ (l ++ [z]).head?, P x ∧ R x y := fun y hy => ⟨hx, hhead y hy⟩
      exact List.isChain_cons.mpr ⟨hsrc, hl⟩

/-- The whole loop, over the threads `j :: js` that have less load than thread 0. -/
theorem putBack_loops {s : Threads} {j : Nat} {js : List Nat} {fuel : Nat}
    (hring : Ring s.links .rcvThreadList ((j :: js).map .thread)) (h0 : 0 ∉ j :: js)
    (hload : ∀ i ∈ j :: js, s.load i ≠ s.load 0) (hf : js.length + 1 < fuel) :
    ∃ s', putBack 0 fuel s (s.links.next .rcvThreadList) = .ok s'
      ∧ s'.links.next (.thread 0) = some (.thread 0) := by
  obtain ⟨fuel, rfl⟩ := Nat.exists_eq_succ_of_ne_zero (Nat.ne_of_gt (Nat.zero_lt_of_lt hf))
  have hfirst := hring.chain
  rw [List.map_cons, List.cons_append, List.isChain_cons_cons] at hfirst
  have hnew : Node.thread 0 ∉ (j :: js).map .thread := by
    intro hm
    obtain ⟨i, hi, he⟩ := List.mem_map.mp hm
    exact h0 (Node.thread.inj he ▸ hi)
  obtain ⟨r, hr, hrm, hadd, hring'⟩ := hring.addTail (.thread 0) (by simp) hnew
  rw [hfirst.1.1, putBack, if_neg (hload j (by simp)), hadd, Res.ok_bind]
  -- from here on thread 0 is the last of the ring
  have hchain := hring'.chain
  rw [List.map_cons, List.cons_append, List.cons_append, List.isChain_cons_cons,
    List.append_assoc] at hchain
  have hloads : ∀ i ∈ js, s.load i ≠ s.load 0 := fun i hi => hload i (by simp [hi])
  refine putBack_again ?_ ⟨r, ?_⟩ hloads ?_ (by simpa using hf)
  · rw [listAddBetween_prev, if_neg (by simp), if_pos rfl]
  · rw [listAddBetween_prev, if_pos rfl]
  · have hsplit : Node.thread j :: (js.map Node.thread ++ ([Node.thread 0] ++ [Node.rcvThreadList]))
        = (Node.thread j :: (js.map Node.thread ++ [Node.thread 0])) ++ [Node.rcvThreadList] := by simp
    have hleft := hchain.2
    rw [hsplit] at hleft
    have hsrc : ∀ x ∈ (j :: js).map Node.thread, x ≠ .thread 0 := by
      rintro x hx rfl
      exact hnew hx
    have hlinks := isChain_src (l := (j :: js).map .thread) hleft.left_of_append hsrc
    exact hlinks.imp fun x y hxy => ⟨hxy.1, hxy.2.1⟩

/-- **With two threads or more, the first call already leaves thread 0 linked to itself.** -/
theorem first_call_loops (n : Nat) :
    ∃ s', afterCalls (n + 2) 1 = .ok s' ∧ s'.links.next (.thread 0) = some (.thread 0) := by
  obtain ⟨links, hl, hring⟩ := rcvThreadList_ring (n + 2)
  have hrange : List.range (n + 2) = 0 :: 1 :: (List.range n).map (· + 2) := by
    rw [List.range_succ_eq_map, List.range_succ_eq_map]
    simp [Function.comp_def]
  rw [hrange, List.map_cons] at hring
  have hchain := hring.chain
  rw [List.map_cons, List.cons_append, List.cons_append, List.isChain_cons_cons,
    List.isChain_cons_cons] at hchain
  have hring₀ : Ring links .rcvThreadList
      ([] ++ Node.thread 0 :: (1 :: (List.range n).map (· + 2)).map Node.thread) := hring
  obtain ⟨p, q, -, -, -, -, hdel, hring₁⟩ := hring₀.delZero
  let load : Nat → UInt32 := Function.update (fun _ => 0) 0 (0 + 1)
  have hload : ∀ i ∈ 1 :: (List.range n).map (· + 2), load i ≠ load 0 := by
    intro i hi
    have hi0 : i ≠ 0 := by
      rintro rfl
      simp at hi
    simp [load, Function.update_of_ne hi0]
  have hback : ∃ s', putBack 0 (n + 2 + 1)
        ⟨zeroListHead (listDelBetween links p q) (.thread 0), load⟩
        ((zeroListHead (listDelBetween links p q) (.thread 0)).next .rcvThreadList) = .ok s'
      ∧ s'.links.next (.thread 0) = some (.thread 0) :=
    putBack_loops hring₁ (by simp) hload (by simp)
  obtain ⟨s', hback, hself⟩ := hback
  refine ⟨s', ?_, hself⟩
  rw [afterCalls, afterCalls, hl, Res.ok_bind, Res.ok_bind, getNewReceiveThread, hchain.1.1]
  simp only [Res.ofAccess_some, Res.ok_bind, getPayload, hchain.2.1.1]
  rw [if_pos (by simp), hdel, Res.ok_bind, hback]
  rfl

/-- A thread linked to itself is in no ring. -/
theorem not_balanced_of_loop {n : Nat} (hn : 0 < n) {s : Threads}
    (hself : s.links.next (.thread 0) = some (.thread 0)) : ¬ Balanced n s := by
  intro hb
  obtain ⟨xs, hring, hperm, -⟩ := hb.ring
  have h0 : 0 ∈ xs := hperm.mem_iff.mpr (List.mem_range.mpr hn)
  obtain ⟨as, bs, rfl⟩ := List.append_of_mem h0
  rw [List.map_append, List.map_cons] at hring
  obtain ⟨us, x, hx⟩ := exists_concat Node.rcvThreadList (as.map .thread)
  obtain ⟨y, vs, hy⟩ := exists_cons (bs.map Node.thread) Node.rcvThreadList
  obtain ⟨-, hlink⟩ := hring.neighbours hx hy
  obtain rfl : Node.thread 0 = y := Option.some.inj (hself.symm.trans hlink.1)
  -- the thread behind it is then the thread itself
  have hin : Node.thread 0 ∈ bs.map .thread := by
    have hmem : Node.thread 0 ∈ bs.map Node.thread ++ [Node.rcvThreadList] := by rw [hy]; simp
    simpa using hmem
  have hnd := (List.nodup_cons.mp hring.src).2
  exact (List.nodup_cons.mp (List.nodup_append.mp hnd).2.1).1 hin

/-- Without a thread, the list head is taken for one. -/
theorem no_thread_call {s : Threads} (h : afterCalls 0 0 = .ok s) :
    getNewReceiveThread 0 s = .fault := by
  obtain rfl : _ = s := Res.ok.inj h
  rfl

/--
**The receive threads stay balanced exactly when there is one of them, or no peer to hand out.**
-/
theorem balancesFor_iff (n k : Nat) : BalancesFor n k ↔ k = 0 ∨ n = 1 := by
  constructor
  · intro h
    by_contra hno
    obtain ⟨hk, hn⟩ := not_or.mp hno
    have hk1 : 1 ≤ k := Nat.one_le_iff_ne_zero.mpr hk
    cases n with
    | zero =>
        obtain ⟨s, hs, -, hcall⟩ := h 0 (Nat.zero_le k)
        obtain ⟨ti, s', hrun, -⟩ := hcall hk1
        rw [no_thread_call hs] at hrun
        exact absurd hrun (by simp)
    | succ n =>
        cases n with
        | zero => exact hn rfl
        | succ n =>
            obtain ⟨s, hs, hbal, -⟩ := h 1 hk1
            obtain ⟨s', hs', hself⟩ := first_call_loops n
            rw [hs] at hs'
            obtain rfl := Res.ok.inj hs'
            exact not_balanced_of_loop (Nat.succ_pos _) hself hbal
  · rintro (rfl | rfl)
    · intro j hj
      obtain rfl : j = 0 := Nat.le_zero.mp hj
      obtain ⟨s, hs, hbal⟩ := balanced_start n
      exact ⟨s, hs, hbal, fun hlt => absurd hlt (Nat.lt_irrefl 0)⟩
    · exact single_balances k

/-- Two threads, one peer: thread 0 comes out linked to itself. -/
theorem two_threads_break :
    (∃ s, afterCalls 2 1 = .ok s ∧ s.links.next (.thread 0) = some (.thread 0))
      ∧ ¬ BalancesFor 2 1 := by
  have hloop := first_call_loops 0
  refine ⟨hloop, fun h => ?_⟩
  obtain ⟨s, hs, hself⟩ := hloop
  obtain ⟨s', hs', hbal, -⟩ := h 1 (Nat.le_refl 1)
  rw [hs] at hs'
  obtain rfl := Res.ok.inj hs'
  exact not_balanced_of_loop Nat.two_pos hself hbal

end Disc.Rings
