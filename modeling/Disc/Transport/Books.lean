import Disc.Transport.Lifecycle
import Mathlib.Data.List.Count
import Mathlib.Tactic.SplitIfs

/-!
# The books of a transaction

`Sound` says for one transaction that its count is the sum of what the sender, the
table, the replies and the timer own, that zero was reached at most once, and that
whoever got there is the one who frees it. A step changes one transaction, or what
the timer has; `Inv.put` and `Inv.move` are the two rules all steps go through.
-/

namespace Disc.Transport.Lifecycle

open Disc.Lib

/-! ## Who owns what -/

/-- References the sender owns. -/
def Stage.owned : Stage → Nat
  | .created => 1
  | .counted => 1
  | _ => 0

/-- Is the sender about to free the transaction? -/
def Stage.freeing : Stage → Nat
  | .dropping => 1
  | _ => 0

/-- References a reply owns; it has two when it has taken out the timer link as well. -/
def Hold.owned : Hold → Nat
  | .dec => 2
  | .free => 0
  | _ => 1

def Hold.freeing : Hold → Nat
  | .free => 1
  | _ => 0

/-- References to `i` the timer thread owns. -/
def Timer.owned (i : Nat) : Timer → Nat
  | .walk tl => tl.count i
  | .remove j tl => (if j = i then 1 else 0) + tl.count i
  | .dec j tl => (if j = i then 2 else 0) + tl.count i
  | .call j tl => (if j = i then 1 else 0) + tl.count i
  | .test j tl => (if j = i then 1 else 0) + tl.count i
  | .free _ tl => tl.count i
  | _ => 0

/-- How often the timer thread will still try to take `i` out of the table. -/
def Timer.armed (i : Nat) : Timer → Nat
  | .walk tl => tl.count i
  | .remove j tl => (if j = i then 1 else 0) + tl.count i
  | .dec _ tl => tl.count i
  | .call _ tl => tl.count i
  | .test _ tl => tl.count i
  | .free _ tl => tl.count i
  | _ => 0

def Timer.freeing (i : Nat) : Timer → Nat
  | .free j _ => if j = i then 1 else 0
  | _ => 0

/-- What the timer list and the timer thread have of one transaction. -/
structure View where
  owned : Nat
  armed : Nat
  freeing : Nat

def Sys.view (s : Sys) (i : Nat) : View :=
  { owned := s.timerList.count i + s.timer.owned i
    armed := s.timerList.count i + s.timer.armed i
    freeing := s.timer.freeing i }

/-- Nobody but the sender knows the transaction. -/
def Private (v : View) (t : Tr) : Prop :=
  t.holds = [] ∧ v.owned = 0 ∧ v.freeing = 0 ∧ t.claims = []

/--
Where a transaction is. Once it is in the timer list it is in the table and the timer
will come for it, or it has been claimed.
-/
def Placed (v : View) (t : Tr) : Prop :=
  match t.stage with
  | .created => t.inTable = false ∧ Private v t
  | .linked => t.inTable = true ∧ Private v t
  | .counted => t.inTable = true ∧ Private v t
  | .timed => (t.inTable = true ∧ t.holds = [] ∧ 1 ≤ v.armed ∧ t.claims = [])
      ∨ (t.inTable = false ∧ t.claims.length = 1)
  | .sent => (t.inTable = true ∧ t.holds = [] ∧ 1 ≤ v.armed ∧ t.claims = [])
      ∨ (t.inTable = false ∧ t.claims.length = 1)
  | .dropping => t.inTable = false ∧ Private v t
  | .dropped => t.inTable = false ∧ Private v t

/-- The books of one transaction. -/
structure Sound (v : View) (t : Tr) : Prop where
  refs : t.refCnt
    = ((t.stage.owned + t.inTable.toNat + (t.holds.map Hold.owned).sum + v.owned : Nat) : Int)
  zeros : t.zeros = if t.refCnt = 0 then 1 else 0
  frees : (t.holds.map Hold.freeing).sum + v.freeing + t.stage.freeing + t.freed.toNat = t.zeros
  placed : Placed v t

/-- What holds in every state. -/
structure Inv (s : Sys) : Prop where
  fresh : ∀ i, s.next ≤ i → s.trs i = none
  sound : ∀ i t, s.trs i = some t → Sound (s.view i) t
  unknown : ∀ i, s.trs i = none → s.view i = ⟨0, 0, 0⟩
  peek : ∀ i time, s.timer = .peeked i time →
    ∃ t, s.trs i = some t ∧ t.freed = false ∧ (t.stage = .timed ∨ t.stage = .sent)
  fault : s.fault = false

/-! ## Sums over the replies -/

theorem sum_map_set {α : Type} (f : α → Nat) {l : List α} {k : Nat} {a : α} (h : l[k]? = some a)
    (b : α) : ((l.set k b).map f).sum + f a = (l.map f).sum + f b := by
  induction l generalizing k with
  | nil => simp at h
  | cons x l ih =>
      cases k with
      | zero =>
          obtain rfl : x = a := by simpa using h
          simp only [List.set_cons_zero, List.map_cons, List.sum_cons]
          omega
      | succ k =>
          have := ih (by simpa using h)
          simp only [List.set_cons_succ, List.map_cons, List.sum_cons]
          omega

theorem sum_map_eraseIdx {α : Type} (f : α → Nat) {l : List α} {k : Nat} {a : α}
    (h : l[k]? = some a) : ((l.eraseIdx k).map f).sum + f a = (l.map f).sum := by
  induction l generalizing k with
  | nil => simp at h
  | cons x l ih =>
      cases k with
      | zero =>
          obtain rfl : x = a := by simpa using h
          simp only [List.eraseIdx_cons_zero, List.map_cons, List.sum_cons]
          omega
      | succ k =>
          have := ih (by simpa using h)
          simp only [List.eraseIdx_cons_succ, List.map_cons, List.sum_cons]
          omega

/-- Whoever stands somewhere is counted. -/
theorem le_sum_map {α : Type} (f : α → Nat) {l : List α} {k : Nat} {a : α} (h : l[k]? = some a) :
    f a ≤ (l.map f).sum := by
  have := sum_map_eraseIdx f h
  omega

/-! ## Nobody touches freed memory -/

/-- A transaction with references has not been freed. -/
theorem Sound.not_freed {v : View} {t : Tr} (h : Sound v t) (hr : t.refCnt ≠ 0) :
    t.freed = false := by
  have hz := h.zeros
  have hf := h.frees
  rw [if_neg hr] at hz
  cases hfr : t.freed with
  | false => rfl
  | true =>
      rw [hfr, Bool.toNat_true] at hf
      omega

/-- Whoever is about to free it is the only one, and it has not happened. -/
theorem Sound.freeing_once {v : View} {t : Tr} (h : Sound v t)
    (hf : 1 ≤ (t.holds.map Hold.freeing).sum + v.freeing + t.stage.freeing) :
    t.freed = false ∧ t.refCnt = 0 := by
  have hz := h.zeros
  have hs := h.frees
  by_cases h0 : t.refCnt = 0
  · rw [if_pos h0] at hz
    refine ⟨?_, h0⟩
    cases hfr : t.freed with
    | false => rfl
    | true =>
        rw [hfr, Bool.toNat_true] at hs
        omega
  · rw [if_neg h0] at hz
    omega

theorem Sys.isFreed_of_some {s : Sys} {i : Nat} {t : Tr} (h : s.trs i = some t) :
    s.isFreed i = t.freed := by
  simp [Sys.isFreed, h]

/-- What the timer side owns has not been freed. -/
theorem Inv.owned_alive {s : Sys} (h : Inv s) {i : Nat} (ho : 1 ≤ (s.view i).owned) :
    s.isFreed i = false := by
  cases ht : s.trs i with
  | none => simp [Sys.isFreed, ht]
  | some t =>
      rw [Sys.isFreed_of_some ht]
      have hs := h.sound i t ht
      refine hs.not_freed ?_
      have := hs.refs
      omega

theorem Inv.timerList_alive {s : Sys} (h : Inv s) {i : Nat} (hi : i ∈ s.timerList) :
    s.isFreed i = false := by
  refine h.owned_alive ?_
  have := List.count_pos_iff.mpr hi
  simp only [Sys.view]
  omega

theorem Inv.linked_alive {s : Sys} (h : Inv s) {i : Nat} (hi : i ∈ s.linked) :
    s.isFreed i = false := by
  obtain ⟨-, hi⟩ := List.mem_filter.mp hi
  cases ht : s.trs i with
  | none => simp [Sys.isFreed, ht]
  | some t =>
      have hin : t.inTable = true := by simpa [ht] using hi
      have hs := h.sound i t ht
      rw [Sys.isFreed_of_some ht]
      refine hs.not_freed ?_
      have := hs.refs
      rw [hin, Bool.toNat_true] at this
      omega

/-- Touching what is alive is no fault. -/
theorem touch_fault {s : Sys} {is : List Nat} (hf : s.fault = false)
    (h : ∀ i ∈ is, s.isFreed i = false) : (s.touch is).fault = false := by
  simp only [Sys.touch, hf, Bool.false_or, List.any_eq_false]
  intro i hi
  simp [h i hi]

/-! ## Steps -/

/--
One transaction changes, and with it what the timer side has of it. The books of the
others are not touched.
-/
theorem Inv.put {s : Sys} {i : Nat} {t t' : Tr} {is l : List Nat} {m : Timer} (h : Inv s)
    (ht : s.trs i = some t) (his : ∀ j ∈ is, s.isFreed j = false)
    (hview : ∀ j, j ≠ i → ({ s with timerList := l, timer := m } : Sys).view j = s.view j)
    (hsound : Sound (({ s with timerList := l, timer := m } : Sys).view i) t')
    (hpeek : ∀ j time, m = .peeked j time → s.timer = .peeked j time)
    (hfree : s.timer = m → ∀ time, m = .peeked i time →
      t'.freed = false ∧ (t'.stage = .timed ∨ t'.stage = .sent)) :
    Inv { (s.touch is).put i t' with timerList := l, timer := m } := by
  -- the new record answers for `i`, the old books for everyone else
  refine ⟨?_, ?_, ?_, ?_, touch_fault h.fault his⟩
  · intro j hj
    have hji : j ≠ i := by
      rintro rfl
      rw [h.fresh j hj] at ht
      exact absurd ht (by simp)
    show (if j = i then some t' else s.trs j) = none
    rw [if_neg hji]
    exact h.fresh j hj
  · intro j u hu
    have hu : (if j = i then some t' else s.trs j) = some u := hu
    by_cases hji : j = i
    · subst hji
      rw [if_pos rfl] at hu
      obtain rfl := Option.some.inj hu
      exact hsound
    · rw [if_neg hji] at hu
      have := h.sound j u hu
      rw [← hview j hji] at this
      exact this
  · intro j hj
    have hj : (if j = i then some t' else s.trs j) = none := hj
    by_cases hji : j = i
    · rw [if_pos hji] at hj
      exact absurd hj (by simp)
    · rw [if_neg hji] at hj
      have := h.unknown j hj
      rw [← hview j hji] at this
      exact this
  · intro j time htm
    have htm : m = .peeked j time := htm
    have hold := hpeek j time htm
    show ∃ u, (if j = i then some t' else s.trs j) = some u ∧ _
    by_cases hji : j = i
    · subst hji
      rw [if_pos rfl]
      exact ⟨t', rfl, hfree (hold.trans htm.symm) time htm⟩
    · rw [if_neg hji]
      exact h.peek j time hold

/-- One transaction changes, and the timer side stays as it is. -/
theorem Inv.putOnly {s : Sys} {i : Nat} {t t' : Tr} {is : List Nat} (h : Inv s)
    (ht : s.trs i = some t) (his : ∀ j ∈ is, s.isFreed j = false) (hsound : Sound (s.view i) t')
    (hfree : ∀ time, s.timer = .peeked i time → t'.freed = false ∧ (t'.stage = .timed ∨ t'.stage = .sent)) :
    Inv ((s.touch is).put i t') :=
  h.put (l := s.timerList) ht his (fun _ _ => rfl) hsound (fun _ _ hp => hp) (fun _ => hfree)

/-- Touching what is alive changes nothing. -/
theorem Inv.touch {s : Sys} {is : List Nat} (h : Inv s) (his : ∀ j ∈ is, s.isFreed j = false) :
    Inv (s.touch is) :=
  ⟨h.fresh, h.sound, h.unknown, h.peek, touch_fault h.fault his⟩

/-- The timer thread moves on, and the books are still right. -/
theorem Inv.advance {s : Sys} {l : List Nat} {m : Timer} (h : Inv s)
    (hsound : ∀ j t, s.trs j = some t →
      Sound (({ s with timerList := l, timer := m } : Sys).view j) t)
    (hnone : ∀ j, s.trs j = none →
      ({ s with timerList := l, timer := m } : Sys).view j = ⟨0, 0, 0⟩)
    (hpeek : ∀ j time, m = .peeked j time →
      ∃ t, s.trs j = some t ∧ t.freed = false ∧ (t.stage = .timed ∨ t.stage = .sent)) :
    Inv { s with timerList := l, timer := m } :=
  ⟨h.fresh, hsound, hnone, hpeek, h.fault⟩

/-- It has of every transaction what it had. -/
theorem Inv.move {s : Sys} {l : List Nat} {m : Timer} (h : Inv s)
    (hview : ∀ j, ({ s with timerList := l, timer := m } : Sys).view j = s.view j)
    (hpeek : ∀ j time, m = .peeked j time →
      ∃ t, s.trs j = some t ∧ t.freed = false ∧ (t.stage = .timed ∨ t.stage = .sent)) :
    Inv { s with timerList := l, timer := m } := by
  refine h.advance ?_ ?_ hpeek
  · intro j t ht
    rw [hview]
    exact h.sound j t ht
  · intro j hj
    rw [hview]
    exact h.unknown j hj

/-- The books of a transaction whose count goes down, in the hands of one that owns a reference. -/
theorem decTest_zeros {t : Tr} (hz : t.zeros = if t.refCnt = 0 then 1 else 0) (hr : 1 ≤ t.refCnt) :
    t.decTest.zeros = if t.decTest.refCnt = 0 then 1 else 0 := by
  have hz0 : t.zeros = 0 := by rw [hz, if_neg (by omega)]
  simp only [Tr.decTest, hz0]

/-- What the quick check looks at is alive, and its sender is done with the timer list. -/
theorem Inv.peeked {s : Sys} {i time : Nat} {t : Tr} (h : Inv s) (htm : s.timer = .peeked i time)
    (ht : s.trs i = some t) : t.freed = false ∧ (t.stage = .timed ∨ t.stage = .sent) := by
  obtain ⟨u, hu, hf, hs⟩ := h.peek i time htm
  obtain rfl := Option.some.inj (ht.symm.trans hu)
  exact ⟨hf, hs⟩

/-- The quick check looks only at such transactions. -/
theorem Inv.not_peeked {s : Sys} {i : Nat} {t : Tr} (h : Inv s) (ht : s.trs i = some t)
    (hst : t.stage ≠ .timed ∧ t.stage ≠ .sent) (time : Nat) : s.timer ≠ .peeked i time := by
  intro htm
  rcases (h.peeked htm ht).2 with hs | hs
  · exact hst.1 hs
  · exact hst.2 hs

/-- Somebody who owns a reference may touch the transaction. -/
theorem Inv.ref_alive {s : Sys} {i : Nat} {t : Tr} (h : Inv s) (ht : s.trs i = some t)
    (hr : t.refCnt ≠ 0) : s.isFreed i = false := by
  rw [Sys.isFreed_of_some ht]
  exact (h.sound i t ht).not_freed hr

/-- A step that touches one transaction only. -/
theorem Sys.alive_only {s : Sys} {i : Nat} (h : s.isFreed i = false) : ∀ j ∈ [i], s.isFreed j = false := by
  intro j hj
  obtain rfl := List.mem_singleton.mp hj
  exact h

theorem Inv.send {s s' : Sys} {i : Nat} {t : Tr} (h : Inv s) (ht : s.trs i = some t)
    (hst : s.send i t = some s') : Inv s' := by
  obtain ⟨hrefs, hzeros, hfrees, hplaced⟩ := h.sound i t ht
  unfold Sys.send at hst
  unfold Placed at hplaced
  cases hstage : t.stage with
  -- linking hands the creator's reference to the table
  | created =>
      rw [hstage] at hst hrefs hfrees hplaced
      obtain rfl := Option.some.inj hst
      obtain ⟨hin, hh, ho, hf, hc⟩ := hplaced
      rw [hin, hh, ho] at hrefs
      have hr : t.refCnt = 1 := hrefs
      refine h.putOnly ht ?_ ⟨?_, hzeros, hfrees, rfl, hh, ho, hf, hc⟩ ?_
      · intro j hj
        rcases List.mem_cons.mp hj with rfl | hj
        · exact h.ref_alive ht (by omega)
        · exact h.linked_alive hj
      · rw [ho]
        simp only [hh, hr]
        rfl
      · intro time htm
        exact absurd htm (h.not_peeked ht (by simp [hstage]) time)
  -- the reference of the timer is counted before the timer has it
  | linked =>
      rw [hstage] at hst hrefs hfrees hplaced
      obtain rfl := Option.some.inj hst
      obtain ⟨hin, hh, ho, hf, hc⟩ := hplaced
      rw [hin, hh, ho] at hrefs
      have hr : t.refCnt = 1 := hrefs
      refine h.putOnly ht ?_ ⟨?_, ?_, hfrees, hin, hh, ho, hf, hc⟩ ?_
      · exact Sys.alive_only (h.ref_alive ht (by omega))
      · rw [ho]
        simp only [hh, hr, hin]
        rfl
      · rw [hzeros, hr]
        rfl
      · intro time htm
        exact absurd htm (h.not_peeked ht (by simp [hstage]) time)
  -- now it has: the counted reference is found in the timer list
  | counted =>
      rw [hstage] at hst hrefs hfrees hplaced
      obtain rfl := Option.some.inj hst
      obtain ⟨hin, hh, ho, hf, hc⟩ := hplaced
      rw [hin, hh, ho] at hrefs
      have hr : t.refCnt = 2 := hrefs
      have hcount : ∀ j, (s.timerList ++ [i]).count j
          = s.timerList.count j + if i = j then 1 else 0 := by
        intro j
        rw [List.count_append, List.count_singleton]
        simp only [beq_iff_eq]
      refine h.put (m := s.timer) ht ?_ ?_ ?_ (fun _ _ hp => hp) ?_
      · intro j hj
        rcases List.mem_cons.mp hj with rfl | hj
        · exact h.ref_alive ht (by omega)
        · exact h.timerList_alive hj
      · intro j hj
        simp only [Sys.view, hcount, if_neg (Ne.symm hj), Nat.add_zero]
      · have hov : (s.timerList ++ [i]).count i + s.timer.owned i = 1 := by
          have ho : s.timerList.count i + s.timer.owned i = 0 := ho
          rw [hcount, if_pos rfl]
          omega
        refine ⟨?_, hzeros, hfrees, Or.inl ⟨hin, hh, ?_, hc⟩⟩
        · simp only [Sys.view, hov, hh, hin, hr]
          rfl
        · simp only [Sys.view, hcount, if_true]
          omega
      · intro _ time htm
        exact absurd htm (h.not_peeked ht (by simp [hstage]) time)
  | timed =>
      rw [hstage] at hst hrefs hfrees hplaced
      obtain rfl := Option.some.inj hst
      refine h.putOnly ht (by simp) ⟨hrefs, hzeros, hfrees, hplaced⟩ ?_
      intro time htm
      exact ⟨(h.peeked htm ht).1, Or.inr rfl⟩
  -- a sender that gave up: its reference was the last
  | dropping =>
      rw [hstage] at hst hrefs hfrees hplaced
      obtain rfl := Option.some.inj hst
      obtain ⟨hin, hh, ho, hf, hc⟩ := hplaced
      obtain ⟨halive, hr0⟩ := (h.sound i t ht).freeing_once (by rw [hstage]; simp [Stage.freeing])
      refine h.putOnly ht ?_ ⟨hrefs, hzeros, ?_, hin, hh, ho, hf, hc⟩ ?_
      · exact Sys.alive_only ((Sys.isFreed_of_some ht).trans halive)
      · rw [halive] at hfrees
        exact hfrees
      · intro time htm
        exact absurd htm (h.not_peeked ht (by simp [hstage]) time)
  | sent => rw [hstage] at hst; exact absurd hst (by simp)
  | dropped => rw [hstage] at hst; exact absurd hst (by simp)

theorem Inv.giveUp {s s' : Sys} {i : Nat} {t : Tr} (h : Inv s) (ht : s.trs i = some t)
    (hst : s.giveUp i t = some s') : Inv s' := by
  obtain ⟨hrefs, hzeros, hfrees, hplaced⟩ := h.sound i t ht
  unfold Sys.giveUp at hst
  unfold Placed at hplaced
  cases hstage : t.stage with
  | created =>
      rw [hstage] at hst hrefs hfrees hplaced
      obtain rfl := Option.some.inj hst
      obtain ⟨hin, hh, ho, hf, hc⟩ := hplaced
      rw [hin, hh, ho] at hrefs
      have hr : t.refCnt = 1 := hrefs
      -- nobody else knows the transaction, so this is the step to zero
      have hr' : t.decTest.refCnt = 0 := by simp [Tr.decTest, hr]
      have hz : t.zeros = 0 := by rw [hzeros, hr]; rfl
      have hz' : t.decTest.zeros = 1 := by simp [Tr.decTest, hr, hz]
      simp only [if_pos hr']
      refine h.putOnly ht ?_ ⟨?_, ?_, ?_, hin, hh, ho, hf, hc⟩ ?_
      · exact Sys.alive_only (h.ref_alive ht (by omega))
      · show t.decTest.refCnt = _
        rw [hr', ho]
        simp [Stage.owned, Tr.decTest, hin, hh]
      · show t.decTest.zeros = if t.decTest.refCnt = 0 then 1 else 0
        rw [hr', hz']
        rfl
      · show (t.holds.map Hold.freeing).sum + (s.view i).freeing + 1 + t.freed.toNat
          = t.decTest.zeros
        rw [hz']
        have hf0 : Stage.created.freeing = 0 := rfl
        omega
      · intro time htm
        exact absurd htm (h.not_peeked ht (by simp [hstage]) time)
  | linked | counted | timed | sent | dropping | dropped =>
      rw [hstage] at hst
      exact absurd hst (by simp)

/-- A transaction in the timer side's hands or in the timer list: the two ways it can be placed. -/
theorem placed_sent {v : View} {t : Tr} (h : Placed v t) (hs : t.stage = .timed ∨ t.stage = .sent) :
    (t.inTable = true ∧ t.holds = [] ∧ 1 ≤ v.armed ∧ t.claims = [])
      ∨ (t.inTable = false ∧ t.claims.length = 1) := by
  unfold Placed at h
  rcases hs with hs | hs
  · rw [hs] at h
    exact h
  · rw [hs] at h
    exact h

theorem placed_of_sent {v : View} {t : Tr} (hs : t.stage = .timed ∨ t.stage = .sent)
    (h : (t.inTable = true ∧ t.holds = [] ∧ 1 ≤ v.armed ∧ t.claims = [])
      ∨ (t.inTable = false ∧ t.claims.length = 1)) : Placed v t := by
  unfold Placed
  rcases hs with hs | hs
  · rw [hs]
    exact h
  · rw [hs]
    exact h

theorem placed_of_claimed {v : View} {t : Tr} (hs : t.stage = .timed ∨ t.stage = .sent)
    (hin : t.inTable = false) (hc : t.claims.length = 1) : Placed v t :=
  placed_of_sent hs (Or.inr ⟨hin, hc⟩)

/-- Somebody other than the sender has it, so its sender is done with the timer list. -/
theorem Sound.shared {v : View} {t : Tr} (h : Sound v t)
    (hsh : t.holds ≠ [] ∨ 1 ≤ v.owned ∨ 1 ≤ v.freeing) : t.stage = .timed ∨ t.stage = .sent := by
  have hp := h.placed
  unfold Placed at hp
  have hno : ¬ Private v t := by
    rintro ⟨hh, ho, hf, -⟩
    rcases hsh with h₁ | h₂ | h₃
    · exact h₁ hh
    · omega
    · omega
  cases hstage : t.stage with
  | timed => exact Or.inl rfl
  | sent => exact Or.inr rfl
  | created | linked | counted | dropping | dropped =>
      rw [hstage] at hp
      exact absurd hp.2 hno

theorem Stage.owned_shared {st : Stage} (h : st = .timed ∨ st = .sent) :
    st.owned = 0 ∧ st.freeing = 0 := by
  rcases h with rfl | rfl
  · exact ⟨rfl, rfl⟩
  · exact ⟨rfl, rfl⟩

theorem Inv.reply {s s' : Sys} {i : Nat} {t : Tr} (h : Inv s) (ht : s.trs i = some t)
    (hst : s.reply i t = some s') : Inv s' := by
  obtain ⟨hrefs, hzeros, hfrees, hplaced⟩ := h.sound i t ht
  unfold Sys.reply at hst
  dsimp only at hst
  split_ifs at hst with hsent hin
  · obtain rfl := Option.some.inj hst
    have hs : t.stage = .timed ∨ t.stage = .sent := Or.inr hsent
    obtain ⟨-, hh, -, hc⟩ | ⟨hout, -⟩ := placed_sent hplaced hs
    · refine h.putOnly ht (fun j hj => h.linked_alive hj) ⟨?_, hzeros, ?_, ?_⟩ ?_
      · -- the reference of the table is now the reply's
        rw [hin, hh] at hrefs
        simp only [hh, List.nil_append]
        exact hrefs
      · simp only [hh, List.nil_append]
        rw [hh] at hfrees
        exact hfrees
      · exact placed_of_claimed hs rfl (by simp [hc])
      · intro time htm
        exact ⟨(h.peeked htm ht).1, hs⟩
    · rw [hin] at hout
      exact absurd hout (by simp)
  · obtain rfl := Option.some.inj hst
    exact h.touch fun j hj => h.linked_alive hj

/-- A reply moves on without letting go of its references. -/
theorem Sound.hold {v v' : View} {t : Tr} {k : Nat} {a b : Hold} (h : Sound v t)
    (hk : t.holds[k]? = some a) (ho : v'.owned + b.owned = v.owned + a.owned)
    (hf : v'.freeing = v.freeing) (hb : b.freeing = a.freeing) :
    Sound v' { t with holds := t.holds.set k b } := by
  obtain ⟨hrefs, hzeros, hfrees, hplaced⟩ := h
  have hs : t.stage = .timed ∨ t.stage = .sent := Sound.shared ⟨hrefs, hzeros, hfrees, hplaced⟩
    (Or.inl (by rintro h0; simp [h0] at hk))
  have hsum := sum_map_set Hold.owned hk b
  have hsum' := sum_map_set Hold.freeing hk b
  refine ⟨?_, hzeros, ?_, ?_⟩
  · rw [hrefs]
    dsimp only
    omega
  · dsimp only
    omega
  · obtain ⟨-, hh, -⟩ | ⟨hout, hc⟩ := placed_sent hplaced hs
    · rw [hh] at hk
      exact absurd hk (by simp)
    · exact placed_of_claimed hs hout hc

theorem Inv.handle {s s' : Sys} {i k : Nat} {t : Tr} (h : Inv s) (ht : s.trs i = some t)
    (hclear : ∀ time, s.timer = .peeked i time → t.holds[k]? ≠ some .free)
    (hst : s.handle i t k = some s') : Inv s' := by
  have hs := h.sound i t ht
  obtain ⟨hrefs, hzeros, hfrees, hplaced⟩ := h.sound i t ht
  unfold Sys.handle at hst
  cases hk : t.holds[k]? with
  | none =>
      rw [hk] at hst
      exact absurd hst (by simp)
  | some a =>
      have hshared : t.stage = .timed ∨ t.stage = .sent := hs.shared
        (Or.inl (by rintro h0; simp [h0] at hk))
      have hst0 := Stage.owned_shared hshared
      have hout : t.inTable = false ∧ t.claims.length = 1 := by
        obtain ⟨-, hh, -⟩ | hout := placed_sent hplaced hshared
        · rw [hh] at hk
          exact absurd hk (by simp)
        · exact hout
      have hle := le_sum_map Hold.owned hk
      have hle' := le_sum_map Hold.freeing hk
      -- the quick check may be looking at it, which only a free would harm
      have hpk : ∀ time, s.timer = .peeked i time → t.freed = false ∧ _ := fun time htm =>
        h.peeked htm ht
      rw [hk] at hst
      cases a with
      | rmv =>
          have hr : t.refCnt ≠ 0 := by
            simp only [Hold.owned] at hle
            omega
          have halive : ∀ j ∈ i :: s.timerList, s.isFreed j = false := by
            intro j hj
            rcases List.mem_cons.mp hj with rfl | hj
            · exact h.ref_alive ht hr
            · exact h.timerList_alive hj
          dsimp only at hst
          split_ifs at hst with hmem
          · -- the reference of the timer list is now the reply's
            obtain rfl := Option.some.inj hst
            have hmem : i ∈ s.timerList := hmem
            have hpos := List.count_pos_iff.mpr hmem
            refine h.put (m := s.timer) ht halive ?_ ?_ (fun _ _ hp => hp) fun _ => hpk
            · intro j hj
              simp only [Sys.view, Sys.touch, List.count_erase_of_ne hj]
            · refine hs.hold hk ?_ rfl rfl
              simp only [Sys.view, Sys.touch, List.count_erase_self, Hold.owned]
              omega
          · obtain rfl := Option.some.inj hst
            exact h.putOnly ht halive (hs.hold hk rfl rfl rfl) hpk
      | dec =>
          obtain rfl := Option.some.inj hst
          have hsum := sum_map_set Hold.owned hk .use
          have hsum' := sum_map_set Hold.freeing hk .use
          simp only [Hold.owned, Hold.freeing] at hle hsum hsum'
          have hr : t.refCnt ≠ 0 := by omega
          refine h.putOnly ht ?_ ⟨?_, ?_, ?_, placed_of_claimed hshared hout.1 hout.2⟩ hpk
          · exact Sys.alive_only (h.ref_alive ht hr)
          · dsimp only
            omega
          · dsimp only
            rw [hzeros, if_neg hr, if_neg (by omega)]
          · dsimp only
            omega
      | use =>
          obtain rfl := Option.some.inj hst
          simp only [Hold.owned] at hle
          refine h.putOnly ht ?_ (hs.hold hk rfl rfl rfl) hpk
          exact Sys.alive_only (h.ref_alive ht (by omega))
      | test =>
          obtain rfl := Option.some.inj hst
          have hset := sum_map_set Hold.owned hk .free
          have hset' := sum_map_set Hold.freeing hk .free
          have her := sum_map_eraseIdx Hold.owned hk
          have her' := sum_map_eraseIdx Hold.freeing hk
          simp only [Hold.owned, Hold.freeing] at hle hset hset' her her'
          have hr : t.refCnt ≠ 0 := by omega
          have hz := decTest_zeros hzeros (by omega)
          have hz0 : t.zeros = 0 := by rw [hzeros, if_neg hr]
          by_cases h0 : t.decTest.refCnt = 0
          · rw [if_pos h0] at hz
            simp only [if_pos h0]
            refine h.putOnly ht ?_ ⟨?_, ?_, ?_, placed_of_claimed hshared hout.1 hout.2⟩ hpk
            · exact Sys.alive_only (h.ref_alive ht hr)
            · simp only [Tr.decTest] at h0 ⊢
              omega
            · exact hz.trans (if_pos h0).symm
            · dsimp only
              rw [hz]
              simp only [Tr.decTest]
              omega
          · rw [if_neg h0] at hz
            simp only [if_neg h0]
            refine h.putOnly ht ?_ ⟨?_, ?_, ?_, placed_of_claimed hshared hout.1 hout.2⟩ hpk
            · exact Sys.alive_only (h.ref_alive ht hr)
            · simp only [Tr.decTest]
              omega
            · exact hz.trans (if_neg h0).symm
            · dsimp only
              rw [hz]
              simp only [Tr.decTest]
              omega
      | free =>
          obtain rfl := Option.some.inj hst
          have her := sum_map_eraseIdx Hold.owned hk
          have her' := sum_map_eraseIdx Hold.freeing hk
          simp only [Hold.owned, Hold.freeing] at hle' her her'
          obtain ⟨halive, -⟩ := hs.freeing_once (by omega)
          rw [halive, Bool.toNat_false] at hfrees
          refine h.putOnly ht ?_ ⟨?_, hzeros, ?_, placed_of_claimed hshared hout.1 hout.2⟩ ?_
          · exact Sys.alive_only ((Sys.isFreed_of_some ht).trans halive)
          · dsimp only
            omega
          · simp only [Bool.toNat_true]
            omega
          · intro time htm
            exact absurd hk (hclear time htm)

end Disc.Transport.Lifecycle
