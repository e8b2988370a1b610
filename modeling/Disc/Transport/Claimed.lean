import Disc.Transport.Books

/-!
# Every transaction is claimed once

The steps of the timer thread, and what follows for whole runs. The timer's quick
check reads a link without a lock and without owning a reference, so runs are asked
not to free the transaction under it; everything else holds in any order of steps.
-/

namespace Disc.Transport.Lifecycle

open Disc.Lib

/-! ## The timer thread -/

/-- What has expired goes from the list to the chain. -/
theorem Inv.detach {s : Sys} {time : Nat} (h : Inv s) (htm : s.timer = .expired time)
    (p : Nat → Bool) :
    Inv { s with timer := .walk (s.timerList.takeWhile p), timerList := s.timerList.dropWhile p } := by
  refine h.move ?_ (fun j time' hp => absurd hp (by simp))
  intro j
  have hsplit : (s.timerList.takeWhile p ++ s.timerList.dropWhile p).count j
      = s.timerList.count j := by
    rw [List.takeWhile_append_dropWhile]
  rw [List.count_append] at hsplit
  simp only [Sys.view, htm, Timer.owned, Timer.armed, Timer.freeing, View.mk.injEq, and_true]
  exact ⟨by omega, by omega⟩

/-- The quick check reads the head of the list, which is alive at that moment. -/
theorem Inv.timerPeek {s : Sys} {i : Nat} {rest : List Nat} (h : Inv s) (htm : s.timer = .idle)
    (hl : s.timerList = i :: rest) : Inv { s with timer := .peeked i s.jiffies } := by
  refine h.move (l := s.timerList) ?_ ?_
  · intro j
    simp only [Sys.view, htm]
    rfl
  · intro j time hp
    obtain ⟨rfl, -⟩ := Timer.peeked.inj hp
    have hi : i ∈ s.timerList := by rw [hl]; exact List.mem_cons_self
    have hpos : 1 ≤ (s.view i).owned := by
      have := List.count_pos_iff.mpr hi
      simp only [Sys.view]
      omega
    cases ht : s.trs i with
    | none =>
        rw [h.unknown i ht] at hpos
        exact absurd hpos (by simp)
    | some t =>
        have halive := h.timerList_alive hi
        rw [Sys.isFreed_of_some ht] at halive
        exact ⟨t, rfl, halive, (h.sound i t ht).shared (Or.inr (Or.inl hpos))⟩

/-- Nothing was freed since. -/
theorem Inv.timerDeref {s : Sys} {i time : Nat} (h : Inv s) (htm : s.timer = .peeked i time)
    (b : Bool) : Inv { s.touch [i] with timer := if b then .expired time else .idle } := by
  have htouch : Inv (s.touch [i]) := by
    refine h.touch ?_
    intro j hj
    obtain rfl := List.mem_singleton.mp hj
    cases ht : s.trs j with
    | none => simp [Sys.isFreed, ht]
    | some t =>
        rw [Sys.isFreed_of_some ht]
        exact (h.peeked htm ht).1
  refine htouch.move (l := s.timerList) ?_ ?_
  · intro j
    simp only [Sys.view, Sys.touch, htm]
    cases b <;> rfl
  · intro j time' hp
    cases b <;> exact absurd hp (by simp)

/-- The timer thread may touch what it owns. -/
theorem Inv.timer_alive {s : Sys} {i : Nat} (h : Inv s) (ho : 1 ≤ s.timer.owned i) :
    ∀ j ∈ [i], s.isFreed j = false := by
  refine Sys.alive_only (h.owned_alive ?_)
  simp only [Sys.view]
  omega

theorem Inv.timerWalk {s : Sys} {i : Nat} {tl : List Nat} (h : Inv s)
    (htm : s.timer = .walk (i :: tl)) : Inv { s.touch [i] with timer := .remove i tl } := by
  have htouch : Inv (s.touch [i]) := h.touch (h.timer_alive (by rw [htm]; simp [Timer.owned]))
  refine htouch.move (l := s.timerList) ?_ (fun j time hp => absurd hp (by simp))
  intro j
  simp only [Sys.view, Sys.touch, htm, Timer.owned, Timer.armed, Timer.freeing, List.count_cons,
    beq_iff_eq, View.mk.injEq, and_true]
  exact ⟨by omega, by omega⟩

theorem Inv.timerRemove {s : Sys} {i : Nat} {tl : List Nat} {t : Tr} (h : Inv s)
    (htm : s.timer = .remove i tl) (ht : s.trs i = some t) :
    (t.inTable = true → Inv { (s.touch (i :: s.linked)).put i
        { t with inTable := false, claims := t.claims ++ [.timeout] } with timer := .dec i tl })
    ∧ (t.inTable = false → Inv { s.touch (i :: s.linked) with timer := .test i tl }) := by
  have hs := h.sound i t ht
  obtain ⟨hrefs, hzeros, hfrees, hplaced⟩ := h.sound i t ht
  have hown : (s.view i).owned = s.timerList.count i + (1 + tl.count i) := by
    simp [Sys.view, htm, Timer.owned]
  have hfr : (s.view i).freeing = 0 := by simp [Sys.view, htm, Timer.freeing]
  have hshared := hs.shared (Or.inr (Or.inl (by omega)))
  have halive : ∀ j ∈ i :: s.linked, s.isFreed j = false := by
    intro j hj
    rcases List.mem_cons.mp hj with rfl | hj
    · exact h.owned_alive (by omega)
    · exact h.linked_alive hj
  have hplace := placed_sent hplaced hshared
  refine ⟨?_, ?_⟩
  · -- the reference of the table is now the timer's
    intro hin
    obtain ⟨-, hh, -, hc⟩ | ⟨hout, -⟩ := hplace
    · refine h.put (l := s.timerList) ht halive ?_ ?_
        (fun j time hp => absurd hp (by simp)) (fun _ time hp => absurd hp (by simp))
      · intro j hj
        simp [Sys.view, htm, Timer.owned, Timer.armed, Timer.freeing, Ne.symm hj]
      · refine ⟨?_, hzeros, ?_, placed_of_claimed hshared rfl (by simp [hc])⟩
        · rw [hin, Bool.toNat_true] at hrefs
          simp only [Sys.view, Timer.owned, if_true, Bool.toNat_false]
          omega
        · simp only [Sys.view, Timer.freeing]
          omega
    · rw [hin] at hout
      exact absurd hout (by simp)
  · -- a reply was faster
    intro hin
    have hc : t.claims.length = 1 := by
      obtain ⟨hin', -⟩ | ⟨-, hc⟩ := hplace
      · rw [hin] at hin'
        exact absurd hin' (by simp)
      · exact hc
    have hother : ∀ j, j ≠ i → ({ s with timer := .test i tl } : Sys).view j = s.view j := by
      intro j hj
      simp [Sys.view, htm, Timer.owned, Timer.armed, Timer.freeing, Ne.symm hj]
    refine (h.touch halive).advance (l := s.timerList) ?_ ?_ (fun j time hp => absurd hp (by simp))
    · intro j u hu
      by_cases hj : j = i
      · subst hj
        obtain rfl := Option.some.inj (ht.symm.trans hu)
        refine ⟨?_, hzeros, ?_, placed_of_claimed hshared hin hc⟩
        · simp only [Sys.view, Timer.owned, if_true]
          exact hown ▸ hrefs
        · simp only [Sys.view, Timer.freeing]
          omega
      · have hsj := h.sound j u hu
        rw [← hother j hj] at hsj
        exact hsj
    · intro j hj
      have hji : j ≠ i := by
        rintro rfl
        exact absurd (ht.symm.trans hj) (by simp)
      have hvj := h.unknown j hj
      rw [← hother j hji] at hvj
      exact hvj

theorem Inv.timerDec {s : Sys} {i : Nat} {tl : List Nat} {t : Tr} (h : Inv s)
    (htm : s.timer = .dec i tl) (ht : s.trs i = some t) :
    Inv { (s.touch [i]).put i { t with refCnt := t.refCnt - 1 } with timer := .call i tl } := by
  have hs := h.sound i t ht
  obtain ⟨hrefs, hzeros, hfrees, hplaced⟩ := h.sound i t ht
  have hown : (s.view i).owned = s.timerList.count i + (2 + tl.count i) := by
    simp [Sys.view, htm, Timer.owned]
  have hfr : (s.view i).freeing = 0 := by simp [Sys.view, htm, Timer.freeing]
  have harm : (s.view i).armed = s.timerList.count i + tl.count i := by
    simp [Sys.view, htm, Timer.armed]
  have hshared := hs.shared (Or.inr (Or.inl (by omega)))
  have hpos : 1 ≤ s.timer.owned i := by
    rw [htm]
    simp only [Timer.owned, if_true]
    omega
  refine h.put (l := s.timerList) ht (h.timer_alive hpos) ?_ ?_
    (fun j time hp => absurd hp (by simp)) (fun _ time hp => absurd hp (by simp))
  · intro j hj
    simp [Sys.view, htm, Timer.owned, Timer.armed, Timer.freeing, Ne.symm hj]
  -- two references are the timer's, so the count does not reach zero here
  · refine ⟨?_, ?_, ?_, ?_⟩
    · simp only [Sys.view, Timer.owned, if_true]
      omega
    · dsimp only
      rw [hzeros, if_neg (by omega), if_neg (by omega)]
    · simp only [Sys.view, Timer.freeing]
      omega
    · have hplace := placed_sent hplaced hshared
      rw [harm] at hplace
      exact placed_of_sent hshared hplace

theorem Inv.timerCall {s : Sys} {i : Nat} {tl : List Nat} (h : Inv s) (htm : s.timer = .call i tl) :
    Inv { s.touch [i] with timer := .test i tl } := by
  have htouch : Inv (s.touch [i]) := h.touch (h.timer_alive (by rw [htm]; simp [Timer.owned]))
  refine htouch.move (l := s.timerList) ?_ (fun j time hp => absurd hp (by simp))
  intro j
  simp only [Sys.view, Sys.touch, htm, Timer.owned, Timer.armed, Timer.freeing]

theorem Inv.timerTest {s : Sys} {i : Nat} {tl : List Nat} {t : Tr} (h : Inv s)
    (htm : s.timer = .test i tl) (ht : s.trs i = some t) :
    Inv { (s.touch [i]).put i t.decTest with
          timer := if t.decTest.refCnt = 0 then .free i tl else .walk tl } := by
  have hs := h.sound i t ht
  obtain ⟨hrefs, hzeros, hfrees, hplaced⟩ := h.sound i t ht
  have hown : (s.view i).owned = s.timerList.count i + (1 + tl.count i) := by
    simp [Sys.view, htm, Timer.owned]
  have hfr : (s.view i).freeing = 0 := by simp [Sys.view, htm, Timer.freeing]
  have harm : (s.view i).armed = s.timerList.count i + tl.count i := by
    simp [Sys.view, htm, Timer.armed]
  have hshared := hs.shared (Or.inr (Or.inl (by omega)))
  have hplace := placed_sent hplaced hshared
  rw [harm] at hplace
  have hr : t.refCnt ≠ 0 := by omega
  have hz := decTest_zeros hzeros (by omega)
  have hz0 : t.zeros = 0 := by rw [hzeros, if_neg hr]
  -- whoever takes the count to zero, and only that one, frees
  by_cases h0 : t.decTest.refCnt = 0
  · simp only [if_pos h0]
    refine h.put (l := s.timerList) ht (h.timer_alive (by rw [htm]; simp [Timer.owned])) ?_ ?_
      (fun j time hp => absurd hp (by simp)) (fun _ time hp => absurd hp (by simp))
    · intro j hj
      simp [Sys.view, htm, Timer.owned, Timer.armed, Timer.freeing, Ne.symm hj]
    · refine ⟨?_, hz, ?_, placed_of_sent (t := t.decTest) hshared hplace⟩
      · simp only [Sys.view, Timer.owned, Tr.decTest]
        omega
      · rw [hz, if_pos h0]
        simp only [Sys.view, Timer.freeing, if_true, Tr.decTest]
        omega
  · simp only [if_neg h0]
    refine h.put (l := s.timerList) ht (h.timer_alive (by rw [htm]; simp [Timer.owned])) ?_ ?_
      (fun j time hp => absurd hp (by simp)) (fun _ time hp => absurd hp (by simp))
    · intro j hj
      simp [Sys.view, htm, Timer.owned, Timer.armed, Timer.freeing, Ne.symm hj]
    · refine ⟨?_, hz, ?_, placed_of_sent (t := t.decTest) hshared hplace⟩
      · simp only [Sys.view, Timer.owned, Tr.decTest]
        omega
      · rw [hz, if_neg h0]
        simp only [Sys.view, Timer.freeing, Tr.decTest]
        omega

theorem Inv.timerFree {s : Sys} {i : Nat} {tl : List Nat} {t : Tr} (h : Inv s)
    (htm : s.timer = .free i tl) (ht : s.trs i = some t) :
    Inv { (s.touch [i]).put i { t with freed := true } with timer := .walk tl } := by
  have hs := h.sound i t ht
  obtain ⟨hrefs, hzeros, hfrees, hplaced⟩ := h.sound i t ht
  have hfr : (s.view i).freeing = 1 := by simp [Sys.view, htm, Timer.freeing]
  -- the timer held no reference any more, only the duty to free
  have hview : ∀ j, s.timerList.count j + tl.count j = (s.view j).owned
      ∧ s.timerList.count j + tl.count j = (s.view j).armed := by
    intro j
    simp [Sys.view, htm, Timer.owned, Timer.armed]
  have hshared := hs.shared (Or.inr (Or.inr (by omega)))
  have hplace := placed_sent hplaced hshared
  obtain ⟨halive, -⟩ := hs.freeing_once (by omega)
  rw [halive, Bool.toNat_false] at hfrees
  refine h.put (l := s.timerList) ht ?_ ?_ ?_
    (fun j time hp => absurd hp (by simp)) (fun _ time hp => absurd hp (by simp))
  · exact Sys.alive_only ((Sys.isFreed_of_some ht).trans halive)
  · intro j hj
    simp [Sys.view, htm, Timer.owned, Timer.armed, Timer.freeing, Ne.symm hj]
  · refine ⟨?_, hzeros, ?_, ?_⟩
    · simp only [Sys.view, Timer.owned, (hview i).1]
      exact hrefs
    · simp only [Sys.view, Timer.freeing, Bool.toNat_true]
      omega
    · rw [← (hview i).2] at hplace
      exact placed_of_sent hshared hplace

/-- Every step of the timer thread. -/
theorem Inv.timer {s s' : Sys} (h : Inv s) (hst : s.tickTimer = some s') : Inv s' := by
  unfold Sys.tickTimer at hst
  split at hst
  · rename_i htm
    split at hst
    · obtain rfl := Option.some.inj hst
      exact h
    · rename_i hl
      obtain rfl := Option.some.inj hst
      exact h.timerPeek htm hl
  · rename_i htm
    obtain rfl := Option.some.inj hst
    exact h.timerDeref htm _
  · rename_i time htm
    obtain rfl := Option.some.inj hst
    have htouch : Inv (s.touch s.timerList) := h.touch fun j hj => h.timerList_alive hj
    exact htouch.detach htm _
  · rename_i htm
    obtain rfl := Option.some.inj hst
    refine h.move (l := s.timerList) ?_ (fun j time hp => absurd hp (by simp))
    intro j
    simp only [Sys.view, htm, Timer.owned, Timer.armed, Timer.freeing, List.count_nil]
  · rename_i htm
    obtain rfl := Option.some.inj hst
    exact h.timerWalk htm
  · rename_i htm
    split at hst
    · exact absurd hst (by simp)
    · rename_i t ht
      dsimp only at hst
      obtain ⟨hin, hout⟩ := h.timerRemove htm ht
      split_ifs at hst with hi
      · obtain rfl := Option.some.inj hst
        exact hin hi
      · obtain rfl := Option.some.inj hst
        exact hout (by simpa using hi)
  · rename_i htm
    split at hst
    · exact absurd hst (by simp)
    · rename_i t ht
      obtain rfl := Option.some.inj hst
      exact h.timerDec htm ht
  · rename_i htm
    obtain rfl := Option.some.inj hst
    exact h.timerCall htm
  · rename_i htm
    split at hst
    · exact absurd hst (by simp)
    · rename_i t ht
      obtain rfl := Option.some.inj hst
      exact h.timerTest htm ht
  · rename_i htm
    split at hst
    · exact absurd hst (by simp)
    · rename_i t ht
      obtain rfl := Option.some.inj hst
      exact h.timerFree htm ht

/-- A new transaction is known to nobody. -/
theorem Inv.create {s : Sys} (h : Inv s) :
    Inv { s.put s.next { stage := .created, refCnt := 1, inTable := false, timeout := 0
                         freed := false, holds := [], claims := [], zeros := 0 } with
          next := s.next + 1 } := by
  have hnone := h.fresh s.next (Nat.le_refl _)
  have hview := h.unknown s.next hnone
  refine ⟨?_, ?_, ?_, ?_, h.fault⟩
  · intro j hj
    have hj : s.next + 1 ≤ j := hj
    show (if j = s.next then _ else s.trs j) = none
    rw [if_neg (by omega)]
    exact h.fresh j (by omega)
  · intro j t ht
    have ht : (if j = s.next then some _ else s.trs j) = some t := ht
    by_cases hj : j = s.next
    · subst hj
      rw [if_pos rfl] at ht
      obtain rfl := Option.some.inj ht
      show Sound (s.view s.next) _
      rw [hview]
      exact ⟨rfl, rfl, rfl, rfl, rfl, rfl, rfl, rfl⟩
    · rw [if_neg hj] at ht
      exact h.sound j t ht
  · intro j hj
    have hj : (if j = s.next then some _ else s.trs j) = none := hj
    split_ifs at hj
    exact h.unknown j hj
  · intro j time htm
    obtain ⟨t, ht, hpk⟩ := h.peek j time htm
    refine ⟨t, ?_, hpk⟩
    show (if j = s.next then _ else s.trs j) = some t
    -- what the quick check looks at has been there before
    have hj : j ≠ s.next := by
      rintro rfl
      exact absurd (hnone.symm.trans ht) (by simp)
    rw [if_neg hj]
    exact ht

/-! ## Runs -/

/--
The step does not free the transaction whose link the timer's quick check has read
from the head of the list and not looked into yet.
-/
def Sys.peekClear (s : Sys) (a : Act) : Bool :=
  match s.timer, a with
  | .peeked i _, .handle j k => !(i == j && (s.trs j).any fun t => t.holds[k]? == some .free)
  | _, _ => true

theorem Inv.step {s s' : Sys} {a : Act} (h : Inv s) (hok : s.peekClear a = true)
    (hst : s.step a = some s') : Inv s' := by
  cases a with
  | create =>
      obtain rfl := Option.some.inj hst
      exact h.create
  | send i =>
      obtain ⟨t, ht, hst⟩ := Option.bind_eq_some_iff.mp hst
      exact h.send ht hst
  | giveUp i =>
      obtain ⟨t, ht, hst⟩ := Option.bind_eq_some_iff.mp hst
      exact h.giveUp ht hst
  | reply i =>
      obtain ⟨t, ht, hst⟩ := Option.bind_eq_some_iff.mp hst
      exact h.reply ht hst
  | handle i k =>
      obtain ⟨t, ht, hst⟩ := Option.bind_eq_some_iff.mp hst
      -- the one step that can free what the timer thread has just looked at
      refine h.handle ht ?_ hst
      intro time htm hk
      simp [Sys.peekClear, htm, ht, hk] at hok
  | timer => exact h.timer hst
  | tick =>
      obtain rfl := Option.some.inj hst
      exact ⟨h.fresh, h.sound, h.unknown, h.peek, h.fault⟩

theorem inv_start (j : Nat) : Inv (Sys.start j) :=
  ⟨fun _ _ => rfl, fun _ _ ht => absurd ht (by simp [Sys.start]), fun _ _ => rfl,
    fun _ _ htm => absurd htm (by simp [Sys.start]), rfl⟩

/-- The runs in which the quick check is not overtaken by a free. -/
def Sys.ClearRun : Sys → Prop := Sys.Runs fun s a => s.peekClear a = true

theorem inv_clearRun {s : Sys} (h : s.ClearRun) : Inv s := by
  refine Reach.invariant (I := Inv) ?_ ?_ h
  · rintro s ⟨j, rfl⟩
    exact inv_start j
  · intro s a s' hi hok hst
    exact hi.step hok hst

/-- Nothing is under way: no sender, no reply, no timer run, and no link in the list. -/
def Sys.Quiet (s : Sys) : Prop :=
  s.timer = .idle ∧ s.timerList = []
    ∧ ∀ i t, s.trs i = some t → t.holds = [] ∧ (t.stage = .sent ∨ t.stage = .dropped)

/--
What the threads owe a transaction. Freed memory was not touched; no transaction is
claimed twice, or gives up its last reference twice. One that was sent and is not
claimed is in the table, and in the timer list or in the hands of the timer thread, who
will claim it; one that still has references is in somebody's hands. So when nothing
is under way, each that was sent has been claimed once, by a reply or by the timeout,
its count has reached zero once, and it is freed.
-/
structure Sys.Kept (s : Sys) : Prop where
  fault : s.fault = false
  once : ∀ i t, s.trs i = some t → t.claims.length ≤ 1 ∧ t.zeros ≤ 1
  freed : ∀ i t, s.trs i = some t → t.freed = true → t.zeros = 1 ∧ t.refCnt = 0
  unclaimed : ∀ i t, s.trs i = some t → t.stage = .sent → t.claims = [] →
    t.inTable = true ∧ (i ∈ s.timerList ∨ 1 ≤ s.timer.armed i)
  referenced : ∀ i t, s.trs i = some t → t.stage = .sent → t.zeros = 0 →
    t.inTable = true ∨ t.holds ≠ [] ∨ i ∈ s.timerList ∨ 1 ≤ s.timer.owned i
  done : s.Quiet → ∀ i t, s.trs i = some t → t.stage = .sent →
    t.claims.length = 1 ∧ t.zeros = 1 ∧ t.freed = true

/--
**The life of a transaction**, in every state of every run in which no reply frees a
transaction between the timer's unprotected read of its list head and its look into
the link it read there.
-/
theorem clearRun_kept {s : Sys} (h : s.ClearRun) : s.Kept := by
  have hi := inv_clearRun h
  have hzle : ∀ i t, s.trs i = some t → t.zeros ≤ 1 := by
    intro i t ht
    rw [(hi.sound i t ht).zeros]
    split_ifs <;> omega
  refine ⟨hi.fault, ?_, ?_, ?_, ?_, ?_⟩
  · intro i t ht
    refine ⟨?_, hzle i t ht⟩
    have hp := (hi.sound i t ht).placed
    unfold Placed at hp
    split at hp
    · rw [hp.2.2.2.2]; simp
    · rw [hp.2.2.2.2]; simp
    · rw [hp.2.2.2.2]; simp
    · rcases hp with hp | hp
      · rw [hp.2.2.2]; simp
      · exact Nat.le_of_eq hp.2
    · rcases hp with hp | hp
      · rw [hp.2.2.2]; simp
      · exact Nat.le_of_eq hp.2
    · rw [hp.2.2.2.2]; simp
    · rw [hp.2.2.2.2]; simp
  · intro i t ht hf
    have hs := hi.sound i t ht
    by_cases h0 : t.refCnt = 0
    · exact ⟨by rw [hs.zeros, if_pos h0], h0⟩
    · rw [hs.not_freed h0] at hf
      exact absurd hf (by simp)
  · intro i t ht hst hc
    obtain ⟨hin, -, harm, -⟩ | ⟨-, hc'⟩ := placed_sent (hi.sound i t ht).placed (Or.inr hst)
    · refine ⟨hin, ?_⟩
      by_cases hmem : i ∈ s.timerList
      · exact Or.inl hmem
      · refine Or.inr ?_
        simp only [Sys.view, List.count_eq_zero.mpr hmem, Nat.zero_add] at harm
        exact harm
    · rw [hc] at hc'
      exact absurd hc' (by simp)
  -- no count at zero: somebody is left who holds a reference
  · intro i t ht hst hz
    have hs := hi.sound i t ht
    have hrefs := hs.refs
    have hr : t.refCnt ≠ 0 := by
      intro h0
      have := hs.zeros
      rw [if_pos h0] at this
      omega
    by_contra hno
    simp only [not_or, not_not, Nat.not_le, Nat.lt_one_iff] at hno
    obtain ⟨hin, hh, hmem, how⟩ := hno
    have hin : t.inTable = false := by simpa using hin
    rw [hst, hin, hh] at hrefs
    simp only [Sys.view, List.count_eq_zero.mpr hmem, how] at hrefs
    exact hr hrefs
  -- at rest nobody holds one, so the count is zero and the duty to free was done
  · rintro ⟨htm, hl, hall⟩ i t ht hst
    obtain ⟨hh, -⟩ := hall i t ht
    have hs := hi.sound i t ht
    obtain ⟨hrefs, hzeros, hfrees, hplaced⟩ := hi.sound i t ht
    have hv : s.view i = ⟨0, 0, 0⟩ := by
      simp [Sys.view, htm, hl, Timer.owned, Timer.armed, Timer.freeing]
    obtain ⟨-, -, harm, -⟩ | ⟨hin, hc⟩ := placed_sent hplaced (Or.inr hst)
    · rw [hv] at harm
      exact absurd harm (by simp)
    · rw [hst, hin, hh, hv] at hrefs
      have hr : t.refCnt = 0 := hrefs
      rw [if_pos hr] at hzeros
      rw [hst, hh, hv, hzeros] at hfrees
      refine ⟨hc, hzeros, ?_⟩
      cases hf : t.freed with
      | true => rfl
      | false =>
          rw [hf] at hfrees
          exact absurd hfrees (by decide)

/-- A transaction is created and sent. -/
def sampleSend : List Act := [.create, .send 0, .send 0, .send 0, .send 0]

/-- Its reply comes and is processed to the end. -/
def sampleReply : List Act :=
  [.reply 0, .handle 0 0, .handle 0 0, .handle 0 0, .handle 0 0, .handle 0 0]

theorem clearRun_kept_replied :
    ∃ s : Sys, s.ClearRun ∧ s.Kept ∧ ∃ t, s.trs 0 = some t ∧ t.stage = .sent ∧ t.claims = [.reply]
      ∧ t.freed = true := by
  have h : (trace Sys.step Sys.peekClear (sampleSend ++ sampleReply) (Sys.start 0)).map
      (fun s => (s.trs 0).map fun t => (t.stage, t.claims, t.freed))
      = some (some (.sent, [.reply], true)) := by decide +kernel
  obtain ⟨s, hs, ht⟩ := Option.map_eq_some_iff.mp h
  obtain ⟨t, ht, heq⟩ := Option.map_eq_some_iff.mp ht
  simp only [Prod.mk.injEq] at heq
  have hrun : s.ClearRun := Reach.trace (.init ⟨0, rfl⟩) hs
  exact ⟨s, hrun, clearRun_kept hrun, t, ht, heq⟩

/--
The timer thread reads the head of its list, and before it looks at the timeout of
the link it found there, the reply comes and frees the transaction.
-/
theorem quick_check_after_free : ¬ ∀ s : Sys, Sys.Runs anyStep s → s.Kept := by
  intro hall
  have h : (trace Sys.step (fun _ _ => true) (sampleSend ++ [Act.timer] ++ sampleReply ++ [Act.timer])
      (Sys.start 0)).map (·.fault) = some true := by decide +kernel
  obtain ⟨s, hs, hf⟩ := Option.map_eq_some_iff.mp h
  have hrun : Sys.Runs (fun _ _ => true = true) s := Reach.trace (.init ⟨0, rfl⟩) hs
  have hkept := hall s hrun.any
  rw [hkept.fault] at hf
  exact absurd hf (by simp)

end Disc.Transport.Lifecycle
