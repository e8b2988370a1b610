import Disc.Timer.TimerList

/-!
# Every sequence of calls on timer lists

The four operations in any order, on any number of lists that share their links: a
peer is in the list of the peers to reconnect or in the list of those that owe a
CER, and both use the one link it has. In every memory such a sequence of calls
leads to, the lists are well formed and each further call does to their contents
what its name says.
-/

namespace Disc.Timer

open Disc.Lib

/-- A call. -/
inductive Call (L : Type) where
  | add (tl : Nat) (l : L) (timeout : UInt32)
  | insert (tl : Nat) (l : L) (timeout : UInt32)
  | rmv (tl : Nat) (l : L)
  | getExpired (l : L) (time : UInt32)
deriving Repr, DecidableEq

variable {L : Type}

section Calls

variable [DecidableEq L]

/-- The memory after a call that returned. -/
def Call.step (m : Mem L) (a : Call L) : Option (Mem L) :=
  match a with
  | .add tl l t => ((addToTimerList m tl l t).toOption).map Prod.snd
  | .insert tl l t => ((insertIntoTimerList m tl l t).toOption).map Prod.snd
  | .rmv tl l => ((rmvFromTimerList m tl l).toOption).map Prod.snd
  | .getExpired l time => ((getExpiredFromTimerList m l time).toOption).map Prod.snd

/-- The link exists, and what is appended is due no earlier than anything in the list. -/
def Call.Admitted (m : Mem L) : Call L → Prop
  | .add tl l t => tl < m.size ∧ ∀ i ∈ m.contents l, m.timeout (.link i) ≤ t
  | .insert tl _ _ => tl < m.size
  | _ => True

/-- The lists of `m` are well formed, and every call does what it is for. -/
structure Sound (m : Mem L) : Prop where
  linked : ∀ l, Between m.links (.first l) ((m.contents l).map .link) (.last l)
  sorted : ∀ l, (m.contents l).Pairwise fun i j => m.timeout (.link i) ≤ m.timeout (.link j)
  field : ∀ i l, m.timerList (.link i) = some l ↔ i ∈ m.contents l
  /-- A link that is in some list is not armed again. -/
  refused : ∀ tl l t, (∃ k, tl ∈ m.contents k) →
    addToTimerList m tl l t = .ok (-1, m) ∧ insertIntoTimerList m tl l t = .ok (-1, m)
  added : ∀ tl l t, tl < m.size → (∀ k, tl ∉ m.contents k) →
    (∀ i ∈ m.contents l, m.timeout (.link i) ≤ t) → ∃ m', addToTimerList m tl l t = .ok (1, m')
      ∧ m'.contents = Function.update m.contents l (m.contents l ++ [tl])
      ∧ m'.timeout = Function.update m.timeout (.link tl) t
  inserted : ∀ tl l t, tl < m.size → (∀ k, tl ∉ m.contents k) →
    ∃ m', insertIntoTimerList m tl l t = .ok (1, m')
      ∧ (∃ as bs, m.contents l = as ++ bs
          ∧ m'.contents = Function.update m.contents l (as ++ tl :: bs))
      ∧ m'.timeout = Function.update m.timeout (.link tl) t
  absent : ∀ tl l, tl ∉ m.contents l → rmvFromTimerList m tl l = .ok (-1, m)
  removed : ∀ tl l, tl ∈ m.contents l → ∃ m', rmvFromTimerList m tl l = .ok (1, m')
    ∧ m'.contents = Function.update m.contents l ((m.contents l).erase tl)
    ∧ m'.timeout = m.timeout
  /-- The links that are due come back as a null-terminated chain, and the others stay. -/
  expired : ∀ l time, ∃ r m', getExpiredFromTimerList m l time = .ok (r, m')
    ∧ Trail m'.links.next r
        (((m.contents l).filter fun i => m.timeout (.link i) ≤ time).map .link)
    ∧ m'.contents = Function.update m.contents l
        ((m.contents l).filter fun i => time < m.timeout (.link i))
    ∧ m'.timeout = m.timeout

end Calls

section Lists

variable {m : Mem L} {c : L → List Nat}

theorem Wired.timerList_none (h : Wired m c) {tl : Nat} (hno : ∀ k, tl ∉ c k) :
    m.timerList (.link tl) = none := by
  cases hk : m.timerList (.link tl) with
  | none => rfl
  | some k => exact absurd ((h.field tl k).mp hk) (hno k)

theorem Lists.sound [DecidableEq L] (h : Lists m c) : Sound m := by
  have hc : m.contents = c := h.contents_eq
  refine ⟨?_, ?_, ?_, ?_, ?_, ?_, ?_, ?_, ?_⟩
  · rw [hc]; exact h.linked
  · rw [hc]; exact h.sorted
  · rw [hc]; exact h.field
  · rw [hc]
    intro tl l t hin
    obtain ⟨k, hk⟩ := hin
    have hhome := (h.field tl k).mpr hk
    exact ⟨add_refused hhome l t, insert_refused hhome l t⟩
  · rw [hc]
    intro tl l t hi hno _
    obtain ⟨x, y, hrun, -, hw⟩ := add_armed h.toWired l t hi (h.timerList_none hno)
    exact ⟨_, hrun, hw.contents_eq, rfl⟩
  · rw [hc]
    intro tl l t hi hno
    obtain ⟨x, y, as, bs, hrun, -, hsplit, hw, -⟩ :=
      insert_armed h.toWired l t hi (h.timerList_none hno)
    exact ⟨_, hrun, ⟨as, bs, hsplit, hw.contents_eq⟩, rfl⟩
  · rw [hc]
    intro tl l hout
    exact rmv_refused (mt (h.field tl l).mp hout)
  · rw [hc]
    intro tl l hin
    obtain ⟨m', hrun, hw, ht, -, -⟩ := rmv_disarmed h.toWired hin
    exact ⟨m', hrun, hw.contents_eq, ht⟩
  · rw [hc]
    intro l time
    obtain ⟨r, m', hrun, htrail, h', ht, -⟩ := getExpired_cut h l time
    exact ⟨r, m', hrun, htrail, h'.contents_eq, ht⟩

/-- One call keeps the lists well formed. -/
theorem Lists.step [DecidableEq L] (h : Lists m c) {a : Call L} (hok : a.Admitted m) {m' : Mem L}
    (hs : a.step m = some m') : ∃ c', Lists m' c' := by
  cases a with
  | add tl l t =>
      obtain ⟨hi, hle⟩ := hok
      rw [h.contents_eq] at hle
      cases hk : m.timerList (.link tl) with
      | some k => exact ⟨c, Res.toOption_map_snd (add_refused hk l t) hs ▸ h⟩
      | none =>
          obtain ⟨x, y, hrun, -, hw⟩ := add_armed h.toWired l t hi hk
          exact ⟨_, Res.toOption_map_snd hrun hs ▸ add_sorted h hk hle hw⟩
  | insert tl l t =>
      cases hk : m.timerList (.link tl) with
      | some k => exact ⟨c, Res.toOption_map_snd (insert_refused hk l t) hs ▸ h⟩
      | none =>
          obtain ⟨x, y, as, bs, hrun, -, hsplit, hw, hord⟩ := insert_armed h.toWired l t hok hk
          obtain ⟨hle, hge⟩ := hord (h.sorted l)
          exact ⟨_, Res.toOption_map_snd hrun hs ▸ h.arm hk hsplit hle hge rfl hw⟩
  | rmv tl l =>
      by_cases hin : tl ∈ c l
      · obtain ⟨m₁, hrun, hw, ht, -, -⟩ := rmv_disarmed h.toWired hin
        exact ⟨_, Res.toOption_map_snd hrun hs ▸ h.cut List.erase_sublist ht hw⟩
      · exact ⟨c, Res.toOption_map_snd (rmv_refused (mt (h.field tl l).mp hin)) hs ▸ h⟩
  | getExpired l time =>
      obtain ⟨r, m₁, hrun, -, h', -, -⟩ := getExpired_cut h l time
      exact ⟨_, Res.toOption_map_snd hrun hs ▸ h'⟩

end Lists

theorem lists_fresh (n : Nat) : Lists (Mem.fresh n : Mem L) fun _ => [] := by
  refine ⟨⟨fun l => ⟨?_, by simp, by simp⟩, by simp [Mem.fresh], by simp⟩, fun l => .nil⟩
  rw [List.map_nil, List.nil_append, List.isChain_pair]
  exact ⟨rfl, rfl⟩

/-- **After every sequence of calls the timer lists are well formed and every call is right.** -/
theorem timerLists_sound [DecidableEq L] {n : Nat} {m : Mem L}
    (h : Reach (· = Mem.fresh n) Call.step Call.Admitted m) : Sound m := by
  have hlists : ∃ c, Lists m c := by
    refine Reach.invariant (I := fun m => ∃ c, Lists m c) ?_ ?_ h
    · intro m hm
      exact ⟨_, hm ▸ lists_fresh n⟩
    · intro m a m' hl hok hs
      obtain ⟨c, hl⟩ := hl
      exact hl.step hok hs
  obtain ⟨c, hl⟩ := hlists
  exact hl.sound

/-- The link that is due first stands in front, though it was armed last. -/
theorem timerLists_sound_two :
    ∃ m : Mem Bool, m.contents true = [1, 0] ∧ m.contents false = [] ∧ Sound m :=
  ⟨_, rfl, rfl, timerLists_sound (n := 2)
    (.step (a := .insert 1 true 5)
      (.step (a := .add 0 true 9) (.init rfl) ⟨by decide, by decide⟩ rfl)
      (show 1 < 2 by decide) rfl)⟩

end Disc.Timer
