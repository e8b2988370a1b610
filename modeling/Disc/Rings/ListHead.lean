import Disc.Lib.Links
import Disc.Lib.Memory

/-!
# The rings of `list.h`

A list is a ring through a list head. The operations are those of `list.h`, taken
literally: they follow and rewrite whatever links they find, and only on a ring that
is one do they insert and delete. The hash table, the list of active peers and the
list of receive threads are such rings.
-/

namespace Disc.Rings

open Disc.Lib

variable {α : Type}

/-- The ring through `head` consists of `xs`. -/
def Ring (m : Links α) (head : α) (xs : List α) : Prop := Between m head xs head

section Operations

variable [DecidableEq α]

/-- `INIT_LIST_HEAD`. -/
def initListHead (m : Links α) (p : α) : Links α := (m.setNext p (some p)).setPrev p (some p)

/-- `__list_add`: the four writes in the order they are made. -/
def listAddBetween (m : Links α) (new prev next : α) : Links α :=
  (((m.setPrev next (some new)).setNext new (some next)).setPrev new (some prev)).setNext prev
    (some new)

/-- `list_add_tail`. -/
def listAddTail (m : Links α) (new head : α) : Res (Links α) := do
  let prev ← Res.ofAccess (m.prev head)
  .ok (listAddBetween m new prev head)

/-- `__list_del`. -/
def listDelBetween (m : Links α) (prev next : α) : Links α :=
  (m.setPrev next (some prev)).setNext prev (some next)

/-- `ZERO_LIST_HEAD`. -/
def zeroListHead (m : Links α) (p : α) : Links α := (m.setNext p none).setPrev p none

/-- `list_del_zero`: the entry is taken out and its links are cleared. -/
def listDelZero (m : Links α) (entry : α) : Res (Links α) := do
  let prev ← Res.ofAccess (m.prev entry)
  let next ← Res.ofAccess (m.next entry)
  .ok (zeroListHead (listDelBetween m prev next) entry)

/-- `list_empty`. -/
def listEmpty (m : Links α) (head : α) : Bool := m.next head = some head

end Operations

section Ring

variable [DecidableEq α] {m : Links α} {head : α} {xs : List α}

theorem ring_init (m : Links α) (head : α) : Ring (initListHead m head) head [] := by
  refine ⟨?_, by simp, by simp⟩
  rw [List.nil_append, List.isChain_pair]
  simp [Links.Link, initListHead]

theorem listAddBetween_next (m : Links α) (new prev next q : α) :
    (listAddBetween m new prev next).next q
      = if q = prev then some new else if q = new then some next else m.next q := rfl

theorem listAddBetween_prev (m : Links α) (new prev next q : α) :
    (listAddBetween m new prev next).prev q
      = if q = new then some prev else if q = next then some new else m.prev q := rfl

/-- **A new entry at the end of a ring.** Only it and its two neighbours are written. -/
theorem Ring.addTail (h : Ring m head xs) (new : α) (hh : new ≠ head) (hx : new ∉ xs) :
    ∃ prev, m.prev head = some prev ∧ (prev = head ∨ prev ∈ xs)
      ∧ listAddTail m new head = .ok (listAddBetween m new prev head)
      ∧ Ring (listAddBetween m new prev head) head (xs ++ [new]) := by
  obtain ⟨us, x, hus⟩ := exists_concat head xs
  have hb : Between m head (xs ++ []) head := by rw [List.append_nil]; exact h
  have hlink : m.Link x head := hb.link hus rfl
  have hxm : x = head ∨ x ∈ xs := by
    have hin : x ∈ head :: xs := by rw [hus]; simp
    exact List.mem_cons.mp hin
  have hxn : x ≠ new := by
    rintro rfl
    exact hxm.elim hh hx
  refine ⟨x, hlink.2, hxm, by simp [listAddTail, hlink.2], ?_⟩
  refine hb.insert hus rfl hh hh (by simpa using hx) ⟨?_, ?_⟩ ⟨?_, ?_⟩ ?_ ?_
  · rw [listAddBetween_next, if_pos rfl]
  · rw [listAddBetween_prev, if_pos rfl]
  · rw [listAddBetween_next, if_neg hxn.symm, if_pos rfl]
  · rw [listAddBetween_prev, if_neg hh.symm, if_pos rfl]
  · intro q hq hqx
    have hqn : q ≠ new := by
      rintro rfl
      simp only [List.append_nil, List.mem_cons] at hq
      exact hq.elim hh hx
    rw [listAddBetween_next, if_neg hqx, if_neg hqn]
  · intro q hq hqh
    have hqn : q ≠ new := by
      rintro rfl
      simp only [List.nil_append, List.mem_append, List.mem_singleton] at hq
      exact hq.elim hx hh
    rw [listAddBetween_prev, if_neg hqn, if_neg hqh]

theorem delZero_next (m : Links α) (e prev next q : α) :
    (zeroListHead (listDelBetween m prev next) e).next q
      = if q = e then none else if q = prev then some next else m.next q := rfl

theorem delZero_prev (m : Links α) (e prev next q : α) :
    (zeroListHead (listDelBetween m prev next) e).prev q
      = if q = e then none else if q = next then some prev else m.prev q := rfl

theorem zeroListHead_of_null {p : α} (hnext : m.next p = none) (hprev : m.prev p = none) :
    zeroListHead m p = m := by
  have hn : (zeroListHead m p).next = m.next := by
    funext q
    show (if q = p then none else m.next q) = m.next q
    split
    next he => rw [he, hnext]
    next => rfl
  have hp : (zeroListHead m p).prev = m.prev := by
    funext q
    show (if q = p then none else m.prev q) = m.prev q
    split
    next he => rw [he, hprev]
    next => rfl
  exact congrArg₂ Links.mk hn hp

omit [DecidableEq α] in
/-- The neighbours of an entry of a ring. -/
theorem Ring.neighbours {as bs us vs : List α} {e x y : α} (h : Ring m head (as ++ e :: bs))
    (hx : head :: as = us ++ [x]) (hy : bs ++ [head] = y :: vs) : m.Link x e ∧ m.Link e y := by
  have h' : Between m head (as ++ [e] ++ bs) head := by
    rw [List.append_assoc, List.singleton_append]
    exact h
  have hx' : head :: (as ++ [e]) = us ++ [x] ++ [e] := by rw [← List.cons_append, hx]
  exact ⟨Between.link h hx rfl, h'.link hx' hy⟩

/-- **Taking an entry out of a ring.** Only it and its two neighbours are written. -/
theorem Ring.delZero {as bs : List α} {e : α} (h : Ring m head (as ++ e :: bs)) :
    ∃ prev next, m.Link prev e ∧ m.Link e next ∧ (prev = head ∨ prev ∈ as)
      ∧ (next = head ∨ next ∈ bs)
      ∧ listDelZero m e = .ok (zeroListHead (listDelBetween m prev next) e)
      ∧ Ring (zeroListHead (listDelBetween m prev next) e) head (as ++ bs) := by
  obtain ⟨us, x, hus⟩ := exists_concat head as
  obtain ⟨y, vs, hvs⟩ := exists_cons bs head
  obtain ⟨hxe, hey⟩ := h.neighbours hus hvs
  have hxm : x = head ∨ x ∈ as := by
    have hin : x ∈ head :: as := by rw [hus]; simp
    exact List.mem_cons.mp hin
  have hym : y = head ∨ y ∈ bs := by
    have hin : y ∈ bs ++ [head] := by rw [hvs]; simp
    simpa [or_comm] using hin
  have hsrc := h.src
  have hnot : e ≠ head ∧ e ∉ as ∧ e ∉ bs := by
    have hperm : (head :: (as ++ e :: bs)).Nodup := hsrc
    rw [List.nodup_cons, List.nodup_middle, List.nodup_cons] at hperm
    simp only [List.mem_append, List.mem_cons, not_or] at hperm
    exact ⟨fun he => hperm.1.2.1 he.symm, hperm.2.1.1, hperm.2.1.2⟩
  have hxe' : x ≠ e := by
    rintro rfl
    exact hxm.elim hnot.1 hnot.2.1
  have hye' : y ≠ e := by
    rintro rfl
    exact hym.elim hnot.1 hnot.2.2
  refine ⟨x, y, hxe, hey, hxm, hym, by simp [listDelZero, hxe.2, hey.1], ?_⟩
  have h' : Between m head (as ++ [e] ++ bs) head := by
    rw [List.append_assoc, List.singleton_append]
    exact h
  refine h'.remove hus hvs ⟨?_, ?_⟩ ?_ ?_
  · rw [delZero_next, if_neg hxe', if_pos rfl]
  · rw [delZero_prev, if_neg hye', if_pos rfl]
  · intro q hq hqx
    have hqe : q ≠ e := by
      rintro rfl
      simp only [List.mem_cons, List.mem_append] at hq
      exact hq.elim hnot.1 fun hq => hq.elim hnot.2.1 hnot.2.2
    rw [delZero_next, if_neg hqe, if_neg hqx]
  · intro q hq hqy
    have hqe : q ≠ e := by
      rintro rfl
      simp only [List.mem_append, List.mem_singleton] at hq
      exact hq.elim hnot.2.1 fun hq => hq.elim hnot.2.2 hnot.1
    rw [delZero_prev, if_neg hqe, if_neg hqy]

/-- A new entry at the end, and what is outside the ring is as it was. -/
theorem Ring.addTail_apart (h : Ring m head xs) (new : α) (hh : new ≠ head) (hx : new ∉ xs) :
    ∃ m', listAddTail m new head = .ok m' ∧ Ring m' head (xs ++ [new])
      ∧ ∀ q, q ≠ head → q ∉ xs → q ≠ new → m'.next q = m.next q ∧ m'.prev q = m.prev q := by
  obtain ⟨prev, -, hpm, hadd, hring⟩ := h.addTail new hh hx
  refine ⟨_, hadd, hring, fun q hqh hqx hqn => ?_⟩
  have hqp : q ≠ prev := by
    rintro rfl
    exact hpm.elim hqh hqx
  rw [listAddBetween_next, listAddBetween_prev, if_neg hqp, if_neg hqn, if_neg hqn, if_neg hqh]
  exact ⟨rfl, rfl⟩

/-- An entry taken out has null links, and what is outside the ring is as it was. -/
theorem Ring.delZero_apart {as bs : List α} {e : α} (h : Ring m head (as ++ e :: bs)) :
    ∃ m', listDelZero m e = .ok m' ∧ Ring m' head (as ++ bs)
      ∧ (m.next e ≠ none ∧ m.prev e ≠ none) ∧ (m'.next e = none ∧ m'.prev e = none)
      ∧ ∀ q, q ≠ head → q ∉ as ++ e :: bs → m'.next q = m.next q ∧ m'.prev q = m.prev q := by
  obtain ⟨prev, next, hpe, hen, hpm, hnm, hdel, hring⟩ := h.delZero
  refine ⟨_, hdel, hring, ⟨by rw [hen.1]; simp, by rw [hpe.2]; simp⟩, ⟨if_pos rfl, if_pos rfl⟩,
    fun q hqh hqx => ?_⟩
  simp only [List.mem_append, List.mem_cons, not_or] at hqx
  have hqp : q ≠ prev := by
    rintro rfl
    exact hpm.elim hqh hqx.1
  have hqn : q ≠ next := by
    rintro rfl
    exact hnm.elim hqh hqx.2.2
  rw [delZero_next, delZero_prev, if_neg hqx.2.1, if_neg hqx.2.1, if_neg hqp, if_neg hqn]
  exact ⟨rfl, rfl⟩

/-- A list head is linked to itself exactly when its ring is empty. -/
theorem Ring.empty_iff (h : Ring m head xs) : listEmpty m head = true ↔ xs = [] := by
  have hchain := h.chain
  cases xs with
  | nil =>
      rw [List.nil_append, List.isChain_pair] at hchain
      simp [listEmpty, hchain.1]
  | cons x xs =>
      rw [List.cons_append, List.isChain_cons_cons] at hchain
      have hne : x ≠ head := by
        rintro rfl
        exact (List.nodup_cons.mp h.src).1 (by simp)
      simp [listEmpty, hchain.1.1, hne]

end Ring

end Disc.Rings
