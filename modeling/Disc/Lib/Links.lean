import Mathlib.Data.List.Chain
import Mathlib.Data.List.Nodup

/-!
# Lists between sentinels

Intrusive doubly linked lists whose ends are cells of their own: the elements lie
between a cell `a` that is never taken out and a cell `b` that is not either. With
two different cells this is a list with a first and a last sentinel; with one cell
in both roles it is a ring around a list head.

`Between m a xs b` says that the links `m` spell `xs` in both directions. Every
operation on such a list rewrites the links around one stretch of it and leaves
the others alone, so there is one structural lemma, `Between.replace`; linking a
cell, unlinking one and cutting a front part off are its special cases.
-/

namespace Disc.Lib

variable {α : Type}

/-- The two link fields of every cell. -/
structure Links (α : Type) where
  next : α → Option α
  prev : α → Option α

namespace Links

section Update

variable [DecidableEq α]

/-- `x->next = v`. -/
def setNext (m : Links α) (x : α) (v : Option α) : Links α :=
  { m with next := fun y => if y = x then v else m.next y }

/-- `x->prev = v`. -/
def setPrev (m : Links α) (x : α) (v : Option α) : Links α :=
  { m with prev := fun y => if y = x then v else m.prev y }

@[simp] theorem setNext_next (m : Links α) (x y : α) (v : Option α) :
    (m.setNext x v).next y = if y = x then v else m.next y := rfl

@[simp] theorem setNext_prev (m : Links α) (x : α) (v : Option α) :
    (m.setNext x v).prev = m.prev := rfl

@[simp] theorem setPrev_prev (m : Links α) (x y : α) (v : Option α) :
    (m.setPrev x v).prev y = if y = x then v else m.prev y := rfl

@[simp] theorem setPrev_next (m : Links α) (x : α) (v : Option α) :
    (m.setPrev x v).next = m.next := rfl

end Update

/-- `y` is the cell after `x`, and `x` the cell before `y`. -/
def Link (m : Links α) (x y : α) : Prop := m.next x = some y ∧ m.prev y = some x

end Links

/-- The cells between `a` and `b` are `xs`, read in either direction, and no cell stands twice. -/
structure Between (m : Links α) (a : α) (xs : List α) (b : α) : Prop where
  chain : List.IsChain m.Link (a :: (xs ++ [b]))
  /-- The cells whose forward links are used. -/
  src : (a :: xs).Nodup
  /-- The cells whose backward links are used. -/
  tgt : (xs ++ [b]).Nodup

section Between

variable {m m' : Links α} {a b : α} {xs : List α}

/-- A stretch of linked cells only depends on the links inside it. -/
theorem isChain_link_congr {l : List α} (h : l.IsChain m.Link)
    (hn : ∀ x ∈ l.dropLast, m'.next x = m.next x) (hp : ∀ y ∈ l.tail, m'.prev y = m.prev y) :
    l.IsChain m'.Link := by
  induction l with
  | nil => exact .nil
  | cons x l ih =>
      cases l with
      | nil => exact .singleton x
      | cons y l =>
          rw [List.isChain_cons_cons] at h ⊢
          refine ⟨⟨?_, ?_⟩, ih h.2 ?_ ?_⟩
          · rw [hn x (by simp)]; exact h.1.1
          · rw [hp y (by simp)]; exact h.1.2
          · exact fun z hz => hn z (List.mem_cons_of_mem _ hz)
          · exact fun z hz => hp z (List.mem_cons_of_mem _ hz)

/-- A list only depends on the links of its own cells. -/
theorem Between.congr (h : Between m a xs b) (hn : ∀ q ∈ a :: xs, m'.next q = m.next q)
    (hp : ∀ q ∈ xs ++ [b], m'.prev q = m.prev q) : Between m' a xs b := by
  refine ⟨isChain_link_congr h.chain (fun q hq => hn q ?_) (fun q hq => hp q hq), h.src, h.tgt⟩
  rwa [← List.cons_append, List.dropLast_concat] at hq

/--
**Rewriting one stretch of a list.**

`x` is the cell before the stretch and `y` the cell behind it. If the new stretch is linked up
between these two, and no link outside changes, the list has the new stretch in place of the old.
-/
theorem Between.replace {as ms bs us vs : List α} {x y : α}
    (h : Between m a (as ++ ms ++ bs) b) (ns : List α) (hx : a :: as = us ++ [x]) (hy : bs ++ [b] = y :: vs)
    (hmid : List.IsChain m'.Link (x :: (ns ++ [y])))
    (hn : ∀ q ∈ a :: (as ++ bs), q ≠ x → m'.next q = m.next q)
    (hp : ∀ q ∈ as ++ (bs ++ [b]), q ≠ y → m'.prev q = m.prev q)
    (hsrc : (a :: (as ++ ns ++ bs)).Nodup) (htgt : (as ++ ns ++ bs ++ [b]).Nodup) :
    Between m' a (as ++ ns ++ bs) b := by
  refine ⟨?_, hsrc, htgt⟩
  have hold : a :: (as ++ ms ++ bs ++ [b]) = us ++ [x] ++ (ms ++ y :: vs) := by
    rw [← hx, ← hy]; simp
  have hnew : a :: (as ++ ns ++ bs ++ [b]) = us ++ [x] ++ (ns ++ y :: vs) := by
    rw [← hx, ← hy]; simp
  have hchain := h.chain
  rw [hold] at hchain
  have hleft : (us ++ [x]).IsChain m.Link := hchain.left_of_append
  have hright : (y :: vs).IsChain m.Link :=
    hchain.right_of_append.suffix (List.suffix_append ms (y :: vs))
  have hmems : ∀ q, q ∈ us ++ [x] ↔ q = a ∨ q ∈ as := by
    intro q
    rw [← hx, List.mem_cons]
  have hmemt : ∀ q, q ∈ y :: vs ↔ q ∈ bs ∨ q = b := by
    intro q
    rw [← hy]; simp
  -- the front part: its forward links start before `x`, its backward links end before `y`
  have hsrc' := h.src
  have htgt' := h.tgt
  rw [show a :: (as ++ ms ++ bs) = us ++ [x] ++ (ms ++ bs) by rw [← hx]; simp] at hsrc'
  rw [List.append_assoc, List.append_assoc, hy] at htgt'
  have hcuts := List.nodup_append.mp hsrc'
  have hcutt := List.nodup_append.mp htgt'
  have hfront : (us ++ [x]).IsChain m'.Link := by
    refine isChain_link_congr hleft (fun q hq => ?_) (fun q hq => ?_)
    · rw [List.dropLast_concat] at hq
      have hqx : q ≠ x := (List.nodup_append.mp hcuts.1).2.2 q hq x (by simp)
      have hqa := (hmems q).mp (List.mem_append_left _ hq)
      exact hn q (by simpa [or_assoc] using Or.imp_right Or.inl hqa) hqx
    · have hqas : q ∈ as := by rw [← hx] at hq; simpa using hq
      have hqy : q ≠ y := hcutt.2.2 q hqas y (by simp)
      exact hp q (List.mem_append_left _ hqas) hqy
  have hback : (y :: vs).IsChain m'.Link := by
    refine isChain_link_congr hright (fun q hq => ?_) (fun q hq => ?_)
    · have hqbs : q ∈ bs := by rw [← hy, List.dropLast_concat] at hq; exact hq
      have hqx : q ≠ x := (hcuts.2.2 x (by simp) q (List.mem_append_right _ hqbs)).symm
      exact hn q (by simp [hqbs]) hqx
    · have hqvs : q ∈ vs := hq
      have hnd := (List.nodup_append.mp hcutt.2.1).2.1
      have hqy : q ≠ y := fun he => (List.nodup_cons.mp hnd).1 (he ▸ hqvs)
      have hqb := (hmemt q).mp (List.mem_cons_of_mem _ hqvs)
      exact hp q (by simpa using Or.inr hqb) hqy
  rw [hnew, List.append_assoc, List.singleton_append, List.isChain_split]
  refine ⟨hfront, ?_⟩
  rw [← List.cons_append, List.isChain_split]
  exact ⟨hmid, hback⟩

/-- The links of the cell after `as`, and of the one it leads to. -/
theorem Between.link {as bs us vs : List α} {x y : α} (h : Between m a (as ++ bs) b)
    (hx : a :: as = us ++ [x]) (hy : bs ++ [b] = y :: vs) : m.Link x y := by
  have hchain := h.chain
  have heq : a :: (as ++ bs ++ [b]) = us ++ x :: y :: vs := by
    rw [List.append_assoc, ← List.cons_append, hx, hy]; simp
  rw [heq, List.isChain_append_cons_cons] at hchain
  exact hchain.2.1

/-- Link a fresh cell between `as` and `bs`. -/
theorem Between.insert {as bs us vs : List α} {x y p : α} (h : Between m a (as ++ bs) b)
    (hx : a :: as = us ++ [x]) (hy : bs ++ [b] = y :: vs) (hfa : p ≠ a) (hfb : p ≠ b)
    (hf : p ∉ as ++ bs) (hxp : m'.Link x p) (hpy : m'.Link p y)
    (hn : ∀ q ∈ a :: (as ++ bs), q ≠ x → m'.next q = m.next q)
    (hp : ∀ q ∈ as ++ (bs ++ [b]), q ≠ y → m'.prev q = m.prev q) :
    Between m' a (as ++ p :: bs) b := by
  have hmid : List.IsChain m'.Link (x :: ([p] ++ [y])) := by
    simpa using ⟨hxp, hpy⟩
  have hold : Between m a (as ++ [] ++ bs) b := by rwa [List.append_nil]
  have hsrc := h.src
  have htgt := h.tgt
  have hres := hold.replace [p] hx hy hmid hn hp ?_ ?_
  · simpa using hres
  · simp only [List.nodup_cons, List.nodup_append, List.mem_append, List.mem_singleton] at hsrc hf ⊢
    grind
  · simp only [List.nodup_cons, List.nodup_append, List.mem_append, List.mem_singleton] at htgt hf ⊢
    grind

/-- Take the cells `ms` out. -/
theorem Between.remove {as ms bs us vs : List α} {x y : α} (h : Between m a (as ++ ms ++ bs) b)
    (hx : a :: as = us ++ [x]) (hy : bs ++ [b] = y :: vs) (hxy : m'.Link x y)
    (hn : ∀ q ∈ a :: (as ++ bs), q ≠ x → m'.next q = m.next q)
    (hp : ∀ q ∈ as ++ (bs ++ [b]), q ≠ y → m'.prev q = m.prev q) :
    Between m' a (as ++ bs) b := by
  have hsub : (as ++ bs).Sublist (as ++ ms ++ bs) := by
    rw [List.append_assoc]
    exact (List.sublist_append_right ms bs).append_left as
  have hres := h.replace [] hx hy (by simpa using hxy) hn hp ?_ ?_
  · simpa using hres
  · simpa using h.src.sublist (hsub.cons_cons a)
  · simpa using h.tgt.sublist (hsub.append_right [b])

/-- Every list has a cell to its left, and one to its right. -/
theorem exists_concat (a : α) (as : List α) : ∃ us x, a :: as = us ++ [x] :=
  ⟨_, _, (List.dropLast_append_getLast (List.cons_ne_nil a as)).symm⟩

theorem exists_cons (bs : List α) (b : α) : ∃ y vs, bs ++ [b] = y :: vs :=
  List.exists_cons_of_ne_nil (by simp)

end Between

/-! ## Reading a list -/

/-- Following `nxt` from `p` visits `xs` and ends with a null pointer. -/
def Trail (nxt : α → Option α) : Option α → List α → Prop
  | p, [] => p = none
  | p, x :: xs => p = some x ∧ Trail nxt (nxt x) xs

/-- The cells met from `p` on, up to `stop` or for `fuel` steps. -/
def upTo [DecidableEq α] (nxt : α → Option α) (stop : α) : Nat → Option α → List α
  | _, none => []
  | 0, some _ => []
  | fuel + 1, some x => if x = stop then [] else x :: upTo nxt stop fuel (nxt x)

section Reading

variable {m m' : Links α} {a b : α} {xs : List α}

/-- Reading a list from its first cell on gives its elements. -/
theorem Between.upTo_eq [DecidableEq α] (h : Between m a xs b) {fuel : Nat}
    (hf : xs.length < fuel) : upTo m.next b fuel (m.next a) = xs := by
  have hchain := h.chain
  have htgt := h.tgt
  clear h
  induction xs generalizing a fuel with
  | nil =>
      rw [List.nil_append, List.isChain_pair] at hchain
      obtain ⟨fuel, rfl⟩ := Nat.exists_eq_succ_of_ne_zero (Nat.ne_of_gt (Nat.zero_lt_of_lt hf))
      rw [hchain.1, upTo, if_pos rfl]
  | cons x xs ih =>
      rw [List.cons_append, List.isChain_cons_cons] at hchain
      rw [List.cons_append, List.nodup_cons] at htgt
      obtain ⟨fuel, rfl⟩ := Nat.exists_eq_succ_of_ne_zero (Nat.ne_of_gt (Nat.zero_lt_of_lt hf))
      have hxb : x ≠ b := fun he => htgt.1 (by simp [he])
      rw [hchain.1.1, upTo, if_neg hxb, ih (by simpa using hf) hchain.2 htgt.2]

/-- The front part of a list, cut off behind `x`, is a null-terminated chain. -/
theorem trail_of_isChain {as : List α} {x : α} (h : List.IsChain m.Link (a :: (as ++ [x])))
    (hn : ∀ q ∈ as, m'.next q = m.next q) (hx : m'.next x = none) :
    Trail m'.next (m.next a) (as ++ [x]) := by
  induction as generalizing a with
  | nil =>
      rw [List.nil_append, List.isChain_pair] at h
      exact ⟨h.1, hx⟩
  | cons y as ih =>
      rw [List.cons_append, List.isChain_cons_cons] at h
      refine ⟨h.1.1, ?_⟩
      rw [hn y (by simp)]
      exact ih h.2 (fun q hq => hn q (by simp [hq]))

end Reading

end Disc.Lib
