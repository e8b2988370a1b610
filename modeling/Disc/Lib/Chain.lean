import Mathlib.Data.List.Induction
import Mathlib.Data.List.Nodup
import Mathlib.Data.List.Perm.Subperm

/-!
# Doubly linked chains

A chain of cells linked through two pointer fields, as seen from the outside:
`nxt` and `prv` say where each cell points, `hd` and `tl` are the two end
pointers, and `DList nxt prv hd tl xs` says that following `nxt` from `hd` visits
exactly `xs` and following `prv` from `tl` visits exactly `xs` backwards.

The chain knows nothing of what the cells hold, so it serves any record with two
link fields. The structural lemmas are `DList.splice`, linking a fresh cell between
a front part and a back part, and `DList.unlink`, taking the cell between two parts
out. Insertion at either end and after a given cell, and removal at either end and
in the middle, are their special cases.
-/

namespace Disc.Lib

/-- Following `nxt` from `a` visits exactly `xs` and arrives at `b`. -/
def Seg (nxt : Nat → Option Nat) : Option Nat → List Nat → Option Nat → Prop
  | a, [], b => a = b
  | a, x :: xs, b => a = some x ∧ Seg nxt (nxt x) xs b

/-- Both traversals of a null-terminated chain, and no cell visited twice. -/
structure DList (nxt prv : Nat → Option Nat) (hd tl : Option Nat) (xs : List Nat) : Prop where
  /-- No cell occurs twice. -/
  nodup : xs.Nodup
  /-- The forward traversal. -/
  fwd : Seg nxt hd xs none
  /-- The backward traversal. -/
  bwd : Seg prv tl xs.reverse none

variable {nxt nxt' prv prv' : Nat → Option Nat}

theorem seg_append {a b : Option Nat} {xs ys : List Nat} :
    Seg nxt a (xs ++ ys) b ↔ ∃ m, Seg nxt a xs m ∧ Seg nxt m ys b := by
  induction xs generalizing a with
  | nil => simp [Seg]
  | cons x xs ih =>
      simp only [List.cons_append, Seg, ih]
      constructor
      · rintro ⟨h1, m, h2, h3⟩
        exact ⟨m, ⟨h1, h2⟩, h3⟩
      · rintro ⟨m, ⟨h1, h2⟩, h3⟩
        exact ⟨h1, m, h2, h3⟩

/-- A segment only depends on the cells it visits. -/
theorem Seg.congr {a b : Option Nat} {xs : List Nat} (h : Seg nxt a xs b)
    (hq : ∀ q ∈ xs, nxt' q = nxt q) : Seg nxt' a xs b := by
  induction xs generalizing a with
  | nil => exact h
  | cons x xs ih =>
      refine ⟨h.1, ?_⟩
      rw [hq x (by simp)]
      exact ih h.2 (fun q hm => hq q (by simp [hm]))

theorem Seg.head {a : Option Nat} {xs : List Nat} (h : Seg nxt a xs none) : a = xs.head? := by
  cases xs with
  | nil => exact h
  | cons x xs => exact h.1

/-- The links of a chain lead nowhere else. -/
theorem Seg.closed {a : Option Nat} {xs : List Nat} (h : Seg nxt a xs none) {x y : Nat}
    (hx : x ∈ xs) (hy : nxt x = some y) : y ∈ xs := by
  induction xs generalizing a with
  | nil => simp at hx
  | cons z xs ih =>
      rcases List.mem_cons.mp hx with rfl | hx
      · have hhd := h.2.head
        rw [hy] at hhd
        exact List.mem_cons_of_mem _ (List.mem_of_mem_head? hhd.symm)
      · exact List.mem_cons_of_mem _ (ih h.2 hx)

/-- A chain can be entered at any of its cells. -/
theorem Seg.enter {a : Option Nat} {xs : List Nat} (h : Seg nxt a xs none) {s : Nat}
    (hs : s ∈ xs) : Seg nxt (some s) (xs.dropWhile (· ≠ s)) none := by
  induction xs generalizing a with
  | nil => simp at hs
  | cons x xs ih =>
      by_cases hx : x = s
      · subst hx
        rw [List.dropWhile_cons_of_neg (by simp)]
        exact ⟨rfl, h.2⟩
      · rw [List.dropWhile_cons_of_pos (by simpa using hx)]
        exact ih h.2 ((List.mem_cons.mp hs).resolve_left (Ne.symm hx))

/-- Cells that all point at one of them lead to no end. -/
theorem not_seg_of_closed {ids : List Nat} (hc : ∀ x ∈ ids, ∃ y ∈ ids, nxt x = some y) {x : Nat}
    (hx : x ∈ ids) (xs : List Nat) : ¬ Seg nxt (some x) xs none := by
  induction xs generalizing x with
  | nil => exact fun h => absurd h (by simp [Seg])
  | cons z xs ih =>
      rintro ⟨hz, hrest⟩
      obtain rfl := Option.some.inj hz
      obtain ⟨y, hy, hnx⟩ := hc x hx
      rw [hnx] at hrest
      exact ih hy hrest

/-- Two chains from one start agree as far as their links do. -/
theorem Seg.mem_of_agree {a : Option Nat} {as bs ids : List Nat} {p : Nat}
    (h : Seg nxt a (as ++ p :: bs) none) (h' : Seg nxt' a ids none)
    (hq : ∀ q ∈ as, nxt' q = nxt q) : p ∈ ids := by
  induction as generalizing a ids with
  | nil =>
      obtain ⟨rfl, -⟩ := h
      cases ids with
      | nil => exact absurd h' (by simp [Seg])
      | cons x ids => exact List.mem_cons.mpr (Or.inl (Option.some.inj h'.1))
  | cons x as ih =>
      obtain ⟨rfl, hrest⟩ := h
      cases ids with
      | nil => exact absurd h' (by simp [Seg])
      | cons y ids =>
          obtain ⟨hxy, hrest'⟩ := h'
          obtain rfl := Option.some.inj hxy
          rw [hq x (by simp)] at hrest'
          exact List.mem_cons_of_mem _ (ih hrest hrest' fun q hm => hq q (by simp [hm]))

/-- Forward half of splicing a fresh cell between `as` and `bs`. -/
theorem Seg.splice {hd hd' : Option Nat} {as bs : List Nat} {p : Nat}
    (h : Seg nxt hd (as ++ bs) none) (hnd : (as ++ bs).Nodup)
    (hn : nxt' p = bs.head?)
    (hl : ∀ l ∈ as.getLast?, nxt' l = some p)
    (hx : ∀ q ∈ as ++ bs, q ∉ as.getLast? → nxt' q = nxt q)
    (hhd : hd' = if as = [] then some p else hd) :
    Seg nxt' hd' (as ++ p :: bs) none := by
  obtain ⟨m, h1, h2⟩ := seg_append.mp h
  have hm : m = bs.head? := h2.head
  cases as using List.reverseRecOn with
  | nil =>
      simp only [if_true] at hhd
      subst hhd
      refine ⟨rfl, ?_⟩
      rw [hn, ← hm]
      exact h2.congr (fun q hq => hx q (by simpa using hq) (by simp))
  | append_singleton as l =>
      have hne : as ++ [l] ≠ [] := by simp
      rw [if_neg hne] at hhd
      subst hhd
      have hlast : (as ++ [l]).getLast? = some l := by simp
      rw [hlast] at hl hx
      -- `l` is the only cell of the front part whose link changes
      have hdis : ∀ q, q ∈ as ∨ q ∈ bs → q ≠ l := by
        intro q hq he
        subst he
        have hcut := List.nodup_append.mp hnd
        rcases hq with hq | hq
        · exact (List.nodup_append.mp hcut.1).2.2 q hq q (by simp) rfl
        · exact hcut.2.2 q (by simp) q hq rfl
      obtain ⟨k, h3, h4⟩ := seg_append.mp h1
      refine seg_append.mpr ⟨some p, seg_append.mpr ⟨k, ?_, h4.1, hl l (by simp)⟩, rfl, ?_⟩
      · refine h3.congr (fun q hq => hx q (by simp [hq]) ?_)
        simpa using (hdis q (Or.inl hq)).symm
      · rw [hn, ← hm]
        refine h2.congr (fun q hq => hx q (by simp [hq]) ?_)
        simpa using (hdis q (Or.inr hq)).symm

theorem DList.symm {hd tl : Option Nat} {xs : List Nat} (h : DList nxt prv hd tl xs) :
    DList prv nxt tl hd xs.reverse where
  nodup := List.nodup_reverse.mpr h.nodup
  fwd := h.bwd
  bwd := by rw [List.reverse_reverse]; exact h.fwd

/--
**Linking a fresh cell between two parts of a chain.**

The new cell points to its neighbours, its neighbours (or the end pointers, when
it has none on that side) point back to it, and no other link changes.
-/
theorem DList.splice {hd tl hd' tl' : Option Nat} {as bs : List Nat} {p : Nat}
    (h : DList nxt prv hd tl (as ++ bs)) (hp : p ∉ as ++ bs)
    (hn : nxt' p = bs.head?) (hv : prv' p = as.getLast?)
    (hnl : ∀ l ∈ as.getLast?, nxt' l = some p)
    (hnx : ∀ q ∈ as ++ bs, q ∉ as.getLast? → nxt' q = nxt q)
    (hvr : ∀ r ∈ bs.head?, prv' r = some p)
    (hvx : ∀ q ∈ as ++ bs, q ∉ bs.head? → prv' q = prv q)
    (hhd : hd' = if as = [] then some p else hd)
    (htl : tl' = if bs = [] then some p else tl) :
    DList nxt' prv' hd' tl' (as ++ p :: bs) where
  nodup := by
    have := h.nodup
    simp only [List.nodup_append, List.nodup_cons, List.mem_cons, List.mem_append] at this hp ⊢
    refine ⟨this.1, ⟨fun hm => hp (Or.inr hm), this.2.1⟩, ?_⟩
    rintro a ha b (rfl | hb)
    · exact fun he => hp (Or.inl (he ▸ ha))
    · exact this.2.2 a ha b hb
  fwd := h.fwd.splice h.nodup hn hnl hnx hhd
  bwd := by
    -- the list read from its tail is a chain too, and `p` goes between the reversed halves of it
    have hr := h.symm
    rw [List.reverse_append] at hr
    have hs : Seg prv' tl' (bs.reverse ++ p :: as.reverse) none := by
      refine hr.fwd.splice hr.nodup ?_ ?_ ?_ ?_
      · rw [hv, List.head?_reverse]
      · rw [List.getLast?_reverse]; exact hvr
      · rw [List.getLast?_reverse]
        exact fun q hq => hvx q (by simpa [or_comm] using hq)
      · rw [htl]; simp
    simpa using hs

/-- Forward half of taking `p` out from between `as` and `bs`. -/
theorem Seg.unlink {hd hd' : Option Nat} {as bs : List Nat} {p : Nat}
    (h : Seg nxt hd (as ++ p :: bs) none) (hnd : (as ++ p :: bs).Nodup)
    (hl : ∀ l ∈ as.getLast?, nxt' l = bs.head?)
    (hx : ∀ q ∈ as ++ bs, q ∉ as.getLast? → nxt' q = nxt q)
    (hhd : hd' = if as = [] then bs.head? else hd) :
    Seg nxt' hd' (as ++ bs) none := by
  obtain ⟨m, h1, -, h2⟩ := seg_append.mp h
  have hm : nxt p = bs.head? := h2.head
  have hcut := List.nodup_append.mp hnd
  cases as using List.reverseRecOn with
  | nil =>
      simp only [if_true] at hhd
      rw [hhd, ← hm]
      exact h2.congr (fun q hq => hx q (by simpa using hq) (by simp))
  | append_singleton as l =>
      rw [if_neg (by simp)] at hhd
      subst hhd
      have hlast : (as ++ [l]).getLast? = some l := by simp
      rw [hlast] at hl hx
      obtain ⟨k, h3, h4, -⟩ := seg_append.mp h1
      refine seg_append.mpr ⟨bs.head?, seg_append.mpr ⟨k, ?_, h4, hl l (by simp)⟩, ?_⟩
      · refine h3.congr (fun q hq => hx q (by simp [hq]) fun hql => ?_)
        obtain rfl : l = q := by simpa using hql
        exact (List.nodup_append.mp hcut.1).2.2 l hq l (by simp) rfl
      · rw [← hm]
        refine h2.congr (fun q hq => hx q (by simp [hq]) fun hql => ?_)
        obtain rfl : l = q := by simpa using hql
        exact hcut.2.2 l (by simp) l (by simp [hq]) rfl

/--
**Taking a cell out of a chain.**

Its neighbours (or the end pointers, when it has none on that side) point past it,
and no other link of the remaining cells changes.
-/
theorem DList.unlink {hd tl hd' tl' : Option Nat} {as bs : List Nat} {p : Nat}
    (h : DList nxt prv hd tl (as ++ p :: bs))
    (hnl : ∀ l ∈ as.getLast?, nxt' l = bs.head?)
    (hnx : ∀ q ∈ as ++ bs, q ∉ as.getLast? → nxt' q = nxt q)
    (hvr : ∀ r ∈ bs.head?, prv' r = as.getLast?)
    (hvx : ∀ q ∈ as ++ bs, q ∉ bs.head? → prv' q = prv q)
    (hhd : hd' = if as = [] then bs.head? else hd)
    (htl : tl' = if bs = [] then as.getLast? else tl) :
    DList nxt' prv' hd' tl' (as ++ bs) where
  nodup := h.nodup.sublist ((List.sublist_cons_self p bs).append_left as)
  fwd := h.fwd.unlink h.nodup hnl hnx hhd
  bwd := by
    -- read from the tail, the neighbours of `p` have changed sides
    have hr := h.symm
    rw [List.reverse_append, List.reverse_cons, List.append_assoc, List.singleton_append] at hr
    rw [List.reverse_append]
    refine hr.fwd.unlink hr.nodup ?_ ?_ ?_
    · rw [List.getLast?_reverse, List.head?_reverse]; exact hvr
    · rw [List.getLast?_reverse]
      exact fun q hq => hvx q (by simpa [or_comm] using hq)
    · rw [htl, List.head?_reverse]; simp

/-- The cell before `p` and the cell behind it are what its two links say. -/
theorem DList.neighbours {hd tl : Option Nat} {as bs : List Nat} {p : Nat}
    (h : DList nxt prv hd tl (as ++ p :: bs)) :
    nxt p = bs.head? ∧ prv p = as.getLast? := by
  obtain ⟨m, -, -, h2⟩ := seg_append.mp h.fwd
  have hb := h.bwd
  rw [List.reverse_append, List.reverse_cons, List.append_assoc, List.singleton_append] at hb
  obtain ⟨k, -, -, h3⟩ := seg_append.mp hb
  refine ⟨h2.head, ?_⟩
  rw [h3.head, List.head?_reverse]

/-! ## Walking a chain -/

/-- The cells met from `a` on, or nothing when the walk takes more than `fuel` steps. -/
def walk (nxt : Nat → Option Nat) : Nat → Option Nat → Option (List Nat)
  | _, none => some []
  | 0, some _ => none
  | fuel + 1, some x => (walk nxt fuel (nxt x)).map (x :: ·)

/-- Look for `pos` from `a` on; nothing when the search takes more than `fuel` steps. -/
def seek (nxt : Nat → Option Nat) : Nat → Option Nat → Nat → Option Bool
  | _, none, _ => some false
  | 0, some _, _ => none
  | fuel + 1, some x, pos => if x = pos then some true else seek nxt fuel (nxt x) pos

theorem Seg.walk_eq {a : Option Nat} {xs : List Nat} (h : Seg nxt a xs none) {fuel : Nat}
    (hf : xs.length ≤ fuel) : walk nxt fuel a = some xs := by
  induction xs generalizing a fuel with
  | nil =>
      obtain rfl : a = none := h
      cases fuel <;> rfl
  | cons x xs ih =>
      obtain ⟨rfl, h2⟩ := h
      cases fuel with
      | zero => simp at hf
      | succ fuel =>
          rw [walk, ih h2 (by simpa using hf)]
          rfl

theorem Seg.seek_eq {a : Option Nat} {xs : List Nat} (h : Seg nxt a xs none) {fuel : Nat}
    (hf : xs.length ≤ fuel) (pos : Nat) : seek nxt fuel a pos = some (decide (pos ∈ xs)) := by
  induction xs generalizing a fuel with
  | nil =>
      obtain rfl : a = none := h
      cases fuel <;> simp [seek]
  | cons x xs ih =>
      obtain ⟨rfl, h2⟩ := h
      cases fuel with
      -- a step too few only if the chain is shorter than it is
      | zero => simp at hf
      | succ fuel =>
          rw [seek]
          split
          · rename_i he
            simp [he]
          · rename_i hne
            rw [ih h2 (by simpa using hf)]
            simp [Ne.symm hne]

/-- Distinct cells below `n` are no more than `n`. -/
theorem length_le_of_nodup {xs : List Nat} (hnd : xs.Nodup) {n : Nat} (hb : ∀ x ∈ xs, x < n) :
    xs.length ≤ n := by
  have hsub : xs ⊆ List.range n := fun x hx => List.mem_range.mpr (hb x hx)
  have hle := (List.subperm_of_subset hnd hsub).length_le
  simpa using hle

theorem DList.length_le {hd tl : Option Nat} {xs : List Nat} (h : DList nxt prv hd tl xs)
    {n : Nat} (hb : ∀ x ∈ xs, x < n) : xs.length ≤ n :=
  length_le_of_nodup h.nodup hb

end Disc.Lib
