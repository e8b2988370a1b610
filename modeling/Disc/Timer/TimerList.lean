import Mathlib.Data.List.TakeWhile
import Disc.Lib.Chain
import Disc.Lib.Links
import Disc.Lib.Memory
import Disc.Lib.Run

/-!
# Timer lists

The lists of `timer.c`. A timer list is two sentinels with the armed links between
them, ordered by deadline; a link names the list it is in, and a link that names no
list is free to be put into one. Links are appended when their deadline is known to
be the latest, inserted at their place when it is not, and taken out by whoever
armed them or, a whole front part at a time, when their deadline has passed.

`Wired m c` is the invariant of the links: those of every list `l` spell `c l` in
both directions, and the list a link names is the one it is in. One lemma for each
of the four operations says what it does to `c`. `Lists m c` adds the order, which
is kept as long as nothing is appended too early.
-/

namespace Disc.Timer

open Disc.Lib

/-- A `struct timer_link`: a sentinel of a timer list, or the link of a peer or a session. -/
inductive Ptr (L : Type) where
  | first (l : L)
  | last (l : L)
  | link (i : Nat)
deriving Repr, DecidableEq

/-- The memory the timer lists live in. The payload of a link is never looked at by them. -/
structure Mem (L : Type) where
  links : Links (Ptr L)
  timeout : Ptr L → UInt32
  timerList : Ptr L → Option L
  /-- The number of links there are besides the sentinels. -/
  size : Nat

variable {L : Type}

section Operations

variable [DecidableEq L]

namespace Mem

/-- `tl->next_tl = v`. -/
def setNext (m : Mem L) (p : Ptr L) (v : Option (Ptr L)) : Mem L :=
  { m with links := m.links.setNext p v }

/-- `tl->prev_tl = v`. -/
def setPrev (m : Mem L) (p : Ptr L) (v : Option (Ptr L)) : Mem L :=
  { m with links := m.links.setPrev p v }

/-- `tl->timeout = t`. -/
def setTimeout (m : Mem L) (p : Ptr L) (t : UInt32) : Mem L :=
  { m with timeout := Function.update m.timeout p t }

/-- `tl->timer_list = v`. -/
def setTimerList (m : Mem L) (p : Ptr L) (v : Option L) : Mem L :=
  { m with timerList := Function.update m.timerList p v }

/-- The memory right after `new_timer_list` made each of the lists, and nothing is armed. -/
def fresh (n : Nat) : Mem L where
  links :=
    { next := fun p => match p with
        | .first l => some (.last l)
        | _ => none
      prev := fun p => match p with
        | .last l => some (.first l)
        | _ => none }
  timeout := fun p => match p with
    | .last _ => 0xFFFFFFFF
    | _ => 0
  timerList := fun _ => none
  size := n

/-- The links of a list, from its first sentinel on. -/
def contents (m : Mem L) (l : L) : List Nat :=
  (upTo m.links.next (.last l) (m.size + 1) (m.links.next (.first l))).filterMap fun p =>
    match p with
    | .link i => some i
    | _ => none

end Mem

/-! ## The operations -/

/-- `add_to_timer_list`: the link goes to the end of the list. -/
def addToTimerList (m : Mem L) (tl : Nat) (l : L) (timeout : UInt32) : Res (Int × Mem L) :=
  if (m.timerList (.link tl)).isSome then .ok (-1, m)
  else do
    let m := m.setTimeout (.link tl) timeout
    let m := m.setPrev (.link tl) (m.links.prev (.last l))
    let m := m.setNext (.link tl) (some (.last l))
    let m := m.setPrev (.last l) (some (.link tl))
    let p ← Res.ofAccess (m.links.prev (.link tl))
    let m := m.setNext p (some (.link tl))
    .ok (1, m.setTimerList (.link tl) (some l))

/-- The loop of `insert_into_timer_list`: the first link whose deadline is not before `timeout`. -/
def position (m : Mem L) (l : L) (timeout : UInt32) : Nat → Option (Ptr L) → Res (Ptr L)
  | _, none => .fault
  | 0, some p => if p ≠ .last l ∧ m.timeout p < timeout then .diverge else .ok p
  | fuel + 1, some p =>
      if p ≠ .last l ∧ m.timeout p < timeout then position m l timeout fuel (m.links.next p)
      else .ok p

/-- `insert_into_timer_list`: the link goes before the first one that is due no earlier. -/
def insertIntoTimerList (m : Mem L) (tl : Nat) (l : L) (timeout : UInt32) : Res (Int × Mem L) :=
  if (m.timerList (.link tl)).isSome then .ok (-1, m)
  else do
    let m := m.setTimeout (.link tl) timeout
    let tlink ← position m l timeout m.size (m.links.next (.first l))
    let m := m.setNext (.link tl) (some tlink)
    let m := m.setPrev (.link tl) (m.links.prev tlink)
    let p ← Res.ofAccess (m.links.prev tlink)
    let m := m.setNext p (some (.link tl))
    let m := m.setPrev tlink (some (.link tl))
    .ok (1, m.setTimerList (.link tl) (some l))

/-- `rmv_from_timer_list`: take the link out, if this is the list it is in. -/
def rmvFromTimerList (m : Mem L) (tl : Nat) (l : L) : Res (Int × Mem L) :=
  if m.timerList (.link tl) = some l then do
    let p ← Res.ofAccess (m.links.prev (.link tl))
    let m := m.setNext p (m.links.next (.link tl))
    let n ← Res.ofAccess (m.links.next (.link tl))
    let m := m.setPrev n (m.links.prev (.link tl))
    let m := (m.setNext (.link tl) none).setPrev (.link tl) none
    .ok (1, m.setTimerList (.link tl) none)
  else .ok (-1, m)

/-- The check `get_expired_from_timer_list` makes before it takes the lock: is there anything? -/
def worthLocking (m : Mem L) (l : L) (time : UInt32) : Res Bool := do
  let p ← Res.ofAccess (m.links.next (.first l))
  .ok !(p = .last l || m.timeout p > time)

/-- The loop of `get_expired_from_timer_list`: free the links that are due. -/
def freeDue (l : L) (time : UInt32) : Nat → Mem L → Option (Ptr L) → Res (Mem L × Ptr L)
  | _, _, none => .fault
  | 0, m, some p => if p ≠ .last l ∧ m.timeout p ≤ time then .diverge else .ok (m, p)
  | fuel + 1, m, some p =>
      if p ≠ .last l ∧ m.timeout p ≤ time then
        freeDue l time fuel (m.setTimerList p none) (m.links.next p)
      else .ok (m, p)

/-- The part of `get_expired_from_timer_list` under the lock: cut the links that are due off. -/
def detachExpired (m : Mem L) (l : L) (time : UInt32) : Res (Option (Ptr L) × Mem L) := do
  let (m, tl) ← freeDue l time m.size m (m.links.next (.first l))
  let p ← Res.ofAccess (m.links.prev tl)
  if p = .first l then .ok (none, m)
  else
    let ret := m.links.next (.first l)
    let m := m.setNext p none
    let m := m.setNext (.first l) (some tl)
    .ok (ret, m.setPrev tl (some (.first l)))

/-- `get_expired_from_timer_list`. -/
def getExpiredFromTimerList (m : Mem L) (l : L) (time : UInt32) :
    Res (Option (Ptr L) × Mem L) := do
  if ← worthLocking m l time then detachExpired m l time
  else .ok (none, m)

end Operations

/-! ## The invariant -/

/-- Timer list `l` holds the links `c l`, in whatever order. -/
structure Wired (m : Mem L) (c : L → List Nat) : Prop where
  linked : ∀ l, Between m.links (.first l) ((c l).map .link) (.last l)
  field : ∀ i l, m.timerList (.link i) = some l ↔ i ∈ c l
  bound : ∀ l, ∀ i ∈ c l, i < m.size

/-- Timer list `l` holds the links `c l`, in the order of their deadlines. -/
structure Lists (m : Mem L) (c : L → List Nat) : Prop extends Wired m c where
  sorted : ∀ l, (c l).Pairwise fun i j => m.timeout (.link i) ≤ m.timeout (.link j)

/-- The list a cell belongs to. -/
def Mem.home (m : Mem L) : Ptr L → Option L
  | .first l => some l
  | .last l => some l
  | .link i => m.timerList (.link i)

section Lists

variable {m m' : Mem L} {c : L → List Nat}

theorem Wired.nodup (h : Wired m c) (l : L) : (c l).Nodup :=
  ((List.nodup_append.mp (h.linked l).tgt).1).of_map

theorem Wired.length_le (h : Wired m c) (l : L) : (c l).length ≤ m.size :=
  length_le_of_nodup (h.nodup l) (h.bound l)

/-- The contents of a list are what reading it gives. -/
theorem Wired.contents_eq [DecidableEq L] (h : Wired m c) : m.contents = c := by
  funext l
  have hlen : ((c l).map (Ptr.link : Nat → Ptr L)).length < m.size + 1 := by
    rw [List.length_map]
    exact Nat.lt_succ_of_le (h.length_le l)
  rw [Mem.contents, (h.linked l).upTo_eq hlen, List.filterMap_map]
  exact List.filterMap_some

theorem Wired.home_of_mem (h : Wired m c) {l : L} {p : Ptr L}
    (hp : p ∈ Ptr.first l :: ((c l).map Ptr.link ++ [Ptr.last l])) : m.home p = some l := by
  simp only [List.mem_cons, List.mem_append, List.mem_map, List.not_mem_nil, or_false] at hp
  rcases hp with rfl | ⟨i, hi, rfl⟩ | rfl
  · rfl
  · exact (h.field i l).mpr hi
  · rfl

/-- A change to list `l` that touches no cell of another list leaves the other lists alone. -/
theorem Wired.update [DecidableEq L] (h : Wired m c) {l : L} {ys : List Nat}
    (hb : Between m'.links (.first l) (ys.map .link) (.last l))
    (hf : ∀ q k, k ≠ l → m.home q = some k →
      m'.links.next q = m.links.next q ∧ m'.links.prev q = m.links.prev q)
    (hfield : ∀ i k, m'.timerList (.link i) = some k ↔ i ∈ Function.update c l ys k)
    (hbound : ∀ i ∈ ys, i < m'.size) (hsize : m'.size = m.size) :
    Wired m' (Function.update c l ys) := by
  refine ⟨fun k => ?_, hfield, fun k i hi => ?_⟩
  · by_cases hk : k = l
    · subst hk
      rw [Function.update_self]
      exact hb
    · rw [Function.update_of_ne hk]
      refine (h.linked k).congr (fun q hq => ?_) (fun q hq => ?_)
      · rw [(hf q k hk (h.home_of_mem ?_)).1]
        rw [← List.cons_append]
        exact List.mem_append_left _ hq
      · exact (hf q k hk (h.home_of_mem (List.mem_cons_of_mem _ hq))).2
  · by_cases hk : k = l
    · subst hk
      rw [Function.update_self] at hi
      exact hbound i hi
    · rw [Function.update_of_ne hk] at hi
      rw [hsize]
      exact h.bound k i hi

/-- Nor does it change the order of the other lists, if it changes no deadline in them. -/
theorem Lists.update [DecidableEq L] (h : Lists m c) {l : L} {ys : List Nat}
    (hw : Wired m' (Function.update c l ys))
    (hs : ys.Pairwise fun i j => m'.timeout (.link i) ≤ m'.timeout (.link j))
    (ht : ∀ k, k ≠ l → ∀ i ∈ c k, m'.timeout (.link i) = m.timeout (.link i)) :
    Lists m' (Function.update c l ys) := by
  refine ⟨hw, fun k => ?_⟩
  by_cases hk : k = l
  · subst hk
    rw [Function.update_self]
    exact hs
  · rw [Function.update_of_ne hk]
    refine (h.sorted k).imp_of_mem fun hi hj hle => ?_
    rw [ht k hk _ hi, ht k hk _ hj]
    exact hle

theorem Wired.free (h : Wired m c) {tl : Nat} (hfree : m.timerList (.link tl) = none) (l : L) :
    tl ∉ c l := by
  intro hm
  rw [(h.field tl l).mpr hm] at hfree
  exact absurd hfree (by simp)

/-- The cells before and behind an element of the list. -/
theorem Wired.neighbours (h : Wired m c) {l : L} {as bs : List Nat} {tl : Nat}
    {us vs : List (Ptr L)} {x y : Ptr L} (hsplit : c l = as ++ tl :: bs)
    (hx : Ptr.first l :: as.map Ptr.link = us ++ [x]) (hy : bs.map Ptr.link ++ [Ptr.last l] = y :: vs) :
    m.links.Link x (.link tl) ∧ m.links.Link (.link tl) y := by
  have hb := h.linked l
  rw [hsplit, List.map_append, List.map_cons] at hb
  have hb' := hb
  rw [← List.singleton_append, ← List.append_assoc] at hb'
  have hx' : Ptr.first l :: (as.map Ptr.link ++ [Ptr.link tl]) = us ++ [x] ++ [Ptr.link tl] := by
    rw [← List.cons_append, hx]
  exact ⟨hb.link hx rfl, hb'.link hx' hy⟩

/-- The memory after a link was armed between `x` and `y`. -/
def Mem.arm [DecidableEq L] (m : Mem L) (tl : Nat) (l : L) (t : UInt32) (x y : Ptr L) : Mem L where
  links :=
    (((m.links.setNext (.link tl) (some y)).setPrev (.link tl) (some x)).setNext x
      (some (.link tl))).setPrev y (some (.link tl))
  timeout := Function.update m.timeout (.link tl) t
  timerList := Function.update m.timerList (.link tl) (some l)
  size := m.size

section Arm

variable [DecidableEq L] (m : Mem L) (tl : Nat) (l : L) (t : UInt32) (x y : Ptr L)

theorem arm_next (q : Ptr L) : (m.arm tl l t x y).links.next q
    = if q = x then some (.link tl) else if q = .link tl then some y else m.links.next q := rfl

theorem arm_prev (q : Ptr L) : (m.arm tl l t x y).links.prev q
    = if q = y then some (.link tl) else if q = .link tl then some x else m.links.prev q := rfl

@[simp] theorem arm_timeout :
    (m.arm tl l t x y).timeout = Function.update m.timeout (.link tl) t := rfl

@[simp] theorem arm_timerList :
    (m.arm tl l t x y).timerList = Function.update m.timerList (.link tl) (some l) := rfl

@[simp] theorem arm_size : (m.arm tl l t x y).size = m.size := rfl

end Arm

/-- A cell that belongs to a list is not a link that belongs to none. -/
theorem ne_link_of_home {tl : Nat} (hfree : m.timerList (.link tl) = none) {l : L} {p : Ptr L}
    (hp : m.home p = some l) : p ≠ .link tl := by
  rintro rfl
  rw [Mem.home, hfree] at hp
  exact absurd hp (by simp)

/-- A cell of one list is not a cell of another. -/
theorem ne_of_home {l k : L} {p q : Ptr L} (hp : m.home p = some l) (hq : m.home q = some k)
    (hkl : k ≠ l) : q ≠ p := by
  rintro rfl
  rw [hp] at hq
  exact hkl (Option.some.inj hq).symm

/-- Deadlines around the one of a link armed between `as` and `bs`. -/
theorem sorted_arm {f : Nat → UInt32} {as bs : List Nat} {tl : Nat} {t : UInt32}
    (hs : (as ++ bs).Pairwise fun i j => f i ≤ f j) (hle : ∀ i ∈ as, f i ≤ t)
    (hge : ∀ i ∈ bs, t ≤ f i) (hnl : ∀ i ∈ as ++ bs, i ≠ tl) :
    (as ++ tl :: bs).Pairwise fun i j => Function.update f tl t i ≤ Function.update f tl t j := by
  have htime : ∀ i ∈ as ++ bs, Function.update f tl t i = f i :=
    fun i hi => Function.update_of_ne (hnl i hi) _ _
  have hs' : (as ++ bs).Pairwise
      fun i j => Function.update f tl t i ≤ Function.update f tl t j := by
    refine hs.imp_of_mem fun hi hj hij => ?_
    rw [htime _ hi, htime _ hj]
    exact hij
  obtain ⟨hsa, hsb, hab⟩ := List.pairwise_append.mp hs'
  refine List.pairwise_append.mpr ⟨hsa, List.pairwise_cons.mpr ⟨fun j hj => ?_, hsb⟩, ?_⟩
  · rw [Function.update_self, htime j (List.mem_append_right _ hj)]
    exact hge j hj
  · intro i hi j hj
    rcases List.mem_cons.mp hj with rfl | hj
    · rw [Function.update_self, htime i (List.mem_append_left _ hi)]
      exact hle i hi
    · exact hab i hi j hj

theorem update_link [DecidableEq L] {β : Type} (f : Ptr L → β) (tl : Nat) (v : β) (i : Nat) :
    Function.update f (.link tl) v (.link i) = Function.update (fun j => f (.link j)) tl v i := by
  by_cases h : i = tl
  · subst h; simp
  · rw [Function.update_of_ne h, Function.update_of_ne (by simpa using h)]

/-- **A free link, armed between two neighbours, is in the list.** -/
theorem Wired.arm [DecidableEq L] (h : Wired m c) {tl : Nat} {l : L} {t : UInt32} {as bs : List Nat}
    {us vs : List (Ptr L)} {x y : Ptr L} (hi : tl < m.size)
    (hfree : m.timerList (.link tl) = none) (hsplit : c l = as ++ bs)
    (hx : Ptr.first l :: as.map Ptr.link = us ++ [x]) (hy : bs.map Ptr.link ++ [Ptr.last l] = y :: vs) :
    Wired (m.arm tl l t x y) (Function.update c l (as ++ tl :: bs)) := by
  have hnot := h.free hfree
  have hnl : ∀ i ∈ as ++ bs, i ≠ tl := fun i hi' he => hnot l (by rw [hsplit]; exact he ▸ hi')
  have hnew : (Ptr.link tl : Ptr L) ∉ (as ++ bs).map Ptr.link := by
    intro hmem
    obtain ⟨i, hi', he⟩ := List.mem_map.mp hmem
    exact hnl i hi' (Ptr.link.inj he)
  have hcells : Ptr.first l :: ((c l).map Ptr.link ++ [Ptr.last l]) = us ++ [x] ++ y :: vs := by
    rw [hsplit, List.map_append, List.append_assoc, ← List.cons_append, hx, hy]
  have hhx : m.home x = some l := h.home_of_mem (by rw [hcells]; simp)
  have hhy : m.home y = some l := h.home_of_mem (by rw [hcells]; simp)
  have hxl : x ≠ .link tl := ne_link_of_home hfree hhx
  have hyl : y ≠ .link tl := ne_link_of_home hfree hhy
  refine h.update ?_ ?_ ?_ ?_ rfl
  · have hb := h.linked l
    rw [hsplit, List.map_append] at hb
    rw [List.map_append] at hnew
    rw [List.map_append, List.map_cons]
    refine hb.insert hx hy (by simp) (by simp) hnew ⟨?_, ?_⟩ ⟨?_, ?_⟩ ?_ ?_
    · rw [arm_next, if_pos rfl]
    · rw [arm_prev, if_neg hyl.symm, if_pos rfl]
    · rw [arm_next, if_neg hxl.symm, if_pos rfl]
    · rw [arm_prev, if_pos rfl]
    · intro q hq hqx
      have hql : q ≠ .link tl := by
        rintro rfl
        simp only [List.mem_cons, reduceCtorEq, false_or] at hq
        exact hnew hq
      rw [arm_next, if_neg hqx, if_neg hql]
    · intro q hq hqy
      have hql : q ≠ .link tl := by
        rintro rfl
        rw [← List.append_assoc, List.mem_append, List.mem_singleton] at hq
        exact hq.elim hnew (by simp)
      rw [arm_prev, if_neg hqy, if_neg hql]
  -- a cell of another list is none of the three that were written
  · intro q k hk hq
    have hql : q ≠ .link tl := ne_link_of_home hfree hq
    rw [arm_next, arm_prev, if_neg (ne_of_home hhx hq hk), if_neg hql,
      if_neg (ne_of_home hhy hq hk), if_neg hql]
    exact ⟨rfl, rfl⟩
  · intro i k
    rw [arm_timerList]
    by_cases hit : i = tl
    · subst hit
      rw [Function.update_self, Option.some.injEq]
      by_cases hk : k = l
      · subst hk
        simp
      · rw [Function.update_of_ne hk]
        exact iff_of_false (Ne.symm hk) (hnot k)
    · rw [Function.update_of_ne (by simpa using hit), h.field]
      by_cases hk : k = l
      · subst hk
        rw [Function.update_self, hsplit]
        simp [hit]
      · rw [Function.update_of_ne hk]
  · intro i hi'
    have hmem : i = tl ∨ i ∈ c l := by
      rw [hsplit]
      simp only [List.mem_append, List.mem_cons] at hi' ⊢
      tauto
    rcases hmem with rfl | hmem
    · exact hi
    · exact h.bound l i hmem

/-- It keeps the order, if the deadlines of its neighbours allow it. -/
theorem Lists.arm [DecidableEq L] (h : Lists m c) {tl : Nat} {l : L} {t : UInt32} {as bs : List Nat}
    (hfree : m.timerList (.link tl) = none) (hsplit : c l = as ++ bs)
    (hle : ∀ i ∈ as, m.timeout (.link i) ≤ t) (hge : ∀ i ∈ bs, t ≤ m.timeout (.link i))
    (ht : m'.timeout = Function.update m.timeout (.link tl) t)
    (hw : Wired m' (Function.update c l (as ++ tl :: bs))) :
    Lists m' (Function.update c l (as ++ tl :: bs)) := by
  have hnl : ∀ k, ∀ i ∈ c k, i ≠ tl := fun k i hi he => h.free hfree k (he ▸ hi)
  have hs := h.sorted l
  have hnl' := hnl l
  rw [hsplit] at hs hnl'
  refine h.update hw ?_ ?_
  · simp only [ht, update_link]
    exact sorted_arm hs hle hge hnl'
  · intro k _ i hi
    rw [ht, update_link, Function.update_of_ne (hnl k i hi)]

/-- **Links that lead past a stretch of a list, whose cells are free, leave the rest of it.** -/
theorem Wired.cut [DecidableEq L] (h : Wired m c) (ms : List Nat) {l : L} {as bs : List Nat}
    {us vs : List (Ptr L)} {x y : Ptr L} (hsplit : c l = as ++ ms ++ bs)
    (hx : Ptr.first l :: as.map Ptr.link = us ++ [x]) (hy : bs.map Ptr.link ++ [Ptr.last l] = y :: vs)
    (hxy : m'.links.Link x y)
    (hn : ∀ q, q ≠ x → q ∉ ms.map Ptr.link → m'.links.next q = m.links.next q)
    (hp : ∀ q, q ≠ y → q ∉ ms.map Ptr.link → m'.links.prev q = m.links.prev q)
    (hf : ∀ i, m'.timerList (.link i) = if i ∈ ms then none else m.timerList (.link i))
    (hs : m'.size = m.size) : Wired m' (Function.update c l (as ++ bs)) := by
  have hnd := h.nodup l
  rw [hsplit] at hnd
  have hnot : ∀ i ∈ as ++ bs, i ∉ ms := by
    intro i hi hm
    obtain ⟨hcut, -, hdis⟩ := List.nodup_append.mp hnd
    rcases List.mem_append.mp hi with hi | hi
    · exact (List.nodup_append.mp hcut).2.2 i hi i hm rfl
    · exact hdis i (List.mem_append_right _ hm) i hi rfl
  have hstay : ∀ q, q ∈ Ptr.first l :: ((as ++ bs).map Ptr.link ++ [Ptr.last l]) →
      q ∉ ms.map (Ptr.link : Nat → Ptr L) := by
    intro q hq hm
    obtain ⟨i, hi, rfl⟩ := List.mem_map.mp hm
    simp only [List.mem_cons, List.mem_append, List.mem_map, reduceCtorEq, false_or, or_false,
      List.not_mem_nil, Ptr.link.injEq, exists_eq_right] at hq
    exact hnot i (List.mem_append.mpr hq) hi
  have hcells : Ptr.first l :: ((c l).map Ptr.link ++ [Ptr.last l])
      = us ++ [x] ++ (ms.map Ptr.link ++ y :: vs) := by
    rw [← hx, ← hy, hsplit]
    simp
  have hhx : m.home x = some l := h.home_of_mem (by rw [hcells]; simp)
  have hhy : m.home y = some l := h.home_of_mem (by rw [hcells]; simp)
  have hsub : (as ++ bs).Sublist (c l) := by
    rw [hsplit, List.append_assoc]
    exact (List.sublist_append_right ms bs).append_left as
  refine h.update ?_ ?_ ?_ ?_ hs
  · have hb := h.linked l
    rw [hsplit, List.map_append, List.map_append] at hb
    rw [List.map_append] at hstay ⊢
    refine hb.remove hx hy hxy (fun q hq hqx => hn q hqx (hstay q ?_))
      (fun q hq hqy => hp q hqy (hstay q ?_))
    · rw [← List.cons_append]
      exact List.mem_append_left _ hq
    · rw [List.append_assoc]
      exact List.mem_cons_of_mem _ hq
  -- a cell of another list is none of those that were written
  · intro q k hk hq
    have hqm : q ∉ ms.map (Ptr.link : Nat → Ptr L) := by
      intro hm
      obtain ⟨i, hi, rfl⟩ := List.mem_map.mp hm
      have hil : m.home (.link i) = some l := (h.field i l).mpr (by rw [hsplit]; simp [hi])
      exact ne_of_home hil hq hk rfl
    exact ⟨hn q (ne_of_home hhx hq hk) hqm, hp q (ne_of_home hhy hq hk) hqm⟩
  · intro i k
    rw [hf]
    by_cases hi : i ∈ ms
    · rw [if_pos hi]
      refine iff_of_false (by simp) (fun hk => ?_)
      have hil : m.timerList (.link i) = some l := (h.field i l).mpr (by rw [hsplit]; simp [hi])
      by_cases hkl : k = l
      · subst hkl
        rw [Function.update_self] at hk
        exact hnot i hk hi
      · rw [Function.update_of_ne hkl, ← h.field, hil] at hk
        exact hkl (Option.some.inj hk).symm
    · rw [if_neg hi, h.field]
      by_cases hkl : k = l
      · subst hkl
        rw [Function.update_self, hsplit]
        simp [hi]
      · rw [Function.update_of_ne hkl]
  · intro i hi
    rw [hs]
    exact h.bound l i (hsub.subset hi)

/-- What is left of a list in order is in order. -/
theorem Lists.cut [DecidableEq L] (h : Lists m c) {l : L} {ys : List Nat}
    (hsub : ys.Sublist (c l)) (ht : m'.timeout = m.timeout)
    (hw : Wired m' (Function.update c l ys)) : Lists m' (Function.update c l ys) := by
  refine h.update hw ?_ (fun k _ i _ => by rw [ht])
  rw [ht]
  exact (h.sorted l).sublist hsub

end Lists

/-! ## What the operations do -/

section Operations

variable [DecidableEq L] {m : Mem L} {c : L → List Nat}

theorem add_refused {tl : Nat} {k : L} (hin : m.timerList (.link tl) = some k) (l : L) (t : UInt32) :
    addToTimerList m tl l t = .ok (-1, m) := by
  simp [addToTimerList, hin]

theorem insert_refused {tl : Nat} {k : L} (hin : m.timerList (.link tl) = some k) (l : L)
    (t : UInt32) : insertIntoTimerList m tl l t = .ok (-1, m) := by
  simp [insertIntoTimerList, hin]

/-- A free link goes to the end. -/
theorem add_armed (h : Wired m c) {tl : Nat} (l : L) (t : UInt32) (hi : tl < m.size)
    (hfree : m.timerList (.link tl) = none) :
    ∃ x y, addToTimerList m tl l t = .ok (1, m.arm tl l t x y) ∧ m.home x = some l
      ∧ Wired (m.arm tl l t x y) (Function.update c l (c l ++ [tl])) := by
  obtain ⟨us, x, hx⟩ := exists_concat (Ptr.first l) ((c l).map .link)
  have hb : Between m.links (.first l) ((c l).map Ptr.link ++ []) (.last l) := by
    rw [List.append_nil]
    exact h.linked l
  have hlink : m.links.Link x (.last l) := hb.link hx rfl
  have hhx : m.home x = some l := by
    refine h.home_of_mem ?_
    rw [← List.cons_append, hx]
    simp
  refine ⟨x, .last l, ?_, hhx, h.arm hi hfree (List.append_nil _).symm hx rfl⟩
  simp [addToTimerList, hfree, Mem.setTimeout, Mem.setPrev, Mem.setNext, Mem.setTimerList,
    hlink.2, Mem.arm, Links.setNext, Links.setPrev]

/-- The order is kept if its deadline is not before any other. -/
theorem add_sorted (h : Lists m c) {tl : Nat} {l : L} {t : UInt32}
    (hfree : m.timerList (.link tl) = none) (hle : ∀ i ∈ c l, m.timeout (.link i) ≤ t)
    {x y : Ptr L} (hw : Wired (m.arm tl l t x y) (Function.update c l (c l ++ [tl]))) :
    Lists (m.arm tl l t x y) (Function.update c l (c l ++ [tl])) :=
  h.arm hfree (List.append_nil _).symm hle (by simp) rfl hw

/-- The loop stops at the first link that is not before `t`, or at the end of the list. -/
theorem position_eq {l : L} {t : UInt32} {zs : List Nat} {x y : Ptr L} {vs : List (Ptr L)}
    (hchain : List.IsChain m.links.Link (x :: (zs.map Ptr.link ++ [Ptr.last l])))
    (hy : (zs.dropWhile fun i => m.timeout (.link i) < t).map Ptr.link ++ [Ptr.last l] = y :: vs)
    {fuel : Nat} (hf : zs.length ≤ fuel) : position m l t fuel (m.links.next x) = .ok y := by
  induction zs generalizing x fuel with
  | nil =>
      obtain ⟨rfl, -⟩ := List.cons_eq_cons.mp hy
      rw [List.map_nil, List.nil_append, List.isChain_pair] at hchain
      rw [hchain.1]
      cases fuel <;> simp [position]
  | cons z zs ih =>
      rw [List.map_cons, List.cons_append, List.isChain_cons_cons] at hchain
      obtain ⟨fuel, rfl⟩ := Nat.exists_eq_succ_of_ne_zero (Nat.ne_of_gt (Nat.zero_lt_of_lt hf))
      rw [hchain.1.1, position]
      by_cases hz : m.timeout (.link z) < t
      · rw [if_pos ⟨by simp, hz⟩]
        rw [List.dropWhile_cons_of_pos (by simpa using hz)] at hy
        exact ih hchain.2 hy (by simpa using hf)
      · rw [if_neg (by simp [hz])]
        rw [List.dropWhile_cons_of_neg (by simpa using hz)] at hy
        obtain ⟨rfl, -⟩ := List.cons_eq_cons.mp hy
        rfl

omit [DecidableEq L] in
/-- In a sorted list, everything from the first deadline that is not before `t` on is not. -/
theorem le_of_mem_dropWhile {f : Nat → UInt32} {zs : List Nat} {t : UInt32}
    (hs : zs.Pairwise fun i j => f i ≤ f j) {i : Nat}
    (hi : i ∈ zs.dropWhile fun i => f i < t) : t ≤ f i := by
  induction zs with
  | nil => simp at hi
  | cons z zs ih =>
      obtain ⟨hz, hs⟩ := List.pairwise_cons.mp hs
      by_cases hlt : f z < t
      · rw [List.dropWhile_cons_of_pos (by simpa using hlt)] at hi
        exact ih hs hi
      · rw [List.dropWhile_cons_of_neg (by simpa using hlt)] at hi
        have htz : t ≤ f z := UInt32.not_lt.mp hlt
        rcases List.mem_cons.mp hi with rfl | hi
        · exact htz
        · exact UInt32.le_trans htz (hz i hi)

/-- A free link goes before the first one whose deadline is not earlier than its own. -/
theorem insert_armed (h : Wired m c) {tl : Nat} (l : L) (t : UInt32) (hi : tl < m.size)
    (hfree : m.timerList (.link tl) = none) :
    ∃ x y as bs, insertIntoTimerList m tl l t = .ok (1, m.arm tl l t x y) ∧ m.home x = some l
      ∧ c l = as ++ bs ∧ Wired (m.arm tl l t x y) (Function.update c l (as ++ tl :: bs))
      ∧ ((c l).Pairwise (fun i j => m.timeout (.link i) ≤ m.timeout (.link j)) →
          (∀ i ∈ as, m.timeout (.link i) ≤ t) ∧ ∀ i ∈ bs, t ≤ m.timeout (.link i)) := by
  -- the loop looks at the deadlines after the one of `tl` was stored, which none of them is
  have htime : ∀ i ∈ c l, Function.update m.timeout (.link tl) t (.link i) = m.timeout (.link i) := by
    intro i hi'
    refine Function.update_of_ne (fun he => ?_) _ _
    exact h.free hfree l (Ptr.link.inj he ▸ hi')
  let f : Nat → UInt32 := fun i => Function.update m.timeout (.link tl) t (.link i)
  have hsplit : c l = (c l).takeWhile (fun i => f i < t) ++ (c l).dropWhile fun i => f i < t :=
    List.takeWhile_append_dropWhile.symm
  obtain ⟨us, x, hx⟩ :=
    exists_concat (Ptr.first l) (((c l).takeWhile fun i => f i < t).map .link)
  obtain ⟨y, vs, hy⟩ := exists_cons (((c l).dropWhile fun i => f i < t).map .link) (Ptr.last l)
  have hb := h.linked l
  rw [hsplit, List.map_append] at hb
  have hlink : m.links.Link x y := hb.link hx hy
  have hhx : m.home x = some l := by
    refine h.home_of_mem ?_
    rw [hsplit, List.map_append, List.append_assoc, ← List.cons_append, hx]
    simp
  have hpos : position (m.setTimeout (.link tl) t) l t m.size (m.links.next (.first l)) = .ok y :=
    position_eq (m := m.setTimeout (.link tl) t) (h.linked l).chain hy (h.length_le l)
  refine ⟨x, y, _, _, ?_, hhx, hsplit, h.arm hi hfree hsplit hx hy, fun hs => ⟨?_, ?_⟩⟩
  · simp only [insertIntoTimerList, hfree, Option.isSome_none, Bool.false_eq_true, if_false]
    rw [show (m.setTimeout (.link tl) t).links = m.links from rfl,
      show (m.setTimeout (.link tl) t).size = m.size from rfl, hpos]
    simp [Mem.setTimeout, Mem.setPrev, Mem.setNext, Mem.setTimerList, hlink.2, Mem.arm,
      Links.setNext, Links.setPrev]
  · intro i hi'
    have hlt : f i < t := by simpa using List.mem_takeWhile_imp hi'
    rw [← htime i ((List.takeWhile_prefix _).subset hi')]
    exact UInt32.le_of_lt hlt
  · intro i hi'
    have hsf : (c l).Pairwise fun i j => f i ≤ f j := by
      refine hs.imp_of_mem fun hi' hj' hij => ?_
      simp only [f, htime _ hi', htime _ hj']
      exact hij
    rw [← htime i ((List.dropWhile_suffix _).subset hi')]
    exact le_of_mem_dropWhile hsf hi'

theorem rmv_refused {tl : Nat} {l : L} (hout : m.timerList (.link tl) ≠ some l) :
    rmvFromTimerList m tl l = .ok (-1, m) := by
  rw [rmvFromTimerList, if_neg hout]

/-- A link that is in the list is taken out and is free again. -/
theorem rmv_disarmed (h : Wired m c) {tl : Nat} {l : L} (hmem : tl ∈ c l) :
    ∃ m', rmvFromTimerList m tl l = .ok (1, m')
      ∧ Wired m' (Function.update c l ((c l).erase tl)) ∧ m'.timeout = m.timeout ∧ m'.size = m.size
      ∧ ∀ i, m.timerList (.link i) = none → m'.links.next (.link i) = m.links.next (.link i) := by
  obtain ⟨as, bs, hsplit, hnot⟩ := List.eq_append_cons_of_mem hmem
  have herase : (c l).erase tl = as ++ bs := by
    rw [hsplit, List.erase_append_right _ hnot, List.erase_cons_head]
  obtain ⟨us, x, hx⟩ := exists_concat (Ptr.first l) (as.map .link)
  obtain ⟨y, vs, hy⟩ := exists_cons (bs.map .link) (Ptr.last l)
  obtain ⟨hxt, hty⟩ := h.neighbours hsplit hx hy
  have hnd := h.nodup l
  rw [hsplit, List.nodup_middle, List.nodup_cons, List.mem_append, not_or] at hnd
  have hxl : x ≠ .link tl := by
    rintro rfl
    have hin : (Ptr.link tl : Ptr L) ∈ Ptr.first l :: as.map Ptr.link := by rw [hx]; simp
    simp only [List.mem_cons, reduceCtorEq, false_or, List.mem_map, Ptr.link.injEq,
      exists_eq_right] at hin
    exact hnot hin
  have hyl : y ≠ .link tl := by
    rintro rfl
    have hin : (Ptr.link tl : Ptr L) ∈ bs.map Ptr.link ++ [Ptr.last l] := by rw [hy]; simp
    simp only [List.mem_append, List.mem_singleton, reduceCtorEq, or_false, List.mem_map,
      Ptr.link.injEq, exists_eq_right] at hin
    exact hnd.1.2 hin
  refine ⟨((((m.setNext x (some y)).setPrev y (some x)).setNext (.link tl) none).setPrev
      (.link tl) none).setTimerList (.link tl) none, ?_, ?_, rfl, rfl, ?_⟩
  · simp [rmvFromTimerList, (h.field tl l).mpr hmem, hxt.2, hty.1, Mem.setNext, Mem.setPrev]
  · rw [herase]
    refine h.cut [tl] (by simpa using hsplit) hx hy ⟨?_, ?_⟩ ?_ ?_ ?_ rfl
    · simp [Mem.setTimerList, Mem.setNext, Mem.setPrev, hxl]
    · simp [Mem.setTimerList, Mem.setNext, Mem.setPrev, hyl]
    · intro q hqx hql
      simp only [List.map_cons, List.map_nil, List.mem_singleton] at hql
      simp [Mem.setTimerList, Mem.setNext, Mem.setPrev, hqx, hql]
    · intro q hqy hql
      simp only [List.map_cons, List.map_nil, List.mem_singleton] at hql
      simp [Mem.setTimerList, Mem.setNext, Mem.setPrev, hqy, hql]
    · intro i
      simp [Mem.setTimerList, Mem.setNext, Mem.setPrev, Function.update_apply]
  · intro i hfree
    have hix : Ptr.link i ≠ x := by
      rintro rfl
      have hin : (Ptr.link i : Ptr L) ∈ Ptr.first l :: as.map Ptr.link := by rw [hx]; simp
      simp only [List.mem_cons, reduceCtorEq, false_or, List.mem_map, Ptr.link.injEq,
        exists_eq_right] at hin
      exact h.free hfree l (by rw [hsplit]; simp [hin])
    have hit : i ≠ tl := fun he => h.free hfree l (he ▸ hmem)
    simp [Mem.setTimerList, Mem.setNext, Mem.setPrev, hix, hit]

/-- The memory after the links `es` were freed. -/
def Mem.free (m : Mem L) (es : List Nat) : Mem L :=
  { m with timerList := fun q => if q ∈ es.map Ptr.link then none else m.timerList q }

theorem Mem.free_nil (m : Mem L) : m.free [] = m := by
  simp [Mem.free]

theorem Mem.free_cons (m : Mem L) (e : Nat) (es : List Nat) :
    (m.setTimerList (.link e) none).free es = m.free (e :: es) := by
  unfold Mem.free Mem.setTimerList
  congr 1
  funext q
  simp only [List.map_cons, List.mem_cons, Function.update_apply]
  grind

/-- The loop frees the links in front that are due, and stops at the first one that is not. -/
theorem freeDue_eq {l : L} {time : UInt32} {zs : List Nat} {x y : Ptr L} {vs : List (Ptr L)}
    (hchain : List.IsChain m.links.Link (x :: (zs.map Ptr.link ++ [Ptr.last l])))
    (hy : (zs.dropWhile fun i => m.timeout (.link i) ≤ time).map Ptr.link ++ [Ptr.last l] = y :: vs)
    {fuel : Nat} (hf : zs.length ≤ fuel) :
    freeDue l time fuel m (m.links.next x)
      = .ok (m.free (zs.takeWhile fun i => m.timeout (.link i) ≤ time), y) := by
  induction zs generalizing m x fuel with
  | nil =>
      obtain ⟨rfl, -⟩ := List.cons_eq_cons.mp hy
      rw [List.map_nil, List.nil_append, List.isChain_pair] at hchain
      rw [hchain.1, List.takeWhile_nil, Mem.free_nil]
      cases fuel <;> simp [freeDue]
  | cons z zs ih =>
      rw [List.map_cons, List.cons_append, List.isChain_cons_cons] at hchain
      obtain ⟨fuel, rfl⟩ := Nat.exists_eq_succ_of_ne_zero (Nat.ne_of_gt (Nat.zero_lt_of_lt hf))
      rw [hchain.1.1, freeDue]
      by_cases hz : m.timeout (.link z) ≤ time
      · rw [if_pos ⟨by simp, hz⟩, List.takeWhile_cons_of_pos (by simpa using hz), ← Mem.free_cons]
        rw [List.dropWhile_cons_of_pos (by simpa using hz)] at hy
        exact ih (m := m.setTimerList (.link z) none) hchain.2 hy (by simpa using hf)
      · rw [if_neg (by simp [hz]), List.takeWhile_cons_of_neg (by simpa using hz), Mem.free_nil]
        rw [List.dropWhile_cons_of_neg (by simpa using hz)] at hy
        obtain ⟨rfl, -⟩ := List.cons_eq_cons.mp hy
        rfl

/-- What is due stands in front. -/
theorem due_eq_filter {f : Nat → UInt32} {zs : List Nat} {t : UInt32}
    (hs : zs.Pairwise fun i j => f i ≤ f j) :
    (zs.takeWhile fun i => f i ≤ t) = zs.filter (fun i => f i ≤ t)
      ∧ (zs.dropWhile fun i => f i ≤ t) = zs.filter (fun i => t < f i) := by
  induction zs with
  | nil => exact ⟨rfl, rfl⟩
  | cons z zs ih =>
      obtain ⟨hz, hs⟩ := List.pairwise_cons.mp hs
      by_cases hle : f z ≤ t
      · rw [List.takeWhile_cons_of_pos (by simpa using hle), List.filter_cons_of_pos (by simpa using hle),
          List.dropWhile_cons_of_pos (by simpa using hle),
          List.filter_cons_of_neg (by simpa using UInt32.not_lt.mpr hle), (ih hs).1, (ih hs).2]
        exact ⟨rfl, rfl⟩
      · have hlt : t < f z := UInt32.not_le.mp hle
        have hall : ∀ j ∈ z :: zs, t < f j := by
          intro j hj
          rcases List.mem_cons.mp hj with rfl | hj
          · exact hlt
          · exact UInt32.lt_of_lt_of_le hlt (hz j hj)
        rw [List.takeWhile_cons_of_neg (by simpa using hle),
          List.dropWhile_cons_of_neg (by simpa using hle)]
        refine ⟨(List.filter_eq_nil_iff.mpr fun j hj => ?_).symm,
          (List.filter_eq_self.mpr fun j hj => by simpa using hall j hj).symm⟩
        simpa using UInt32.not_le.mpr (hall j hj)

/-- **The part under the lock cuts off the links in front that are due.** -/
theorem detachExpired_cut (h : Wired m c) (l : L) (time : UInt32) :
    ∃ r m', detachExpired m l time = .ok (r, m')
      ∧ Trail m'.links.next r (((c l).takeWhile fun i => m.timeout (.link i) ≤ time).map .link)
      ∧ Wired m' (Function.update c l ((c l).dropWhile fun i => m.timeout (.link i) ≤ time))
      ∧ m'.timeout = m.timeout ∧ m'.size = m.size := by
  obtain ⟨y, vs, hy⟩ :=
    exists_cons (((c l).dropWhile fun i => m.timeout (.link i) ≤ time).map .link) (Ptr.last l)
  have hfree := freeDue_eq (h.linked l).chain hy (h.length_le l)
  have hsplit : c l = ((c l).takeWhile fun i => m.timeout (.link i) ≤ time)
      ++ (c l).dropWhile fun i => m.timeout (.link i) ≤ time :=
    List.takeWhile_append_dropWhile.symm
  rw [detachExpired, hfree, Res.ok_bind]
  generalize (c l).takeWhile (fun i => m.timeout (.link i) ≤ time) = es at hsplit ⊢
  generalize (c l).dropWhile (fun i => m.timeout (.link i) ≤ time) = ls at hsplit hy ⊢
  have hb := h.linked l
  rw [hsplit, List.map_append] at hb
  have hfirst : Ptr.first l :: ([] : List Nat).map Ptr.link = [] ++ [Ptr.first l] := rfl
  cases es using List.reverseRecOn with
  | nil =>
      have hlink : m.links.Link (.first l) y := hb.link hfirst hy
      refine ⟨none, m, ?_, rfl, ?_, rfl, rfl⟩
      · simp [Mem.free_nil, hlink.2]
      · rw [show ls = c l from hsplit.symm, Function.update_eq_self]
        exact h
  | append_singleton es e =>
      have hx : Ptr.first l :: (es ++ [e]).map Ptr.link
          = (Ptr.first l :: es.map Ptr.link) ++ [Ptr.link e] := by simp
      have hlink : m.links.Link (.link e) y := hb.link hx hy
      have hye : y ∉ (es ++ [e]).map (Ptr.link : Nat → Ptr L) := by
        intro hm
        have htgt := hb.tgt
        rw [List.append_assoc, hy] at htgt
        exact (List.nodup_append.mp htgt).2.2 y hm y (by simp) rfl
      have hnd := (h.nodup l)
      rw [hsplit] at hnd
      have hee : e ∉ es := fun hm =>
        (List.nodup_append.mp (List.nodup_append.mp hnd).1).2.2 e hm e (by simp) rfl
      refine ⟨m.links.next (.first l), (((m.free (es ++ [e])).setNext (.link e) none).setNext
        (.first l) (some y)).setPrev y (some (.first l)), ?_, ?_, ?_, rfl, rfl⟩
      · simp [Mem.free, hlink.2]
      · rw [List.map_append]
        have hchain := hb.chain
        have hcells : Ptr.first l :: ((es ++ [e]).map Ptr.link ++ ls.map Ptr.link ++ [Ptr.last l])
            = (Ptr.first l :: (es.map Ptr.link ++ [Ptr.link e])) ++ (ls.map Ptr.link ++ [Ptr.last l]) := by
          simp
        rw [hcells] at hchain
        refine trail_of_isChain hchain.left_of_append (fun q hq => ?_) ?_
        · obtain ⟨i, hi, rfl⟩ := List.mem_map.mp hq
          have hie : i ≠ e := fun he => hee (he ▸ hi)
          simp [Mem.setPrev, Mem.setNext, Mem.free, hie]
        · simp [Mem.setPrev, Mem.setNext]
      · refine h.cut (es ++ [e]) hsplit hfirst hy ⟨?_, ?_⟩ ?_ ?_ ?_ rfl
        · simp [Mem.setPrev, Mem.setNext]
        · simp [Mem.setPrev, Mem.setNext]
        · intro q hqx hqm
          have hqe : q ≠ .link e := fun he => hqm (by simp [he])
          simp [Mem.setPrev, Mem.setNext, Mem.free, hqx, hqe]
        · intro q hqy _
          simp [Mem.setPrev, Mem.setNext, Mem.free, hqy]
        · intro i
          simp [Mem.setPrev, Mem.setNext, Mem.free]

/-- The check made without the lock says whether the first link is due. -/
theorem worthLocking_eq (h : Wired m c) (l : L) (time : UInt32) :
    worthLocking m l time
      = .ok (((c l).takeWhile fun i => m.timeout (.link i) ≤ time) ≠ [] : Bool) := by
  have hchain := (h.linked l).chain
  cases hc : c l with
  | nil =>
      rw [hc, List.map_nil, List.nil_append, List.isChain_pair] at hchain
      simp [worthLocking, hchain.1]
  | cons i is =>
      rw [hc, List.map_cons, List.cons_append, List.isChain_cons_cons] at hchain
      by_cases hi : m.timeout (.link i) ≤ time
      · simp [worthLocking, hchain.1.1, hi, UInt32.not_lt.mpr hi]
      · simp [worthLocking, hchain.1.1, hi, UInt32.not_le.mp hi]

/-- **`get_expired_from_timer_list` returns exactly the links that are due.** -/
theorem getExpired_cut (h : Lists m c) (l : L) (time : UInt32) :
    ∃ r m', getExpiredFromTimerList m l time = .ok (r, m')
      ∧ Trail m'.links.next r (((c l).filter fun i => m.timeout (.link i) ≤ time).map .link)
      ∧ Lists m' (Function.update c l ((c l).filter fun i => time < m.timeout (.link i)))
      ∧ m'.timeout = m.timeout ∧ m'.size = m.size := by
  obtain ⟨hdue, hleft⟩ := due_eq_filter (t := time) (h.sorted l)
  rw [← hdue, ← hleft, getExpiredFromTimerList, worthLocking_eq h.toWired, Res.ok_bind]
  by_cases hnone : ((c l).takeWhile fun i => m.timeout (.link i) ≤ time) = []
  · have hall : ((c l).dropWhile fun i => m.timeout (.link i) ≤ time) = c l := by
      have happ := @List.takeWhile_append_dropWhile _ (fun i => m.timeout (.link i) ≤ time) (c l)
      rwa [hnone, List.nil_append] at happ
    rw [hnone, hall, Function.update_eq_self]
    exact ⟨none, m, by simp, rfl, h, rfl, rfl⟩
  · rw [decide_eq_true hnone]
    obtain ⟨r, m', hrun, htrail, hw, ht, hs⟩ := detachExpired_cut h.toWired l time
    exact ⟨r, m', hrun, htrail, h.cut (List.dropWhile_sublist _) ht hw, ht, hs⟩

end Operations

end Disc.Timer
