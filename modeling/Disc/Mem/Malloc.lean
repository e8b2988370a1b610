import Disc.Mem.Pool

/-!
# Taking a fragment

`Sound` is what holds of a pool between two calls: the fragments in use have no link, and the
books are those of the fragments. `qm_malloc` takes the smallest fragment that is large enough,
from whichever list it is in, and none of the fragments in use is written to.

The books say a little less than there is. `real_used` starts with what the block of the
allocator itself takes, and is compared with a size in which that is not contained.
-/

namespace Disc.Mem

open Disc.Lib

variable (c : Build)

/-- What the fragments in use hold. -/
def busySize (bins : Nat → List Frag) (frags : List Frag) : Nat :=
  (frags.map fun f => if Free c bins f then 0 else f.size).sum

/-- What the free fragments hold. -/
def freeSize (bins : Nat → List Frag) (frags : List Frag) : Nat :=
  (frags.map fun f => if Free c bins f then f.size else 0).sum

/-- A pool between two calls. -/
structure Sound (q : QmBlock) (frags : List Frag) (bins : Nat → List Frag) : Prop
    extends Mapped c q frags bins where
  control : c.roundUp c.block < q.firstFrag
  busy : ∀ f ∈ frags, ¬ Free c bins f → q.mem f.nextAt = 0
  total : q.firstFrag + c.overhead + q.size = q.lastFragEnd + c.fragEnd
  used : q.used = busySize c bins frags
  realUsed : q.realUsed
    = c.roundUp c.block + c.overhead * frags.length + busySize c bins frags
  peak : q.realUsed ≤ q.maxRealUsed
  joined : c.join = true →
    ∀ f ∈ frags, ∀ g ∈ frags, Free c bins f → Free c bins g → f.addr + f.len c ≠ g.addr

/-- A fragment somebody uses. -/
def Busy (frags : List Frag) (bins : Nat → List Frag) (f : Frag) : Prop :=
  f ∈ frags ∧ ¬ Free c bins f

/-- What a call leaves alone of the block of the allocator. -/
def SamePool (q q' : QmBlock) : Prop :=
  q'.size = q.size ∧ q'.firstFrag = q.firstFrag ∧ q'.lastFragEnd = q.lastFragEnd

/-- Other books for the same fragments. -/
theorem Mapped.books {c : Build} {q : QmBlock} {frags : List Frag} {bins : Nat → List Frag}
    (hM : Mapped c q frags bins) (u r p : Nat) :
    Mapped c { q with used := u, realUsed := r, maxRealUsed := p } frags bins :=
  ⟨hM.area, hM.tiles, hM.top, hM.heads, hM.good, hM.ring, hM.sorted, hM.binned⟩

theorem Build.cases : c.dbg = true ∧ c.frag = 24 ∧ c.fragEnd = 24 ∧ c.endSize = 16 ∧ c.endPrev = 20
      ∧ c.roundTo = 4
    ∨ c.dbg = false ∧ c.frag = 8 ∧ c.fragEnd = 8 ∧ c.endSize = 0 ∧ c.endPrev = 4
      ∧ c.roundTo = 16 := by
  unfold frag fragEnd endSize endPrev roundTo
  cases c.dbg <;> simp

variable {c} {q : QmBlock} {frags xs ys : List Frag} {bins : Nat → List Frag} {m m' : Words}
  {f g x : Frag} {h s k : Nat}

theorem Words.set_of_eq {a b v : Nat} (h : b = a) : m.set a v b = v := if_pos h

theorem Words.set_self {a v : Nat} (h : m a = v) : m.set a v = m := by
  funext b
  by_cases hb : b = a
  · rw [hb, Words.set_same, h]
  · exact Words.set_of_ne hb

/-! ## The search -/

/-- The first fragment of a sorted list that is large enough is the smallest one. -/
theorem find_smallest {bin : List Frag} (hs : bin.Pairwise Frag.NoLarger) {f : Frag}
    (h : bin.find? (fun y => s ≤ y.size) = some f) :
    f ∈ bin ∧ s ≤ f.size ∧ ∀ g ∈ bin, s ≤ g.size → f.size ≤ g.size := by
  obtain ⟨hf, as, bs, rfl, has⟩ := List.find?_eq_some_iff_append.mp h
  refine ⟨by simp, by simpa using hf, fun g hg hle => ?_⟩
  rcases List.mem_append.mp hg with hg | hg
  · exact absurd hle (by simpa using has g hg)
  · rcases List.mem_cons.mp hg with rfl | hg
    · exact Nat.le_refl _
    · exact (List.pairwise_cons.mp (List.pairwise_append.mp hs).2.1).1 g hg

theorem Mapped.findInList (hM : Mapped c q frags bins) (hh : h < c.hashSize) :
    findInList q.mem (q.head c h) s q.lastFragEnd (nxtFree q.mem (q.head c h))
      = .ok (((bins h).find? fun y => s ≤ y.size).map Frag.addr) :=
  findInList_eq (hM.readable hh) (hM.ring h hh).chain (hM.length_lt hh)

/-- The outer loop of `qm_find_free`: nothing in the lists from `h` on, or the smallest one. -/
theorem Mapped.findFreeFrom (hM : Mapped c q frags bins) (hk : h + k ≤ c.hashSize) :
    findFreeFrom c q s k h = .ok none ∧ (∀ i, h ≤ i → i < h + k → ∀ g ∈ bins i, g.size < s)
      ∨ ∃ j f, h ≤ j ∧ j < h + k ∧ f ∈ bins j ∧ s ≤ f.size
        ∧ findFreeFrom c q s k h = .ok (some f.addr)
        ∧ (∀ i, h ≤ i → i < j → ∀ g ∈ bins i, g.size < s)
        ∧ ∀ g ∈ bins j, s ≤ g.size → f.size ≤ g.size := by
  induction k generalizing h with
  | zero => exact .inl ⟨rfl, fun i h1 h2 => by omega⟩
  | succ k ih =>
      have hh : h < c.hashSize := by omega
      have hfind := hM.findInList (s := s) hh
      unfold Mem.findFreeFrom
      rw [hfind]
      cases hres : (bins h).find? fun y => s ≤ y.size with
      | some f =>
          obtain ⟨hf, hle, hmin⟩ := find_smallest (hM.sorted h hh) hres
          exact .inr ⟨h, f, Nat.le_refl _, by omega, hf, hle, rfl, fun i h1 h2 => by omega, hmin⟩
      | none =>
          have hnone : ∀ g ∈ bins h, g.size < s := fun g hg => by
            simpa using List.find?_eq_none.mp hres g hg
          have hlow : ∀ j, (∀ i, h + 1 ≤ i → i < j → ∀ g ∈ bins i, g.size < s) →
              ∀ i, h ≤ i → i < j → ∀ g ∈ bins i, g.size < s := by
            intro j hj i h1 h2 g hg
            rcases Nat.eq_or_lt_of_le h1 with rfl | h1
            · exact hnone g hg
            · exact hj i h1 h2 g hg
          rcases ih (h := h + 1) (by omega) with ⟨hrest, hno⟩ | ⟨j, f, h1, h2, hf, hle, hrest, hno, hmin⟩
          · exact .inl ⟨hrest, hlow _ fun i h1 h2 => hno i h1 (by omega)⟩
          · exact .inr ⟨j, f, by omega, by omega, hf, hle, hrest, hlow j hno, hmin⟩

/-- **`qm_find_free` finds the smallest free fragment that is large enough**, if there is one. -/
theorem Mapped.findFree (hM : Mapped c q frags bins) (hs : s < 2 ^ 32) :
    qmFindFree c q s = .ok none ∧ (∀ g ∈ frags, Free c bins g → g.size < s)
      ∨ ∃ f ∈ frags, Free c bins f ∧ s ≤ f.size ∧ qmFindFree c q s = .ok (some f.addr)
        ∧ ∀ g ∈ frags, Free c bins g → s ≤ g.size → f.size ≤ g.size := by
  have hb := Mem.bucket_lt (c := c) hs
  have hrun : qmFindFree c q s = Mem.findFreeFrom c q s (c.hashSize - bucket c s) (bucket c s) := by
    rw [qmFindFree, getHash_eq hs]
    rfl
  rw [hrun]
  rcases hM.findFreeFrom (s := s) (h := bucket c s) (k := c.hashSize - bucket c s) (by omega) with
    ⟨hres, hno⟩ | ⟨j, f, h1, h2, hf, hle, hres, hno, hmin⟩
  · refine .inl ⟨hres, fun g hg hfree => ?_⟩
    by_contra hlt
    have hle := bucket_mono (c := c) (Nat.le_of_not_lt hlt)
    have hbg := hM.bucket_lt hg
    exact hlt (hno (bucket c g.size) hle (by omega) g hfree)
  · obtain ⟨hfr, hbf⟩ := hM.binned j (by omega) f hf
    refine .inr ⟨f, hfr, by unfold Free; rwa [hbf], hle, hres, fun g hg hfree hge => ?_⟩
    have hbg := hM.bucket_lt hg
    have hle' := bucket_mono (c := c) hge
    -- an earlier list has none that is large enough, a later one only larger ones
    rcases Nat.lt_trichotomy (bucket c g.size) j with hlt | heq | hgt
    · have := hno (bucket c g.size) hle' hlt g hfree
      omega
    · exact hmin g (heq ▸ hfree) hge
    · by_contra hlt
      have := bucket_mono (c := c) (Nat.le_of_lt (Nat.lt_of_not_le hlt))
      omega

/-! ## Taking and splitting -/

/-- A free fragment has a link. -/
theorem Mapped.next_ne_zero (hM : Mapped c q frags bins) (hf : f ∈ frags) (hfree : Free c bins f) :
    nxtFree q.mem f.addr ≠ 0 := by
  have hh := hM.bucket_lt hf
  have hlow : ∀ y ∈ q.headFrag c (bucket c f.size) :: bins (bucket c f.size), 0 < y.addr := by
    intro y hy
    have hpos := hM.area.1
    rcases List.mem_cons.mp hy with rfl | hy
    · exact Nat.lt_of_lt_of_le hpos (Nat.le_add_right _ _)
    · have hlo := (hM.frag_lt (hM.binned _ hh y hy).1).1
      have harea := hM.area.2
      omega
  have hring := hM.ring _ hh
  obtain ⟨as, bs, hcut⟩ := List.append_of_mem hfree
  rw [hcut] at hring hlow
  obtain ⟨y, vs, hy, hya⟩ := exists_next bs (q.headFrag c (bucket c f.size))
  have hyb : 0 < y.addr := by
    have hin : y ∈ bs ++ [q.headFrag c (bucket c f.size)] := by rw [hy]; simp
    refine hlow y ?_
    simp only [List.mem_append, List.mem_cons, List.not_mem_nil, or_false] at hin ⊢
    exact hin.elim (fun h => .inr (.inr (.inr h))) .inl
  have hlink : (links c q.mem).Link f.addr y.addr := by
    have hring' : Between (links c q.mem) (q.headFrag c (bucket c f.size)).addr
        ((as.map Frag.addr ++ [f.addr]) ++ bs.map Frag.addr) (q.headFrag c (bucket c f.size)).addr := by
      have hring' := hring
      unfold FreeList at hring'
      simpa using hring'
    exact @Between.link _ _ _ _ _ _ (_ :: as.map Frag.addr) _ _ _ hring' rfl hya
  have hnext : nxtFree q.mem f.addr = y.addr := Option.some.inj hlink.1
  omega

/-- **The checks of `qm_debug_frag`** find nothing wrong. -/
theorem Mapped.debug (hM : Mapped c q frags bins) (hf : f ∈ frags) :
    qmDebugFrag c q f.addr = .ok () := by
  by_cases hdbg : c.dbg = true
  · have hgood := hM.good f hf
    obtain ⟨hst, hcheck⟩ := hgood.check hdbg
    have htail : fragEndOf c q.mem f.addr = f.tail c := by
      unfold fragEndOf Frag.tail
      rw [hgood.size]
    -- the tail in front is that of the fragment before
    have hprev : q.firstFrag < f.addr → endChecked q.mem (f.addr - c.fragEnd) = true := by
      intro hlt
      obtain ⟨us, vs, rfl⟩ := List.append_of_mem hf
      rcases List.eq_nil_or_concat us with rfl | ⟨us, p, rfl⟩
      · have hfirst : f.addr = q.firstFrag := hM.tiles.1
        omega
      · have htiles := hM.tiles
        rw [List.concat_eq_append, List.append_assoc, List.singleton_append] at htiles
        have hnext := htiles.next
        have hp := (hM.good p (by simp)).check hdbg
        have hc := c.layout
        have heq : f.addr - c.fragEnd = p.tail c := by
          unfold Frag.len at hnext
          unfold Frag.tail
          omega
        rw [heq]
        exact hp.2
    unfold qmDebugFrag
    rw [if_neg (not_not.mpr hdbg), if_neg (not_not.mpr hst), htail, if_neg (not_not.mpr hcheck),
      if_neg fun h => h.2 (hprev h.1)]
  · exact if_pos hdbg

/-- Headers and tails do not depend on the links. -/
theorem Good.setNext (hg : Good c m f) (v : Nat) : Good c (setNxtFree m f.addr v) f := by
  have hl : Laid c m [f] := ⟨by simpa using hg.size, by simp⟩
  exact @Good.onlyLinks _ _ _ _ [f] _ hg hl (by simp) (by simp) (onlyLinks_setNext (by simp))

theorem tiles_single (f : Frag) : Tiles Frag.addr (Frag.len c) f.addr [f] (f.addr + f.len c) :=
  ⟨rfl, rfl⟩

/-- The fragment is marked as busy. -/
theorem Mapped.markBusy (hM : Mapped c q (xs ++ [f] ++ ys) bins) (hfree : ¬ Free c bins f) :
    Mapped c { q with mem := setNxtFree q.mem f.addr 0 } (xs ++ [f] ++ ys) bins := by
  have hc := c.layout
  have hgood := hM.good f (by simp)
  refine hM.refrag (by simp) (tiles_single f) (by simpa using hfree) (tiles_single f)
    (by simpa using hgood.setNext 0) fun a ha => Words.set_of_ne ?_
  unfold Frag.len at ha
  omega

/-- The words a split writes: two headers and two tails. -/
theorem splitMem_eq (c : Build) (m : Words) (f s rest : Nat) :
    splitMem c m f s rest
      = let e := f + c.frag + s
        let n := e + c.fragEnd
        let r := rest - c.overhead
        let m' := (((m.set f s).set (e + c.endSize) s).set n r).set (n + c.frag + r + c.endSize) r
        if c.dbg then
          ((m'.set e endCheckPattern1).set (e + 4) endCheckPattern2).set (n + 20) stCheckPattern
        else m' := by
  simp only [splitMem, fragEndOf, Words.set_same]

/-- **A fragment is split in two.** -/
theorem Mapped.split (hM : Mapped c q (xs ++ [f] ++ ys) bins) (hfree : ¬ Free c bins f)
    (hs : c.roundTo ∣ s) (hle : s + c.overhead ≤ f.size) :
    Mapped c { q with mem := splitMem c q.mem f.addr s (f.size - s) }
      (xs ++ [⟨f.addr, s⟩, ⟨f.addr + c.overhead + s, f.size - s - c.overhead⟩] ++ ys) bins := by
  have hgood := hM.good f (by simp)
  have hround := hgood.round
  have hov : c.overhead = c.frag + c.fragEnd := rfl
  have htail : f.tail c = f.addr + c.frag + s + c.fragEnd + c.frag + (f.size - s - c.overhead) := by
    unfold Frag.tail
    omega
  have hend := hgood.endSize
  have hchk := hgood.check
  rw [htail] at hend hchk
  rw [splitMem_eq]
  dsimp only
  refine hM.refrag (by simp) (tiles_single f) (by simpa using hfree) ?_ ?_ fun a ha => ?_
  · simp only [Tiles, Frag.len]
    refine ⟨trivial, ?_, ?_⟩ <;> omega
  · have hrest : c.roundTo ∣ f.size - s - c.overhead := by
      refine (Nat.dvd_sub (Nat.dvd_sub hround hs) ?_)
      rcases c.cases with ⟨-, h1, h2, -, -, h5⟩ | ⟨-, h1, h2, -, -, h5⟩
      · rw [hov, h1, h2, h5]
        decide
      · rw [hov, h1, h2, h5]
    have hn : f.addr + c.overhead + s = f.addr + c.frag + s + c.fragEnd := by omega
    rw [hn]
    rcases c.cases with ⟨hd, h1, h2, h3, -, -⟩ | ⟨hd, h1, h2, h3, -, -⟩
    · obtain ⟨hst, hcheck⟩ := hchk hd
      unfold endChecked at hcheck
      rw [if_pos hd]
      refine List.forall_mem_cons.mpr ⟨⟨?_, ?_, hs, fun _ => ⟨?_, ?_⟩⟩,
        List.forall_mem_singleton.mpr ⟨?_, ?_, hrest, fun _ => ⟨?_, ?_⟩⟩⟩
      all_goals simp only [Frag.tail, endChecked]
      all_goals simp (disch := omega) only [Words.set_of_ne, Words.set_of_eq]
      · exact hst
      · decide
      · exact hcheck
    · rw [if_neg (by rw [hd]; decide)]
      refine List.forall_mem_cons.mpr ⟨⟨?_, ?_, hs, fun h => absurd (hd.symm.trans h) (by decide)⟩,
        List.forall_mem_singleton.mpr
          ⟨?_, ?_, hrest, fun h => absurd (hd.symm.trans h) (by decide)⟩⟩
      all_goals simp only [Frag.tail]
      all_goals simp (disch := omega) only [Words.set_of_ne, Words.set_of_eq]
  · unfold Frag.len at ha
    rcases c.cases with ⟨hd, h1, h2, h3, -, -⟩ | ⟨hd, h1, h2, h3, -, -⟩
    · rw [if_pos hd]
      simp (disch := omega) only [Words.set_of_ne]
    · rw [if_neg (by rw [hd]; decide)]
      simp (disch := omega) only [Words.set_of_ne]

/-! ## The books -/

theorem Mapped.nodup (hM : Mapped c q frags bins) : frags.Nodup := by
  refine hM.tiles.pairwise.imp fun {f g} h => ?_
  rintro rfl
  have hc := c.layout
  unfold Frag.len at h
  omega

/-- What is in the middle of a list, or around it. -/
theorem mem_splice {ms : List Frag} : f ∈ xs ++ ms ++ ys ↔ f ∈ ms ∨ f ∈ xs ++ ys := by
  simp only [List.mem_append]
  exact ⟨fun h => h.elim (fun h => h.elim (.inr ∘ .inl) .inl) (.inr ∘ .inr),
    fun h => h.elim (.inl ∘ .inr) fun h => h.imp_left .inl⟩

/-- Only what is in the middle changes. -/
theorem busy_splice {ms : List Frag} {bins' : Nat → List Frag}
    (hsame : ∀ y ∈ xs ++ ys, Free c bins' y ↔ Free c bins y) :
    Busy c (xs ++ ms ++ ys) bins' f
      ↔ f ∈ ms ∧ ¬ Free c bins' f ∨ f ∈ xs ++ ys ∧ ¬ Free c bins f := by
  rw [Busy, mem_splice, or_and_right]
  exact or_congr_right (and_congr_right fun h => not_congr (hsame f h))

/-- A fragment is none of those beside it. -/
theorem Mapped.notMem_rest (hM : Mapped c q (xs ++ [f] ++ ys) bins) : f ∉ xs ++ ys := by
  have hnd := hM.nodup
  rw [List.append_assoc, List.singleton_append] at hnd
  exact (List.nodup_middle.mp hnd).notMem

theorem Mapped.apart_rest (hM : Mapped c q (xs ++ [f] ++ ys) bins) (hy : x ∈ xs ++ ys) :
    Apart c x f :=
  (hM.laid.apart x (List.mem_append_right _ (mem_splice.mpr (.inr hy))) f
    (List.mem_append_right _ (mem_splice.mpr (.inl (List.mem_singleton_self f))))).resolve_left
    fun he => hM.notMem_rest (he ▸ hy)

theorem SamePool.trans {q' q'' : QmBlock} (h : SamePool q q') (h' : SamePool q' q'') :
    SamePool q q'' := ⟨h'.1.trans h.1, h'.2.1.trans h.2.1, h'.2.2.trans h.2.2⟩

theorem busySize_append : busySize c bins (xs ++ ys) = busySize c bins xs + busySize c bins ys := by
  simp [busySize]

theorem busySize_congr {bins' : Nat → List Frag}
    (h : ∀ g ∈ xs, Free c bins' g ↔ Free c bins g) : busySize c bins' xs = busySize c bins xs := by
  unfold busySize
  congr 1
  exact List.map_congr_left fun g hg => if_congr (h g hg) rfl rfl

theorem busySize_free (h : ∀ g ∈ xs, Free c bins g) : busySize c bins xs = 0 := by
  unfold busySize
  rw [List.map_congr_left fun g hg => if_pos (h g hg)]
  simp

theorem busySize_busy (h : ¬ Free c bins f) : busySize c bins [f] = f.size := by
  simp [busySize, h]

/-- Whatever is in the pool is free, in use, or a header or tail. -/
theorem freeSize_add : freeSize c bins xs + busySize c bins xs + c.overhead * xs.length
    = (xs.map (Frag.len c)).sum := by
  induction xs with
  | nil => rfl
  | cons x xs ih =>
      have hx : (if Free c bins x then x.size else 0) + (if Free c bins x then 0 else x.size)
          = x.size := by
        split <;> omega
      unfold freeSize busySize at *
      simp only [List.map_cons, List.sum_cons, List.length_cons, Nat.mul_succ]
      unfold Frag.len at *
      omega

/-- What is in use before and after one fragment is taken. -/
theorem busySize_take {bins' : Nat → List Frag} {rest : List Frag} (hf : Free c bins f)
    (hg : ¬ Free c bins' g) (hrest : ∀ y ∈ rest, Free c bins' y)
    (hsame : ∀ y ∈ xs ++ ys, Free c bins' y ↔ Free c bins y) :
    busySize c bins' (xs ++ (g :: rest) ++ ys) = busySize c bins (xs ++ [f] ++ ys) + g.size := by
  have hxs := busySize_congr fun y hy => hsame y (List.mem_append_left ys hy)
  have hys := busySize_congr fun y hy => hsame y (List.mem_append_right xs hy)
  have hsplit : g :: rest = [g] ++ rest := rfl
  rw [hsplit]
  simp only [busySize_append]
  rw [hxs, hys, busySize_free hrest, busySize_busy hg, @busySize_free _ [f] _ (by simpa using hf)]
  omega

/-- What a call leaves is sound again, once the links and the books are right. -/
theorem Sound.of_take {q' : QmBlock} {bins' : Nat → List Frag} {rest : List Frag}
    (hS : Sound c q (xs ++ [f] ++ ys) bins) (hf : Free c bins f)
    (hM : Mapped c q' (xs ++ (g :: rest) ++ ys) bins') (hg : ¬ Free c bins' g)
    (hrest : ∀ y ∈ rest, Free c bins' y)
    (hend : ∀ y ∈ rest, f.addr < y.addr ∧ y.addr + y.len c = f.addr + f.len c)
    (hsame : ∀ y ∈ xs ++ ys, Free c bins' y ↔ Free c bins y)
    (hgn : q'.mem g.nextAt = 0)
    (hkeep : ∀ y ∈ xs ++ ys, ¬ Free c bins y → Keeps c q.mem q'.mem y)
    (hpool : SamePool q q') (hused : q'.used = q.used + g.size)
    (hreal : q'.realUsed = q.realUsed + c.overhead * rest.length + g.size)
    (hpeak : q'.realUsed ≤ q'.maxRealUsed) : Sound c q' (xs ++ (g :: rest) ++ ys) bins' := by
  have hsum := busySize_take hf hg hrest hsame
  have hc := c.layout
  refine { toMapped := hM, control := hpool.2.1 ▸ hS.control, busy := fun y hy hyf => ?_,
           total := ?_, used := ?_, realUsed := ?_, peak := hpeak, joined := fun hj => ?_ }
  · by_cases hyg : y = g
    · rw [hyg]
      exact hgn
    · have hy' : y ∈ xs ++ ys := (mem_splice.mp hy).resolve_left fun h =>
        hyf (hrest y ((List.mem_cons.mp h).resolve_left hyg))
      have hyb : ¬ Free c bins y := fun h => hyf ((hsame y hy').mpr h)
      have hyn := hS.busy y (mem_splice.mpr (.inr hy')) hyb
      rw [hkeep y hy' hyb y.nextAt (by unfold Frag.nextAt; omega)
        (by unfold Frag.nextAt Frag.len; omega), hyn]
  · rw [hpool.1, hpool.2.1, hpool.2.2]
    exact hS.total
  · rw [hused, hsum, hS.used]
  · rw [hreal, hsum, hS.realUsed]
    simp only [List.length_append, List.length_cons, List.length_nil, Nat.mul_add, Nat.mul_one]
    omega
  · have hold := hS.joined hj
    have hmem : ∀ y ∈ xs ++ (g :: rest) ++ ys, Free c bins' y →
        y ∈ rest ∨ y ∈ xs ++ [f] ++ ys ∧ Free c bins y ∧ y ∈ xs ++ ys := by
      intro y hy hyf
      have hy' : y ∈ rest ∨ y ∈ xs ++ ys := (mem_splice.mp hy).imp_left fun h =>
        (List.mem_cons.mp h).resolve_left fun (he : y = g) => hg (he ▸ hyf)
      exact hy'.imp_right fun hy => ⟨mem_splice.mpr (.inr hy), (hsame y hy).mp hyf, hy⟩
    have hff : f ∈ xs ++ [f] ++ ys := by simp
    intro y hy z hz hyf hzf
    rcases hmem y hy hyf with hy | ⟨hyo, hyf, hyx⟩ <;> rcases hmem z hz hzf with hz | ⟨hzo, hzf, hzx⟩
    · have h1 := hend y hy
      have h2 := hend z hz
      unfold Frag.len at *
      omega
    · have h1 := hend y hy
      have h2 := hold f hff z hzo hf hzf
      omega
    · have h1 := hend z hz
      rcases hS.laid.apart y (List.mem_append_right _ hyo) f (List.mem_append_right _ hff) with rfl | hap
      · exact absurd hyx hS.notMem_rest
      · unfold Apart at hap
        unfold Frag.len at *
        omega
    · exact hold y hyo z hzo hyf hzf

theorem Keeps.trans {m'' : Words} (h : Keeps c m m' f) (h' : Keeps c m' m'' f) : Keeps c m m'' f :=
  fun a hlo hhi => (h' a hlo hhi).trans (h a hlo hhi)

/-- What is written inside of one fragment is not in another one. -/
theorem Keeps.of_outside (hap : Apart c g f)
    (hm : ∀ a, a < f.addr ∨ f.addr + f.len c ≤ a → m' a = m a) : Keeps c m m' g := by
  intro a hlo hhi
  unfold Apart at hap
  exact hm a (by omega)

/-- Taking a fragment out of a list touches nothing that is in use. -/
theorem Mapped.detach_keeps (hM : Mapped c q frags bins) (hx : x ∈ frags) (hfree : Free c bins x)
    (hf : f ∈ frags) (hb : ¬ Free c bins f) : Keeps c q.mem (qmDetachFree c q x.addr).mem f := by
  have hh := hM.bucket_lt hx
  have honly := (hM.detach hh hfree).1
  refine Keeps.onlyLinks hM.laid (List.mem_append_right _ hf) (fun y hy => ?_) ?_ honly
  · refine hM.bin_sub hh y ?_
    rcases List.mem_cons.mp hy with rfl | hy
    · exact List.mem_cons_self
    · exact List.mem_cons_of_mem _ (List.mem_of_mem_erase hy)
  · intro hy
    rcases List.mem_cons.mp hy with rfl | hy
    · exact hM.head_notMem hh hf
    · have hy := List.mem_of_mem_erase hy
      exact hM.notMem_bin hb hh hy

/-- Nor does putting one into a list. -/
theorem Mapped.insert_keeps (hM : Mapped c q frags bins) (hx : x ∈ frags)
    (hm : OnlyLinks c (x :: q.headFrag c (bucket c x.size) :: bins (bucket c x.size)) q.mem m')
    (hf : f ∈ frags) (hb : ¬ Free c bins f) (hne : f ≠ x) : Keeps c q.mem m' f := by
  have hh := hM.bucket_lt hx
  refine Keeps.onlyLinks hM.laid (List.mem_append_right _ hf) (fun y hy => ?_) ?_ hm
  · rcases List.mem_cons.mp hy with rfl | hy
    · exact List.mem_append_right _ hx
    · exact hM.bin_sub hh y hy
  · intro hy
    rcases List.mem_cons.mp hy with heq | hy
    · exact hne heq
    · rcases List.mem_cons.mp hy with rfl | hy
      · exact hM.head_notMem hh hf
      · exact hM.notMem_bin hb hh hy

/-- The check pattern is there already. -/
theorem Good.recheck (hg : Good c m f) :
    (if c.dbg then m.set (f.addr + 20) stCheckPattern else m) = m := by
  split
  next h => exact Words.set_self (hg.check h).1
  next => rfl

theorem le_peak (a b : Nat) : b ≤ if a < b then b else a := by
  split <;> omega

/-- A split does not write outside of the fragment. -/
theorem splitMem_outside {a : Nat} (hle : s + c.overhead ≤ f.size)
    (ha : a < f.addr ∨ f.addr + f.len c ≤ a ∨ a = f.nextAt) :
    splitMem c m f.addr s (f.size - s) a = m a := by
  have hov : c.overhead = c.frag + c.fragEnd := rfl
  unfold Frag.len Frag.nextAt at ha
  rw [splitMem_eq]
  dsimp only
  rcases c.cases with ⟨hd, h1, h2, h3, -, -⟩ | ⟨hd, h1, h2, h3, -, -⟩
  · rw [if_pos hd]
    simp (disch := omega) only [Words.set_of_ne]
  · rw [if_neg (by rw [hd]; decide)]
    simp (disch := omega) only [Words.set_of_ne]

/-- **`qm_insert_free`**, with what it does not touch. -/
theorem Mapped.insertFree (hM : Mapped c q frags bins) (hx : x ∈ frags) (hfree : ¬ Free c bins x) :
    ∃ q' bins', qmInsertFree c q x.addr = .ok q' ∧ Mapped c q' frags bins'
      ∧ (∀ y, Free c bins' y ↔ y = x ∨ Free c bins y)
      ∧ (∀ y ∈ frags, ¬ Free c bins' y → Keeps c q.mem q'.mem y)
      ∧ SamePool q q'
      ∧ q'.used = q.used ∧ q'.realUsed = q.realUsed ∧ q'.maxRealUsed = q.maxRealUsed := by
  obtain ⟨m', hins, honly, hM'⟩ := hM.insert hx rfl hfree
  have hiff : ∀ y, Free c (Function.update bins (bucket c x.size)
      ((bins (bucket c x.size)).orderedInsert Frag.NoLarger x)) y ↔ y = x ∨ Free c bins y :=
    fun y => free_insert rfl
  refine ⟨_, _, hins, hM', hiff, fun y hy hyf => ?_, ⟨rfl, rfl, rfl⟩, rfl, rfl, rfl⟩
  refine hM.insert_keeps hx honly hy (fun h => hyf ((hiff y).mpr (.inr h))) ?_
  rintro rfl
  exact hyf ((hiff y).mpr (.inl rfl))

/-- **`qm_detach_free`**, with what it does not touch. -/
theorem Mapped.detachFree (hM : Mapped c q frags bins) (hx : x ∈ frags) (hfree : Free c bins x) :
    ∃ bins', Mapped c (qmDetachFree c q x.addr) frags bins'
      ∧ (∀ y, Free c bins' y ↔ y ≠ x ∧ Free c bins y)
      ∧ (∀ y ∈ frags, ¬ Free c bins y → Keeps c q.mem (qmDetachFree c q x.addr).mem y) := by
  have hh := hM.bucket_lt hx
  exact ⟨_, (hM.detach hh hfree).2, fun y => free_erase rfl (hM.ring _ hh).nodup.of_cons,
    fun y hy hyb => hM.detach_keeps hx hfree hy hyb⟩

/-- **What is left of a fragment that is split** goes into a list. -/
theorem Mapped.splitFrag (hM : Mapped c q (xs ++ [f] ++ ys) bins) (hfree : ¬ Free c bins f)
    (hs : c.roundTo ∣ s) (hle : s + c.overhead ≤ f.size) :
    ∃ q' g n bins', splitFrag c q f.addr s (f.size - s) = .ok q'
      ∧ g = ⟨f.addr, s⟩ ∧ f.addr < n.addr ∧ n.addr + n.len c = f.addr + f.len c
      ∧ Mapped c q' (xs ++ [g, n] ++ ys) bins' ∧ ¬ Free c bins' g ∧ Free c bins' n
      ∧ (∀ y ∈ xs ++ ys, Free c bins' y ↔ Free c bins y)
      ∧ (∀ y ∈ xs ++ ys, ¬ Free c bins y → Keeps c q.mem q'.mem y)
      ∧ q'.mem g.nextAt = q.mem f.nextAt ∧ SamePool q q' ∧ q'.used = q.used
      ∧ q'.realUsed = q.realUsed + c.overhead ∧ q'.maxRealUsed = q.maxRealUsed := by
  have hc := c.layout
  have hov : c.overhead = c.frag + c.fragEnd := rfl
  obtain ⟨n, hn⟩ : ∃ n : Frag, n = ⟨f.addr + c.overhead + s, f.size - s - c.overhead⟩ := ⟨_, rfl⟩
  obtain ⟨g, hg⟩ : ∃ g : Frag, g = ⟨f.addr, s⟩ := ⟨_, rfl⟩
  obtain ⟨q1, hq1⟩ : ∃ q1, q1 = { q with
    mem := splitMem c q.mem f.addr s (f.size - s), realUsed := q.realUsed + c.overhead } := ⟨_, rfl⟩
  have hM1 : Mapped c q1 (xs ++ [g, n] ++ ys) bins := by
    rw [hq1, hn, hg]
    exact (hM.split hfree hs hle).books q.used (q.realUsed + c.overhead) q.maxRealUsed
  have hmem1 : q1.mem = splitMem c q.mem f.addr s (f.size - s) := by rw [hq1]
  have hnf : n.addr = f.addr + c.overhead + s ∧ n.size = f.size - s - c.overhead := by
    rw [hn]
    exact ⟨rfl, rfl⟩
  have hgf : g.addr = f.addr ∧ g.size = s := by
    rw [hg]
    exact ⟨rfl, rfl⟩
  have hff : f ∈ xs ++ [f] ++ ys := by simp
  have hgm : g ∈ xs ++ [g, n] ++ ys := by simp
  have hnm : n ∈ xs ++ [g, n] ++ ys := by simp
  have hold : ∀ y ∈ xs ++ ys, y ∈ xs ++ [f] ++ ys ∧ y ∈ xs ++ [g, n] ++ ys := fun y hy =>
    ⟨mem_splice.mpr (.inr hy), mem_splice.mpr (.inr hy)⟩
  -- neither of the two is a fragment there was
  have hnew : ∀ y ∈ xs ++ [g, n] ++ ys, f.addr ≤ y.addr → y.addr < f.addr + f.len c → y ≠ f →
      ¬ Free c bins y := by
    intro y hy hlo hhi hne hyf
    have hyo := (hM.binned _ (hM1.bucket_lt hy) y hyf).1
    have hap := (hM.laid.apart y (List.mem_append_right _ hyo) f
      (List.mem_append_right _ hff)).resolve_left hne
    unfold Apart Frag.len at hap
    unfold Frag.len at hhi
    omega
  have hg1 : ¬ Free c bins g := by
    refine hnew g hgm (by omega) (by unfold Frag.len; omega) ?_
    rintro rfl
    omega
  have hn1 : ¬ Free c bins n := by
    refine hnew n hnm (by omega) (by unfold Frag.len; omega) ?_
    rintro rfl
    omega
  have hnxy : n ∉ xs ++ ys := by
    have hcut : xs ++ [g, n] ++ ys = (xs ++ [g]) ++ [n] ++ ys := by simp
    have hno := (hcut ▸ hM1).notMem_rest
    simp only [List.mem_append] at hno ⊢
    exact fun h => hno (h.imp_left .inl)
  have hngn : n ≠ g := by
    rintro rfl
    omega
  have hnaddr : fragNext c q1.mem f.addr = n.addr := by
    unfold fragNext
    rw [← hgf.1, (hM1.good g hgm).size]
    omega
  obtain ⟨q2, bins2, hins, hM2, hfree2, hkeep2, hconst, hu, hr, hp⟩ := hM1.insertFree hnm hn1
  have hg2 : ¬ Free c bins2 g := fun h => ((hfree2 g).mp h).elim hngn.symm hg1
  have hsame : ∀ y ∈ xs ++ ys, Free c bins2 y ↔ Free c bins y := fun y hy =>
    (hfree2 y).trans ⟨fun h => h.resolve_left fun he => hnxy (he ▸ hy), .inr⟩
  refine ⟨q2, g, n, bins2, ?_, hg, by omega, ?_, hM2, hg2, (hfree2 n).mpr (.inl rfl), hsame,
    fun y hy hyb => ?_, ?_, ?_, ?_, ?_, ?_⟩
  · rw [Mem.splitFrag, ← hmem1, hnaddr, hmem1, ← hq1]
    exact hins
  · unfold Frag.len
    omega
  · have hk : Keeps c q.mem q1.mem y := by
      rw [hmem1]
      exact Keeps.of_outside (hM.apart_rest hy) fun a ha => splitMem_outside hle (ha.imp_right .inl)
    exact hk.trans (hkeep2 y (hold y hy).2 fun h => hyb ((hsame y hy).mp h))
  · have hfn : g.nextAt = f.nextAt := by
      unfold Frag.nextAt
      rw [hgf.1]
    rw [hkeep2 g hgm hg2 g.nextAt (by unfold Frag.nextAt; omega)
      (by unfold Frag.nextAt Frag.len; omega), hfn, hmem1]
    exact splitMem_outside hle (.inr (.inr rfl))
  · exact SamePool.trans (by rw [hq1]; exact ⟨rfl, rfl, rfl⟩) hconst
  · rw [hu, hq1]
  · rw [hr, hq1]
  · rw [hp, hq1]

/-- **`qm_malloc` takes a free fragment**, or the front part of it. -/
theorem Sound.take (hS : Sound c q (xs ++ [f] ++ ys) bins) (hf : Free c bins f)
    (hs : c.roundTo ∣ s) (hle : s ≤ f.size) :
    ∃ q' g rest bins', takeFrag c q f.addr s = .ok (f.addr + c.frag, q')
      ∧ g.addr = f.addr ∧ s ≤ g.size ∧ Sound c q' (xs ++ (g :: rest) ++ ys) bins'
      ∧ ¬ Free c bins' g ∧ (∀ y ∈ rest, Free c bins' y)
      ∧ (∀ y ∈ xs ++ ys, Free c bins' y ↔ Free c bins y)
      ∧ (∀ y ∈ xs ++ ys, ¬ Free c bins y → Keeps c q.mem q'.mem y)
      ∧ SamePool q q' := by
  have hc := c.layout
  have hff : f ∈ xs ++ [f] ++ ys := by simp
  have hnf := hS.notMem_rest
  have hold : ∀ y ∈ xs ++ ys, y ∈ xs ++ [f] ++ ys := fun y hy => mem_splice.mpr (.inr hy)
  -- the fragment is detached and marked
  obtain ⟨bins1, hM1, hfree1, hkeep1⟩ := hS.detachFree hff hf
  have hf1 : ¬ Free c bins1 f := fun h => ((hfree1 f).mp h).1 rfl
  obtain ⟨q1, hq1⟩ : ∃ q1, q1 = { qmDetachFree c q f.addr with
    mem := setNxtFree (qmDetachFree c q f.addr).mem f.addr 0 } := ⟨_, rfl⟩
  have hM2 := hM1.markBusy hf1
  rw [← hq1] at hM2
  have hsame1 : ∀ y ∈ xs ++ ys, Free c bins1 y ↔ Free c bins y := fun y hy =>
    (hfree1 y).trans ⟨And.right, fun h => ⟨fun he => hnf (he ▸ hy), h⟩⟩
  have hkeep : ∀ y ∈ xs ++ ys, ¬ Free c bins y → Keeps c q.mem q1.mem y := by
    intro y hy hyb
    refine (hkeep1 y (hold y hy) hyb).trans (Keeps.of_outside (hS.apart_rest hy) fun a ha => ?_)
    rw [hq1]
    refine Words.set_of_ne ?_
    unfold Frag.len at ha
    omega
  have hnext : q1.mem f.nextAt = 0 := by
    rw [hq1]
    exact Words.set_same _ _ _
  have hconst : SamePool q q1 ∧ q1.used = q.used ∧ q1.realUsed = q.realUsed
      ∧ q1.maxRealUsed = q.maxRealUsed := by
    rw [hq1]
    exact ⟨⟨rfl, rfl, rfl⟩, rfl, rfl, rfl⟩
  obtain ⟨hpool, hu, hr, -⟩ := hconst
  have hrun : takeFrag c q f.addr s = useFrag c q1 f.addr s := by
    rw [takeFrag, hS.debug hff, hq1]
    rfl
  rw [hrun, useFrag, (hM2.good f hff).size]
  dsimp only
  by_cases hsplit : c.overhead + c.roundTo < f.size - s
  · obtain ⟨q2, g, n, bins2, hsf, hg, hnlo, hnhi, hM3, hg3, hn3, hsame3, hkeep3, hgn, hpool3, hu3,
      hr3, -⟩ := hM2.splitFrag hf1 hs (by omega)
    have hgf : g.addr = f.addr ∧ g.size = s := by
      rw [hg]
      exact ⟨rfl, rfl⟩
    have hgood := hM3.good g (by simp)
    have hsame : ∀ y ∈ xs ++ ys, Free c bins2 y ↔ Free c bins y := fun y hy =>
      (hsame3 y hy).trans (hsame1 y hy)
    have hkeep' : ∀ y ∈ xs ++ ys, ¬ Free c bins y → Keeps c q.mem q2.mem y := fun y hy hyb =>
      (hkeep y hy hyb).trans (hkeep3 y hy fun h => hyb ((hsame1 y hy).mp h))
    have hrest : ∀ y ∈ [n], Free c bins2 y := List.forall_mem_singleton.mpr hn3
    rw [if_pos hsplit, hsf, Res.ok_bind, ← hgf.1, hgood.size, hgood.recheck]
    refine ⟨_, g, [n], bins2, rfl, rfl, hgf.2 ▸ Nat.le_refl _, ?_, hg3, hrest, hsame, hkeep',
      hpool.trans hpool3⟩
    refine hS.of_take hf (hM3.books _ _ _) hg3 hrest (List.forall_mem_singleton.mpr ⟨hnlo, hnhi⟩)
      hsame (hgn.trans hnext) hkeep' (hpool.trans hpool3) ?_ ?_ (le_peak _ _)
    · rw [hu3, hu]
    · rw [hr3, hr, List.length_singleton, Nat.mul_one]
  · rw [if_neg hsplit, Res.ok_bind, (hM2.good f hff).size, (hM2.good f hff).recheck]
    refine ⟨_, f, [], bins1, rfl, rfl, hle, ?_, hf1, by simp, hsame1, hkeep, hpool⟩
    refine hS.of_take hf (hM2.books _ _ _) hf1 (by simp) (by simp) hsame1 hnext hkeep hpool ?_ ?_
      (le_peak _ _)
    · rw [hu]
    · rw [hr]
      rfl

/-- **`qm_malloc` fails** if there is nothing large enough, or it thinks so; else it takes the
smallest free fragment that is large enough. -/
theorem Sound.malloc (hS : Sound c q frags bins) {n : Nat} :
    (qmMalloc c q n = .ok (0, q) ∧ (usub q.size q.realUsed < c.roundUp n
      ∨ ∀ g ∈ frags, Free c bins g → g.size < c.roundUp n))
    ∨ ∃ f ∈ frags, (Free c bins f ∧ c.roundUp n ≤ f.size ∧ c.roundUp n ≤ usub q.size q.realUsed
        ∧ ∀ g ∈ frags, Free c bins g → c.roundUp n ≤ g.size → f.size ≤ g.size)
      ∧ ∃ q' g frags' bins', qmMalloc c q n = .ok (f.addr + c.frag, q') ∧ g.addr = f.addr
        ∧ c.roundUp n ≤ g.size ∧ Sound c q' frags' bins' ∧ SamePool q q'
        ∧ (∀ y, Busy c frags' bins' y ↔ y = g ∨ Busy c frags bins y)
        ∧ (∀ y, Busy c frags bins y → Keeps c q.mem q'.mem y)
        ∧ ∀ y ∈ frags, ∃ z ∈ frags', z.addr = y.addr := by
  obtain ⟨s, hs⟩ : ∃ s, s = c.roundUp n := ⟨_, rfl⟩
  have hdvd : c.roundTo ∣ s := hs ▸ Nat.dvd_mul_left _ _
  have hlt : s < 2 ^ 32 := by
    have hmod := Nat.mod_lt (n + (c.roundTo - 1)) (y := 2 ^ 32) (by decide)
    have hdiv := Nat.div_mul_le_self ((n + (c.roundTo - 1)) % 2 ^ 32) c.roundTo
    rw [hs]
    unfold Build.roundUp
    omega
  rw [qmMalloc, ← hs]
  by_cases hquick : usub q.size q.realUsed < s
  · rw [if_pos hquick]
    exact .inl ⟨rfl, .inl hquick⟩
  · rw [if_neg hquick]
    rcases hS.findFree hlt with ⟨hres, hno⟩ | ⟨f, hf, hfree, hle, hres, hmin⟩
    · rw [hres]
      exact .inl ⟨rfl, .inr hno⟩
    · obtain ⟨xs, ys, hcut⟩ := List.append_of_mem hf
      have hcut' : frags = xs ++ [f] ++ ys := by rw [hcut]; simp
      obtain ⟨q', g, rest, bins', htake, hga, hgs, hS', hg, hrest, hsame, hkeep, hpool⟩ :=
        (hcut' ▸ hS).take hfree hdvd hle
      refine .inr ⟨f, hf, ⟨hfree, hle, Nat.le_of_not_lt hquick, hmin⟩, q', g, _, bins', ?_, hga, hgs,
        hS', hpool, fun y => ?_, fun y hy => ?_, fun y hy => ?_⟩
      · rw [hres]
        exact htake
      · have hbefore : Busy c frags bins y ↔ y ∈ xs ++ ys ∧ ¬ Free c bins y := by
          rw [hcut', busy_splice fun _ _ => Iff.rfl]
          refine or_iff_right fun h => h.2 ?_
          rw [List.mem_singleton.mp h.1]
          exact hfree
        rw [hbefore, busy_splice hsame]
        refine or_congr_left ⟨fun h => ?_, fun h => ⟨h ▸ List.mem_cons_self, h ▸ hg⟩⟩
        exact (List.mem_cons.mp h.1).resolve_right fun hr => h.2 (hrest y hr)
      · refine hkeep y ?_ hy.2
        refine (mem_splice.mp (hcut' ▸ hy.1)).resolve_left fun h => hy.2 ?_
        rw [List.mem_singleton.mp h]
        exact hfree
      · rcases mem_splice.mp (hcut' ▸ hy) with h | h
        · exact ⟨g, mem_splice.mpr (.inl List.mem_cons_self), by rw [hga, List.mem_singleton.mp h]⟩
        · exact ⟨y, mem_splice.mpr (.inr h), rfl⟩

end Disc.Mem
