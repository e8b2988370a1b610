import Mathlib.Algebra.BigOperators.Ring.List
import Mathlib.Algebra.Ring.Nat
import Disc.Mem.Malloc

/-!
# Giving a fragment back

`qm_free` puts a fragment into the list of its size. With `QM_JOIN_FREE` the free neighbours
are taken out of their lists before, and what goes into a list is one fragment that covers all
of them: there are never two free fragments side by side.
-/

namespace Disc.Mem

open Disc.Lib

/-- The fragments `gs` were taken out of their lists, and are no fragments of the books. -/
structure Taken (c : Build) (q q' : QmBlock) (frags : List Frag) (bins bins' : Nat → List Frag)
    (gs : List Frag) : Prop where
  mapped : Mapped c q' frags bins'
  free : ∀ y, Free c bins' y ↔ y ∉ gs ∧ Free c bins y
  keeps : ∀ y ∈ frags, ¬ Free c bins y → Keeps c q.mem q'.mem y
  pool : SamePool q q'
  used : q'.used = q.used
  peak : q'.maxRealUsed = q.maxRealUsed
  realUsed : c.overhead * gs.length ≤ q.realUsed → q.realUsed < 2 ^ 32 →
    q'.realUsed = q.realUsed - c.overhead * gs.length

variable {c : Build} {q : QmBlock} {frags xs ys ms gs ps : List Frag} {bins : Nat → List Frag}
  {m : Words} {f g l x : Frag} {h s p p' : Nat}

theorem Taken.none (hM : Mapped c q frags bins) : Taken c q q frags bins bins [] where
  mapped := hM
  free y := by simp
  keeps y _ _ a _ _ := rfl
  pool := ⟨rfl, rfl, rfl⟩
  used := rfl
  peak := rfl
  realUsed _ _ := rfl

/-- **A free fragment is taken out** to be joined with another one. -/
theorem Taken.one (hM : Mapped c q frags bins) (hg : g ∈ frags) (hfree : Free c bins g) :
    ∃ bins', Taken c q { qmDetachFree c q g.addr with realUsed := usub q.realUsed c.overhead }
      frags bins bins' [g] := by
  obtain ⟨bins', hM', hiff, hkeep⟩ := hM.detachFree hg hfree
  refine ⟨bins', ⟨hM'.books _ _ _, fun y => ?_, hkeep, ⟨rfl, rfl, rfl⟩, rfl, rfl,
    fun hle hlt => ?_⟩⟩
  · rw [hiff, List.mem_singleton]
  · rw [List.length_singleton, Nat.mul_one] at *
    exact usub_eq hle hlt

theorem Taken.trans {q' q'' : QmBlock} {bins' bins'' : Nat → List Frag}
    (h : Taken c q q' frags bins bins' gs) (h' : Taken c q' q'' frags bins' bins'' ps) :
    Taken c q q'' frags bins bins'' (ps ++ gs) where
  mapped := h'.mapped
  free y := by
    rw [h'.free, h.free, List.mem_append, not_or, and_assoc]
  keeps y hy hyb := (h.keeps y hy hyb).trans (h'.keeps y hy fun hf => hyb ((h.free y).mp hf).2)
  pool := h.pool.trans h'.pool
  used := h'.used.trans h.used
  peak := h'.peak.trans h.peak
  realUsed hle hlt := by
    rw [List.length_append, Nat.mul_add] at hle ⊢
    have h1 := h.realUsed (by omega) hlt
    rw [h'.realUsed (by omega) (by omega), h1]
    omega

/-! ## The neighbours -/

/-- Two free fragments are not side by side. -/
def Spaced (c : Build) (frags : List Frag) (bins : Nat → List Frag) : Prop :=
  ∀ f ∈ frags, ∀ g ∈ frags, Free c bins f → Free c bins g → f.addr + f.len c ≠ g.addr

/-- **The next fragment** is joined if it is free. -/
theorem Mapped.joinNext (hM : Mapped c q (xs ++ [f] ++ ys) bins)
    (hbusy : ∀ y ∈ ys, ¬ Free c bins y → q.mem y.nextAt = 0)
    (hspaced : Spaced c (xs ++ [f] ++ ys) bins) :
    ∃ gs zs q' bins', ys = gs ++ zs ∧ (∀ y ∈ gs, Free c bins y)
      ∧ joinNext c q f.addr = ((gs.map (Frag.len c)).sum, q')
      ∧ Taken c q q' (xs ++ [f] ++ ys) bins bins' gs
      ∧ ∀ z ∈ xs ++ [f] ++ ys, Free c bins' z →
          f.addr + f.len c + (gs.map (Frag.len c)).sum ≠ z.addr := by
  have hc := c.layout
  have hnext : fragNext c q.mem f.addr = f.addr + f.len c := by
    unfold fragNext Frag.len
    rw [(hM.good f (by simp)).size]
    omega
  rw [Mem.joinNext, hnext]
  cases ys with
  | nil =>
      -- there is nothing behind the last fragment
      have hend := hM.tiles
      rw [List.append_nil] at hend
      have hlast := hend.last
      refine ⟨[], [], q, bins, rfl, by simp, ?_, Taken.none hM, fun z hz hzf he => ?_⟩
      · rw [if_neg fun h => by omega]
        rfl
      · have hb := (hM.frag_lt hz).2.1
        unfold Frag.len at *
        simp only [List.map_nil, List.sum_nil] at he
        omega
  | cons g zs =>
      have hmid : xs ++ [f] ++ g :: zs = xs ++ f :: g :: zs := by simp
      have haddr : g.addr = f.addr + f.len c := by
        have ht := hM.tiles
        rw [hmid] at ht
        exact ht.next
      have hg : g ∈ xs ++ [f] ++ g :: zs := by simp
      have hb := (hM.frag_lt hg).2.1
      have hlt : g.addr < q.lastFragEnd := by
        unfold Frag.len at hb
        omega
      rw [← haddr]
      by_cases hfree : Free c bins g
      · obtain ⟨bins', htaken⟩ := Taken.one hM hg hfree
        refine ⟨[g], zs, _, bins', rfl, by simpa using hfree, ?_, htaken, fun z hz hzf => ?_⟩
        · rw [if_pos ⟨hlt, hM.next_ne_zero hg hfree⟩]
          dsimp only
          rw [(htaken.mapped.good g hg).size]
          simp only [List.map_cons, List.map_nil, List.sum_cons, List.sum_nil, Nat.add_zero]
          rw [Nat.add_comm]
          rfl
        · simp only [List.map_cons, List.map_nil, List.sum_cons, List.sum_nil, Nat.add_zero]
          exact hspaced g hg z hz hfree ((htaken.free z).mp hzf).2
      · refine ⟨[], g :: zs, q, bins, rfl, by simp, ?_, Taken.none hM, fun z hz hzf he => ?_⟩
        · rw [if_neg fun h => h.2 (hbusy g (by simp) hfree)]
          rfl
        · have heq : g = z := hM.laid.eq_of_addr (List.mem_append_right _ hg)
            (List.mem_append_right _ hz) he
          exact hfree (heq ▸ hzf)

/-- **The previous fragment** is joined if it is free. -/
theorem Mapped.joinPrev (hM : Mapped c q (xs ++ [f] ++ ys) bins)
    (hbusy : ∀ y ∈ xs, ¬ Free c bins y → q.mem y.nextAt = 0)
    (hspaced : Spaced c (xs ++ [f] ++ ys) bins) :
    ∃ ws ps q' bins', xs = ws ++ ps ∧ (∀ y ∈ ps, Free c bins y)
      ∧ joinPrev c q f.addr s = .ok (f.addr - (ps.map (Frag.len c)).sum,
          s + (ps.map (Frag.len c)).sum, q')
      ∧ Taken c q q' (xs ++ [f] ++ ys) bins bins' ps
      ∧ ∀ z ∈ xs ++ [f] ++ ys, Free c bins' z →
          z.addr + z.len c + (ps.map (Frag.len c)).sum ≠ f.addr := by
  have hc := c.layout
  have hff : f ∈ xs ++ [f] ++ ys := by simp
  rw [Mem.joinPrev]
  rcases List.eq_nil_or_concat xs with rfl | ⟨ws, p, rfl⟩
  · have hfirst : f.addr = q.firstFrag := hM.tiles.1
    refine ⟨[], [], q, bins, rfl, by simp, ?_, Taken.none hM, fun z hz hzf he => ?_⟩
    · rw [if_neg (by omega)]
      rfl
    · have hb := (hM.frag_lt hz).1
      unfold Frag.len at he
      simp only [List.map_nil, List.sum_nil] at he
      omega
  · rw [List.concat_eq_append] at *
    have hmid : ws ++ [p] ++ [f] ++ ys = ws ++ p :: f :: ys := by simp
    have haddr : f.addr = p.addr + p.len c := by
      have ht := hM.tiles
      rw [hmid] at ht
      exact ht.next
    have hp : p ∈ ws ++ [p] ++ [f] ++ ys := by simp
    have hlo := (hM.frag_lt hp).1
    have hlt : q.firstFrag < f.addr := by
      unfold Frag.len at haddr
      omega
    have hprev : fragPrev c q.mem f.addr = p.addr := by
      have htail : f.addr - c.fragEnd = p.tail c := by
        unfold Frag.len at haddr
        unfold Frag.tail
        omega
      unfold fragPrev
      rw [htail, (hM.good p hp).endSize]
      unfold Frag.tail
      omega
    rw [if_pos hlt, hM.debug hff, Res.ok_bind, hprev]
    dsimp only
    by_cases hfree : Free c bins p
    · obtain ⟨bins', htaken⟩ := Taken.one hM hp hfree
      refine ⟨ws, [p], _, bins', rfl, by simpa using hfree, ?_, htaken, fun z hz hzf => ?_⟩
      · rw [if_pos (hM.next_ne_zero hp hfree), (htaken.mapped.good p hp).size]
        simp only [List.map_cons, List.map_nil, List.sum_cons, List.sum_nil, Nat.add_zero]
        rw [haddr, Nat.add_sub_cancel, Nat.add_comm p.size]
        rfl
      · simp only [List.map_cons, List.map_nil, List.sum_cons, List.sum_nil, Nat.add_zero]
        rw [haddr]
        exact fun he => hspaced z hz p hp ((htaken.free z).mp hzf).2 hfree (Nat.add_right_cancel he)
    · refine ⟨ws ++ [p], [], q, bins, by simp, by simp, ?_, Taken.none hM, fun z hz hzf he => ?_⟩
      · rw [if_neg fun h => h (hbusy p (by simp) hfree)]
        rfl
      · -- two fragments that end at the same address are the same
        have hap := hM.laid.apart z (List.mem_append_right _ hz) p (List.mem_append_right _ hp)
        rcases hap with rfl | hap
        · exact hfree hzf
        · unfold Apart Frag.len at *
          simp only [List.map_nil, List.sum_nil] at he
          omega

/-! ## One fragment out of several -/

/-- The words `qm_free` writes for a fragment that is joined. -/
theorem joinMem_eq (c : Build) (m : Words) (f s : Nat) :
    (m.set f s).set (fragEndOf c (m.set f s) f + c.endSize) (m.set f s f)
      = (m.set f s).set (f + c.frag + s + c.endSize) s := by
  simp only [fragEndOf, Words.set_same]

/-- **Neighbours become one fragment.** -/
theorem Mapped.merge (hM : Mapped c q (xs ++ ms ++ ys) bins)
    (hms : Tiles Frag.addr (Frag.len c) p ms p') (hfree : ∀ y ∈ ms, ¬ Free c bins y)
    (hf : f ∈ ms) (hfp : f.addr = p) (hl : l ∈ ms) (hlp : l.addr + l.len c = p')
    (hs : p + s + c.overhead = p') :
    Mapped c { q with mem := (q.mem.set p s).set (p + c.frag + s + c.endSize) s }
      (xs ++ [⟨p, s⟩] ++ ys) bins := by
  have hc := c.layout
  have hgf := hM.good f (by simp [hf])
  have hgl := hM.good l (by simp [hl])
  have hov : c.roundTo ∣ c.overhead := by
    rcases c.cases with ⟨-, h1, h2, -, -, h5⟩ | ⟨-, h1, h2, -, -, h5⟩
    · rw [hc.2.2.2, h1, h2, h5]
      decide
    · rw [hc.2.2.2, h1, h2, h5]
  have hround : c.roundTo ∣ s := by
    have hsum : c.roundTo ∣ (ms.map (Frag.len c)).sum := by
      refine List.dvd_sum fun n hn => ?_
      obtain ⟨y, hy, rfl⟩ := List.mem_map.mp hn
      exact Nat.dvd_add hov (hM.good y (by simp [hy])).round
    have htot := hms.sum
    have heq : s = (ms.map (Frag.len c)).sum - c.overhead := by omega
    rw [heq]
    exact Nat.dvd_sub hsum hov
  have htail : l.tail c = p + c.frag + s := by
    unfold Frag.len at hlp
    unfold Frag.tail
    omega
  have hchkf := hgf.check
  have hchkl := hgl.check
  rw [hfp] at hchkf
  rw [htail] at hchkl
  refine hM.refrag (List.ne_nil_of_mem hf) hms hfree ⟨rfl, by simp only [Tiles, Frag.len]; omega⟩
    (List.forall_mem_singleton.mpr ?_) fun a ha => ?_
  · rcases c.cases with ⟨hd, h1, h2, h3, -, -⟩ | ⟨hd, h1, h2, h3, -, -⟩
    · obtain ⟨hst, -⟩ := hchkf hd
      obtain ⟨-, hcheck⟩ := hchkl hd
      unfold endChecked at hcheck
      refine ⟨?_, ?_, hround, fun _ => ⟨?_, ?_⟩⟩
      all_goals simp only [Frag.tail, endChecked]
      all_goals simp (disch := omega) only [Words.set_of_ne, Words.set_of_eq]
      · exact hst
      · exact hcheck
    · refine ⟨?_, ?_, hround, fun h => absurd (hd.symm.trans h) (by decide)⟩
      all_goals simp only [Frag.tail]
      all_goals simp (disch := omega) only [Words.set_of_ne, Words.set_of_eq]
  · simp (disch := omega) only [Words.set_of_ne]

/-- **The part of `qm_free` under `QM_JOIN_FREE`**: a fragment and its free neighbours. -/
theorem Mapped.joinFree (hM : Mapped c q (xs ++ [f] ++ ys) bins) (hb : ¬ Free c bins f)
    (hbusy : ∀ y ∈ xs ++ ys, ¬ Free c bins y → q.mem y.nextAt = 0)
    (hspaced : Spaced c (xs ++ [f] ++ ys) bins) :
    ∃ ws ps gs zs q1 bins1 m, xs = ws ++ ps ∧ ys = gs ++ zs ∧ (∀ y ∈ ps ++ gs, Free c bins y)
      ∧ Taken c q q1 (xs ++ [f] ++ ys) bins bins1 (ps ++ gs)
      ∧ ∃ F : Frag, joinFree c q f.addr f.size = .ok (F.addr, { q1 with mem := m })
        ∧ Tiles Frag.addr (Frag.len c) F.addr (ps ++ [f] ++ gs) (F.addr + F.len c)
        ∧ Mapped c { q1 with mem := m } (ws ++ [F] ++ zs) bins1
        ∧ (∀ a, a < F.addr ∨ F.addr + F.len c ≤ a → m a = q1.mem a)
        ∧ ∀ z ∈ xs ++ [f] ++ ys, Free c bins1 z →
            F.addr + F.len c ≠ z.addr ∧ z.addr + z.len c ≠ F.addr := by
  have hc := c.layout
  obtain ⟨gs, zs, q1, bins1, hys, hgs, hnext, htaken1, hapart1⟩ :=
    hM.joinNext (fun y hy => hbusy y (List.mem_append_right _ hy)) hspaced
  have hspaced1 : Spaced c (xs ++ [f] ++ ys) bins1 := fun y hy z hz hyf hzf =>
    hspaced y hy z hz ((htaken1.free y).mp hyf).2 ((htaken1.free z).mp hzf).2
  have hbusy1 : ∀ y ∈ xs, ¬ Free c bins1 y → q1.mem y.nextAt = 0 := by
    intro y hy hyb
    have hyg : y ∉ gs := by
      intro hmem
      have hnd := hM.nodup
      rw [hys, List.append_assoc] at hnd
      exact (List.nodup_append.mp hnd).2.2 y hy y (by simp [hmem]) rfl
    have hyb' : ¬ Free c bins y := fun h => hyb ((htaken1.free y).mpr ⟨hyg, h⟩)
    rw [htaken1.keeps y (by simp [hy]) hyb' y.nextAt (by unfold Frag.nextAt; omega)
      (by unfold Frag.nextAt Frag.len; omega)]
    exact hbusy y (List.mem_append_left _ hy) hyb'
  obtain ⟨ws, ps, q2, bins2, hxs, hps, hprev, htaken2, hapart2⟩ :=
    htaken1.mapped.joinPrev (s := f.size + (gs.map (Frag.len c)).sum) hbusy1 hspaced1
  have htaken := htaken1.trans htaken2
  have hfree : ∀ y ∈ ps ++ gs, Free c bins y := by
    intro y hy
    rcases List.mem_append.mp hy with hy | hy
    · exact ((htaken1.free y).mp (hps y hy)).2
    · exact hgs y hy
  -- the fragments that become one lie one behind the other
  have hcut : xs ++ [f] ++ ys = ws ++ (ps ++ [f] ++ gs) ++ zs := by
    rw [hxs, hys]
    simp
  have hM2 := htaken.mapped
  rw [hcut] at hM2
  obtain ⟨p', hwp, hzs⟩ := tiles_append.mp hM2.tiles
  obtain ⟨p, hws, hms⟩ := tiles_append.mp hwp
  obtain ⟨pf, hpsf, hgs'⟩ := tiles_append.mp hms
  obtain ⟨pf', hps', hf1, hf2⟩ := tiles_append.mp hpsf
  have hsum1 := hps'.sum
  have hsum2 := hgs'.sum
  have hlen : f.len c = c.overhead + f.size := rfl
  have hf2 : pf' + f.len c = pf := hf2
  obtain ⟨F, hF⟩ : ∃ F : Frag, F = ⟨f.addr - (ps.map (Frag.len c)).sum,
    f.size + (gs.map (Frag.len c)).sum + (ps.map (Frag.len c)).sum⟩ := ⟨_, rfl⟩
  have hFa : F.addr = p := by
    rw [hF]
    show f.addr - (ps.map (Frag.len c)).sum = p
    omega
  have hFs : F.size = f.size + (gs.map (Frag.len c)).sum + (ps.map (Frag.len c)).sum := by rw [hF]
  have hFe : F.addr + F.len c = p' := by
    unfold Frag.len
    omega
  have hnone : ∀ y ∈ ps ++ [f] ++ gs, ¬ Free c bins2 y := by
    intro y hy hyf
    have hy2 := (htaken.free y).mp hyf
    rcases mem_splice.mp hy with h | h
    · rw [List.mem_singleton.mp h] at hy2
      exact hb hy2.2
    · exact hy2.1 h
  obtain ⟨x, hx, hxp⟩ : ∃ x ∈ ps ++ [f] ++ gs, x.addr = p := by
    cases ps with
    | nil => exact ⟨f, by simp, hms.1⟩
    | cons x ps => exact ⟨x, by simp, hms.1⟩
  obtain ⟨l, hl, hlp⟩ : ∃ l ∈ ps ++ [f] ++ gs, l.addr + l.len c = p' := by
    rcases List.eq_nil_or_concat gs with rfl | ⟨gs, l, rfl⟩
    · rw [List.append_nil] at hms
      exact ⟨f, by simp, hms.last⟩
    · rw [List.concat_eq_append, ← List.append_assoc] at hms
      exact ⟨l, by simp, hms.last⟩
  refine ⟨ws, ps, gs, zs, q2, bins2,
    (q2.mem.set F.addr F.size).set (F.addr + c.frag + F.size + c.endSize) F.size, hxs, hys, hfree, htaken, F, ?_, ?_, ?_, fun a ha => ?_,
    fun z hz hzf => ⟨?_, ?_⟩⟩
  · rw [Mem.joinFree, hnext]
    dsimp only
    rw [hprev, Res.ok_bind]
    dsimp only
    rw [joinMem_eq, ← hFs]
    rw [hF]
    rfl
  · rw [hFe, hFa]
    exact hms
  · have hmerge := hM2.merge (s := F.size) hms hnone hx hxp hl hlp (by unfold Frag.len at hFe; omega)
    rw [← hFa] at hmerge
    exact hmerge
  · have hend : c.endSize < c.fragEnd := by omega
    unfold Frag.len at ha
    rw [Words.set_of_ne (by omega), Words.set_of_ne (by omega)]
  · rw [hFe]
    have hne := hapart1 z hz ((htaken2.free z).mp hzf).2
    omega
  · rw [hFa]
    have hne := hapart2 z hz hzf
    omega

/-- What goes into a list: a fragment, with its free neighbours or without. -/
theorem Mapped.joinIf (hM : Mapped c q (xs ++ [f] ++ ys) bins) (hb : ¬ Free c bins f)
    (hbusy : ∀ y ∈ xs ++ ys, ¬ Free c bins y → q.mem y.nextAt = 0)
    (hspaced : c.join = true → Spaced c (xs ++ [f] ++ ys) bins) :
    ∃ ws ps gs zs q1 bins1 m, xs = ws ++ ps ∧ ys = gs ++ zs ∧ (∀ y ∈ ps ++ gs, Free c bins y)
      ∧ Taken c q q1 (xs ++ [f] ++ ys) bins bins1 (ps ++ gs)
      ∧ ∃ F : Frag, Mem.joinIf c q f.addr f.size = .ok (F.addr, { q1 with mem := m })
        ∧ Mapped c { q1 with mem := m } (ws ++ [F] ++ zs) bins1 ∧ ¬ Free c bins1 F
        ∧ (∀ a, a < F.addr ∨ F.addr + F.len c ≤ a → m a = q1.mem a)
        ∧ (c.join = true → ∀ z ∈ xs ++ [f] ++ ys, Free c bins1 z →
            F.addr + F.len c ≠ z.addr ∧ z.addr + z.len c ≠ F.addr)
        ∧ (c.join = false → ws = xs ∧ zs = ys ∧ F = f) := by
  unfold Mem.joinIf
  by_cases hj : c.join = true
  · obtain ⟨ws, ps, gs, zs, q1, bins1, m, hxs, hys, hfree, htaken, F, hrun, hF, hM', hm, hapart⟩ :=
      hM.joinFree hb hbusy (hspaced hj)
    refine ⟨ws, ps, gs, zs, q1, bins1, m, hxs, hys, hfree, htaken, F, by rw [if_pos hj, hrun], hM',
      fun hFf => ?_, hm, fun _ => hapart, fun h => absurd (hj.symm.trans h) (by decide)⟩
    -- a free fragment is one of those there were, and none of these begins there
    have hFm : F ∈ ws ++ [F] ++ zs := by simp
    obtain ⟨hFold, -⟩ := htaken.mapped.binned _ (hM'.bucket_lt hFm) F hFf
    have hnone : ¬ F ∈ ps ++ [f] ++ gs := by
      intro h
      have hFg := (htaken.free F).mp hFf
      rcases mem_splice.mp h with h | h
      · rw [List.mem_singleton.mp h] at hFg
        exact hb hFg.2
      · exact hFg.1 h
    have hne : ps ++ [f] ++ gs ≠ [] := by simp
    have hcut : xs ++ [f] ++ ys = ws ++ (ps ++ [f] ++ gs) ++ zs := by
      rw [hxs, hys]
      simp
    rw [hcut] at hFold
    have hM1 := htaken.mapped
    rw [hcut] at hM1
    have hout := hM1.tiles.outside hne hF ((mem_splice.mp hFold).resolve_left hnone)
    have hc := c.layout
    unfold Frag.len at hout
    omega
  · refine ⟨xs, [], [], ys, q, bins, q.mem, by simp, rfl, by simp, Taken.none hM, f,
      by rw [if_neg hj], hM, hb, fun _ _ => rfl, fun h => absurd h hj, fun _ => ⟨rfl, rfl, rfl⟩⟩

/-- **`qm_free`** of a fragment in use: it is free then, and the others in use are as they were. -/
theorem Sound.free (hS : Sound c q frags bins) (hf : Busy c frags bins f) :
    ∃ q' frags' bins', qmFree c q (f.addr + c.frag) = .ok q' ∧ Sound c q' frags' bins'
      ∧ SamePool q q'
      ∧ (∀ y, Busy c frags' bins' y ↔ Busy c frags bins y ∧ y ≠ f)
      ∧ (∀ y, Busy c frags bins y → y ≠ f → Keeps c q.mem q'.mem y)
      ∧ (c.join = false → frags' = frags) := by
  have hc := c.layout
  obtain ⟨hfm, hfb⟩ := hf
  obtain ⟨xs, ys, hcut⟩ := List.append_of_mem hfm
  have hcut : frags = xs ++ [f] ++ ys := by rw [hcut]; simp
  have hlo := (hS.frag_lt hfm).1
  have hhi := (hS.frag_lt hfm).2.1
  have hgood := hS.good f hfm
  have hnextf := hS.busy f hfm hfb
  -- the books
  have hsum := hS.tiles.sum
  have hle := @freeSize_add c frags bins
  have hcontrol := hS.control
  have htop := hS.top
  have hreal := hS.realUsed
  have hused := hS.used
  have hsplit : busySize c bins frags = busySize c bins xs + f.size + busySize c bins ys := by
    rw [hcut, busySize_append, busySize_append, busySize_busy hfb]
  obtain ⟨q0, hq0⟩ : ∃ q0, q0 = { q with
    used := usub q.used f.size, realUsed := usub q.realUsed f.size } := ⟨_, rfl⟩
  have hM0 : Mapped c q0 frags bins := by
    rw [hq0]
    exact hS.books _ _ _
  have hq0m : q0.mem = q.mem ∧ SamePool q q0 ∧ q0.maxRealUsed = q.maxRealUsed
      ∧ q0.used = q.used - f.size ∧ q0.realUsed = q.realUsed - f.size := by
    rw [hq0]
    exact ⟨rfl, ⟨rfl, rfl, rfl⟩, rfl, usub_eq (by omega) (by omega), usub_eq (by omega) (by omega)⟩
  obtain ⟨hmem0, hpool0, hpeak0, hused0, hreal0⟩ := hq0m
  rw [hcut] at hM0
  obtain ⟨ws, ps, gs, zs, q1, bins1, m, hxs, hys, hgs, htaken, F, hrun, hM1, hF1, hm, hapart, hnojoin⟩ :=
    hM0.joinIf hfb (fun y hy hyb => by
      rw [hmem0]
      exact hS.busy y (hcut ▸ mem_splice.mpr (.inr hy)) hyb) fun hj => hcut ▸ hS.joined hj
  obtain ⟨q2, bins2, hins, hM2, hfree2, hkeep2, hpool2, hused2, hreal2, hpeak2⟩ :=
    hM1.insertFree (x := F) (by simp) hF1
  have hcut' : frags = ws ++ (ps ++ [f] ++ gs) ++ zs := by
    rw [hcut, hxs, hys]
    simp
  have hrest : ∀ y ∈ ws ++ zs, y ∈ xs ++ ys ∧ y ∉ ps ++ gs ∧ y ≠ F := by
    intro y hy
    have hyF : y ≠ F := fun he => hM1.notMem_rest (he ▸ hy)
    rw [hxs, hys]
    have hnd := hS.nodup
    rw [hcut'] at hnd
    refine ⟨?_, fun hmem => ?_, hyF⟩
    · simp only [List.mem_append] at hy ⊢
      exact hy.imp .inl .inr
    · have hmid : y ∈ ps ++ [f] ++ gs := mem_splice.mpr (.inr hmem)
      have hnd1 := List.nodup_append.mp hnd
      rcases List.mem_append.mp hy with hy | hy
      · exact (List.nodup_append.mp hnd1.1).2.2 y hy y hmid rfl
      · exact hnd1.2.2 y (List.mem_append_right _ hmid) y hy rfl
  have hsame : ∀ y ∈ ws ++ zs, Free c bins2 y ↔ Free c bins y := by
    intro y hy
    obtain ⟨-, hno, hyF⟩ := hrest y hy
    rw [hfree2, htaken.free]
    exact ⟨fun h => (h.resolve_left hyF).2, fun h => .inr ⟨hno, h⟩⟩
  have hF2 : Free c bins2 F := (hfree2 F).mpr (.inl rfl)
  have hafter : ∀ y, Busy c (ws ++ [F] ++ zs) bins2 y ↔ y ∈ ws ++ zs ∧ ¬ Free c bins y := by
    intro y
    rw [busy_splice hsame]
    refine or_iff_right fun h => h.2 ?_
    rw [List.mem_singleton.mp h.1]
    exact hF2
  have hbefore : ∀ y, Busy c frags bins y ↔ y = f ∨ y ∈ ws ++ zs ∧ ¬ Free c bins y := by
    intro y
    rw [hcut', busy_splice fun _ _ => Iff.rfl]
    refine or_congr_left ⟨fun h => ?_, fun h => ?_⟩
    · rcases mem_splice.mp h.1 with hy | hy
      · exact List.mem_singleton.mp hy
      · exact absurd (hgs y hy) h.2
    · rw [h]
      exact ⟨by simp, hfb⟩
  have hkeep : ∀ y ∈ ws ++ zs, ¬ Free c bins y → Keeps c q.mem q2.mem y := by
    intro y hy hyb
    have hyo : y ∈ xs ++ [f] ++ ys := mem_splice.mpr (.inr (hrest y hy).1)
    have hk1 := htaken.keeps y hyo hyb
    rw [hmem0] at hk1
    have hk2 : Keeps c q1.mem m y := Keeps.of_outside (hM1.apart_rest hy) hm
    exact (hk1.trans hk2).trans (hkeep2 y (mem_splice.mpr (.inr hy)) fun h => hyb ((hsame y hy).mp h))
  have hpool : SamePool q q2 := (hpool0.trans htaken.pool).trans hpool2
  have hfws : f ∉ ws ++ zs := by
    intro hmem
    have hno := hM0.notMem_rest
    exact hno (hrest f hmem).1
  have hlens : frags.length = (ws ++ [F] ++ zs).length + (ps ++ gs).length := by
    rw [hcut']
    simp only [List.length_append, List.length_singleton]
    omega
  have hbusy : busySize c bins2 (ws ++ [F] ++ zs) + f.size = busySize c bins frags := by
    rw [hcut']
    simp only [busySize_append]
    rw [busySize_congr fun y hy => hsame y (List.mem_append_left _ hy),
      busySize_congr fun y hy => hsame y (List.mem_append_right _ hy), busySize_busy hfb,
      @busySize_free _ [F] _ (by simpa using hF2),
      busySize_free fun y hy => hgs y (List.mem_append_left _ hy),
      busySize_free fun y hy => hgs y (List.mem_append_right _ hy)]
    omega
  rw [hlens, Nat.mul_add] at hreal hle
  have hreal1 := htaken.realUsed (by omega) (by omega)
  refine ⟨q2, ws ++ [F] ++ zs, bins2, ?_, ?_, hpool, fun y => ?_, fun y hy hne => ?_, fun hj => ?_⟩
  · have hdbg : qmDebugFrag c { q with
        used := usub q.used f.size, realUsed := usub q.realUsed f.size } f.addr = .ok () := by
      rw [← hq0]
      exact hM0.debug (hcut ▸ hfm)
    unfold qmFree
    rw [if_neg fun h => by unfold Frag.len at hhi; omega, if_neg (by omega), Nat.add_sub_cancel]
    dsimp only
    rw [hS.debug hfm, Res.ok_bind, if_neg fun h => h.2 hnextf, hgood.size, hdbg,
      Res.ok_bind, ← hq0, hrun]
    exact hins
  · refine { toMapped := hM2, control := hpool.2.1 ▸ hS.control, busy := fun y hy hyb => ?_,
             total := ?_, used := ?_, realUsed := ?_, peak := ?_, joined := fun hj => ?_ }
    · obtain ⟨hyw, hyf⟩ := (hafter y).mp ⟨hy, hyb⟩
      rw [hkeep y hyw hyf y.nextAt (by unfold Frag.nextAt; omega)
        (by unfold Frag.nextAt Frag.len; omega)]
      exact hS.busy y (hcut ▸ mem_splice.mpr (.inr (hrest y hyw).1)) hyf
    · rw [hpool.1, hpool.2.1, hpool.2.2]
      exact hS.total
    · have hu : q2.used = q.used - f.size := hused2.trans (htaken.used.trans hused0)
      omega
    · have hr : q2.realUsed = q0.realUsed - c.overhead * (ps ++ gs).length := hreal2.trans hreal1
      omega
    · have hr : q2.realUsed = q0.realUsed - c.overhead * (ps ++ gs).length := hreal2.trans hreal1
      have hp : q2.maxRealUsed = q.maxRealUsed := hpeak2.trans (htaken.peak.trans hpeak0)
      have hpk := hS.peak
      omega
    · have hold : ∀ y ∈ ws ++ [F] ++ zs, Free c bins2 y → y = F ∨
          y ∈ xs ++ [f] ++ ys ∧ Free c bins1 y := by
        intro y hy hyf
        refine ((hfree2 y).mp hyf).imp_right fun h => ⟨?_, h⟩
        refine mem_splice.mpr (.inr (hrest y ((mem_splice.mp hy).resolve_left fun he => ?_)).1)
        exact hF1 (List.mem_singleton.mp he ▸ h)
      intro y hy z hz hyf hzf
      rcases hold y hy hyf with rfl | ⟨hyo, hyf⟩ <;> rcases hold z hz hzf with rfl | ⟨hzo, hzf⟩
      · unfold Frag.len
        omega
      · exact (hapart hj z hzo hzf).1
      · exact (hapart hj y hyo hyf).2
      · exact hS.joined hj y (hcut ▸ hyo) z (hcut ▸ hzo) ((htaken.free y).mp hyf).2
          ((htaken.free z).mp hzf).2
  · rw [hafter, hbefore]
    constructor
    · exact fun h => ⟨.inr h, fun he => hfws (he ▸ h.1)⟩
    · exact fun h => h.1.resolve_left h.2
  · obtain ⟨hyw, hyf⟩ := ((hbefore y).mp hy).resolve_left hne
    exact hkeep y hyw hyf
  · obtain ⟨rfl, rfl, rfl⟩ := hnojoin hj
    rw [hcut]

end Disc.Mem
