import Disc.Mem.Free

/-!
# A new pool

`qm_malloc_init` cuts the block of the allocator off the front of an area; what is left is one
free fragment. It refuses an area in which the block and the ends of a fragment have no room.
-/

namespace Disc.Mem

open Disc.Lib

variable {c : Build} {q : QmBlock} {m : Words} {h : Nat}

/-- The ends of the lists are set up one after the other. -/
theorem initHeads (c : Build) (q : QmBlock) (m : Words) (n : Nat) :
    (∀ h < n, (List.range n).foldl (initHead c q) m (q.head c h) = 0
      ∧ (List.range n).foldl (initHead c q) m (q.head c h + 4) = q.head c h
      ∧ (List.range n).foldl (initHead c q) m (q.head c h + c.frag + c.endPrev) = q.head c h)
    ∧ ∀ a, a < q.freeHash ∨ q.head c n ≤ a → (List.range n).foldl (initHead c q) m a = m a := by
  have hc := c.layout
  induction n with
  | zero => exact ⟨fun h hh => absurd hh (Nat.not_lt_zero h), fun _ _ => rfl⟩
  | succ n ih =>
      obtain ⟨ih, ihout⟩ := ih
      have hnext : q.head c (n + 1) = q.head c n + c.overhead := by
        unfold QmBlock.head
        rw [Nat.succ_mul]
        omega
      have hlo : q.freeHash ≤ q.head c n := Nat.le_add_right _ _
      rw [List.range_succ, List.foldl_append, List.foldl_cons, List.foldl_nil]
      obtain ⟨m', hm'⟩ : ∃ m', m' = (List.range n).foldl (initHead c q) m := ⟨_, rfl⟩
      rw [← hm'] at ih ihout ⊢
      unfold initHead
      refine ⟨fun h hh => ?_, fun a ha => ?_⟩
      · rcases Nat.lt_succ_iff_lt_or_eq.mp hh with hh | rfl
        · have hstep : q.head c h + c.overhead ≤ q.head c n := by
            unfold QmBlock.head
            have hmul : (h + 1) * c.overhead ≤ n * c.overhead := Nat.mul_le_mul_right _ hh
            rw [Nat.succ_mul] at hmul
            omega
          simp (disch := omega) only [Words.set_of_ne]
          exact ih h hh
        · rcases c.cases with ⟨-, h1, h2, h3, h4, -⟩ | ⟨-, h1, h2, h3, h4, -⟩
          · simp (disch := omega) only [Words.set_of_ne, Words.set_of_eq]
            simp
          · simp (disch := omega) only [Words.set_of_ne, Words.set_of_eq]
            simp
      · simp (disch := omega) only [Words.set_of_ne]
        exact ihout a (by omega)

theorem Build.block_le (c : Build) : c.block ≤ c.roundUp c.block ∧ c.roundTo ∣ c.roundUp c.block
    ∧ c.roundTo ∣ c.overhead := by
  obtain ⟨dbg, join⟩ := c
  cases dbg
  · revert join
    decide
  · revert join
    decide

/-- Rounding up goes to the next multiple, as long as the sum fits. -/
theorem Build.roundUp_spec {s : Nat} (h : s + c.roundTo ≤ 2 ^ 32) :
    s ≤ c.roundUp s ∧ c.roundUp s < s + c.roundTo := by
  have hpos := c.roundTo_dvd.2
  have hmod : (s + (c.roundTo - 1)) % 2 ^ 32 = s + (c.roundTo - 1) := Nat.mod_eq_of_lt (by omega)
  have hdiv := Nat.div_add_mod (s + (c.roundTo - 1)) c.roundTo
  have hlt := Nat.mod_lt (s + (c.roundTo - 1)) hpos
  unfold roundUp
  rw [hmod, Nat.mul_comm]
  omega

/-- The words around the first fragment, which the ends of the lists do not reach. -/
theorem initFrags_eq {a : Nat} (ha : q.head c c.hashSize ≤ a) :
    initFrags c q a
      = (if c.dbg then
          ((((q.mem.set q.firstFrag q.size).set (q.lastFragEnd + c.endSize) q.size).set
            (q.firstFrag + 20) stCheckPattern).set q.lastFragEnd endCheckPattern1).set
            (q.lastFragEnd + 4) endCheckPattern2
        else (q.mem.set q.firstFrag q.size).set (q.lastFragEnd + c.endSize) q.size) a :=
  (initHeads c q _ c.hashSize).2 a (.inr ha)

/-- What `qm_malloc_init` writes: one fragment, and empty lists. -/
theorem Mapped.init {F : Frag} (hF : F.addr = q.firstFrag ∧ F.size = q.size)
    (harea : 0 < q.freeHash ∧ q.head c c.hashSize ≤ q.firstFrag)
    (htail : q.firstFrag + c.frag + q.size = q.lastFragEnd) (htop : q.lastFragEnd + c.fragEnd ≤ 2 ^ 32)
    (hround : c.roundTo ∣ q.size) :
    Mapped c { q with mem := initFrags c q } [F] fun _ => [] := by
  have hc := c.layout
  have hFt : F.tail c = q.lastFragEnd := by
    unfold Frag.tail
    omega
  refine ⟨harea, ?_, htop, fun h hh => ((initHeads c q _ c.hashSize).1 h hh).1, ?_, fun h hh => ?_,
    fun _ _ => .nil, fun _ _ f hf => absurd hf (by simp)⟩
  · simp only [Tiles, Frag.len]
    exact ⟨hF.1, by omega⟩
  · refine List.forall_mem_singleton.mpr ⟨?_, ?_, hF.2 ▸ hround, fun hd => ⟨?_, ?_⟩⟩
    · rw [hF.1, hF.2]
      dsimp only
      rw [initFrags_eq harea.2]
      rcases c.cases with ⟨hd, h1, h2, h3, -, -⟩ | ⟨hd, h1, h2, h3, -, -⟩
      · rw [if_pos hd]
        simp (disch := omega) only [Words.set_of_ne, Words.set_of_eq]
      · rw [if_neg (by rw [hd]; decide)]
        simp (disch := omega) only [Words.set_of_ne, Words.set_of_eq]
    · rw [hFt, hF.2]
      dsimp only
      rw [initFrags_eq (by omega)]
      rcases c.cases with ⟨hd, h1, h2, h3, -, -⟩ | ⟨hd, h1, h2, h3, -, -⟩
      · rw [if_pos hd]
        simp (disch := omega) only [Words.set_of_ne, Words.set_of_eq]
      · rw [if_neg (by rw [hd]; decide)]
        exact Words.set_same _ _ _
    · have hl := c.dbg_layout hd
      rw [hF.1]
      dsimp only
      rw [initFrags_eq (by omega), if_pos hd]
      simp (disch := omega) only [Words.set_of_ne, Words.set_of_eq]
    · have hl := c.dbg_layout hd
      rw [hFt]
      refine decide_eq_true ⟨?_, ?_⟩
      · dsimp only
        rw [initFrags_eq (by omega), if_pos hd]
        simp (disch := omega) only [Words.set_of_ne, Words.set_of_eq]
      · dsimp only
        rw [initFrags_eq (by omega), if_pos hd]
        exact Words.set_same _ _ _
  · obtain ⟨hsize, hnext, hprev⟩ := (initHeads c q _ c.hashSize).1 h hh
    have hlink : (links c (initFrags c q)).Link (q.head c h) (q.head c h) := by
      refine ⟨congrArg some hnext, congrArg some ?_⟩
      unfold prevFree fragEndOf
      have hsize' : initFrags c q (q.head c h) = 0 := hsize
      rw [hsize']
      exact hprev
    exact ⟨List.isChain_pair.mpr hlink, by simp, by simp⟩

/-- The part of an area that `qm_malloc_init` can use. -/
def initRoom (c : Build) (address size : Nat) : Nat :=
  c.roundDown (size - usub (c.roundUp address) address)

/-- **A pool is made**, with one free fragment, if the area has room for it. -/
theorem qmMallocInit_sound {mem : Words} {address size : Nat} (hpos : 0 < address)
    (htop : address + size ≤ 2 ^ 32) :
    initRoom c address size < initOverhead c ∧ qmMallocInit c mem address size = .ok none
    ∨ initOverhead c ≤ initRoom c address size ∧ ∃ q F bins,
      qmMallocInit c mem address size = .ok (some q) ∧ Sound c q [F] bins ∧ Free c bins F
      ∧ address ≤ q.firstFrag ∧ q.lastFragEnd + c.fragEnd ≤ address + size
      ∧ q.size + initOverhead c = initRoom c address size := by
  have hc := c.layout
  have hr := c.roundTo_dvd.2
  obtain ⟨hblock, hblockr, hovr⟩ := c.block_le
  have hover : initOverhead c = c.roundUp c.block + c.overhead := Nat.add_assoc _ _ _
  obtain ⟨start, hstart⟩ : ∃ start, start = c.roundUp address := ⟨_, rfl⟩
  obtain ⟨pad, hpad⟩ : ∃ pad, pad = usub start address := ⟨_, rfl⟩
  obtain ⟨sz, hsz⟩ : ∃ sz, sz = c.roundDown (size - pad) := ⟨_, rfl⟩
  have hszr : c.roundTo ∣ sz := hsz ▸ Nat.dvd_mul_left _ _
  have hszle : sz ≤ size - pad := hsz ▸ Nat.div_mul_le_self _ _
  have hblock24 : c.roundTo ≤ c.block := by
    unfold Build.block Build.roundTo
    split <;> omega
  rw [initRoom, qmMallocInit, ← hstart, ← hpad, ← hsz]
  dsimp only
  by_cases h1 : size < pad
  · rw [if_pos h1]
    exact .inl ⟨by omega, rfl⟩
  rw [if_neg h1]
  by_cases h2 : size - pad < c.roundTo + c.overhead
  · rw [if_pos h2]
    exact .inl ⟨by omega, rfl⟩
  rw [if_neg h2]
  -- the area is large enough that rounding its address does not wrap around
  obtain ⟨hlo, hhi⟩ := c.roundUp_spec (s := address) (by omega)
  rw [← hstart] at hlo hhi
  have hpadeq : pad = start - address := hpad.trans (usub_eq hlo (by omega))
  rw [← hsz]
  by_cases h3 : sz < initOverhead c
  · rw [if_pos h3]
    exact .inl ⟨h3, rfl⟩
  rw [if_neg h3]
  refine .inr ⟨Nat.le_of_not_lt h3, ?_⟩
  obtain ⟨q, hq⟩ : ∃ q : QmBlock, q =
    { size := sz - initOverhead c
      used := 0
      realUsed := initOverhead c
      maxRealUsed := initOverhead c
      firstFrag := start + c.roundUp c.block
      lastFragEnd := start + sz - c.fragEnd
      freeHash := start + 24
      mem := mem.clear start c.block } := ⟨_, rfl⟩
  have hinit : initBlock c mem start sz = { q with mem := initFrags c q } := by
    rw [hq]
    rfl
  have hfields : q.size = sz - (c.roundUp c.block + c.overhead) ∧ q.used = 0
      ∧ q.realUsed = c.roundUp c.block + c.overhead ∧ q.maxRealUsed = q.realUsed
      ∧ q.firstFrag = start + c.roundUp c.block ∧ q.lastFragEnd = start + sz - c.fragEnd
      ∧ q.head c c.hashSize = start + c.block ∧ q.freeHash = start + 24 := by
    rw [hq, ← hover]
    exact ⟨rfl, rfl, rfl, rfl, rfl, rfl, Nat.add_assoc start 24 _, rfl⟩
  obtain ⟨hqs, hqu, hqr, hqp, hqf, hql, hqh, hqfh⟩ := hfields
  obtain ⟨F, hF⟩ : ∃ F : Frag, F = ⟨q.firstFrag, q.size⟩ := ⟨_, rfl⟩
  have hFf : F.addr = q.firstFrag ∧ F.size = q.size := by
    rw [hF]
    exact ⟨rfl, rfl⟩
  have hround : c.roundTo ∣ q.size := by
    rw [hqs]
    exact Nat.dvd_sub hszr (Nat.dvd_add hblockr hovr)
  have hM := Mapped.init (c := c) hFf (by omega) (by omega) (by omega) hround
  have hF0 : ¬ Free c (fun _ => []) F := by simp [Free]
  obtain ⟨q', bins, hins, hM', hfree, -, hpool, hu, hr', hp⟩ :=
    hM.insertFree (List.mem_singleton_self F) hF0
  have hFb : Free c bins F := (hfree F).mpr (.inl rfl)
  have hF1 : ∀ y ∈ [F], Free c bins y := List.forall_mem_singleton.mpr hFb
  have hpool' : q'.size = q.size ∧ q'.firstFrag = q.firstFrag ∧ q'.lastFragEnd = q.lastFragEnd := hpool
  have hbooks : q'.used = q.used ∧ q'.realUsed = q.realUsed ∧ q'.maxRealUsed = q.maxRealUsed :=
    ⟨hu, hr', hp⟩
  refine ⟨q', F, bins, ?_, ?_, hFb, by omega, by omega, by omega⟩
  · rw [hinit]
    rw [hFf.1] at hins
    rw [hins]
    rfl
  · refine { toMapped := hM', control := by omega, busy := fun y hy hyb => absurd (hF1 y hy) hyb,
             total := by omega, used := ?_, realUsed := ?_, peak := by omega,
             joined := fun _ y hy z hz _ _ => ?_ }
    · rw [busySize_free hF1]
      omega
    · rw [busySize_free hF1, List.length_singleton]
      omega
    · rw [List.mem_singleton.mp hy, List.mem_singleton.mp hz]
      unfold Frag.len
      omega

end Disc.Mem
