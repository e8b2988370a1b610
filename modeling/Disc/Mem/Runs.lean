import Disc.Lib.Run
import Disc.Mem.Start

/-!
# What the users of a pool see

Any number of processes share a pool, and each call is made under the lock, so that a run is a
sequence of calls and of words its users write into blocks they own. `Heap` keeps beside the
pool which blocks are owned, and what was written to them: an allocator is correct if no call
goes wrong and if what an owner wrote is there until the block is given back.
-/

namespace Disc.Mem

open Disc.Lib

variable (c : Build)

/-- A block somebody owns, and the words its owner wrote. -/
structure Obj where
  ptr : Nat
  /-- The size that was asked for. -/
  asked : Nat
  words : Nat → Option Nat

/-- The pool, the blocks that are owned, and all pointers that were ever handed out. -/
structure Heap where
  q : QmBlock
  objs : List Obj
  seen : List Nat

/-- What is done to a pool. -/
inductive Act where
  | malloc (size : Nat)
  | free (p : Nat)
  | resize (p size : Nat)
  | write (p i v : Nat)

/-- A block is handed out, if there is one. -/
def Heap.gave (s : Heap) (size : Nat) (r : Nat × QmBlock) : Heap :=
  if r.1 = 0 then { s with q := r.2 }
  else ⟨r.2, ⟨r.1, size, fun _ => none⟩ :: s.objs, r.1 :: s.seen⟩

/-- A block is not owned any more. -/
def Heap.took (s : Heap) (p : Nat) : Heap := { s with objs := s.objs.filter fun o => o.ptr ≠ p }

/-- An owner writes the word `i` of a block. -/
def Obj.write (o : Obj) (i v : Nat) : Obj := { o with words := Function.update o.words i (some v) }

/-- One call, or one word that is written; none if the call does not return. -/
def Heap.step (s : Heap) : Act → Option Heap
  | .malloc n => (qmMalloc c s.q n).toOption.map (s.gave n)
  | .free p => (qmFree c s.q p).toOption.map fun q => { s.took p with q }
  | .resize p n => (shmResize c s.q p n).toOption.map ((s.took p).gave n)
  | .write p i v => some
      { s with
        q := { s.q with mem := s.q.mem.set (p + 4 * i) v }
        objs := s.objs.map fun o => if o.ptr = p then o.write i v else o }

/-- A pool nobody has used yet. -/
def Heap.Init (s : Heap) : Prop :=
  ∃ mem address size q, 0 < address ∧ address + size ≤ 2 ^ 32
    ∧ qmMallocInit c mem address size = .ok (some q) ∧ s = ⟨q, [], []⟩

/-- What the users keep to: they give back what they own, write inside of it, and do not ask for
so much that rounding it up wraps around. -/
def Heap.Legal (s : Heap) : Act → Prop
  | .malloc n => n + c.roundTo ≤ 2 ^ 32
  | .free p => ∃ o ∈ s.objs, o.ptr = p
  | .resize p n => (p = 0 ∨ ∃ o ∈ s.objs, o.ptr = p) ∧ n + c.roundTo ≤ 2 ^ 32
  | .write p i _ => ∃ o ∈ s.objs, o.ptr = p ∧ 4 * i + 4 ≤ o.asked

/-- The states of the runs of a pool. -/
abbrev Heap.Reached : Heap → Prop := Reach (Heap.Init c) (Heap.step c) (Heap.Legal c)

/-- The blocks that are owned are the fragments in use. -/
structure Heap.Held (s : Heap) (frags : List Frag) (bins : Nat → List Frag) : Prop where
  sound : Sound c s.q frags bins
  owned : ∀ o ∈ s.objs, ∃ f, Busy c frags bins f ∧ o.ptr = f.addr + c.frag ∧ o.asked ≤ f.size
  busy : ∀ f, Busy c frags bins f → ∃ o ∈ s.objs, o.ptr = f.addr + c.frag
  distinct : (s.objs.map Obj.ptr).Nodup
  written : ∀ o ∈ s.objs, ∀ i v, o.words i = some v →
    4 * i + 4 ≤ o.asked ∧ s.q.mem (o.ptr + 4 * i) = v
  seen : c.join = false → ∀ p ∈ s.seen, ∃ f ∈ frags, p = f.addr + c.frag

variable {c} {s s' : Heap} {frags : List Frag} {bins : Nat → List Frag} {q : QmBlock} {f g : Frag}
  {o o' : Obj} {n p i v : Nat}

/-! ## One call -/

theorem Sound.addr_inj (hS : Sound c q frags bins) (hf : f ∈ frags) (hg : g ∈ frags)
    (h : f.addr = g.addr) : f = g :=
  hS.laid.eq_of_addr (List.mem_append_right _ hf) (List.mem_append_right _ hg) h

/-- A word of a block is inside of its fragment. -/
theorem Keeps.word {m m' : Words} (hk : Keeps c m m' f) (hp : o.ptr = f.addr + c.frag)
    (hs : o.asked ≤ f.size) (hi : 4 * i + 4 ≤ o.asked) : m' (o.ptr + 4 * i) = m (o.ptr + 4 * i) := by
  have hc := c.layout
  unfold Keeps Frag.len at hk
  exact hk _ (by omega) (by omega)

/-- **`qm_malloc`** returns, and what it hands out nobody else owns. -/
theorem Heap.Held.malloc (h : Heap.Held c s frags bins) (hn : n + c.roundTo ≤ 2 ^ 32) :
    ∃ r frags' bins', qmMalloc c s.q n = .ok r ∧ Heap.Held c (s.gave n r) frags' bins' := by
  have hc := c.layout
  rcases h.sound.malloc (n := n) with ⟨hres, -⟩ |
    ⟨f, hf, ⟨hfree, hfn, -, -⟩, q', g, frags', bins', hres, hga, hgs, hS, hpool, hbusy, hkeep, haddr⟩
  · refine ⟨_, frags, bins, hres, ?_⟩
    rw [Heap.gave, if_pos rfl]
    exact h
  · obtain ⟨hround, -⟩ := c.roundUp_spec hn
    refine ⟨_, frags', bins', hres, ?_⟩
    rw [Heap.gave, if_neg (by dsimp only; omega)]
    have hgb : Busy c frags' bins' g := (hbusy g).mpr (.inl rfl)
    -- the new block is at the address of a fragment nobody owned
    have hnew : ∀ y, Busy c frags bins y → y.addr ≠ g.addr := by
      intro y hy he
      have heq := h.sound.addr_inj hy.1 hf (he.trans hga)
      exact hy.2 (heq ▸ hfree)
    refine ⟨hS, List.forall_mem_cons.mpr ⟨⟨g, hgb, ?_, ?_⟩, fun o ho => ?_⟩, fun y hy => ?_, ?_,
      List.forall_mem_cons.mpr ⟨fun i v hv => ?_, fun o ho i v hv => ?_⟩, fun hj => ?_⟩
    · show f.addr + c.frag = g.addr + c.frag
      omega
    · show n ≤ g.size
      omega
    · obtain ⟨y, hy, hp, hs⟩ := h.owned o ho
      exact ⟨y, (hbusy y).mpr (.inr hy), hp, hs⟩
    · rcases (hbusy y).mp hy with rfl | hy
      · exact ⟨_, List.mem_cons_self, by show f.addr + c.frag = _; omega⟩
      · obtain ⟨o, ho, hp⟩ := h.busy y hy
        exact ⟨o, List.mem_cons_of_mem _ ho, hp⟩
    · refine List.nodup_cons.mpr ⟨fun hmem => ?_, h.distinct⟩
      obtain ⟨o, ho, hp⟩ := List.mem_map.mp hmem
      obtain ⟨y, hy, hpy, -⟩ := h.owned o ho
      have hne := hnew y hy
      have hp : o.ptr = f.addr + c.frag := hp
      omega
    · exact absurd hv (by simp)
    · obtain ⟨y, hy, hp, hs⟩ := h.owned o ho
      obtain ⟨hi, hw⟩ := h.written o ho i v hv
      exact ⟨hi, ((hkeep y hy).word hp hs hi).trans hw⟩
    · refine List.forall_mem_cons.mpr ⟨⟨g, hgb.1, by dsimp only; omega⟩, fun p hp => ?_⟩
      obtain ⟨y, hy, hpy⟩ := h.seen hj p hp
      obtain ⟨z, hz, hza⟩ := haddr y hy
      exact ⟨z, hz, by omega⟩

/-- **`qm_free`** of a block that is owned returns. -/
theorem Heap.Held.free (h : Heap.Held c s frags bins) (ho : o ∈ s.objs) :
    ∃ q frags' bins', qmFree c s.q o.ptr = .ok q
      ∧ Heap.Held c { s.took o.ptr with q } frags' bins' := by
  obtain ⟨f, hf, hp, -⟩ := h.owned o ho
  obtain ⟨q, frags', bins', hres, hS, hpool, hbusy, hkeep, hsame⟩ := h.sound.free hf
  have hleft : ∀ o' ∈ (s.took o.ptr).objs, o' ∈ s.objs ∧ o'.ptr ≠ o.ptr := by
    intro o' ho'
    simpa [Heap.took] using ho'
  have hother : ∀ o' ∈ (s.took o.ptr).objs, ∃ y, Busy c frags bins y ∧ y ≠ f
      ∧ o'.ptr = y.addr + c.frag ∧ o'.asked ≤ y.size := by
    intro o' ho'
    obtain ⟨hmem, hne⟩ := hleft o' ho'
    obtain ⟨y, hy, hpy, hs⟩ := h.owned o' hmem
    refine ⟨y, hy, ?_, hpy, hs⟩
    rintro rfl
    exact hne (hpy.trans hp.symm)
  refine ⟨q, frags', bins', hp ▸ hres, hS, fun o' ho' => ?_, fun y hy => ?_, ?_,
    fun o' ho' i v hv => ?_, fun hj p hp => ?_⟩
  · obtain ⟨y, hy, hne, hpy, hs⟩ := hother o' ho'
    exact ⟨y, (hbusy y).mpr ⟨hy, hne⟩, hpy, hs⟩
  · obtain ⟨hy, hne⟩ := (hbusy y).mp hy
    obtain ⟨o', ho', hpy⟩ := h.busy y hy
    refine ⟨o', ?_, hpy⟩
    have hne' : o'.ptr ≠ o.ptr := by
      intro he
      exact hne (h.sound.addr_inj hy.1 hf.1 (by omega))
    simpa [Heap.took] using ⟨ho', hne'⟩
  · exact h.distinct.sublist (List.filter_sublist.map _)
  · obtain ⟨hi, hw⟩ := h.written o' (hleft o' ho').1 i v hv
    obtain ⟨y, hy, hne, hpy, hs⟩ := hother o' ho'
    exact ⟨hi, ((hkeep y hy hne).word hpy hs hi).trans hw⟩
  · rw [hsame hj]
    exact h.seen hj p hp

theorem Heap.gave_with (r : Nat × QmBlock) : Heap.gave { s with q } n r = s.gave n r := by
  unfold Heap.gave
  split
  · rfl
  · rfl

/-- **`_shm_resize`** of a block that is owned returns; the block is given back in any case. -/
theorem Heap.Held.resize (h : Heap.Held c s frags bins) (hp : p = 0 ∨ ∃ o ∈ s.objs, o.ptr = p)
    (hn : n + c.roundTo ≤ 2 ^ 32) :
    ∃ r frags' bins', shmResize c s.q p n = .ok r
      ∧ Heap.Held c ((s.took p).gave n r) frags' bins' := by
  have hc := c.layout
  unfold shmResize
  by_cases hp0 : p = 0
  · have hnone : s.took p = s := by
      have hall : s.objs.filter (fun o => o.ptr ≠ p) = s.objs := by
        refine List.filter_eq_self.mpr fun o ho => ?_
        obtain ⟨f, -, hpf, -⟩ := h.owned o ho
        exact decide_eq_true (by omega)
      unfold Heap.took
      rw [hall]
    rw [if_pos hp0, hnone]
    exact h.malloc hn
  · obtain ⟨o, ho, rfl⟩ := hp.resolve_left hp0
    obtain ⟨q, frags', bins', hres, hfreed⟩ := h.free ho
    obtain ⟨r, frags'', bins'', hres', hgave⟩ := hfreed.malloc hn
    rw [if_neg hp0, hres, Res.ok_bind]
    rw [Heap.gave_with] at hgave
    exact ⟨r, frags'', bins'', hres', hgave⟩

/-- What is written into a block is none of the words of the allocator. -/
theorem Sound.write {a : Nat} (hS : Sound c q frags bins) (hf : Busy c frags bins f)
    (hlo : f.addr + c.frag ≤ a) (hhi : a + 4 ≤ f.addr + c.frag + f.size) :
    Sound c { q with mem := q.mem.set a v } frags bins := by
  have hc := c.layout
  obtain ⟨xs, ys, hcut⟩ := List.append_of_mem hf.1
  have hcut : frags = xs ++ [f] ++ ys := by rw [hcut]; simp
  have hgood := hS.good f hf.1
  have hgood' : Good c (q.mem.set a v) f := by
    have hsize := hgood.size
    have hend := hgood.endSize
    unfold Frag.tail at hend
    refine ⟨?_, ?_, hgood.round, fun hd => ?_⟩
    · rw [Words.set_of_ne (by omega), hsize]
    · unfold Frag.tail
      rw [Words.set_of_ne (by omega), hend]
    · obtain ⟨hst, hcheck⟩ := hgood.check hd
      have hl := c.dbg_layout hd
      unfold endChecked Frag.tail at hcheck ⊢
      rw [Words.set_of_ne (by omega), Words.set_of_ne (by omega), Words.set_of_ne (by omega)]
      exact ⟨hst, hcheck⟩
  have hM : Mapped c { q with mem := q.mem.set a v } frags bins := by
    rw [hcut]
    refine (hcut ▸ hS.toMapped).refrag (by simp) (tiles_single f) (by simpa using hf.2)
      (tiles_single f) (by simpa using hgood') fun b hb => Words.set_of_ne ?_
    unfold Frag.len at hb
    omega
  refine { hM, hS with busy := fun y hy hyb => ?_ }
  rw [← hS.busy y hy hyb]
  refine Words.set_of_ne ?_
  unfold Frag.nextAt
  rcases hS.laid.apart y (List.mem_append_right _ hy) f (List.mem_append_right _ hf.1) with rfl | hap
  · omega
  · unfold Apart Frag.len at hap
    omega

/-- **An owner writes** into no other block. -/
theorem Heap.Held.write (h : Heap.Held c s frags bins) (ho : o ∈ s.objs) (hi : 4 * i + 4 ≤ o.asked) :
    Heap.Held c { s with
      q := { s.q with mem := s.q.mem.set (o.ptr + 4 * i) v }
      objs := s.objs.map fun o' => if o'.ptr = o.ptr then o'.write i v else o' } frags bins := by
  have hc := c.layout
  obtain ⟨f, hf, hp, hs⟩ := h.owned o ho
  have hptr : ∀ o' : Obj, (if o'.ptr = o.ptr then o'.write i v else o').ptr = o'.ptr
      ∧ (if o'.ptr = o.ptr then o'.write i v else o').asked = o'.asked := by
    intro o'
    split
    · exact ⟨rfl, rfl⟩
    · exact ⟨rfl, rfl⟩
  refine ⟨h.sound.write hf (by omega) (by omega), fun o' ho' => ?_, fun y hy => ?_, ?_,
    fun o' ho' j w hw => ?_, h.seen⟩
  · obtain ⟨o₁, ho₁, rfl⟩ := List.mem_map.mp ho'
    rw [(hptr o₁).1, (hptr o₁).2]
    exact h.owned o₁ ho₁
  · obtain ⟨o₁, ho₁, hp₁⟩ := h.busy y hy
    exact ⟨_, List.mem_map_of_mem ho₁, (hptr o₁).1.trans hp₁⟩
  · have hmap : (Obj.ptr ∘ fun o' => if o'.ptr = o.ptr then o'.write i v else o') = Obj.ptr :=
      funext fun o' => (hptr o').1
    rw [List.map_map, hmap]
    exact h.distinct
  · obtain ⟨o₁, ho₁, rfl⟩ := List.mem_map.mp ho'
    rw [(hptr o₁).1, (hptr o₁).2]
    obtain ⟨f₁, hf₁, hp₁, hs₁⟩ := h.owned o₁ ho₁
    dsimp only
    by_cases he : o₁.ptr = o.ptr
    · have heq : o₁ = o := List.inj_on_of_nodup_map h.distinct ho₁ ho he
      subst heq
      rw [if_pos rfl] at hw
      by_cases hj : j = i
      · subst hj
        have hv : v = w := by simpa [Obj.write] using hw
        exact ⟨hi, hv ▸ Words.set_same _ _ _⟩
      · have hw' : o₁.words j = some w := by simpa [Obj.write, Function.update_of_ne hj] using hw
        obtain ⟨hj', hmem⟩ := h.written o₁ ho₁ j w hw'
        exact ⟨hj', (Words.set_of_ne (by omega)).trans hmem⟩
    · rw [if_neg he] at hw
      obtain ⟨hj, hmem⟩ := h.written o₁ ho₁ j w hw
      refine ⟨hj, (Words.set_of_ne ?_).trans hmem⟩
      rcases h.sound.laid.apart f₁ (List.mem_append_right _ hf₁.1) f
        (List.mem_append_right _ hf.1) with rfl | hap
      · exact absurd (hp₁.trans hp.symm) he
      · unfold Apart Frag.len at hap
        omega

/-! ## Runs -/

/-- **One step**: whatever the users may do is done. -/
theorem Heap.Held.step {a : Act} (h : Heap.Held c s frags bins) (hl : Heap.Legal c s a) :
    ∃ s', s.step c a = some s' ∧ ∃ frags' bins', Heap.Held c s' frags' bins' := by
  cases a with
  | malloc n =>
      obtain ⟨r, frags', bins', hres, h'⟩ := h.malloc hl
      refine ⟨s.gave n r, ?_, frags', bins', h'⟩
      rw [Heap.step, hres]
      rfl
  | free p =>
      obtain ⟨o, ho, rfl⟩ := hl
      obtain ⟨q, frags', bins', hres, h'⟩ := h.free ho
      refine ⟨_, ?_, frags', bins', h'⟩
      rw [Heap.step, hres]
      rfl
  | resize p n =>
      obtain ⟨r, frags', bins', hres, h'⟩ := h.resize hl.1 hl.2
      refine ⟨(s.took p).gave n r, ?_, frags', bins', h'⟩
      rw [Heap.step, hres]
      rfl
  | write p i v =>
      obtain ⟨o, ho, rfl, hi⟩ := hl
      exact ⟨_, rfl, frags, bins, h.write ho hi⟩

/-- The blocks that are owned are the fragments in use, in every state of a run. -/
theorem Heap.Reached.held (h : Heap.Reached c s) : ∃ frags bins, Heap.Held c s frags bins := by
  refine Reach.invariant (I := fun s => ∃ frags bins, Heap.Held c s frags bins) (fun s hs => ?_)
    (fun s a s' ih hok hs => ?_) h
  · obtain ⟨mem, address, size, q, hpos, htop, hinit, rfl⟩ := hs
    rcases @qmMallocInit_sound c mem _ _ hpos htop with ⟨-, hno⟩ |
      ⟨-, q', F, bins, hinit', hS, hF, -⟩
    · exact absurd (hinit.symm.trans hno) (by simp)
    · have heq : q = q' := Option.some.inj (Res.ok.inj (hinit.symm.trans hinit'))
      subst heq
      refine ⟨[F], bins, hS, by simp, fun y hy => ?_, by simp, by simp, by simp⟩
      rw [List.mem_singleton.mp hy.1] at hy
      exact absurd hF hy.2
  · obtain ⟨frags, bins, ih⟩ := ih
    obtain ⟨s₁, hs₁, h'⟩ := ih.step hok
    exact Option.some.inj (hs.symm.trans hs₁) ▸ h'

/-- A pool of which one block is handed out. -/
theorem Heap.exists_owned (c : Build) : ∃ s o, Heap.Reached c s ∧ s.objs = [o] ∧ s.seen = [o.ptr]
    ∧ o.asked = 100 ∧ ∃ q p, qmMalloc c q 100 = .ok (p, s.q) ∧ p = o.ptr ∧ p ≠ 0
      ∧ Heap.Reached c ⟨q, [], []⟩ := by
  have hroom : initOverhead c + 65536 ≤ initRoom c 16 262144 ∧ initRoom c 16 262144 < 2 ^ 32
      ∧ initOverhead c ≤ 32768 ∧ c.roundUp 100 ≤ 128 ∧ 100 + c.roundTo ≤ 2 ^ 32 := by
    obtain ⟨dbg, join⟩ := c
    revert dbg join
    decide
  rcases @qmMallocInit_sound c (fun _ => 0) 16 262144 (by decide)
    (by decide) with ⟨hlt, -⟩ | ⟨-, q, F, bins, hinit, hS, hF, -, -, hsize⟩
  · omega
  · have hreach : Heap.Reached c ⟨q, [], []⟩ :=
      .init ⟨_, 16, 262144, q, by decide, by decide, hinit, rfl⟩
    have htot := hS.total
    have hlast := @Tiles.last _ _ _ _ _ [] _ hS.tiles
    have hfirst : F.addr = q.firstFrag := hS.tiles.1
    have hover : initOverhead c = c.roundUp c.block + c.overhead := Nat.add_assoc _ _ _
    have hreal := hS.realUsed
    have hF1 : ∀ y ∈ [F], Free c bins y := List.forall_mem_singleton.mpr hF
    rw [busySize_free hF1, List.length_singleton] at hreal
    have hquick := usub_eq (a := q.size) (b := q.realUsed) (by omega) (by omega)
    unfold Frag.len at hlast
    rcases hS.malloc (n := 100) with ⟨-, hno | hno⟩ | ⟨f, hf, -, q', g, -, -, hres, -⟩
    · omega
    · have hsmall := hno F (by simp) hF
      omega
    · have hc := c.layout
      have hne : f.addr + c.frag ≠ 0 := by omega
      have hgave : Heap.gave ⟨q, [], []⟩ 100 (f.addr + c.frag, q')
          = ⟨q', [⟨f.addr + c.frag, 100, fun _ => none⟩], [f.addr + c.frag]⟩ := if_neg hne
      have hstep : Heap.step c ⟨q, [], []⟩ (.malloc 100)
          = some ⟨q', [⟨f.addr + c.frag, 100, fun _ => none⟩], [f.addr + c.frag]⟩ := by
        rw [Heap.step, hres, ← hgave]
        rfl
      exact ⟨_, _, hreach.step (a := .malloc 100) hroom.2.2.2.2 hstep, rfl, rfl, rfl, q, _, hres,
        rfl, hne, hreach⟩

/-- **No call goes wrong**, in whatever order they are made. -/
theorem Heap.never_stuck {a : Act} (h : Heap.Reached c s) (hl : Heap.Legal c s a) :
    (s.step c a).isSome = true := by
  obtain ⟨frags, bins, hheld⟩ := h.held
  obtain ⟨s', hs, -⟩ := hheld.step hl
  rw [hs]
  rfl

/-- A block may be given back and the pool asked again. -/
theorem Heap.never_stuck_resize : ∃ s o, Heap.Reached ⟨true, false⟩ s ∧ o ∈ s.objs
    ∧ (s.step ⟨true, false⟩ (.resize o.ptr 200)).isSome = true := by
  obtain ⟨s, o, h, hobjs, -⟩ := Heap.exists_owned ⟨true, false⟩
  have ho : o ∈ s.objs := hobjs ▸ List.mem_singleton_self o
  exact ⟨s, o, h, ho, Heap.never_stuck h ⟨.inr ⟨o, ho, rfl⟩, by decide⟩⟩

/-- **The blocks that are owned** lie in the pool, do not overlap, and hold what was written. -/
theorem Heap.blocks_kept (h : Heap.Reached c s) :
    (s.objs.map Obj.ptr).Nodup
    ∧ (∀ o ∈ s.objs, s.q.firstFrag < o.ptr ∧ o.ptr + o.asked ≤ s.q.lastFragEnd)
    ∧ (∀ o ∈ s.objs, ∀ o' ∈ s.objs, o.ptr ≠ o'.ptr →
        o.ptr + o.asked ≤ o'.ptr ∨ o'.ptr + o'.asked ≤ o.ptr)
    ∧ ∀ o ∈ s.objs, ∀ i v, o.words i = some v → s.q.mem (o.ptr + 4 * i) = v := by
  have hc := c.layout
  obtain ⟨frags, bins, hheld⟩ := h.held
  refine ⟨hheld.distinct, fun o ho => ?_, fun o ho o' ho' hne => ?_,
    fun o ho i v hv => (hheld.written o ho i v hv).2⟩
  · obtain ⟨f, hf, hp, hs⟩ := hheld.owned o ho
    have hb := hheld.sound.frag_lt hf.1
    unfold Frag.len at hb
    omega
  · obtain ⟨f, hf, hp, hs⟩ := hheld.owned o ho
    obtain ⟨f', hf', hp', hs'⟩ := hheld.owned o' ho'
    rcases hheld.sound.laid.apart f (List.mem_append_right _ hf.1) f'
      (List.mem_append_right _ hf'.1) with rfl | hap
    · exact absurd (hp.trans hp'.symm) hne
    · unfold Apart Frag.len at hap
      omega

/-- A word is written into a block, and the pool is asked for another one after that. -/
theorem Heap.blocks_kept_one : ∃ s o, Heap.Reached ⟨true, false⟩ s ∧ o ∈ s.objs ∧ o.asked = 100
    ∧ (s.objs.map Obj.ptr).Nodup
    ∧ s.q.firstFrag < o.ptr ∧ o.ptr + 100 ≤ s.q.lastFragEnd
    ∧ (∀ o' ∈ s.objs, o.ptr ≠ o'.ptr → o.ptr + 100 ≤ o'.ptr ∨ o'.ptr + o'.asked ≤ o.ptr)
    ∧ s.q.mem (o.ptr + 12) = 7 := by
  obtain ⟨s, o, h, hobjs, -, hasked, -⟩ := Heap.exists_owned ⟨true, false⟩
  have ho : o ∈ s.objs := hobjs ▸ List.mem_singleton_self o
  obtain ⟨s₁, hs₁⟩ : ∃ s₁, s.step ⟨true, false⟩ (.write o.ptr 3 7) = some s₁ := ⟨_, rfl⟩
  have h₁ : Heap.Reached ⟨true, false⟩ s₁ :=
    h.step (a := .write o.ptr 3 7) ⟨o, ho, rfl, by rw [hasked]; decide⟩ hs₁
  have ho₁ : o.write 3 7 ∈ s₁.objs := by
    obtain rfl := Option.some.inj hs₁
    simp [hobjs]
  obtain ⟨frags, bins, hheld⟩ := h₁.held
  obtain ⟨r, -, -, hres, -⟩ := @Heap.Held.malloc _ _ _ _ 100 hheld (by decide)
  have hroom : Heap.Legal ⟨true, false⟩ s₁ (.malloc 100) := by
    show 100 + Build.roundTo ⟨true, false⟩ ≤ 2 ^ 32
    decide
  have h₂ : Heap.Reached ⟨true, false⟩ (s₁.gave 100 r) :=
    h₁.step hroom (by rw [Heap.step, hres]; rfl)
  have ho₂ : o.write 3 7 ∈ (s₁.gave 100 r).objs := by
    unfold Heap.gave
    split
    · exact ho₁
    · exact List.mem_cons_of_mem _ ho₁
  obtain ⟨hnd, hin, hapart, hwords⟩ := Heap.blocks_kept h₂
  refine ⟨_, _, h₂, ho₂, hasked, hnd, (hin _ ho₂).1, ?_, fun o' ho' hne => ?_, ?_⟩
  · exact hasked ▸ (hin _ ho₂).2
  · exact hasked ▸ hapart _ ho₂ o' ho' hne
  · exact hwords _ ho₂ 3 7 (by simp [Obj.write])

/-! ## What `qm_status` goes through -/

theorem Mapped.fragsFrom {fs : List Frag} {a k : Nat} (hg : ∀ f ∈ fs, Good c q.mem f)
    (ht : Tiles Frag.addr (Frag.len c) a fs (q.lastFragEnd + c.fragEnd)) (hk : fs.length < k) :
    fragsFrom c q k a = .ok (fs.map Frag.addr) := by
  have hc := c.layout
  induction fs generalizing a k with
  | nil =>
      obtain ⟨k, rfl⟩ := Nat.exists_eq_succ_of_ne_zero (Nat.ne_of_gt hk)
      have ha : a = q.lastFragEnd + c.fragEnd := ht
      unfold Mem.fragsFrom
      rw [if_neg (by omega)]
      rfl
  | cons f fs ih =>
      obtain ⟨k, rfl⟩ := Nat.exists_eq_succ_of_ne_zero (Nat.ne_zero_of_lt hk)
      rw [List.length_cons] at hk
      have hfa := ht.1
      have hle := ht.2.le
      have hnext : fragNext c q.mem a = a + f.len c := by
        unfold fragNext Frag.len
        rw [← hfa, (hg f List.mem_cons_self).size]
        omega
      unfold Frag.len at hle
      unfold Mem.fragsFrom
      rw [if_pos (by omega), hnext, ih (fun g hg' => hg g (List.mem_cons_of_mem _ hg')) ht.2 (by omega),
        List.map_cons, hfa]
      rfl

/-- **`qm_status` goes through the fragments**, and sees which of them are free. -/
theorem Sound.status (hS : Sound c q frags bins) :
    qmStatus c q = .ok (frags.map Frag.addr)
      ∧ ∀ f ∈ frags, (nxtFree q.mem f.addr ≠ 0 ↔ Free c bins f) ∧ q.mem f.addr = f.size := by
  have hc := c.layout
  refine ⟨Mapped.fragsFrom hS.good hS.tiles ?_, fun f hf => ⟨⟨fun h => ?_, hS.next_ne_zero hf⟩,
    (hS.good f hf).size⟩⟩
  · have hlen := hS.tiles.length_le (k := c.overhead) fun f _ => Nat.le_add_right _ _
    rw [hc.2.2.2] at hlen
    rcases c.cases with ⟨-, h1, h2, -, -, -⟩ | ⟨-, h1, h2, -, -, -⟩
    · rw [h1, h2] at hlen
      omega
    · rw [h1, h2] at hlen
      omega
  · by_contra hb
    exact h (hS.busy f hf hb)

theorem Sound.status_if (hS : Sound c q frags bins) (hf : f ∈ frags) (a b : Nat) :
    (if nxtFree q.mem f.addr = 0 then a else b) = if Free c bins f then b else a := by
  by_cases hfree : Free c bins f
  · rw [if_pos hfree, if_neg ((hS.status.2 f hf).1.mpr hfree)]
  · have hno : nxtFree q.mem f.addr = 0 := by
      by_contra hne
      exact hfree ((hS.status.2 f hf).1.mp hne)
    rw [if_neg hfree, if_pos hno]

/-- **Best fit**: `qm_malloc` fails if no free fragment is large enough or if the books say that
too little is left, and else takes the smallest one that is. -/
theorem Heap.best_fit (h : Heap.Reached c s) (n : Nat) :
    ∃ fs, qmStatus c s.q = .ok fs
    ∧ ((qmMalloc c s.q n = .ok (0, s.q) ∧ (usub s.q.size s.q.realUsed < c.roundUp n
        ∨ ∀ f ∈ fs, nxtFree s.q.mem f ≠ 0 → s.q.mem f < c.roundUp n))
      ∨ ∃ f ∈ fs, (nxtFree s.q.mem f ≠ 0 ∧ c.roundUp n ≤ s.q.mem f
          ∧ c.roundUp n ≤ usub s.q.size s.q.realUsed
          ∧ ∀ g ∈ fs, nxtFree s.q.mem g ≠ 0 → c.roundUp n ≤ s.q.mem g → s.q.mem f ≤ s.q.mem g)
        ∧ ∃ q', qmMalloc c s.q n = .ok (f + c.frag, q')) := by
  obtain ⟨frags, bins, hheld⟩ := h.held
  obtain ⟨hst, hsees⟩ := hheld.sound.status
  refine ⟨_, hst, ?_⟩
  rcases hheld.sound.malloc (n := n) with ⟨hres, hwhy⟩ |
    ⟨f, hf, ⟨hfree, hfn, hquick, hmin⟩, q', g, frags', bins', hres, -⟩
  · refine .inl ⟨hres, hwhy.imp_right fun hno => ?_⟩
    intro a ha hfa
    obtain ⟨f, hf, rfl⟩ := List.mem_map.mp ha
    rw [(hsees f hf).2]
    exact hno f hf ((hsees f hf).1.mp hfa)
  · refine .inr ⟨f.addr, List.mem_map_of_mem hf, ⟨(hsees f hf).1.mpr hfree, ?_, hquick, ?_⟩, q', hres⟩
    · rw [(hsees f hf).2]
      exact hfn
    · intro a ha hfa hle
      obtain ⟨g, hg, rfl⟩ := List.mem_map.mp ha
      rw [(hsees g hg).2] at hle ⊢
      rw [(hsees f hf).2]
      exact hmin g hg ((hsees g hg).1.mp hfa) hle

/-- The first block of a pool comes from the smallest free fragment that has a hundred bytes. -/
theorem Heap.best_fit_one : ∃ q fs, Heap.Reached ⟨true, false⟩ ⟨q, [], []⟩
    ∧ qmStatus ⟨true, false⟩ q = .ok fs
    ∧ ∃ f ∈ fs, (nxtFree q.mem f ≠ 0 ∧ Build.roundUp ⟨true, false⟩ 100 ≤ q.mem f
        ∧ ∀ g ∈ fs, nxtFree q.mem g ≠ 0 → Build.roundUp ⟨true, false⟩ 100 ≤ q.mem g → q.mem f ≤ q.mem g)
      ∧ ∃ q', qmMalloc ⟨true, false⟩ q 100 = .ok (f + 24, q') := by
  obtain ⟨s, o, -, -, -, -, q, p, hres, -, hp, h⟩ := Heap.exists_owned ⟨true, false⟩
  obtain ⟨fs, hfs, hfit⟩ := Heap.best_fit h 100
  refine ⟨q, fs, h, hfs, ?_⟩
  rcases hfit with ⟨hnone, -⟩ | ⟨f, hf, ⟨hfree, hfn, -, hmin⟩, q', hgot⟩
  · exact absurd (congrArg Prod.fst (Res.ok.inj (hres.symm.trans hnone))) hp
  · exact ⟨f, hf, ⟨hfree, hfn, hmin⟩, q', hgot⟩

/-- **A block holds what was asked for**, unless rounding that up wraps around; then it never
does. -/
theorem Heap.holds_iff (h : Heap.Reached c s) {p : Nat} {q' : QmBlock}
    (hres : qmMalloc c s.q n = .ok (p, q')) (hp : p ≠ 0) :
    n ≤ q'.mem (p - c.frag) ↔ n + c.roundTo ≤ 2 ^ 32 := by
  have hc := c.layout
  obtain ⟨frags, bins, hheld⟩ := h.held
  rcases hheld.sound.malloc (n := n) with ⟨hres', -⟩ |
    ⟨f, hf, -, q'', g, frags', bins', hres', hga, hgs, hS, -, hbusy, -⟩
  · have heq := Res.ok.inj (hres.symm.trans hres')
    exact absurd (congrArg Prod.fst heq) hp
  · have heq := Res.ok.inj (hres.symm.trans hres')
    have hp' : p = f.addr + c.frag := congrArg Prod.fst heq
    have hq' : q' = q'' := congrArg Prod.snd heq
    have hg := ((hbusy g).mpr (.inl rfl)).1
    have hsize : q'.mem (p - c.frag) = g.size := by
      rw [hp', Nat.add_sub_cancel, hq', ← hga]
      exact (hS.good g hg).size
    rw [hsize]
    constructor
    · -- no block is so large
      intro hle
      have hb := hS.frag_lt hg
      have htop := hS.top
      have hcontrol := hS.control
      unfold Frag.len at hb
      rcases c.cases with ⟨-, h1, h2, -, -, h5⟩ | ⟨-, h1, h2, -, -, h5⟩
      · omega
      · omega
    · intro hle
      have hround := (c.roundUp_spec hle).1
      omega

theorem Heap.holds_hundred : ∃ q q' p, Heap.Reached ⟨true, false⟩ ⟨q, [], []⟩
    ∧ qmMalloc ⟨true, false⟩ q 100 = .ok (p, q') ∧ 100 ≤ q'.mem (p - 24) := by
  obtain ⟨s, o, -, -, -, -, q, p, hres, -, hp, h⟩ := Heap.exists_owned ⟨true, false⟩
  exact ⟨q, s.q, p, h, hres, (Heap.holds_iff h hres hp).mpr (by decide)⟩

/-- **The books**: `used` is what the blocks that are handed out hold. What is free is more than
the books say, by what the allocator itself takes. -/
theorem Heap.booked (h : Heap.Reached c s) :
    ∃ fs, qmStatus c s.q = .ok fs
    ∧ s.q.used = (fs.map fun f => if nxtFree s.q.mem f = 0 then s.q.mem f else 0).sum
    ∧ (fs.map fun f => if nxtFree s.q.mem f = 0 then 0 else s.q.mem f).sum + s.q.realUsed
      = s.q.size + initOverhead c
    ∧ s.q.realUsed ≤ s.q.maxRealUsed := by
  obtain ⟨frags, bins, hheld⟩ := h.held
  have hS := hheld.sound
  obtain ⟨hst, hsees⟩ := hS.status
  have hsum := hS.tiles.sum
  have hadd := @freeSize_add c frags bins
  have htotal := hS.total
  have hreal := hS.realUsed
  have hover : initOverhead c = c.roundUp c.block + c.overhead := Nat.add_assoc _ _ _
  refine ⟨_, hst, ?_, ?_, hS.peak⟩
  · rw [hS.used, busySize, List.map_map]
    congr 1
    refine List.map_congr_left fun f hf => ?_
    rw [Function.comp_apply, hS.status_if hf, (hsees f hf).2]
  · have hfree : freeSize c bins frags = ((frags.map Frag.addr).map fun f =>
        if nxtFree s.q.mem f = 0 then 0 else s.q.mem f).sum := by
      rw [freeSize, List.map_map]
      congr 1
      refine List.map_congr_left fun f hf => ?_
      rw [Function.comp_apply, hS.status_if hf, (hsees f hf).2]
    omega

theorem Heap.booked_one : ∃ s fs, Heap.Reached ⟨false, true⟩ s ∧ s.objs ≠ []
    ∧ qmStatus ⟨false, true⟩ s.q = .ok fs
    ∧ s.q.used = (fs.map fun f => if nxtFree s.q.mem f = 0 then s.q.mem f else 0).sum := by
  obtain ⟨s, o, h, hobjs, -⟩ := Heap.exists_owned ⟨false, true⟩
  obtain ⟨fs, hfs, hused, -⟩ := Heap.booked h
  exact ⟨s, fs, h, by simp [hobjs], hfs, hused⟩

/-- **With `QM_JOIN_FREE` there are never two free fragments side by side**; once everything is
given back the pool is one fragment again. -/
theorem Heap.coalesced (hj : c.join = true) (h : Heap.Reached c s) :
    ∃ fs, qmStatus c s.q = .ok fs
    ∧ (∀ f ∈ fs, ∀ g ∈ fs, nxtFree s.q.mem f ≠ 0 → nxtFree s.q.mem g ≠ 0 →
        fragNext c s.q.mem f ≠ g)
    ∧ (s.objs = [] → fs = [s.q.firstFrag] ∧ s.q.mem s.q.firstFrag = s.q.size ∧ s.q.used = 0
        ∧ s.q.realUsed = initOverhead c) := by
  have hc := c.layout
  obtain ⟨frags, bins, hheld⟩ := h.held
  have hS := hheld.sound
  obtain ⟨hst, hsees⟩ := hS.status
  refine ⟨_, hst, fun a ha b hb hfa hfb => ?_, fun hnone => ?_⟩
  · obtain ⟨f, hf, rfl⟩ := List.mem_map.mp ha
    obtain ⟨g, hg, rfl⟩ := List.mem_map.mp hb
    have hne := hS.joined hj f hf g hg ((hsees f hf).1.mp hfa) ((hsees g hg).1.mp hfb)
    unfold fragNext
    rw [(hsees f hf).2]
    unfold Frag.len at hne
    omega
  · have hfree : ∀ f ∈ frags, Free c bins f := by
      intro f hf
      by_contra hb
      obtain ⟨o, ho, -⟩ := hheld.busy f ⟨hf, hb⟩
      rw [hnone] at ho
      exact absurd ho (by simp)
    have hbusy := busySize_free hfree
    have htotal := hS.total
    have htiles := hS.tiles
    have hused := hS.used
    have hreal := hS.realUsed
    -- of two fragments the second one would be joined
    cases frags with
    | nil =>
        have hend : s.q.firstFrag = s.q.lastFragEnd + c.fragEnd := htiles
        omega
    | cons f rest =>
        cases rest with
        | nil =>
            have hlast := @Tiles.last _ _ _ _ _ [] _ htiles
            have hfirst : f.addr = s.q.firstFrag := htiles.1
            have hsize := (hsees f (by simp)).2
            have hover : initOverhead c = c.roundUp c.block + c.overhead := Nat.add_assoc _ _ _
            rw [hfirst] at hsize
            rw [List.length_singleton] at hreal
            unfold Frag.len at hlast
            exact ⟨by rw [List.map_singleton, hfirst], by omega, by omega, by omega⟩
        | cons g rest =>
            have hnext := @Tiles.next _ _ _ _ _ [] _ _ _ htiles
            exact absurd hnext.symm (hS.joined hj f (by simp) g (by simp) (hfree f (by simp))
              (hfree g (by simp)))

/-- The block is given back, and the pool is as it was in the beginning. -/
theorem Heap.coalesced_free : ∃ s, Heap.Reached ⟨true, true⟩ s ∧ s.seen ≠ []
    ∧ qmStatus ⟨true, true⟩ s.q = .ok [s.q.firstFrag] ∧ s.q.used = 0 := by
  obtain ⟨s, o, h, hobjs, hseen, -⟩ := Heap.exists_owned ⟨true, true⟩
  have ho : o ∈ s.objs := hobjs ▸ List.mem_singleton_self o
  obtain ⟨frags, bins, hheld⟩ := h.held
  obtain ⟨q, -, -, hres, -⟩ := hheld.free ho
  have h' : Heap.Reached ⟨true, true⟩ { s.took o.ptr with q } :=
    h.step (a := .free o.ptr) ⟨o, ho, rfl⟩ (by rw [Heap.step, hres]; rfl)
  obtain ⟨fs, hfs, -, hall⟩ := Heap.coalesced rfl h'
  have hnone : (s.took o.ptr).objs = [] := by simp [Heap.took, hobjs]
  obtain ⟨hone, -, hused, -⟩ := hall hnone
  refine ⟨_, h', ?_, hone ▸ hfs, hused⟩
  show s.seen ≠ []
  simp [hseen]

/-- **A pointer that was given back is not taken a second time**, as long as it is not handed out
anew: with the checks, and without `QM_JOIN_FREE`, the process is aborted. -/
theorem Heap.double_free (hd : c.dbg = true) (hj : c.join = false) (h : Heap.Reached c s)
    (hp : p ∈ s.seen) : qmFree c s.q p = .error ↔ ∀ o ∈ s.objs, o.ptr ≠ p := by
  have hc := c.layout
  obtain ⟨frags, bins, hheld⟩ := h.held
  have hS := hheld.sound
  obtain ⟨f, hf, rfl⟩ := hheld.seen hj p hp
  constructor
  · intro herr o ho he
    obtain ⟨q', -, -, hres, -⟩ := hheld.free ho
    rw [he, herr] at hres
    exact absurd hres (by simp)
  · intro hno
    have hfree : Free c bins f := by
      by_contra hb
      obtain ⟨o, ho, hpo⟩ := hheld.busy f ⟨hf, hb⟩
      exact hno o ho hpo
    have hb := hS.frag_lt hf
    unfold Frag.len at hb
    unfold qmFree
    rw [if_neg fun h => by omega, if_neg (by omega), Nat.add_sub_cancel]
    dsimp only
    rw [hS.debug hf, Res.ok_bind, if_pos ⟨hd, hS.next_ne_zero hf hfree⟩]

theorem Heap.double_free_aborts : ∃ s p, Heap.Reached ⟨true, false⟩ s ∧ p ∈ s.seen
    ∧ qmFree ⟨true, false⟩ s.q p = .error := by
  obtain ⟨s, o, h, hobjs, hseen, -⟩ := Heap.exists_owned ⟨true, false⟩
  have ho : o ∈ s.objs := hobjs ▸ List.mem_singleton_self o
  obtain ⟨frags, bins, hheld⟩ := h.held
  obtain ⟨q, -, -, hres, -⟩ := hheld.free ho
  have h' : Heap.Reached ⟨true, false⟩ { s.took o.ptr with q } :=
    h.step (a := .free o.ptr) ⟨o, ho, rfl⟩ (by rw [Heap.step, hres]; rfl)
  have hp : o.ptr ∈ s.seen := hseen ▸ List.mem_singleton_self o.ptr
  have hnone : (s.took o.ptr).objs = [] := by simp [Heap.took, hobjs]
  refine ⟨_, o.ptr, h', hp, (Heap.double_free rfl rfl h' hp).mpr fun o' ho' => ?_⟩
  exact absurd (hnone ▸ ho' : o' ∈ []) (by simp)

end Disc.Mem
