import Disc.Lib.Tiles
import Disc.Mem.FreeLists

/-!
# The pool

The fragments of a pool lie one behind the other, from the first one to the last tail, and
the free ones are in the lists their sizes belong to. `Mapped` says so, and says nothing of
the links of the other fragments. Whatever is done to a pool is a sequence of four operations
that keep it: a fragment goes into its list or out of it, a fragment is split, and two
fragments that are neighbours become one.
-/

namespace Disc.Mem

open Disc.Lib

variable (c : Build)

/-- The end of a list. -/
def QmBlock.headFrag (q : QmBlock) (h : Nat) : Frag := ⟨q.head c h, 0⟩

/-- The ends of all lists. -/
def QmBlock.heads (q : QmBlock) : List Frag := (List.range c.hashSize).map (q.headFrag c)

/-- The header and the tail of a fragment, but for the links. -/
structure Good (m : Words) (f : Frag) : Prop where
  size : m f.addr = f.size
  endSize : m (f.tail c + c.endSize) = f.size
  round : c.roundTo ∣ f.size
  check : c.dbg = true → m (f.addr + 20) = stCheckPattern ∧ endChecked m (f.tail c) = true

/-- The fragments of the pool, and the lists of the free ones. -/
structure Mapped (q : QmBlock) (frags : List Frag) (bins : Nat → List Frag) : Prop where
  area : 0 < q.freeHash ∧ q.freeHash + c.hashSize * c.overhead ≤ q.firstFrag
  tiles : Tiles Frag.addr (Frag.len c) q.firstFrag frags (q.lastFragEnd + c.fragEnd)
  top : q.lastFragEnd + c.fragEnd ≤ 2 ^ 32
  heads : ∀ h < c.hashSize, q.mem (q.head c h) = 0
  good : ∀ f ∈ frags, Good c q.mem f
  ring : ∀ h < c.hashSize, FreeList c q.mem (q.headFrag c h) (bins h)
  sorted : ∀ h < c.hashSize, (bins h).Pairwise Frag.NoLarger
  binned : ∀ h < c.hashSize, ∀ f ∈ bins h, f ∈ frags ∧ bucket c f.size = h

/-- The words of a fragment, links included, are as they were. -/
def Keeps (m m' : Words) (f : Frag) : Prop :=
  ∀ a, f.addr ≤ a → a < f.addr + f.len c → m' a = m a

theorem Build.dbg_layout (h : c.dbg = true) : c.frag = 24 ∧ c.endSize = 16 ∧ c.endPrev = 20 := by
  unfold frag endSize endPrev
  simp [h]

variable {c} {q : QmBlock} {frags : List Frag} {bins : Nat → List Frag} {m m' : Words}
  {f g x : Frag} {h : Nat}

/-! ## What the fragments have to do with one another -/

theorem QmBlock.mem_heads : f ∈ q.heads c ↔ ∃ h < c.hashSize, q.headFrag c h = f := by
  simp [QmBlock.heads]

theorem QmBlock.headFrag_mem (hh : h < c.hashSize) : q.headFrag c h ∈ q.heads c ++ frags :=
  List.mem_append_left _ (QmBlock.mem_heads.mpr ⟨h, hh, rfl⟩)

theorem head_apart {h h' : Nat} (hne : h ≠ h') : Apart c (q.headFrag c h) (q.headFrag c h') := by
  have hstep : ∀ {i j : Nat}, i < j → i * c.overhead + c.overhead ≤ j * c.overhead := by
    intro i j hij
    rw [← Nat.succ_mul]
    exact Nat.mul_le_mul_right _ hij
  simp only [Apart, Frag.len, QmBlock.headFrag, QmBlock.head]
  rcases Nat.lt_or_gt_of_ne hne with hlt | hlt
  · have := hstep hlt
    omega
  · have := hstep hlt
    omega

theorem not_apart_self : ¬ Apart c f f := by
  have hc := c.layout
  unfold Apart Frag.len
  omega

theorem headFrag_inj {h h' : Nat} (he : q.headFrag c h = q.headFrag c h') : h = h' := by
  by_contra hne
  have hap := head_apart (c := c) (q := q) hne
  rw [he] at hap
  exact not_apart_self hap

theorem Mapped.head_le (hM : Mapped c q frags bins) (hh : h < c.hashSize) :
    q.head c h + c.overhead ≤ q.firstFrag := by
  have harea := hM.area.2
  have hstep : h * c.overhead + c.overhead ≤ c.hashSize * c.overhead := by
    rw [← Nat.succ_mul]
    exact Nat.mul_le_mul_right _ hh
  unfold QmBlock.head
  omega

/-- **No two fragments overlap**, nor any with the end of a list. -/
theorem Mapped.laid (hM : Mapped c q frags bins) : Laid c q.mem (q.heads c ++ frags) := by
  have hheadfrag : ∀ h < c.hashSize, ∀ f ∈ frags, Apart c (q.headFrag c h) f := by
    intro h hh f hf
    have hlo := (hM.tiles.bounds hf).1
    have hle := hM.head_le hh
    left
    simp only [Frag.len, QmBlock.headFrag]
    omega
  constructor
  · intro f hf
    rcases List.mem_append.mp hf with hf | hf
    · obtain ⟨h, hh, rfl⟩ := QmBlock.mem_heads.mp hf
      exact hM.heads h hh
    · exact (hM.good f hf).size
  · intro f hf g hg
    rcases List.mem_append.mp hf with hf | hf <;> rcases List.mem_append.mp hg with hg | hg
    · obtain ⟨h, hh, rfl⟩ := QmBlock.mem_heads.mp hf
      obtain ⟨h', hh', rfl⟩ := QmBlock.mem_heads.mp hg
      by_cases hne : h = h'
      · exact .inl (hne ▸ rfl)
      · exact .inr (head_apart hne)
    · obtain ⟨h, hh, rfl⟩ := QmBlock.mem_heads.mp hf
      exact .inr (hheadfrag h hh g hg)
    · obtain ⟨h, hh, rfl⟩ := QmBlock.mem_heads.mp hg
      exact .inr (hheadfrag h hh f hf).symm
    · exact hM.tiles.apart hf hg

theorem Mapped.frag_lt (hM : Mapped c q frags bins) (hf : f ∈ frags) :
    q.firstFrag ≤ f.addr ∧ f.addr + f.len c ≤ q.lastFragEnd + c.fragEnd ∧ f.size < 2 ^ 32 := by
  have hb := hM.tiles.bounds hf
  have htop := hM.top
  have hc := c.layout
  refine ⟨hb.1, hb.2, ?_⟩
  have h2 := hb.2
  unfold Frag.len at h2
  omega

theorem Mapped.bucket_lt (hM : Mapped c q frags bins) (hf : f ∈ frags) :
    bucket c f.size < c.hashSize := Mem.bucket_lt (hM.frag_lt hf).2.2

/-- A fragment that is not in the list of its size is in none. -/
theorem Mapped.notMem_bin (hM : Mapped c q frags bins) (hx : x ∉ bins (bucket c x.size))
    (hh : h < c.hashSize) : x ∉ bins h := fun hmem => by
  rw [(hM.binned h hh x hmem).2] at hx
  exact hx hmem

theorem Mapped.bin_sub (hM : Mapped c q frags bins) (hh : h < c.hashSize) :
    ∀ y ∈ q.headFrag c h :: bins h, y ∈ q.heads c ++ frags :=
  List.forall_mem_cons.mpr ⟨QmBlock.headFrag_mem hh,
    fun y hy => List.mem_append_right _ (hM.binned h hh y hy).1⟩

theorem Mapped.head_notMem (hM : Mapped c q frags bins) (hh : h < c.hashSize) :
    q.headFrag c h ∉ frags := by
  intro hf
  have hlo := (hM.frag_lt hf).1
  have hle := hM.head_le hh
  have hc := c.layout
  have haddr : (q.headFrag c h).addr = q.head c h := rfl
  omega

/-! ## Other links -/

theorem Good.onlyLinks {xs ns : List Frag} (hg : Good c m f) (hl : Laid c m ns) (hf : f ∈ ns)
    (hs : ∀ y ∈ xs, y ∈ ns) (hm : OnlyLinks c xs m m') : Good c m' f := by
  have hc := c.layout
  -- no word but the links is one that is written
  have hkeep : ∀ a, (f.addr ≤ a ∧ a < f.addr + c.frag ∨ f.tail c ≤ a ∧ a < f.tail c + c.fragEnd) →
      a ≠ f.nextAt → a ≠ f.prevAt c → m' a = m a := by
    intro a ha hnext hprev
    refine hm a fun y hy => ?_
    rcases hl.apart f hf y (hs y hy) with rfl | hap
    · exact ⟨hnext, hprev⟩
    · simp only [Apart, Frag.len, Frag.nextAt, Frag.prevAt, Frag.tail] at *
      constructor <;> omega
  have hsize := hg.size
  have hend := hg.endSize
  refine ⟨?_, ?_, hg.round, fun hdbg => ?_⟩
  · rw [hkeep f.addr (.inl ⟨by omega, by omega⟩), hsize]
    · unfold Frag.nextAt
      omega
    · unfold Frag.prevAt Frag.tail
      omega
  · rw [hkeep _ (.inr ⟨by omega, by omega⟩), hend]
    · unfold Frag.nextAt Frag.tail
      omega
    · unfold Frag.prevAt
      omega
  · obtain ⟨hst, hcheck⟩ := hg.check hdbg
    have hd := c.dbg_layout hdbg
    unfold endChecked at hcheck ⊢
    rw [hkeep (f.addr + 20) (.inl ⟨by omega, by omega⟩), hkeep (f.tail c) (.inr ⟨by omega, by omega⟩),
      hkeep (f.tail c + 4) (.inr ⟨by omega, by omega⟩)]
    · exact ⟨hst, hcheck⟩
    all_goals
      simp only [Frag.nextAt, Frag.prevAt, Frag.tail]
      omega

/-- A list whose fragments are as they were is the list it was. -/
theorem FreeList.keep {ns bin : List Frag} (hr : FreeList c m f bin) (hl : Laid c m ns)
    (hs : ∀ y ∈ f :: bin, y ∈ ns) (hk : ∀ y ∈ f :: bin, Keeps c m m' y) : FreeList c m' f bin := by
  have hc := c.layout
  have hword : ∀ y ∈ f :: bin, (links c m').next y.addr = (links c m).next y.addr
      ∧ (links c m').prev y.addr = (links c m).prev y.addr := by
    intro y hy
    have hsize := hl.sized y (hs y hy)
    have hkey := hk y hy
    unfold Keeps Frag.len at hkey
    constructor
    · exact congrArg some (hkey (y.addr + 4) (by omega) (by omega))
    · simp only [links, prevFree, fragEndOf]
      rw [hkey y.addr (by omega) (by omega), hsize,
        hkey (y.addr + c.frag + y.size + c.endPrev) (by omega) (by omega)]
  refine hr.congr (fun a ha => ?_) (fun a ha => ?_)
  · rw [← List.map_cons (f := Frag.addr)] at ha
    obtain ⟨y, hy, rfl⟩ := List.mem_map.mp ha
    exact (hword y hy).1
  · have ha : a ∈ (f :: bin).map Frag.addr := by
      simpa [or_comm] using ha
    obtain ⟨y, hy, rfl⟩ := List.mem_map.mp ha
    exact (hword y hy).2

/-- **Links are written in one list only**, which becomes another. -/
theorem Mapped.relink {xs bin : List Frag} (hM : Mapped c q frags bins) (hh : h < c.hashSize)
    (hm : OnlyLinks c xs q.mem m')
    (hxs : ∀ y ∈ xs, y = q.headFrag c h ∨ y ∈ frags ∧ ∀ h' < c.hashSize, h' ≠ h → y ∉ bins h')
    (hring : FreeList c m' (q.headFrag c h) bin) (hsort : bin.Pairwise Frag.NoLarger)
    (hbin : ∀ f ∈ bin, f ∈ frags ∧ bucket c f.size = h) :
    Mapped c { q with mem := m' } frags (Function.update bins h bin) := by
  have hl := hM.laid
  have hsub : ∀ y ∈ xs, y ∈ q.heads c ++ frags := by
    intro y hy
    rcases hxs y hy with rfl | ⟨hf, -⟩
    · exact QmBlock.headFrag_mem hh
    · exact List.mem_append_right _ hf
  refine ⟨hM.area, hM.tiles, hM.top, fun h' hh' => ?_, fun f hf => ?_, fun h' hh' => ?_,
    fun h' hh' => ?_, fun h' hh' => ?_⟩
  · have hl' := hl.onlyLinks hsub hm
    exact hl'.sized _ (QmBlock.headFrag_mem hh')
  · exact (hM.good f hf).onlyLinks hl (List.mem_append_right _ hf) hsub hm
  · by_cases he : h' = h
    · subst he
      rw [Function.update_self]
      exact hring
    · rw [Function.update_of_ne he]
      refine (hM.ring h' hh').keep hl (hM.bin_sub hh') fun y hy a hlo hhi => ?_
      refine hm.of_apart (fun x hx => ?_) hlo hhi
      refine (hl.apart y (hM.bin_sub hh' y hy) x (hsub x hx)).resolve_left ?_
      rintro rfl
      rcases List.mem_cons.mp hy with rfl | hy
      · rcases hxs _ hx with heq | ⟨hf, -⟩
        · exact he (headFrag_inj heq)
        · exact hM.head_notMem hh' hf
      · rcases hxs _ hx with rfl | ⟨-, hno⟩
        · exact hM.head_notMem hh (hM.binned h' hh' _ hy).1
        · exact hno h' hh' he hy
  · by_cases he : h' = h
    · subst he
      rwa [Function.update_self]
    · rw [Function.update_of_ne he]
      exact hM.sorted h' hh'
  · by_cases he : h' = h
    · subst he
      rwa [Function.update_self]
    · rw [Function.update_of_ne he]
      exact hM.binned h' hh'

/-! ## Into a list and out of it -/

/-- A list is shorter than the address space. -/
theorem Mapped.length_lt (hM : Mapped c q frags bins) (hh : h < c.hashSize) :
    (bins h).length < q.lastFragEnd := by
  have hc := c.layout
  have hhead := hM.head_le hh
  have hpos := hM.area.1
  have hle : q.freeHash ≤ q.head c h := Nat.le_add_right _ _
  have hlen := hM.tiles.length_le (k := c.overhead) fun f _ => Nat.le_add_right _ _
  have hnd := (hM.ring h hh).nodup.of_cons
  have hsub : (bins h).length ≤ frags.length :=
    (List.subperm_of_subset hnd fun f hf => (hM.binned h hh f hf).1).length_le
  have hmul : frags.length ≤ c.overhead * frags.length :=
    Nat.le_mul_of_pos_left _ (by omega)
  omega

/-- What the loops over a list need to know of it. -/
theorem Mapped.readable (hM : Mapped c q frags bins) (hh : h < c.hashSize) :
    ∀ y ∈ bins h, q.mem y.addr = y.size ∧ y.addr ≠ q.head c h := by
  intro y hy
  have hf := (hM.binned h hh y hy).1
  refine ⟨(hM.good y hf).size, fun he => ?_⟩
  have heq : y = q.headFrag c h :=
    hM.laid.eq_of_addr (List.mem_append_right _ hf) (QmBlock.headFrag_mem hh) he
  exact hM.head_notMem hh (heq ▸ hf)

/-- **`qm_insert_free`** inserts into a sorted list. -/
theorem Mapped.insert (hM : Mapped c q frags bins) (hx : x ∈ frags) (hb : bucket c x.size = h)
    (hfree : x ∉ bins h) :
    ∃ m', qmInsertFree c q x.addr = .ok { q with mem := m' }
      ∧ OnlyLinks c (x :: q.headFrag c h :: bins h) q.mem m'
      ∧ Mapped c { q with mem := m' } frags
        (Function.update bins h ((bins h).orderedInsert Frag.NoLarger x)) := by
  have hl := hM.laid
  have hh : h < c.hashSize := hb ▸ hM.bucket_lt hx
  have hxn : x ∈ q.heads c ++ frags := List.mem_append_right _ hx
  have hring := hM.ring h hh
  have hxhead : x ≠ q.headFrag c h := fun he => hM.head_notMem hh (he ▸ hx)
  -- what is smaller comes first
  obtain ⟨as, has⟩ : ∃ as, as = (bins h).takeWhile fun y => y.size < x.size := ⟨_, rfl⟩
  obtain ⟨bs, hbs⟩ : ∃ bs, bs = (bins h).dropWhile fun y => y.size < x.size := ⟨_, rfl⟩
  have hcut : bins h = as ++ bs := by rw [has, hbs, List.takeWhile_append_dropWhile]
  have hins : (bins h).orderedInsert Frag.NoLarger x = as ++ x :: bs := by
    rw [List.orderedInsert_eq_take_drop, has, hbs]
    simp [Frag.NoLarger]
  have hplace := @findPlace_eq _ _ _ _ x.size _ _ (hM.readable hh) hring.chain (hM.length_lt hh)
  obtain ⟨f, vs, hf, -⟩ := exists_next bs (q.headFrag c h)
  have hfaddr : (bs.map Frag.addr).headD (q.head c h) = f.addr := by
    cases bs with
    | nil => exact congrArg Frag.addr (List.cons.inj hf).1
    | cons y bs => exact congrArg Frag.addr (List.cons.inj hf).1
  have hsub := hM.bin_sub hh
  rw [hcut] at hsub hring
  obtain ⟨hfl, honly⟩ := hring.link hl hsub hxn (by rw [← hcut]; simp [hxhead, hfree]) hf
  rw [← hcut] at honly
  rw [← hins] at hfl
  refine ⟨linkFree c q.mem x.addr (prevFree c q.mem f.addr) f.addr, ?_, honly, ?_⟩
  · rw [qmInsertFree, (hM.good x hx).size, getHash_eq (hM.frag_lt hx).2.2, Res.ok_bind, hb]
    have hplace' : findPlace q.mem (q.head c h) x.size q.lastFragEnd (nxtFree q.mem (q.head c h))
        = .ok f.addr := by
      rw [← hfaddr, hbs]
      exact hplace
    dsimp only
    rw [hplace']
    rfl
  · refine hM.relink hh honly (fun y hy => ?_) hfl ?_ (fun y hy => ?_)
    · rcases List.mem_cons.mp hy with rfl | hy
      · exact .inr ⟨hx, fun h' hh' hne hmem => hne ((hM.binned h' hh' y hmem).2.symm.trans hb)⟩
      · rcases List.mem_cons.mp hy with rfl | hy
        · exact .inl rfl
        · have hyb := hM.binned h hh y hy
          exact .inr ⟨hyb.1, fun h' hh' hne hmem =>
            hne ((hM.binned h' hh' y hmem).2.symm.trans hyb.2)⟩
    · exact (hM.sorted h hh).orderedInsert x _
    · rcases (List.mem_orderedInsert _).mp hy with rfl | hy
      · exact ⟨hx, hb⟩
      · exact hM.binned h hh y hy

/-- **`qm_detach_free`** takes a fragment out of its list. -/
theorem Mapped.detach (hM : Mapped c q frags bins) (hh : h < c.hashSize) (hx : x ∈ bins h) :
    OnlyLinks c (q.headFrag c h :: (bins h).erase x) q.mem (qmDetachFree c q x.addr).mem
      ∧ Mapped c (qmDetachFree c q x.addr) frags (Function.update bins h ((bins h).erase x)) := by
  obtain ⟨as, bs, hcut⟩ := List.append_of_mem hx
  have hring := hM.ring h hh
  have hsub := hM.bin_sub hh
  have hnd := hring.nodup.of_cons
  have herase : (bins h).erase x = as ++ bs := by
    rw [hcut] at hnd ⊢
    have hno : x ∉ as := fun hmem => (List.nodup_middle.mp hnd).notMem (List.mem_append_left _ hmem)
    rw [List.erase_append_right _ hno, List.erase_cons_head]
  rw [hcut] at hsub hring
  obtain ⟨hfl, honly⟩ := hring.unlink hM.laid hsub
  rw [← herase] at hfl honly
  refine ⟨honly, hM.relink hh honly (fun y hy => ?_) hfl ?_ (fun y hy => ?_)⟩
  · rcases List.mem_cons.mp hy with rfl | hy
    · exact .inl rfl
    · have hyb := hM.binned h hh y (List.mem_of_mem_erase hy)
      exact .inr ⟨hyb.1, fun h' hh' hne hmem =>
        hne ((hM.binned h' hh' y hmem).2.symm.trans hyb.2)⟩
  · exact (hM.sorted h hh).sublist List.erase_sublist
  · exact hM.binned h hh y (List.mem_of_mem_erase hy)

/-! ## Other fragments -/

/-- The fragment is in the list of its size. -/
def Free (c : Build) (bins : Nat → List Frag) (f : Frag) : Prop := f ∈ bins (bucket c f.size)

instance (c : Build) (bins : Nat → List Frag) (f : Frag) : Decidable (Free c bins f) :=
  inferInstanceAs (Decidable (_ ∈ _))

theorem Keeps.onlyLinks {xs ns : List Frag} (hl : Laid c m ns) (hf : f ∈ ns)
    (hs : ∀ y ∈ xs, y ∈ ns) (hno : f ∉ xs) (hm : OnlyLinks c xs m m') : Keeps c m m' f := by
  intro a hlo hhi
  refine hm.of_apart (fun y hy => ?_) hlo hhi
  refine (hl.apart f hf y (hs y hy)).resolve_left ?_
  rintro rfl
  exact hno hy

theorem Good.keep (hg : Good c m f) (hk : Keeps c m m' f) : Good c m' f := by
  have hc := c.layout
  have hsize := hg.size
  have hend := hg.endSize
  unfold Keeps Frag.len at hk
  refine ⟨?_, ?_, hg.round, fun hdbg => ?_⟩
  · rw [hk f.addr (by omega) (by omega), hsize]
  · rw [hk _ (by unfold Frag.tail; omega) (by unfold Frag.tail; omega), hend]
  · obtain ⟨hst, hcheck⟩ := hg.check hdbg
    have hd := c.dbg_layout hdbg
    unfold endChecked at hcheck ⊢
    rw [hk (f.addr + 20) (by omega) (by omega),
      hk (f.tail c) (by unfold Frag.tail; omega) (by unfold Frag.tail; omega),
      hk (f.tail c + 4) (by unfold Frag.tail; omega) (by unfold Frag.tail; omega)]
    exact ⟨hst, hcheck⟩

/-- **Fragments in no list are rewritten**, and maybe cut in another way. -/
theorem Mapped.refrag {xs ms ns ys : List Frag} {p p' : Nat}
    (hM : Mapped c q (xs ++ ms ++ ys) bins) (hne : ms ≠ [])
    (hms : Tiles Frag.addr (Frag.len c) p ms p') (hfree : ∀ f ∈ ms, ¬ Free c bins f)
    (hns : Tiles Frag.addr (Frag.len c) p ns p') (hgood : ∀ f ∈ ns, Good c m' f)
    (hm : ∀ a, a < p ∨ p' ≤ a → m' a = q.mem a) :
    Mapped c { q with mem := m' } (xs ++ ns ++ ys) bins := by
  have hc := c.layout
  have hp : q.firstFrag ≤ p := (hM.tiles.run hne hms).1.le
  have hkeep : ∀ f ∈ xs ++ ys, Keeps c q.mem m' f := by
    intro f hf a hlo hhi
    have hout := hM.tiles.outside hne hms hf
    exact hm a (by omega)
  have hkeephead : ∀ h < c.hashSize, Keeps c q.mem m' (q.headFrag c h) := by
    intro h hh a _ hhi
    have hle := hM.head_le hh
    have hlen : (q.headFrag c h).addr + (q.headFrag c h).len c = q.head c h + c.overhead := rfl
    exact hm a (by omega)
  have hsplit : ∀ f ∈ xs ++ ms ++ ys, f ∉ ms → f ∈ xs ++ ys := by
    intro f hf hno
    simp only [List.mem_append] at hf ⊢
    exact hf.elim (fun h => h.elim .inl fun h => absurd h hno) .inr
  have hbin : ∀ h < c.hashSize, ∀ f ∈ bins h, f ∈ xs ++ ys := by
    intro h hh f hf
    obtain ⟨hmem, hb⟩ := hM.binned h hh f hf
    refine hsplit f hmem fun hfm => hfree f hfm ?_
    unfold Free
    rwa [hb]
  refine ⟨hM.area, hM.tiles.splice hne hms hns, hM.top, fun h hh => ?_, fun f hf => ?_,
    fun h hh => ?_, hM.sorted, fun h hh f hf => ?_⟩
  · have hlen : (q.headFrag c h).addr + (q.headFrag c h).len c = q.head c h + c.overhead := rfl
    have haddr : (q.headFrag c h).addr = q.head c h := rfl
    exact (hkeephead h hh _ (Nat.le_of_eq haddr) (by omega)).trans (hM.heads h hh)
  · by_cases hfn : f ∈ ns
    · exact hgood f hfn
    · have hfxy : f ∈ xs ++ ys := by
        simp only [List.mem_append] at hf ⊢
        exact hf.elim (fun h => h.elim .inl fun h => absurd h hfn) .inr
      refine (hM.good f ?_).keep (hkeep f hfxy)
      simp only [List.mem_append] at hfxy ⊢
      exact hfxy.imp_left .inl
  · refine (hM.ring h hh).keep hM.laid (hM.bin_sub hh) fun y hy => ?_
    rcases List.mem_cons.mp hy with rfl | hy
    · exact hkeephead h hh
    · exact hkeep y (hbin h hh y hy)
  · refine ⟨?_, (hM.binned h hh f hf).2⟩
    have hfxy := hbin h hh f hf
    simp only [List.mem_append] at hfxy ⊢
    exact hfxy.imp_left .inl

/-- What is free once `x` is in its list. -/
theorem free_insert {bins : Nat → List Frag} (hb : bucket c x.size = h) :
    Free c (Function.update bins h ((bins h).orderedInsert Frag.NoLarger x)) f
      ↔ f = x ∨ Free c bins f := by
  unfold Free
  by_cases he : bucket c f.size = h
  · rw [he, Function.update_self, List.mem_orderedInsert]
  · rw [Function.update_of_ne he]
    refine ⟨.inr, fun hf => hf.resolve_left ?_⟩
    rintro rfl
    exact he hb

/-- What is free once `x` is taken out of its list. -/
theorem free_erase {bins : Nat → List Frag} (hb : bucket c x.size = h) (hnd : (bins h).Nodup) :
    Free c (Function.update bins h ((bins h).erase x)) f ↔ f ≠ x ∧ Free c bins f := by
  unfold Free
  by_cases he : bucket c f.size = h
  · rw [he, Function.update_self, hnd.mem_erase_iff]
  · rw [Function.update_of_ne he]
    refine ⟨fun hf => ⟨?_, hf⟩, And.right⟩
    rintro rfl
    exact he hb

end Disc.Mem
