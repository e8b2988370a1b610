import Disc.Lib.Chain
import Disc.Lib.Run
import Disc.Rings.ListHead
import Disc.Transport.HashTable

/-!
# The hash table, link by link

`hash_table.c` with its memory: an array of entries, each the head of a ring of
cells, and cells that know nothing of the table but their two links. That the links
of a cell are null is what `remove_cell_from_htable` goes by, and the label alone
tells the cells of an entry apart; it is taken from a counter that starts anywhere
and wraps around.

Two things are recorded that the source does not keep: which cells were added and
not removed since, and how many cells were added to the entry of a cell after it.
-/

namespace Disc.Rings

open Disc.Lib Disc.Transport

/-- A `list_head` of the table: that of an entry, or that of a cell. -/
inductive HNode where
  | entry (i : UInt32)
  | cell (x : Nat)
deriving Repr, DecidableEq

/-- `h_table` and the cells there are. -/
structure Table where
  hashSize : UInt32
  links : Links HNode
  /-- `entrys[i].next_label`. -/
  nextLabel : UInt32 → UInt32
  label : Nat → UInt32
  hashCode : Nat → UInt32
  /-- The number of cells, in the table or not. -/
  size : Nat
  /-- Added, and not removed since. -/
  live : Nat → Bool
  /-- How many cells were added to its entry after it. -/
  age : Nat → Nat

/-- The loop of `build_htable` over the entries. -/
def initEntries (hashSize : Nat) : Links HNode :=
  (List.range hashSize).foldl (fun m i => initListHead m (.entry (UInt32.ofNat i)))
    ⟨fun _ => none, fun _ => none⟩

/-- `build_htable`, and `n` cells that are zeroed. The labels start anywhere. -/
def buildTable (hashSize : UInt32) (seed : UInt32 → UInt32) (n : Nat) : Table where
  hashSize := hashSize
  links := initEntries hashSize.toNat
  nextLabel := seed
  label := fun _ => 0
  hashCode := fun _ => 0
  size := n
  live := fun _ => false
  age := fun _ => 0

/-- The table with `x` linked by `links`: the cell takes its label from the counter of its entry. -/
def Table.withCell (t : Table) (x : Nat) (links : Links HNode) : Table :=
  let i := t.hashCode x
  { t with
    links := links
    label := Function.update t.label x (t.nextLabel i)
    nextLabel := Function.update t.nextLabel i (t.nextLabel i + 1)
    live := Function.update t.live x true
    age := fun y => if y = x then 0 else if t.hashCode y = i then t.age y + 1 else t.age y }

/-- `add_cell_to_htable`. -/
def addCellToHtable (t : Table) (x : Nat) : Res (Int × Table) :=
  if t.hashCode x > t.hashSize - 1 then .ok (-1, t)
  else do
    let links ← listAddTail t.links (.cell x) (.entry (t.hashCode x))
    .ok (1, t.withCell x links)

/-- `remove_cell_from_htable`. -/
def removeCellFromHtable (t : Table) (x : Nat) : Res (Int × Table) :=
  if t.links.next (.cell x) = none ∨ t.links.prev (.cell x) = none then .ok (-1, t)
  else do
    let links ← listDelZero t.links (.cell x)
    .ok (1, { t with links := links, live := Function.update t.live x false })

/-- The loop of both lookups. Another entry is not a cell. -/
def findLabel (t : Table) (hashCode label : UInt32) : Nat → Option HNode → Res (Option Nat)
  | _, none => .fault
  | _, some (.entry i) => if i = hashCode then .ok none else .fault
  | 0, some (.cell _) => .diverge
  | fuel + 1, some (.cell x) =>
      if t.label x = label then .ok (some x)
      else findLabel t hashCode label fuel (t.links.next (.cell x))

/-- `cell_lookup`. -/
def cellLookup (t : Table) (hashCode label : UInt32) : Res (Option Nat) :=
  findLabel t hashCode label t.size (t.links.next (.entry hashCode))

/-- `cell_lookup_and_remove`. -/
def cellLookupAndRemove (t : Table) (hashCode label : UInt32) : Res (Option Nat × Table) := do
  match ← cellLookup t hashCode label with
  | none => .ok (none, t)
  | some x => do
      let links ← listDelZero t.links (.cell x)
      .ok (some x, { t with links := links, live := Function.update t.live x false })

/-- What the callers do with a new cell: its hash code is that of its key, and it is added. -/
def addKeyed (t : Table) (x : Nat) (key : List UInt8) : Res (Int × Table) :=
  addCellToHtable
    { t with hashCode := Function.update t.hashCode x (Transport.hash key t.hashSize) } x

/-- The cells of an entry, in the order of its ring. -/
def Table.bucket (t : Table) (i : UInt32) : List Nat :=
  (upTo t.links.next (.entry i) (t.size + 1) (t.links.next (.entry i))).filterMap fun p =>
    match p with
    | .cell x => some x
    | .entry _ => none

/-! ## The hash -/

/-- **`hash` is below the size of the table.** -/
theorem hash_lt (s : List UInt8) {hashSize : UInt32} (h : 0 < hashSize) :
    hash s hashSize < hashSize := by
  have hle : ∀ a b : UInt32, (a &&& b).toNat ≤ b.toNat := by
    intro a b
    rw [UInt32.toNat_and]
    exact Nat.and_le_right
  have hpos : 0 < hashSize.toNat := h
  have hsub : (hashSize - 1).toNat = hashSize.toNat - 1 := by
    rw [UInt32.toNat_sub_of_le]
    · rfl
    · exact h
  rw [UInt32.lt_iff_toNat_lt]
  refine Nat.lt_of_le_of_lt (hle _ _) ?_
  omega

/-! ## The invariant -/

/-- Entry `i` of the table holds the cells `c i`, oldest first. -/
structure Buckets (t : Table) (c : UInt32 → List Nat) : Prop where
  ring : ∀ i, i < t.hashSize → Ring t.links (.entry i) ((c i).map .cell)
  code : ∀ i, ∀ x ∈ c i, t.hashCode x = i ∧ i < t.hashSize
  bound : ∀ i, ∀ x ∈ c i, x < t.size
  /-- A cell that is in no entry has null links. -/
  loose : ∀ x, (∀ i, x ∉ c i) → t.links.next (.cell x) = none ∧ t.links.prev (.cell x) = none
  live : ∀ x, t.live x = true ↔ ∃ i, x ∈ c i
  /-- The counter is past the label of a cell by as many as came after it. -/
  label : ∀ i, ∀ x ∈ c i, t.nextLabel i = t.label x + UInt32.ofNat (t.age x + 1)
    ∧ t.age x < 2 ^ 32
  order : ∀ i, (c i).Pairwise fun x y => t.age y < t.age x

section Buckets

variable {t : Table} {c : UInt32 → List Nat}

theorem Buckets.nodup (h : Buckets t c) (i : UInt32) : (c i).Nodup :=
  (h.order i).imp fun hlt he => by
    rw [he] at hlt
    exact Nat.lt_irrefl _ hlt

theorem Buckets.length_le (h : Buckets t c) (i : UInt32) : (c i).length ≤ t.size :=
  length_le_of_nodup (h.nodup i) (h.bound i)

theorem Buckets.bucket_eq (h : Buckets t c) {i : UInt32} (hi : i < t.hashSize) :
    t.bucket i = c i := by
  have hlen : ((c i).map HNode.cell).length < t.size + 1 := by
    rw [List.length_map]
    exact Nat.lt_succ_of_le (h.length_le i)
  rw [Table.bucket, Between.upTo_eq (h.ring i hi) hlen, List.filterMap_map]
  exact List.filterMap_some

/-- Two cells of an entry have different labels. -/
theorem Buckets.label_inj (h : Buckets t c) {i : UInt32} {x y : Nat} (hx : x ∈ c i) (hy : y ∈ c i)
    (he : t.label x = t.label y) : x = y := by
  obtain ⟨hlx, hax⟩ := h.label i x hx
  obtain ⟨hly, hay⟩ := h.label i y hy
  have hage : t.age x = t.age y := by
    rw [hlx, he] at hly
    have hofNat := congrArg UInt32.toNat (UInt32.add_right_inj _ |>.mp hly)
    simp only [UInt32.toNat_ofNat'] at hofNat
    omega
  have hnd : ((c i).map t.age).Nodup :=
    List.pairwise_map.mpr ((h.order i).imp fun hlt => Nat.ne_of_gt hlt)
  exact List.inj_on_of_nodup_map hnd hx hy hage

/-- A cell is in the entry of its hash code and in no other. -/
theorem Buckets.mem_iff (h : Buckets t c) {i : UInt32} {x : Nat} (hx : x ∈ c i) {j : UInt32}
    (hj : x ∈ c j) : j = i := by
  rw [← (h.code i x hx).1, (h.code j x hj).1]

/-- Of the links, at most those of entry `i`, of its cells and of `x` change. -/
def OnlyEntry (t : Table) (c : UInt32 → List Nat) (i : UInt32) (x : Nat) (m' : Links HNode) : Prop :=
  ∀ q, q ≠ .entry i → (∀ y ∈ c i, q ≠ .cell y) → q ≠ .cell x →
    m'.next q = t.links.next q ∧ m'.prev q = t.links.prev q

/-- The rings of the other entries are then what they were. -/
theorem OnlyEntry.ring {i : UInt32} {x : Nat} {m' : Links HNode} (hfr : OnlyEntry t c i x m')
    (h : Buckets t c) {j : UInt32} (hj : j < t.hashSize) (hij : j ≠ i) (hx : x ∉ c j) :
    Ring m' (.entry j) ((c j).map .cell) := by
  have hfr' : ∀ q, q = .entry j ∨ q ∈ (c j).map HNode.cell →
      m'.next q = t.links.next q ∧ m'.prev q = t.links.prev q := by
    rintro q (rfl | hq)
    · exact hfr _ (by simpa using hij) (by simp) (by simp)
    · obtain ⟨y, hy, rfl⟩ := List.mem_map.mp hq
      refine hfr _ (by simp) (fun z hz he => ?_) (fun he => ?_)
      · obtain rfl := HNode.cell.inj he
        exact hij (h.mem_iff hz hy)
      · obtain rfl := HNode.cell.inj he
        exact hx hy
  refine Between.congr (h.ring j hj) (fun q hq => (hfr' q (List.mem_cons.mp hq)).1) (fun q hq => ?_)
  refine (hfr' q ?_).2
  simpa [or_comm] using hq

/-- And so are the links of the cells that are in no entry. -/
theorem OnlyEntry.loose {i : UInt32} {x : Nat} {m' : Links HNode} (hfr : OnlyEntry t c i x m')
    (h : Buckets t c) {y : Nat} (hyx : y ≠ x) (hy : ∀ j, y ∉ c j) :
    m'.next (.cell y) = none ∧ m'.prev (.cell y) = none := by
  have hlinks := hfr (.cell y) (by simp) (fun z hz he => hy i (HNode.cell.inj he ▸ hz))
    (fun he => hyx (HNode.cell.inj he))
  rw [hlinks.1, hlinks.2]
  exact h.loose y hy

/-! ## Lookups -/

theorem findLabel_eq {i lab : UInt32} {zs : List Nat} {p : HNode} {fuel : Nat}
    (hchain : List.IsChain t.links.Link (p :: (zs.map HNode.cell ++ [HNode.entry i])))
    (hf : zs.length ≤ fuel) :
    findLabel t i lab fuel (t.links.next p) = .ok (zs.find? fun x => t.label x = lab) := by
  induction zs generalizing p fuel with
  | nil =>
      rw [List.map_nil, List.nil_append, List.isChain_pair] at hchain
      rw [hchain.1, List.find?_nil]
      cases fuel <;> simp [findLabel]
  | cons z zs ih =>
      rw [List.map_cons, List.cons_append, List.isChain_cons_cons] at hchain
      obtain ⟨fuel, rfl⟩ := Nat.exists_eq_succ_of_ne_zero (Nat.ne_of_gt (Nat.zero_lt_of_lt hf))
      rw [hchain.1.1, findLabel]
      by_cases hz : t.label z = lab
      · rw [if_pos hz, List.find?_cons_of_pos (by simpa using hz)]
      · rw [if_neg hz, List.find?_cons_of_neg (by simpa using hz)]
        exact ih hchain.2 (by simpa using hf)

theorem Buckets.lookup_eq (h : Buckets t c) {i : UInt32} (hi : i < t.hashSize) (lab : UInt32) :
    cellLookup t i lab = .ok ((c i).find? fun x => t.label x = lab) :=
  findLabel_eq (h.ring i hi).chain (h.length_le i)

/-- **A lookup returns the live cell with that hash code and label, if there is one.** -/
theorem Buckets.lookup_spec (h : Buckets t c) {i : UInt32} (hi : i < t.hashSize) (lab : UInt32) :
    ∃ r, cellLookup t i lab = .ok r
      ∧ ∀ x, r = some x ↔ t.live x = true ∧ t.hashCode x = i ∧ t.label x = lab := by
  refine ⟨_, h.lookup_eq hi lab, fun x => ⟨fun hr => ?_, fun hx => ?_⟩⟩
  · have hmem : x ∈ c i := List.mem_of_find?_eq_some hr
    have hlab : t.label x = lab := by simpa using List.find?_some hr
    exact ⟨(h.live x).mpr ⟨i, hmem⟩, (h.code i x hmem).1, hlab⟩
  · obtain ⟨hlive, hcode, hlab⟩ := hx
    obtain ⟨j, hj⟩ := (h.live x).mp hlive
    obtain rfl : j = i := (h.code j x hj).1.symm.trans hcode
    cases hf : (c j).find? fun x => t.label x = lab with
    | none => exact absurd hlab (by simpa using List.find?_eq_none.mp hf x hj)
    | some y =>
        have hy : t.label y = lab := by simpa using List.find?_some hf
        rw [h.label_inj (List.mem_of_find?_eq_some hf) hj (hy.trans hlab.symm)]

/-! ## Additions -/

/-- The label of a cell falls behind by one more with every addition. -/
theorem label_next {n l : UInt32} {k : Nat} (h : n = l + UInt32.ofNat k) :
    n + 1 = l + UInt32.ofNat (k + 1) := by
  rw [h, UInt32.add_assoc]
  congr 1
  rw [UInt32.ofNat_add]
  rfl

/-- The links of a cell put at the end of entry `i`. -/
theorem Buckets.addTail (h : Buckets t c) {x : Nat} (hfresh : ∀ i, x ∉ c i) {i : UInt32}
    (hi : i < t.hashSize) :
    ∃ m', listAddTail t.links (.cell x) (.entry i) = .ok m'
      ∧ Ring m' (.entry i) ((c i ++ [x]).map HNode.cell) ∧ OnlyEntry t c i x m' := by
  have hnew : HNode.cell x ∉ (c i).map .cell := by
    intro hm
    obtain ⟨y, hy, he⟩ := List.mem_map.mp hm
    exact hfresh i (HNode.cell.inj he ▸ hy)
  obtain ⟨m', hadd, hring, hfr⟩ := (h.ring i hi).addTail_apart (.cell x) (by simp) hnew
  refine ⟨m', hadd, by rw [List.map_append]; exact hring, fun q hqe hqc hqx => ?_⟩
  refine hfr q hqe (fun hq => ?_) hqx
  obtain ⟨y, hy, rfl⟩ := List.mem_map.mp hq
  exact hqc y hy rfl

theorem mem_update_concat {i j : UInt32} {x y : Nat} :
    y ∈ Function.update c i (c i ++ [x]) j ↔ y ∈ c j ∨ (j = i ∧ y = x) := by
  by_cases hji : j = i
  · subst hji
    simp
  · simp [hji]

/-- How far behind a cell is after `x` was added. -/
theorem withCell_age {i : UInt32} {x : Nat} (h : Buckets t c) (hfresh : ∀ j, x ∉ c j)
    (hic : t.hashCode x = i) (m' : Links HNode) {j : UInt32} {y : Nat} (hy : y ∈ c j) :
    (t.withCell x m').age y = if j = i then t.age y + 1 else t.age y := by
  have hyx : y ≠ x := fun he => hfresh j (he ▸ hy)
  show (if y = x then 0 else if t.hashCode y = t.hashCode x then _ else _) = _
  rw [if_neg hyx, (h.code j y hy).1, hic]

theorem withCell_age_self (t : Table) (x : Nat) (m' : Links HNode) :
    (t.withCell x m').age x = 0 := if_pos rfl

/-- The counter of the entry moves on, and every cell there falls behind by one more. -/
theorem withCell_label {i : UInt32} {x : Nat} (h : Buckets t c) (hfresh : ∀ j, x ∉ c j)
    (hic : t.hashCode x = i) (m' : Links HNode) (hage : ∀ y ∈ c i, t.age y + 1 < 2 ^ 32)
    {j : UInt32} {y : Nat} (hy : y ∈ Function.update c i (c i ++ [x]) j) :
    (t.withCell x m').nextLabel j
        = (t.withCell x m').label y + UInt32.ofNat ((t.withCell x m').age y + 1)
      ∧ (t.withCell x m').age y < 2 ^ 32 := by
  rcases mem_update_concat.mp hy with hyc | ⟨rfl, rfl⟩
  · have hyx : y ≠ x := fun he => hfresh j (he ▸ hyc)
    obtain ⟨hlab, hlt⟩ := h.label j y hyc
    rw [withCell_age h hfresh hic m' hyc]
    simp only [Table.withCell, hic, Function.update_of_ne hyx]
    by_cases hji : j = i
    · subst hji
      rw [if_pos rfl, Function.update_self]
      exact ⟨label_next hlab, hage y hyc⟩
    · rw [if_neg hji, Function.update_of_ne hji]
      exact ⟨hlab, hlt⟩
  · rw [withCell_age_self]
    simp only [Table.withCell, hic, Function.update_self]
    exact ⟨rfl, by decide⟩

/-- The cell that was added is the youngest of its entry. -/
theorem withCell_order {i : UInt32} {x : Nat} (h : Buckets t c) (hfresh : ∀ j, x ∉ c j)
    (hic : t.hashCode x = i) (m' : Links HNode) (j : UInt32) :
    (Function.update c i (c i ++ [x]) j).Pairwise
      fun y z => (t.withCell x m').age z < (t.withCell x m').age y := by
  have hord : (c j).Pairwise fun y z => (t.withCell x m').age z < (t.withCell x m').age y := by
    refine (h.order j).imp_of_mem fun hy hz hlt => ?_
    rw [withCell_age h hfresh hic m' hy, withCell_age h hfresh hic m' hz]
    split
    · exact Nat.add_lt_add_right hlt 1
    · exact hlt
  by_cases hji : j = i
  · subst hji
    rw [Function.update_self]
    refine List.pairwise_append.mpr ⟨hord, List.pairwise_singleton _ _, fun y hy z hz => ?_⟩
    obtain rfl := List.mem_singleton.mp hz
    rw [withCell_age_self, withCell_age h hfresh hic m' hy, if_pos rfl]
    exact Nat.succ_pos _
  · rw [Function.update_of_ne hji]
    exact hord

/-- **A cell that is in no entry is added to the end of its own.** -/
theorem Buckets.add (h : Buckets t c) {x : Nat} (hfresh : ∀ i, x ∉ c i) (hx : x < t.size)
    {i : UInt32} (hic : t.hashCode x = i) (hi : i < t.hashSize)
    (hage : ∀ y ∈ c i, t.age y + 1 < 2 ^ 32) :
    ∃ m', addCellToHtable t x = .ok (1, t.withCell x m')
      ∧ Buckets (t.withCell x m') (Function.update c i (c i ++ [x])) := by
  have hguard : ¬ i > t.hashSize - 1 := by
    rw [gt_iff_lt, UInt32.lt_iff_toNat_lt, UInt32.toNat_sub_of_le]
    · have hlt : i.toNat < t.hashSize.toNat := hi
      simp only [UInt32.reduceToNat]
      omega
    · exact Nat.zero_lt_of_lt hi
  obtain ⟨m', hadd, hring, hfr⟩ := h.addTail hfresh hi
  refine ⟨m', ?_, ?_, ?_, ?_, ?_, ?_, ?_, ?_⟩
  · rw [addCellToHtable, hic, if_neg hguard, hadd, Res.ok_bind]
  · intro j hj
    by_cases hji : j = i
    · subst hji
      rw [Function.update_self]
      exact hring
    · rw [Function.update_of_ne hji]
      exact hfr.ring h hj hji (hfresh j)
  · intro j y hy
    rcases mem_update_concat.mp hy with hy | ⟨rfl, rfl⟩
    · exact h.code j y hy
    · exact ⟨hic, hi⟩
  · intro j y hy
    rcases mem_update_concat.mp hy with hy | ⟨rfl, rfl⟩
    · exact h.bound j y hy
    · exact hx
  · intro y hy
    have hyx : y ≠ x := fun he => hy i (mem_update_concat.mpr (Or.inr ⟨rfl, he⟩))
    exact hfr.loose h hyx fun j hj => hy j (mem_update_concat.mpr (Or.inl hj))
  · intro y
    simp only [Table.withCell, mem_update_concat]
    by_cases hyx : y = x
    · subst hyx
      exact iff_of_true (Function.update_self _ _ _) ⟨i, Or.inr ⟨rfl, rfl⟩⟩
    · rw [Function.update_of_ne hyx, h.live]
      simp [hyx]
  · exact fun j y hy => withCell_label h hfresh hic m' hage hy
  · exact fun j => withCell_order h hfresh hic m' j

/-! ## Removals -/

/-- The links of a cell taken out of entry `i`. -/
theorem Buckets.delZero (h : Buckets t c) {i : UInt32} {x : Nat} (hx : x ∈ c i) :
    ∃ m', listDelZero t.links (.cell x) = .ok m'
      ∧ t.links.next (.cell x) ≠ none ∧ t.links.prev (.cell x) ≠ none
      ∧ Ring m' (.entry i) (((c i).erase x).map .cell) ∧ OnlyEntry t c i x m'
      ∧ m'.next (.cell x) = none ∧ m'.prev (.cell x) = none := by
  obtain ⟨as, bs, hsplit, hnot⟩ := List.eq_append_cons_of_mem hx
  have herase : (c i).erase x = as ++ bs := by
    rw [hsplit, List.erase_append_right _ hnot, List.erase_cons_head]
  have hring := h.ring i (h.code i x hx).2
  rw [hsplit, List.map_append, List.map_cons] at hring
  obtain ⟨m', hdel, hring', hne, hnull, hfr⟩ := hring.delZero_apart
  refine ⟨m', hdel, hne.1, hne.2, by rw [herase, List.map_append]; exact hring',
    fun q hqe hqc _ => hfr q hqe (fun hq => ?_), hnull⟩
  rw [← List.map_cons, ← List.map_append, ← hsplit] at hq
  obtain ⟨y, hy, rfl⟩ := List.mem_map.mp hq
  exact hqc y hy rfl

theorem Buckets.mem_update_erase (h : Buckets t c) {i : UInt32} {x : Nat} (hx : x ∈ c i)
    {j : UInt32} {y : Nat} :
    y ∈ Function.update c i ((c i).erase x) j ↔ y ≠ x ∧ y ∈ c j := by
  by_cases hji : j = i
  · subst hji
    rw [Function.update_self]
    exact (h.nodup j).mem_erase_iff
  · rw [Function.update_of_ne hji]
    exact ⟨fun hy => ⟨fun he => hji (h.mem_iff hx (he ▸ hy)), hy⟩, fun hy => hy.2⟩

/-- **Taking a cell out of its entry, in whichever of the two ways, leaves the others there.** -/
theorem Buckets.remove (h : Buckets t c) {i : UInt32} {x : Nat} (hx : x ∈ c i) :
    ∃ m', listDelZero t.links (.cell x) = .ok m'
      ∧ t.links.next (.cell x) ≠ none ∧ t.links.prev (.cell x) ≠ none
      ∧ Buckets { t with links := m', live := Function.update t.live x false }
          (Function.update c i ((c i).erase x)) := by
  obtain ⟨m', hdel, hnext, hprev, hring, hfr, hnull⟩ := h.delZero hx
  have hmem := @Buckets.mem_update_erase t c h i x hx
  refine ⟨m', hdel, hnext, hprev, ?_, ?_, ?_, ?_, ?_, ?_, ?_⟩
  · intro j hj
    by_cases hji : j = i
    · subst hji
      rw [Function.update_self]
      exact hring
    · rw [Function.update_of_ne hji]
      exact hfr.ring h hj hji (fun hxj => hji (h.mem_iff hx hxj))
  · exact fun j y hy => h.code j y (hmem.mp hy).2
  · exact fun j y hy => h.bound j y (hmem.mp hy).2
  · intro y hy
    by_cases hyx : y = x
    · rw [hyx]
      exact hnull
    · exact hfr.loose h hyx fun j hyj => hy j (hmem.mpr ⟨hyx, hyj⟩)
  · intro y
    simp only [hmem]
    by_cases hyx : y = x
    · simp [hyx]
    · rw [Function.update_of_ne hyx, h.live]
      simp [hyx]
  · exact fun j y hy => h.label j y (hmem.mp hy).2
  · intro j
    by_cases hji : j = i
    · subst hji
      rw [Function.update_self]
      exact (h.order j).sublist List.erase_sublist
    · rw [Function.update_of_ne hji]
      exact h.order j

end Buckets

/-! ## Every sequence of operations -/

/-- An operation on the table. -/
inductive HashOp where
  | add (x : Nat) (key : List UInt8)
  | lookup (hashCode label : UInt32)
  | lookupAndRemove (hashCode label : UInt32)
  | remove (x : Nat)
deriving Repr, DecidableEq

/-- The table after an operation that returned. -/
def HashOp.step (t : Table) (a : HashOp) : Option Table :=
  match a with
  | .add x key => (addKeyed t x key).toOption.map Prod.snd
  | .lookup hc lab => (cellLookup t hc lab).toOption.map fun _ => t
  | .lookupAndRemove hc lab => (cellLookupAndRemove t hc lab).toOption.map Prod.snd
  | .remove x => (removeCellFromHtable t x).toOption.map Prod.snd

/--
A cell that is added is not in the table, and no cell of its entry lives to see
`2 ^ 32` additions after its own; a lookup stays within the table.
-/
def HashOp.Admitted (t : Table) : HashOp → Prop
  | .add x key => x < t.size ∧ t.live x = false
      ∧ ∀ y, t.live y = true → t.hashCode y = Transport.hash key t.hashSize → t.age y + 1 < 2 ^ 32
  | .lookup hc _ => hc < t.hashSize
  | .lookupAndRemove hc _ => hc < t.hashSize
  | .remove _ => True

/-- `t'` is `t` without the cell `x`, whose links are null again. -/
structure Without (t : Table) (x : Nat) (t' : Table) : Prop where
  bucket : ∀ i, i < t.hashSize → t'.bucket i = (t.bucket i).erase x
  links : t'.links.next (.cell x) = none ∧ t'.links.prev (.cell x) = none
  rest : t' = { t with links := t'.links, live := Function.update t.live x false }

/-- Every live cell is where it belongs, and every operation does what it is for. -/
structure Consistent (t : Table) : Prop where
  hash_lt : ∀ key, Transport.hash key t.hashSize < t.hashSize
  /-- A live cell is in one bucket, once. -/
  one : ∀ x, t.live x = true → ∃! i, i < t.hashSize ∧ x ∈ t.bucket i
  once : ∀ i, i < t.hashSize → (t.bucket i).Nodup
  own : ∀ i, i < t.hashSize → ∀ x ∈ t.bucket i, t.live x = true ∧ t.hashCode x = i
  /-- The links tell whether a cell is live. -/
  linked : ∀ x, (t.live x = true ↔ t.links.next (.cell x) ≠ none ∧ t.links.prev (.cell x) ≠ none)
  found : ∀ x, t.live x = true → cellLookup t (t.hashCode x) (t.label x) = .ok (some x)
  lookup : ∀ hc lab, hc < t.hashSize → ∃ r, cellLookup t hc lab = .ok r
    ∧ ∀ x, r = some x ↔ t.live x = true ∧ t.hashCode x = hc ∧ t.label x = lab
  lookupAndRemove : ∀ hc lab, hc < t.hashSize → ∃ r t', cellLookupAndRemove t hc lab = .ok (r, t')
    ∧ cellLookup t hc lab = .ok r ∧ (r = none → t' = t) ∧ ∀ x, r = some x → Without t x t'
  refused : ∀ x, t.live x = false → removeCellFromHtable t x = .ok (-1, t)
  removed : ∀ x, t.live x = true → ∃ t', removeCellFromHtable t x = .ok (1, t') ∧ Without t x t'
  added : ∀ x key, HashOp.Admitted t (.add x key) → ∃ t', addKeyed t x key = .ok (1, t')
    ∧ (∀ i, i < t.hashSize → t'.bucket i
        = if i = Transport.hash key t.hashSize then t.bucket i ++ [x] else t.bucket i)
    ∧ ∀ y, y ≠ x → t'.hashCode y = t.hashCode y ∧ t'.label y = t.label y

section Runs

variable {t : Table} {c : UInt32 → List Nat}

theorem Buckets.not_live (h : Buckets t c) {x : Nat} (hx : t.live x = false) (i : UInt32) :
    x ∉ c i := by
  intro hi
  rw [(h.live x).mpr ⟨i, hi⟩] at hx
  exact absurd hx (by simp)

/-- The hash code of a cell that is not in the table is anything. -/
theorem Buckets.keyed (h : Buckets t c) {x : Nat} (hx : ∀ i, x ∉ c i) (hc : UInt32) :
    Buckets { t with hashCode := Function.update t.hashCode x hc } c := by
  refine ⟨h.ring, fun i y hy => ?_, h.bound, h.loose, h.live, h.label, h.order⟩
  have hyx : y ≠ x := fun he => hx i (he ▸ hy)
  simp only [Function.update_of_ne hyx]
  exact h.code i y hy

theorem Buckets.addKeyed (h : Buckets t c) {x : Nat} {key : List UInt8}
    (hpos : 0 < t.hashSize) (hok : HashOp.Admitted t (.add x key)) :
    ∃ t', addKeyed t x key = .ok (1, t') ∧ t'.hashSize = t.hashSize
      ∧ Buckets t' (Function.update c (Transport.hash key t.hashSize)
          (c (Transport.hash key t.hashSize) ++ [x]))
      ∧ ∀ y, y ≠ x → t'.hashCode y = t.hashCode y ∧ t'.label y = t.label y := by
  obtain ⟨hx, hlive, hage⟩ := hok
  have hfresh := h.not_live hlive
  have hages : ∀ y ∈ c (Transport.hash key t.hashSize), t.age y + 1 < 2 ^ 32 := by
    intro y hy
    exact hage y ((h.live y).mpr ⟨_, hy⟩) (h.code _ y hy).1
  obtain ⟨m', hrun, hb⟩ := (h.keyed hfresh (Transport.hash key t.hashSize)).add hfresh hx
    (Function.update_self _ _ _) (hash_lt key hpos) hages
  refine ⟨_, hrun, rfl, hb, fun y hy => ?_⟩
  exact ⟨Function.update_of_ne hy _ _, Function.update_of_ne hy _ _⟩

theorem Buckets.without (h : Buckets t c) {i : UInt32} {x : Nat} (hx : x ∈ c i) :
    ∃ m', listDelZero t.links (.cell x) = .ok m'
      ∧ Without t x { t with links := m', live := Function.update t.live x false } := by
  obtain ⟨m', hdel, -, -, -, -, hnull⟩ := h.delZero hx
  obtain ⟨m'', hdel', -, -, hb⟩ := h.remove hx
  obtain rfl : m' = m'' := Res.ok.inj (hdel.symm.trans hdel')
  refine ⟨m', hdel, fun j hj => ?_, hnull, rfl⟩
  rw [hb.bucket_eq hj, h.bucket_eq hj]
  by_cases hji : j = i
  · rw [hji, Function.update_self]
  · rw [Function.update_of_ne hji, List.erase_of_not_mem]
    exact fun hxj => hji (h.mem_iff hx hxj)

theorem Buckets.linked (h : Buckets t c) (x : Nat) :
    t.live x = true ↔ t.links.next (.cell x) ≠ none ∧ t.links.prev (.cell x) ≠ none := by
  constructor
  · intro hx
    obtain ⟨i, hi⟩ := (h.live x).mp hx
    obtain ⟨-, -, hnext, hprev, -⟩ := h.remove hi
    exact ⟨hnext, hprev⟩
  · intro hx
    by_contra hno
    exact hx.1 (h.loose x (h.not_live (Bool.eq_false_iff.mpr hno))).1

theorem Buckets.refused (h : Buckets t c) {x : Nat} (hx : t.live x = false) :
    removeCellFromHtable t x = .ok (-1, t) :=
  if_pos (Or.inl (h.loose x (h.not_live hx)).1)

theorem Buckets.removeCell (h : Buckets t c) {x : Nat} {m' : Links HNode}
    (hx : t.live x = true) (hdel : listDelZero t.links (.cell x) = .ok m') :
    removeCellFromHtable t x
      = .ok (1, { t with links := m', live := Function.update t.live x false }) := by
  obtain ⟨hnext, hprev⟩ := (h.linked x).mp hx
  rw [removeCellFromHtable, if_neg (not_or.mpr ⟨hnext, hprev⟩), hdel, Res.ok_bind]

theorem cellLookupAndRemove_none {hc lab : UInt32} (hr : cellLookup t hc lab = .ok none) :
    cellLookupAndRemove t hc lab = .ok (none, t) := by
  simp only [cellLookupAndRemove, hr, Res.ok_bind]

theorem cellLookupAndRemove_some {hc lab : UInt32} {x : Nat} {m' : Links HNode}
    (hr : cellLookup t hc lab = .ok (some x)) (hdel : listDelZero t.links (.cell x) = .ok m') :
    cellLookupAndRemove t hc lab
      = .ok (some x, { t with links := m', live := Function.update t.live x false }) := by
  simp only [cellLookupAndRemove, hr, Res.ok_bind, hdel]

theorem Buckets.consistent (h : Buckets t c) (hpos : 0 < t.hashSize) : Consistent t := by
  have hin : ∀ {x}, t.live x = true → t.hashCode x < t.hashSize ∧ x ∈ c (t.hashCode x) := by
    intro x hx
    obtain ⟨i, hi⟩ := (h.live x).mp hx
    obtain ⟨rfl, hlt⟩ := h.code i x hi
    exact ⟨hlt, hi⟩
  refine ⟨fun key => hash_lt key hpos, ?_, ?_, ?_, h.linked, ?_,
    fun hc lab hi => h.lookup_spec hi lab, ?_, fun x hx => h.refused hx, ?_, ?_⟩
  · intro x hx
    refine ⟨t.hashCode x, ⟨(hin hx).1, ?_⟩, fun j hj => ?_⟩
    · rw [h.bucket_eq (hin hx).1]
      exact (hin hx).2
    · have hxj : x ∈ t.bucket j := hj.2
      rw [h.bucket_eq hj.1] at hxj
      exact h.mem_iff (hin hx).2 hxj
  · intro i hi
    rw [h.bucket_eq hi]
    exact h.nodup i
  · intro i hi x hx
    rw [h.bucket_eq hi] at hx
    exact ⟨(h.live x).mpr ⟨i, hx⟩, (h.code i x hx).1⟩
  · intro x hx
    obtain ⟨r, hr, hspec⟩ := h.lookup_spec (hin hx).1 (t.label x)
    rw [hr, (hspec x).mpr ⟨hx, rfl, rfl⟩]
  · intro hc lab hi
    obtain ⟨r, hr, hspec⟩ := h.lookup_spec hi lab
    cases r with
    | none => exact ⟨none, t, cellLookupAndRemove_none hr, hr, fun _ => rfl, by simp⟩
    | some x =>
        obtain ⟨m', hdel, hw⟩ := h.without (hin ((hspec x).mp rfl).1).2
        refine ⟨some x, { t with links := m', live := Function.update t.live x false }, ?_, hr,
          by simp, fun y hy => ?_⟩
        · exact cellLookupAndRemove_some hr hdel
        · obtain rfl := Option.some.inj hy
          exact hw
  · intro x hx
    obtain ⟨m', hdel, hw⟩ := h.without (hin hx).2
    exact ⟨_, h.removeCell hx hdel, hw⟩
  · intro x key hok
    obtain ⟨t', hrun, hsize, hb, hrest⟩ := h.addKeyed hpos hok
    refine ⟨t', hrun, fun i hi => ?_, hrest⟩
    rw [hb.bucket_eq (hsize ▸ hi), h.bucket_eq hi]
    by_cases hik : i = Transport.hash key t.hashSize
    · rw [if_pos hik, hik, Function.update_self]
    · rw [if_neg hik, Function.update_of_ne hik]

/-- One operation. -/
theorem Buckets.step (h : Buckets t c) (hpos : 0 < t.hashSize) {a : HashOp} {t' : Table}
    (hok : HashOp.Admitted t a) (hs : HashOp.step t a = some t') :
    0 < t'.hashSize ∧ ∃ c', Buckets t' c' := by
  have hremoved : ∀ {x i}, x ∈ c i → ∀ {m'}, listDelZero t.links (.cell x) = .ok m' →
      ∃ c', Buckets { t with links := m', live := Function.update t.live x false } c' := by
    intro x i hx m' hm'
    obtain ⟨m'', hdel, -, -, hb⟩ := h.remove hx
    obtain rfl : m'' = m' := Res.ok.inj (hdel.symm.trans hm')
    exact ⟨_, hb⟩
  cases a with
  | add x key =>
      obtain ⟨t₁, hrun, hsize, hb, -⟩ := h.addKeyed hpos hok
      simp only [HashOp.step, hrun, Res.toOption, Option.map_some, Option.some.injEq] at hs
      subst hs
      exact ⟨hsize ▸ hpos, _, hb⟩
  | lookup hc lab =>
      obtain ⟨r, hr, -⟩ := h.lookup_spec hok lab
      simp only [HashOp.step, hr, Res.toOption, Option.map_some, Option.some.injEq] at hs
      subst hs
      exact ⟨hpos, c, h⟩
  | lookupAndRemove hc lab =>
      have hr := h.lookup_eq hok lab
      cases hf : (c hc).find? fun x => t.label x = lab with
      | none =>
          rw [hf] at hr
          simp only [HashOp.step, cellLookupAndRemove_none hr, Res.toOption, Option.map_some,
            Option.some.injEq] at hs
          subst hs
          exact ⟨hpos, c, h⟩
      | some x =>
          rw [hf] at hr
          have hx : x ∈ c hc := List.mem_of_find?_eq_some hf
          obtain ⟨m', hdel, -⟩ := h.remove hx
          simp only [HashOp.step, cellLookupAndRemove_some hr hdel, Res.toOption, Option.map_some,
            Option.some.injEq] at hs
          subst hs
          exact ⟨hpos, hremoved hx hdel⟩
  | remove x =>
      by_cases hx : t.live x = true
      · obtain ⟨i, hi⟩ := (h.live x).mp hx
        obtain ⟨m', hdel, -⟩ := h.remove hi
        simp only [HashOp.step, h.removeCell hx hdel, Res.toOption, Option.map_some,
          Option.some.injEq] at hs
        subst hs
        exact ⟨hpos, hremoved hi hdel⟩
      · simp only [HashOp.step, h.refused (Bool.eq_false_iff.mpr hx), Res.toOption,
          Option.map_some, Option.some.injEq] at hs
        subst hs
        exact ⟨hpos, c, h⟩

end Runs

/-- The entries that the loop of `build_htable` has passed are linked to themselves. -/
theorem initEntries_links (n : Nat) :
    (∀ i : UInt32, i.toNat < n → (initEntries n).Link (.entry i) (.entry i))
      ∧ ∀ x, (initEntries n).next (.cell x) = none ∧ (initEntries n).prev (.cell x) = none := by
  induction n with
  | zero => exact ⟨fun i hi => absurd hi (Nat.not_lt_zero _), fun x => ⟨rfl, rfl⟩⟩
  | succ n ih =>
      have hsucc : initEntries (n + 1)
          = initListHead (initEntries n) (.entry (UInt32.ofNat n)) := by
        rw [initEntries, List.range_succ, List.foldl_append]
        rfl
      rw [hsucc]
      refine ⟨fun i hi => ?_, ih.2⟩
      by_cases hin : i = UInt32.ofNat n
      · subst hin
        exact ⟨if_pos rfl, if_pos rfl⟩
      · have hlt : i.toNat < n := by
          refine Nat.lt_of_le_of_ne (Nat.le_of_lt_succ hi) fun he => hin ?_
          rw [← he, UInt32.ofNat_toNat]
        have hne : HNode.entry i ≠ .entry (UInt32.ofNat n) := fun he => hin (HNode.entry.inj he)
        exact ⟨(if_neg hne).trans (ih.1 i hlt).1, (if_neg hne).trans (ih.1 i hlt).2⟩

theorem buckets_build (hashSize : UInt32) (seed : UInt32 → UInt32) (n : Nat) :
    Buckets (buildTable hashSize seed n) fun _ => [] := by
  obtain ⟨hself, hcells⟩ := initEntries_links hashSize.toNat
  refine ⟨fun i hi => ⟨?_, by simp, by simp⟩, by simp, by simp, fun x _ => hcells x, ?_, by simp,
    fun i => .nil⟩
  · rw [List.map_nil, List.nil_append, List.isChain_pair]
    exact hself i hi
  · simp [buildTable]

/--
**After every sequence of operations the table is consistent**, wherever its labels
started and however often they have wrapped around.
-/
theorem hashTable_consistent {hashSize : UInt32} (hpos : 0 < hashSize) {seed : UInt32 → UInt32}
    {n : Nat} {t : Table}
    (h : Reach (· = buildTable hashSize seed n) HashOp.step HashOp.Admitted t) : Consistent t := by
  have hinv : 0 < t.hashSize ∧ ∃ c, Buckets t c := by
    refine Reach.invariant (I := fun t => 0 < t.hashSize ∧ ∃ c, Buckets t c) ?_ ?_ h
    · intro t ht
      subst ht
      exact ⟨hpos, _, buckets_build hashSize seed n⟩
    · intro t a t' hi hok hs
      obtain ⟨hpos, c, hb⟩ := hi
      exact hb.step hpos hok hs
  obtain ⟨hpos, c, hb⟩ := hinv
  exact hb.consistent hpos

/-- The labels of the two cells are on either side of the wrap-around. -/
theorem hashTable_consistent_wrapped :
    ∃ t : Table, t.bucket 0 = [1, 0] ∧ t.label 1 = 0xffffffff ∧ t.label 0 = 0 ∧ Consistent t :=
  ⟨_, rfl, rfl, rfl, @hashTable_consistent 1 (by decide) (fun _ => 0xffffffff) 2 _
    (.step (a := .add 0 [97])
      (.step (a := .add 1 [98]) (.init rfl) ⟨by decide, rfl, by simp [buildTable]⟩ rfl)
      ⟨by decide, rfl, fun y _ _ => by
        show (if y = 1 then 0 else if _ then 0 + 1 else 0) + 1 < 2 ^ 32
        split
        · decide
        · split <;> decide⟩ rfl)⟩

end Disc.Rings
