import Disc.Lib.Memory
import Mathlib.Data.List.Nodup

/-!
# The hash table of transactions

`hash_table.c`. A table has a fixed number of entries; each entry is a list of
cells and a counter from which every cell that is added takes its label. A cell
is found again by its hash code and its label, and nothing else is compared.

The lists of all entries are kept in one list, in the order of insertion: the
cells of an entry are those with its hash code.
-/

namespace Disc.Transport

open Disc.Lib

/-! ## The hash -/

/-- A byte read as a signed `char` and converted to `unsigned`. -/
def signExtend (b : UInt8) : UInt32 :=
  if b < 128 then b.toUInt32 else b.toUInt32 ||| 0xffffff00

/-- One `h_inc` of the hash. -/
def hashInc (h v : UInt32) : UInt32 := h + (v ^^^ (v >>> 3))

/-- The rounds over whole words, then the round over the bytes that are left. -/
def hashRounds : List UInt8 → UInt32 → UInt32
  | a :: b :: c :: d :: rest, h =>
      hashRounds rest (hashInc h ((signExtend a <<< 24) + (signExtend b <<< 16)
        + (signExtend c <<< 8) + signExtend d))
  | rest, h => hashInc h (rest.foldl (fun v b => (v <<< 8) + signExtend b) 0)

/-- `hash`. -/
def hash (s : List UInt8) (hashSize : UInt32) : UInt32 :=
  let h := hashRounds s 0
  let h := (h + (h >>> 11)) + ((h >>> 13) + (h >>> 23))
  h &&& (hashSize - 1)

/-! ## The table -/

/-- `h_link` and what it is embedded in. -/
structure HLink (α : Type) where
  hashCode : UInt32
  label : UInt32
  payload : α
deriving Repr, DecidableEq

/-- `h_table`. -/
structure HTable (α : Type) where
  hashSize : UInt32
  /-- `entrys[i].next_label`. -/
  nextLabel : UInt32 → UInt32
  /-- How many labels the entry has given out; nothing in the source counts them. -/
  issued : UInt32 → Nat
  /-- The cells of all entries, oldest first. -/
  cells : List (HLink α)

variable {α : Type}

/-- `build_htable`: the labels start anywhere. -/
def buildHtable (hashSize : UInt32) (nextLabel : UInt32 → UInt32) : HTable α :=
  { hashSize, nextLabel, issued := fun _ => 0, cells := [] }

/-- `add_cell_to_htable`: the label the cell got, and the table. -/
def HTable.addCell (t : HTable α) (hashCode : UInt32) (x : α) : UInt32 × HTable α :=
  let label := t.nextLabel hashCode
  (label,
   { t with
     nextLabel := fun c => if c = hashCode then label + 1 else t.nextLabel c
     issued := fun c => if c = hashCode then t.issued c + 1 else t.issued c
     cells := t.cells ++ [{ hashCode, label, payload := x }] })

/-- Is this the cell a lookup is after? -/
def HLink.is (l : HLink α) (hashCode label : UInt32) : Bool :=
  l.hashCode == hashCode && l.label == label

/-- `cell_lookup`. -/
def HTable.cellLookup (t : HTable α) (hashCode label : UInt32) : Option (HLink α) :=
  t.cells.find? (·.is hashCode label)

/-- `cell_lookup_and_remove`: the first cell of the entry with that label. -/
def HTable.cellLookupAndRemove (t : HTable α) (hashCode label : UInt32) :
    Option (HLink α × HTable α) :=
  match t.cellLookup hashCode label with
  | none => none
  | some l => some (l, { t with cells := t.cells.eraseP (·.is hashCode label) })

/-- `remove_cell_from_htable`, for the cells that satisfy `f`; nothing when there is none. -/
def HTable.removeCell (t : HTable α) (f : α → Bool) : Option (HTable α) :=
  if t.cells.any (f ·.payload) then
    some { t with cells := t.cells.eraseP (f ·.payload) }
  else none

theorem HLink.is_iff {l : HLink α} {c lab : UInt32} :
    l.is c lab = true ↔ l.hashCode = c ∧ l.label = lab := by
  simp [HLink.is]

/-- A lookup that succeeds returns a cell with these two numbers and takes it out. -/
theorem HTable.cellLookupAndRemove_some {t t' : HTable α} {c lab : UInt32} {l : HLink α}
    (h : t.cellLookupAndRemove c lab = some (l, t')) :
    l ∈ t.cells ∧ l.hashCode = c ∧ l.label = lab
      ∧ t' = { t with cells := t.cells.eraseP (·.is c lab) } := by
  unfold HTable.cellLookupAndRemove at h
  cases hf : t.cellLookup c lab with
  | none => rw [hf] at h; exact absurd h (by simp)
  | some l' =>
      rw [hf] at h
      simp only [Option.some.injEq, Prod.mk.injEq] at h
      obtain ⟨rfl, rfl⟩ := h
      have hfind : t.cells.find? (·.is c lab) = some l' := hf
      have hp : l'.is c lab = true := by simpa using List.find?_some hfind
      obtain ⟨h1, h2⟩ := HLink.is_iff.mp hp
      exact ⟨List.mem_of_find?_eq_some hf, h1, h2, rfl⟩

/-! ## Labels -/

/-- What a lookup compares. -/
def HLink.key (l : HLink α) : UInt32 × UInt32 := (l.hashCode, l.label)

/--
The labels of an entry are told apart by how long ago they were given out: between
one and `issued` steps of the counter, as long as the counter has not come round.
-/
structure HTable.Labelled (t : HTable α) : Prop where
  age : ∀ l ∈ t.cells, 0 < (t.nextLabel l.hashCode - l.label).toNat
    ∧ (t.nextLabel l.hashCode - l.label).toNat ≤ t.issued l.hashCode
  distinct : (t.cells.map HLink.key).Nodup

theorem buildHtable_labelled (hashSize : UInt32) (nextLabel : UInt32 → UInt32) :
    (buildHtable hashSize nextLabel : HTable α).Labelled :=
  ⟨fun _ hl => absurd hl (by simp [buildHtable]), List.nodup_nil⟩

theorem HTable.Labelled.drop {t : HTable α} (h : t.Labelled) {cells : List (HLink α)}
    (hsub : cells.Sublist t.cells) : ({ t with cells } : HTable α).Labelled :=
  ⟨fun l hl => h.age l (hsub.subset hl), h.distinct.sublist (hsub.map _)⟩

/-- One step further, a label is one step older. -/
theorem label_age_succ {n l : UInt32} {k : Nat} (h : (n - l).toNat ≤ k) (hk : k + 1 < 2 ^ 32) :
    (n + 1 - l).toNat = (n - l).toNat + 1 := by
  have hn := n.toNat_lt
  have hl := l.toNat_lt
  rw [UInt32.toNat_sub] at h ⊢
  rw [UInt32.toNat_sub, UInt32.toNat_add]
  simp only [UInt32.reduceToNat]
  omega

theorem HTable.Labelled.addCell {t : HTable α} (h : t.Labelled) {c : UInt32} (x : α)
    (hc : t.issued c + 1 < 2 ^ 32) : (t.addCell c x).2.Labelled := by
  refine ⟨?_, ?_⟩
  · intro l hl
    rcases List.mem_append.mp hl with hl | hl
    · have ha := h.age l hl
      simp only [HTable.addCell]
      by_cases hlc : l.hashCode = c
      · rw [if_pos hlc, if_pos hlc, ← hlc]
        rw [hlc] at ha
        rw [hlc, label_age_succ ha.2 hc]
        omega
      · rw [if_neg hlc, if_neg hlc]
        exact ha
    · obtain rfl := List.mem_singleton.mp hl
      simp only [HTable.addCell, if_true]
      have h1 : (t.nextLabel c + 1 - t.nextLabel c).toNat = 1 := by
        rw [label_age_succ (k := 0) (by simp) (by decide)]
        simp
      omega
  · simp only [HTable.addCell, List.map_append, List.map_singleton]
    rw [List.nodup_append]
    refine ⟨h.distinct, List.nodup_singleton _, ?_⟩
    -- a cell with the new label would have been given out just now
    intro a ha b hb hab
    obtain ⟨l, hl, rfl⟩ := List.mem_map.mp ha
    obtain rfl := List.mem_singleton.mp hb
    obtain ⟨h1, h2⟩ := Prod.mk.inj hab
    have hlt := (h.age l hl).1
    have h1 : l.hashCode = c := h1
    have h2 : l.label = t.nextLabel c := h2
    rw [h1, h2] at hlt
    simp at hlt

/-- A cell is found by its hash code and its label. -/
theorem HTable.Labelled.cellLookup_eq {t : HTable α} (h : t.Labelled) {l : HLink α}
    (hl : l ∈ t.cells) : t.cellLookup l.hashCode l.label = some l := by
  unfold HTable.cellLookup
  cases hf : t.cells.find? (·.is l.hashCode l.label) with
  | none =>
      have hno := List.find?_eq_none.mp hf l hl
      exact absurd (HLink.is_iff.mpr ⟨rfl, rfl⟩) hno
  | some l' =>
      have hp : l'.is l.hashCode l.label = true := by simpa using List.find?_some hf
      obtain ⟨h1, h2⟩ := HLink.is_iff.mp hp
      have hkey : l'.key = l.key := by simp only [HLink.key, h1, h2]
      rw [List.inj_on_of_nodup_map h.distinct (List.mem_of_find?_eq_some hf) hl hkey]

/-- What was looked up is gone. -/
theorem HTable.Labelled.not_mem_eraseP {t : HTable α} (h : t.Labelled) {c : UInt32} {lab : UInt32}
    {l : HLink α} (hl : l ∈ t.cells.eraseP (·.is c lab)) : ¬ (l.hashCode = c ∧ l.label = lab) := by
  intro hk
  have his : l.is c lab = true := HLink.is_iff.mpr hk
  obtain ⟨a, l₁, l₂, hl₁, ha, hcells, herase⟩ :=
    List.exists_of_eraseP (p := (·.is c lab)) (List.mem_of_mem_eraseP hl) his
  obtain ⟨h1, h2⟩ := HLink.is_iff.mp ha
  have hkey : l.key = a.key := by simp only [HLink.key, hk.1, hk.2, h1, h2]
  have hnd := h.distinct
  rw [hcells, List.map_append, List.map_cons, List.nodup_append] at hnd
  rw [herase] at hl
  rcases List.mem_append.mp hl with hl | hl
  · exact hl₁ l hl his
  · refine (List.nodup_cons.mp hnd.2.1).1 ?_
    rw [← hkey]
    exact List.mem_map_of_mem hl

end Disc.Transport
