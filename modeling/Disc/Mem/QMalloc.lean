import Disc.Lib.Memory

/-!
# The allocator of the shared memory

`q_malloc.c`. The pool is cut into fragments, each with a header in front of its bytes and a
tail behind them; both hold the size, so that a fragment finds the one behind it and the one
in front. Free fragments are in lists by size, of which the ends are a header and a tail in
the block of the allocator, and a fragment is free as long as its link is not null.

`DBG_QM_MALLOC` makes headers and tails larger and marks them with patterns, which are looked
at when a fragment is taken or given back; the file, function and line it keeps there are left
out. `QM_JOIN_FREE` joins a fragment that is given back with its free neighbours. Pointers and
longs have four bytes, and the memory is read and written a word at a time.
-/

namespace Disc.Mem

open Disc.Lib

/-- The defines the allocator is compiled with. -/
structure Build where
  /-- `DBG_QM_MALLOC`. -/
  dbg : Bool
  /-- `QM_JOIN_FREE`. -/
  join : Bool

namespace Build

variable (c : Build)

/-- `sizeof(struct qm_frag)`. -/
def frag : Nat := if c.dbg then 24 else 8

/-- `sizeof(struct qm_frag_end)`. -/
def fragEnd : Nat := if c.dbg then 24 else 8

/-- Where `size` is in a `struct qm_frag_end`. -/
def endSize : Nat := if c.dbg then 16 else 0

/-- Where `prev_free` is in a `struct qm_frag_end`. -/
def endPrev : Nat := if c.dbg then 20 else 4

/-- `ROUNDTO`, which is `MIN_FRAG_SIZE` too. -/
def roundTo : Nat := if c.dbg then 4 else 16

/-- `FRAG_OVERHEAD`. -/
def overhead : Nat := c.frag + c.fragEnd

/-- `QM_HASH_SIZE`. -/
def hashSize : Nat := 2048 / c.roundTo + (32 - 11) + 1

/-- `sizeof(struct qm_block)`: six words and the ends of the free lists. -/
def block : Nat := 24 + c.hashSize * c.overhead

/-- `ROUNDUP`. -/
def roundUp (s : Nat) : Nat := (s + (c.roundTo - 1)) % 2 ^ 32 / c.roundTo * c.roundTo

/-- `ROUNDDOWN`. -/
def roundDown (s : Nat) : Nat := s / c.roundTo * c.roundTo

end Build

/-- `ST_CHECK_PATTERN`. -/
def stCheckPattern : Nat := 0xf0f0f0f0

/-- `END_CHECK_PATTERN1`. -/
def endCheckPattern1 : Nat := 0xc0c0c0c0

/-- `END_CHECK_PATTERN2`. -/
def endCheckPattern2 : Nat := 0xabcdefed

/-- The word at each address. -/
abbrev Words := Nat → Nat

/-- `*a = v`. -/
def Words.set (m : Words) (a v : Nat) : Words := fun b => if b = a then v else m b

/-- `memset(a, 0, n)`. -/
def Words.clear (m : Words) (a n : Nat) : Words := fun b => if a ≤ b ∧ b < a + n then 0 else m b

/-- `struct qm_block`, with the memory it lies in. -/
structure QmBlock where
  size : Nat
  used : Nat
  realUsed : Nat
  maxRealUsed : Nat
  firstFrag : Nat
  lastFragEnd : Nat
  /-- The address of `free_hash`. -/
  freeHash : Nat
  mem : Words

variable (c : Build)

/-! ## Fragments -/

/-- `FRAG_END(f)`. -/
def fragEndOf (m : Words) (f : Nat) : Nat := f + c.frag + m f

/-- `FRAG_NEXT(f)`. -/
def fragNext (m : Words) (f : Nat) : Nat := f + c.frag + m f + c.fragEnd

/-- `FRAG_PREV(f)`. -/
def fragPrev (m : Words) (f : Nat) : Nat := f - c.fragEnd - m (f - c.fragEnd + c.endSize) - c.frag

/-- `f->u.nxt_free`, which is `f->u.is_free` too. -/
def nxtFree (m : Words) (f : Nat) : Nat := m (f + 4)

/-- `FRAG_END(f)->prev_free`. -/
def prevFree (m : Words) (f : Nat) : Nat := m (fragEndOf c m f + c.endPrev)

/-- `f->u.nxt_free = v`. -/
def setNxtFree (m : Words) (f v : Nat) : Words := m.set (f + 4) v

/-- `FRAG_END(f)->prev_free = v`. -/
def setPrevFree (m : Words) (f v : Nat) : Words := m.set (fragEndOf c m f + c.endPrev) v

/-- `e->check1` and `e->check2`, as they should be. -/
def endChecked (m : Words) (e : Nat) : Bool :=
  m e = endCheckPattern1 ∧ m (e + 4) = endCheckPattern2

/-- `qm_debug_frag`, which there is with `DBG_QM_MALLOC` only; an error is an `abort`. -/
def qmDebugFrag (q : QmBlock) (f : Nat) : Res Unit :=
  if ¬ c.dbg then .ok ()
  else if q.mem (f + 20) ≠ stCheckPattern then .error
  else if ¬ endChecked q.mem (fragEndOf c q.mem f) then .error
  else if q.firstFrag < f ∧ ¬ endChecked q.mem (f - c.fragEnd) then .error
  else .ok ()

/-! ## The free lists -/

/-- The loop of `big_hash_idx`: `s` is shifted until its first bit is set. -/
def bigHashLoop (s : Nat) : Nat → Res Nat
  | 0 => if s < 2 ^ 31 then .diverge else .ok 0
  | idx + 1 => if s < 2 ^ 31 then bigHashLoop (s * 2 % 2 ^ 32) idx else .ok (idx + 1)

/-- `big_hash_idx`. -/
def bigHashIdx (s : Nat) : Res Nat := bigHashLoop s 31

/-- `GET_HASH`. -/
def getHash (s : Nat) : Res Nat :=
  if s < 2048 then .ok (s / c.roundTo)
  else do
    let idx ← bigHashIdx s
    return 2048 / c.roundTo + idx - 11 + 1

/-- `&(qm->free_hash[h].head)`. -/
def QmBlock.head (q : QmBlock) (h : Nat) : Nat := q.freeHash + h * c.overhead

/-- The loop of `qm_insert_free`: the first fragment of the list that is as large. -/
def findPlace (m : Words) (head size : Nat) : Nat → Nat → Res Nat
  | 0, _ => .diverge
  | fuel + 1, f =>
      if f = head ∨ size ≤ m f then .ok f else findPlace m head size fuel (nxtFree m f)

/-- The four writes of `qm_insert_free`, between `prev` and `f`. -/
def linkFree (m : Words) (frag prev f : Nat) : Words :=
  let m := setNxtFree m prev frag
  let m := setPrevFree c m frag prev
  let m := setNxtFree m frag f
  setPrevFree c m f frag

/-- `qm_insert_free`. No list has more fragments than there are addresses. -/
def qmInsertFree (q : QmBlock) (frag : Nat) : Res QmBlock := do
  let hash ← getHash c (q.mem frag)
  let head := q.head c hash
  let f ← findPlace q.mem head (q.mem frag) q.lastFragEnd (nxtFree q.mem head)
  return { q with mem := linkFree c q.mem frag (prevFree c q.mem f) f }

/-- `qm_detach_free`. -/
def qmDetachFree (q : QmBlock) (frag : Nat) : QmBlock :=
  let prev := prevFree c q.mem frag
  let next := nxtFree q.mem frag
  { q with mem := setPrevFree c (setNxtFree q.mem prev next) next prev }

/-- The inner loop of `qm_find_free`. -/
def findInList (m : Words) (head size : Nat) : Nat → Nat → Res (Option Nat)
  | 0, _ => .diverge
  | fuel + 1, f =>
      if f = head then .ok none
      else if size ≤ m f then .ok (some f)
      else findInList m head size fuel (nxtFree m f)

/-- The outer loop of `qm_find_free`, with the number of lists that are left. -/
def findFreeFrom (q : QmBlock) (size : Nat) : Nat → Nat → Res (Option Nat)
  | 0, _ => .ok none
  | k + 1, hash => do
      match ← findInList q.mem (q.head c hash) size q.lastFragEnd
          (nxtFree q.mem (q.head c hash)) with
      | some f => return some f
      | none => findFreeFrom q size k (hash + 1)

/-- `qm_find_free`. -/
def qmFindFree (q : QmBlock) (size : Nat) : Res (Option Nat) := do
  let hash ← getHash c size
  findFreeFrom c q size (c.hashSize - hash) hash

/-! ## The allocator -/

/-- An end of a list, as `qm_malloc_init` makes it. -/
def initHead (q : QmBlock) (m : Words) (h : Nat) : Words :=
  let head := q.head c h
  let m := m.set (head + 4) head
  let m := m.set (head + c.frag + c.endPrev) head
  let m := m.set head 0
  m.set (head + c.frag + c.endSize) 0

/-- The header and the tail of the first fragment, and the ends of the lists. -/
def initFrags (q : QmBlock) : Words :=
  let m := q.mem.set q.firstFrag q.size
  let m := m.set (q.lastFragEnd + c.endSize) q.size
  let m := if c.dbg then
      ((m.set (q.firstFrag + 20) stCheckPattern).set q.lastFragEnd endCheckPattern1).set
        (q.lastFragEnd + 4) endCheckPattern2
    else m
  (List.range c.hashSize).foldl (initHead c q) m

/-- What `qm_malloc_init` takes for itself. -/
def initOverhead : Nat := c.roundUp c.block + c.frag + c.fragEnd

/-- The block of the allocator at `start`, with the first fragment behind it. -/
def initBlock (mem : Words) (start size : Nat) : QmBlock :=
  let q : QmBlock :=
    { size := size - initOverhead c
      used := 0
      realUsed := initOverhead c
      maxRealUsed := initOverhead c
      firstFrag := start + c.roundUp c.block
      lastFragEnd := start + size - c.fragEnd
      freeHash := start + 24
      mem := mem.clear start c.block }
  { q with mem := initFrags c q }

/-- `qm_malloc_init`; no block for a null pointer. -/
def qmMallocInit (mem : Words) (address size : Nat) : Res (Option QmBlock) :=
  let start := c.roundUp address
  if size < usub start address then .ok none
  else
    let size := size - usub start address
    if size < c.roundTo + c.overhead then .ok none
    else
      let size := c.roundDown size
      if size < initOverhead c then .ok none
      else do
        let q := initBlock c mem start size
        let q ← qmInsertFree c q q.firstFrag
        return some q

/-- The headers and tails of a fragment that is split. -/
def splitMem (m : Words) (f size rest : Nat) : Words :=
  let m := m.set f size
  let e := fragEndOf c m f
  let m := m.set (e + c.endSize) size
  let n := e + c.fragEnd
  let m := m.set n (rest - c.overhead)
  let m := m.set (fragEndOf c m n + c.endSize) (m n)
  if c.dbg then
    ((m.set e endCheckPattern1).set (e + 4) endCheckPattern2).set (n + 20) stCheckPattern
  else m

/-- The part of `qm_malloc` that splits a fragment: what is left becomes one of its own. -/
def splitFrag (q : QmBlock) (f size rest : Nat) : Res QmBlock :=
  let m := splitMem c q.mem f size rest
  qmInsertFree c { q with mem := m, realUsed := q.realUsed + c.overhead } (fragNext c m f)

/-- The end of `qm_malloc`: a fragment that is busy is split if enough is left. -/
def useFrag (q : QmBlock) (f size : Nat) : Res (Nat × QmBlock) := do
  let rest := q.mem f - size
  let q ← if c.overhead + c.roundTo < rest then splitFrag c q f size rest else .ok q
  let realUsed := q.realUsed + q.mem f
  return (f + c.frag,
    { q with
      realUsed
      used := q.used + q.mem f
      maxRealUsed := if q.maxRealUsed < realUsed then realUsed else q.maxRealUsed
      mem := if c.dbg then q.mem.set (f + 20) stCheckPattern else q.mem })

/-- `qm_malloc` behind the search: the fragment is taken out of its list. -/
def takeFrag (q : QmBlock) (f size : Nat) : Res (Nat × QmBlock) := do
  qmDebugFrag c q f
  let q := qmDetachFree c q f
  useFrag c { q with mem := setNxtFree q.mem f 0 } f size

/-- `qm_malloc`; a null pointer comes with the block as it was. -/
def qmMalloc (q : QmBlock) (size : Nat) : Res (Nat × QmBlock) := do
  let size := c.roundUp size
  if usub q.size q.realUsed < size then return (0, q)
  else
    match ← qmFindFree c q size with
    | some f => takeFrag c q f size
    | none => return (0, q)

/-- The part of `qm_free` that joins with the next fragment: the size so far. -/
def joinNext (q : QmBlock) (f : Nat) : Nat × QmBlock :=
  let next := fragNext c q.mem f
  if next < q.lastFragEnd ∧ nxtFree q.mem next ≠ 0 then
    let q := qmDetachFree c q next
    (q.mem next + c.overhead, { q with realUsed := usub q.realUsed c.overhead })
  else (0, q)

/-- The part of `qm_free` that joins with the previous fragment. -/
def joinPrev (q : QmBlock) (f size : Nat) : Res (Nat × Nat × QmBlock) := do
  if q.firstFrag < f then
    qmDebugFrag c q f
    let prev := fragPrev c q.mem f
    if nxtFree q.mem prev ≠ 0 then
      let q := qmDetachFree c q prev
      return (prev, size + (q.mem prev + c.overhead),
        { q with realUsed := usub q.realUsed c.overhead })
    else return (f, size, q)
  else return (f, size, q)

/-- The part of `qm_free` under `QM_JOIN_FREE`. -/
def joinFree (q : QmBlock) (f size : Nat) : Res (Nat × QmBlock) := do
  let (more, q) := joinNext c q f
  let (f, size, q) ← joinPrev c q f (size + more)
  let m := q.mem.set f size
  return (f, { q with mem := m.set (fragEndOf c m f + c.endSize) (m f) })

/-- What goes into a list, with the free neighbours or without. -/
def joinIf (q : QmBlock) (f size : Nat) : Res (Nat × QmBlock) :=
  if c.join then joinFree c q f size else .ok (f, q)

/-- `qm_free`; an error is an `abort`. -/
def qmFree (q : QmBlock) (p : Nat) : Res QmBlock :=
  if c.dbg ∧ (q.lastFragEnd < p ∨ p < q.firstFrag) then .error
  else if p = 0 then .ok q
  else do
    let f := p - c.frag
    qmDebugFrag c q f
    if c.dbg ∧ nxtFree q.mem f ≠ 0 then .error
    else
      let size := q.mem f
      let q := { q with used := usub q.used size, realUsed := usub q.realUsed size }
      qmDebugFrag c q f
      let (f, q) ← joinIf c q f size
      qmInsertFree c q f

/-- The first loop of `qm_status`: the fragments from `f` on. -/
def fragsFrom (q : QmBlock) : Nat → Nat → Res (List Nat)
  | 0, _ => .diverge
  | fuel + 1, f => do
      if f < q.lastFragEnd then
        let fs ← fragsFrom q fuel (fragNext c q.mem f)
        return f :: fs
      else return []

/-- The fragments `qm_status` goes through. -/
def qmStatus (q : QmBlock) : Res (List Nat) := fragsFrom c q (q.lastFragEnd + 1) q.firstFrag

/-- `_shm_resize`, which frees first and keeps nothing. -/
def shmResize (q : QmBlock) (p size : Nat) : Res (Nat × QmBlock) := do
  if p = 0 then qmMalloc c q size
  else
    let q ← qmFree c q p
    qmMalloc c q size

end Disc.Mem
