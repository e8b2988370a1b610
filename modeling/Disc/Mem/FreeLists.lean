import Mathlib.Data.List.Sort
import Disc.Lib.Links
import Disc.Mem.QMalloc

/-!
# The free lists

A header with its tail is a `Frag`, one of the pool or one of those the free lists begin and
end at. As long as no two of them overlap, a write to a link changes this link and nothing
else of any of them (`Reads.setNext`, `Reads.setPrev`), so a free list is a ring like any other
and the operations on it are the usual ones.

A list is kept in the order of the sizes: `qm_insert_free` is an insertion into a sorted list,
and `qm_find_free` finds the first fragment that is large enough.
-/

namespace Disc.Mem

open Disc.Lib

/-- A header, the bytes behind it, and a tail. -/
structure Frag where
  addr : Nat
  size : Nat
deriving DecidableEq, Repr

/-- The order of the free lists. -/
def Frag.NoLarger (f g : Frag) : Prop := f.size ≤ g.size

instance : DecidableRel Frag.NoLarger := fun f g => inferInstanceAs (Decidable (f.size ≤ g.size))

instance : Std.Total Frag.NoLarger := ⟨fun f g => Nat.le_total f.size g.size⟩

instance : IsTrans Frag Frag.NoLarger := ⟨fun _ _ _ h h' => Nat.le_trans h h'⟩

variable (c : Build)

/-- How many bytes it takes in all. -/
def Frag.len (f : Frag) : Nat := c.overhead + f.size

/-- The address of the tail. -/
def Frag.tail (f : Frag) : Nat := f.addr + c.frag + f.size

/-- Where the link to the next free fragment is. -/
def Frag.nextAt (f : Frag) : Nat := f.addr + 4

/-- Where the link to the previous free fragment is. -/
def Frag.prevAt (f : Frag) : Nat := f.tail c + c.endPrev

/-- One ends before the other begins. -/
def Apart (f g : Frag) : Prop := f.addr + f.len c ≤ g.addr ∨ g.addr + g.len c ≤ f.addr

/-- The headers hold the sizes, and none of the fragments overlap. -/
structure Laid (m : Words) (ns : List Frag) : Prop where
  sized : ∀ f ∈ ns, m f.addr = f.size
  apart : ∀ f ∈ ns, ∀ g ∈ ns, f = g ∨ Apart c f g

/-- The links `L` are those in the memory. -/
def Reads (m : Words) (ns : List Frag) (L : Links Nat) : Prop :=
  ∀ f ∈ ns, L.next f.addr = some (m f.nextAt) ∧ L.prev f.addr = some (m (f.prevAt c))

/-- Only links of `xs` were written. -/
def OnlyLinks (xs : List Frag) (m m' : Words) : Prop :=
  ∀ a, (∀ x ∈ xs, a ≠ x.nextAt ∧ a ≠ x.prevAt c) → m' a = m a

/-- The links as they are in the memory. -/
def links (m : Words) : Links Nat where
  next f := some (nxtFree m f)
  prev f := some (prevFree c m f)

/-- The ring of a list in the memory. -/
def FreeList (m : Words) (hd : Frag) (bin : List Frag) : Prop :=
  Between (links c m) hd.addr (bin.map Frag.addr) hd.addr

@[simp] theorem Words.set_same (m : Words) (a v : Nat) : m.set a v a = v := if_pos rfl

theorem Words.set_of_ne {m : Words} {a b v : Nat} (h : b ≠ a) : m.set a v b = m b := if_neg h

theorem Build.layout : 8 ≤ c.frag ∧ c.endSize < c.endPrev ∧ c.endPrev < c.fragEnd
    ∧ c.overhead = c.frag + c.fragEnd := by
  refine ⟨?_, ?_, ?_, rfl⟩
  · unfold frag
    split <;> decide
  · unfold endSize endPrev
    split <;> decide
  · unfold endPrev fragEnd
    split <;> decide

variable {c} {m m' : Words} {ns xs ys : List Frag} {L : Links Nat} {x y f g : Frag} {v : Nat}

/-! ## Writing links -/

theorem Laid.eq_of_addr (h : Laid c m ns) (hf : f ∈ ns) (hg : g ∈ ns) (he : f.addr = g.addr) :
    f = g := by
  refine (h.apart f hf g hg).resolve_right fun hap => ?_
  have hc := c.layout
  unfold Apart Frag.len at hap
  omega

/-- The words of the links are words of their own. -/
theorem Laid.words (h : Laid c m ns) (hf : f ∈ ns) (hg : g ∈ ns) :
    f.addr ≠ g.nextAt ∧ f.addr ≠ g.prevAt c ∧ f.nextAt ≠ g.prevAt c
      ∧ (f ≠ g → f.nextAt ≠ g.nextAt ∧ f.prevAt c ≠ g.prevAt c) := by
  have hc := c.layout
  simp only [Frag.prevAt, Frag.nextAt, Frag.tail]
  rcases h.apart f hf g hg with rfl | hap
  · refine ⟨by omega, by omega, by omega, fun hne => absurd rfl hne⟩
  · unfold Apart Frag.len at hap
    refine ⟨by omega, by omega, by omega, fun _ => ⟨by omega, by omega⟩⟩

theorem Laid.prevFree (h : Laid c m ns) (hf : f ∈ ns) : prevFree c m f.addr = m (f.prevAt c) := by
  unfold Mem.prevFree fragEndOf
  rw [h.sized f hf]
  rfl

theorem Laid.reads (h : Laid c m ns) : Reads c m ns (links c m) :=
  fun _ hf => ⟨rfl, congrArg some (h.prevFree hf)⟩

theorem OnlyLinks.refl (xs : List Frag) (m : Words) : OnlyLinks c xs m m := fun _ _ => rfl

theorem OnlyLinks.trans {m'' : Words} (h : OnlyLinks c xs m m') (h' : OnlyLinks c xs m' m'') :
    OnlyLinks c xs m m'' := fun a ha => (h' a ha).trans (h a ha)

theorem OnlyLinks.mono (h : OnlyLinks c xs m m') (hs : ∀ x ∈ xs, x ∈ ys) : OnlyLinks c ys m m' :=
  fun a ha => h a fun x hx => ha x (hs x hx)

theorem Laid.onlyLinks (h : Laid c m ns) (hs : ∀ x ∈ xs, x ∈ ns) (hm : OnlyLinks c xs m m') :
    Laid c m' ns := by
  refine ⟨fun f hf => ?_, h.apart⟩
  rw [hm f.addr fun x hx => ?_, h.sized f hf]
  have hw := h.words hf (hs x hx)
  exact ⟨hw.1, hw.2.1⟩

/-- The word of another fragment is as it was. -/
theorem OnlyLinks.of_apart (hm : OnlyLinks c xs m m') (hap : ∀ x ∈ xs, Apart c f x) {a : Nat}
    (hlo : f.addr ≤ a) (hhi : a < f.addr + f.len c) : m' a = m a := by
  refine hm a fun x hx => ?_
  have hc := c.layout
  have := hap x hx
  unfold Apart Frag.len at this
  unfold Frag.len at hhi
  simp only [Frag.nextAt, Frag.prevAt, Frag.tail]
  constructor <;> omega

theorem onlyLinks_setNext (hx : x ∈ xs) : OnlyLinks c xs m (setNxtFree m x.addr v) :=
  fun _ ha => Words.set_of_ne (ha x hx).1

theorem onlyLinks_setPrev (hx : x ∈ xs) (hs : m x.addr = x.size) :
    OnlyLinks c xs m (setPrevFree c m x.addr v) := by
  intro a ha
  refine Words.set_of_ne ?_
  unfold fragEndOf
  rw [hs]
  exact (ha x hx).2

theorem Reads.setNext (hl : Laid c m ns) (h : Reads c m ns L) (hx : x ∈ ns) (v : Nat) :
    Reads c (setNxtFree m x.addr v) ns (L.setNext x.addr (some v)) := by
  intro y hy
  have hw := hl.words hx hy
  constructor
  · rw [Links.setNext_next]
    by_cases he : y.addr = x.addr
    · obtain rfl := hl.eq_of_addr hy hx he
      rw [if_pos rfl]
      exact congrArg some (Words.set_same _ _ _).symm
    · rw [if_neg he, (h y hy).1]
      have hne : y.nextAt ≠ x.nextAt := ((hl.words hy hx).2.2.2 fun h => he (h ▸ rfl)).1
      exact congrArg some (Words.set_of_ne hne).symm
  · rw [Links.setNext_prev, (h y hy).2]
    exact congrArg some (Words.set_of_ne hw.2.2.1.symm).symm

theorem Reads.setPrev (hl : Laid c m ns) (h : Reads c m ns L) (hx : x ∈ ns) (v : Nat) :
    Reads c (setPrevFree c m x.addr v) ns (L.setPrev x.addr (some v)) := by
  have hat : fragEndOf c m x.addr + c.endPrev = x.prevAt c := by
    unfold fragEndOf
    rw [hl.sized x hx]
    rfl
  intro y hy
  have hw := hl.words hy hx
  constructor
  · rw [Links.setPrev_next, (h y hy).1]
    exact congrArg some (Words.set_of_ne (hat ▸ hw.2.2.1)).symm
  · rw [Links.setPrev_prev]
    by_cases he : y.addr = x.addr
    · obtain rfl := hl.eq_of_addr hy hx he
      rw [if_pos rfl, ← hat]
      exact congrArg some (Words.set_same _ _ _).symm
    · rw [if_neg he, (h y hy).2]
      have hne : y.prevAt c ≠ x.prevAt c := (hw.2.2.2 fun h => he (h ▸ rfl)).2
      exact congrArg some (Words.set_of_ne (hat ▸ hne)).symm

/-! ## A fragment goes into a list and out of it -/

/-- A ring only depends on the links of its own fragments. -/
theorem Reads.ring (h : Reads c m ns L) (hl : Laid c m ns) (hd : Frag) {bin : List Frag}
    (hs : ∀ x ∈ hd :: bin, x ∈ ns)
    (hr : Between L hd.addr (bin.map Frag.addr) hd.addr) :
    Between (links c m) hd.addr (bin.map Frag.addr) hd.addr := by
  refine hr.congr (fun q hq => ?_) (fun q hq => ?_)
  · rw [← List.map_cons (f := Frag.addr)] at hq
    obtain ⟨x, hx, rfl⟩ := List.mem_map.mp hq
    rw [(h x (hs x hx)).1]
    rfl
  · have hq : q ∈ (hd :: bin).map Frag.addr := by
      simpa [or_comm] using hq
    obtain ⟨x, hx, rfl⟩ := List.mem_map.mp hq
    rw [(h x (hs x hx)).2]
    exact congrArg some (hl.prevFree (hs x hx))

/-- The links as `qm_insert_free` leaves them. -/
def linked (L : Links Nat) (x p f : Nat) : Links Nat :=
  (((L.setNext p (some x)).setPrev x (some p)).setNext x (some f)).setPrev f (some x)

theorem linked_next (L : Links Nat) (x p f q : Nat) :
    (linked L x p f).next q = if q = x then some f else if q = p then some x else L.next q := rfl

theorem linked_prev (L : Links Nat) (x p f q : Nat) :
    (linked L x p f).prev q = if q = f then some x else if q = x then some p else L.prev q := rfl

theorem between_linked {as bs us vs : List Nat} {hd x p f : Nat} (h : Between L hd (as ++ bs) hd)
    (hp : hd :: as = us ++ [p]) (hf : bs ++ [hd] = f :: vs) (hne : x ≠ hd) (hx : x ∉ as ++ bs) :
    Between (linked L x p f) hd (as ++ x :: bs) hd := by
  have hxp : p ≠ x := by
    rintro rfl
    have hin : p ∈ hd :: as := by rw [hp]; simp
    rcases List.mem_cons.mp hin with he | hin
    · exact hne he
    · exact hx (List.mem_append_left _ hin)
  have hxf : f ≠ x := by
    rintro rfl
    have hin : f ∈ bs ++ [hd] := by rw [hf]; simp
    rcases List.mem_append.mp hin with hin | hin
    · exact hx (List.mem_append_right _ hin)
    · exact hne (List.mem_singleton.mp hin)
  refine h.insert hp hf hne hne hx ⟨?_, ?_⟩ ⟨?_, ?_⟩ (fun q hq hqp => ?_) (fun q hq hqf => ?_)
  · rw [linked_next, if_neg hxp, if_pos rfl]
  · rw [linked_prev, if_neg hxf.symm, if_pos rfl]
  · rw [linked_next, if_pos rfl]
  · rw [linked_prev, if_pos rfl]
  · have hqx : q ≠ x := by
      rintro rfl
      exact (List.mem_cons.mp hq).elim hne hx
    rw [linked_next, if_neg hqx, if_neg hqp]
  · have hqx : q ≠ x := by
      rintro rfl
      rw [← List.append_assoc, List.mem_append, List.mem_singleton] at hq
      exact hq.elim hx hne
    rw [linked_prev, if_neg hqf, if_neg hqx]

/-- The links as `qm_detach_free` leaves them. -/
theorem between_unlinked {as bs us vs : List Nat} {hd x p f : Nat}
    (h : Between L hd (as ++ x :: bs) hd) (hp : hd :: as = us ++ [p]) (hf : bs ++ [hd] = f :: vs) :
    Between ((L.setNext p (some f)).setPrev f (some p)) hd (as ++ bs) hd := by
  have h' : Between L hd (as ++ [x] ++ bs) hd := by
    rw [List.append_assoc, List.singleton_append]
    exact h
  refine h'.remove hp hf ⟨?_, ?_⟩ (fun q hq hqp => ?_) (fun q hq hqf => ?_)
  · exact if_pos rfl
  · exact if_pos rfl
  · exact if_neg hqp
  · exact if_neg hqf

/-- The neighbours of a place in a list of fragments. -/
theorem exists_prev (hd : Frag) (as : List Frag) :
    ∃ us p, hd :: as = us ++ [p] ∧ hd.addr :: as.map Frag.addr = us.map Frag.addr ++ [p.addr] := by
  obtain ⟨us, p, h⟩ := exists_concat hd as
  refine ⟨us, p, h, ?_⟩
  rw [← List.map_cons (f := Frag.addr), h]
  simp

theorem exists_next (bs : List Frag) (hd : Frag) :
    ∃ f vs, bs ++ [hd] = f :: vs ∧ bs.map Frag.addr ++ [hd.addr] = f.addr :: vs.map Frag.addr := by
  obtain ⟨f, vs, h⟩ := exists_cons bs hd
  refine ⟨f, vs, h, ?_⟩
  have hm := congrArg (List.map Frag.addr) h
  simpa using hm

theorem FreeList.nodup {hd : Frag} {bin : List Frag} (h : FreeList c m hd bin) :
    (hd :: bin).Nodup :=
  List.Nodup.of_map Frag.addr h.src

theorem FreeList.notMem_addr {hd : Frag} {bin : List Frag} (hl : Laid c m ns)
    (hs : ∀ y ∈ hd :: bin, y ∈ ns) (hxn : x ∈ ns) (hx : x ∉ hd :: bin) :
    x.addr ≠ hd.addr ∧ x.addr ∉ bin.map Frag.addr := by
  constructor
  · intro he
    exact hx (hl.eq_of_addr hxn (hs hd List.mem_cons_self) he ▸ List.mem_cons_self)
  · intro hm
    obtain ⟨y, hy, he⟩ := List.mem_map.mp hm
    have hyn := hs y (List.mem_cons_of_mem _ hy)
    exact hx (hl.eq_of_addr hyn hxn he ▸ List.mem_cons_of_mem _ hy)

/-- What the four writes of `qm_insert_free` do. -/
theorem Laid.linkFree {p : Frag} (hl : Laid c m ns) (hx : x ∈ ns) (hp : p ∈ ns) (hf : f ∈ ns) :
    Laid c (linkFree c m x.addr p.addr f.addr) ns
      ∧ Reads c (linkFree c m x.addr p.addr f.addr) ns (linked (links c m) x.addr p.addr f.addr)
      ∧ OnlyLinks c [x, p, f] m (linkFree c m x.addr p.addr f.addr) := by
  have hmem : ∀ y ∈ [x, p, f], y ∈ ns := by
    simp [hx, hp, hf]
  have h1 : OnlyLinks c [x, p, f] m _ := onlyLinks_setNext (x := p) (v := x.addr) (by simp)
  have l1 := hl.onlyLinks hmem h1
  have r1 := hl.reads.setNext hl hp x.addr
  have h2 := h1.trans (onlyLinks_setPrev (x := x) (v := p.addr) (by simp) (l1.sized x hx))
  have l2 := hl.onlyLinks hmem h2
  have r2 := r1.setPrev l1 hx p.addr
  have h3 := h2.trans (onlyLinks_setNext (x := x) (v := f.addr) (by simp))
  have l3 := hl.onlyLinks hmem h3
  have r3 := r2.setNext l2 hx f.addr
  have h4 := h3.trans (onlyLinks_setPrev (x := f) (v := x.addr) (by simp) (l3.sized f hf))
  exact ⟨hl.onlyLinks hmem h4, r3.setPrev l3 hf x.addr, h4⟩

/-- The fragment in front of a place of a list, and the one behind it. -/
theorem FreeList.around {hd p f : Frag} {as bs us vs : List Frag}
    (hp : hd :: as = us ++ [p]) (hf : bs ++ [hd] = f :: vs) :
    p ∈ hd :: (as ++ bs) ∧ f ∈ hd :: (as ++ bs) := by
  have hin : p ∈ hd :: as := by rw [hp]; simp
  have hin' : f ∈ bs ++ [hd] := by rw [hf]; simp
  constructor
  · rw [← List.cons_append]
    exact List.mem_append_left _ hin
  · simp only [List.mem_append, List.mem_cons, List.not_mem_nil, or_false] at hin' ⊢
    exact hin'.elim (fun h => .inr (.inr h)) .inl

/-- **A fragment is linked into a list.** -/
theorem FreeList.link {hd : Frag} {as bs vs : List Frag} (hl : Laid c m ns)
    (hs : ∀ y ∈ hd :: (as ++ bs), y ∈ ns) (hxn : x ∈ ns) (hx : x ∉ hd :: (as ++ bs))
    (h : FreeList c m hd (as ++ bs)) (hf : bs ++ [hd] = f :: vs) :
    FreeList c (linkFree c m x.addr (prevFree c m f.addr) f.addr) hd (as ++ x :: bs)
      ∧ OnlyLinks c (x :: hd :: (as ++ bs)) m
        (linkFree c m x.addr (prevFree c m f.addr) f.addr) := by
  obtain ⟨us, p, hp, hpa⟩ := exists_prev hd as
  have hfa : bs.map Frag.addr ++ [hd.addr] = f.addr :: vs.map Frag.addr := by
    have hm := congrArg (List.map Frag.addr) hf
    simpa using hm
  obtain ⟨hpb, hfb⟩ := FreeList.around hp hf
  have hring : Between (links c m) hd.addr (as.map Frag.addr ++ bs.map Frag.addr) hd.addr := by
    rw [← List.map_append]
    exact h
  have hprev : prevFree c m f.addr = p.addr := Option.some.inj (hring.link hpa hfa).2
  obtain ⟨hne, hnm⟩ := FreeList.notMem_addr hl hs hxn hx
  rw [List.map_append] at hnm
  obtain ⟨hl', hreads, honly⟩ := hl.linkFree hxn (hs p hpb) (hs f hfb)
  rw [hprev]
  constructor
  · refine hreads.ring hl' hd (fun y hy => ?_) ?_
    · simp only [List.mem_cons, List.mem_append] at hy hs
      rcases hy with hy | hy | rfl | hy
      · exact hs y (.inl hy)
      · exact hs y (.inr (.inl hy))
      · exact hxn
      · exact hs y (.inr (.inr hy))
    · rw [List.map_append, List.map_cons]
      exact between_linked hring hpa hfa hne hnm
  · refine honly.mono fun y hy => ?_
    simp only [List.mem_cons, List.not_mem_nil, or_false] at hy
    rcases hy with rfl | rfl | rfl
    · exact List.mem_cons_self
    · exact List.mem_cons_of_mem _ hpb
    · exact List.mem_cons_of_mem _ hfb

/-- **A fragment is taken out of a list.** -/
theorem FreeList.unlink {q : QmBlock} {hd : Frag} {as bs : List Frag} (hl : Laid c q.mem ns)
    (hs : ∀ y ∈ hd :: (as ++ x :: bs), y ∈ ns) (h : FreeList c q.mem hd (as ++ x :: bs)) :
    FreeList c (qmDetachFree c q x.addr).mem hd (as ++ bs)
      ∧ OnlyLinks c (hd :: (as ++ bs)) q.mem (qmDetachFree c q x.addr).mem := by
  obtain ⟨us, p, hp, hpa⟩ := exists_prev hd as
  obtain ⟨f, vs, hf, hfa⟩ := exists_next bs hd
  obtain ⟨hpb, hfb⟩ := FreeList.around hp hf
  have hsub : ∀ y ∈ hd :: (as ++ bs), y ∈ ns := by
    intro y hy
    refine hs y ?_
    simp only [List.mem_cons, List.mem_append] at hy ⊢
    exact hy.imp_right fun hy => hy.imp_right .inr
  have hring : Between (links c q.mem) hd.addr (as.map Frag.addr ++ x.addr :: bs.map Frag.addr)
      hd.addr := by
    rw [← List.map_cons (f := Frag.addr), ← List.map_append]
    exact h
  have hprev : prevFree c q.mem x.addr = p.addr :=
    Option.some.inj (hring.link hpa (List.cons_append ..)).2
  have hnext : nxtFree q.mem x.addr = f.addr := by
    have hring' : Between (links c q.mem) hd.addr
        (as.map Frag.addr ++ [x.addr] ++ bs.map Frag.addr) hd.addr := by
      rw [List.append_assoc, List.singleton_append]
      exact hring
    have hp' : hd.addr :: (as.map Frag.addr ++ [x.addr]) = (hd.addr :: as.map Frag.addr) ++ [x.addr] :=
      rfl
    exact Option.some.inj (hring'.link hp' hfa).1
  have hpn := hsub p hpb
  have hfn := hsub f hfb
  have h1 : OnlyLinks c (hd :: (as ++ bs)) q.mem (setNxtFree q.mem p.addr f.addr) :=
    onlyLinks_setNext hpb
  have l1 := hl.onlyLinks hsub h1
  have h2 := h1.trans (onlyLinks_setPrev (v := p.addr) hfb (l1.sized f hfn))
  have r2 := (hl.reads.setNext hl hpn f.addr).setPrev l1 hfn p.addr
  unfold qmDetachFree
  dsimp only
  rw [hprev, hnext]
  refine ⟨r2.ring (hl.onlyLinks hsub h2) _ hsub ?_, h2⟩
  rw [List.map_append]
  exact between_unlinked hring hpa hfa

/-! ## Searching a list -/

/-- The loop of `qm_insert_free` stops at the first fragment that is as large. -/
theorem findPlace_eq {hd p size fuel : Nat} {bin : List Frag}
    (hs : ∀ y ∈ bin, m y.addr = y.size ∧ y.addr ≠ hd)
    (h : List.IsChain (links c m).Link (p :: (bin.map Frag.addr ++ [hd])))
    (hf : bin.length < fuel) :
    findPlace m hd size fuel (nxtFree m p)
      = .ok (((bin.dropWhile fun y => y.size < size).map Frag.addr).headD hd) := by
  induction bin generalizing p fuel with
  | nil =>
      rw [List.map_nil, List.nil_append, List.isChain_pair] at h
      have hnext : nxtFree m p = hd := Option.some.inj h.1
      obtain ⟨fuel, rfl⟩ := Nat.exists_eq_succ_of_ne_zero (Nat.ne_of_gt (Nat.zero_lt_of_lt hf))
      rw [hnext, findPlace, if_pos (.inl rfl)]
      rfl
  | cons y bin ih =>
      rw [List.map_cons, List.cons_append, List.isChain_cons_cons] at h
      have hnext : nxtFree m p = y.addr := Option.some.inj h.1.1
      obtain ⟨hy, hyd⟩ := hs y List.mem_cons_self
      obtain ⟨fuel, rfl⟩ := Nat.exists_eq_succ_of_ne_zero (Nat.ne_of_gt (Nat.zero_lt_of_lt hf))
      rw [hnext, findPlace, hy]
      by_cases hlt : y.size < size
      · rw [if_neg (by omega), ih (fun z hz => hs z (List.mem_cons_of_mem _ hz)) h.2 (by simpa using hf),
          List.dropWhile_cons_of_pos (by simpa using hlt)]
      · rw [if_pos (.inr (by omega)), List.dropWhile_cons_of_neg (by simpa using hlt)]
        rfl

/-- The inner loop of `qm_find_free` finds the first fragment that is large enough. -/
theorem findInList_eq {hd p size fuel : Nat} {bin : List Frag}
    (hs : ∀ y ∈ bin, m y.addr = y.size ∧ y.addr ≠ hd)
    (h : List.IsChain (links c m).Link (p :: (bin.map Frag.addr ++ [hd])))
    (hf : bin.length < fuel) :
    findInList m hd size fuel (nxtFree m p)
      = .ok ((bin.find? fun y => size ≤ y.size).map Frag.addr) := by
  induction bin generalizing p fuel with
  | nil =>
      rw [List.map_nil, List.nil_append, List.isChain_pair] at h
      have hnext : nxtFree m p = hd := Option.some.inj h.1
      obtain ⟨fuel, rfl⟩ := Nat.exists_eq_succ_of_ne_zero (Nat.ne_of_gt (Nat.zero_lt_of_lt hf))
      rw [hnext, findInList, if_pos rfl]
      rfl
  | cons y bin ih =>
      rw [List.map_cons, List.cons_append, List.isChain_cons_cons] at h
      have hnext : nxtFree m p = y.addr := Option.some.inj h.1.1
      obtain ⟨hy, hyd⟩ := hs y List.mem_cons_self
      obtain ⟨fuel, rfl⟩ := Nat.exists_eq_succ_of_ne_zero (Nat.ne_of_gt (Nat.zero_lt_of_lt hf))
      rw [hnext, findInList, if_neg hyd, hy]
      by_cases hle : size ≤ y.size
      · rw [if_pos hle, List.find?_cons_of_pos (by simpa using hle)]
        rfl
      · rw [if_neg hle, List.find?_cons_of_neg (by simpa using hle)]
        exact ih (fun z hz => hs z (List.mem_cons_of_mem _ hz)) h.2 (by simpa using hf)

/-! ## Which list -/

/-- The list a size belongs to. -/
def bucket (c : Build) (s : Nat) : Nat :=
  if s < 2048 then s / c.roundTo else 2048 / c.roundTo + s.log2 - 11 + 1

theorem bigHashLoop_eq {s idx j : Nat} (hlo : 2 ^ (31 - j) ≤ s) (hhi : s < 2 ^ (32 - j))
    (hj : j ≤ idx) (hidx : idx ≤ 31) : bigHashLoop s idx = .ok (idx - j) := by
  induction j generalizing s idx with
  | zero =>
      cases idx with
      | zero => exact if_neg (by omega)
      | succ idx => exact if_neg (by omega)
  | succ j ih =>
      obtain ⟨idx, rfl⟩ := Nat.exists_eq_succ_of_ne_zero (n := idx) (by omega)
      have hpow : 2 ^ (31 - j) = 2 ^ (31 - (j + 1)) * 2 := by
        rw [← Nat.pow_succ]
        congr 1
        omega
      have hpow' : 2 ^ (32 - j) = 2 ^ (32 - (j + 1)) * 2 := by
        rw [← Nat.pow_succ]
        congr 1
        omega
      have hle : 2 ^ (32 - (j + 1)) ≤ 2 ^ 31 := Nat.pow_le_pow_right (by decide) (by omega)
      rw [bigHashLoop, if_pos (by omega), Nat.mod_eq_of_lt (by omega),
        ih (by omega) (by omega) (by omega) (by omega)]
      congr 1
      omega

theorem bigHashIdx_eq {s : Nat} (h0 : s ≠ 0) (h : s < 2 ^ 32) : bigHashIdx s = .ok s.log2 := by
  have hlog : s.log2 < 32 := (Nat.log2_lt h0).mpr h
  have hlo := Nat.log2_self_le h0
  have hhi : s < 2 ^ (s.log2 + 1) := Nat.lt_log2_self
  have heq := @bigHashLoop_eq s 31 (31 - s.log2)
    (by rwa [show 31 - (31 - s.log2) = s.log2 by omega])
    (by rwa [show 32 - (31 - s.log2) = s.log2 + 1 by omega]) (by omega) (by omega)
  rw [bigHashIdx, heq]
  congr 1
  omega

theorem getHash_eq {s : Nat} (h : s < 2 ^ 32) : getHash c s = .ok (bucket c s) := by
  unfold getHash bucket
  by_cases hs : s < 2048
  · rw [if_pos hs, if_pos hs]
  · rw [if_neg hs, if_neg hs, bigHashIdx_eq (by omega) h]
    rfl

theorem Build.roundTo_dvd (c : Build) : c.roundTo ∣ 2048 ∧ 0 < c.roundTo := by
  unfold roundTo
  split <;> decide

/-- A larger fragment is in no earlier list. -/
theorem bucket_mono {s t : Nat} (h : s ≤ t) : bucket c s ≤ bucket c t := by
  have hlog : ∀ {n : Nat}, ¬ n < 2048 → 11 ≤ n.log2 := fun hn =>
    (Nat.le_log2 (by omega)).mpr (by omega)
  unfold bucket
  by_cases hs : s < 2048
  · rw [if_pos hs]
    by_cases ht : t < 2048
    · rw [if_pos ht]
      exact Nat.div_le_div_right h
    · rw [if_neg ht]
      have h1 : s / c.roundTo ≤ 2048 / c.roundTo := Nat.div_le_div_right (by omega)
      have h2 := hlog ht
      omega
  · have ht : ¬ t < 2048 := by omega
    rw [if_neg hs, if_neg ht]
    have h1 : s.log2 ≤ t.log2 :=
      (Nat.le_log2 (by omega)).mpr (Nat.le_trans (Nat.log2_self_le (by omega)) h)
    omega

theorem bucket_lt {s : Nat} (h : s < 2 ^ 32) : bucket c s < c.hashSize := by
  unfold bucket Build.hashSize
  by_cases hs : s < 2048
  · rw [if_pos hs]
    have h1 : s / c.roundTo ≤ 2048 / c.roundTo := Nat.div_le_div_right (by omega)
    omega
  · rw [if_neg hs]
    have h1 : s.log2 < 32 := (Nat.log2_lt (by omega)).mpr h
    generalize 2048 / c.roundTo = k
    omega

end Disc.Mem
