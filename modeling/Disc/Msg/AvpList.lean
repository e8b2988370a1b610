import Disc.Msg.Avp

/-!
# The AVP list is a sequence

`AAAAddAVPToMessage` rewires `next` and `prev` pointers and the two end pointers
of the message. Seen through `AvpList`, all it does is insert one element into a
sequence, at the front or right after a given element; a position that is not in
the list is refused and nothing changes. Nothing but links is ever written, so
what the AVPs say (`Heap.body`) and the header of the message are untouched.
-/

namespace Disc.Msg

open Disc.Lib

/-- The AVP list of `m` is the sequence `xs`. -/
structure AvpList (h : Heap) (m : Message) (xs : List Nat) : Prop where
  /-- Links and end pointers spell `xs` in both directions. -/
  chain : DList h.next h.prev m.head m.tail xs
  /-- Every element is an allocated AVP. -/
  alloc : ∀ x ∈ xs, x < h.size

/-- Insert `a` right after the first occurrence of `pos`. -/
def insertAfter (pos a : Nat) : List Nat → List Nat
  | [] => []
  | x :: xs => if x = pos then x :: a :: xs else x :: insertAfter pos a xs

/-- What `AAAAddAVPToMessage` does to the sequence. -/
def insertAvp (a : Nat) : Option Nat → List Nat → List Nat
  | none, xs => a :: xs
  | some pos, xs => insertAfter pos a xs

theorem insertAfter_split {pos a : Nat} {as bs : List Nat} (h : pos ∉ as) :
    insertAfter pos a (as ++ pos :: bs) = as ++ pos :: a :: bs := by
  induction as with
  | nil => simp [insertAfter]
  | cons x as ih =>
      have hx : x ≠ pos := fun he => h (by simp [he])
      have hn : pos ∉ as := fun hm => h (by simp [hm])
      simp [insertAfter, hx, ih hn]

theorem insertAfter_of_notMem {pos a : Nat} {xs : List Nat} (h : pos ∉ xs) :
    insertAfter pos a xs = xs := by
  induction xs with
  | nil => rfl
  | cons x xs ih =>
      have hx : x ≠ pos := fun he => h (by simp [he])
      simp [insertAfter, hx, ih (fun hm => h (by simp [hm]))]

theorem mem_insertAfter {pos a : Nat} {xs : List Nat} (hp : pos ∈ xs) (x : Nat) :
    x ∈ insertAfter pos a xs ↔ x = a ∨ x ∈ xs := by
  obtain ⟨as, bs, rfl, hn⟩ := List.eq_append_cons_of_mem hp
  rw [insertAfter_split hn]
  simp only [List.mem_append, List.mem_cons]
  tauto

theorem mem_insertAvp {a : Nat} {pos : Option Nat} {xs : List Nat} (hp : ∀ q ∈ pos, q ∈ xs)
    (x : Nat) : x ∈ insertAvp a pos xs ↔ x = a ∨ x ∈ xs := by
  cases pos with
  | none => simp [insertAvp]
  | some pos => exact mem_insertAfter (hp pos rfl) x

/-- The part of a message the list operations leave alone. -/
def Message.header (m : Message) : UInt8 × UInt32 × UInt32 × UInt32 × UInt32 :=
  (m.flags, m.commandCode, m.applicationId, m.endtoendId, m.hopbyhopId)

/-- Every shortcut is written when the code is its own, and nothing else is. -/
theorem setShortcut_fields (m : Message) (c : UInt32) (a : Option Nat) :
    m.setShortcut c a =
      { m with
        sessionId := if c = 263 then a else m.sessionId
        origHost := if c = 264 then a else m.origHost
        origRealm := if c = 296 then a else m.origRealm
        destHost := if c = 293 then a else m.destHost
        destRealm := if c = 283 then a else m.destRealm
        resCode := if c = 268 then a else m.resCode
        authSesState := if c = 277 then a else m.authSesState } := by
  unfold Message.setShortcut
  by_cases hc : c ∈ [263, 264, 296, 293, 283, 268, 277]
  · simp only [List.mem_cons, List.not_mem_nil, or_false] at hc
    rcases hc with rfl | rfl | rfl | rfl | rfl | rfl | rfl <;> rfl
  · simp only [List.mem_cons, List.not_mem_nil, or_false, not_or] at hc
    obtain ⟨h₁, h₂, h₃, h₄, h₅, h₆, h₇⟩ := hc
    simp only [if_neg h₁, if_neg h₂, if_neg h₃, if_neg h₄, if_neg h₅, if_neg h₆, if_neg h₇]

@[simp] theorem setShortcut_head (m : Message) (c : UInt32) (a : Option Nat) :
    (m.setShortcut c a).head = m.head := by
  rw [setShortcut_fields]

@[simp] theorem setShortcut_tail (m : Message) (c : UInt32) (a : Option Nat) :
    (m.setShortcut c a).tail = m.tail := by
  rw [setShortcut_fields]

@[simp] theorem setShortcut_header (m : Message) (c : UInt32) (a : Option Nat) :
    (m.setShortcut c a).header = m.header := by
  rw [setShortcut_fields]
  rfl

/-- What a call that linked the AVP leaves behind. -/
structure Linked (h h' : Heap) (m m' : Message) (ys : List Nat) : Prop where
  list : AvpList h' m' ys
  body : h'.body = h.body
  size : h'.size = h.size
  header : m'.header = m.header

/-- Linking a fresh AVP at the front. -/
theorem add_front {h : Heap} {m : Message} {xs : List Nat} (hl : AvpList h m xs) {a : Nat}
    (ha : a < h.size) (hx : a ∉ xs) :
    ∃ h' m', aaaAddAVPToMessage h m (some a) none = .ok (.errSuccess, h', m')
      ∧ Linked h h' m m' (a :: xs) := by
  have hcell : h.cells[a]? = some (h.cells[a]) := List.getElem?_eq_getElem ha
  have hhead : m.head = xs.head? := hl.chain.fwd.head
  simp only [aaaAddAVPToMessage, hcell, Heap.next_setPrev, Heap.next_setNext h ha, if_true]
  cases xs with
  -- an empty list: the source makes the new AVP its tail as well
  | nil =>
      have hm : m.head = none := hhead
      rw [hm]
      refine ⟨_, _, rfl, ⟨?_, ?_⟩, by simp, by simp, by rw [setShortcut_header]; rfl⟩
      · have hc : DList h.next h.prev m.head m.tail ([] ++ []) := hl.chain
        refine DList.splice hc (by simp) ?_ ?_ (by simp) (by simp) (by simp) (by simp) (by simp)
          (by simp)
        · simp [Heap.next_setNext, ha]
        · rw [Heap.prev_setPrev _ (by simpa using ha)]; simp
      · simpa using ha
  -- else the old head gets a back pointer and the tail stays
  | cons n xs =>
      have hm : m.head = some n := hhead
      have hn : n < h.size := hl.alloc n (by simp)
      have han : a ≠ n := fun he => hx (by simp [he])
      rw [hm]
      refine ⟨_, _, rfl, ⟨?_, ?_⟩, by simp, by simp, by rw [setShortcut_header]; rfl⟩
      · have hc : DList h.next h.prev m.head m.tail ([] ++ n :: xs) := hl.chain
        refine DList.splice hc hx ?_ ?_ (by simp) ?_ ?_ ?_ (by simp) (by simp)
        · simp [Heap.next_setNext, ha]
        · rw [Heap.prev_setPrev _ (by simpa using hn), if_neg han.symm,
            Heap.prev_setPrev _ (by simpa using ha)]
          simp
        · intro q hq _
          have : a ≠ q := fun he => hx (he ▸ hq)
          simp [Heap.next_setNext, ha, this]
        · intro r hr
          obtain rfl : n = r := by simpa using hr
          rw [Heap.prev_setPrev _ (by simpa using hn)]; simp
        · intro q hq hqn
          have h1 : n ≠ q := fun he => hqn (by simp [he])
          have h2 : a ≠ q := fun he => hx (he ▸ hq)
          rw [Heap.prev_setPrev _ (by simpa using hn), if_neg h1,
            Heap.prev_setPrev _ (by simpa using ha), if_neg h2]
          simp
      · intro x hxm
        rcases List.mem_cons.mp hxm with he | hxm
        · subst he; simpa using ha
        · simpa using hl.alloc x hxm

/-- Linking a fresh AVP right after an element of the list. -/
theorem add_after {h : Heap} {m : Message} {as bs : List Nat} {a pos : Nat}
    (hl : AvpList h m (as ++ pos :: bs)) (ha : a < h.size) (hx : a ∉ as ++ pos :: bs) :
    ∃ h' m', aaaAddAVPToMessage h m (some a) (some pos) = .ok (.errSuccess, h', m')
      ∧ Linked h h' m m' (as ++ pos :: a :: bs) := by
  have hcell : h.cells[a]? = some (h.cells[a]) := List.getElem?_eq_getElem ha
  have hpos : pos < h.size := hl.alloc pos (by simp)
  have hap : a ≠ pos := fun he => hx (by simp [he])
  have hseek := hl.chain.fwd.seek_eq (hl.chain.length_le hl.alloc) pos
  -- the cell after `pos` is the head of the back part
  have hnext : h.next pos = bs.head? := by
    obtain ⟨k, _, h2⟩ := seg_append.mp hl.chain.fwd
    exact h2.2.head
  have hsplit : as ++ pos :: bs = (as ++ [pos]) ++ bs := by simp
  have hgoal : as ++ pos :: a :: bs = (as ++ [pos]) ++ a :: bs := by simp
  have hnxt : ∀ q, ((h.setNext a (h.next pos)).setNext pos (some a)).next q
      = if pos = q then some a else if a = q then h.next pos else h.next q := by
    intro q
    rw [Heap.next_setNext _ (by simpa using hpos), Heap.next_setNext _ ha]
  have hback : ∀ n ∈ bs, n ≠ pos ∧ n < h.size := by
    intro n hn
    refine ⟨?_, hl.alloc n (by simp [hn])⟩
    have := (List.nodup_append.mp hl.chain.nodup).2.1
    exact fun he => (List.nodup_cons.mp this).1 (he ▸ hn)
  have hnl : ∀ q, q ∈ (as ++ [pos]).getLast? ↔ q = pos := by simp [eq_comm]
  simp only [aaaAddAVPToMessage, hcell, hseek, List.mem_append, List.mem_cons, true_or, or_true,
    decide_true, hnxt, if_neg hap.symm, if_true]
  rw [hgoal]
  cases bs with
  | nil =>
      have hn0 : h.next pos = none := hnext
      rw [hn0]
      refine ⟨_, _, rfl, ⟨?_, ?_⟩, by simp, by simp, by rw [setShortcut_header]; rfl⟩
      · rw [hsplit] at hl hx
        refine DList.splice hl.chain hx ?_ ?_ ?_ ?_ (by simp) ?_ (by simp) (by simp)
        · have := hnxt a
          rw [hn0] at this
          simpa [hap.symm] using this
        · rw [Heap.prev_setPrev _ (by simpa using ha)]; simp
        · intro q hq
          have := hnxt pos
          rw [hn0] at this
          rw [(hnl q).mp hq]
          simpa using this
        · intro q hq hql
          have h1 : pos ≠ q := fun he => hql ((hnl q).mpr he.symm)
          have h2 : a ≠ q := fun he => hx (he ▸ hq)
          have := hnxt q
          rw [hn0] at this
          simpa [h1, h2] using this
        · intro q hq _
          have h2 : a ≠ q := fun he => hx (he ▸ hq)
          rw [Heap.prev_setPrev _ (by simpa using ha), if_neg h2]
          simp
      · intro x hxm
        have : x = a ∨ x ∈ as ++ [pos] := by
          simp only [List.mem_append, List.mem_cons, List.not_mem_nil, or_false] at hxm ⊢
          tauto
        rcases this with he | hm
        · subst he; simpa using ha
        · simpa using hl.alloc x hm
  | cons n bs =>
      have hn0 : h.next pos = some n := hnext
      have hnp := hback n (by simp)
      have han : a ≠ n := fun he => hx (by simp [he])
      rw [hn0]
      refine ⟨_, _, rfl, ⟨?_, ?_⟩, by simp, by simp, by rw [setShortcut_header]⟩
      · rw [hsplit] at hl hx
        refine DList.splice hl.chain hx ?_ ?_ ?_ ?_ ?_ ?_ (by simp) (by simp)
        · have := hnxt a
          rw [hn0] at this
          simpa [hap.symm] using this
        · rw [Heap.prev_setPrev _ (by simpa using ha)]; simp
        · intro q hq
          have := hnxt pos
          rw [hn0] at this
          rw [(hnl q).mp hq]
          simpa using this
        · intro q hq hql
          have h1 : pos ≠ q := fun he => hql ((hnl q).mpr he.symm)
          have h2 : a ≠ q := fun he => hx (he ▸ hq)
          have := hnxt q
          rw [hn0] at this
          simpa [h1, h2] using this
        · intro r hr
          obtain rfl : n = r := by simpa using hr
          rw [Heap.prev_setPrev _ (by simpa using ha), if_neg han,
            Heap.prev_setPrev _ (by simpa using hnp.2)]
          simp
        · intro q hq hqn
          have h1 : n ≠ q := fun he => hqn (by simp [he])
          have h2 : a ≠ q := fun he => hx (he ▸ hq)
          rw [Heap.prev_setPrev _ (by simpa using ha), if_neg h2,
            Heap.prev_setPrev _ (by simpa using hnp.2), if_neg h1]
          simp
      · intro x hxm
        have : x = a ∨ x ∈ as ++ pos :: n :: bs := by
          simp only [List.mem_append, List.mem_cons, List.not_mem_nil, or_false] at hxm ⊢
          tauto
        rcases this with he | hm
        · subst he; simpa using ha
        · simpa using hl.alloc x hm

/-- Linking a fresh AVP at the end: what every caller that passes the tail as position gets. -/
theorem add_last {h : Heap} {m : Message} {xs : List Nat} (hl : AvpList h m xs) {a : Nat}
    (ha : a < h.size) (hx : a ∉ xs) :
    ∃ h' m', aaaAddAVPToMessage h m (some a) m.tail = .ok (.errSuccess, h', m')
      ∧ Linked h h' m m' (xs ++ [a]) := by
  have htail : m.tail = xs.reverse.head? := hl.chain.bwd.head
  cases xs using List.reverseRecOn with
  | nil =>
      rw [htail]
      exact add_front hl ha hx
  | append_singleton xs pos =>
      have hpos : m.tail = some pos := by rw [htail]; simp
      rw [hpos, List.append_assoc]
      exact add_after hl ha hx

/-- Allocating another AVP leaves the list alone. -/
theorem AvpList.alloc_append {h : Heap} {m : Message} {xs : List Nat} (hl : AvpList h m xs)
    (c : Avp) : AvpList ⟨h.cells ++ [c]⟩ m xs := by
  have hold : ∀ x ∈ xs, (h.cells ++ [c])[x]? = h.cells[x]? := fun x hx =>
    List.getElem?_append_left (hl.alloc x hx)
  refine ⟨⟨hl.chain.nodup, ?_, ?_⟩, ?_⟩
  · exact hl.chain.fwd.congr (fun q hq => by unfold Heap.next; rw [hold q hq])
  · refine hl.chain.bwd.congr (fun q hq => ?_)
    unfold Heap.prev
    rw [hold q (List.mem_reverse.mp hq)]
  · intro x hx
    have := hl.alloc x hx
    simp only [Heap.size, List.length_append, List.length_singleton] at this ⊢
    omega

/-- A new AVP goes behind all those in use, so it is not one of the list yet. -/
theorem add_new {h : Heap} {m : Message} {xs : List Nat} (hl : AvpList h m xs) (c : Avp) :
    ∃ h' m', aaaAddAVPToMessage ⟨h.cells ++ [c]⟩ m (some h.size) m.tail = .ok (.errSuccess, h', m')
      ∧ Linked ⟨h.cells ++ [c]⟩ h' m m' (xs ++ [h.size]) := by
  have hnew : h.size ∉ xs := fun hm => Nat.lt_irrefl _ (hl.alloc _ hm)
  have hlt : h.size < (⟨h.cells ++ [c]⟩ : Heap).size := by simp [Heap.size]
  exact add_last (hl.alloc_append c) hlt hnew

/-! ## What any call does, whatever it is given -/

theorem next_setNext_some {h : Heap} {p q y : Nat} {v : Option Nat}
    (hy : (h.setNext p v).next q = some y) : (p = q ∧ v = some y) ∨ h.next q = some y := by
  by_cases hpq : p = q
  · subst hpq
    by_cases hp : p < h.size
    · rw [Heap.next_setNext h hp, if_pos rfl] at hy
      exact Or.inl ⟨rfl, hy⟩
    · have hnone : h.cells[p]? = none := List.getElem?_eq_none (by unfold Heap.size at hp; omega)
      unfold Heap.next Heap.setNext at hy
      rw [List.getElem?_modify, hnone] at hy
      exact absurd hy (by simp)
  · refine Or.inr ?_
    simpa [Heap.next, Heap.setNext, List.getElem?_modify, hpq] using hy

/-- A search only finds what the links lead to. -/
theorem seek_closed {nxt : Nat → Option Nat} {P : Nat → Prop}
    (hnx : ∀ x y, P x → nxt x = some y → P y) {fuel : Nat} {a : Option Nat} {pos : Nat}
    (ha : ∀ y, a = some y → P y) (hs : seek nxt fuel a pos = some true) : P pos := by
  induction fuel generalizing a with
  | zero => cases a <;> simp [seek] at hs
  | succ fuel ih =>
      cases a with
      | none => simp [seek] at hs
      | some x =>
          rw [seek] at hs
          split at hs
          · rename_i he
            exact he ▸ ha x rfl
          · exact ih (fun y hy => hnx x y (ha x rfl) hy) hs

/-- What a walk visits is what the links lead to. -/
theorem walk_closed {nxt : Nat → Option Nat} {P : Nat → Prop}
    (hnx : ∀ x y, P x → nxt x = some y → P y) {fuel : Nat} {a : Option Nat} {ids : List Nat}
    (ha : ∀ y, a = some y → P y) (hw : walk nxt fuel a = some ids) : ∀ x ∈ ids, P x := by
  induction fuel generalizing a ids with
  | zero =>
      cases a with
      | none => obtain rfl : [] = ids := by simpa [walk] using hw
                simp
      | some x => simp [walk] at hw
  | succ fuel ih =>
      cases a with
      | none => obtain rfl : [] = ids := by simpa [walk] using hw
                simp
      | some x =>
          rw [walk] at hw
          obtain ⟨rest, hr, rfl⟩ := Option.map_eq_some_iff.mp hw
          intro z hz
          rcases List.mem_cons.mp hz with rfl | hz
          · exact ha z rfl
          · exact ih (fun y hy => hnx x y (ha x rfl) hy) hr z hz

/-- What holds after any call, with fresh AVPs or not. -/
structure AddFrame (h h' : Heap) (m m' : Message) (a : Nat) (rc : ReturnCode) : Prop where
  alloc : a < h.size
  body : h'.body = h.body
  size : h'.size = h.size
  /-- A refused call changes nothing. -/
  refused : rc ≠ .errSuccess → h' = h ∧ m' = m
  /-- Links and the head only ever lead to what they led to before, or to the new AVP. -/
  closed : ∀ P : Nat → Prop, P a → (∀ y, m.head = some y → P y) →
    (∀ x y, P x → h.next x = some y → P y) →
    (∀ y, m'.head = some y → P y) ∧ ∀ x y, P x → h'.next x = some y → P y

theorem aaaAddAVPToMessage_frame {h h' : Heap} {m m' : Message} {a : Nat} {pos : Option Nat}
    {rc : ReturnCode} (hadd : aaaAddAVPToMessage h m (some a) pos = .ok (rc, h', m')) :
    AddFrame h h' m m' a rc := by
  cases hcell : h.cells[a]? with
  | none => simp [aaaAddAVPToMessage, hcell] at hadd
  | some cell =>
      have ha : a < h.size := by
        by_contra hge
        rw [List.getElem?_eq_none (by unfold Heap.size at hge; omega)] at hcell
        exact absurd hcell (by simp)
      cases pos with
      | none =>
          simp only [aaaAddAVPToMessage, hcell] at hadd
          split at hadd
          all_goals
            simp only [Res.ok.injEq, Prod.mk.injEq] at hadd
            obtain ⟨rfl, rfl, rfl⟩ := hadd
            refine ⟨ha, by simp, by simp, fun hne => absurd rfl hne, ?_⟩
            intro P hPa hhd hnx
            refine ⟨fun y hy => ?_, fun x y hx hy => ?_⟩
            · obtain rfl : a = y := by simpa using hy
              exact hPa
            · simp only [Heap.next_setPrev] at hy
              rcases next_setNext_some hy with ⟨-, hv⟩ | hold
              · exact hhd y hv
              · exact hnx x y hx hold
      | some pos =>
          simp only [aaaAddAVPToMessage, hcell] at hadd
          split at hadd
          -- the search for `pos` does not end: no result to speak of
          · exact absurd hadd (by simp)
          -- `pos` is not in the list: the error leaves everything as it was
          · simp only [Res.ok.injEq, Prod.mk.injEq] at hadd
            obtain ⟨rfl, rfl, rfl⟩ := hadd
            exact ⟨ha, rfl, rfl, fun _ => ⟨rfl, rfl⟩, fun P _ hhd hnx => ⟨hhd, hnx⟩⟩
          -- the new AVP now points where `pos` did, and `pos` at the new AVP
          · rename_i hseek
            split at hadd
            all_goals
              simp only [Res.ok.injEq, Prod.mk.injEq] at hadd
              obtain ⟨rfl, rfl, rfl⟩ := hadd
              refine ⟨ha, by simp, by simp, fun hne => absurd rfl hne, ?_⟩
              intro P hPa hhd hnx
              refine ⟨fun y hy => hhd y (by simpa using hy), fun x y hx hy => ?_⟩
              simp only [Heap.next_setPrev] at hy
              rcases next_setNext_some hy with ⟨-, hv⟩ | hold
              · obtain rfl : a = y := by simpa using hv
                exact hPa
              · rcases next_setNext_some hold with ⟨-, hv⟩ | hold
                · exact hnx pos y (seek_closed hnx hhd hseek) hv
                · exact hnx x y hx hold

theorem cells_setNext_ne {h : Heap} {p q : Nat} (hpq : p ≠ q) (v : Option Nat) :
    (h.setNext p v).cells[q]? = h.cells[q]? := by
  simp [Heap.setNext, hpq]

theorem cells_setPrev_ne {h : Heap} {p q : Nat} (hpq : p ≠ q) (v : Option Nat) :
    (h.setPrev p v).cells[q]? = h.cells[q]? := by
  simp [Heap.setPrev, hpq]

/-- AVPs of other lists are left alone. -/
theorem aaaAddAVPToMessage_cells {h h' : Heap} {m m' : Message} {a : Nat} {pos : Option Nat}
    {rc : ReturnCode} {ids : List Nat} (hl : AvpList h m ids)
    (hadd : aaaAddAVPToMessage h m (some a) pos = .ok (rc, h', m')) {x : Nat} (hxa : a ≠ x)
    (hx : x ∉ ids) : h'.cells[x]? = h.cells[x]? := by
  have ha := (aaaAddAVPToMessage_frame hadd).alloc
  have hhd : ∀ y, m.head = some y → y ∈ ids := fun y hy =>
    List.mem_of_mem_head? (hl.chain.fwd.head ▸ hy)
  have hne : ∀ {y}, y ∈ ids → y ≠ x := fun hy he => hx (he ▸ hy)
  have hcell : h.cells[a]? = some (h.cells[a]) := List.getElem?_eq_getElem ha
  cases pos with
  | none =>
      simp only [aaaAddAVPToMessage, hcell, Heap.next_setPrev, Heap.next_setNext h ha,
        if_true] at hadd
      split at hadd
      · rename_i n hn
        simp only [Res.ok.injEq, Prod.mk.injEq] at hadd
        obtain ⟨-, rfl, -⟩ := hadd
        rw [cells_setPrev_ne (hne (hhd n hn)), cells_setPrev_ne hxa, cells_setNext_ne hxa]
      · simp only [Res.ok.injEq, Prod.mk.injEq] at hadd
        obtain ⟨-, rfl, -⟩ := hadd
        rw [cells_setPrev_ne hxa, cells_setNext_ne hxa]
  | some pos =>
      simp only [aaaAddAVPToMessage, hcell] at hadd
      split at hadd
      · exact absurd hadd (by simp)
      · simp only [Res.ok.injEq, Prod.mk.injEq] at hadd
        obtain ⟨-, rfl, -⟩ := hadd
        rfl
      · rename_i hseek
        have hpos : pos ∈ ids := seek_closed (fun y z hy hz => hl.chain.fwd.closed hy hz) hhd hseek
        have hp : pos < h.size := hl.alloc pos hpos
        rw [Heap.next_setNext _ (by simpa using hp), Heap.next_setNext h ha] at hadd
        split at hadd
        · rename_i n hn
          simp only [Res.ok.injEq, Prod.mk.injEq] at hadd
          obtain ⟨-, rfl, -⟩ := hadd
          -- the third cell written is the one after `pos`, or the new AVP itself
          have hnx : n ≠ x := by
            split at hn
            · obtain rfl : a = n := by simpa using hn
              exact hxa
            · rw [if_pos rfl] at hn
              exact hne (hl.chain.fwd.closed hpos hn)
          rw [cells_setPrev_ne hxa, cells_setPrev_ne hnx, cells_setNext_ne (hne hpos),
            cells_setNext_ne hxa]
        · simp only [Res.ok.injEq, Prod.mk.injEq] at hadd
          obtain ⟨-, rfl, -⟩ := hadd
          rw [cells_setPrev_ne hxa, cells_setNext_ne (hne hpos), cells_setNext_ne hxa]

/-- Of the message, only the ends of the list and the shortcut of that code change. -/
theorem aaaAddAVPToMessage_message {h h' : Heap} {m m' : Message} {a : Nat} {pos : Option Nat}
    {c : Avp} (hcell : h.cells[a]? = some c)
    (hadd : aaaAddAVPToMessage h m (some a) pos = .ok (.errSuccess, h', m')) :
    ∃ hd tl, m' = ({ m with head := hd, tail := tl } : Message).setShortcut c.code (some a) := by
  cases pos with
  | none =>
      simp only [aaaAddAVPToMessage, hcell] at hadd
      split at hadd
      all_goals
        simp only [Res.ok.injEq, Prod.mk.injEq] at hadd
        obtain ⟨-, -, rfl⟩ := hadd
        exact ⟨_, _, rfl⟩
  | some pos =>
      simp only [aaaAddAVPToMessage, hcell] at hadd
      split at hadd
      · exact absurd hadd (by simp)
      · exact absurd hadd (by simp)
      · split at hadd
        all_goals
          simp only [Res.ok.injEq, Prod.mk.injEq] at hadd
          obtain ⟨-, -, rfl⟩ := hadd
          exact ⟨_, _, rfl⟩

/-- A call that is given a fresh AVP inserts it, or refuses and inserts nothing. -/
theorem aaaAddAVPToMessage_insert {h h' : Heap} {m m' : Message} {a : Nat} {pos : Option Nat}
    {rc : ReturnCode} {ids : List Nat} (hl : AvpList h m ids) (hx : a ∉ ids)
    (hadd : aaaAddAVPToMessage h m (some a) pos = .ok (rc, h', m')) :
    AvpList h' m' (insertAvp a pos ids)
      ∧ (rc = .errSuccess ↔ ∀ q ∈ pos, q ∈ ids) := by
  have ha := (aaaAddAVPToMessage_frame hadd).alloc
  cases pos with
  | none =>
      obtain ⟨h₁, m₁, heq, hlk⟩ := add_front hl ha hx
      rw [heq] at hadd
      simp only [Res.ok.injEq, Prod.mk.injEq] at hadd
      obtain ⟨rfl, rfl, rfl⟩ := hadd
      exact ⟨hlk.list, by simp⟩
  | some pos =>
      by_cases hp : pos ∈ ids
      · obtain ⟨as, bs, rfl, hnp⟩ := List.eq_append_cons_of_mem hp
        obtain ⟨h₁, m₁, heq, hlk⟩ := add_after hl ha hx
        rw [heq] at hadd
        simp only [Res.ok.injEq, Prod.mk.injEq] at hadd
        obtain ⟨rfl, rfl, rfl⟩ := hadd
        rw [insertAvp, insertAfter_split hnp]
        exact ⟨hlk.list, by simp⟩
      -- the list ends, so the search does, and it answers no
      · have hseek := hl.chain.fwd.seek_eq (hl.chain.length_le hl.alloc) pos
        cases hcell : h.cells[a]? with
        | none => simp [aaaAddAVPToMessage, hcell] at hadd
        | some cell =>
            simp only [aaaAddAVPToMessage, hcell, hseek, hp, decide_false, Res.ok.injEq,
              Prod.mk.injEq] at hadd
            obtain ⟨rfl, rfl, rfl⟩ := hadd
            rw [insertAvp, insertAfter_of_notMem hp]
            exact ⟨hl, by simp [hp]⟩

end Disc.Msg
