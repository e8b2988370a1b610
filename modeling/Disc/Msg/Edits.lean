import Mathlib.Data.List.TakeWhile
import Disc.Msg.Answer

/-!
# Editing the AVP list

`AAARemoveAVPFromMessage` is the second operation on the AVP list, next to
`AAAAddAVPToMessage`. Whatever sequence of the two is applied to a message, the
list behaves as a sequence: `applyEdits` says what each call does to it, and
`AAAFindMatchingAVP` reads it from any of its elements in either direction.

The shortcuts of the message do not follow the list that closely. Adding an AVP
points the shortcut of its code at it, removing one clears it, and with two AVPs
of one code in the list the second half of that is wrong.
-/

namespace Disc.Msg

open Disc.Lib

/-- `AAARemoveAVPFromMessage`: unlink `avp`, which has to be in the list. -/
def aaaRemoveAVPFromMessage (h : Heap) (m : Message) (avp : Option Nat) :
    Res (ReturnCode × Heap × Message) :=
  match avp with
  | none => .ok (.errParameter, h, m)
  | some a =>
      match seek h.next h.size m.head a with
      | none => .diverge
      | some false => .ok (.errParameter, h, m)
      | some true => do
          let cell ← Res.ofAccess h.cells[a]?
          -- either end of the list has no cell on its far side, only an end pointer
          let (h, m) ← if m.head = some a then .ok (h, { m with head := h.next a })
            else do
              let p ← Res.ofAccess (h.prev a)
              .ok (h.setNext p (h.next a), m)
          let (h, m) := match h.next a with
            | some n => (h.setPrev n (h.prev a), m)
            | none => (h, { m with tail := h.prev a })
          .ok (.errSuccess, (h.setNext a none).setPrev a none, m.setShortcut cell.code none)

/-- A call on the list of one message. -/
inductive Edit where
  | add (avp position : Option Nat)
  | remove (avp : Option Nat)
deriving Repr, DecidableEq

/-- Make the call. -/
def Edit.run (h : Heap) (m : Message) : Edit → Res (ReturnCode × Heap × Message)
  | .add avp position => aaaAddAVPToMessage h m avp position
  | .remove avp => aaaRemoveAVPFromMessage h m avp

/-- Make the calls one after the other. -/
def runEdits (h : Heap) (m : Message) : List Edit → Res (Heap × Message)
  | [] => .ok (h, m)
  | e :: es => do
      let (_, h, m) ← e.run h m
      runEdits h m es

/-- What a call does to the sequence. -/
def Edit.apply (xs : List Nat) : Edit → List Nat
  | .add (some a) pos => insertAvp a pos xs
  | .add none _ => xs
  | .remove (some a) => xs.erase a
  | .remove none => xs

/-- What the calls do to the sequence. -/
def applyEdits (xs : List Nat) (es : List Edit) : List Nat := es.foldl Edit.apply xs

/-- An AVP handed to `AAAAddAVPToMessage` exists and is not in the list; the position is any AVP. -/
def Edit.Fresh (n : Nat) (xs : List Nat) : Edit → Prop
  | .add (some a) _ => a < n ∧ a ∉ xs
  | _ => True

/-- Every AVP added is fresh when it is. -/
def FreshEdits (n : Nat) : List Nat → List Edit → Prop
  | _, [] => True
  | xs, e :: es => e.Fresh n xs ∧ FreshEdits n (e.apply xs) es

/-- Whether the call succeeds on the sequence. -/
def Edit.Succeeds (xs : List Nat) : Edit → Prop
  | .add (some _) pos => ∀ q ∈ pos, q ∈ xs
  | .remove (some a) => a ∈ xs
  | _ => False

/-! ## Removal -/

section Remove

variable {h : Heap} {m : Message} {ids : List Nat}

/-- Links that lead past `a` and end pointers that do the same leave the rest of the list. -/
theorem AvpList.unlink {h' : Heap} {m' : Message} {as bs : List Nat} {a : Nat}
    (hl : AvpList h m (as ++ a :: bs)) (hsize : h'.size = h.size)
    (hnext : ∀ q, a ≠ q → h'.next q = if q ∈ as.getLast? then bs.head? else h.next q)
    (hprev : ∀ q, a ≠ q → h'.prev q = if q ∈ bs.head? then as.getLast? else h.prev q)
    (hhead : m'.head = if as = [] then bs.head? else m.head)
    (htail : m'.tail = if bs = [] then as.getLast? else m.tail) : AvpList h' m' (as ++ bs) := by
  have hne : ∀ q ∈ as ++ bs, a ≠ q := by
    intro q hq he
    have hcut := List.nodup_append.mp hl.chain.nodup
    rcases List.mem_append.mp hq with hq | hq
    · exact hcut.2.2 q hq a (by simp) he.symm
    · exact (List.nodup_cons.mp hcut.2.1).1 (he ▸ hq)
  refine ⟨hl.chain.unlink ?_ ?_ ?_ ?_ hhead htail, ?_⟩
  · intro l hlast
    rw [hnext l (hne l (List.mem_append_left _ (List.mem_of_mem_getLast? hlast))), if_pos hlast]
  · intro q hq hlast
    rw [hnext q (hne q hq), if_neg hlast]
  · intro r hhd
    rw [hprev r (hne r (List.mem_append_right _ (List.mem_of_mem_head? hhd))), if_pos hhd]
  · intro q hq hhd
    rw [hprev q (hne q hq), if_neg hhd]
  · intro x hx
    rw [hsize]
    refine hl.alloc x ?_
    rcases List.mem_append.mp hx with hx | hx
    · exact List.mem_append_left _ hx
    · exact List.mem_append_right _ (List.mem_cons_of_mem _ hx)

/-- The message whose end pointers were moved and whose shortcut was cleared. -/
theorem AvpList.removed {h' : Heap} {as bs : List Nat} {a : Nat} {hd tl : Option Nat} {k : UInt32}
    (hl : AvpList h m (as ++ a :: bs)) (hsize : h'.size = h.size) (hbody : h'.body = h.body)
    (hnext : ∀ q, a ≠ q → h'.next q = if q ∈ as.getLast? then bs.head? else h.next q)
    (hprev : ∀ q, a ≠ q → h'.prev q = if q ∈ bs.head? then as.getLast? else h.prev q)
    (hhead : hd = if as = [] then bs.head? else m.head)
    (htail : tl = if bs = [] then as.getLast? else m.tail) :
    Linked h h' m (({ m with head := hd, tail := tl } : Message).setShortcut k none) (as ++ bs) := by
  refine ⟨hl.unlink hsize hnext hprev ?_ ?_, hbody, hsize, ?_⟩
  · rw [setShortcut_head]
    exact hhead
  · rw [setShortcut_tail]
    exact htail
  · rw [setShortcut_header]
    rfl

/-- Removing an element of the list takes it out of the sequence, wherever it stands. -/
theorem remove_mem {as bs : List Nat} {a : Nat} (hl : AvpList h m (as ++ a :: bs)) {c : Avp}
    (hcell : h.cells[a]? = some c) :
    ∃ h' m' hd tl, aaaRemoveAVPFromMessage h m (some a) = .ok (.errSuccess, h', m')
      ∧ Linked h h' m m' (as ++ bs)
      ∧ m' = ({ m with head := hd, tail := tl } : Message).setShortcut c.code none := by
  have ha : a < h.size := hl.alloc a (by simp)
  have hseek := hl.chain.fwd.seek_eq (hl.chain.length_le hl.alloc) a
  rw [decide_eq_true (by simp)] at hseek
  obtain ⟨hn, hp⟩ := hl.chain.neighbours
  have hhead := hl.chain.fwd.head
  have hcut := List.nodup_append.mp hl.chain.nodup
  simp only [aaaRemoveAVPFromMessage, hseek, hcell, Res.ofAccess_some, Res.ok_bind]
  -- which of the two ends `a` is at decides which pointer skips it
  cases as using List.reverseRecOn with
  | nil =>
      rw [if_pos (by simpa using hhead)]
      simp only [hn, hp]
      cases bs with
      | nil =>
          refine ⟨_, _, _, _, rfl, hl.removed (by simp) (by simp) ?_ ?_ (by simp) (by simp), rfl⟩
          · intro q hq
            simp [Heap.next_setNext, ha, hq]
          · intro q hq
            simp [Heap.prev_setPrev, ha, hq]
      | cons n bs =>
          have hna : n < h.size := hl.alloc n (by simp)
          refine ⟨_, _, _, _, rfl, hl.removed (by simp) (by simp) ?_ ?_ (by simp) (by simp), rfl⟩
          · intro q hq
            simp [Heap.next_setNext, ha, hq]
          · intro q hq
            simp [Heap.prev_setPrev, ha, hna, hq]
  | append_singleton as l =>
      have hla : l < h.size := hl.alloc l (by simp)
      have hlne : l ≠ a := hcut.2.2 l (by simp) a (by simp)
      have hnot : m.head ≠ some a := by
        intro he
        rw [hhead] at he
        have hmem : a ∈ as ++ [l] := by
          cases as with
          | nil => simpa using he.symm
          | cons x as => exact List.mem_cons.mpr (Or.inl (by simpa using he.symm))
        exact hcut.2.2 a hmem a (by simp) rfl
      have hprev : h.prev a = some l := by rw [hp]; simp
      rw [if_neg hnot, hprev]
      simp only [Res.ofAccess_some, Res.ok_bind, hn, hprev, Heap.prev_setNext,
        Heap.next_setNext h hla, if_neg hlne]
      cases bs with
      | nil =>
          refine ⟨_, _, _, _, rfl, hl.removed (by simp) (by simp) ?_ ?_ (by simp) (by simp), rfl⟩
          · intro q hq
            simp [Heap.next_setNext, ha, hla, hq]
          · intro q hq
            simp [Heap.prev_setPrev, ha, hq]
      | cons n bs =>
          have hna : n < h.size := hl.alloc n (by simp)
          refine ⟨_, _, _, _, rfl, hl.removed (by simp) (by simp) ?_ ?_ (by simp) (by simp), rfl⟩
          · intro q hq
            simp [Heap.next_setNext, ha, hla, hq]
          · intro q hq
            simp [Heap.prev_setPrev, ha, hna, hq]

/-- An AVP that is not in the list is refused. -/
theorem remove_notMem (hl : AvpList h m ids) {a : Nat} (ha : a ∉ ids) :
    aaaRemoveAVPFromMessage h m (some a) = .ok (.errParameter, h, m) := by
  have hseek := hl.chain.fwd.seek_eq (hl.chain.length_le hl.alloc) a
  rw [decide_eq_false ha] at hseek
  simp only [aaaRemoveAVPFromMessage, hseek]

end Remove

/-! ## Sequences of calls -/

section Edits

variable {h : Heap} {m : Message} {xs : List Nat}

/-- What one call does, with its return code. -/
theorem Edit.run_spec (hl : AvpList h m xs) {e : Edit} (hf : e.Fresh h.size xs) :
    ∃ rc h' m', e.run h m = .ok (rc, h', m') ∧ Linked h h' m m' (e.apply xs)
      ∧ (rc = .errSuccess ↔ e.Succeeds xs)
      ∧ (rc ≠ .errSuccess → h' = h ∧ m' = m) := by
  have hsame : Linked h h m m xs := ⟨hl, rfl, rfl, rfl⟩
  cases e with
  | add avp pos =>
      cases avp with
      | none => exact ⟨_, h, m, rfl, hsame, by simp [Edit.Succeeds], fun _ => ⟨rfl, rfl⟩⟩
      | some a =>
          obtain ⟨ha, hx⟩ : a < h.size ∧ a ∉ xs := hf
          have hrun : ∃ rc h' m', aaaAddAVPToMessage h m (some a) pos = .ok (rc, h', m')
              ∧ h'.body = h.body ∧ m'.header = m.header := by
            cases pos with
            | none =>
                obtain ⟨h', m', heq, hlk⟩ := add_front hl ha hx
                exact ⟨_, h', m', heq, hlk.body, hlk.header⟩
            | some pos =>
                by_cases hp : pos ∈ xs
                · obtain ⟨as, bs, rfl⟩ := List.append_of_mem hp
                  obtain ⟨h', m', heq, hlk⟩ := add_after hl ha hx
                  exact ⟨_, h', m', heq, hlk.body, hlk.header⟩
                · have hseek := hl.chain.fwd.seek_eq (hl.chain.length_le hl.alloc) pos
                  have hcell : h.cells[a]? = some (h.cells[a]) := List.getElem?_eq_getElem ha
                  refine ⟨.errParameter, h, m, ?_, rfl, rfl⟩
                  simp only [aaaAddAVPToMessage, hcell, hseek, hp, decide_false]
          obtain ⟨rc, h', m', heq, hbody, hhdr⟩ := hrun
          obtain ⟨hlist, hrc⟩ := aaaAddAVPToMessage_insert hl hx heq
          have hframe := aaaAddAVPToMessage_frame heq
          exact ⟨rc, h', m', heq, ⟨hlist, hbody, hframe.size, hhdr⟩, hrc, hframe.refused⟩
  | remove avp =>
      cases avp with
      | none => exact ⟨_, h, m, rfl, hsame, by simp [Edit.Succeeds], fun _ => ⟨rfl, rfl⟩⟩
      | some a =>
          by_cases ha : a ∈ xs
          · have hcell : h.cells[a]? = some (h.cells.get ⟨a, hl.alloc a ha⟩) :=
              List.getElem?_eq_getElem _
            obtain ⟨as, bs, rfl, hnot⟩ := List.eq_append_cons_of_mem ha
            obtain ⟨h', m', -, -, heq, hlk, -⟩ := remove_mem hl hcell
            refine ⟨_, h', m', heq, ?_, by simp [Edit.Succeeds], fun hne => absurd rfl hne⟩
            rw [Edit.apply, List.erase_append_right _ hnot, List.erase_cons_head]
            exact hlk
          · refine ⟨_, h, m, remove_notMem hl ha, ?_, by simp [Edit.Succeeds, ha],
              fun _ => ⟨rfl, rfl⟩⟩
            rw [Edit.apply, List.erase_of_not_mem ha]
            exact hsame

/-- A call the sequence does not allow leaves it alone. -/
theorem Edit.apply_of_not_succeeds {e : Edit} (hn : ¬ e.Succeeds xs) : e.apply xs = xs := by
  cases e with
  | add avp pos =>
      cases avp with
      | none => rfl
      | some a =>
          cases pos with
          | none => exact absurd (fun q hq => absurd hq (by simp)) hn
          | some pos =>
              refine insertAfter_of_notMem fun hp => hn fun q hq => ?_
              obtain rfl : pos = q := by simpa using hq
              exact hp
  | remove avp =>
      cases avp with
      | none => rfl
      | some a => exact List.erase_of_not_mem hn

/-- A sequence of calls does to the list what it says it does. -/
theorem runEdits_spec (hl : AvpList h m xs) {es : List Edit} (hf : FreshEdits h.size xs es) :
    ∃ h' m', runEdits h m es = .ok (h', m') ∧ Linked h h' m m' (applyEdits xs es) := by
  induction es generalizing h m xs with
  | nil => exact ⟨h, m, rfl, hl, rfl, rfl, rfl⟩
  | cons e es ih =>
      obtain ⟨hfe, hfs⟩ := hf
      obtain ⟨rc, h₁, m₁, hrun, hlk, -, -⟩ := e.run_spec hl hfe
      rw [← hlk.size] at hfs
      obtain ⟨h', m', hruns, hlks⟩ := ih hlk.list hfs
      refine ⟨h', m', ?_, hlks.list, hlks.body.trans hlk.body, hlks.size.trans hlk.size,
        hlks.header.trans hlk.header⟩
      rw [runEdits, hrun, Res.ok_bind]
      exact hruns

end Edits

/-! ## Searching -/

/-- The AVPs a search meets: from `start` on, or from one of the ends. -/
def met (xs : List Nat) (start : Option Nat) (searchType : SearchType) : List Nat :=
  let ys := match searchType with
    | .forward => xs
    | .backward => xs.reverse
  match start with
  | none => ys
  | some s => ys.dropWhile (· ≠ s)

theorem met_notMem {xs : List Nat} {s : Nat} (hs : s ∉ xs) (dir : SearchType) :
    met xs (some s) dir = [] := by
  have hdrop : ∀ {ys : List Nat}, s ∉ ys → ys.dropWhile (· ≠ s) = [] := by
    intro ys hys
    refine List.dropWhile_eq_nil_iff.mpr (fun x hx => ?_)
    have hne : x ≠ s := fun he => hys (he ▸ hx)
    simpa using hne
  cases dir with
  | forward => exact hdrop hs
  | backward => exact hdrop (fun hm => hs (List.mem_reverse.mp hm))

section Find

variable {h : Heap} {m : Message} {xs : List Nat} {code vendorId : UInt32}

/-- **`AAAFindMatchingAVP` returns the first match met.** -/
theorem aaaFindMatchingAVP_eq (hl : AvpList h m xs) (start : Option Nat) (dir : SearchType) :
    aaaFindMatchingAVP h m start code vendorId dir
      = .ok ((met xs start dir).find? (h.isAvp code vendorId)) := by
  have hlen : xs.length ≤ h.size := hl.chain.length_le hl.alloc
  have hrev : ∀ x ∈ xs.reverse, x < h.size := fun x hx => hl.alloc x (List.mem_reverse.mp hx)
  cases start with
  | none =>
      cases dir with
      | forward => exact searchAvp_eq hl.chain.fwd hl.alloc hlen
      | backward => exact searchAvp_eq hl.chain.bwd hrev (by simpa using hlen)
  | some s =>
      have hseek := hl.chain.fwd.seek_eq hlen s
      by_cases hs : s ∈ xs
      · rw [decide_eq_true hs] at hseek
        simp only [aaaFindMatchingAVP, hseek]
        -- the part of the list from `s` on is a chain of its own, in either direction
        have hsub : ∀ {ys : List Nat}, ys.length ≤ h.size → (∀ x ∈ ys, x < h.size) →
            (ys.dropWhile (· ≠ s)).length ≤ h.size ∧ ∀ x ∈ ys.dropWhile (· ≠ s), x < h.size :=
          fun hle hall => ⟨Nat.le_trans (List.dropWhile_sublist _).length_le hle,
            fun x hx => hall x ((List.dropWhile_sublist _).subset hx)⟩
        cases dir with
        | forward =>
            obtain ⟨hle, hall⟩ := hsub hlen hl.alloc
            exact searchAvp_eq (hl.chain.fwd.enter hs) hall hle
        | backward =>
            obtain ⟨hle, hall⟩ := hsub (by simpa using hlen) hrev
            exact searchAvp_eq (hl.chain.bwd.enter (List.mem_reverse.mpr hs)) hall hle
      · rw [decide_eq_false hs] at hseek
        simp only [aaaFindMatchingAVP, hseek, met_notMem hs, List.find?_nil]

end Find

/-! ## The list as a sequence -/

/-- The list of `m` is the sequence `xs`, to every reader and to every further call. -/
structure AsSequence (h : Heap) (m : Message) (xs : List Nat) : Prop where
  nodup : xs.Nodup
  forward : walk h.next h.size m.head = some xs
  backward : walk h.prev h.size m.tail = some xs.reverse
  /-- A call returns, says whether the sequence allows it, and leaves everything alone if not. -/
  call : ∀ e : Edit, e.Fresh h.size xs → ∃ rc h' m', e.run h m = .ok (rc, h', m')
    ∧ (rc = .errSuccess ↔ e.Succeeds xs) ∧ (rc ≠ .errSuccess → h' = h ∧ m' = m)
  /-- A search returns the first match it meets, and nothing exactly when it meets none. -/
  found : ∀ start code vendorId dir, ∃ r, aaaFindMatchingAVP h m start code vendorId dir = .ok r
    ∧ r = (met xs start dir).find? (h.isAvp code vendorId)
    ∧ (r = none ↔ (∃ s, start = some s ∧ s ∉ xs)
        ∨ ∀ x ∈ met xs start dir, h.isAvp code vendorId x = false)

theorem AvpList.asSequence {h : Heap} {m : Message} {xs : List Nat} (hl : AvpList h m xs) :
    AsSequence h m xs where
  nodup := hl.chain.nodup
  forward := hl.chain.fwd.walk_eq (hl.chain.length_le hl.alloc)
  backward := hl.chain.bwd.walk_eq (by simpa using hl.chain.length_le hl.alloc)
  call := by
    intro e hf
    obtain ⟨rc, h', m', hrun, -, hrc, hsame⟩ := e.run_spec hl hf
    exact ⟨rc, h', m', hrun, hrc, hsame⟩
  found := by
    intro start code vendorId dir
    refine ⟨_, aaaFindMatchingAVP_eq hl start dir, rfl, ?_⟩
    rw [List.find?_eq_none]
    constructor
    · exact fun hno => Or.inr fun x hx => by simpa using hno x hx
    · rintro (⟨s, rfl, hs⟩ | hno)
      · simp [met_notMem hs]
      · exact fun x hx => by simp [hno x hx]

/--
**The AVP list refines a sequence.**

After any sequence of calls with fresh AVPs the links spell, in both directions, what the
calls make of the sequence they started from; what the AVPs say is as before.
-/
theorem runEdits_refines {h : Heap} {m : Message} {xs : List Nat} (hl : AvpList h m xs)
    (es : List Edit) (hf : FreshEdits h.size xs es) :
    ∃ h' m', runEdits h m es = .ok (h', m') ∧ AsSequence h' m' (applyEdits xs es)
      ∧ h'.body = h.body ∧ m'.header = m.header := by
  obtain ⟨h', m', hrun, hlk⟩ := runEdits_spec hl hf
  exact ⟨h', m', hrun, hlk.list.asSequence, hlk.body, hlk.header⟩

/-- A heap of AVPs with the given codes, not linked yet. -/
def looseAvps (codes : List UInt32) : Heap :=
  ⟨codes.map fun c =>
    { next := none, prev := none, code := c, flags := 0, type := .data, vendorId := 0,
      data := ⟨[0], 0, 1⟩, freeIt := false }⟩

theorem avpList_zero (h : Heap) : AvpList h Message.zero [] :=
  ⟨⟨List.nodup_nil, rfl, rfl⟩, by simp⟩

theorem runEdits_refines_three :
    ∃ h' m', runEdits (looseAvps [263, 264, 263]) Message.zero
        [.add (some 0) none, .add (some 1) (some 0), .add (some 2) (some 7), .add (some 2) none,
          .remove (some 0)] = .ok (h', m')
      ∧ AsSequence h' m' [2, 1] ∧ h'.body = (looseAvps [263, 264, 263]).body
      ∧ m'.header = Message.zero.header :=
  runEdits_refines (avpList_zero _) _
    (by simp [FreshEdits, Edit.Fresh, Edit.apply, insertAvp, insertAfter, looseAvps, Heap.size])

/-! ## The shortcuts -/

/-- The codes of the AVPs a message keeps a shortcut to. -/
def shortcutCodes : List UInt32 := [263, 264, 296, 293, 283, 268, 277]

/-- The shortcut for a code. -/
def Message.shortcut (m : Message) (code : UInt32) : Option Nat :=
  if code = 263 then m.sessionId
  else if code = 264 then m.origHost
  else if code = 296 then m.origRealm
  else if code = 293 then m.destHost
  else if code = 283 then m.destRealm
  else if code = 268 then m.resCode
  else if code = 277 then m.authSesState
  else none

/-- The code of an AVP. -/
def Heap.code (h : Heap) (x : Nat) : Option UInt32 := (h.body x).map Avp.code

/-- Every shortcut is null when no AVP of its code is in the list, and else points to one. -/
def ShortcutsRight (h : Heap) (m : Message) (xs : List Nat) : Prop :=
  ∀ c ∈ shortcutCodes, (m.shortcut c = none ↔ ∀ x ∈ xs, h.code x ≠ some c)
    ∧ ∀ a, m.shortcut c = some a → a ∈ xs ∧ h.code a = some c

/-- A removal, if it is one of an AVP with a shortcut, takes the only AVP of its code. -/
def Edit.Clean (code : Nat → Option UInt32) (xs : List Nat) : Edit → Prop
  | .remove (some a) => a ∈ xs → ∀ c ∈ shortcutCodes, code a = some c →
      ∀ b ∈ xs, code b = some c → b = a
  | _ => True

/-- Every removal does, at its time. -/
def CleanEdits (code : Nat → Option UInt32) : List Nat → List Edit → Prop
  | _, [] => True
  | xs, e :: es => e.Clean code xs ∧ CleanEdits code (e.apply xs) es

theorem shortcut_setShortcut (m : Message) {c : UInt32} (hc : c ∈ shortcutCodes) (c' : UInt32)
    (v : Option Nat) :
    (m.setShortcut c' v).shortcut c = if c' = c then v else m.shortcut c := by
  simp only [shortcutCodes, List.mem_cons, List.not_mem_nil, or_false] at hc
  rw [setShortcut_fields]
  rcases hc with rfl | rfl | rfl | rfl | rfl | rfl | rfl <;> rfl

theorem code_cell {h : Heap} {a : Nat} {c : Avp} (hc : h.cells[a]? = some c) :
    h.code a = some c.code := by
  simp [Heap.code, Heap.body, hc, Avp.body]

section Shortcuts

variable {h h' : Heap} {m m' : Message} {xs : List Nat}

/-- A call that succeeds points the shortcut of its AVP's code at the AVP, or clears it. -/
theorem Edit.run_shortcut (hl : AvpList h m xs) {e : Edit} (hf : e.Fresh h.size xs)
    (hrun : e.run h m = .ok (.errSuccess, h', m')) :
    ∃ a c v, h.code a = some c
      ∧ (∀ k ∈ shortcutCodes, m'.shortcut k = if c = k then v else m.shortcut k)
      ∧ ((v = some a ∧ ∀ x, x ∈ e.apply xs ↔ x = a ∨ x ∈ xs)
        ∨ (v = none ∧ e = .remove (some a) ∧ a ∈ xs)) := by
  cases e with
  | add avp pos =>
      cases avp with
      | none => exact absurd hrun (by simp [Edit.run, aaaAddAVPToMessage])
      | some a =>
          obtain ⟨ha, hx⟩ : a < h.size ∧ a ∉ xs := hf
          have hcell : h.cells[a]? = some (h.cells[a]) := List.getElem?_eq_getElem ha
          obtain ⟨hd, tl, rfl⟩ := aaaAddAVPToMessage_message hcell hrun
          obtain ⟨-, hok⟩ := aaaAddAVPToMessage_insert hl hx hrun
          refine ⟨a, _, some a, code_cell hcell, fun k hk => ?_,
            Or.inl ⟨rfl, mem_insertAvp (hok.mp rfl)⟩⟩
          rw [shortcut_setShortcut _ hk]
          rfl
  | remove avp =>
      cases avp with
      | none => exact absurd hrun (by simp [Edit.run, aaaRemoveAVPFromMessage])
      | some a =>
          by_cases ha : a ∈ xs
          · have hcell : h.cells[a]? = some (h.cells.get ⟨a, hl.alloc a ha⟩) :=
              List.getElem?_eq_getElem _
            obtain ⟨as, bs, rfl⟩ := List.append_of_mem ha
            obtain ⟨h₁, m₁, hd, tl, heq, -, hm⟩ := remove_mem hl hcell
            rw [Edit.run, heq] at hrun
            simp only [Res.ok.injEq, Prod.mk.injEq, true_and] at hrun
            obtain ⟨rfl, rfl⟩ := hrun
            refine ⟨a, _, none, code_cell hcell, fun k hk => ?_, Or.inr ⟨rfl, rfl, ha⟩⟩
            rw [hm, shortcut_setShortcut _ hk]
            rfl
          · rw [Edit.run, remove_notMem hl ha] at hrun
            exact absurd hrun (by simp)

/-- The shortcut of the code of an AVP that was added points to it, and the others stay. -/
theorem ShortcutsRight.add (hr : ShortcutsRight h m xs) {ys : List Nat} {a : Nat} {c : UInt32}
    (hcode : h'.code = h.code) (hca : h.code a = some c)
    (hshort : ∀ k ∈ shortcutCodes, m'.shortcut k = if c = k then some a else m.shortcut k)
    (hmem : ∀ x, x ∈ ys ↔ x = a ∨ x ∈ xs) : ShortcutsRight h' m' ys := by
  intro k hk
  rw [hcode, hshort k hk]
  by_cases hck : c = k
  · subst hck
    rw [if_pos rfl]
    refine ⟨⟨fun he => absurd he (by simp), fun hno => ?_⟩, fun b hb => ?_⟩
    · exact absurd hca (hno a ((hmem a).mpr (Or.inl rfl)))
    · obtain rfl := Option.some.inj hb
      exact ⟨(hmem a).mpr (Or.inl rfl), hca⟩
  · rw [if_neg hck]
    have hak : h.code a ≠ some k := by rw [hca]; simpa using hck
    obtain ⟨hnone, hsome⟩ := hr k hk
    refine ⟨hnone.trans ⟨fun hno x hx => ?_, fun hno x hx => ?_⟩, fun b hb => ?_⟩
    · rcases (hmem x).mp hx with rfl | hx
      · exact hak
      · exact hno x hx
    · exact hno x ((hmem x).mpr (Or.inr hx))
    · exact ⟨(hmem b).mpr (Or.inr (hsome b hb).1), (hsome b hb).2⟩

/-- The shortcut of the code of an AVP that was removed is null, which may be too little. -/
theorem ShortcutsRight.remove_iff (hr : ShortcutsRight h m xs) {ys : List Nat} {a : Nat}
    {c : UInt32} (hcode : h'.code = h.code) (hca : h.code a = some c)
    (hshort : ∀ k ∈ shortcutCodes, m'.shortcut k = if c = k then none else m.shortcut k)
    (hmem : ∀ x, x ∈ ys ↔ x ≠ a ∧ x ∈ xs) :
    ShortcutsRight h' m' ys ↔ (c ∈ shortcutCodes → ∀ b ∈ xs, h.code b = some c → b = a) := by
  constructor
  · intro hright hk b hb hbk
    by_contra hne
    have hnone := (hright c hk).1.mp (by rw [hshort c hk, if_pos rfl]) b ((hmem b).mpr ⟨hne, hb⟩)
    rw [hcode] at hnone
    exact hnone hbk
  · intro hclean k hk
    rw [hcode, hshort k hk]
    by_cases hck : c = k
    · subst hck
      rw [if_pos rfl]
      refine ⟨⟨fun _ x hx hxc => ?_, fun _ => rfl⟩, fun b hb => absurd hb (by simp)⟩
      exact ((hmem x).mp hx).1 (hclean hk x ((hmem x).mp hx).2 hxc)
    · rw [if_neg hck]
      have hak : h.code a ≠ some k := by rw [hca]; simpa using hck
      obtain ⟨hnone, hsome⟩ := hr k hk
      refine ⟨hnone.trans ⟨fun hno x hx => hno x ((hmem x).mp hx).2, fun hno x hx => ?_⟩,
        fun b hb => ?_⟩
      · by_cases hxa : x = a
        · exact hxa ▸ hak
        · exact hno x ((hmem x).mpr ⟨hxa, hx⟩)
      · have hba : b ≠ a := fun he => hak (he ▸ (hsome b hb).2)
        exact ⟨(hmem b).mpr ⟨hba, (hsome b hb).1⟩, (hsome b hb).2⟩

theorem Linked.code {ys : List Nat} (hlk : Linked h h' m m' ys) : h'.code = h.code := by
  funext x
  rw [Heap.code, hlk.body, Heap.code]

/-- A call that takes nothing out of the sequence is clean. -/
theorem Edit.clean_of_subset (hl : AvpList h m xs) {e : Edit} (hsub : ∀ x ∈ xs, x ∈ e.apply xs) :
    e.Clean h.code xs := by
  cases e with
  | add avp pos => trivial
  | remove avp =>
      cases avp with
      | none => trivial
      | some b =>
          intro hb
          have hgone := hsub b hb
          rw [Edit.apply, hl.chain.nodup.mem_erase_iff] at hgone
          exact absurd rfl hgone.1

/-- **One call keeps the shortcuts right exactly when it is clean.** -/
theorem Edit.shortcutsRight_iff (hl : AvpList h m xs) (hr : ShortcutsRight h m xs) {e : Edit}
    (hf : e.Fresh h.size xs) {rc : ReturnCode} (hrun : e.run h m = .ok (rc, h', m')) :
    ShortcutsRight h' m' (e.apply xs) ↔ e.Clean h.code xs := by
  obtain ⟨rc', h₁, m₁, hrun', hlk, hrc, hsame⟩ := e.run_spec hl hf
  rw [hrun] at hrun'
  simp only [Res.ok.injEq, Prod.mk.injEq] at hrun'
  obtain ⟨rfl, rfl, rfl⟩ := hrun'
  by_cases hok : rc = .errSuccess
  · subst hok
    obtain ⟨a, c, v, hca, hshort, hcase⟩ := e.run_shortcut hl hf hrun
    rcases hcase with ⟨rfl, hmem⟩ | ⟨rfl, rfl, ha⟩
    · have hclean := e.clean_of_subset hl fun x hx => (hmem x).mpr (Or.inr hx)
      exact iff_of_true (hr.add hlk.code hca hshort hmem) hclean
    · rw [Edit.apply, hr.remove_iff hlk.code hca hshort fun x => hl.chain.nodup.mem_erase_iff]
      constructor
      · intro honly _ k hk hak
        obtain rfl : c = k := by rw [hca] at hak; exact Option.some.inj hak
        exact honly hk
      · exact fun hclean hk => hclean ha c hk hca
  -- a call that fails changes neither the list nor the message
  · obtain ⟨rfl, rfl⟩ := hsame hok
    have heq : e.apply xs = xs := e.apply_of_not_succeeds fun hs => hok (hrc.mpr hs)
    have hclean := e.clean_of_subset hl fun x hx => heq.symm ▸ hx
    rw [heq]
    exact iff_of_true hr hclean

/--
**The shortcuts stay right along a sequence of calls exactly when every removal is clean.**

`AAARemoveAVPFromMessage` clears the shortcut of the code of the AVP it takes out, whether or not
the shortcut points to that AVP and whether or not another AVP of that code stays in the list.
-/
theorem shortcuts_right_iff_clean (hl : AvpList h m xs) (hr : ShortcutsRight h m xs)
    (es : List Edit) (hf : FreshEdits h.size xs es) :
    (∀ ps qs, es = ps ++ qs → ∃ h' m', runEdits h m ps = .ok (h', m')
        ∧ ShortcutsRight h' m' (applyEdits xs ps))
      ↔ CleanEdits h.code xs es := by
  induction es generalizing h m xs with
  | nil =>
      refine iff_of_true (fun ps qs he => ?_) trivial
      obtain ⟨rfl, rfl⟩ := List.append_eq_nil_iff.mp he.symm
      exact ⟨h, m, rfl, hr⟩
  | cons e es ih =>
      obtain ⟨hfe, hfs⟩ := hf
      obtain ⟨rc, h₁, m₁, hrun, hlk, -, -⟩ := e.run_spec hl hfe
      rw [← hlk.size] at hfs
      have hstep := e.shortcutsRight_iff hl hr hfe hrun
      have hruns : ∀ ps, runEdits h m (e :: ps) = runEdits h₁ m₁ ps := by
        intro ps
        rw [runEdits, hrun, Res.ok_bind]
      rw [CleanEdits, ← hstep]
      constructor
      · intro hall
        -- the state after the first call is the end of a run of length one
        obtain ⟨h₂, m₂, hone, hr₁⟩ := hall [e] es rfl
        rw [hruns] at hone
        simp only [runEdits, Res.ok.injEq, Prod.mk.injEq] at hone
        obtain ⟨rfl, rfl⟩ := hone
        refine ⟨hr₁, hlk.code ▸ (ih hlk.list hr₁ hfs).mp fun ps qs he => ?_⟩
        obtain ⟨h', m', hps, hright⟩ := hall (e :: ps) qs (by rw [he, List.cons_append])
        exact ⟨h', m', hruns ps ▸ hps, hright⟩
      · rintro ⟨hr₁, hclean⟩ ps qs he
        cases ps with
        | nil => exact ⟨h, m, rfl, hr⟩
        | cons e' ps =>
            obtain ⟨rfl, rfl⟩ := List.cons_eq_cons.mp he
            rw [hruns]
            exact (ih hlk.list hr₁ hfs).mpr (hlk.code.symm ▸ hclean) ps qs rfl

end Shortcuts

theorem shortcutsRight_zero (h : Heap) : ShortcutsRight h Message.zero [] := by
  intro c _
  have hnone : Message.zero.shortcut c = none := by
    unfold Message.shortcut
    split_ifs <;> rfl
  simp [hnone]

/-- Two AVPs are added, and the second one is removed again. -/
def twoThenOne : List Edit := [.add (some 0) none, .add (some 1) (some 0), .remove (some 1)]

theorem shortcuts_right_iff_clean_two :
    (∀ ps qs, twoThenOne = ps ++ qs →
        ∃ h' m', runEdits (looseAvps [263, 264]) Message.zero ps = .ok (h', m')
          ∧ ShortcutsRight h' m' (applyEdits [] ps))
      ↔ CleanEdits (looseAvps [263, 264]).code [] twoThenOne :=
  shortcuts_right_iff_clean (avpList_zero _) (shortcutsRight_zero _) _
    (by simp [twoThenOne, FreshEdits, Edit.Fresh, Edit.apply, insertAvp, looseAvps, Heap.size])

/-- Of two Session-Ids, the one that stays in the list has no shortcut any more. -/
theorem shortcut_lost_with_two :
    ∃ h' m', runEdits (looseAvps [263, 263]) Message.zero twoThenOne = .ok (h', m')
      ∧ walk h'.next h'.size m'.head = some [0] ∧ h'.code 0 = some 263 ∧ m'.sessionId = none
      ∧ ¬ ShortcutsRight h' m' [0] := by
  refine ⟨_, _, rfl, rfl, rfl, rfl, fun hright => ?_⟩
  exact absurd rfl ((hright 263 (by simp [shortcutCodes])).1.mp rfl 0 (by simp))

end Disc.Msg
