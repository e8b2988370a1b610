import Mathlib.Data.List.Forall2
import Disc.Msg.Avp

/-!
# The routing table

`route.c`. The configuration names the peers of the node, and for a realm the peers its
requests may go to. `add_route` keeps one entry for each realm, with the list of its peers;
`route_dest` takes the first entry whose realm, a pattern, matches.

Entries and list nodes are cells that point to each other. `LIST_APPEND` walks to the last
cell of a list and makes it point at the new one, and `add_route` does so with the entry
whether it is new or was found in the table. Appending a cell that is in the list already
closes a circle: the last cell points back at it and the list has no end any more.

`Conf` is what the table is for: the realms in the order they were first named, each with
its peers. The table is what `Conf` says up to the first call that names a known realm.
-/

namespace Disc.Server

open Disc.Lib Disc.Msg

/-! ## The code -/

/-- `tolower`, in the locale every program starts in. -/
def tolower (c : UInt8) : UInt8 := if 65 ≤ c ∧ c ≤ 90 then c + 32 else c

/-- `strncasecmp`, on two strings that end in a zero byte. -/
def strncasecmp : List UInt8 → List UInt8 → Nat → Int
  | _, _, 0 => 0
  | s, t, n + 1 =>
      if tolower (s.headD 0) ≠ tolower (t.headD 0) then
        (tolower (s.headD 0)).toNat - (tolower (t.headD 0)).toNat
      else if s.headD 0 = 0 then 0
      else strncasecmp s.tail t.tail n

/-- Two bytes that differ make a comparison come out different. -/
theorem strncasecmp_ne {s t : List UInt8} {n : Nat}
    (h : tolower (s.headD 0) ≠ tolower (t.headD 0)) : strncasecmp s t (n + 1) ≠ 0 := by
  rw [strncasecmp, if_pos h]
  intro h0
  exact h (UInt8.toNat_inj.mp (by omega))

/-- A comparison with a literal holds if the text starts with it, whatever the letters' case. -/
theorem strncasecmp_literal {s t : List UInt8} (ht : 0 ∉ t.map tolower) :
    strncasecmp s t t.length = 0 ↔ (s.take t.length).map tolower = t.map tolower := by
  induction t generalizing s with
  | nil => simp [strncasecmp]
  | cons c t ih =>
      have hc : tolower c ≠ 0 := fun h => ht (by simp [h])
      have ht' : 0 ∉ t.map tolower := fun h => ht (List.mem_cons_of_mem _ h)
      rw [List.length_cons]
      cases s with
      | nil => exact iff_of_false (strncasecmp_ne (fun h => hc h.symm)) (by simp)
      | cons a s =>
          by_cases hac : tolower a = tolower c
          · have ha : a ≠ 0 := fun h => hc (by rw [← hac, h]; rfl)
            rw [strncasecmp]
            simp [hac, ha, ih ht']
          · exact iff_of_false (strncasecmp_ne hac) (by simp [hac])

/-- The text starts with the literal, whatever the letters' case. -/
def spells (lit text : List UInt8) : Prop := (text.take lit.length).map tolower = lit

instance (lit text : List UInt8) : Decidable (spells lit text) :=
  inferInstanceAs (Decidable (_ = _))

/-- The comparison of two names: first the lengths, then the letters. -/
def sameName (s t : List UInt8) : Bool := s.length = t.length && strncasecmp s t t.length = 0

/-- `struct peer_entry`, as far as routing goes. -/
structure PeerEntry where
  /-- `uri.host`. -/
  host : List UInt8
  fullUri : List UInt8
  /-- `alias`. -/
  aliasName : List UInt8
  peer : Option Nat
deriving Repr, DecidableEq

/-- `struct peer_entry_list`. -/
structure PeerEntryList where
  /-- The peer, by its place in the list of peers. -/
  pe : Nat
  next : Option Nat
deriving Repr, DecidableEq

/-- `struct route_entry`. -/
structure RouteEntry where
  realm : List UInt8
  peerL : Option Nat
  next : Option Nat
deriving Repr, DecidableEq

/-- The globals of `route.c`, `my_aaa_status`, and the cells allocated for the table. -/
structure Routes where
  cfgPeerLst : List PeerEntry
  myAaaStatus : Nat
  routeLst : Option Nat
  /-- Nothing is left of an entry that was freed. -/
  entries : List (Option RouteEntry)
  nodes : List PeerEntryList
deriving Repr, DecidableEq

/-- `AAA_SERVER`. -/
def aaaServer : Nat := 2

/-- `MAX_REALM_LEN`. -/
def maxRealmLen : Nat := 128

/-- The peer a destination names: by its alias, its uri or its host. -/
def findPeer (cfgPeerLst : List PeerEntry) (dst : List UInt8) : Option Nat :=
  cfgPeerLst.findIdx? fun pe =>
    sameName pe.aliasName dst || sameName pe.fullUri dst || sameName pe.host dst

/-- The outcomes of the two `shm_malloc`s of one `add_route`. -/
structure RouteMem where
  entry : Bool
  node : Bool
deriving Repr, DecidableEq

/-- The last cell of a list, as the loop of `LIST_APPEND` finds it. -/
def lastCell (nxt : Nat → Res (Option Nat)) : Nat → Nat → Res Nat
  | 0, _ => .diverge
  | fuel + 1, p => do
      match ← nxt p with
      | none => return p
      | some q => lastCell nxt fuel q

namespace Routes

/-- `*p`, for a route entry. -/
def entry (s : Routes) (p : Nat) : Res RouteEntry := Res.ofAccess (s.entries[p]?.join)

/-- `*p`, for a node of a peer list. -/
def node (s : Routes) (p : Nat) : Res PeerEntryList := Res.ofAccess (s.nodes[p]?)

def setEntry (s : Routes) (p : Nat) (e : Option RouteEntry) : Routes :=
  { s with entries := s.entries.set p e }

def setNode (s : Routes) (p : Nat) (n : PeerEntryList) : Routes :=
  { s with nodes := s.nodes.set p n }

/-- The first entry from `a` on that `test` holds of. -/
def searchEntries (s : Routes) (test : RouteEntry → Bool) : Nat → Option Nat → Res (Option Nat)
  | _, none => .ok none
  | 0, some _ => .diverge
  | fuel + 1, some p => do
      let e ← s.entry p
      if test e then return some p else s.searchEntries test fuel e.next

/-- `LIST_APPEND(re->peer_l, n, pi, next)`. -/
def appendNode (s : Routes) (re n : Nat) : Res Routes := do
  let e ← s.entry re
  match e.peerL with
  | none => return s.setEntry re (some { e with peerL := some n })
  | some p => do
      let t ← lastCell (fun q => (s.node q).bind fun c => .ok c.next) s.nodes.length p
      let c ← s.node t
      return s.setNode t { c with next := some n }

/-- `LIST_APPEND(route_lst, re, ri, next)`. -/
def appendEntry (s : Routes) (re : Nat) : Res Routes :=
  match s.routeLst with
  | none => .ok { s with routeLst := some re }
  | some p => do
      let t ← lastCell (fun q => (s.entry q).bind fun e => .ok e.next) s.entries.length p
      let e ← s.entry t
      return s.setEntry t (some { e with next := some re })

/-- The second half of `add_route`, from the allocation of the node for the peer on. -/
def linkPeer (s : Routes) (mem : RouteMem) (re pe : Nat) : Res (Int × Routes) :=
  if !mem.node then .ok (-1, s.setEntry re none)
  else do
    let n := s.nodes.length
    let s : Routes := { s with nodes := s.nodes ++ [⟨pe, none⟩] }
    let s ← s.appendNode re n
    let s ← s.appendEntry re
    return (0, s)

/-- `add_route`. -/
def addRoute (s : Routes) (mem : RouteMem) (realm dst : List UInt8) : Res (Int × Routes) :=
  if s.myAaaStatus < aaaServer then .ok (-1, s)
  else
    match findPeer s.cfgPeerLst dst with
    | none => .ok (-1, s)
    | some pe => do
        match ← s.searchEntries (fun e => sameName e.realm realm) s.entries.length s.routeLst with
        | some re => s.linkPeer mem re pe
        | none =>
            if !mem.entry then return (-1, s)
            else
              let new : Routes := { s with entries := s.entries ++ [some ⟨realm, none, none⟩] }
              new.linkPeer mem s.entries.length pe

/-- The bytes of a string in C: up to the first zero. -/
def cString (bs : List UInt8) : List UInt8 := bs.takeWhile (· ≠ 0)

/--
`route_dest`: the peer list of the first entry that matches. A length of `2 ^ 31` or more is
negative: it passes the check, and `memcpy` then runs over the end of `realm`.
-/
def routeDest (fnmatch : List UInt8 → List UInt8 → Bool) (s : Routes) (dstRealm : Str) :
    Res (Option Nat) :=
  if maxRealmLen < dstRealm.len ∧ dstRealm.len < 2 ^ 31 then .ok none
  else if 2 ^ 31 ≤ dstRealm.len then .fault
  else do
    let bs ← Res.ofAccess dstRealm.bytes
    match ← s.searchEntries (fun e => fnmatch (cString e.realm) (cString bs)) s.entries.length
      s.routeLst with
    | none => return none
    | some re => do
        let e ← s.entry re
        return e.peerL

end Routes

/-- The lines of the configuration that matter here. -/
inductive Cmd where
  /-- A peer gets added. -/
  | peer (pe : PeerEntry)
  /-- `aaa_status` is set. -/
  | status (v : Nat)
  | route (mem : RouteMem) (realm dst : List UInt8)
deriving Repr, DecidableEq

/-- What one of them returns and does. -/
def Routes.exec (s : Routes) : Cmd → Res (Int × Routes)
  | .peer pe => .ok (0, { s with cfgPeerLst := s.cfgPeerLst ++ [pe] })
  | .status v => .ok (0, { s with myAaaStatus := v })
  | .route mem realm dst => s.addRoute mem realm dst

/-- Before the first route. -/
def Routes.init (cfgPeerLst : List PeerEntry) (myAaaStatus : Nat) : Routes :=
  ⟨cfgPeerLst, myAaaStatus, none, [], []⟩

/-! ## What the table is for -/

/-- The realms that were named, each with its peers. -/
structure Conf where
  cfgPeerLst : List PeerEntry
  myAaaStatus : Nat
  table : List (List UInt8 × List Nat)
deriving Repr, DecidableEq

/-- One more peer for a realm, if there is memory. -/
def addPeer (t : List (List UInt8 × List Nat)) (mem : RouteMem) (realm : List UInt8) (pe : Nat) :
    List (List UInt8 × List Nat) :=
  if t.any fun r => sameName r.1 realm then
    if mem.node then t.map fun r => if sameName r.1 realm then (r.1, r.2 ++ [pe]) else r else t
  else if mem.entry && mem.node then t ++ [(realm, [pe])]
  else t

/-- What a line of the configuration asks for. -/
def Conf.step (k : Conf) : Cmd → Conf
  | .peer pe => { k with cfgPeerLst := k.cfgPeerLst ++ [pe] }
  | .status v => { k with myAaaStatus := v }
  | .route mem realm dst =>
      if k.myAaaStatus < aaaServer then k
      else
        match findPeer k.cfgPeerLst dst with
        | none => k
        | some pe => { k with table := addPeer k.table mem realm pe }

/-- Before the first route. -/
def Conf.init (cfgPeerLst : List PeerEntry) (myAaaStatus : Nat) : Conf :=
  ⟨cfgPeerLst, myAaaStatus, []⟩

namespace Routes

def nextEntry (s : Routes) (p : Nat) : Option Nat := s.entries[p]?.join.bind RouteEntry.next

def nextNode (s : Routes) (p : Nat) : Option Nat := s.nodes[p]?.bind PeerEntryList.next

/-- The cell `p` is an entry for the realm and the peers of `r`. -/
def Holds (s : Routes) (p : Nat) (r : List UInt8 × List Nat) : Prop :=
  ∃ e ns, s.entries[p]? = some (some e) ∧ e.realm = r.1 ∧ Seg s.nextNode e.peerL ns none
    ∧ ns.Nodup ∧ ns.map (fun n => s.nodes[n]?.map PeerEntryList.pe) = r.2.map some

/-- The table is a list of live entries that ends, and says what `k` says. -/
structure WellKept (s : Routes) (k : Conf) : Prop where
  peers : s.cfgPeerLst = k.cfgPeerLst
  status : s.myAaaStatus = k.myAaaStatus
  table : ∃ ids, ids.Nodup ∧ Seg s.nextEntry s.routeLst ids none ∧ List.Forall₂ s.Holds ids k.table
  distinct : k.table.Pairwise fun a b => ¬ sameName a.1 b.1

/-- `route_dest` returns, for every realm that is a string. -/
def Answers (s : Routes) : Prop :=
  ∀ fnmatch (dstRealm : Str), dstRealm.len < 2 ^ 31 → dstRealm.bytes.isSome →
    ∃ r, s.routeDest fnmatch dstRealm = .ok r

/-- The table is kept through all of `cmds`, and a call that returns -1 leaves it as it was. -/
def KeptThrough : Routes → Conf → List Cmd → Prop
  | s, k, [] => s.WellKept k ∧ s.Answers
  | s, k, c :: cs =>
      s.WellKept k ∧ s.Answers
        ∧ ∃ rc s', s.exec c = .ok (rc, s') ∧ (rc = -1 → s'.WellKept k)
          ∧ KeptThrough s' (k.step c) cs

end Routes

/-- A route that would be the second one for its realm. -/
def Conf.Repeats (k : Conf) : Cmd → Prop
  | .route _ realm dst =>
      aaaServer ≤ k.myAaaStatus ∧ (findPeer k.cfgPeerLst dst).isSome
        ∧ ∃ r ∈ k.table, sameName r.1 realm
  | _ => False

/-- No realm gets a second route. -/
def NoRepeat : Conf → List Cmd → Prop
  | _, [] => True
  | k, c :: cs => ¬ k.Repeats c ∧ NoRepeat (k.step c) cs

/-! ## The loops over a list that ends -/

section Loops

variable {s : Routes} {ids : List Nat}

theorem forall₂_mem {α β : Type} {R : α → β → Prop} {as : List α} {bs : List β}
    (h : List.Forall₂ R as bs) {a : α} (ha : a ∈ as) : ∃ b ∈ bs, R a b := by
  induction h with
  | nil => simp at ha
  | @cons x y xs ys hr _ ih =>
      rcases List.mem_cons.mp ha with rfl | ha
      · exact ⟨y, by simp, hr⟩
      · obtain ⟨b, hb, hab⟩ := ih ha
        exact ⟨b, by simp [hb], hab⟩

/-- Every cell of the list is there. -/
def Live (s : Routes) (ids : List Nat) : Prop := ∀ p ∈ ids, ∃ e, s.entries[p]? = some (some e)

theorem Live.of_holds {t : List (List UInt8 × List Nat)} (h : List.Forall₂ s.Holds ids t) :
    Live s ids := by
  intro p hp
  obtain ⟨r, -, e, ns, he, -⟩ := forall₂_mem h hp
  exact ⟨e, he⟩

theorem Live.length_le (h : Live s ids) (hnd : ids.Nodup) : ids.length ≤ s.entries.length := by
  refine length_le_of_nodup hnd fun p hp => ?_
  obtain ⟨e, he⟩ := h p hp
  exact (List.getElem?_eq_some_iff.mp he).1

theorem entry_ok {p : Nat} {e : RouteEntry} (h : s.entries[p]? = some (some e)) :
    s.entry p = .ok e := by
  rw [Routes.entry, h]
  rfl

theorem nextEntry_eq {p : Nat} {e : RouteEntry} (h : s.entries[p]? = some (some e)) :
    s.nextEntry p = e.next := by
  rw [Routes.nextEntry, h]
  rfl

/-- A search for a realm stops at the first entry whose realm passes the test. -/
theorem searchEntries_first (T : List UInt8 → Bool) {a : Option Nat}
    {t : List (List UInt8 × List Nat)} (hseg : Seg s.nextEntry a ids none)
    (hhold : List.Forall₂ s.Holds ids t) {fuel : Nat} (hf : ids.length ≤ fuel) :
    (s.searchEntries (fun e => T e.realm) fuel a = .ok none ∧ t.find? (fun r => T r.1) = none)
      ∨ ∃ p ∈ ids, ∃ r, t.find? (fun r => T r.1) = some r ∧ s.Holds p r
        ∧ s.searchEntries (fun e => T e.realm) fuel a = .ok (some p) := by
  induction hhold generalizing a fuel with
  | nil =>
      obtain rfl : a = none := hseg
      refine Or.inl ⟨?_, rfl⟩
      cases fuel <;> rfl
  | @cons p r ids t hr hrest ih =>
      obtain ⟨rfl, hseg⟩ := hseg
      obtain ⟨fuel, rfl⟩ := Nat.exists_eq_succ_of_ne_zero (Nat.ne_of_gt (Nat.zero_lt_of_lt hf))
      obtain ⟨e, ns, he, hrealm, -⟩ := id hr
      rw [nextEntry_eq he] at hseg
      have hround : s.searchEntries (fun e => T e.realm) (fuel + 1) (some p)
          = if T r.1 then .ok (some p) else s.searchEntries (fun e => T e.realm) fuel e.next := by
        rw [Routes.searchEntries, entry_ok he, ← hrealm]
        rfl
      rw [hround]
      by_cases ht : T r.1 = true
      · exact Or.inr ⟨p, by simp, r, by simp [ht], hr, if_pos ht⟩
      · have hskip : (r :: t).find? (fun r => T r.1) = t.find? (fun r => T r.1) := by simp [ht]
        rw [if_neg ht, hskip]
        rcases ih hseg (by simpa using hf) with hno | ⟨q, hq, r', hfind, hhold, hrun⟩
        · exact Or.inl hno
        · exact Or.inr ⟨q, by simp [hq], r', hfind, hhold, hrun⟩

/-- The loop of `LIST_APPEND` stops at the last entry. -/
theorem lastCell_ok {p t : Nat} (hseg : Seg s.nextEntry (some p) (ids ++ [t]) none)
    (hlive : Live s (ids ++ [t])) {fuel : Nat} (hf : (ids ++ [t]).length ≤ fuel) :
    lastCell (fun q => (s.entry q).bind fun e => .ok e.next) fuel p = .ok t := by
  induction ids generalizing p fuel with
  | nil =>
      obtain ⟨hpt, hend⟩ := hseg
      obtain rfl := Option.some.inj hpt
      obtain ⟨fuel, rfl⟩ := Nat.exists_eq_succ_of_ne_zero (Nat.ne_of_gt (Nat.zero_lt_of_lt hf))
      obtain ⟨e, he⟩ := hlive p (by simp)
      have hn : e.next = none := by
        rw [← nextEntry_eq he]
        exact hend
      simp [lastCell, entry_ok he, Res.bind, hn]
  | cons q ids ih =>
      obtain ⟨hpq, hrest⟩ := hseg
      obtain rfl := Option.some.inj hpq
      obtain ⟨fuel, rfl⟩ := Nat.exists_eq_succ_of_ne_zero (Nat.ne_of_gt (Nat.zero_lt_of_lt hf))
      obtain ⟨e, he⟩ := hlive p (by simp)
      rw [nextEntry_eq he] at hrest
      obtain ⟨r, hr⟩ : ∃ r, e.next = some r := by
        cases ids with
        | nil => exact ⟨t, hrest.1⟩
        | cons r ids => exact ⟨r, hrest.1⟩
      rw [hr] at hrest
      have hlive' : Live s (ids ++ [t]) := fun x hx => hlive x (by simp at hx ⊢; tauto)
      have := ih hrest hlive' (by simpa using hf)
      simp only [lastCell, entry_ok he, Res.bind, hr, Res.ok_bind]
      exact this

/-- Where the table is well kept, routing returns. -/
theorem Routes.WellKept.answers {k : Conf} (h : s.WellKept k) : s.Answers := by
  obtain ⟨ids, hnd, hseg, hhold⟩ := h.table
  have hlive := Live.of_holds hhold
  intro fnmatch d hlen hbytes
  obtain ⟨bs, hbs⟩ := Option.isSome_iff_exists.mp hbytes
  unfold Routes.routeDest
  split
  · exact ⟨none, rfl⟩
  · rw [if_neg (Nat.not_le_of_lt hlen), hbs, Res.ofAccess_some, Res.ok_bind]
    rcases searchEntries_first (fun realm => fnmatch (Routes.cString realm) (Routes.cString bs)) hseg
      hhold (hlive.length_le hnd) with ⟨hrun, -⟩ | ⟨p, -, r, -, ⟨e, ns, he, -⟩, hrun⟩
    · exact ⟨none, by rw [hrun]; rfl⟩
    · exact ⟨e.peerL, by rw [hrun, Res.ok_bind]; simp [entry_ok he]⟩

end Loops

/-! ## A new realm -/

section New

variable {s s' : Routes} {k : Conf} {realm : List UInt8} {pe : Nat}

theorem Holds.lt {p : Nat} {r : List UInt8 × List Nat} (h : s.Holds p r) : p < s.entries.length := by
  obtain ⟨e, ns, he, -⟩ := h
  exact (List.getElem?_eq_some_iff.mp he).1

theorem nodes_lt {ns pes : List Nat}
    (hpes : ns.map (fun n => s.nodes[n]?.map PeerEntryList.pe) = pes.map some) :
    ∀ n ∈ ns, n < s.nodes.length := by
  intro n hm
  have hsome : s.nodes[n]?.map PeerEntryList.pe ∈ pes.map some := by
    rw [← hpes]
    exact List.mem_map_of_mem hm
  obtain ⟨q, -, hq⟩ := List.mem_map.mp hsome
  obtain ⟨c, hc, -⟩ := Option.map_eq_some_iff.mp hq.symm
  exact (List.getElem?_eq_some_iff.mp hc).1

/-- An entry keeps its peers as long as the cells of its peer list stay. -/
theorem Holds.frame {p : Nat} {r : List UInt8 × List Nat} (h : s.Holds p r)
    (he : ∀ e, s.entries[p]? = some (some e) →
      ∃ nx, s'.entries[p]? = some (some { e with next := nx }))
    (hn : ∀ n < s.nodes.length, s'.nodes[n]? = s.nodes[n]?) : s'.Holds p r := by
  obtain ⟨e, ns, hcell, hrealm, hseg, hnd, hpes⟩ := h
  obtain ⟨nx, hcell'⟩ := he e hcell
  have hlt := nodes_lt hpes
  refine ⟨_, ns, hcell', hrealm, hseg.congr fun q hq => ?_, hnd, ?_⟩
  · rw [Routes.nextNode, Routes.nextNode, hn q (hlt q hq)]
  · rw [← hpes]
    exact List.map_congr_left fun q hq => by rw [hn q (hlt q hq)]

/-- The table's memory with a cell for a new entry and its first peer, not yet linked. -/
def Routes.grow (s : Routes) (realm : List UInt8) (pe : Nat) : Routes :=
  { s with entries := s.entries ++ [some ⟨realm, some s.nodes.length, none⟩]
           nodes := s.nodes ++ [⟨pe, none⟩] }

theorem grow_entry_old {p : Nat} (h : p < s.entries.length) :
    (s.grow realm pe).entries[p]? = s.entries[p]? := List.getElem?_append_left h

theorem grow_entry_new :
    (s.grow realm pe).entries[s.entries.length]? = some (some ⟨realm, some s.nodes.length, none⟩) := by
  simp [Routes.grow]

theorem grow_node_old {n : Nat} (h : n < s.nodes.length) :
    (s.grow realm pe).nodes[n]? = s.nodes[n]? := List.getElem?_append_left h

theorem Holds.grow {p : Nat} {r : List UInt8 × List Nat} (h : s.Holds p r) :
    (s.grow realm pe).Holds p r := by
  refine Holds.frame h (fun e he => ⟨e.next, ?_⟩) fun n hn => grow_node_old hn
  rw [grow_entry_old (Holds.lt h), he]

theorem grow_holds : (s.grow realm pe).Holds s.entries.length (realm, [pe]) := by
  refine ⟨_, [s.nodes.length], grow_entry_new, rfl, ⟨rfl, ?_⟩, by simp, ?_⟩
  · simp [Seg, Routes.nextNode, Routes.grow]
  · simp [Routes.grow]

theorem getElem?_setEntry {p : Nat} (hp : p < s.entries.length) (e : Option RouteEntry) (q : Nat) :
    (s.setEntry p e).entries[q]? = if p = q then some e else s.entries[q]? := by
  rw [Routes.setEntry, List.getElem?_set]
  by_cases hpq : p = q
  · rw [if_pos hpq, if_pos hpq, if_pos hp]
  · rw [if_neg hpq, if_neg hpq]

theorem linkPeer_new (mem : RouteMem) (hm : mem.node = true) :
    ({ s with entries := s.entries ++ [some ⟨realm, none, none⟩] } : Routes).linkPeer mem
        s.entries.length pe
      = (s.grow realm pe).appendEntry s.entries.length >>= fun s => .ok (0, s) := by
  simp [Routes.linkPeer, hm, Routes.appendNode, Routes.entry, Routes.setEntry, Routes.grow]

/-- The chain of entries with the new one at its end. -/
theorem appendEntry_grow {ids : List Nat} (hnd : ids.Nodup)
    (hseg : Seg s.nextEntry s.routeLst ids none) (hlive : Live s ids) :
    ∃ s', (s.grow realm pe).appendEntry s.entries.length = .ok s'
      ∧ s'.cfgPeerLst = s.cfgPeerLst ∧ s'.myAaaStatus = s.myAaaStatus
      ∧ Seg s'.nextEntry s'.routeLst (ids ++ [s.entries.length]) none
      ∧ s'.nodes = (s.grow realm pe).nodes
      ∧ ∀ (p : Nat) (e : RouteEntry), (s.grow realm pe).entries[p]? = some (some e) →
          ∃ nx, s'.entries[p]? = some (some { e with next := nx }) := by
  have hlt : ∀ p ∈ ids, p < s.entries.length := fun p hp => by
    obtain ⟨e, he⟩ := hlive p hp
    exact (List.getElem?_eq_some_iff.mp he).1
  have hnx : (s.grow realm pe).nextEntry s.entries.length = none := nextEntry_eq grow_entry_new
  have hseg' : Seg (s.grow realm pe).nextEntry s.routeLst ids none := hseg.congr fun q hq => by
    rw [Routes.nextEntry, Routes.nextEntry, grow_entry_old (hlt q hq)]
  have hlive' : Live (s.grow realm pe) ids := fun p hp => by
    rw [grow_entry_old (hlt p hp)]
    exact hlive p hp
  -- the empty table gets its first entry, any other a new last one
  cases ids using List.reverseRecOn with
  | nil =>
      have hnone : s.routeLst = none := hseg
      refine ⟨{ s.grow realm pe with routeLst := some s.entries.length }, ?_, rfl, rfl, ⟨rfl, hnx⟩,
        rfl, fun p e he => ⟨e.next, he⟩⟩
      rw [Routes.appendEntry, show (s.grow realm pe).routeLst = none from hnone]
  | append_singleton as t =>
      obtain ⟨p, hp⟩ : ∃ p, s.routeLst = some p := by
        cases as with
        | nil => exact ⟨t, hseg.1⟩
        | cons p as => exact ⟨p, hseg.1⟩
      obtain ⟨e, he⟩ := hlive' t (by simp)
      have hlast := lastCell_ok (hp ▸ hseg') hlive' (hlive'.length_le hnd)
      have htl : t < (s.grow realm pe).entries.length := (List.getElem?_eq_some_iff.mp he).1
      have hset := getElem?_setEntry htl (some { e with next := some s.entries.length })
      refine ⟨(s.grow realm pe).setEntry t (some { e with next := some s.entries.length }), ?_, rfl,
        rfl, ?_, rfl, ?_⟩
      · rw [Routes.appendEntry, show (s.grow realm pe).routeLst = some p from hp]
        simp [hlast, entry_ok he]
      -- only the old last cell is written to
      · have hta : ∀ q ∈ as, t ≠ q := fun q hq heq =>
          (List.nodup_append.mp hnd).2.2 q hq t (by simp) heq.symm
        obtain ⟨m, h1, h2⟩ := seg_append.mp hseg'
        refine seg_append.mpr ⟨some s.entries.length,
          seg_append.mpr ⟨m, h1.congr fun q hq => ?_, h2.1, ?_⟩, rfl, ?_⟩
        · rw [Routes.nextEntry, Routes.nextEntry, hset q, if_neg (hta q hq)]
        · rw [Routes.nextEntry, hset t, if_pos rfl]
          rfl
        · have hne : t ≠ s.entries.length := Nat.ne_of_lt (hlt t (by simp))
          show Routes.nextEntry _ _ = none
          rw [Routes.nextEntry, hset, if_neg hne]
          exact hnx
      · intro q e' he'
        rw [hset q]
        by_cases hq : t = q
        · subst hq
          rw [he] at he'
          obtain rfl := Option.some.inj (Option.some.inj he')
          exact ⟨some s.entries.length, by rw [if_pos rfl]⟩
        · exact ⟨e'.next, by rw [if_neg hq, he']⟩

/-- **A new realm becomes the last entry of the table.** -/
theorem Routes.WellKept.link_new (h : s.WellKept k) (mem : RouteMem) (hm : mem.node = true)
    (hnew : ∀ r ∈ k.table, ¬ sameName r.1 realm) :
    ∃ s', ({ s with entries := s.entries ++ [some ⟨realm, none, none⟩] } : Routes).linkPeer mem
        s.entries.length pe = .ok (0, s')
      ∧ s'.WellKept { k with table := k.table ++ [(realm, [pe])] } := by
  obtain ⟨ids, hnd, hseg, hhold⟩ := h.table
  have hlive := Live.of_holds hhold
  obtain ⟨s', hrun, hpl, hst, hseg', hnodes, hcells⟩ := @appendEntry_grow s realm pe ids hnd hseg hlive
  have hframe : ∀ {p r}, (s.grow realm pe).Holds p r → s'.Holds p r := fun {p r} hp =>
    Holds.frame hp (hcells p) fun n _ => by rw [hnodes]
  refine ⟨s', by rw [linkPeer_new mem hm, hrun]; rfl, ⟨hpl.trans h.peers, hst.trans h.status,
    ⟨ids ++ [s.entries.length], ?_, hseg', ?_⟩, ?_⟩⟩
  · refine List.nodup_append.mpr ⟨hnd, by simp, ?_⟩
    intro p hp q hq heq
    obtain ⟨e, he⟩ := hlive p hp
    have hlt := (List.getElem?_eq_some_iff.mp he).1
    simp only [List.mem_singleton] at hq
    omega
  · exact List.rel_append (hhold.imp fun p r hp => hframe (Holds.grow hp))
      (List.Forall₂.cons (hframe grow_holds) List.Forall₂.nil)
  · refine List.pairwise_append.mpr ⟨h.distinct, by simp, fun a ha b hb => ?_⟩
    obtain rfl : b = (realm, [pe]) := by simpa using hb
    exact hnew a ha

end New

/-! ## One line of the configuration -/

section Step

variable {s s' : Routes} {k : Conf}

/-- Cells that are not linked do not matter. -/
theorem Routes.WellKept.frame (h : s.WellKept k) (hpl : s'.cfgPeerLst = s.cfgPeerLst)
    (hst : s'.myAaaStatus = s.myAaaStatus) (hrl : s'.routeLst = s.routeLst)
    (hn : s'.nodes = s.nodes) (he : ∀ p < s.entries.length, s'.entries[p]? = s.entries[p]?) :
    s'.WellKept k := by
  obtain ⟨ids, hnd, hseg, hhold⟩ := h.table
  refine ⟨hpl.trans h.peers, hst.trans h.status, ⟨ids, hnd, ?_, ?_⟩, h.distinct⟩
  · rw [hrl]
    refine hseg.congr fun q hq => ?_
    obtain ⟨e, hcell⟩ := Live.of_holds hhold q hq
    rw [Routes.nextEntry, Routes.nextEntry, he q (List.getElem?_eq_some_iff.mp hcell).1]
  · refine hhold.imp fun p r hp => Holds.frame hp (fun e hcell => ⟨e.next, ?_⟩) fun n _ => by rw [hn]
    rw [he p (Holds.lt hp), hcell]

/-- The search for a realm, in terms of what the table says. -/
theorem Routes.WellKept.search (h : s.WellKept k) (realm : List UInt8) :
    (s.searchEntries (fun e => sameName e.realm realm) s.entries.length s.routeLst = .ok none
        ∧ ∀ r ∈ k.table, ¬ sameName r.1 realm)
      ∨ ∃ r ∈ k.table, sameName r.1 realm ∧ ∃ ids re, ids.Nodup ∧ Live s ids ∧ re ∈ ids
        ∧ Seg s.nextEntry s.routeLst ids none
        ∧ s.searchEntries (fun e => sameName e.realm realm) s.entries.length s.routeLst
          = .ok (some re) := by
  obtain ⟨ids, hnd, hseg, hhold⟩ := h.table
  have hlive := Live.of_holds hhold
  rcases searchEntries_first (fun t => sameName t realm) hseg hhold (hlive.length_le hnd) with
    ⟨hrun, hno⟩ | ⟨re, hre, r, hfind, -, hrun⟩
  · exact Or.inl ⟨hrun, List.find?_eq_none.mp hno⟩
  · exact Or.inr ⟨r, List.mem_of_find?_eq_some hfind, by simpa using List.find?_some hfind, ids, re,
      hnd, hlive, hre, hseg, hrun⟩

/-- **A line that does not name a known realm again keeps the table.** -/
theorem Routes.WellKept.exec (h : s.WellKept k) {c : Cmd} (hno : ¬ k.Repeats c) :
    ∃ rc s', s.exec c = .ok (rc, s') ∧ s'.WellKept (k.step c) ∧ (rc = -1 → s'.WellKept k) := by
  cases c with
  | peer pe =>
      refine ⟨0, _, rfl, ⟨?_, h.status, h.table, h.distinct⟩, fun he => absurd he (by decide)⟩
      show s.cfgPeerLst ++ [pe] = k.cfgPeerLst ++ [pe]
      rw [h.peers]
  | status v =>
      exact ⟨0, _, rfl, ⟨h.peers, rfl, h.table, h.distinct⟩, fun he => absurd he (by decide)⟩
  | route mem realm dst =>
      simp only [Routes.exec, Routes.addRoute]
      by_cases hst : s.myAaaStatus < aaaServer
      · have hk : k.step (.route mem realm dst) = k := if_pos (h.status ▸ hst)
        rw [if_pos hst, hk]
        exact ⟨-1, s, rfl, h, fun _ => h⟩
      · rw [if_neg hst]
        cases hpe : findPeer s.cfgPeerLst dst with
        | none =>
            have hk : k.step (.route mem realm dst) = k := by
              rw [Conf.step, ← h.status, if_neg hst, ← h.peers, hpe]
            rw [hk]
            exact ⟨-1, s, rfl, h, fun _ => h⟩
        | some pe =>
            have hk : k.step (.route mem realm dst)
                = { k with table := addPeer k.table mem realm pe } := by
              rw [Conf.step, ← h.status, if_neg hst, ← h.peers, hpe]
            rcases h.search realm with ⟨hrun, hnew⟩ | ⟨r, hr, hsame, -⟩
            · have hany : (k.table.any fun r => sameName r.1 realm) = false := by
                simpa using hnew
              rw [hk, addPeer, hany]
              simp only [hrun, Res.ok_bind, Bool.false_eq_true, if_false]
              cases he : mem.entry with
              | false => exact ⟨-1, s, rfl, h, fun _ => h⟩
              | true =>
                  cases hn : mem.node with
                  -- the new entry is freed again, and was never linked
                  | false =>
                      have hkept : (({ s with entries := s.entries ++ [some ⟨realm, none, none⟩] } :
                          Routes).setEntry s.entries.length none).WellKept k :=
                        h.frame rfl rfl rfl rfl fun p hp => by
                          simp [Routes.setEntry, List.getElem?_append_left hp]
                      refine ⟨-1, _, ?_, hkept, fun _ => hkept⟩
                      simp [Routes.linkPeer, hn]
                  | true =>
                      obtain ⟨s', hlink, hkept⟩ :=
                        @Routes.WellKept.link_new s k realm pe h mem hn hnew
                      refine ⟨0, s', ?_, hkept, fun he => absurd he (by decide)⟩
                      simpa using hlink
            -- the realm is known already, which was excluded
            · refine absurd ⟨?_, ?_, r, hr, hsame⟩ hno
              · rw [← h.status]
                exact Nat.le_of_not_lt hst
              · rw [← h.peers, hpe]
                rfl

end Step

/-! ## A realm named again -/

section Repeat

variable {s s' : Routes} {k : Conf} {ids : List Nat} {re : Nat}

/-- The entry gets another peer; no entry is linked otherwise. -/
theorem appendNode_frame {n : Nat} (hrun : s.appendNode re n = .ok s') :
    s'.routeLst = s.routeLst ∧ s'.entries.length = s.entries.length
      ∧ s'.nextEntry = s.nextEntry ∧ ∀ ids, Live s ids → Live s' ids := by
  obtain ⟨e, he, hrun⟩ := Res.bind_eq_ok hrun
  have hcell : s.entries[re]?.join = some e := by
    unfold Routes.entry Res.ofAccess at he
    split at he
    · rename_i e' he'
      rw [he', Res.ok.inj he]
    · exact absurd he (by simp)
  obtain ⟨hlt, hget⟩ := List.getElem?_eq_some_iff.mp (Option.join_eq_some_iff.mp hcell)
  cases hp : e.peerL with
  | none =>
      simp only [hp, Res.pure_eq, Res.ok.injEq] at hrun
      subst hrun
      have hset := getElem?_setEntry hlt (some { e with peerL := some n })
      refine ⟨rfl, by simp [Routes.setEntry], funext fun q => ?_, fun ids hl q hq => ?_⟩
      · rw [Routes.nextEntry, Routes.nextEntry, hset]
        split
        · rename_i heq
          subst heq
          rw [hcell]
          rfl
        · rfl
      · rw [hset]
        split
        · exact ⟨_, rfl⟩
        · exact hl q hq
  | some p =>
      simp only [hp] at hrun
      obtain ⟨t, -, hrun⟩ := Res.bind_eq_ok hrun
      obtain ⟨c, -, hrun⟩ := Res.bind_eq_ok hrun
      simp only [Res.pure_eq, Res.ok.injEq] at hrun
      subst hrun
      exact ⟨rfl, rfl, rfl, fun ids hl => hl⟩

/-- **An entry appended to the list it is in closes a circle.** -/
theorem appendEntry_circle (hnd : ids.Nodup) (hseg : Seg s.nextEntry s.routeLst ids none)
    (hlive : Live s ids) (hre : re ∈ ids) (hrun : s.appendEntry re = .ok s') (ids' : List Nat) :
    ¬ Seg s'.nextEntry s'.routeLst ids' none := by
  cases ids using List.reverseRecOn with
  | nil => simp at hre
  | append_singleton as t =>
      obtain ⟨p, hp, hmem⟩ : ∃ p, s.routeLst = some p ∧ p ∈ as ++ [t] := by
        cases as with
        | nil => exact ⟨t, hseg.1, by simp⟩
        | cons p as => exact ⟨p, hseg.1, by simp⟩
      obtain ⟨e, he⟩ := hlive t (by simp)
      have hlast := lastCell_ok (hp ▸ hseg) hlive (hlive.length_le hnd)
      have hlt : t < s.entries.length := (List.getElem?_eq_some_iff.mp he).1
      rw [Routes.appendEntry, hp] at hrun
      simp only [hlast, Res.ok_bind, entry_ok he, Res.pure_eq, Res.ok.injEq] at hrun
      subst hrun
      have hset := getElem?_setEntry hlt (some { e with next := some re })
      show ¬ Seg _ s.routeLst ids' none
      rw [hp]
      -- every cell of the list now has a successor in the list
      refine not_seg_of_closed (fun x hx => ?_) hmem ids'
      rw [Routes.nextEntry, hset]
      by_cases htx : t = x
      · rw [if_pos htx]
        exact ⟨re, hre, rfl⟩
      · rw [if_neg htx]
        have hxa : x ∈ as := by
          rcases List.mem_append.mp hx with hx | hx
          · exact hx
          · exact absurd (by simpa using hx : x = t).symm htx
        -- only the last cell had no cell after it
        obtain ⟨l, r, rfl⟩ := List.append_of_mem hxa
        obtain ⟨m, -, h2⟩ := seg_append.mp (show Seg s.nextEntry s.routeLst
          (l ++ x :: (r ++ [t])) none by simpa using hseg)
        obtain ⟨y, hy⟩ : ∃ y, s.nextEntry x = some y := by
          cases r with
          | nil => exact ⟨t, h2.2.1⟩
          | cons y r => exact ⟨y, h2.2.1⟩
        exact ⟨y, hseg.closed hx hy, hy⟩

/-- Without memory for the node the entry is freed, which the table still points at. -/
theorem free_breaks {ids' : List Nat} (hseg : Seg s.nextEntry s.routeLst ids none)
    (hnd : ids.Nodup) (hlive : Live s ids) (hre : re ∈ ids)
    (hseg' : Seg (s.setEntry re none).nextEntry s.routeLst ids' none) :
    ¬ Live (s.setEntry re none) ids' := by
  obtain ⟨e, he⟩ := hlive re hre
  have hset := getElem?_setEntry (List.getElem?_eq_some_iff.mp he).1 none
  -- up to the freed entry the chain is the old one, so it is still reached
  obtain ⟨as, bs, rfl⟩ := List.append_of_mem hre
  have hagree : ∀ q ∈ as, (s.setEntry re none).nextEntry q = s.nextEntry q := by
    intro q hq
    have hne : re ≠ q := fun heq =>
      (List.nodup_append.mp hnd).2.2 q hq re (by simp) heq.symm
    rw [Routes.nextEntry, Routes.nextEntry, hset, if_neg hne]
  intro hl
  obtain ⟨e', he'⟩ := hl re (hseg.mem_of_agree hseg' hagree)
  rw [hset, if_pos rfl] at he'
  exact absurd he' (by simp)

/-- **A line that names a known realm again breaks the table**, with memory or without. -/
theorem Routes.WellKept.repeats (h : s.WellKept k) {c : Cmd} (hr : k.Repeats c) {rc : Int}
    (hrun : s.exec c = .ok (rc, s')) (k' : Conf) : ¬ s'.WellKept k' := by
  intro hkept
  cases c with
  | peer pe => exact hr
  | status v => exact hr
  | route mem realm dst =>
      obtain ⟨hst, hpe, r, hmem, hsame⟩ := hr
      obtain ⟨pe, hpe⟩ := Option.isSome_iff_exists.mp hpe
      rw [← h.status] at hst
      rw [← h.peers] at hpe
      rw [Routes.exec, Routes.addRoute, if_neg (Nat.not_lt_of_le hst), hpe] at hrun
      rcases h.search realm with ⟨-, hnew⟩ | ⟨-, -, -, ids, re, hnd, hlive, hre, hseg, hsearch⟩
      · exact hnew r hmem hsame
      · obtain ⟨ids', -, hseg', hhold'⟩ := hkept.table
        -- without memory for the node the entry is freed, with memory it is appended a second time
        simp only [hsearch, Res.ok_bind, Routes.linkPeer] at hrun
        split at hrun
        · simp only [Res.ok.injEq, Prod.mk.injEq] at hrun
          obtain ⟨-, rfl⟩ := hrun
          exact free_breaks hseg hnd hlive hre hseg' (Live.of_holds hhold')
        · obtain ⟨s₁, h₁, hrun⟩ := Res.bind_eq_ok hrun
          obtain ⟨s₂, h₂, hrun⟩ := Res.bind_eq_ok hrun
          simp only [Res.pure_eq, Res.ok.injEq, Prod.mk.injEq] at hrun
          obtain ⟨-, rfl⟩ := hrun
          obtain ⟨hrl, -, hnx, hl⟩ := appendNode_frame h₁
          refine appendEntry_circle hnd ?_ (hl ids hlive) hre h₂ ids' hseg'
          rw [hnx, hrl]
          exact hseg

end Repeat

/-! ## Whole configurations -/

theorem keptThrough_iff {s : Routes} {k : Conf} (h : s.WellKept k) (cmds : List Cmd) :
    s.KeptThrough k cmds ↔ NoRepeat k cmds := by
  induction cmds generalizing s k with
  | nil => exact ⟨fun _ => trivial, fun _ => ⟨h, h.answers⟩⟩
  | cons c cs ih =>
      constructor
      · rintro ⟨-, -, rc, s', hrun, -, hrest⟩
        have hkept : s'.WellKept (k.step c) := by
          cases cs with
          | nil => exact hrest.1
          | cons d ds => exact hrest.1
        exact ⟨fun hr => h.repeats hr hrun _ hkept, (ih hkept).mp hrest⟩
      · rintro ⟨hno, hrest⟩
        obtain ⟨rc, s', hrun, hkept, hfail⟩ := h.exec hno
        exact ⟨h, h.answers, rc, s', hrun, hfail, (ih hkept).mpr hrest⟩

theorem wellKept_init (cfgPeerLst : List PeerEntry) (myAaaStatus : Nat) :
    (Routes.init cfgPeerLst myAaaStatus).WellKept (Conf.init cfgPeerLst myAaaStatus) where
  peers := rfl
  status := rfl
  table := ⟨[], by simp, rfl, List.Forall₂.nil⟩
  distinct := List.Pairwise.nil

/--
**The routing table is what the configuration says exactly if no realm is routed twice.**

A second route for a realm either turns the table into a circle, so that the next search of it
does not end, or frees an entry that is still part of it.
-/
theorem routes_kept_iff (cfgPeerLst : List PeerEntry) (myAaaStatus : Nat) (cmds : List Cmd) :
    (Routes.init cfgPeerLst myAaaStatus).KeptThrough (Conf.init cfgPeerLst myAaaStatus) cmds
      ↔ NoRepeat (Conf.init cfgPeerLst myAaaStatus) cmds := by
  exact keptThrough_iff (wellKept_init cfgPeerLst myAaaStatus) cmds

/-! ## The table a configuration leaves -/

/-- Routes lead to configured peers. -/
def Conf.Known (k : Conf) : Prop := ∀ r ∈ k.table, ∀ pe ∈ r.2, pe < k.cfgPeerLst.length

theorem mem_addPeer {t : List (List UInt8 × List Nat)} {mem : RouteMem} {realm : List UInt8}
    {pe : Nat} {r : List UInt8 × List Nat} (h : r ∈ addPeer t mem realm pe) :
    ∀ q ∈ r.2, q = pe ∨ ∃ r' ∈ t, q ∈ r'.2 := by
  intro q hq
  unfold addPeer at h
  split_ifs at h
  · obtain ⟨r', hr', rfl⟩ := List.mem_map.mp h
    split at hq
    · rcases List.mem_append.mp hq with hq | hq
      · exact Or.inr ⟨r', hr', hq⟩
      · exact Or.inl (by simpa using hq)
    · exact Or.inr ⟨r', hr', hq⟩
  · exact Or.inr ⟨r, h, hq⟩
  · rcases List.mem_append.mp h with h | h
    · exact Or.inr ⟨r, h, hq⟩
    · obtain rfl : r = (realm, [pe]) := by simpa using h
      exact Or.inl (by simpa using hq)
  · exact Or.inr ⟨r, h, hq⟩

theorem Conf.Known.step {k : Conf} (h : k.Known) (c : Cmd) : (k.step c).Known := by
  cases c with
  | peer pe =>
      intro r hr q hq
      have := h r hr q hq
      simp only [Conf.step, List.length_append, List.length_singleton]
      omega
  | status v => exact h
  | route mem realm dst =>
      simp only [Conf.step]
      split
      · exact h
      · split
        · exact h
        · rename_i pe hpe
          intro r hr q hq
          rcases mem_addPeer hr q hq with rfl | ⟨r', hr', hq'⟩
          · exact (List.findIdx?_eq_some_iff_getElem.mp hpe).1
          · exact h r' hr' q hq'

/-- The state the lines leave behind. -/
def Routes.runs (s : Routes) : List Cmd → Res Routes
  | [] => .ok s
  | c :: cs => do
      let (_, s) ← s.exec c
      s.runs cs

/-- **A configuration without a second route for any realm is read to its end.** -/
theorem Routes.WellKept.runs {s : Routes} {k : Conf} (h : s.WellKept k) (hk : k.Known)
    {cmds : List Cmd} (hno : NoRepeat k cmds) :
    ∃ s', s.runs cmds = .ok s' ∧ s'.WellKept (cmds.foldl Conf.step k)
      ∧ (cmds.foldl Conf.step k).Known := by
  induction cmds generalizing s k with
  | nil => exact ⟨s, rfl, h, hk⟩
  | cons c cs ih =>
      obtain ⟨rc, s₁, hrun, hkept, -⟩ := h.exec hno.1
      obtain ⟨s', hrest, hfinal⟩ := ih hkept (hk.step c) hno.2
      refine ⟨s', ?_, hfinal⟩
      rw [Routes.runs, hrun]
      exact hrest

/-- A server with one peer, `a`. -/
def onePeer : List PeerEntry := [⟨[97], [97], [97], none⟩]

/-- A route over it for the realm `r`. -/
def routeR : Cmd := .route ⟨true, true⟩ [114] [97]

theorem second_route_breaks :
    ¬ (Routes.init onePeer aaaServer).KeptThrough (Conf.init onePeer aaaServer)
      [routeR, routeR] := by
  intro hkept
  have hno := (keptThrough_iff (wellKept_init onePeer aaaServer) [routeR, routeR]).mp hkept
  exact hno.2.1 ⟨by decide, by decide, ([114], [0]), by decide, by decide⟩

end Disc.Server
