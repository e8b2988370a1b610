import Disc.Msg.Scan
import Disc.Server.Relay
import Disc.Server.Route

/-!
# What becomes of a request

`process_incoming_request` and `do_route`. A request is for this host, for one of its peers,
for this realm or for another one, and a module takes it, it goes on to one peer, or it is
refused with an error reply. When a send fails nothing has been done yet: the state of the
peer is looked at before the transaction is linked and before the identifier in the buffer
is overwritten. So the next peer of the route can be tried, and the reply to a refused
request finds the identifiers it came with.

The calls of a module and of `send_error_reply` are recorded, not followed. `fnmatch` and
the two searches in the table of peers are parameters.

`route_dest` copies the realm into a buffer of its own after it has compared the lengths. It
does not expect a negative length, and the decoder lets one through.
-/

namespace Disc.Server

open Disc.Lib Disc.Msg Disc.Transport

/-! ## The code -/

/-- `AAA_UNABLE_TO_DELIVER`. -/
def aaaUnableToDeliver : UInt32 := 3002

/-- `AAA_APPLICATION_UNSUPPORTED`. -/
def aaaApplicationUnsupported : UInt32 := 3007

/-- `AAA_MISSING_AVP`. -/
def aaaMissingAvp : UInt32 := 5005

/-- What is done with a request. -/
inductive Deed where
  | modMsg (mod : Module)
  /-- `safe_write` of the request to a peer. -/
  | write (outP : Nat) (req : List UInt8)
  | errorReply (code : UInt32)
deriving Repr, DecidableEq

/-- What is done, the peers afterwards, and the request buffer afterwards. -/
structure After where
  deeds : List Deed
  node : Node
  buf : List UInt8

/-- `lookup_peer_by_identity` and `lookup_peer_by_realm_appid`. -/
structure Lookups where
  byIdentity : Str → Option Nat
  byRealmAppid : Str → UInt32 → Option Nat

/-- Is this the identity, or the realm, of the node? A negative length is that of no string. -/
def isOwn (own : List UInt8) (s : Str) : Res Bool :=
  if s.len < 2 ^ 31 ∧ s.len = own.length then do
    let bs ← Res.ofAccess s.bytes
    return decide (strncasecmp bs own own.length = 0)
  else return false

namespace Node

/-- `send_req_to_peer`, with a transaction that was made for the request. -/
def sendOn (n : Node) (env : Env) (m : Message) (inP outP : Nat) : Bool × Node :=
  match (n.peers outP).sendReqToPeer env (some inP) m.hopbyhopId (msgBuf m) with
  | (false, _) => (false, n)
  | (true, w) =>
      let f : Forward :=
        { inPeer := inP, outPeer := outP, req := msgBuf m
          sent := outgoing (n.peers outP) (msgBuf m), tr := (n.peers outP).nextTrans }
      (true, { n.setPeer outP w with forwards := n.forwards ++ [f] })

theorem forwardRequest_eq (n : Node) (env : Env) (m : Message) (inP outP : Nat) :
    n.forwardRequest env m inP outP
      = if !env.trMem then (false, n) else n.sendOn env m inP outP := rfl

/-- After a send. -/
def sentTo (n n' : Node) (m : Message) (outP : Nat) : After :=
  ⟨[.write outP (outgoing (n.peers outP) (msgBuf m))], n', outgoing (n.peers outP) (msgBuf m)⟩

/-- After `send_error_reply`. -/
def refuse (n : Node) (m : Message) (code : UInt32) : After := ⟨[.errorReply code], n, msgBuf m⟩

/-- `run_module`, if there is one for the application. -/
def runModule (n : Node) (cfg : Cfg) (m : Message) : After :=
  match cfg.findModule m.applicationId with
  | some mod => ⟨[.modMsg mod], n, msgBuf m⟩
  | none => n.refuse m aaaApplicationUnsupported

/-- `forward_request`, and the reply when that fails. -/
def forwardTo (n : Node) (env : Env) (m : Message) (inP outP : Nat) : After :=
  match n.forwardRequest env m inP outP with
  | (true, n') => n.sentTo n' m outP
  | (false, n') => n'.refuse m aaaUnableToDeliver

/-- The loop of `do_route` over the peers of a route: the peer it stops at. -/
def tryPeers (n : Node) (rt : Routes) (env : Env) (m : Message) (inP : Nat) :
    Nat → Option Nat → Res (Option (Nat × Node))
  | _, none => .ok none
  | 0, some _ => .diverge
  | fuel + 1, some p => do
      let pl ← rt.node p
      let pe ← Res.ofAccess rt.cfgPeerLst[pl.pe]?
      match pe.peer with
      | none => n.tryPeers rt env m inP fuel pl.next
      | some q =>
          match n.sendOn env m inP q with
          | (true, n') => return some (q, n')
          | (false, _) => n.tryPeers rt env m inP fuel pl.next

/-- `do_route`; nothing stands for its -1. -/
def doRoute (n : Node) (fnmatch : List UInt8 → List UInt8 → Bool) (rt : Routes) (env : Env)
    (m : Message) (inP : Nat) (realm : Str) : Res (Option (Nat × Node)) := do
  match ← rt.routeDest fnmatch realm with
  | none => return none
  | some p => if !env.trMem then return none else n.tryPeers rt env m inP rt.nodes.length (some p)

/-- The half of `process_incoming_request` that looks at the realm. -/
def processByRealm (n : Node) (cfg : Cfg) (lk : Lookups)
    (fnmatch : List UInt8 → List UInt8 → Bool) (rt : Routes) (env : Env) (h : Heap) (m : Message)
    (inP destRealm : Nat) : Res After := do
  let realm ← Res.ofAccess h.cells[destRealm]?
  if ← isOwn cfg.aaaRealm realm.data then
    match cfg.findModule m.applicationId with
    | some _ => return n.runModule cfg m
    | none =>
        match lk.byRealmAppid realm.data m.applicationId with
        | some q => return n.forwardTo env m inP q
        | none => return n.refuse m aaaApplicationUnsupported
  else
    match ← n.doRoute fnmatch rt env m inP realm.data with
    | some (q, n') => return n.sentTo n' m q
    | none => return n.refuse m aaaUnableToDeliver

/-- `process_incoming_request`. -/
def processIncomingRequest (n : Node) (cfg : Cfg) (lk : Lookups)
    (fnmatch : List UInt8 → List UInt8 → Bool) (rt : Routes) (env : Env) (h : Heap) (m : Message)
    (inP : Nat) : Res After :=
  match m.destHost, m.destRealm with
  | some _, none => .ok (n.refuse m aaaMissingAvp)
  | none, none => .ok (n.runModule cfg m)
  | none, some r => n.processByRealm cfg lk fnmatch rt env h m inP r
  | some d, some r => do
      let host ← Res.ofAccess h.cells[d]?
      if ← isOwn cfg.aaaIdentity host.data then return n.runModule cfg m
      else
        match lk.byIdentity host.data with
        | some q => return n.forwardTo env m inP q
        | none => n.processByRealm cfg lk fnmatch rt env h m inP r

end Node

/-! ## What it should come to -/

/-- The message can be read: its destination AVPs are there, with their data unless these have a negative length. -/
def Readable (h : Heap) (m : Message) : Prop :=
  ∀ p, m.destHost = some p ∨ m.destRealm = some p →
    ∃ a, h.cells[p]? = some a ∧ (a.data.len < 2 ^ 31 → a.data.bytes.isSome)

/-- The table is a list of lists of peers. -/
structure Routes.Listed (rt : Routes) (t : List (List UInt8 × List Nat)) : Prop where
  table : ∃ ids, ids.Nodup ∧ Seg rt.nextEntry rt.routeLst ids none ∧ List.Forall₂ rt.Holds ids t
  known : ∀ r ∈ t, ∀ pe ∈ r.2, pe < rt.cfgPeerLst.length

/-- A table read from a configuration is one. -/
theorem Routes.WellKept.listed {rt : Routes} {k : Conf} (h : rt.WellKept k) (hk : k.Known) :
    rt.Listed k.table where
  table := h.table
  known := by
    rw [h.peers]
    exact hk

/-- The peers on the way to a realm, in the order of the route. -/
def routePeers (fnmatch : List UInt8 → List UInt8 → Bool) (cfgPeerLst : List PeerEntry)
    (t : List (List UInt8 × List Nat)) (realm : Str) : List Nat :=
  if maxRealmLen < realm.len then []
  else
    match t.find? fun r =>
      fnmatch (Routes.cString r.1) (Routes.cString (realm.bytes.getD [])) with
    | none => []
    | some r => r.2.filterMap fun pe => cfgPeerLst[pe]?.bind PeerEntry.peer

/-- The first of them that can be sent to. -/
def firstReady (n : Node) (peers : List Nat) : Option Nat :=
  peers.find? fun q => (n.peers q).canSend

/-- The request is neither for this host or a peer nor for this realm: `do_route` gets it. -/
def RoutedByTable (cfg : Cfg) (lk : Lookups) (h : Heap) (m : Message) (realm : Str) : Prop :=
  (∃ p ∈ m.destRealm, ∃ a, h.cells[p]? = some a ∧ a.data = realm)
    ∧ isOwn cfg.aaaRealm realm = .ok false
    ∧ ∀ p ∈ m.destHost, ∃ a, h.cells[p]? = some a ∧ isOwn cfg.aaaIdentity a.data = .ok false
      ∧ lk.byIdentity a.data = none

/-- One transaction was linked at `q`, and the request written to it once. -/
structure Handed (n n' : Node) (env : Env) (m : Message) (inP q : Nat) (sent : List UInt8) :
    Prop where
  ready : (n.peers q).canSend = true
  others : ∀ p ≠ q, n'.peers p = n.peers p
  trans : ∃ l : HLink Trans, (n'.peers q).table.cells = (n.peers q).table.cells ++ [l]
    ∧ (∃ t, (n'.peers q).trTimer = (n.peers q).trTimer ++ [(l.payload.id, t)])
    ∧ l.payload.inPeer = some inP ∧ l.payload.origHopbyhopId = m.hopbyhopId
    ∧ sent = setWord (msgBuf m) 3 (le 4 l.label.toNat)
  written : ∃ w : World, w.writes = (n.peers q).writes
    ∧ n'.peers q = (w.safeWrite env.write .request sent).2

/-- The route the request takes, if it is routed by the table. -/
def Way (cfg : Cfg) (lk : Lookups) (fnmatch : List UInt8 → List UInt8 → Bool)
    (cfgPeerLst : List PeerEntry) (t : List (List UInt8 × List Nat)) (h : Heap) (m : Message)
    (peers : List Nat) : Prop :=
  ∃ realm, RoutedByTable cfg lk h m realm ∧ peers = routePeers fnmatch cfgPeerLst t realm

/-- The outcomes a request can have; `way` is the route it takes if it takes one. -/
inductive Outcome (cfg : Cfg) (env : Env) (n : Node) (m : Message) (inP : Nat)
    (way : List Nat → Prop) : After → Prop where
  | ran {mod : Module} (hmod : mod ∈ cfg.modules) :
      Outcome cfg env n m inP way ⟨[.modMsg mod], n, msgBuf m⟩
  | forwarded {q : Nat} {n' : Node} {sent : List UInt8} (hand : Handed n n' env m inP q sent)
      (hway : ∀ peers, way peers → firstReady n peers = some q) :
      Outcome cfg env n m inP way ⟨[.write q sent], n', sent⟩
  /-- No peer is touched, and the buffer is as it came in. -/
  | refused {code : UInt32}
      (hway : ∀ peers, way peers → env.trMem = true → firstReady n peers = none) :
      Outcome cfg env n m inP way ⟨[.errorReply code], n, msgBuf m⟩

/-! ## Sending -/

theorem safeWrite_trTimer (w : World) (r : WriteRes) (k : WriteKind) (buf : List UInt8) :
    (w.safeWrite r k buf).2.trTimer = w.trTimer := by
  cases r with
  | failed => rfl
  | wrote m =>
      simp only [World.safeWrite]
      split <;> rfl

section Send

variable {n : Node} {env : Env} {m : Message} {inP q : Nat}

/-- A peer that cannot be sent to is left alone. -/
theorem sendOn_refused (hq : (n.peers q).canSend = false) : n.sendOn env m inP q = (false, n) := by
  simp [Node.sendOn, World.sendReqToPeer, hq]

/-- The transaction a forwarded request gets. -/
def transFor (w : World) (m : Message) (inP : Nat) : Trans :=
  { id := w.nextTrans, inPeer := some inP, origHopbyhopId := m.hopbyhopId, info := 0
    internal := false, reqCode := msgCode (msgBuf m), origin := ⟨w.sock, w.resets⟩ }

theorem sendOn_peers (hq : (n.peers q).canSend = true) :
    (n.sendOn env m inP q).1 = true ∧ ∀ p, (n.sendOn env m inP q).2.peers p
      = if p = q then
          (((n.peers q).startTrans (endtoendOf (msgBuf m)) (transFor (n.peers q) m inP)).2.safeWrite
            env.write .request (outgoing (n.peers q) (msgBuf m))).2
        else n.peers p := by
  simp only [Node.sendOn, World.sendReqToPeer, hq, Bool.not_true, Bool.false_eq_true, if_false]
  exact ⟨trivial, fun p => rfl⟩

/-- **A send that succeeds** links one transaction and writes the request once. -/
theorem sendOn_handed (hq : (n.peers q).canSend = true) :
    ∃ n', n.sendOn env m inP q = (true, n')
      ∧ Handed n n' env m inP q (outgoing (n.peers q) (msgBuf m)) := by
  obtain ⟨hok, hpeers⟩ := @sendOn_peers n env m inP q hq
  have hself := hpeers q
  rw [if_pos rfl] at hself
  refine ⟨(n.sendOn env m inP q).2, Prod.ext hok rfl, hq, ?_, ?_, ?_⟩
  · intro p hp
    rw [hpeers p, if_neg hp]
  · refine ⟨⟨(n.peers q).eteHash (endtoendOf (msgBuf m)), _, transFor (n.peers q) m inP⟩, ?_,
      ⟨(n.peers q).jiffies + trTimeoutTimeout, ?_⟩, rfl, rfl, rfl⟩
    · rw [hself, (Node.safeWrite_table _ _ _ _).1]
      rfl
    · rw [hself, safeWrite_trTimer]
      rfl
  · exact ⟨((n.peers q).startTrans (endtoendOf (msgBuf m)) (transFor (n.peers q) m inP)).2, rfl,
      hself⟩

end Send

/-! ## Routing -/

section Route

variable {n : Node} {env : Env} {m : Message} {inP : Nat} {rt : Routes}
  {t : List (List UInt8 × List Nat)} {fnmatch : List UInt8 → List UInt8 → Bool}

/-- The loop over a route that ends stops at its first peer that can be sent to. -/
theorem tryPeers_eq {a : Option Nat} {ns pes : List Nat} (hseg : Seg rt.nextNode a ns none)
    (hpes : ns.map (fun p => rt.nodes[p]?.map PeerEntryList.pe) = pes.map some)
    (hknown : ∀ pe ∈ pes, pe < rt.cfgPeerLst.length) {fuel : Nat} (hf : ns.length ≤ fuel) :
    n.tryPeers rt env m inP fuel a
      = .ok ((firstReady n (pes.filterMap fun pe => rt.cfgPeerLst[pe]?.bind PeerEntry.peer)).map
          fun q => (q, (n.sendOn env m inP q).2)) := by
  induction ns generalizing a pes fuel with
  | nil =>
      obtain rfl : a = none := hseg
      obtain rfl : pes = [] := by simpa using hpes.symm
      cases fuel <;> rfl
  | cons p ns ih =>
      obtain ⟨rfl, hrest⟩ := hseg
      obtain ⟨fuel, rfl⟩ := Nat.exists_eq_succ_of_ne_zero (Nat.ne_of_gt (Nat.zero_lt_of_lt hf))
      cases pes with
      | nil => simp at hpes
      | cons pe pes =>
          simp only [List.map_cons, List.cons.injEq] at hpes
          obtain ⟨c, hc, rfl⟩ := Option.map_eq_some_iff.mp hpes.1
          have hnx : rt.nextNode p = c.next := by
            rw [Routes.nextNode, hc]
            rfl
          rw [hnx] at hrest
          obtain ⟨e, hpe⟩ : ∃ e, rt.cfgPeerLst[c.pe]? = some e :=
            ⟨_, List.getElem?_eq_getElem (hknown c.pe (by simp))⟩
          have hih := ih hrest hpes.2 (fun x hx => hknown x (by simp [hx])) (by simpa using hf)
          rw [Node.tryPeers, Routes.node, hc, Res.ofAccess_some, Res.ok_bind, hpe, Res.ofAccess_some,
            Res.ok_bind]
          -- a peer without an object is passed over, one that cannot be sent to as well
          cases hpeer : e.peer with
          | none =>
              simp only
              rw [hih, List.filterMap_cons, hpe]
              simp [hpeer]
          | some q =>
              rw [List.filterMap_cons, hpe]
              simp only [Option.bind_some, hpeer, firstReady, List.find?_cons]
              cases hq : (n.peers q).canSend with
              | false =>
                  rw [sendOn_refused hq]
                  exact hih
              | true =>
                  obtain ⟨n', hsend, -⟩ := @sendOn_handed n env m inP q hq
                  rw [hsend]
                  simp [hsend]

/-- **`do_route`** sends to the first peer of the route that can be sent to. -/
theorem doRoute_eq (hrt : rt.Listed t) {realm : Str} (hlen : realm.len < 2 ^ 31)
    (hbytes : realm.bytes.isSome) :
    n.doRoute fnmatch rt env m inP realm
      = .ok (if env.trMem then
          (firstReady n (routePeers fnmatch rt.cfgPeerLst t realm)).map
            fun q => (q, (n.sendOn env m inP q).2)
        else none) := by
  obtain ⟨ids, hnd, hseg, hhold⟩ := hrt.table
  have hlive := Live.of_holds hhold
  obtain ⟨bs, hbs⟩ := Option.isSome_iff_exists.mp hbytes
  unfold Node.doRoute Routes.routeDest routePeers
  by_cases hbig : maxRealmLen < realm.len
  · rw [if_pos ⟨hbig, hlen⟩, if_pos hbig]
    simp [firstReady]
  · rw [if_neg (fun hb => hbig hb.1), if_neg (Nat.not_le_of_lt hlen), if_neg hbig, hbs,
      Res.ofAccess_some, Res.ok_bind]
    rcases searchEntries_first (fun x => fnmatch (Routes.cString x) (Routes.cString bs)) hseg hhold
      (hlive.length_le hnd) with ⟨hrun, hfind⟩ | ⟨p, -, r, hfind, ⟨e, ns, he, -, hns, hnsnd, hpes⟩, hrun⟩
    · rw [hrun, Res.ok_bind, Option.getD_some, hfind]
      simp [firstReady]
    · rw [hrun, Res.ok_bind, Option.getD_some, hfind]
      simp only [entry_ok he, Res.ok_bind, Res.pure_eq]
      have hknown := hrt.known r (List.mem_of_find?_eq_some hfind)
      have hfuel : ns.length ≤ rt.nodes.length := length_le_of_nodup hnsnd (nodes_lt hpes)
      have htry := @tryPeers_eq n env m inP rt e.peerL ns r.2 hns hpes hknown _ hfuel
      cases hp : e.peerL with
      | none =>
          rw [hp] at htry
          cases rt.nodes.length <;> simp [Node.tryPeers] at htry <;> simp [← htry]
      | some p' =>
          rw [hp] at htry
          cases hm : env.trMem with
          | false => simp
          | true => simpa using htry

end Route

/-! ## The decision -/

/-- The request is done with in exactly one of the ways it should be. -/
def HandledOnce (cfg : Cfg) (lk : Lookups) (fnmatch : List UInt8 → List UInt8 → Bool) (rt : Routes)
    (t : List (List UInt8 × List Nat)) (env : Env) (n : Node) (h : Heap) (m : Message)
    (inP : Nat) : Prop :=
  ∃ out, n.processIncomingRequest cfg lk fnmatch rt env h m inP = .ok out
    ∧ Outcome cfg env n m inP (Way cfg lk fnmatch rt.cfgPeerLst t h m) out

section Decide

variable {cfg : Cfg} {lk : Lookups} {fnmatch : List UInt8 → List UInt8 → Bool} {rt : Routes}
  {t : List (List UInt8 × List Nat)} {env : Env} {n : Node} {h : Heap} {m : Message} {inP : Nat}
  {way : List Nat → Prop}

theorem runModule_outcome (hno : ∀ peers, ¬ way peers) :
    Outcome cfg env n m inP way (n.runModule cfg m) := by
  unfold Node.runModule
  split
  · rename_i mod hmod
    exact .ran (List.mem_of_find?_eq_some hmod)
  · exact .refused fun peers hp => absurd hp (hno peers)

theorem forwardTo_outcome (hno : ∀ peers, ¬ way peers) (q : Nat) :
    Outcome cfg env n m inP way (n.forwardTo env m inP q) := by
  unfold Node.forwardTo
  rw [Node.forwardRequest_eq]
  cases env.trMem with
  | false => exact .refused fun peers hp => absurd hp (hno peers)
  | true =>
      simp only [Bool.not_true, Bool.false_eq_true, if_false]
      cases hq : (n.peers q).canSend with
      | false =>
          rw [sendOn_refused hq]
          exact .refused fun peers hp => absurd hp (hno peers)
      | true =>
          obtain ⟨n', hsend, hand⟩ := @sendOn_handed n env m inP q hq
          rw [hsend]
          exact .forwarded hand fun peers hp => absurd hp (hno peers)

theorem isOwn_ok (own : List UInt8) {s : Str} (hs : s.len < 2 ^ 31 → s.bytes.isSome) :
    ∃ b, isOwn own s = .ok b := by
  unfold isOwn
  split
  · rename_i hl
    obtain ⟨bs, hbs⟩ := Option.isSome_iff_exists.mp (hs hl.1)
    rw [hbs]
    exact ⟨_, rfl⟩
  · exact ⟨false, rfl⟩

/-- Nothing else decides which realm is routed. -/
theorem RoutedByTable.unique {realm : Str} (hr : RoutedByTable cfg lk h m realm) {p : Nat} {a : Avp}
    (hp : m.destRealm = some p) (ha : h.cells[p]? = some a) :
    realm = a.data ∧ isOwn cfg.aaaRealm a.data = .ok false := by
  obtain ⟨⟨q, hq, b, hb, rfl⟩, hown, -⟩ := hr
  obtain rfl : p = q := Option.some.inj (hp.symm.trans hq)
  obtain rfl : a = b := Option.some.inj (ha.symm.trans hb)
  exact ⟨rfl, hown⟩

/-- A realm of negative length stops the program. -/
theorem doRoute_fault {realm : Str} (hlen : 2 ^ 31 ≤ realm.len) :
    n.doRoute fnmatch rt env m inP realm = .fault := by
  unfold Node.doRoute Routes.routeDest
  rw [if_neg (fun hb => Nat.not_lt_of_le hlen hb.2), if_pos hlen]
  rfl

/-- The half that looks at the realm, for a request that is not for a host known here. -/
theorem processByRealm_iff (hread : Readable h m) (hrt : rt.Listed t) {r : Nat}
    (hr : m.destRealm = some r)
    (hhost : ∀ p ∈ m.destHost, ∃ a, h.cells[p]? = some a
      ∧ isOwn cfg.aaaIdentity a.data = .ok false ∧ lk.byIdentity a.data = none) :
    (∃ out, n.processByRealm cfg lk fnmatch rt env h m inP r = .ok out
        ∧ Outcome cfg env n m inP (Way cfg lk fnmatch rt.cfgPeerLst t h m) out)
      ↔ ∀ realm, RoutedByTable cfg lk h m realm → realm.len < 2 ^ 31 := by
  obtain ⟨a, ha, hbytes⟩ := hread r (Or.inr hr)
  obtain ⟨b, hb⟩ := isOwn_ok cfg.aaaRealm hbytes
  unfold Node.processByRealm
  rw [ha, Res.ofAccess_some, Res.ok_bind, hb, Res.ok_bind]
  cases b with
  | true =>
      have hnot : ∀ realm, ¬ RoutedByTable cfg lk h m realm := fun realm hrt' => by
        have := (hrt'.unique hr ha).2
        rw [hb] at this
        exact absurd this (by simp)
      have hno : ∀ peers, ¬ Way cfg lk fnmatch rt.cfgPeerLst t h m peers :=
        fun peers ⟨realm, hw, _⟩ => hnot realm hw
      refine iff_of_true ?_ fun realm hw => absurd hw (hnot realm)
      rw [if_pos rfl]
      split
      · exact ⟨_, rfl, runModule_outcome hno⟩
      · split
        · exact ⟨_, rfl, forwardTo_outcome hno _⟩
        · exact ⟨_, rfl, .refused fun peers hp => absurd hp (hno peers)⟩
  | false =>
      have hby : RoutedByTable cfg lk h m a.data := ⟨⟨r, hr, a, ha, rfl⟩, hb, hhost⟩
      have hway : ∀ peers, Way cfg lk fnmatch rt.cfgPeerLst t h m peers →
          peers = routePeers fnmatch rt.cfgPeerLst t a.data := by
        rintro peers ⟨realm, hw, rfl⟩
        rw [(hw.unique hr ha).1]
      simp only [Bool.false_eq_true, if_false]
      -- as a signed number, the length is negative from here on
      by_cases hlen : a.data.len < 2 ^ 31
      · refine iff_of_true ?_ fun realm hw => (hw.unique hr ha).1 ▸ hlen
        rw [doRoute_eq hrt hlen (hbytes hlen), Res.ok_bind]
        cases hm : env.trMem with
        | false => exact ⟨_, rfl, .refused fun peers _ ht => absurd (hm.symm.trans ht) (by simp)⟩
        | true =>
            cases hfirst : firstReady n (routePeers fnmatch rt.cfgPeerLst t a.data) with
            | none => exact ⟨_, rfl, .refused fun peers hp _ => by rw [hway peers hp, hfirst]⟩
            | some q =>
                have hq : (n.peers q).canSend = true := by simpa using List.find?_some hfirst
                obtain ⟨n', hsend, hand⟩ := @sendOn_handed n env m inP q hq
                simp only [if_true, Option.map_some, hsend]
                exact ⟨_, rfl, .forwarded hand fun peers hp => by rw [hway peers hp, hfirst]⟩
      · refine iff_of_false ?_ fun hall => hlen (hall _ hby)
        rintro ⟨out, hrun, -⟩
        rw [doRoute_fault (Nat.le_of_not_lt hlen)] at hrun
        exact absurd hrun (by nofun)

/--
**One outcome per request.**

Whatever the peers, the routes, the modules and the allocations are, exactly one thing is done
with a request, unless it has to be routed by the table and the length of its realm is negative.
-/
theorem handledOnce_iff (hread : Readable h m) (hrt : rt.Listed t) :
    HandledOnce cfg lk fnmatch rt t env n h m inP
      ↔ ∀ realm, RoutedByTable cfg lk h m realm → realm.len < 2 ^ 31 := by
  unfold HandledOnce Node.processIncomingRequest
  cases hr : m.destRealm with
  | none =>
      have hnot : ∀ realm, ¬ RoutedByTable cfg lk h m realm := by
        rintro realm ⟨⟨p, hp, -⟩, -⟩
        rw [hr] at hp
        exact absurd hp (by simp)
      have hno : ∀ peers, ¬ Way cfg lk fnmatch rt.cfgPeerLst t h m peers :=
        fun peers ⟨realm, hw, _⟩ => hnot realm hw
      refine iff_of_true ?_ fun realm hw => absurd hw (hnot realm)
      cases m.destHost with
      | none => exact ⟨_, rfl, runModule_outcome hno⟩
      | some d => exact ⟨_, rfl, .refused fun peers hp => absurd hp (hno peers)⟩
  | some r =>
      cases hd : m.destHost with
      | none => exact processByRealm_iff hread hrt hr (by simp [hd])
      | some d =>
          obtain ⟨a, ha, hbytes⟩ := hread d (Or.inl hd)
          obtain ⟨b, hb⟩ := isOwn_ok cfg.aaaIdentity hbytes
          simp only [ha, Res.ofAccess_some, Res.ok_bind, hb]
          -- a request for this host or for a peer is not routed at all
          have hhost : ∀ realm, RoutedByTable cfg lk h m realm → b = false
              ∧ lk.byIdentity a.data = none := by
            rintro realm ⟨-, -, hall⟩
            obtain ⟨a', ha', hown, hlk⟩ := hall d hd
            obtain rfl : a = a' := Option.some.inj (ha.symm.trans ha')
            exact ⟨by simpa [hb] using hown, hlk⟩
          cases b with
          | true =>
              refine iff_of_true ⟨_, rfl, runModule_outcome ?_⟩ fun realm hw => ?_
              · rintro peers ⟨realm, hw, -⟩
                exact absurd (hhost realm hw).1 (by simp)
              · exact absurd (hhost realm hw).1 (by simp)
          | false =>
              simp only [Bool.false_eq_true, if_false]
              cases hlk : lk.byIdentity a.data with
              | some q =>
                  refine iff_of_true ⟨_, rfl, forwardTo_outcome ?_ q⟩ fun realm hw => ?_
                  · rintro peers ⟨realm, hw, -⟩
                    exact absurd ((hhost realm hw).2.symm.trans hlk) (by simp)
                  · exact absurd ((hhost realm hw).2.symm.trans hlk) (by simp)
              | none =>
                  refine processByRealm_iff hread hrt hr fun p hp => ?_
                  obtain rfl : d = p := Option.some.inj (hd.symm.trans hp)
                  exact ⟨a, ha, hb, hlk⟩

end Decide

/-! ## A node with one route -/

/-- A route for the realm `abcd`, over a peer that has an object. -/
def oneRoute : Routes :=
  { cfgPeerLst := [⟨[97], [97], [97], some 1⟩], myAaaStatus := aaaServer, routeLst := some 0
    entries := [some ⟨[97, 98, 99, 100], some 0, none⟩], nodes := [⟨0, none⟩] }

/-- All its peers are connected. -/
def connectedNode : Node :=
  { peers := fun _ => { World.start (fun _ => 0) 0 0 with state := .conn }
    relays := fun _ => none, forwards := [] }

/-- No peer has the host or the realm asked for. -/
def noLookups : Lookups := ⟨fun _ => none, fun _ _ => none⟩

/-- A request for the realm `abcd`. -/
def realmRequest : Message :=
  { Message.zero with flags := 0x80, destRealm := some 0, head := some 0, tail := some 0
                      buf := some (List.replicate 32 0) }

/-- Its one AVP. -/
def realmHeap : Heap :=
  ⟨[{ next := none, prev := none, code := 283, flags := 0x40, type := .string, vendorId := 0
      data := ⟨[97, 98, 99, 100], 0, 4⟩, freeIt := false }]⟩

theorem oneRoute_listed : oneRoute.Listed [([97, 98, 99, 100], [0])] where
  table := by
    refine ⟨[0], by simp, ⟨rfl, rfl⟩, List.Forall₂.cons ?_ List.Forall₂.nil⟩
    exact ⟨_, [0], rfl, rfl, ⟨rfl, rfl⟩, by simp, rfl⟩
  known := by decide

theorem handledOnce_sample :
    HandledOnce sampleCfg noLookups (fun pattern realm => decide (pattern = realm)) oneRoute
      [([97, 98, 99, 100], [0])] sampleEnv connectedNode realmHeap realmRequest 0 := by
  have hread : Readable realmHeap realmRequest := by
    intro p hp
    obtain rfl : 0 = p := by simpa [realmRequest, Message.zero] using hp
    exact ⟨_, rfl, fun _ => by decide⟩
  refine (handledOnce_iff hread oneRoute_listed).mpr ?_
  rintro realm ⟨⟨p, hp, a, ha, rfl⟩, -⟩
  obtain rfl : 0 = p := Option.some.inj hp
  obtain rfl := Option.some.inj ha
  decide

/-- A request with all the AVPs it needs, and five as the length of its Destination-Realm. -/
def negativeRealm : List UInt8 :=
  [1, 0, 0, 76, 0x80, 0, 1, 16, 0, 0, 0, 4, 0, 0, 0, 7, 0, 0, 0, 8,
   0, 0, 1, 7, 0x40, 0, 0, 12, 97, 98, 99, 100,
   0, 0, 1, 8, 0x40, 0, 0, 12, 97, 98, 99, 100,
   0, 0, 1, 40, 0x40, 0, 0, 12, 97, 98, 99, 100,
   0, 0, 1, 27, 0x40, 0, 0, 5,
   0, 0, 0, 25, 0x40, 0, 0, 12, 97, 98, 99, 100]

/-- The AVP the decoder makes of the bytes at an offset of it, linked to its neighbours. -/
def negativeCell (p : Nat) (prev next : Option Nat) : Avp := { cellAt negativeRealm p with prev, next }

def negativeHeap : Heap :=
  ⟨[negativeCell 20 none (some 1), negativeCell 32 (some 0) (some 2),
    negativeCell 44 (some 1) (some 3), negativeCell 56 (some 2) (some 4),
    negativeCell 64 (some 3) none]⟩

def negativeRequest : Message :=
  { hdrMessage negativeRealm with
    sessionId := some 0, origHost := some 1, origRealm := some 2, destRealm := some 3
    head := some 0, tail := some 4, buf := some negativeRealm }

/-- It is decoded and passes the checks, and then stops the program. -/
theorem negativeRealm_not_handled :
    aaaTranslateMessage .all ⟨[]⟩ ⟨2 ^ 24, negativeRealm, by decide⟩ 76 true
        = .ok (negativeHeap, negativeRequest)
      ∧ isReq negativeRequest = true ∧ isSane negativeRequest = true
      ∧ ¬ HandledOnce sampleCfg noLookups (fun pattern realm => decide (pattern = realm)) oneRoute
        [([97, 98, 99, 100], [0])] sampleEnv connectedNode negativeHeap negativeRequest 0 := by
  refine ⟨by decide +kernel, by decide, by decide, ?_⟩
  rintro ⟨out, hrun, -⟩
  have hfault : connectedNode.processIncomingRequest sampleCfg noLookups
      (fun pattern realm => decide (pattern = realm)) oneRoute sampleEnv negativeHeap
      negativeRequest 0 = .fault := rfl
  rw [hfault] at hrun
  exact absurd hrun (by simp)

end Disc.Server
