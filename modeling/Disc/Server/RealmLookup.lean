import Disc.Lib.Run
import Disc.Server.Route
import Disc.Transport.Exchange

/-!
# The search for a peer by realm and application

`lookup_peer_by_realm_appid` of `peer.h`, on the table of peers as `process_ce` and
`reset_peer` leave it. The search takes what is stored about a peer for a string and two
lists that are there: it compares the length of the realm with that of the stored one less
one, as if a zero byte had been counted, and runs over both lists of ids to their zero.
What is stored has no such byte, a list without ids is a null pointer, and a peer that was
reset keeps the length of a realm that is gone.

The peer found is the last one that matches. Which message a peer is connected by is
recorded, and nothing in the source keeps it.
-/

namespace Disc.Server

open Disc.Lib Disc.Msg Disc.Transport

/-! ## The code -/

/-- A peer of the table. -/
structure TabledPeer where
  caps : Caps
  /-- The CER or CEA of its connection. -/
  ce : Option (List UInt8)
deriving Repr, DecidableEq

/-- A peer that is zeroed. -/
def TabledPeer.new : TabledPeer := { caps := ⟨none, none, none, 0⟩, ce := none }

/-- What `reset_peer` does to a peer, as far as the search goes: the length of the realm stays. -/
def TabledPeer.reset (p : TabledPeer) : TabledPeer :=
  { caps := { p.caps with suppAuthAppIds := none, suppAcctAppIds := none, realm := none }
    ce := none }

/-- A CER or CEA is processed; when that fails the peer is reset. -/
def TabledPeer.exchange (p : TabledPeer) (cfg : Cfg) (mem : CeMem) (buf : List UInt8)
    (isReq : Bool) : Res TabledPeer := do
  match ← processCe cfg mem buf isReq with
  | (_, some caps) => return { caps, ce := some buf }
  | (_, none) => return p.reset

/-- The loops over the ids: is `appid` in front of the zero? -/
def scanIds (appid : UInt32) : List UInt32 → Res Bool
  | [] => .fault
  | id :: ids =>
      if id = 0 then .ok false
      else if id = appid then .ok true
      else scanIds appid ids

/-- The body of the loop over the peers: is this one to be returned? -/
def matchPeer (realm : List UInt8) (appid : UInt32) (p : TabledPeer) : Res Bool :=
  if realm.length + 1 = p.caps.realmLen then do
    let cmp ←
      -- no byte is compared, so the pointer may be null
      if realm = [] then pure 0
      else do
        let s ← Res.ofAccess p.caps.realm
        pure (strncasecmp realm s realm.length)
    if cmp = 0 then do
      let auth ← Res.ofAccess p.caps.suppAuthAppIds
      let isAuth ← scanIds appid auth
      let acct ← Res.ofAccess p.caps.suppAcctAppIds
      let isAcct ← scanIds appid acct
      return isAuth || isAcct
    else return false
  else return false

/-- The loop over the peers, at the one with index `i`. -/
def lookupLoop (realm : List UInt8) (appid : UInt32) :
    List TabledPeer → Nat → Option Nat → Res (Option Nat)
  | [], _, res => .ok res
  | p :: ps, i, res => do
      let b ← matchPeer realm appid p
      lookupLoop realm appid ps (i + 1) (if b then some i else res)

/-- `lookup_peer_by_realm_appid`: the place of the peer in the table. -/
def lookupPeerByRealmAppid (t : List TabledPeer) (realm : List UInt8) (appid : UInt32) :
    Res (Option Nat) :=
  lookupLoop realm appid t 0 none

/-- What happens to the table. -/
inductive TableOp where
  | exchange (i : Nat) (mem : CeMem) (buf : List UInt8) (isReq : Bool)
  | reset (i : Nat)

/-- The table after an exchange or a reset. -/
def TableOp.step (cfg : Cfg) (t : List TabledPeer) : TableOp → Option (List TabledPeer)
  | .exchange i mem buf isReq => do
      let p ← t[i]?
      let p ← (p.exchange cfg mem buf isReq).toOption
      return t.set i p
  | .reset i => do
      let p ← t[i]?
      return t.set i p.reset

/-! ## What it should come to -/

/-- Note the AVP at `ptr`. -/
def noteAvp (vs : List (Nat × Nat)) (code ptr : Nat) : Res (List (Nat × Nat) ⊕ Empty) :=
  .ok (.inl (vs ++ [(ptr, code)]))

/-- The AVPs of a message as `for_all_AVPS_do_switch` meets them: offset and code. -/
def avpsIn (buf : List UInt8) : Res (List (Nat × Nat) ⊕ Empty) :=
  forAllAvps buf noteAvp (buf.length + 1) aaaMsgHdrSize []

/-- The offset of the last AVP with this code, or `p`. -/
def lastWith (code : Nat) (p : Option Nat) (vs : List (Nat × Nat)) : Option Nat :=
  vs.foldl (fun p v => if v.2 = code then some v.1 else p) p

/-- The data of the AVP at `ptr`. -/
def dataAt (buf : List UInt8) (ptr : Nat) : Res (List UInt8) := do
  let w ← load4 buf (ptr + 4)
  let flags ← avpFlagsAt buf ptr
  Res.ofAccess (slice buf (ptr + avpHdrSize flags) (usub (ofBe (w.drop 1)) (avpHdrSize flags)))

/-- The message advertises the realm `r`: it is that of its last Origin-Realm. -/
def SaysRealm (buf r : List UInt8) : Prop :=
  ∃ vs ptr, avpsIn buf = .ok (.inl vs) ∧ lastWith 296 none vs = some ptr ∧ dataAt buf ptr = .ok r

/--
The message advertises the application `id`, for authentication or for accounting: it is the
first word of the data of such an AVP, behind the vendor id if there is one.
-/
def SaysId (buf : List UInt8) (id : UInt32) : Prop :=
  ∃ vs ptr flags w, avpsIn buf = .ok (.inl vs) ∧ ((ptr, 258) ∈ vs ∨ (ptr, 259) ∈ vs)
    ∧ avpFlagsAt buf ptr = .ok flags ∧ load4 buf (ptr + avpHdrSize flags) = .ok w
    ∧ UInt32.ofNat (ofBe w) = id

/-- Peer `i` is connected, and has advertised the realm, whatever its letters' case, and the id. -/
def Serves (t : List TabledPeer) (realm : List UInt8) (appid : UInt32) (i : Nat) : Prop :=
  ∃ p buf r, t[i]? = some p ∧ p.ce = some buf ∧ SaysRealm buf r
    ∧ r.map tolower = realm.map tolower ∧ SaysId buf appid

/-- The search ends and returns a peer that serves the application in the realm, if there is one. -/
def FindsServer (t : List TabledPeer) (realm : List UInt8) (appid : UInt32) : Prop :=
  ∃ r, lookupPeerByRealmAppid t realm appid = .ok r
    ∧ (r.isSome ↔ ∃ i, Serves t realm appid i) ∧ ∀ i, r = some i → Serves t realm appid i

/--
The search goes past this peer: the length stored for its realm is not one more than that of
the realm in question, or the realm is there and starts otherwise, or both lists are there
and neither has the id in front of its zero.
-/
def GoesPast (realm : List UInt8) (appid : UInt32) (p : TabledPeer) : Prop :=
  realm.length + 1 = p.caps.realmLen →
    (realm ≠ [] ∧ ∃ s, p.caps.realm = some s ∧ strncasecmp realm s realm.length ≠ 0)
    ∨ ((realm = [] ∨ p.caps.realm.isSome)
      ∧ ∃ auth acct, p.caps.suppAuthAppIds = some auth ∧ p.caps.suppAcctAppIds = some acct
        ∧ appid ∉ auth.takeWhile (· ≠ 0) ∧ appid ∉ acct.takeWhile (· ≠ 0))

/-! ## One peer -/

section Search

variable {realm : List UInt8} {appid : UInt32}

/-- A list that has its zero is searched up to it. -/
theorem scanIds_eq {ids : List UInt32} (h0 : 0 ∈ ids) :
    scanIds appid ids = .ok (decide (appid ∈ ids.takeWhile (· ≠ 0))) := by
  induction ids with
  | nil => exact absurd h0 (by simp)
  | cons id ids ih =>
      rw [scanIds]
      by_cases hz : id = 0
      · rw [if_pos hz, List.takeWhile_cons_of_neg (by simpa using hz)]
        simp
      · rw [if_neg hz, List.takeWhile_cons_of_pos (by simpa using hz)]
        by_cases hid : id = appid
        · rw [if_pos hid]
          simp [hid]
        · rw [if_neg hid, ih ((List.mem_cons.mp h0).resolve_left fun he => hz he.symm)]
          simp [Ne.symm hid]

/-- The lists that are stored end with a zero. -/
def Terminated (p : TabledPeer) : Prop :=
  (∀ l, p.caps.suppAuthAppIds = some l → 0 ∈ l) ∧ ∀ l, p.caps.suppAcctAppIds = some l → 0 ∈ l

/-- A peer that is returned has a realm that is longer by one. -/
theorem matchPeer_true {p : TabledPeer} (h : matchPeer realm appid p = .ok true) :
    realm.length + 1 = p.caps.realmLen := by
  by_contra hne
  rw [matchPeer, if_neg hne] at h
  exact absurd (Res.ok.inj h) (by simp)

/-- The loops over both lists. -/
theorem scanBoth_eq_false {p : TabledPeer} (ht : Terminated p) :
    (do
      let auth ← Res.ofAccess p.caps.suppAuthAppIds
      let isAuth ← scanIds appid auth
      let acct ← Res.ofAccess p.caps.suppAcctAppIds
      let isAcct ← scanIds appid acct
      return isAuth || isAcct : Res Bool) = .ok false
    ↔ ∃ auth acct, p.caps.suppAuthAppIds = some auth ∧ p.caps.suppAcctAppIds = some acct
        ∧ appid ∉ auth.takeWhile (· ≠ 0) ∧ appid ∉ acct.takeWhile (· ≠ 0) := by
  cases hauth : p.caps.suppAuthAppIds with
  | none => exact iff_of_false (by nofun) (by simp)
  | some auth =>
      rw [Res.ofAccess_some, Res.ok_bind, scanIds_eq (ht.1 auth hauth), Res.ok_bind]
      cases hacct : p.caps.suppAcctAppIds with
      | none => exact iff_of_false (by nofun) (by simp)
      | some acct =>
          rw [Res.ofAccess_some, Res.ok_bind, scanIds_eq (ht.2 acct hacct), Res.ok_bind]
          simp

/-- **The body of the loop goes past a peer** exactly when this is so. -/
theorem matchPeer_false_iff {p : TabledPeer} (ht : Terminated p) :
    matchPeer realm appid p = .ok false ↔ GoesPast realm appid p := by
  unfold matchPeer GoesPast
  by_cases hlen : realm.length + 1 = p.caps.realmLen
  · rw [if_pos hlen]
    have hscan := @scanBoth_eq_false appid p ht
    by_cases hnil : realm = []
    · rw [if_pos hnil]
      simp only [Res.pure_eq, Res.ok_bind, if_true] at hscan ⊢
      rw [hscan]
      refine ⟨fun hids _ => Or.inr ⟨Or.inl hnil, hids⟩, fun h => ?_⟩
      rcases h hlen with ⟨hne, -⟩ | ⟨-, hids⟩
      · exact absurd hnil hne
      · exact hids
    · rw [if_neg hnil]
      cases hs : p.caps.realm with
      | none =>
          refine iff_of_false (by nofun) fun h => ?_
          rcases h hlen with ⟨-, s, hs', -⟩ | ⟨hnil' | hsome, -⟩
          · exact absurd hs' (by simp)
          · exact hnil hnil'
          · exact absurd hsome (by simp)
      | some s =>
          simp only [Res.ofAccess_some, Res.ok_bind, Res.pure_eq] at hscan ⊢
          by_cases hcmp : strncasecmp realm s realm.length = 0
          · rw [if_pos hcmp, hscan]
            simp [hlen, hnil, hcmp]
          · rw [if_neg hcmp]
            simp [hlen, hnil, hcmp]
  · rw [if_neg hlen]
    exact iff_of_true rfl fun he => absurd he hlen

/-! ## The loop -/

/-- Nothing is found exactly when every peer is gone past. -/
theorem lookupLoop_none_iff {ps : List TabledPeer} {i : Nat} {res : Option Nat} :
    lookupLoop realm appid ps i res = .ok none
      ↔ res = none ∧ ∀ p ∈ ps, matchPeer realm appid p = .ok false := by
  induction ps generalizing i res with
  | nil => simp [lookupLoop]
  | cons p ps ih =>
      rw [lookupLoop]
      cases hm : matchPeer realm appid p with
      | ok b =>
          rw [Res.ok_bind, ih]
          cases b with
          | true => simp [hm]
          | false => simp [hm]
      | error | fault | diverge => exact iff_of_false (by nofun) (by simp [hm])

/-- What is found matched. -/
theorem lookupLoop_some {ps : List TabledPeer} {i j : Nat} {res : Option Nat}
    (h : lookupLoop realm appid ps i res = .ok (some j)) :
    res = some j ∨ ∃ k p, j = i + k ∧ ps[k]? = some p ∧ matchPeer realm appid p = .ok true := by
  induction ps generalizing i res with
  | nil => exact Or.inl (Res.ok.inj h)
  | cons p ps ih =>
      rw [lookupLoop] at h
      obtain ⟨b, hm, h⟩ := Res.bind_eq_ok h
      rcases ih h with hres | ⟨k, q, hj, hq, hmq⟩
      · cases b with
        | false => exact Or.inl hres
        | true => exact Or.inr ⟨0, p, (Option.some.inj hres).symm, rfl, hm⟩
      · exact Or.inr ⟨k + 1, q, by omega, hq, hmq⟩

end Search

/-! ## What is stored -/

section Stored

variable {cfg : Cfg} {buf : List UInt8} {mem : CeMem} {isReq : Bool}

/-- Of an AVP that does not end the walk, `process_ce` notes where it stands if it is a realm. -/
theorem ceSwitch_realm {s s' : CeState} {code ptr : Nat}
    (h : ceSwitch cfg buf s code ptr = .ok (.inl s')) :
    s'.realm = if code = 296 then some ptr else s.realm := by
  unfold ceSwitch at h
  split at h
  case h_1 =>
    obtain ⟨flags, -, h⟩ := Res.bind_eq_ok h
    obtain ⟨w, -, h⟩ := Res.bind_eq_ok h
    simp only [] at h
    split at h
    · exact absurd (Res.ok.inj h) (by simp)
    · obtain rfl := Sum.inl.inj (Res.ok.inj h)
      rfl
  case h_7 | h_8 =>
    split at h
    · obtain rfl := Sum.inl.inj (Res.ok.inj h)
      rfl
    · obtain ⟨w, -, h⟩ := Res.bind_eq_ok h
      obtain rfl := Sum.inl.inj (Res.ok.inj h)
      rfl
  case h_9 hne _ _ _ _ _ =>
    obtain rfl := Sum.inl.inj (Res.ok.inj h)
    rw [if_neg hne]
  all_goals
    obtain rfl := Sum.inl.inj (Res.ok.inj h)
    rfl

/-- Where `process_ce` is told to store a realm, the walk has seen the last one. -/
theorem walk_noted {fuel ptr : Nat} {s s' : CeState} {vs : List (Nat × Nat)}
    (h : forAllAvps buf (ceSwitch cfg buf) fuel ptr s = .ok (.inl s'))
    (hs : s.realm = lastWith 296 none vs) :
    ∃ vs', forAllAvps buf noteAvp fuel ptr vs = .ok (.inl vs')
      ∧ s'.realm = lastWith 296 none vs' := by
  induction fuel generalizing ptr s vs with
  | zero => exact absurd h (by simp [forAllAvps])
  | succ fuel ih =>
      rw [forAllAvps] at h ⊢
      by_cases hlt : ptr < buf.length
      · rw [if_pos hlt] at h ⊢
        obtain ⟨w, hw, h⟩ := Res.bind_eq_ok h
        obtain ⟨x, hx, h⟩ := Res.bind_eq_ok h
        rw [hw, Res.ok_bind]
        cases x with
        | inr c => exact absurd h (by simp)
        | inl s₁ =>
            obtain ⟨l, hl, h⟩ := Res.bind_eq_ok h
            have hrealm : s₁.realm = lastWith 296 none (vs ++ [(ptr, ofBe w)]) := by
              rw [ceSwitch_realm hx, lastWith, List.foldl_append, hs]
              rfl
            obtain ⟨vs', hrun, hlast⟩ := ih h hrealm
            refine ⟨vs', ?_, hlast⟩
            simp only [noteAvp, Res.ok_bind, hl]
            exact hrun
      · rw [if_neg hlt] at h ⊢
        obtain rfl := Sum.inl.inj (Res.ok.inj h)
        exact ⟨vs, rfl, hs⟩

theorem saveIds_terminated {m : Bool} {ids l : List UInt32} (h : saveIds m ids = some l) :
    0 ∈ l := by
  unfold saveIds at h
  split at h
  · obtain rfl := Option.some.inj h
    exact List.mem_append_right _ (List.mem_singleton.mpr rfl)
  · exact absurd h (by simp)

/-- The length stored for a realm is that of its data, which is there; or it is zero. -/
theorem saveRealm_length {m : Bool} {ptr len : Nat} {s : Option (List UInt8)} {r : List UInt8}
    (h : saveRealm m buf ptr = .ok (s, len)) (hd : dataAt buf ptr = .ok r) :
    len = 0 ∨ len = r.length := by
  obtain ⟨w, hw, h⟩ := Res.bind_eq_ok h
  obtain ⟨flags, hflags, h⟩ := Res.bind_eq_ok h
  rw [dataAt, hw, Res.ok_bind, hflags, Res.ok_bind] at hd
  dsimp only at h
  split at h
  · obtain ⟨-, rfl⟩ := Prod.mk.inj (Res.ok.inj h)
    exact Or.inl rfl
  · split at h
    · exact absurd h (by simp)
    · obtain ⟨r', hr', h⟩ := Res.bind_eq_ok h
      obtain rfl : r = r' := Res.ok.inj (hd.symm.trans hr')
      obtain ⟨-, rfl⟩ := Prod.mk.inj (Res.ok.inj h)
      exact Or.inr (length_slice (Res.ofAccess_eq_ok hr')).symm

/-- What is stored after an exchange that succeeded. -/
theorem processCe_realmLen {code : UInt32} {caps : Caps} {r : List UInt8}
    (h : processCe cfg mem buf isReq = .ok (code, some caps)) (hr : SaysRealm buf r) :
    caps.realmLen = 0 ∨ caps.realmLen = r.length := by
  obtain ⟨s, p, realm, realmLen, hwalk, hp, hsave, rfl⟩ := processCe_ok h
  have hstart : ceStart.realm = lastWith 296 none [] := rfl
  obtain ⟨vs, hvs, hlast⟩ := walk_noted hwalk hstart
  obtain ⟨vs', ptr, hvs', hptr, hdata⟩ := hr
  -- the walk that notes the AVPs is the one `process_ce` went
  obtain rfl : vs = vs' := Sum.inl.inj (Res.ok.inj (hvs.symm.trans hvs'))
  obtain rfl : p = ptr := Option.some.inj (hp.symm.trans (hlast.trans hptr))
  exact saveRealm_length hsave hdata

end Stored

/-! ## Every table -/

/-- What a peer of the table keeps to, whatever happened to it. -/
structure Kept (p : TabledPeer) : Prop where
  terminated : Terminated p
  realmLen : ∀ buf r, p.ce = some buf → SaysRealm buf r →
    p.caps.realmLen = 0 ∨ p.caps.realmLen = r.length

theorem kept_new : Kept .new :=
  ⟨⟨nofun, nofun⟩, nofun⟩

theorem Kept.reset (p : TabledPeer) : Kept p.reset :=
  ⟨⟨nofun, nofun⟩, nofun⟩

theorem Kept.exchange {cfg : Cfg} {mem : CeMem} {buf : List UInt8} {isReq : Bool}
    {p p' : TabledPeer} (h : p.exchange cfg mem buf isReq = .ok p') : Kept p' := by
  obtain ⟨⟨code, caps⟩, hce, h⟩ := Res.bind_eq_ok h
  cases caps with
  | none =>
      obtain rfl := Res.ok.inj h
      exact .reset p
  | some caps =>
      obtain rfl := Res.ok.inj h
      constructor
      · obtain ⟨s, ptr, realm, realmLen, -, -, -, rfl⟩ := processCe_ok hce
        exact ⟨fun l hl => saveIds_terminated hl, fun l hl => saveIds_terminated hl⟩
      · intro buf' r hbuf hr
        obtain rfl := Option.some.inj hbuf
        exact processCe_realmLen hce hr

/-- Some peers, all of them zeroed. -/
def NewTable (t : List TabledPeer) : Prop := ∃ n, t = List.replicate n .new

section Table

variable {cfg : Cfg} {t t' : List TabledPeer} {realm : List UInt8} {appid : UInt32}

theorem kept_step {a : TableOp} (ht : ∀ p ∈ t, Kept p) (h : a.step cfg t = some t') :
    ∀ p ∈ t', Kept p := by
  have hset : ∀ {i : Nat} {q : TabledPeer}, Kept q → ∀ p ∈ t.set i q, Kept p := by
    intro i q hq p hp
    rcases List.mem_or_eq_of_mem_set hp with hp | rfl
    · exact ht p hp
    · exact hq
  cases a with
  | exchange i mem buf isReq =>
      obtain ⟨p, -, h⟩ := Option.bind_eq_some_iff.mp h
      obtain ⟨q, hq, h⟩ := Option.bind_eq_some_iff.mp h
      obtain rfl := Option.some.inj h
      exact hset (.exchange (Res.toOption_eq_some hq))
  | reset i =>
      obtain ⟨p, -, h⟩ := Option.bind_eq_some_iff.mp h
      obtain rfl := Option.some.inj h
      exact hset (.reset p)

theorem kept_reach (h : Reach NewTable (TableOp.step cfg) anyStep t) : ∀ p ∈ t, Kept p := by
  refine Reach.invariant (I := fun t => ∀ p ∈ t, Kept p) ?_ ?_ h
  · intro t hinit p hp
    obtain ⟨n, rfl⟩ := hinit
    rw [List.eq_of_mem_replicate hp]
    exact kept_new
  · intro t a t' ht _ hs
    exact kept_step ht hs

/-- **A peer that serves the application is never the one returned.** -/
theorem lookup_not_serves (ht : ∀ p ∈ t, Kept p) {i : Nat}
    (h : lookupPeerByRealmAppid t realm appid = .ok (some i)) : ¬ Serves t realm appid i := by
  intro hserves
  obtain ⟨p, buf, r, hp, hce, hr, hcase, -⟩ := hserves
  rcases lookupLoop_some h with hnone | ⟨k, q, rfl, hq, hm⟩
  · exact absurd hnone (by simp)
  · rw [Nat.zero_add, hq] at hp
    obtain rfl := Option.some.inj hp
    have hlen := matchPeer_true hm
    have hsame : r.length = realm.length := by simpa using congrArg List.length hcase
    -- what was stored is as long as what the peer said, or nothing was
    rcases (ht q (List.mem_of_getElem? hq)).realmLen buf r hce hr with hz | hz
    · omega
    · omega

/--
**The search finds what it should exactly when there is nothing to find and it goes past
every peer**: what is stored for a realm is as long as the realm itself, so that a peer that
is returned does not serve it.
-/
theorem lookup_finds_iff (h : Reach NewTable (TableOp.step cfg) anyStep t) (realm : List UInt8)
    (appid : UInt32) :
    FindsServer t realm appid
      ↔ (∀ i, ¬ Serves t realm appid i) ∧ ∀ p ∈ t, GoesPast realm appid p := by
  have ht := kept_reach h
  have hpast : lookupPeerByRealmAppid t realm appid = .ok none
      ↔ ∀ p ∈ t, GoesPast realm appid p := by
    rw [lookupPeerByRealmAppid, lookupLoop_none_iff, and_iff_right rfl]
    exact forall₂_congr fun p hp => matchPeer_false_iff (ht p hp).terminated
  constructor
  · intro hfinds
    obtain ⟨r, hr, hiff, hserves⟩ := hfinds
    cases r with
    | none => exact ⟨fun i hi => absurd (hiff.mpr ⟨i, hi⟩) (by simp), hpast.mp hr⟩
    | some i => exact absurd (hserves i rfl) (lookup_not_serves ht hr)
  · intro hmiss
    obtain ⟨hnone, hgo⟩ := hmiss
    exact ⟨none, hpast.mpr hgo, ⟨nofun, fun ⟨i, hi⟩ => absurd hi (hnone i)⟩, nofun⟩

end Table

/-! ## A peer that serves its own realm -/

/-- A table of one peer, which sent a CER. -/
def oneServer : List TabledPeer :=
  [{ caps := ⟨some [1, 0], none, some [114], 1⟩, ce := some sampleCer }]

theorem oneServer_reach : Reach NewTable (TableOp.step sampleCfg) anyStep oneServer :=
  .step (a := .exchange 0 ⟨true, true, true⟩ sampleCer true) (.init ⟨1, rfl⟩) trivial
    (by decide +kernel)

/-- The AVPs of the CER. -/
theorem avpsIn_sampleCer : avpsIn sampleCer
    = .ok (.inl [(20, 264), (32, 296), (44, 257), (56, 266), (68, 269), (80, 258)]) := by
  decide +kernel

theorem saysRealm_sampleCer {r : List UInt8} : SaysRealm sampleCer r ↔ r = [114] := by
  have hdata : dataAt sampleCer 32 = .ok [114] := by decide +kernel
  constructor
  · intro hgives
    obtain ⟨vs, ptr, hvs, hlast, hr⟩ := hgives
    obtain rfl := Sum.inl.inj (Res.ok.inj (avpsIn_sampleCer.symm.trans hvs))
    obtain rfl := Option.some.inj hlast
    exact Res.ok.inj (hr.symm.trans hdata)
  · rintro rfl
    exact ⟨_, 32, avpsIn_sampleCer, rfl, hdata⟩

/-- In another realm nothing is found, as it should be. -/
theorem lookup_finds_other : FindsServer oneServer [120, 121] 1 := by
  refine (lookup_finds_iff oneServer_reach [120, 121] 1).mpr ⟨?_, ?_⟩
  · rintro i ⟨p, buf, r, hp, hce, hr, hcase, -⟩
    obtain rfl := List.mem_singleton.mp (List.mem_of_getElem? hp)
    obtain rfl := Option.some.inj hce
    obtain rfl := saysRealm_sampleCer.mp hr
    exact absurd (congrArg List.length hcase) (by simp)
  · intro p hp
    obtain rfl := List.mem_singleton.mp hp
    exact fun hlen => absurd hlen (by decide)

/--
The peer serves application 1 in its realm and is not found; and with an empty realm the
search reads a list of ids that was never stored.
-/
theorem lookup_misses_server :
    ∃ t, Reach NewTable (TableOp.step sampleCfg) anyStep t
      ∧ Serves t [114] 1 0 ∧ lookupPeerByRealmAppid t [114] 1 = .ok none
      ∧ ¬ FindsServer t [114] 1
      ∧ lookupPeerByRealmAppid t [] 2 = .fault ∧ ¬ FindsServer t [] 2 := by
  have hserves : Serves oneServer [114] 1 0 :=
    ⟨_, sampleCer, [114], rfl, rfl, saysRealm_sampleCer.mpr rfl, rfl,
      _, 80, 0x40, [0, 0, 0, 1], avpsIn_sampleCer, Or.inl (by decide), by decide +kernel, by decide +kernel,
      by decide⟩
  have hnone : lookupPeerByRealmAppid oneServer [114] 1 = .ok none := by decide +kernel
  have hfault : lookupPeerByRealmAppid oneServer [] 2 = .fault := by decide +kernel
  refine ⟨oneServer, oneServer_reach, hserves, hnone, ?_, hfault, ?_⟩
  · rintro ⟨r, hr, hiff, -⟩
    rw [hnone] at hr
    obtain rfl := Res.ok.inj hr
    exact absurd (hiff.mpr ⟨0, hserves⟩) (by simp)
  · rintro ⟨r, hr, -⟩
    exact absurd (hfault.symm.trans hr) (by simp)

end Disc.Server
