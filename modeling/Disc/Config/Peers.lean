import Disc.Config.Uri

/-!
# The list of configured peers

`add_cfg_peer` of `route.c`, called for each peer the configuration names with its URI and
its alias. A peer without an alias comes with an empty one, and two empty aliases compare
equal like any other two: of the peers without an alias only the first is listed.
-/

namespace Disc.Config

open Disc.Lib Disc.Server

/-! ## The code -/

/-- `LIST_APPEND`. -/
def listAppend (elem : PeerEntry) : List PeerEntry → List PeerEntry
  | [] => [elem]
  | t :: list => t :: listAppend elem list

/-- The loop over the entries: the alias or the peer is present already. -/
def alreadyPresent (uri : List UInt8) (aliasName : Option (List UInt8)) : List PeerEntry → Bool
  | [] => false
  | t :: list =>
      if aliasName.any (sameName t.aliasName ·) then true
      else if sameName t.fullUri uri then true
      else alreadyPresent uri aliasName list

/-- `add_cfg_peer`: what it returns, and the list; `mem` tells whether there is memory. -/
def addCfgPeer (cfgPeerLst : List PeerEntry) (mem : Bool) (uri : List UInt8)
    (aliasName : Option (List UInt8)) : Res (Int × List PeerEntry) :=
  if alreadyPresent uri aliasName cfgPeerLst then .ok (-1, cfgPeerLst)
  else if ¬ mem then .ok (-1, cfgPeerLst)
  else do
    let aliasName ← Res.ofAccess aliasName
    match aaaParseUri uri with
    | .ok u =>
        let host := (u.host.bind (·.of uri)).getD []
        return (0, listAppend ⟨host, uri, aliasName, none⟩ cfgPeerLst)
    | .error => return (-1, cfgPeerLst)
    | .fault => .fault
    | .diverge => .diverge

/-- A string of the configuration: it has no zero byte. -/
structure CfgStr where
  bytes : List UInt8
  noZero : 0 ∉ bytes

/-- A peer the configuration names; without an alias, `cfg_addpair` passes an empty one. -/
structure PeerCall where
  uri : CfgStr
  aliasName : CfgStr

/-- The peers of the configuration in their order, while there is memory. -/
def addPeers (cfgPeerLst : List PeerEntry) : List PeerCall → Res (List PeerEntry)
  | [] => .ok cfgPeerLst
  | c :: calls => do
      let (_, cfgPeerLst) ← addCfgPeer cfgPeerLst true c.uri.bytes (some c.aliasName.bytes)
      addPeers cfgPeerLst calls

/-! ## What a call should do -/

/-- The same text, whatever the letters' case. -/
def SameText (s t : List UInt8) : Prop := s.map tolower = t.map tolower

instance (s t : List UInt8) : Decidable (SameText s t) := inferInstanceAs (Decidable (_ = _))

/-- The parser accepts it. -/
def AcceptedUri (uri : List UInt8) : Prop := ∃ u, aaaParseUri uri = .ok u

/-- The reasons to reject a peer: no URI, a URI that is listed, or an alias that is. -/
def PeerCall.Bad (c : PeerCall) (lst : List PeerEntry) : Prop :=
  ¬ AcceptedUri c.uri.bytes ∨ (∃ t ∈ lst, SameText t.fullUri c.uri.bytes)
    ∨ (c.aliasName.bytes ≠ [] ∧ ∃ t ∈ lst, SameText t.aliasName c.aliasName.bytes)

/--
The peer is rejected if there is a reason and otherwise appended, and what is rejected
leaves the list alone.
-/
def PeerCall.Right (c : PeerCall) (lst : List PeerEntry) : Prop :=
  ∃ r lst', addCfgPeer lst true c.uri.bytes (some c.aliasName.bytes) = .ok (r, lst')
    ∧ (r = -1 ∧ c.Bad lst ∧ lst' = lst
      ∨ r = 0 ∧ ¬ c.Bad lst
        ∧ ∃ n, lst' = lst ++ [n] ∧ n.fullUri = c.uri.bytes ∧ n.aliasName = c.aliasName.bytes)

/-- A good peer without an alias comes after one that has none either. -/
def PeerCall.SecondUnnamed (c : PeerCall) (lst : List PeerEntry) : Prop :=
  ¬ c.Bad lst ∧ c.aliasName.bytes = [] ∧ ∃ t ∈ lst, t.aliasName = []

/-! ## What it does -/

theorem listAppend_eq (elem : PeerEntry) (list : List PeerEntry) :
    listAppend elem list = list ++ [elem] := by
  induction list with
  | nil => rfl
  | cons t list ih => rw [listAppend, ih, List.cons_append]

theorem zero_not_mem_tolower {s : List UInt8} (h : 0 ∉ s) : 0 ∉ s.map tolower := by
  have hzero : ∀ c, tolower c = 0 → c = 0 :=
    forall_byte (P := fun c => tolower c = 0 → c = 0) (by decide +kernel)
  intro hmem
  obtain ⟨c, hc, hlow⟩ := List.mem_map.mp hmem
  exact h (hzero c hlow ▸ hc)

/-- For strings the comparison of the code is that of the letters. -/
theorem sameName_iff {s t : List UInt8} (ht : 0 ∉ t) : sameName s t ↔ SameText s t := by
  rw [sameName, Bool.and_eq_true, decide_eq_true_iff, decide_eq_true_iff,
    strncasecmp_literal (zero_not_mem_tolower ht), SameText]
  constructor
  · rintro ⟨hlen, h⟩
    rwa [← hlen, List.take_length] at h
  · intro h
    have hlen : s.length = t.length := by
      have h' := congrArg List.length h
      rwa [List.length_map, List.length_map] at h'
    exact ⟨hlen, by rwa [← hlen, List.take_length]⟩

theorem alreadyPresent_iff {uri aliasName : List UInt8} {lst : List PeerEntry} (hu : 0 ∉ uri)
    (ha : 0 ∉ aliasName) :
    alreadyPresent uri (some aliasName) lst
      ↔ ∃ t ∈ lst, SameText t.aliasName aliasName ∨ SameText t.fullUri uri := by
  induction lst with
  | nil => simp [alreadyPresent]
  | cons t lst ih =>
      rw [List.exists_mem_cons_iff, ← ih, ← sameName_iff ha, ← sameName_iff hu, alreadyPresent,
        Option.any_some]
      cases sameName t.aliasName aliasName with
      | true => simp
      | false => cases sameName t.fullUri uri with
        | true | false => simp

/-- What a call comes to: it is rejected, or its peer is appended. -/
theorem addCfgPeer_cases (lst : List PeerEntry) (c : PeerCall) :
    (¬ alreadyPresent c.uri.bytes (some c.aliasName.bytes) lst ∧ AcceptedUri c.uri.bytes
        ∧ ∃ n, addCfgPeer lst true c.uri.bytes (some c.aliasName.bytes) = .ok (0, lst ++ [n])
          ∧ n.fullUri = c.uri.bytes ∧ n.aliasName = c.aliasName.bytes)
      ∨ ((alreadyPresent c.uri.bytes (some c.aliasName.bytes) lst ∨ ¬ AcceptedUri c.uri.bytes)
        ∧ addCfgPeer lst true c.uri.bytes (some c.aliasName.bytes) = .ok (-1, lst)) := by
  by_cases hp : alreadyPresent c.uri.bytes (some c.aliasName.bytes) lst
  · exact .inr ⟨.inl hp, by rw [addCfgPeer, if_pos hp]⟩
  · rcases aaaParseUri_cases c.uri.bytes with hbad | ⟨t, hg, ht⟩
    · have hno : ¬ AcceptedUri c.uri.bytes := by
        rintro ⟨u, hu⟩
        exact absurd (hbad.symm.trans hu) (by nofun)
      refine .inr ⟨.inr hno, ?_⟩
      rw [addCfgPeer, if_neg hp, hbad]
      rfl
    · have hok : aaaParseUri c.uri.bytes = .ok t.uri := ht ▸ aaaParseUri_text hg
      refine .inl ⟨hp, ⟨_, hok⟩, ⟨(t.uri.host.bind (·.of c.uri.bytes)).getD [], c.uri.bytes,
        c.aliasName.bytes, none⟩, ?_, rfl, rfl⟩
      rw [addCfgPeer, if_neg hp, hok, ← listAppend_eq]
      rfl

/-- **A call is right unless it names the second peer without an alias.** -/
theorem right_iff (lst : List PeerEntry) (c : PeerCall) :
    c.Right lst ↔ ¬ c.SecondUnnamed lst := by
  have hpresent := @alreadyPresent_iff _ _ lst c.uri.noZero c.aliasName.noZero
  rcases addCfgPeer_cases lst c with ⟨hnew, hok, n, h, hn⟩ | ⟨hwhy, h⟩
  · -- accepted: nothing is listed that compares equal
    have hgood : ¬ c.Bad lst := by
      rintro (hbad | ⟨t, ht, hs⟩ | ⟨-, t, ht, hs⟩)
      · exact hbad hok
      · exact hnew (hpresent.mpr ⟨t, ht, .inr hs⟩)
      · exact hnew (hpresent.mpr ⟨t, ht, .inl hs⟩)
    refine iff_of_true ⟨0, _, h, .inr ⟨rfl, hgood, n, rfl, hn⟩⟩ ?_
    rintro ⟨-, hempty, t, ht, hs⟩
    exact hnew (hpresent.mpr ⟨t, ht, .inl (by rw [hempty, hs]; rfl)⟩)
  · by_cases hbad : c.Bad lst
    · exact iff_of_true ⟨-1, lst, h, .inl ⟨rfl, hbad, rfl⟩⟩ fun hs => hs.1 hbad
    · -- rejected without a reason, so it is the alias
      refine iff_of_false ?_ (not_not_intro ⟨hbad, ?_⟩)
      · rintro ⟨r, lst', hr, ⟨-, hb, -⟩ | ⟨h0, -⟩⟩
        · exact hbad hb
        · rw [h0, h] at hr
          exact absurd hr (by simp)
      · obtain ⟨hok, huri, halias⟩ : AcceptedUri c.uri.bytes ∧ (∀ t ∈ lst, ¬ SameText t.fullUri c.uri.bytes)
            ∧ (c.aliasName.bytes ≠ [] → ∀ t ∈ lst, ¬ SameText t.aliasName c.aliasName.bytes) := by
          simpa [PeerCall.Bad] using hbad
        rcases hwhy with hp | hno
        · obtain ⟨t, ht, hs | hs⟩ := hpresent.mp hp
          · have hempty : c.aliasName.bytes = [] := by
              by_contra hne
              exact halias hne t ht hs
            rw [hempty, SameText, List.map_nil, List.map_eq_nil_iff] at hs
            exact ⟨hempty, t, ht, hs⟩
          · exact absurd hs (huri t ht)
        · exact absurd hok hno

/-- The calls all come to an end. -/
theorem addPeers_ok (lst : List PeerEntry) (calls : List PeerCall) :
    ∃ lst', addPeers lst calls = .ok lst' := by
  induction calls generalizing lst with
  | nil => exact ⟨lst, rfl⟩
  | cons c calls ih =>
      rw [addPeers]
      rcases addCfgPeer_cases lst c with ⟨-, -, n, h, -⟩ | ⟨-, h⟩
      · rw [h]
        exact ih _
      · rw [h]
        exact ih _

/-- **The list of peers, for every configuration.** -/
theorem addPeers_right_iff (calls : List PeerCall) (c : PeerCall) :
    ∃ lst, addPeers [] calls = .ok lst ∧ (c.Right lst ↔ ¬ c.SecondUnnamed lst) := by
  obtain ⟨lst, h⟩ := addPeers_ok [] calls
  exact ⟨lst, h, right_iff lst c⟩

/-- Two peers without an alias: the second one is a good peer, and rejected. -/
theorem second_unnamed_rejected :
    ∃ lst, addPeers [] [⟨⟨ascii "aaa://a", by decide⟩, ⟨[], by decide⟩⟩] = .ok lst
      ∧ ¬ PeerCall.Right ⟨⟨ascii "aaa://b", by decide⟩, ⟨[], by decide⟩⟩ lst := by
  refine ⟨[⟨ascii "a", ascii "aaa://a", [], none⟩], by decide, ?_⟩
  rintro ⟨r, lst', hr, ⟨-, hbad, -⟩ | ⟨h0, -⟩⟩
  · rcases hbad with hno | ⟨t, ht, hs⟩ | ⟨hne, -⟩
    · exact hno ⟨⟨some ⟨6, 1⟩, none, none, none, none, 0⟩, by decide⟩
    · rw [List.mem_singleton.mp ht] at hs
      exact absurd hs (by decide)
    · exact hne rfl
  · have hrej : addCfgPeer [⟨ascii "a", ascii "aaa://a", [], none⟩] true (ascii "aaa://b") (some [])
        = .ok (-1, [⟨ascii "a", ascii "aaa://a", [], none⟩]) := by decide
    rw [h0, hrej] at hr
    exact absurd hr (by simp)

end Disc.Config
