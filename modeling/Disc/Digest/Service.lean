import Mathlib.Data.List.Find
import Disc.Digest.Account
import Disc.Digest.Login
import Disc.Server.Reply

/-!
# The requests of a SIP server

`mod_msg` of the server's `sipauth.c`. The answer is made first. Then the first character of the
Service-Type says what is asked for: to authenticate a user, to look for one in a group, or to
enter a call. What comes out of it is the result code of the answer, and a user that is not
authenticated gets a challenge with it. If the database fails when a user is to be authenticated
no answer is sent; when it fails for a group or a call the request is rejected.

Request and answer have their AVPs in one heap, but making the answer leaves those of the
request alone.
-/

namespace Disc.Digest

open Disc.Lib Disc.Server Disc.Msg Disc.Transport

/-! ## The code -/

/-- `AAA_APP_NASREQ`. -/
def aaaAppNasreq : UInt32 := 1

/-- `AAA_SUCCESS`. -/
def aaaSuccess : UInt32 := 2001

/-- `AAA_AUTHENTICATION_REJECTED`. -/
def aaaAuthenticationRejected : UInt32 := 4001

/-- `AAA_AUTHORIZATION_REJECTED`. -/
def aaaAuthorizationRejected : UInt32 := 5003

/-- What a call of `mod_msg` meets. `chalNow` is the time when a challenge is made. -/
structure SrvEnv where
  site : Site
  cfg : SipAuthCfg
  computeHA1 : Bool
  auth : AuthEnv
  acc : AccEnv
  chalNow : Int32
  chalMem : Option (Nat → UInt8)
  chalAvp : CreateMem

/-- What the `switch` over the service comes to. -/
inductive Deal where
  | answer (code : UInt32)
  /-- The answer has the code that `AAANewMessage` put in. -/
  | asMade
  | challenge (stale : Bool)
  | dbError
  | unknown
deriving Repr, DecidableEq

/-- The `switch` over what `do_auth` returns. -/
def authDeal : AuthCode → Deal
  | .authorized => .answer aaaSuccess
  | .notAuthorized => .challenge false
  | .nonceStale => .challenge true
  | .rejected => .answer aaaAuthorizationRejected
  | .mysqlError => .dbError
  | .notUserIn | .userIn => .asMade

/-- The `switch` over the service. -/
def serve (e : SrvEnv) (h : Heap) (m : Message) (service : UInt8) : Res Deal :=
  if service = 54 then do
    let ret ← doAuth e.auth h m e.computeHA1 e.cfg.secret
    return authDeal ret
  else if service = 56 then do
    let ret ← checkGroup e.auth.toDbEnv h m
    return .answer (if ret = .userIn then aaaSuccess else aaaAuthenticationRejected)
  else if service = 57 then do
    let ok ← doAcc e.acc h m
    return .answer (if ok then aaaSuccess else aaaAuthenticationRejected)
  else .ok .unknown

/-- The challenge, behind the other AVPs of the answer; nothing if that fails. -/
def addChallenge (e : SrvEnv) (h : Heap) (m ans : Message) (stale : Bool) :
    Res (Option (Heap × Message)) := do
  let x ← Res.ofAccess m.destRealm
  let a ← Res.ofAccess h.cells[x]?
  match ← buildChallenge e.cfg e.chalMem e.chalNow stale a.data with
  | none => return none
  | some chal => do
      let (avp, h) ← aaaCreateAVP e.chalAvp h 402 0 0 (some (chal, 0))
        (Routes.cString chal).length .freeData
      if avp.isNone then return none
      else do
        let (rc, h, ans) ← aaaAddAVPToMessage h ans avp ans.tail
        return if rc = .errSuccess then some (h, ans) else none

/-- `AAASendMessage` and the return; without an answer the label `error`. -/
def finish (e : SrvEnv) (n : Server.Node) (ans : Option (Heap × Message)) : Res (Int × Server.Node) :=
  match ans with
  | none => .ok (-1, n)
  | some (h, ans) => do
      let n ← e.site.aaaSendMessage n h ans
      return (1, n)

/-- What is done with the answer `ans`. -/
def conclude (e : SrvEnv) (n : Server.Node) (h : Heap) (m ans : Message) : Deal → Res (Int × Server.Node)
  | .answer code => do
      let h ← aaaSetMessageResultCode h ans code
      finish e n (h.map (·, ans))
  | .asMade => finish e n (some (h, ans))
  | .challenge stale => do
      match ← aaaSetMessageResultCode h ans aaaAuthenticationRejected with
      | none => return (-1, n)
      | some h => do
          let ans ← addChallenge e h m ans stale
          finish e n ans
  | .dbError => do
      let _ ← aaaSetMessageResultCode h ans aaaAuthorizationRejected
      return (-1, n)
  | .unknown => .ok (1, n)

/-- `mod_msg`, with `sId` the data of the Session-Id: what it returns, and the peers. -/
def modMsg (e : SrvEnv) (n : Server.Node) (h : Heap) (m : Message) (sId : Str) : Res (Int × Server.Node) :=
  if !isReq m then .ok (1, n)
  else if m.commandCode = 265 ∨ m.commandCode = 271 then do
    let ans ← aaaNewMessage e.site.reply e.site.rounds h
      ⟨e.site.cfg.aaaIdentity, 0, e.site.cfg.aaaIdentity.length⟩
      ⟨e.site.cfg.aaaRealm, 0, e.site.cfg.aaaRealm.length⟩ m.commandCode aaaAppNasreq (some sId)
      (some m)
    match ans with
    | none => return (-1, n)
    | some (h, ans) => do
        let avp ← findAvp h m 404
        if avp.isNone then return (1, n)
        else do
          let data ← avpData h avp
          let service ← Res.ofAccess data[0]?
          let deal ← serve e h m service
          conclude e n h m ans deal
  else .ok (1, n)

/-! ## Looking at the request again -/

/-- Another heap in which the request is as it was. -/
structure SameRequest (h h' : Heap) (m : Message) (ids : List Nat) (vs : List AvpView) : Prop where
  old : Holds h m ids vs
  new : Holds h' m ids vs
  cells : ∀ x ∈ ids, h'.cells[x]? = h.cells[x]?

section Same

variable {h h' : Heap} {m : Message} {ids : List Nat} {vs : List AvpView}

theorem SameRequest.find (hs : SameRequest h h' m ids vs) (code : UInt32) :
    findAvp h' m code = findAvp h m code := by
  rw [findAvp_eq hs.new, findAvp_eq hs.old]
  have his : ∀ x ∈ ids, h'.isAvp code 0 x = h.isAvp code 0 x := by
    intro x hx
    unfold Heap.isAvp
    rw [hs.cells x hx]
  exact congrArg Res.ok (List.find?_congr his)

/-- What is found reads the same. -/
theorem SameRequest.data (hs : SameRequest h h' m ids vs) {code : UInt32} {x : Option Nat}
    (hx : findAvp h m code = .ok x) : avpStr h' x = avpStr h x := by
  rw [findAvp_eq hs.old] at hx
  cases x with
  | none => rfl
  | some x =>
      have hmem : x ∈ ids := List.mem_of_find?_eq_some (Res.ok.inj hx)
      unfold avpStr
      simp only [Res.ofAccess_some, Res.ok_bind, hs.cells x hmem]

/-- What is done with an AVP that is found, done again. -/
theorem SameRequest.bind_find {α : Type} (hs : SameRequest h h' m ids vs) (code : UInt32)
    {f g : Option Nat → Res α} (hfg : ∀ x, avpStr h' x = avpStr h x → f x = g x) :
    (findAvp h' m code >>= f) = (findAvp h m code >>= g) := by
  rw [hs.find code]
  cases hx : findAvp h m code with
  | ok x => exact hfg x (hs.data hx)
  | error | fault | diverge => rfl

theorem avpData_same {x : Option Nat} (hx : avpStr h' x = avpStr h x) : avpData h' x = avpData h x := by
  rw [avpData, avpData, hx]

theorem checkResponse_same (hs : SameRequest h h' m ids vs) (env : AuthEnv) (cred : DigCred)
    (ha1 : List UInt8) : checkResponse env h' m cred ha1 = checkResponse env h m cred ha1 := by
  unfold checkResponse
  dsimp only
  split
  · rfl
  · refine hs.bind_find 403 fun x hx => ?_
    rw [avpData_same hx]

theorem doAuth_same (hs : SameRequest h h' m ids vs) (env : AuthEnv) (calcHa1 : Bool)
    (secret : List UInt8) : doAuth env h' m calcHa1 secret = doAuth env h m calcHa1 secret := by
  unfold doAuth
  refine hs.bind_find 401 fun x hx => ?_
  simp only [hx, checkResponse_same hs]

theorem checkGroup_same (hs : SameRequest h h' m ids vs) (env : DbEnv) :
    checkGroup env h' m = checkGroup env h m := by
  unfold checkGroup
  refine hs.bind_find 1 fun u hu => ?_
  rw [avpData_same hu]
  split
  · rfl
  · refine hs.bind_find 405 fun g hg => ?_
    rw [avpData_same hg]

theorem collectValues_same (hs : SameRequest h h' m ids vs) (mem : Nat → Option (Nat → UInt8))
    (cols : List (AccCol × UInt32)) (i : Nat) :
    collectValues mem h' m cols i = collectValues mem h m cols i := by
  induction cols generalizing i with
  | nil => rfl
  | cons c cols ih =>
      unfold collectValues
      refine hs.bind_find c.2 fun x hx => ?_
      simp only [avpData_same hx, ih]

/-- **The service is the same**, looked at before or after the answer is made. -/
theorem serve_same (hs : SameRequest h h' m ids vs) (e : SrvEnv) (service : UInt8) :
    serve e h' m service = serve e h m service := by
  unfold serve doAcc
  simp only [doAuth_same hs, checkGroup_same hs, collectValues_same hs]

end Same

/-! ## The answer -/

/-- The AVPs of an answer with this result code. -/
def SrvEnv.answerAvps (e : SrvEnv) (sid : List UInt8) (code : UInt32) : List AvpView :=
  [sentAvp 263 sid, sentAvp 268 (be 4 code.toNat), sentAvp 264 e.site.cfg.aaaIdentity,
    sentAvp 296 e.site.cfg.aaaRealm]

/-- The challenge that goes with them. -/
def SrvEnv.challengeAvp (e : SrvEnv) (stale : Bool) (realm : List UInt8) : AvpView :=
  sentAvp 402 (Routes.cString (challengeText e.cfg e.chalNow stale realm))

/-- The header of the answer to `m`. -/
def answerHdr (m : Message) : Message :=
  { Message.zero with
    flags := m.flags &&& 0x40, commandCode := m.commandCode, applicationId := aaaAppNasreq
    endtoendId := m.endtoendId, hopbyhopId := m.hopbyhopId }

/-- The AVPs that are sent, if there is an answer. -/
def Deal.avps (e : SrvEnv) (sid realm : List UInt8) : Deal → Option (List AvpView)
  | .answer code => some (e.answerAvps sid code)
  | .asMade => some (e.answerAvps sid aaaSuccess)
  | .challenge stale =>
      some (e.answerAvps sid aaaAuthenticationRejected ++ [e.challengeAvp stale realm])
  | .dbError | .unknown => none

/-- What is returned. -/
def Deal.ret : Deal → Int
  | .dbError => -1
  | .answer _ | .asMade | .challenge _ | .unknown => 1

/-- There is memory for everything, and the server has a name and a realm. -/
structure SrvEnv.Ready (e : SrvEnv) : Prop where
  reply : e.site.reply = .all
  rounds : 0 < e.site.rounds
  buf : e.site.buf = true
  chalMem : e.chalMem.isSome
  chalAvp : e.chalAvp.avp = true
  identity : e.site.cfg.aaaIdentity ≠ []
  realm : e.site.cfg.aaaRealm ≠ []

section Answer

variable {e : SrvEnv} {h₀ h h' : Heap} {m ans : Message} {ids : List Nat} {vs : List AvpView}
  {cs : List Avp} {sid : Str} {s realm : List UInt8}

theorem views_of_cells (hc : ∀ x ∈ ids, h'.cells[x]? = h.cells[x]?) :
    views h' ids = views h ids := by
  unfold views
  induction ids with
  | nil => rfl
  | cons x ids ih =>
      rw [List.mapM_cons, List.mapM_cons, hc x List.mem_cons_self,
        ih fun y hy => hc y (List.mem_cons_of_mem x hy)]

/-! ## Making it -/

/-- A request without Proxy-Info is answered. -/
theorem draft (hready : e.Ready) (hh : Holds h m ids vs) (hno : firstData vs 284 = none)
    (hs : 0 < sid.len) :
    ∃ h₁ ans x y o r, aaaNewMessage e.site.reply e.site.rounds h
          ⟨e.site.cfg.aaaIdentity, 0, e.site.cfg.aaaIdentity.length⟩
          ⟨e.site.cfg.aaaRealm, 0, e.site.cfg.aaaRealm.length⟩ m.commandCode aaaAppNasreq
          (some sid) (some m) = .ok (some (h₁, ans))
      ∧ Drafted h h₁ m ans aaaAppNasreq [x, y, o, r] (answerCells e.site.cfg sid aaaSuccess)
      ∧ ans.resCode = some y := by
  obtain ⟨h₁, ans, x, y, o, r, hmade, ho, hcode, hrun⟩ := @aaaNewMessage_made .all
    ⟨e.site.cfg.aaaIdentity, 0, e.site.cfg.aaaIdentity.length⟩
    ⟨e.site.cfg.aaaRealm, 0, e.site.cfg.aaaRealm.length⟩ sid h
    (NewMem.all_begins (List.length_pos_iff.mpr hready.identity)
      (List.length_pos_iff.mpr hready.realm) hs) m.commandCode aaaAppNasreq m
  obtain ⟨k, hk⟩ := Nat.exists_eq_succ_of_ne_zero (Nat.ne_of_gt hready.rounds)
  have hnone : ∀ x ∈ ids, ∀ a ∈ h.cells[x]?, ¬ ProxyInfo a := by
    have hfind := @find_views h ids vs 284 hh.seq
    rw [hno] at hfind
    intro x hx a ha hp
    exact List.find?_eq_none.mp hfind x hx (isAvp_iff.mpr ⟨a, ha, hp⟩)
  refine ⟨h₁, ans, x, y, o, r, ?_, ⟨hmade, ho⟩, hcode⟩
  rw [hready.reply, hrun, hk]
  exact mirrorProxyInfo_none hmade hh.list hnone _ _ _

/-! ## Sending it -/

/-- The challenge is put behind what is there. -/
theorem addChallenge_drafted (hready : e.Ready) {app : UInt32} (hd : Drafted h₀ h m ans app ids cs)
    (hne : ids ≠ [])
    {x : Nat} {a : Avp} (hx : m.destRealm = some x) (ha : h₀.cells[x]? = some a)
    (hr : a.data.bytes = some realm) (stale : Bool) :
    ∃ h' ans' c, Digest.addChallenge e h m ans stale = .ok (some (h', ans'))
      ∧ Drafted h₀ h' m ans' app (ids ++ [h.size]) (cs ++ [c])
      ∧ c.view = some (e.challengeAvp stale realm) := by
  obtain ⟨junk, hjunk⟩ := Option.isSome_iff_exists.mp hready.chalMem
  obtain ⟨text, htext⟩ : ∃ text, text = challengeText e.cfg e.chalNow stale realm := ⟨_, rfl⟩
  have hbuild := buildChallenge_text e.cfg junk e.chalNow stale hr
  rw [← hjunk, ← htext] at hbuild
  have hstr : Routes.cString (text ++ [0]) = Routes.cString text := cString_zero text []
  have hpre : Routes.cString text <+: text ++ [0] :=
    (List.takeWhile_prefix _).trans (List.prefix_append _ _)
  have hlong : (Routes.cString text).length ≠ 0 := by
    obtain ⟨rest, hrest⟩ : ∃ rest, text = 68 :: rest := ⟨_, htext⟩
    rw [hrest]
    simp [Routes.cString]
  have hcell : h.cells[x]? = some a := by
    rw [hd.made.old x (List.getElem?_eq_some_iff.mp ha).1, ha]
  obtain ⟨c, hc⟩ : ∃ c, c = ownAvp 402 ⟨text ++ [0], 0, (Routes.cString text).length⟩ true :=
    ⟨_, rfl⟩
  have hcreate : aaaCreateAVP e.chalAvp h 402 0 0 (some (text ++ [0], 0))
      (Routes.cString text).length .freeData = .ok (some h.size, ⟨h.cells ++ [c]⟩) := by
    simp [aaaCreateAVP, hlong, hready.chalAvp, hc, ownAvp]
  obtain ⟨h', ans', hadd, hmade, ho⟩ := hd.made.link_last hne (show c.code ≠ 263 by
    rw [hc]
    exact (by decide : (402 : UInt32) ≠ 263))
  refine ⟨h', ans', c.body, ?_, ⟨hmade, by rw [ho, hd.origin]⟩, ?_⟩
  · simp only [Digest.addChallenge, hx, Res.ofAccess_some, Res.ok_bind, hcell, hbuild, hstr, hcreate,
      Option.isNone_some, Bool.false_eq_true, if_false, hadd, if_true, Res.pure_eq]
  · have hslice : (⟨text ++ [0], 0, (Routes.cString text).length⟩ : Str).bytes
        = some (Routes.cString text) := by
      obtain ⟨rest, hrest⟩ := hpre
      have hcut := slice_append [] (Routes.cString text) rest
      rw [List.nil_append, hrest] at hcut
      exact hcut
    rw [hc, SrvEnv.challengeAvp, ← htext]
    exact @view_ownAvp 402 _ _ hslice true

/-- The answer goes to the peer the request came from. -/
theorem finish_drafted (hready : e.Ready) (hd : Drafted h₀ h m ans aaaAppNasreq ids cs)
    (hv : cs.mapM Avp.view = some vs) (hcmd : m.commandCode = 265 ∨ m.commandCode = 271) {p : Nat}
    (hp : m.inPeer = some p) (hlen : encLen vs < 2 ^ 32) (n : Server.Node) :
    finish e n (some (h, ans))
      = .ok (1, n.setPeer p
          ((n.peers p).sendResToPeer e.site.env (encMsg (answerHdr m) vs)).2) := by
  have hans : Answerable m.commandCode := by rcases hcmd with h | h <;> rw [h] <;> decide
  unfold finish
  dsimp only
  rw [hd.send hready.buf hv hans hp hlen, Res.ok_bind]
  rfl

/--
**A request is answered** with the result of its service, in one message to the peer it came
from; a user who is not let in finds the challenge behind it. If the service is unknown, or the database
failed while a user was authenticated, nothing is sent.
-/
theorem modMsg_eq (hready : e.Ready) (hh : Holds h m ids vs) (hreq : isReq m = true)
    (hcmd : m.commandCode = 265 ∨ m.commandCode = 271) {p : Nat} (hp : m.inPeer = some p)
    (hproxy : firstData vs 284 = none) {x : Nat} {a : Avp} (hx : m.destRealm = some x)
    (ha : h.cells[x]? = some a) (hr : a.data.bytes = some realm) (hs : sid.bytes = some s)
    (hne : s ≠ []) {service : UInt8} {more : List UInt8}
    (hservice : firstData vs 404 = some (service :: more)) {deal : Deal}
    (hdeal : serve e h m service = .ok deal)
    (hlen : ∀ us, deal.avps e s realm = some us → encLen us < 2 ^ 32) (n : Server.Node) :
    modMsg e n h m sid = .ok (deal.ret, match deal.avps e s realm with
      | none => n
      | some us => n.setPeer p
          ((n.peers p).sendResToPeer e.site.env (encMsg (answerHdr m) us)).2) := by
  have hsid : 0 < sid.len := by
    rw [← length_slice hs]
    exact List.length_pos_iff.mpr hne
  obtain ⟨h₁, ans, i, y, o, r, hnew, hdraft, hcode⟩ := draft hready hh hproxy hsid
  -- the request is where it was
  have hold : ∀ x ∈ ids, h₁.cells[x]? = h.cells[x]? := fun x hx =>
    hdraft.made.old x (hh.list.alloc x hx)
  have hsame : SameRequest h h₁ m ids vs :=
    ⟨hh, ⟨hdraft.made.older hh.list, (views_of_cells hold).trans hh.seq⟩, hold⟩
  obtain ⟨z, hz, hdata⟩ := findAvp_some hsame.new hservice
  have hrun : modMsg e n h m sid = conclude e n h₁ m ans deal := by
    unfold modMsg
    rw [hreq]
    simp only [Bool.not_true, Bool.false_eq_true, if_false, if_pos hcmd, hnew, Res.ok_bind, hz,
      Option.isNone_some, hdata, List.getElem?_cons_zero, Res.ofAccess_some, serve_same hsame, hdeal]
  rw [hrun]
  cases deal with
  | answer code =>
      obtain ⟨h₂, hset, hdraft₂⟩ := hdraft.setResultCode hcode code
      rw [conclude, hset, Res.ok_bind]
      exact finish_drafted hready hdraft₂ (view_answerCells hs code) hcmd hp (hlen _ rfl) n
  | asMade =>
      exact finish_drafted hready hdraft (view_answerCells hs aaaSuccess) hcmd hp (hlen _ rfl) n
  | challenge stale =>
      obtain ⟨h₂, hset, hdraft₂⟩ := hdraft.setResultCode hcode aaaAuthenticationRejected
      obtain ⟨h₃, ans₃, c, hadd, hdraft₃, hview⟩ :=
        addChallenge_drafted hready hdraft₂ (by simp) hx ha hr stale
      rw [conclude, hset, Res.ok_bind]
      dsimp only
      rw [hadd, Res.ok_bind]
      refine finish_drafted hready hdraft₃ ?_ hcmd hp (hlen _ rfl) n
      rw [List.mapM_append, view_answerCells hs aaaAuthenticationRejected]
      simp only [List.mapM_cons, List.mapM_nil, hview]
      rfl
  | dbError =>
      obtain ⟨h₂, hset, -⟩ := hdraft.setResultCode hcode aaaAuthorizationRejected
      rw [conclude, hset]
      rfl
  | unknown => rfl

/-- Somebody without a name is in no group. -/
theorem modMsg_eq_group :
    ∃ (e : SrvEnv) (h : Heap) (m : Message), isReq m = true
      ∧ modMsg e connectedNode h m ⟨ascii "a;1;1", 0, 5⟩ = .ok (1, connectedNode.setPeer 0
          ((connectedNode.peers 0).sendResToPeer e.site.env (encMsg (answerHdr m)
            [sentAvp 263 (ascii "a;1;1"), sentAvp 268 (be 4 4001), sentAvp 264 [97],
              sentAvp 296 [114]])).2) := by
  obtain ⟨h, m₀, ids, hh₀⟩ := exists_holds [⟨404, 0, 0, [56]⟩, ⟨283, 64, 0, ascii "home"⟩]
  obtain ⟨x, -, hdata⟩ := @findAvp_some h m₀ ids _ 283 hh₀ (ascii "home") rfl
  obtain ⟨realm, hrealm, hbytes⟩ := Res.bind_eq_ok hdata
  obtain ⟨x', hx', hrealm⟩ := Res.bind_eq_ok hrealm
  obtain rfl : x = x' := Option.some.inj (Res.ofAccess_eq_ok hx')
  obtain ⟨a, ha, hrealm⟩ := Res.bind_eq_ok hrealm
  obtain rfl := Res.ok.inj hrealm
  obtain ⟨m, hm⟩ : ∃ m : Message, m = { m₀ with
    flags := 0x80, commandCode := 265, inPeer := some 0, destRealm := some x } := ⟨_, rfl⟩
  have hh : Holds h m ids _ := hh₀.congr (by rw [hm]) (by rw [hm])
  obtain ⟨e, he⟩ : ∃ e : SrvEnv, e = ⟨sampleSite, ⟨ascii "s", 300, .qopUnspec⟩, true, bobEnv 0,
    ⟨fun _ => none, none, none, none, List.replicate 19 48, by decide, by decide, none⟩, 0,
    some fun _ => 0, ⟨true, true⟩⟩ := ⟨_, rfl⟩
  have hready : e.Ready := by
    rw [he]
    exact ⟨rfl, by decide, rfl, rfl, rfl, by decide, by decide⟩
  have hdeal : serve e h m 56 = .ok (.answer aaaAuthenticationRejected) := by
    unfold serve checkGroup
    rw [if_neg (by decide), if_pos rfl, findAvp_none hh rfl]
    rfl
  have hsite : e.site = sampleSite := by rw [he]
  have hreq : isReq m = true := by
    rw [hm]
    show decide ((0x80 : UInt8) &&& 0x80 ≠ 0) = true
    decide
  refine ⟨e, h, m, hreq, ?_⟩
  have hrun := modMsg_eq hready hh hreq (.inl (by rw [hm])) (by rw [hm]) rfl
    (by rw [hm]) (Res.ofAccess_eq_ok ha) (Res.ofAccess_eq_ok hbytes)
    (show (⟨ascii "a;1;1", 0, 5⟩ : Str).bytes = some (ascii "a;1;1") by decide) (by decide) rfl
    hdeal (fun us hus => ?_) connectedNode
  · rw [hrun]
    simp only [Deal.avps, Deal.ret, SrvEnv.answerAvps, hsite]
    rfl
  · obtain rfl : e.answerAvps (ascii "a;1;1") aaaAuthenticationRejected = us := Option.some.inj hus
    rw [SrvEnv.answerAvps, hsite]
    decide

end Answer

end Disc.Digest
