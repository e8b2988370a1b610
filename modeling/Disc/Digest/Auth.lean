import Disc.Digest.Inside
import Disc.Digest.Queries

/-!
# Authentication

`do_auth` of `db.c`. The credentials are read out of the Response AVP. Their nonce has to be one
that was made with the secret of the server and has not expired, the database has to know the
user, and the response has to be what the password gives.

What reading the credentials returns is not looked at: fields that are not there are empty, and
one that goes on behind the AVP is read on there.
-/

namespace Disc.Digest

open Disc.Lib Disc.Server Disc.Msg

/-! ## The code -/

/-- `is_nonce_stale`. -/
def isNonceStale (now : Int32) (n : Option (List UInt8)) : Res Bool :=
  match n with
  | none => .ok false
  | some n => do
      let expires ← getNonceExpires n
      return decide (expires.toInt32 < now)

/--
What a call of `do_auth` meets: the time, memory for the password, and what the arrays on the
stack hold at first.
-/
structure AuthEnv extends DbEnv where
  now : Int32
  passwdMem : Option (Nat → UInt8)
  ha1 : Vector UInt8 256
  hent : Vector UInt8 33
  buffer : Vector UInt8 64

/-- `passwd_h` when `calc_ha1` is set; that there is memory for it is not checked. -/
def copyPasswd (env : AuthEnv) (row : List UInt8) : Res (List UInt8) :=
  match env.passwdMem with
  | none => if row = [] then .ok [] else .fault
  | some junk => copyAll [row] (fresh junk row.length) 0 >>= fun r => .ok r.1

/-- What is in `ha1`: the hash of the password, or what the database has for one. -/
def fillHa1 (env : AuthEnv) (calcHa1 : Bool) (user realm row : List UInt8) : Res (List UInt8) :=
  if calcHa1 then do
    let passwd ← copyPasswd env row
    let h ← calcHA1 env.buffer.toList .haMd5 user realm passwd [] []
    Res.ofAccess (poke env.ha1.toList 0 h)
  else do
    let ha1 ← Res.ofAccess (poke env.ha1.toList 0 row)
    Res.ofAccess (poke ha1 row.length [0])

/--
The strings that are used from here on, of credentials with `behind` behind their text; the user
name is used only when all was read.
-/
def DigCred.complete (c : DigCred) (behind : List UInt8) : Res DigCred :=
  match c.beyond with
  | none => .ok c
  | some (t, n) =>
      if t = .parUsername ∨ t = .parOpaque ∨ t = .parAlgorithm then .ok c
      else do
        let more ← Res.ofAccess (slice behind 0 n)
        return c.setField (some ((c.field t).getD [] ++ more)) t

/-- `parse_digest_cred` of an AVP, into empty credentials. -/
def readCred (s : Str) : Res DigCred := do
  let text ← Res.ofAccess s.bytes
  let (_, cred) ← parseDigestCred text initDigCred
  cred.complete (s.blk.drop (s.off + s.len))

/-- The end of `do_auth`: is the response that of the hash in `ha1`? -/
def checkResponse (env : AuthEnv) (h : Heap) (m : Message) (cred : DigCred) (ha1 : List UInt8) :
    Res AuthCode := do
  let response := cred.response.getD []
  if response.length ≠ hashHexLen then return .notAuthorized
  else do
    let avp ← findAvp h m 403
    if avp.isNone then return .notAuthorized
    else do
      let method ← avpData h avp
      let resp ← calcResponse env.buffer.toList ha1 (cred.nonce.getD []) (cred.nc.getD [])
        (cred.cnonce.getD []) (cred.qop.qopStr.getD []) (cred.qop.qopParsed = .qopAuthint) method
        (cred.uri.getD []) env.hent.toList
      let resp ← Res.ofAccess (slice resp 0 hashHexLen)
      return if resp = response then .authorized else .notAuthorized

/-- `do_auth`. -/
def doAuth (env : AuthEnv) (h : Heap) (m : Message) (calcHa1 : Bool) (secret : List UInt8) :
    Res AuthCode := do
  let avp ← findAvp h m 401
  if avp.isNone then return .notAuthorized
  else do
    let data ← avpStr h avp
    let cred ← readCred data
    let rc ← checkNonce md5 cred.nonce secret
    if rc ≠ 0 then return .notAuthorized
    else do
      let stale ← isNonceStale env.now cred.nonce
      if stale then return .nonceStale
      else do
        let user := cred.username.user.getD []
        let realm := cred.realm.getD []
        match ← ask env.toDbEnv (ascii "SELECT passwd_h FROM authentication WHERE username=\"") user
            (ascii "\" AND domain=\"") realm with
        | .noMemory => return .notAuthorized
        | .error => return .mysqlError
        | .noRow => return .rejected
        | .row row => do
            let ha1 ← fillHa1 env calcHa1 user realm row
            checkResponse env h m cred ha1

/-! ## What is asked for -/

/-- The query for the password of a user. -/
def passwdQuery (user realm : List UInt8) : List UInt8 :=
  queryText (ascii "SELECT passwd_h FROM authentication WHERE username=\"") user
    (ascii "\" AND domain=\"") realm

/-- The hash of the password the database has for the user, or that hash from the database. -/
def rowHash (calcHa1 : Bool) (user realm row : List UInt8) : List UInt8 :=
  if calcHa1 then hashA1 user realm row else row.take hashHexLen

/-- The response that the credentials should have. -/
def DigCred.expected (c : DigCred) (ha1 method hent : List UInt8) : List UInt8 :=
  Digest.response ha1 (c.nonce.getD []) (c.nc.getD []) (c.cnonce.getD []) (c.qop.qopStr.getD [])
    (hashA2 method (c.uri.getD []) (if c.qop.qopParsed = .qopAuthint then some hent else none))

/-- The nonce of the credentials is one of the server's, and it expires at `e`. -/
def DigCred.NonceOf (c : DigCred) (secret : List UInt8) (e : Int32) : Prop :=
  c.nonce = some (nonceText md5 secret e)

/-- The strings of the credentials can be hashed in one piece. -/
structure DigCred.FitsAll (c : DigCred) : Prop where
  field : ∀ t, Fits ((c.field t).getD [])
  user : Fits (c.username.user.getD [])

section

variable {env : AuthEnv} {h : Heap} {m : Message} {ids : List Nat} {vs : List AvpView}
  {calcHa1 : Bool} {secret user realm row : List UInt8} {cred : DigCred}

theorem Fits.of_infix {s t : List UInt8} (ht : Fits t) (h : s <:+: t) : Fits s :=
  Nat.le_trans (Nat.add_le_add_right h.length_le 64) ht

theorem DigCred.Inside.fits {text : List UInt8} {c : DigCred} (hc : c.Inside text)
    (ht : Fits text) : c.FitsAll := by
  refine ⟨fun t => ?_, ?_⟩
  · cases hf : c.field t with
    | none => exact (by decide : Fits [])
    | some v => exact ht.of_infix (hc.field t v hf)
  · cases hu : c.username.user with
    | none => exact (by decide : Fits [])
    | some v => exact ht.of_infix (hc.user v hu)

/-- What the server can use as a hash: there is memory for a password, or it is one hash. -/
structure RowFits (env : AuthEnv) (calcHa1 : Bool) (row : List UInt8) : Prop where
  fits : Fits row
  mem : calcHa1 = true → env.passwdMem = none → row = []
  hash : calcHa1 = false → hashHexLen ≤ row.length ∧ row.length < 256

theorem copyPasswd_eq (hrow : env.passwdMem = none → row = []) : copyPasswd env row = .ok row := by
  unfold copyPasswd
  cases hmem : env.passwdMem with
  | none =>
      obtain rfl := hrow hmem
      rfl
  | some junk =>
      have hflat : [row].flatten = row := by simp
      have hcopy := copyAll_fresh junk [row] row.length (by rw [hflat])
      rw [hflat] at hcopy
      have hfull : (fresh junk row.length).drop row.length = [] := by
        rw [List.drop_eq_nil_iff, length_fresh]
      dsimp only
      rw [hcopy, Res.ok_bind, hfull, List.append_nil]

/-- The hash is at the front of `ha1`. -/
theorem fillHa1_eq (hrow : RowFits env calcHa1 row) (hu : Fits user) (hr : Fits realm) :
    ∃ rest, fillHa1 env calcHa1 user realm row = .ok (rowHash calcHa1 user realm row ++ rest)
      ∧ (rowHash calcHa1 user realm row).length = hashHexLen := by
  have h256 : env.ha1.toList.length = 256 := Vector.length_toList
  have h64 : env.buffer.toList.length = 64 := Vector.length_toList
  obtain ⟨ha1, hha1⟩ : ∃ ha1, ha1 = env.ha1.toList := ⟨_, rfl⟩
  rw [← hha1] at h256
  have hnil : Fits [] := by decide
  unfold fillHa1 rowHash
  cases calcHa1 with
  | true =>
      have hcalc := calcHA1_eq h64 .haMd5 hu hr hrow.fits hnil hnil
      rw [if_neg (by decide)] at hcalc
      have hlen : (hashA1 user realm row).length = hashHexLen := length_md5Hex _
      have hpoke := poke_front (hashA1 user realm row ++ [0]) ha1 (by
        rw [List.length_append, hlen, h256]
        decide)
      refine ⟨[0] ++ ha1.drop (hashA1 user realm row ++ [0]).length, ?_, hlen⟩
      simp only [if_true, copyPasswd_eq (hrow.mem rfl), Res.ok_bind, hcalc, ← hha1]
      rw [hpoke, Res.ofAccess_some, List.append_assoc]
  | false =>
      obtain ⟨hlen, hlt⟩ := hrow.hash rfl
      have hfirst := poke_front row ha1 (by rw [h256]; omega)
      have hsecond := poke_behind row [0] (ha1.drop row.length) (by
        rw [List.length_drop, h256, List.length_singleton]
        omega)
      refine ⟨row.drop hashHexLen ++ [0] ++ (ha1.drop row.length).drop [(0 : UInt8)].length, ?_,
        by simpa using hlen⟩
      simp only [Bool.false_eq_true, if_false, ← hha1]
      rw [hfirst, Res.ofAccess_some, Res.ok_bind, hsecond, Res.ofAccess_some]
      congr 1
      rw [← List.append_assoc, ← List.append_assoc, List.take_append_drop]

/-- **The end of `do_auth`**: the response is compared with what it should be. -/
theorem checkResponse_eq (hh : Holds h m ids vs) (hfit : ∀ v ∈ vs, Fits v.data)
    (hcred : cred.FitsAll) {ha1 rest : List UInt8} (h1 : ha1.length = hashHexLen) :
    checkResponse env h m cred (ha1 ++ rest)
      = .ok (if ∃ method, firstData vs 403 = some method
            ∧ cred.response = some (cred.expected ha1 method (env.hent.toList.take hashHexLen)) then
          .authorized
        else .notAuthorized) := by
  have h64 : env.buffer.toList.length = 64 := Vector.length_toList
  have h33 : env.hent.toList.length = 33 := Vector.length_toList
  obtain ⟨hent, hhent⟩ : ∃ hent, hent = env.hent.toList := ⟨_, rfl⟩
  rw [← hhent] at h33 ⊢
  unfold checkResponse
  by_cases hlen : (cred.response.getD []).length = hashHexLen
  · rw [if_neg (by simpa using hlen)]
    cases hm : firstData vs 403 with
    | none =>
        rw [findAvp_none hh hm, Res.ok_bind]
        simp
    | some method =>
        obtain ⟨x, hx, hdata⟩ := findAvp_some hh hm
        have hmethod : Fits method := by
          obtain ⟨v, hv, rfl⟩ := Option.map_eq_some_iff.mp hm
          exact hfit v (List.mem_of_find?_eq_some hv)
        have hresp := calcResponse_eq h64 rest h1 (hcred.field .parNonce)
          (hcred.field .parNc) (hcred.field .parCnonce) (hcred.field .parQop) hmethod
          (hcred.field .parUri) (decide (cred.qop.qopParsed = .qopAuthint))
          (hent.take hashHexLen) (hent.drop hashHexLen)
          (by rw [List.length_take, h33]; rfl)
        rw [List.take_append_drop] at hresp
        have hexp : (cred.expected ha1 method (hent.take hashHexLen)).length = hashHexLen :=
          length_md5Hex _
        have hsome : ∀ s : List UInt8, s.length = hashHexLen →
            (cred.response = some s ↔ s = cred.response.getD []) := by
          intro s hs
          cases hr : cred.response with
          | none =>
              rw [hr] at hlen
              exact absurd hlen (by decide)
          | some r => simp [eq_comm]
        obtain ⟨exp, hexpdef⟩ : ∃ exp, exp = cred.expected ha1 method (hent.take hashHexLen) := ⟨_, rfl⟩
        have hcalc : calcResponse env.buffer.toList (ha1 ++ rest) (cred.nonce.getD [])
            (cred.nc.getD []) (cred.cnonce.getD []) (cred.qop.qopStr.getD [])
            (cred.qop.qopParsed = .qopAuthint) method (cred.uri.getD []) hent = .ok (exp ++ [0]) := by
          simp only [DigCred.field, decide_eq_true_eq] at hresp
          rw [hresp, hexpdef]
          rfl
        rw [← hexpdef] at hexp
        simp only [hx, Res.ok_bind, Option.isNone_some, Bool.false_eq_true, if_false, hdata, ← hhent,
          hcalc, slice_hex hexp, Option.some.injEq, exists_eq_left', ← hexpdef, hsome exp hexp]
        rfl
  · have hnot : ¬ ∃ method, firstData vs 403 = some method
        ∧ cred.response = some (cred.expected ha1 method (hent.take hashHexLen)) := by
      rintro ⟨method, -, hr⟩
      rw [hr] at hlen
      exact hlen (length_md5Hex _)
    rw [if_pos (by simpa using hlen), if_neg hnot]
    rfl

theorem isNonceStale_nonceText (now : Int32) (secret : List UInt8) (e : Int32) :
    isNonceStale now (some (nonceText md5 secret e)) = .ok (decide (e < now)) := by
  rw [isNonceStale, getNonceExpires_nonceText, Res.ok_bind, Int32.toInt32_toInt64]
  rfl

/-- The user the credentials are of, and the realm. -/
def DigCred.query (c : DigCred) : List UInt8 :=
  passwdQuery (c.username.user.getD []) (c.realm.getD [])

/-- The hash the row of the user gives. -/
def DigCred.hashOf (c : DigCred) (calcHa1 : Bool) (row : List UInt8) : List UInt8 :=
  rowHash calcHa1 (c.username.user.getD []) (c.realm.getD []) row

section Steps

variable {d : List UInt8} {rc : Int} (hh : Holds h m ids vs) (hd : firstData vs 401 = some d)
  (hparse : parseDigestCred d initDigCred = .ok (rc, cred)) (hin : cred.beyond = none)

include hh hd hparse hin

/-- The credentials the request has. -/
theorem findAvp_cred :
    ∃ x s, findAvp h m 401 = .ok (some x) ∧ avpStr h (some x) = .ok s ∧ readCred s = .ok cred := by
  obtain ⟨x, hx, hdata⟩ := findAvp_some hh hd
  obtain ⟨s, hs, hbytes⟩ := Res.bind_eq_ok hdata
  refine ⟨x, s, hx, hs, ?_⟩
  simp only [readCred, hbytes, Res.ok_bind, hparse, DigCred.complete, hin]

/-- A nonce that has expired. -/
theorem doAuth_stale {e : Int32} (hn : cred.NonceOf secret e) (he : e < env.now) :
    doAuth env h m calcHa1 secret = .ok .nonceStale := by
  obtain ⟨x, s, hx, hstr, hread⟩ := findAvp_cred hh hd hparse hin
  simp only [doAuth, hx, Res.ok_bind, Option.isNone_some, Bool.false_eq_true, if_false, hstr,
    hread, hn.symm ▸ checkNonce_nonceText md5 secret e,
    hn.symm ▸ isNonceStale_nonceText env.now secret e, ne_eq, not_true_eq_false,
    decide_eq_true he, if_true, Res.pure_eq]

/-- Any other nonce: the database is asked, and then the response counts. -/
theorem doAuth_fresh (hfit : ∀ v ∈ vs, Fits v.data) {e : Int32} (hn : cred.NonceOf secret e)
    (he : env.now ≤ e) (hrow : ∀ row, env.lookup cred.query = .row row → RowFits env calcHa1 row) :
    doAuth env h m calcHa1 secret = .ok (match env.lookup cred.query with
      | .noMemory => .notAuthorized
      | .error => .mysqlError
      | .noRow => .rejected
      | .row row =>
          if ∃ method, firstData vs 403 = some method ∧ cred.response
              = some (cred.expected (cred.hashOf calcHa1 row) method (env.hent.toList.take hashHexLen)) then
            .authorized
          else .notAuthorized) := by
  obtain ⟨x, s, hx, hstr, hread⟩ := findAvp_cred hh hd hparse hin
  have hfits : cred.FitsAll := by
    obtain ⟨v, hv, rfl⟩ := Option.map_eq_some_iff.mp hd
    exact (parseDigestCred_keeps (inside_init _) hparse).fits (hfit v (List.mem_of_find?_eq_some hv))
  have hstale : decide (e < env.now) = false := decide_eq_false (Int32.not_lt.mpr he)
  simp only [doAuth, hx, Res.ok_bind, Option.isNone_some, Bool.false_eq_true, if_false, hstr,
    hread, hn.symm ▸ checkNonce_nonceText md5 secret e,
    hn.symm ▸ isNonceStale_nonceText env.now secret e, ne_eq, not_true_eq_false, hstale, ask_eq]
  change (match env.lookup cred.query with
    | .noMemory => _
    | .error => _
    | .noRow => _
    | .row row => _) = _
  cases hlook : env.lookup cred.query with
  | noMemory => rfl
  | error => rfl
  | noRow => rfl
  | row row =>
      obtain ⟨rest, hfill, hlen⟩ := fillHa1_eq (hrow row hlook) hfits.user (hfits.field .parRealm)
      show (fillHa1 env calcHa1 (cred.username.user.getD []) ((cred.field .parRealm).getD []) row
        >>= fun ha1 => checkResponse env h m cred ha1) = _
      rw [hfill, Res.ok_bind, checkResponse_eq hh hfit hfits hlen]
      rfl

end Steps

end

end Disc.Digest
