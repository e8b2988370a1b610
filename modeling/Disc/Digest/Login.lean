import Disc.Digest.Auth

/-!
# Logging in

The server and a client, from the challenge to the verdict. The server makes a challenge. The
client reads it, and sends credentials with the nonce of the challenge in them: every value
between quotes, the parameters in any order, with blanks in front of their names and the names in
capital or small letters as it likes.

The server keeps nothing of the challenge. Credentials are good until the nonce expires, as
often as they are sent.
-/

namespace Disc.Digest

open Disc.Lib Disc.Server Disc.Msg

/-- The value the parameters give, empty if there is none. -/
def valueOf (ps : List Param) (t : DigPar) : List UInt8 :=
  ((ps.find? fun p => p.type = t).map Param.value).getD []

section

variable {ps : List Param}

/-- What is in a field of credentials that were empty. -/
theorem DigCred.Filled.field_eq {c : DigCred} (hf : initDigCred.Filled ps c) (t : DigPar) :
    (t ∉ ps.map Param.type ∧ c.field t = none ∧ valueOf ps t = [])
      ∨ ∃ p ∈ ps, p.type = t ∧ c.field t = some p.value ∧ valueOf ps t = p.value := by
  unfold valueOf
  cases hfind : ps.find? fun p => p.type = t with
  | none =>
      have hno : t ∉ ps.map Param.type := by
        intro hmem
        obtain ⟨p, hp, hpt⟩ := List.mem_map.mp hmem
        exact absurd hpt (by simpa using List.find?_eq_none.mp hfind p hp)
      refine .inl ⟨hno, ?_, rfl⟩
      rw [hf.others t hno]
      cases t <;> rfl
  | some p =>
      have hp := List.mem_of_find?_eq_some hfind
      have hpt : p.type = t := by simpa using List.find?_some hfind
      exact .inr ⟨p, hp, hpt, hpt ▸ hf.given p hp, rfl⟩

theorem DigCred.Filled.getD_field {c : DigCred} (hf : initDigCred.Filled ps c) (t : DigPar) :
    (c.field t).getD [] = valueOf ps t := by
  rcases hf.field_eq t with ⟨-, hc, hv⟩ | ⟨p, -, -, hc, hv⟩ <;> rw [hc, hv] <;> rfl

/-- A value that is not empty is in its field. -/
theorem DigCred.Filled.field_some {c : DigCred} (hf : initDigCred.Filled ps c) {t : DigPar} {v : List UInt8}
    (hv : v ≠ []) : c.field t = some v ↔ valueOf ps t = v := by
  rcases hf.field_eq t with ⟨-, hc, hval⟩ | ⟨p, -, -, hc, hval⟩
  · rw [hc, hval]
    exact iff_of_false (by simp) (fun h => hv h.symm)
  · rw [hc, hval, Option.some.injEq]

theorem DigCred.Filled.user_eq {c : DigCred} (hf : initDigCred.Filled ps c) :
    c.username.user.getD [] = userPart (valueOf ps .parUsername) := by
  rcases hf.field_eq .parUsername with ⟨hno, -, hv⟩ | ⟨p, hp, ht, -, hv⟩
  · rw [hf.no_user hno, hv]
    rfl
  · rw [(hf.user p hp ht).1, hv]
    rfl

/-- The quality of protection is only that of a value. -/
theorem DigCred.Filled.qop_ne {c : DigCred} (hf : initDigCred.Filled ps c)
    (hq : qopOf (valueOf ps .parQop) ≠ .qopAuthint) : c.qop.qopParsed ≠ .qopAuthint := by
  rcases hf.field_eq .parQop with ⟨hno, -, -⟩ | ⟨p, hp, ht, -, hv⟩
  · rw [hf.no_qop hno]
    decide
  · rw [hf.qop p hp ht, ← hv]
    exact hq

end

/-- The response a client has to give: what it wants, and the password or its hash. -/
def rightResponse (ps : List Param) (calcHa1 : Bool) (row method : List UInt8) : List UInt8 :=
  Digest.response
    (rowHash calcHa1 (userPart (valueOf ps .parUsername)) (valueOf ps .parRealm) row)
    (valueOf ps .parNonce) (valueOf ps .parNc) (valueOf ps .parCnonce) (valueOf ps .parQop)
    (hashA2 method (valueOf ps .parUri) none)

/--
**A challenge and its answer.** Whoever sends back the nonce of a challenge, with the name of a
user of the database and a method, is let in if and only if the response is right, at any time up to the
expiry of the nonce, and is told that the nonce is stale at any time after it.
-/
theorem doAuth_challenge {cfg : SipAuthCfg} {junk : Nat → UInt8} {made : Int32} {stale : Bool}
    {realm : Str} {r chal : List UInt8} {c₀ : DigCred} (hr : realm.bytes = some r) (hfree : 34 ∉ r)
    (hchal : buildChallenge cfg (some junk) made stale realm = .ok (some (chal ++ [0])))
    (hread : parseDigestCred chal initDigCred = .ok (1, c₀))
    -- what the client answers
    {ps : List Param} (hne : ps ≠ []) (hdistinct : (ps.map fun p => p.nm.map tolower).Nodup)
    (hnonce : c₀.nonce = some (valueOf ps .parNonce))
    (hqop : qopOf (valueOf ps .parQop) ≠ .qopAuthint)
    -- what the server gets
    {env : AuthEnv} {h : Heap} {m : Message} {ids : List Nat} {vs : List AvpView}
    {method row : List UInt8} {calcHa1 : Bool} (hh : Holds h m ids vs)
    (hfit : ∀ v ∈ vs, Fits v.data) (hd : firstData vs 401 = some (renderCred ps))
    (hm : firstData vs 403 = some method)
    (hrow : env.lookup (passwdQuery (userPart (valueOf ps .parUsername)) (valueOf ps .parRealm))
      = .row row)
    (hfits : RowFits env calcHa1 row) :
    doAuth env h m calcHa1 cfg.secret = .ok (
      if made + cfg.nonceExpire < env.now then .nonceStale
      else if valueOf ps .parResponse = rightResponse ps calcHa1 row method then .authorized
      else .notAuthorized) := by
  -- the client has read the nonce that was made
  have htext : chal = challengeText cfg made stale r := by
    rw [buildChallenge_text cfg junk made stale hr] at hchal
    exact (List.append_cancel_right (Option.some.inj (Res.ok.inj hchal))).symm
  obtain ⟨c, hparse₀, hfilled₀⟩ := parseDigestCred_challengeText cfg made stale hfree
  obtain rfl : c = c₀ := by
    rw [htext, hparse₀] at hread
    exact (Prod.mk.inj (Res.ok.inj hread)).2
  have hmade : valueOf ps .parNonce = cfg.nonce made :=
    Option.some.inj (hnonce.symm.trans (hfilled₀.given _ (List.mem_cons_of_mem _ List.mem_cons_self)))
  -- the server reads what the client wrote
  obtain ⟨cred, hcred⟩ : ∃ cred, cred = (initDigCred.store ps).finish := ⟨_, rfl⟩
  have hparse : parseDigestCred (renderCred ps) initDigCred = .ok (1, cred) :=
    hcred ▸ parseDigestCred_written hne initDigCred
  have hf : initDigCred.Filled ps cred :=
    hcred ▸ store_filled (types_nodup hdistinct) ⟨rfl, rfl, rfl⟩
  have hlong : cfg.nonce made ≠ [] := by
    intro h
    have hlen := length_nonceText md5 cfg.secret (made + cfg.nonceExpire)
    rw [SipAuthCfg.nonce] at h
    rw [h] at hlen
    exact absurd hlen (by decide)
  have hof : cred.NonceOf cfg.secret (made + cfg.nonceExpire) :=
    (hf.field_some (t := .parNonce) hlong).mpr hmade
  by_cases hstale : made + cfg.nonceExpire < env.now
  · rw [doAuth_stale hh hd hparse hf.beyond hof hstale, if_pos hstale]
  · have hquery : cred.query
        = passwdQuery (userPart (valueOf ps .parUsername)) (valueOf ps .parRealm) := by
      rw [DigCred.query, hf.user_eq, ← hf.getD_field .parRealm]
      rfl
    have hlook : env.lookup cred.query = .row row := hquery ▸ hrow
    rw [doAuth_fresh hh hd hparse hf.beyond hfit hof (Int32.not_lt.mp hstale) fun row' hrow' =>
      Lookup.row.inj (hlook.symm.trans hrow') ▸ hfits, hlook, if_neg hstale]
    have hexp : cred.expected (cred.hashOf calcHa1 row) method (env.hent.toList.take hashHexLen)
        = rightResponse ps calcHa1 row method := by
      rw [DigCred.expected, if_neg (hf.qop_ne hqop), DigCred.hashOf, rightResponse,
        hf.user_eq, ← hf.getD_field .parRealm, ← hf.getD_field .parNonce,
        ← hf.getD_field .parNc, ← hf.getD_field .parCnonce,
        ← hf.getD_field .parQop, ← hf.getD_field .parUri]
      rfl
    have hresplen : (rightResponse ps calcHa1 row method).length = hashHexLen := length_md5Hex _
    have hrespne : rightResponse ps calcHa1 row method ≠ [] := by
      intro h
      rw [h] at hresplen
      exact absurd hresplen (by decide)
    have hresp := hf.field_some (t := .parResponse) hrespne
    simp only [hm, Option.some.injEq, exists_eq_left', hexp]
    exact congrArg Res.ok (if_congr hresp rfl rfl)

theorem white_two : ∀ c ∈ ([32, 9] : List UInt8), isWhite c :=
  List.forall_mem_cons.mpr ⟨rfl, List.forall_mem_singleton.mpr rfl⟩

theorem bob_free : 34 ∉ ascii "bob@home" := by decide

/-- What bob answers to a challenge. -/
def bobParams (nonce response : List UInt8) (hn : 34 ∉ nonce) (hr : 34 ∉ response) : List Param :=
  [⟨.parUsername, ascii "username", ascii "bob@home", [], by decide, bob_free, white_nil⟩,
    ⟨.parRealm, ascii "Realm", ascii "home", [32], by decide, by decide, white_one⟩,
    ⟨.parNonce, ascii "nonce", nonce, [32], known_nonce, hn, white_one⟩,
    ⟨.parUri, ascii "uri", ascii "sip:home", [32, 9], by decide, by decide, white_two⟩,
    ⟨.parResponse, ascii "response", response, [], by decide, hr, white_nil⟩]

/-- A server that knows bob. -/
def bobEnv (now : Int32) : AuthEnv where
  queryMem := some fun _ => 0xff
  mysql := some fun q =>
    if q = passwdQuery (ascii "bob") (ascii "home") then .row (ascii "pw") else .noRow
  now := now
  passwdMem := some fun _ => 0
  ha1 := Vector.replicate 256 1
  hent := Vector.replicate 33 2
  buffer := Vector.replicate 64 3

/-- No digit of a hash is a quote. -/
theorem md5Hex_free (s : List UInt8) : 34 ∉ md5Hex s := by
  have hletter : ∀ d < 16, hexLetter d ≠ 34 := by decide
  intro hmem
  obtain ⟨b, -, hb⟩ := List.mem_flatMap.mp hmem
  have hlt := b.toNat_lt
  rw [hexOfByte_eq] at hb
  simp only [List.mem_cons, List.not_mem_nil, or_false] at hb
  rcases hb with hb | hb
  · exact hletter _ (by omega) hb.symm
  · exact hletter _ (by omega) hb.symm

/-- Bob is let in two hundred seconds after the challenge, and not four hundred after it. -/
theorem doAuth_challenge_bob :
    ∃ chal ps h m, buildChallenge ⟨ascii "s", 300, .qopUnspec⟩ (some fun _ => 0) 1000 false
        ⟨ascii "home", 0, 4⟩ = .ok (some (chal ++ [0]))
      ∧ ascii "Digest username=\"bob@home\", Realm=\"home\"" <+: renderCred ps
      ∧ doAuth (bobEnv 1200) h m true (ascii "s") = .ok .authorized
      ∧ doAuth (bobEnv 1400) h m true (ascii "s") = .ok .nonceStale := by
  obtain ⟨cfg, hcfg⟩ : ∃ cfg, cfg = (⟨ascii "s", 300, .qopUnspec⟩ : SipAuthCfg) := ⟨_, rfl⟩
  have hreal : (⟨ascii "home", 0, 4⟩ : Str).bytes = some (ascii "home") := by decide
  obtain ⟨c₀, hread, hfilled⟩ := parseDigestCred_challengeText cfg 1000 false
    (r := ascii "home") (by decide)
  have hbuild := buildChallenge_text cfg (fun _ => 0) 1000 false hreal
  have hc₀ : c₀.nonce = some (cfg.nonce 1000) :=
    hfilled.given _ (List.mem_cons_of_mem _ List.mem_cons_self)
  have hn : 34 ∉ cfg.nonce 1000 := nonceText_free _ _
  obtain ⟨nonce, hnonce⟩ : ∃ nonce, nonce = cfg.nonce 1000 := ⟨_, rfl⟩
  rw [← hnonce] at hc₀ hn
  obtain ⟨resp, hresp⟩ : ∃ resp, resp = rightResponse (bobParams nonce [] hn (by decide)) true
    (ascii "pw") (ascii "INVITE") := ⟨_, rfl⟩
  have hr : 34 ∉ resp := hresp ▸ md5Hex_free _
  obtain ⟨ps, hps⟩ : ∃ ps, ps = bobParams nonce resp hn hr := ⟨_, rfl⟩
  obtain ⟨vs, hvs⟩ : ∃ vs : List AvpView,
    vs = [⟨401, 0, 0, renderCred ps⟩, ⟨403, 0, 0, ascii "INVITE"⟩] := ⟨_, rfl⟩
  obtain ⟨h, m, ids, hh⟩ := exists_holds vs
  have hfit : ∀ v ∈ vs, Fits v.data := by
    have hlen : (renderCred ps).length + 64 ≤ 2 ^ 32 := by
      have hnlen : nonce.length = nonceLen := hnonce ▸ length_nonceText _ _ _
      have hrlen : resp.length = hashHexLen := hresp ▸ length_md5Hex _
      rw [hps]
      simp only [renderCred, List.intercalate, bobParams, Param.text, List.map_cons, List.map_nil,
        List.intersperse_cons_cons, List.intersperse_singleton, List.flatten_cons, List.flatten_nil,
        List.length_append, hnlen, hrlen]
      decide
    rw [hvs]
    exact List.forall_mem_cons.mpr ⟨hlen, List.forall_mem_singleton.mpr (by decide)⟩
  have hnames : (ps.map fun p => p.nm.map tolower)
      = [ascii "username", ascii "realm", ascii "nonce", ascii "uri", ascii "response"] := by
    rw [hps]
    rfl
  have hqop : valueOf ps .parQop = [] := by rw [hps]; rfl
  have hdo : ∀ now, doAuth (bobEnv now) h m true cfg.secret = .ok (
      if 1000 + cfg.nonceExpire < now then .nonceStale else .authorized) := by
    intro now
    have hauth := @doAuth_challenge _ _ _ _ _ _ _ _ hreal (by decide) hbuild hread ps (by rw [hps]; simp [bobParams])
      (by rw [hnames]; decide) (by rw [hc₀, hps]; rfl) (by rw [hqop]; decide) (bobEnv now) _ _ _ _
      (ascii "INVITE") (ascii "pw") true hh hfit (by rw [hvs]; rfl)
      (by rw [hvs]; rfl) (by rw [hps]; rfl) ⟨by decide, by simp [bobEnv], by simp⟩
    have hright : valueOf ps .parResponse = rightResponse ps true (ascii "pw") (ascii "INVITE") := by
      rw [hps]
      exact hresp
    rw [hauth, if_pos hright]
    rfl
  refine ⟨challengeText cfg 1000 false (ascii "home"), ps, h, m, hcfg ▸ hbuild, ?_, ?_, ?_⟩
  · rw [hps]
    exact ⟨_, rfl⟩
  · have hnow := hdo 1200
    rw [hcfg] at hnow
    exact hnow
  · have hnow := hdo 1400
    rw [hcfg] at hnow
    exact hnow

end Disc.Digest
