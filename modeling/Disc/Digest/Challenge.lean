import Disc.Digest.Cred
import Disc.Digest.Response
import Disc.Lib.Copy
import Disc.Msg.Avp

/-!
# Challenges

`challenge.c`. A challenge is a text with the realm, a fresh nonce and what is wanted of the
response. Its length is worked out first, and then it is put together: the nonce with the zero
`calc_nonce` leaves behind it, which the closing quote overwrites.

The client has to send the nonce back, so it must be able to read it. What reads credentials
reads challenges as well.
-/

namespace Disc.Digest

open Disc.Lib Disc.Server Disc.Msg

/-! ## The code -/

/-- `DIGEST_REALM`. -/
def digestRealm : List UInt8 := ascii "Digest realm=\""

/-- `DIGEST_NONCE`. -/
def digestNonce : List UInt8 := ascii "\", nonce=\""

/-- `QOP_AUTH_PARAM`. -/
def qopAuthParam : List UInt8 := ascii ", qop=\"auth\""

/-- `QOP_AUTHINT_PARAM`. -/
def qopAuthintParam : List UInt8 := ascii ", qop=\"auth-int\""

/-- `STALE_PARAM`. -/
def staleParam : List UInt8 := ascii ", stale=true"

/-- `CRLF`. -/
def crlf : List UInt8 := [13, 10]

/-- The module's parameters: `secret`, `nonce_expire` and `qop`. -/
structure SipAuthCfg where
  secret : List UInt8
  nonceExpire : Int32
  qop : QopType
deriving Repr, DecidableEq

/-- What `build_challenge` copies behind the nonce. -/
def behindNonce (cfg : SipAuthCfg) (stale : Bool) : List (List UInt8) :=
  [[34]] ++ (if cfg.qop = .qopAuth then [qopAuthParam] else [])
    ++ (if cfg.qop = .qopAuthint then [qopAuthintParam] else [])
    ++ (if stale then [staleParam] else []) ++ [crlf]

/--
`build_challenge`, without `_PRINT_MD5`. `mem` is the allocation, if there is memory, and `now`
is `time(0)`.
-/
def buildChallenge (cfg : SipAuthCfg) (mem : Option (Nat → UInt8)) (now : Int32) (stale : Bool)
    (realm : Str) : Res (Option (List UInt8)) :=
  let len := digestRealm.length + realm.len + digestNonce.length + nonceLen + 1
    + (if cfg.qop = .qopAuth then qopAuthParam.length else 0)
    + (if cfg.qop = .qopAuthint then qopAuthintParam.length else 0)
    + (if stale then staleParam.length else 0) + crlf.length
  match mem with
  | none => .ok none
  | some junk => do
      let r ← Res.ofAccess realm.bytes
      let (chal, p) ← copyAll [digestRealm, r, digestNonce] (fresh junk (len + 1)) 0
      let chal ← Res.ofAccess (poke chal p (calcNonce md5 (now + cfg.nonceExpire) cfg.secret))
      let p := p + nonceLen
      let (chal, p) ← copyAll (behindNonce cfg stale) chal p
      let chal ← Res.ofAccess (poke chal p [0])
      return some chal

/-! ## The text -/

/-- The nonce a challenge has that is made at the time `now`. -/
def SipAuthCfg.nonce (cfg : SipAuthCfg) (now : Int32) : List UInt8 :=
  nonceText md5 cfg.secret (now + cfg.nonceExpire)

/-- What is wanted of the response. -/
def SipAuthCfg.wanted (cfg : SipAuthCfg) : List UInt8 :=
  if cfg.qop = .qopAuth then qopAuthParam
  else if cfg.qop = .qopAuthint then qopAuthintParam else []

/-- The text of a challenge. -/
def challengeText (cfg : SipAuthCfg) (now : Int32) (stale : Bool) (realm : List UInt8) :
    List UInt8 :=
  digestRealm ++ realm ++ digestNonce ++ cfg.nonce now ++ [34] ++ cfg.wanted
    ++ (if stale then staleParam else []) ++ crlf

theorem calcNonce_eq (e : Int32) (secret : List UInt8) :
    calcNonce md5 e secret = nonceText md5 secret e ++ [0] := by
  obtain ⟨hex, hhex⟩ : ∃ hex, hex = integer2hex e ++ string2hex (md5 (integer2hex e ++ secret)).toList :=
    ⟨_, rfl⟩
  have hcalc : calcNonce md5 e secret = hex ++ [0] := by rw [hhex]; rfl
  have hlen : (nonceText md5 secret e).length = nonceLen := length_nonceText md5 secret e
  have htext : nonceText md5 secret e = (hex ++ [0]).take nonceLen := by rw [nonceText, hcalc]
  have hhexlen : hex.length = nonceLen := by
    obtain ⟨bin, hbin⟩ : ∃ bin, bin = md5 (integer2hex e ++ secret) := ⟨_, rfl⟩
    have hbin16 : bin.toList.length = 16 := Vector.length_toList
    have hne : bin.toList ≠ [] := by
      intro h
      rw [h] at hbin16
      exact absurd hbin16 (by decide)
    obtain ⟨bs, hbs⟩ : ∃ bs, bs = bin.toList := ⟨_, rfl⟩
    rw [← hbs] at hbin16 hne
    rw [hhex, ← hbin, ← hbs, List.length_append, length_integer2hex, string2hex_eq hne,
      List.length_map]
    simp [List.length_flatMap, hbin16, nonceLen]
  rw [hcalc, htext, ← hhexlen, List.take_left]

theorem behindNonce_flatten (cfg : SipAuthCfg) (stale : Bool) :
    (behindNonce cfg stale).flatten
      = [34] ++ cfg.wanted ++ (if stale then staleParam else []) ++ crlf := by
  unfold behindNonce SipAuthCfg.wanted
  cases cfg.qop <;> cases stale <;> rfl

/-- **The text is what was reckoned with**: it fills the allocation with the zero behind it. -/
theorem buildChallenge_text (cfg : SipAuthCfg) (junk : Nat → UInt8) (now : Int32) (stale : Bool)
    {realm : Str} {r : List UInt8} (hr : realm.bytes = some r) :
    buildChallenge cfg (some junk) now stale realm
      = .ok (some (challengeText cfg now stale r ++ [0])) := by
  have hrlen : r.length = realm.len := length_slice hr
  obtain ⟨nonce, hnonce⟩ : ∃ nonce, nonce = cfg.nonce now := ⟨_, rfl⟩
  have hcalc : calcNonce md5 (now + cfg.nonceExpire) cfg.secret = nonce ++ [0] :=
    hnonce ▸ calcNonce_eq _ _
  have hnlen : nonce.length = nonceLen := hnonce ▸ length_nonceText md5 cfg.secret _
  obtain ⟨front, hfront⟩ : ∃ front, front = digestRealm ++ r ++ digestNonce := ⟨_, rfl⟩
  have hflat : [digestRealm, r, digestNonce].flatten = front := by simp [hfront]
  have hbehind := behindNonce_flatten cfg stale
  obtain ⟨tail, htail⟩ : ∃ tail, tail = [34] ++ cfg.wanted ++ (if stale then staleParam else [])
    ++ crlf := ⟨_, rfl⟩
  have hreckoned : digestRealm.length + realm.len + digestNonce.length + nonceLen + 1
      + (if cfg.qop = .qopAuth then qopAuthParam.length else 0)
      + (if cfg.qop = .qopAuthint then qopAuthintParam.length else 0)
      + (if stale then staleParam.length else 0) + crlf.length
      = front.length + nonceLen + tail.length := by
    have hfrontlen : front.length = digestRealm.length + realm.len + digestNonce.length := by
      simp [hfront, hrlen, Nat.add_assoc]
    have htaillen : tail.length = 1 + (if cfg.qop = .qopAuth then qopAuthParam.length else 0)
        + (if cfg.qop = .qopAuthint then qopAuthintParam.length else 0)
        + (if stale then staleParam.length else 0) + crlf.length := by
      rw [htail, SipAuthCfg.wanted]
      cases cfg.qop <;> cases stale <;> rfl
    omega
  rw [← htail] at hbehind
  have htext : challengeText cfg now stale r = front ++ nonce ++ tail := by
    rw [challengeText, ← hnonce, hfront, htail]
    simp only [List.append_assoc]
  -- the text in front of the nonce
  have hfirst := copyAll_fresh junk [digestRealm, r, digestNonce]
    (front.length + nonceLen + tail.length + 1) (by rw [hflat]; omega)
  rw [hflat] at hfirst
  obtain ⟨rest, hrest⟩ : ∃ rest, rest = (fresh junk (front.length + nonceLen + tail.length + 1)).drop
    front.length := ⟨_, rfl⟩
  have hrestlen : rest.length = nonceLen + tail.length + 1 := by
    rw [hrest, List.length_drop, length_fresh]
    omega
  rw [← hrest] at hfirst
  -- the nonce and its zero, which the rest overwrites
  have hwrite := poke_behind front (nonce ++ [0]) rest (by
    rw [List.length_append, hnlen, List.length_singleton, hrestlen]
    omega)
  have hzero : front ++ (nonce ++ [0]) ++ rest.drop (nonce ++ [0]).length
      = (front ++ nonce) ++ (0 :: rest.drop (nonce ++ [0]).length) := by simp
  obtain ⟨more, hmore⟩ : ∃ more, more = 0 :: rest.drop (nonce ++ [0]).length := ⟨_, rfl⟩
  have hmorelen : more.length = tail.length + 1 := by
    rw [hmore, List.length_cons, List.length_drop, List.length_append, hnlen, hrestlen,
      List.length_singleton]
    omega
  rw [hzero, ← hmore] at hwrite
  have hsecond := copyAll_eq (behindNonce cfg stale) (front ++ nonce) more (by
    rw [hbehind]
    omega)
  rw [hbehind, List.length_append, hnlen] at hsecond
  -- the last byte
  have hlast := poke_behind (front ++ nonce ++ tail) [0] (more.drop tail.length) (by
    rw [List.length_drop, hmorelen, List.length_singleton]
    omega)
  have hfull : (more.drop tail.length).drop [(0 : UInt8)].length = [] := by
    rw [List.drop_drop, List.drop_eq_nil_iff, hmorelen]
    rfl
  rw [hfull, List.append_nil] at hlast
  rw [buildChallenge, hreckoned]
  dsimp only
  rw [hr, Res.ofAccess_some, Res.ok_bind, hfirst, Res.ok_bind, hcalc, hwrite, Res.ofAccess_some,
    Res.ok_bind]
  dsimp only
  rw [hsecond, Res.ok_bind]
  dsimp only
  rw [hlast, htext]
  rfl

/-! ## Reading it -/

/-- **The loop reads the parameters** and goes on behind the next comma, if there is one. -/
theorem paramLoop_behind (p : Param) (ps : List Param) {fuel : Nat} (hf : ps.length < fuel)
    (rest : List UInt8) (c : DigCred) :
    paramLoop fuel (p.text ++ (behindFirst ps ++ rest)) c
      = match qMemchr rest 44 with
        | none => .ok (0, c.store (p :: ps))
        | some comma =>
            paramLoop (fuel - (ps.length + 1)) (trimLeading comma.tail) (c.store (p :: ps)) := by
  induction ps generalizing p fuel c with
  | nil =>
      obtain ⟨fuel, rfl⟩ := Nat.exists_eq_succ_of_ne_zero (Nat.ne_of_gt hf)
      rw [paramLoop, parseDigestParam_text]
      rfl
  | cons q ps ih =>
      obtain ⟨fuel, rfl⟩ := Nat.exists_eq_succ_of_ne_zero (Nat.ne_of_gt (Nat.zero_lt_of_lt hf))
      have hmore : behindFirst (q :: ps) ++ rest
          = 44 :: (q.blanks ++ (q.text ++ (behindFirst ps ++ rest))) := by
        simp [behindFirst]
      have hcomma := @qMemchr_cut [] (q.blanks ++ (q.text ++ (behindFirst ps ++ rest))) 44 (by simp)
      rw [paramLoop, parseDigestParam_text, hmore, Res.ok_bind]
      simp only [List.nil_append] at hcomma
      simp only [Int.lt_irrefl, if_false, hcomma, List.tail_cons,
        trimLeading_blanks q.blanks_white (q.text_head _)]
      rw [ih q (by simpa using hf), List.length_cons, Nat.succ_sub_succ]
      rfl

/-- Behind the word, the parameters count. -/
theorem parseDigestCred_digest {body : List UInt8} {c c' : DigCred}
    (h : parseDigestParams (trimLeading body) c = .ok (0, c')) :
    parseDigestCred (ascii "Digest " ++ body) c = .ok (1, c') := by
  have htrim : trimLeading (ascii "Digest " ++ body) = ascii "Digest " ++ body := rfl
  have hscheme : strncasecmp (ascii "Digest " ++ body) digestScheme 6 = 0 :=
    (@strncasecmp_literal _ digestScheme (by decide)).mpr rfl
  have hlen : ¬ (ascii "Digest " ++ body).length < 6 + 1 := by
    have hword : (ascii "Digest ").length = 7 := rfl
    rw [List.length_append]
    omega
  have hbyte : byteAt (ascii "Digest " ++ body) 6 = .ok 32 := rfl
  have hdrop : (ascii "Digest " ++ body).drop (6 + 1) = body := rfl
  unfold parseDigestCred
  simp only [htrim, hlen, if_false, hscheme, if_true, hbyte, Res.ok_bind, hdrop, h]
  rfl

/-- Credentials that are written out are read. -/
theorem parseDigestCred_written {ps : List Param} (hne : ps ≠ []) (c : DigCred) :
    parseDigestCred (renderCred ps) c = .ok (1, (c.store ps).finish) := by
  obtain ⟨p, ps, rfl⟩ := List.exists_cons_of_ne_nil hne
  have hfuel : ps.length < (p.text ++ behindFirst ps).length + 1 := by
    have hlen := length_le_behindFirst ps
    rw [List.length_append]
    omega
  have hblank : trimLeading (p.blanks ++ (p.text ++ behindFirst ps)) = p.text ++ behindFirst ps :=
    trimLeading_blanks p.blanks_white (p.text_head _)
  rw [renderCred_cons]
  refine parseDigestCred_digest ?_
  rw [hblank]
  exact parseDigestParams_ok (paramLoop_text p ps hfuel c)

/-- No character of a nonce is a quote or a zero. -/
theorem nonceText_chars (secret : List UInt8) (e : Int32) :
    ∀ c ∈ nonceText md5 secret e, c ≠ 34 ∧ c ≠ 0 := by
  have hletter : ∀ d < 16, hexLetter d ≠ 34 ∧ hexLetter d ≠ 0 := by decide
  obtain ⟨ds, hds, -, heq⟩ := nonceText_eq md5 secret e
  rw [heq, integer2hex_eq, ← List.map_append]
  intro c hc
  obtain ⟨d, hd, rfl⟩ := List.mem_map.mp hc
  rcases List.mem_append.mp hd with hd | hd
  · exact hletter d (fixed_lt (by decide) d hd)
  · exact hletter d (hds d hd)

theorem nonceText_free (secret : List UInt8) (e : Int32) : 34 ∉ nonceText md5 secret e :=
  fun h => (nonceText_chars secret e 34 h).1 rfl

/-- Nothing, or a blank, in front of a name. -/
theorem white_nil : ∀ c ∈ ([] : List UInt8), isWhite c := List.forall_mem_nil _

theorem white_one : ∀ c ∈ ([32] : List UInt8), isWhite c := List.forall_mem_singleton.mpr rfl

theorem known_nonce : (DigPar.parNonce, (ascii "nonce").map tolower) ∈ parNames := by decide

/-- The parameter that says what is wanted of the response. -/
def qopParams : QopType → List Param
  | .qopAuth =>
      [⟨.parQop, ascii "qop", ascii "auth", [32], by decide, by decide, white_one⟩]
  | .qopAuthint =>
      [⟨.parQop, ascii "qop", ascii "auth-int", [32], by decide, by decide, white_one⟩]
  | _ => []

/-- The parameters of a challenge. -/
def challengeParams (cfg : SipAuthCfg) (now : Int32) {realm : List UInt8} (hr : 34 ∉ realm) :
    List Param :=
  ⟨.parRealm, ascii "realm", realm, [], by decide, hr, white_nil⟩
    :: ⟨.parNonce, ascii "nonce", cfg.nonce now, [32], known_nonce, nonceText_free _ _, white_one⟩
    :: qopParams cfg.qop

theorem behindFirst_qopParams (cfg : SipAuthCfg) : behindFirst (qopParams cfg.qop) = cfg.wanted := by
  unfold SipAuthCfg.wanted
  cases cfg.qop <;> rfl

/-- An unknown parameter goes nowhere. -/
theorem parseDigestParam_stale (c : DigCred) :
    parseDigestParam (ascii "stale=true\r\n") c = .ok (0, crlf, c) := by
  rfl

/-- What comes behind the parameters: the line end, with one that is unknown in front if stale. -/
def behindParams (stale : Bool) : List UInt8 := (if stale then staleParam else []) ++ crlf

/-- A challenge is credentials with no response in them. -/
theorem challengeText_params (cfg : SipAuthCfg) (now : Int32) (stale : Bool) {r : List UInt8}
    (hr : 34 ∉ r) :
    ∃ p ps, challengeParams cfg now hr = p :: ps ∧ challengeText cfg now stale r
      = ascii "Digest " ++ (p.blanks ++ (p.text ++ (behindFirst ps ++ behindParams stale))) := by
  refine ⟨_, _, rfl, ?_⟩
  have hbehind : ∀ (p : Param) ps,
      behindFirst (p :: ps) = 44 :: (p.blanks ++ (p.text ++ behindFirst ps)) := by
    intro p ps
    simp [behindFirst]
  rw [hbehind, behindFirst_qopParams]
  obtain ⟨nonce, hnonce⟩ : ∃ nonce, nonce = cfg.nonce now := ⟨_, rfl⟩
  simp only [challengeText, behindParams, Param.text, ← hnonce, List.append_assoc, List.cons_append,
    List.nil_append]
  rfl

theorem paramLoop_behindParams (stale : Bool) (p : Param) (ps : List Param) {fuel : Nat}
    (hf : ps.length + 1 < fuel) (c : DigCred) :
    paramLoop fuel (p.text ++ (behindFirst ps ++ behindParams stale)) c
      = .ok (0, c.store (p :: ps)) := by
  rw [paramLoop_behind p ps (by omega)]
  cases stale
  · rfl
  · obtain ⟨k, hk⟩ := Nat.exists_eq_succ_of_ne_zero (show fuel - (ps.length + 1) ≠ 0 by omega)
    show paramLoop (fuel - (ps.length + 1)) (ascii "stale=true\r\n") _ = _
    rw [hk, paramLoop, parseDigestParam_stale]
    rfl

/-- **A challenge is read back** by what reads credentials. -/
theorem parseDigestCred_challengeText (cfg : SipAuthCfg) (now : Int32) (stale : Bool)
    {r : List UInt8} (hr : 34 ∉ r) :
    ∃ c, parseDigestCred (challengeText cfg now stale r) initDigCred = .ok (1, c)
      ∧ initDigCred.Filled (challengeParams cfg now hr) c := by
  obtain ⟨p, ps, hps, htext⟩ := challengeText_params cfg now stale hr
  have hfuel : ps.length + 1 < (p.text ++ (behindFirst ps ++ behindParams stale)).length + 1 := by
    have hlen := length_le_behindFirst ps
    have hcrlf : 0 < (behindParams stale).length := by cases stale <;> decide
    simp only [List.length_append]
    omega
  have hloop := parseDigestParams_ok (paramLoop_behindParams stale p ps hfuel initDigCred)
  have hblank : trimLeading (p.blanks ++ (p.text ++ (behindFirst ps ++ behindParams stale)))
      = p.text ++ (behindFirst ps ++ behindParams stale) :=
    trimLeading_blanks p.blanks_white (p.text_head _)
  have hdistinct : ((challengeParams cfg now hr).map Param.type).Nodup := by
    have htypes : (challengeParams cfg now hr).map Param.type
        = .parRealm :: .parNonce :: (qopParams cfg.qop).map Param.type := rfl
    rw [htypes]
    cases cfg.qop <;> decide
  rw [hps] at hdistinct ⊢
  rw [htext]
  refine ⟨_, parseDigestCred_digest ?_, store_filled hdistinct ⟨rfl, rfl, rfl⟩⟩
  rw [hblank]
  exact hloop

/-- There is no zero in a challenge if there is none in the realm. -/
theorem challengeText_chars (cfg : SipAuthCfg) (now : Int32) (stale : Bool) {r : List UInt8}
    (hz : 0 ∉ r) : 0 ∉ challengeText cfg now stale r := by
  have hnonce : 0 ∉ cfg.nonce now := fun h => (nonceText_chars _ _ 0 h).2 rfl
  have hwanted : 0 ∉ cfg.wanted := by
    unfold SipAuthCfg.wanted
    cases cfg.qop <;> decide
  have hstale : 0 ∉ (if stale then staleParam else []) := by cases stale <;> decide
  have hrealm : 0 ∉ digestRealm := by decide
  have hfront : 0 ∉ digestNonce := by decide
  have hquote : 0 ∉ ([34] : List UInt8) := by decide
  have hcrlf : 0 ∉ crlf := by decide
  simp only [challengeText, List.mem_append, not_or]
  exact ⟨⟨⟨⟨⟨⟨⟨hrealm, hz⟩, hfront⟩, hnonce⟩, hquote⟩, hwanted⟩, hstale⟩, hcrlf⟩

/--
**The challenge that is built** fills its allocation to the last byte, is a string, and what
reads credentials finds in it the realm, what is wanted of a response, and a nonce that is
accepted, with the expiry it was made with.
-/
theorem buildChallenge_reads_back (cfg : SipAuthCfg) (junk : Nat → UInt8) (now : Int32)
    (stale : Bool) {realm : Str} {r : List UInt8} (hr : realm.bytes = some r) (hq : 34 ∉ r)
    (hz : 0 ∉ r) :
    ∃ chal c, buildChallenge cfg (some junk) now stale realm = .ok (some (chal ++ [0]))
      ∧ Routes.cString (chal ++ [0]) = chal
      ∧ parseDigestCred chal initDigCred = .ok (1, c)
      ∧ c.realm = some r
      ∧ c.qop.qopParsed = (if cfg.qop = .qopOther then .qopUnspec else cfg.qop)
      ∧ c.response = none
      ∧ ∃ n, c.nonce = some n ∧ checkNonce md5 (some n) cfg.secret = .ok 0
        ∧ getNonceExpires n = .ok (now + cfg.nonceExpire).toInt64 := by
  obtain ⟨c, hparse, hfilled⟩ := parseDigestCred_challengeText cfg now stale hq
  refine ⟨challengeText cfg now stale r, c, buildChallenge_text cfg junk now stale hr, ?_, hparse,
    ?_, ?_, ?_, cfg.nonce now, ?_, checkNonce_nonceText _ _ _, getNonceExpires_nonceText _ _ _⟩
  · have hchars := challengeText_chars cfg now stale hz
    rw [Routes.cString, List.takeWhile_append_of_pos fun b hb => by
      simpa using fun h : b = 0 => hchars (h ▸ hb)]
    simp
  · exact hfilled.given _ List.mem_cons_self
  · unfold challengeParams at hfilled
    cases hqop : cfg.qop with
    | qopAuth | qopAuthint =>
        rw [hqop] at hfilled
        exact hfilled.qop _ (List.mem_cons_of_mem _ (List.mem_cons_of_mem _ List.mem_cons_self)) rfl
    | qopUnspec | qopOther =>
        rw [hqop] at hfilled
        exact congrArg Qp.qopParsed (hfilled.no_qop (by simp [qopParams]))
  · refine hfilled.others .parResponse ?_
    unfold challengeParams
    cases cfg.qop <;> simp [qopParams]
  · exact hfilled.given _ (List.mem_cons_of_mem _ List.mem_cons_self)

theorem buildChallenge_reads_back_sample :
    ∃ chal c, buildChallenge ⟨ascii "s", 300, .qopAuth⟩ (some fun _ => 0xff) 1000 true
        ⟨ascii "iptel.org", 0, 9⟩ = .ok (some (chal ++ [0]))
      ∧ parseDigestCred chal initDigCred = .ok (1, c) ∧ c.realm = some (ascii "iptel.org")
      ∧ c.qop.qopParsed = .qopAuth := by
  obtain ⟨chal, c, hbuild, -, hparse, hrealm, hqop, -⟩ := @buildChallenge_reads_back
    ⟨ascii "s", 300, .qopAuth⟩ (fun _ => 0xff) 1000 true ⟨ascii "iptel.org", 0, 9⟩
    (ascii "iptel.org") (by decide) (by decide) (by decide)
  exact ⟨chal, c, hbuild, hparse, hrealm, hqop⟩

end Disc.Digest
