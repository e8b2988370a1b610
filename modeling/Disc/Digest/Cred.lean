import Disc.Digest.ParamName

/-!
# Digest credentials

`digest_parser.c`. The credentials are the word `Digest` and parameters, separated by commas.
`parse_digest_params` reads the name of a parameter, then its value, between quotes or not,
and looks for the next comma behind the value. What it reads goes into the field the name
stands for. At the end the user name is taken apart, and the two parameters with few values
are classified.

The fields point into the text. `parse_token` moves the pointer before it finds the token
empty, and leaves the length alone: what was a value of that parameter before is a string
then that may go on behind the text. It is the last thing that is read.
-/

namespace Disc.Digest

open Disc.Lib Disc.Server

/-! ## The code -/

/-- `alg_t`. -/
inductive Alg where
  | algUnspec
  | algMd5
  | algMd5sess
  | algOther
deriving Repr, DecidableEq

/-- `qop_type_t`. -/
inductive QopType where
  | qopUnspec
  | qopAuth
  | qopAuthint
  | qopOther
deriving Repr, DecidableEq

/-- `struct algorithm`. -/
@[ext]
structure Algorithm where
  algStr : Option (List UInt8)
  algParsed : Alg
deriving Repr, DecidableEq

/-- `struct qp`. -/
@[ext]
structure Qp where
  qopStr : Option (List UInt8)
  qopParsed : QopType
deriving Repr, DecidableEq

/-- `struct username`. -/
@[ext]
structure Username where
  whole : Option (List UInt8)
  user : Option (List UInt8)
  domain : Option (List UInt8)
deriving Repr, DecidableEq

/-- `dig_cred_t`. A string that points nowhere is `none`. -/
structure DigCred where
  username : Username
  realm : Option (List UInt8)
  nonce : Option (List UInt8)
  uri : Option (List UInt8)
  response : Option (List UInt8)
  alg : Algorithm
  cnonce : Option (List UInt8)
  /-- `opaque`. -/
  opaqueStr : Option (List UInt8)
  qop : Qp
  nc : Option (List UInt8)
  /-- The string that goes on behind the text, and how far; its field has what is in the text. -/
  beyond : Option (DigPar × Nat)
deriving Repr, DecidableEq

/-- `init_dig_cred`. -/
def initDigCred : DigCred where
  username := ⟨none, none, none⟩
  realm := none
  nonce := none
  uri := none
  response := none
  alg := ⟨none, .algUnspec⟩
  cnonce := none
  opaqueStr := none
  qop := ⟨none, .qopUnspec⟩
  nc := none
  beyond := none

/-- `*ptr`. What is no known parameter goes into a dummy. -/
def DigCred.field (c : DigCred) : DigPar → Option (List UInt8)
  | .parUsername => c.username.whole
  | .parRealm => c.realm
  | .parNonce => c.nonce
  | .parUri => c.uri
  | .parResponse => c.response
  | .parCnonce => c.cnonce
  | .parOpaque => c.opaqueStr
  | .parQop => c.qop.qopStr
  | .parNc => c.nc
  | .parAlgorithm => c.alg.algStr
  | .parOther => none

/-- Writing `*ptr`. -/
def DigCred.setField (c : DigCred) (v : Option (List UInt8)) : DigPar → DigCred
  | .parUsername => { c with username := { c.username with whole := v } }
  | .parRealm => { c with realm := v }
  | .parNonce => { c with nonce := v }
  | .parUri => { c with uri := v }
  | .parResponse => { c with response := v }
  | .parCnonce => { c with cnonce := v }
  | .parOpaque => { c with opaqueStr := v }
  | .parQop => { c with qop := { c.qop with qopStr := v } }
  | .parNc => { c with nc := v }
  | .parAlgorithm => { c with alg := { c.alg with algStr := v } }
  | .parOther => c

/-- The string of `t` goes on for so many bytes behind the text. -/
def DigCred.reaching (c : DigCred) (t : DigPar) : Nat → DigCred
  | 0 => c
  | n + 1 => { c with beyond := some (t, n + 1) }

/-- `trim`. -/
def trim (s : List UInt8) : List UInt8 := trimTrailing (trimLeading s)

/-- `parse_quoted`: what it returns, and what `s` and `r` are then. -/
def parseQuoted (s : List UInt8) (r : Option (List UInt8)) :
    Int × List UInt8 × Option (List UInt8) :=
  if s.length < 2 then (-1, s, r)
  else
    match qMemchr s.tail 34 with
    | none => (-2, s.tail, r)
    | some endQuote =>
        (0, endQuote.tail, some (s.tail.take (s.tail.length - endQuote.length)))

/-- What ends a token. -/
def endsToken (c : UInt8) : Bool := c = 32 || c = 9 || c = 13 || c = 10 || c = 44

/--
`parse_token`, and how much of `r` is behind the text then. An empty token is an error, but `r`
points to it already and is as long as it was.
-/
def parseToken (s : List UInt8) (r : Option (List UInt8)) :
    Int × List UInt8 × Option (List UInt8) × Nat :=
  let token := s.takeWhile fun c => !endsToken c
  let len := (r.getD []).length
  if token.length = 0 then (-2, s, some (s.take len), len - s.length)
  else (0, s.drop token.length, some token, 0)

/-- `parse_digest_param`: what it returns, and what `s` and `c` are then. -/
def parseDigestParam (s : List UInt8) (c : DigCred) : Res (Int × List UInt8 × DigCred) :=
  match parseParamName s with
  | .ok (t, r) =>
      let body := trimLeading r.tail
      if body.length = 0 then .ok (-2, body, c)
      else if body.head? = some 34 then
        match parseQuoted body (c.field t) with
        | (rc, rest, v) => .ok (if rc < 0 then -3 else 0, rest, c.setField v t)
      else
        match parseToken body (c.field t) with
        | (rc, rest, v, extra) =>
            .ok (if rc < 0 then -4 else 0, rest, (c.setField v t).reaching t extra)
  | .error => .ok (-1, s, c)
  | .fault => .fault
  | .diverge => .diverge

/-- `QOP_AUTH_STR`. -/
def qopAuthStr : List UInt8 := ascii "auth"

/-- `QOP_AUTHINT_STR`. -/
def qopAuthintStr : List UInt8 := ascii "auth-int"

/-- `ALG_MD5_STR`. -/
def algMd5Str : List UInt8 := ascii "MD5"

/-- `ALG_MD5SESS_STR`. -/
def algMd5sessStr : List UInt8 := ascii "MD5-sess"

/-- `parse_qop`. -/
def parseQop (q : Qp) : Qp :=
  let s := trim (q.qopStr.getD [])
  { q with qopParsed :=
      if sameName s qopAuthStr then .qopAuth
      else if sameName s qopAuthintStr then .qopAuthint
      else .qopOther }

/-- `parse_algorithm`. -/
def parseAlgorithm (a : Algorithm) : Algorithm :=
  let s := trim (a.algStr.getD [])
  { a with algParsed :=
      if sameName s algMd5Str then .algMd5
      else if sameName s algMd5sessStr then .algMd5sess
      else .algOther }

/-- `parse_username`. -/
def parseUsername (u : Username) : Username :=
  let whole := u.whole.getD []
  let u := { u with user := u.whole }
  if whole.length ≤ 2 then u
  else
    match qMemchr whole 64 with
    | none => u
    | some d =>
        { u with domain := some d.tail, user := some (whole.take (whole.length - d.length)) }

/-- The loop of `parse_digest_params`. It returns -1 at the first parameter that is none. -/
def paramLoop : Nat → List UInt8 → DigCred → Res (Int × DigCred)
  | 0, _, _ => .diverge
  | fuel + 1, s, c => do
      let (rc, s, c) ← parseDigestParam s c
      if rc < 0 then return (-1, c)
      match qMemchr s 44 with
      | none => return (0, c)
      | some comma => paramLoop fuel (trimLeading comma.tail) c

/-- `parse_digest_params`. -/
def parseDigestParams (s : List UInt8) (c : DigCred) : Res (Int × DigCred) := do
  let (rc, c) ← paramLoop (s.length + 1) s c
  if rc < 0 then return (-1, c)
  let c := if c.qop.qopStr.isSome then { c with qop := parseQop c.qop } else c
  let c := if c.alg.algStr.isSome then { c with alg := parseAlgorithm c.alg } else c
  let c := if c.username.whole.isSome then { c with username := parseUsername c.username } else c
  return (0, c)

/-- `DIGEST_SCHEME`. -/
def digestScheme : List UInt8 := ascii "digest"

/-- What may come behind the scheme. The third of these is the letter. -/
def endsScheme (c : UInt8) : Bool := c = 32 || c = 13 || c = 110 || c = 9 || c = 44

/-- `parse_digest_cred`. -/
def parseDigestCred (s : List UInt8) (c : DigCred) : Res (Int × DigCred) := do
  let tmp := trimLeading s
  if tmp.length < 6 + 1 then return (-1, c)
  else if strncasecmp tmp digestScheme 6 = 0 then do
    let b ← byteAt tmp 6
    if endsScheme b then do
      let (rc, c) ← parseDigestParams (trimLeading (tmp.drop (6 + 1))) c
      return (if rc < 0 then -2 else 1, c)
    else return (-1, c)
  else return (-1, c)


/-! ## Credentials that are written out -/

/-- A parameter: its name in letters of any case, its value, and the blanks in front. -/
structure Param where
  type : DigPar
  nm : List UInt8
  value : List UInt8
  blanks : List UInt8
  nm_known : (type, nm.map tolower) ∈ parNames
  value_free : 34 ∉ value
  blanks_white : ∀ c ∈ blanks, isWhite c

/-- `name="value"`. -/
def Param.text (p : Param) : List UInt8 := p.nm ++ [61, 34] ++ p.value ++ [34]

/-- The word, and the parameters with commas between them. -/
def renderCred (ps : List Param) : List UInt8 :=
  ascii "Digest " ++ [44].intercalate (ps.map fun p => p.blanks ++ p.text)

/-- The user of a user name, which ends at the first `@` of one longer than two letters. -/
def userPart (v : List UInt8) : List UInt8 := if 2 < v.length then v.takeWhile (· ≠ 64) else v

/-- What comes behind the first `@` of a user name that is longer than two letters. -/
def domainPart (v : List UInt8) : Option (List UInt8) :=
  if 2 < v.length ∧ 64 ∈ v then some (v.dropWhile (· ≠ 64)).tail else none

/-- The quality of protection a value asks for. -/
def qopOf (v : List UInt8) : QopType :=
  if (trim v).map tolower = ascii "auth" then .qopAuth
  else if (trim v).map tolower = ascii "auth-int" then .qopAuthint
  else .qopOther

/-- The algorithm a value names. -/
def algOf (v : List UInt8) : Alg :=
  if (trim v).map tolower = ascii "md5" then .algMd5
  else if (trim v).map tolower = ascii "md5-sess" then .algMd5sess
  else .algOther

/-- No user name, quality of protection or algorithm was read into the credentials. -/
structure DigCred.Unparsed (c : DigCred) : Prop where
  username : c.username.whole = none
  qop : c.qop.qopStr = none
  alg : c.alg.algStr = none

/-- The credentials `c'` are `c` with the values of `ps`. -/
structure DigCred.Filled (c : DigCred) (ps : List Param) (c' : DigCred) : Prop where
  given : ∀ p ∈ ps, c'.field p.type = some p.value
  others : ∀ t, t ∉ ps.map Param.type → c'.field t = c.field t
  user : ∀ p ∈ ps, p.type = .parUsername → c'.username.user = some (userPart p.value)
    ∧ c'.username.domain = (domainPart p.value).or c.username.domain
  no_user : .parUsername ∉ ps.map Param.type → c'.username = c.username
  qop : ∀ p ∈ ps, p.type = .parQop → c'.qop.qopParsed = qopOf p.value
  no_qop : .parQop ∉ ps.map Param.type → c'.qop = c.qop
  alg : ∀ p ∈ ps, p.type = .parAlgorithm → c'.alg.algParsed = algOf p.value
  no_alg : .parAlgorithm ∉ ps.map Param.type → c'.alg = c.alg
  beyond : c'.beyond = c.beyond

/-! ## One parameter -/

theorem qMemchr_cut {a r : List UInt8} {c : UInt8} (ha : c ∉ a) :
    qMemchr (a ++ c :: r) c = some (c :: r) := by
  have hdrop : (a ++ c :: r).dropWhile (· ≠ c) = c :: r := by
    rw [List.dropWhile_append_of_pos]
    · simp
    · intro b hb
      simpa using fun h : b = c => ha (h ▸ hb)
  rw [qMemchr, hdrop]

theorem qMemchr_none {a : List UInt8} {c : UInt8} (ha : c ∉ a) : qMemchr a c = none := by
  have hdrop : a.dropWhile (· ≠ c) = [] := by
    rw [List.dropWhile_eq_nil_iff]
    intro b hb
    simpa using fun h : b = c => ha (h ▸ hb)
  rw [qMemchr, hdrop]

/-- Blanks in front of what is none go away. -/
theorem trimLeading_blanks {w s : List UInt8} (hw : ∀ c ∈ w, isWhite c)
    (hs : ∀ c ∈ s.head?, isWhite c = false) : trimLeading (w ++ s) = s := by
  rw [trimLeading, List.dropWhile_append_of_pos hw]
  cases s with
  | nil => rfl
  | cons c r => rw [List.dropWhile_cons_of_neg (by simp [hs c (by simp)])]

/-- A value without quotes is what comes between the quotes. -/
theorem parseQuoted_value {v rest : List UInt8} (hv : 34 ∉ v) (r : Option (List UInt8)) :
    parseQuoted (34 :: (v ++ 34 :: rest)) r = (0, rest, some v) := by
  have hlen : ¬ (34 :: (v ++ 34 :: rest)).length < 2 := by
    simp only [List.length_cons, List.length_append]
    omega
  rw [parseQuoted, if_neg hlen, List.tail_cons, qMemchr_cut hv]
  simp

/-- A name of the list, an `=` and something are read to the `=`. -/
theorem parseParamName_name {nm rest : List UInt8} {type : DigPar}
    (hmem : (type, nm.map tolower) ∈ parNames) (hrest : rest ≠ []) :
    parseParamName (nm ++ 61 :: rest) = .ok (type, 61 :: rest) := by
  have hspells : spells (nm.map tolower) (nm ++ 61 :: rest) := by simp [spells]
  have hlen : ∀ e ∈ parNames, 2 ≤ e.2.length := by decide
  have hnm : 2 ≤ nm.length := by simpa using hlen _ hmem
  have hrest' : 0 < rest.length := List.length_pos_of_ne_nil hrest
  have hs : 4 ≤ (nm ++ 61 :: rest).length := by
    simp only [List.length_append, List.length_cons]
    omega
  rw [parseParamName_spelled hmem hspells hs, List.length_map, endLabel, List.drop_left]
  rfl

theorem parseDigestParam_text (p : Param) (rest : List UInt8) (c : DigCred) :
    parseDigestParam (p.text ++ rest) c = .ok (0, rest, c.setField (some p.value) p.type) := by
  have htext : p.text ++ rest = p.nm ++ 61 :: (34 :: (p.value ++ 34 :: rest)) := by
    simp [Param.text]
  have hbody : trimLeading (34 :: (p.value ++ 34 :: rest)) = 34 :: (p.value ++ 34 :: rest) :=
    trimLeading_blanks (List.forall_mem_nil _) (by simp; decide)
  rw [htext, parseDigestParam, parseParamName_name p.nm_known (by simp)]
  simp only [List.tail_cons, hbody, List.head?_cons, parseQuoted_value p.value_free]
  simp

/-! ## The fields -/

section Fields

variable {c : DigCred} {v : Option (List UInt8)} {t t' : DigPar}

theorem field_setField (ht : t ≠ .parOther) : (c.setField v t).field t = v := by
  cases t <;> first | rfl | exact absurd rfl ht

theorem field_setField_ne (h : t ≠ t') : (c.setField v t).field t' = c.field t' := by
  cases t <;> cases t' <;> first | rfl | exact absurd rfl h

/-- A field is written, and none of what is worked out of the fields. -/
theorem setField_derived :
    (c.setField v t).username.user = c.username.user
      ∧ (c.setField v t).username.domain = c.username.domain
      ∧ (c.setField v t).qop.qopParsed = c.qop.qopParsed
      ∧ (c.setField v t).alg.algParsed = c.alg.algParsed
      ∧ (c.setField v t).beyond = c.beyond := by
  cases t <;> exact ⟨rfl, rfl, rfl, rfl, rfl⟩

end Fields

/-- The credentials once the values of `ps` are in their fields. -/
def DigCred.store (c : DigCred) (ps : List Param) : DigCred :=
  ps.foldl (fun c p => c.setField (some p.value) p.type) c

theorem Param.type_ne (p : Param) : p.type ≠ .parOther := by
  have hknown : ∀ e ∈ parNames, e.1 ≠ .parOther := by decide
  exact hknown _ p.nm_known

theorem store_others {ps : List Param} {t : DigPar} (ht : t ∉ ps.map Param.type) (c : DigCred) :
    (c.store ps).field t = c.field t := by
  induction ps generalizing c with
  | nil => rfl
  | cons p ps ih =>
      rw [List.map_cons, List.mem_cons, not_or] at ht
      exact (ih ht.2 _).trans (field_setField_ne fun h => ht.1 h.symm)

/-- **Of parameters with distinct names**, each is in its field at the end. -/
theorem store_given {ps : List Param} (hps : (ps.map Param.type).Nodup) (c : DigCred) :
    ∀ p ∈ ps, (c.store ps).field p.type = some p.value := by
  induction ps generalizing c with
  | nil => intro p hp; simp at hp
  | cons q ps ih =>
      rw [List.map_cons, List.nodup_cons] at hps
      intro p hp
      rcases List.mem_cons.mp hp with rfl | hp
      · exact (store_others hps.1 _).trans (field_setField p.type_ne)
      · exact ih hps.2 _ p hp

theorem store_derived (ps : List Param) (c : DigCred) :
    (c.store ps).username.user = c.username.user
      ∧ (c.store ps).username.domain = c.username.domain
      ∧ (c.store ps).qop.qopParsed = c.qop.qopParsed
      ∧ (c.store ps).alg.algParsed = c.alg.algParsed
      ∧ (c.store ps).beyond = c.beyond := by
  induction ps generalizing c with
  | nil => exact ⟨rfl, rfl, rfl, rfl, rfl⟩
  | cons p ps ih =>
      obtain ⟨hu, hd, hq, ha, hb⟩ := ih (c.setField (some p.value) p.type)
      obtain ⟨hu', hd', hq', ha', hb'⟩ := @setField_derived c (some p.value) p.type
      exact ⟨hu.trans hu', hd.trans hd', hq.trans hq', ha.trans ha', hb.trans hb'⟩

/-! ## All of them -/

/-- What comes behind the first parameter. -/
def behindFirst (ps : List Param) : List UInt8 := ps.flatMap fun p => 44 :: (p.blanks ++ p.text)

theorem renderCred_cons (p : Param) (ps : List Param) :
    renderCred (p :: ps) = ascii "Digest " ++ (p.blanks ++ (p.text ++ behindFirst ps)) := by
  have hjoin : ∀ (p : Param) ps, [44].intercalate ((p :: ps).map fun p => p.blanks ++ p.text)
      = p.blanks ++ (p.text ++ behindFirst ps) := by
    intro p ps
    induction ps generalizing p with
    | nil => simp [List.intercalate, behindFirst]
    | cons q ps ih =>
        have hq := ih q
        simp only [List.intercalate, List.map_cons, List.intersperse_cons_cons, List.flatten_cons] at hq ⊢
        rw [hq]
        simp [behindFirst]
  rw [renderCred, hjoin]

theorem Param.text_head (p : Param) (rest : List UInt8) :
    ∀ c ∈ (p.text ++ rest).head?, isWhite c = false := by
  have hlen : ∀ e ∈ parNames, e.2 ≠ [] := by decide
  have hnm : p.nm ≠ [] := fun h => hlen _ p.nm_known (by simp [h])
  intro c hc
  obtain ⟨b, nm, hb⟩ := List.exists_cons_of_ne_nil hnm
  obtain rfl : b = c := by simpa [Param.text, hb] using hc
  exact name_not_white p.nm_known rfl b (by simp [hb])

/-- **The loop reads every parameter** into its field. -/
theorem paramLoop_text (p : Param) (ps : List Param) {fuel : Nat} (hf : ps.length < fuel)
    (c : DigCred) :
    paramLoop fuel (p.text ++ behindFirst ps) c = .ok (0, c.store (p :: ps)) := by
  induction ps generalizing p fuel c with
  | nil =>
      obtain ⟨fuel, rfl⟩ := Nat.exists_eq_succ_of_ne_zero (Nat.ne_of_gt hf)
      rw [paramLoop, parseDigestParam_text]
      rfl
  | cons q ps ih =>
      obtain ⟨fuel, rfl⟩ := Nat.exists_eq_succ_of_ne_zero (Nat.ne_of_gt (Nat.zero_lt_of_lt hf))
      have hmore : behindFirst (q :: ps) = 44 :: (q.blanks ++ (q.text ++ behindFirst ps)) := by
        simp [behindFirst]
      have hcomma := @qMemchr_cut [] (q.blanks ++ (q.text ++ behindFirst ps)) 44 (by simp)
      rw [paramLoop, parseDigestParam_text, hmore, Res.ok_bind]
      simp only [List.nil_append] at hcomma
      simp only [Int.lt_irrefl, if_false, hcomma, List.tail_cons,
        trimLeading_blanks q.blanks_white (q.text_head _)]
      exact ih q (by simpa using hf) _

theorem length_le_behindFirst (ps : List Param) : ps.length ≤ (behindFirst ps).length := by
  induction ps with
  | nil => exact Nat.le_refl _
  | cons q ps ih =>
      have hmore : behindFirst (q :: ps) = 44 :: (q.blanks ++ (q.text ++ behindFirst ps)) := by
        simp [behindFirst]
      rw [hmore]
      simp only [List.length_cons, List.length_append]
      omega

/-- What is worked out of the fields at the end. -/
def DigCred.finish (c : DigCred) : DigCred :=
  { c with
    qop := if c.qop.qopStr.isSome then parseQop c.qop else c.qop
    alg := if c.alg.algStr.isSome then parseAlgorithm c.alg else c.alg
    username := if c.username.whole.isSome then parseUsername c.username else c.username }

theorem parseDigestParams_ok {s : List UInt8} {c c₁ : DigCred}
    (h : paramLoop (s.length + 1) s c = .ok (0, c₁)) :
    parseDigestParams s c = .ok (0, c₁.finish) := by
  rw [parseDigestParams, h, Res.ok_bind]
  by_cases hq : c₁.qop.qopStr.isSome <;> by_cases ha : c₁.alg.algStr.isSome <;>
    by_cases hu : c₁.username.whole.isSome <;> simp [DigCred.finish, hq, ha, hu]

/-! ## The classified values -/

theorem sameName_literal {s t : List UInt8} (ht : 0 ∉ t.map tolower) :
    sameName s t ↔ s.map tolower = t.map tolower := by
  by_cases hlen : s.length = t.length
  · have htake : s.take t.length = s := by rw [← hlen, List.take_length]
    simp [sameName, hlen, strncasecmp_literal ht, htake]
  · have hne : s.map tolower ≠ t.map tolower := fun h => hlen (by simpa using congrArg List.length h)
    simp [sameName, hlen, hne]

theorem parseQop_value (v : List UInt8) (q : QopType) :
    (parseQop ⟨some v, q⟩).qopParsed = qopOf v := by
  simp only [parseQop, Option.getD_some, sameName_literal (show 0 ∉ qopAuthStr.map tolower by decide),
    sameName_literal (show 0 ∉ qopAuthintStr.map tolower by decide)]
  rfl

theorem parseAlgorithm_value (v : List UInt8) (a : Alg) :
    (parseAlgorithm ⟨some v, a⟩).algParsed = algOf v := by
  simp only [parseAlgorithm, Option.getD_some,
    sameName_literal (show 0 ∉ algMd5Str.map tolower by decide),
    sameName_literal (show 0 ∉ algMd5sessStr.map tolower by decide)]
  rfl

theorem parseUsername_value (v : List UInt8) (user domain : Option (List UInt8)) :
    parseUsername ⟨some v, user, domain⟩
      = ⟨some v, some (userPart v), (domainPart v).or domain⟩ := by
  unfold parseUsername userPart domainPart
  by_cases hlen : v.length ≤ 2
  · simp [hlen, Nat.not_lt.mpr hlen]
  · have hlong : 2 < v.length := Nat.lt_of_not_le hlen
    obtain ⟨a, b, rfl, ha, hb⟩ := exists_chunk (· = (64 : UInt8)) v
    have ha64 : 64 ∉ a := fun h => ha 64 h rfl
    rcases hb with rfl | ⟨c, r, rfl, rfl⟩
    · rw [List.append_nil] at hlen hlong ⊢
      have htake : a.takeWhile (· ≠ 64) = a :=
        List.takeWhile_eq_self_iff.mpr fun c hc => by simpa using fun h : c = 64 => ha64 (h ▸ hc)
      simp only [Option.getD_some, hlen, if_false, qMemchr_none ha64, hlong, if_true, htake, ha64]
      rfl
    · have htake : (a ++ 64 :: r).takeWhile (· ≠ 64) = a := by
        rw [List.takeWhile_append_of_pos fun c hc => by simpa using fun h : c = 64 => ha64 (h ▸ hc)]
        simp
      have hdrop : (a ++ 64 :: r).dropWhile (· ≠ 64) = 64 :: r := by
        rw [List.dropWhile_append_of_pos fun c hc => by simpa using fun h : c = 64 => ha64 (h ▸ hc)]
        simp
      simp only [Option.getD_some, hlen, if_false, qMemchr_cut ha64, hlong, if_true, htake, hdrop]
      simp

/-- The names are distinct if and only if what they stand for is. -/
theorem types_nodup {ps : List Param} (h : (ps.map fun p => p.nm.map tolower).Nodup) :
    (ps.map Param.type).Nodup := by
  have hone : ∀ e ∈ parNames, ∀ f ∈ parNames, e.1 = f.1 → e.2 = f.2 := by decide
  rw [List.Nodup, List.pairwise_map] at h ⊢
  exact h.imp fun hpq heq => hpq (hone _ (Param.nm_known _) _ (Param.nm_known _) heq)

/-- Nothing that is worked out changes a field. -/
theorem finish_field (c : DigCred) (t : DigPar) : c.finish.field t = c.field t := by
  have hu : (parseUsername c.username).whole = c.username.whole := by
    unfold parseUsername
    dsimp only
    split
    · rfl
    · split <;> rfl
  cases t
  case parUsername =>
    show (if c.username.whole.isSome then parseUsername c.username else c.username).whole = _
    split
    · exact hu
    · rfl
  case parQop =>
    show (if c.qop.qopStr.isSome then parseQop c.qop else c.qop).qopStr = _
    split <;> rfl
  case parAlgorithm =>
    show (if c.alg.algStr.isSome then parseAlgorithm c.alg else c.alg).algStr = _
    split <;> rfl
  all_goals rfl

/-- **What is in the fields at the end**, and what is worked out of it. -/
theorem store_filled {ps : List Param} (hps : (ps.map Param.type).Nodup) {c : DigCred}
    (hc : c.Unparsed) : c.Filled ps (c.store ps).finish := by
  obtain ⟨huser, hdomain, hqop, halg, hbeyond⟩ := store_derived ps c
  have hstored : ∀ p ∈ ps, ∀ t, p.type = t → (c.store ps).field t = some p.value := by
    rintro p hp t rfl
    exact store_given hps c p hp
  refine ⟨?_, ?_, ?_, ?_, ?_, ?_, ?_, ?_, hbeyond⟩
  · intro p hp
    rw [finish_field, store_given hps c p hp]
  · intro t ht
    rw [finish_field, store_others ht]
  · intro p hp ht
    have hwhole : (c.store ps).username.whole = some p.value := hstored p hp _ ht
    have hu : (c.store ps).username = ⟨some p.value, c.username.user, c.username.domain⟩ :=
      Username.ext hwhole huser hdomain
    have hfinish : (c.store ps).finish.username
        = ⟨some p.value, some (userPart p.value), (domainPart p.value).or c.username.domain⟩ := by
      simp only [DigCred.finish, hu, Option.isSome_some, if_true, parseUsername_value]
    rw [hfinish]
    exact ⟨rfl, rfl⟩
  · intro ht
    have hu : (c.store ps).username = c.username :=
      Username.ext (store_others ht c) huser hdomain
    simp [DigCred.finish, hu, hc.username]
  · intro p hp ht
    have hstr : (c.store ps).qop.qopStr = some p.value := hstored p hp _ ht
    have hq : (c.store ps).qop = ⟨some p.value, c.qop.qopParsed⟩ := Qp.ext hstr hqop
    simp only [DigCred.finish, hq, Option.isSome_some, if_true, parseQop_value]
  · intro ht
    have hq : (c.store ps).qop = c.qop := Qp.ext (store_others ht c) hqop
    simp [DigCred.finish, hq, hc.qop]
  · intro p hp ht
    have hstr : (c.store ps).alg.algStr = some p.value := hstored p hp _ ht
    have ha : (c.store ps).alg = ⟨some p.value, c.alg.algParsed⟩ := Algorithm.ext hstr halg
    simp only [DigCred.finish, ha, Option.isSome_some, if_true, parseAlgorithm_value]
  · intro ht
    have ha : (c.store ps).alg = c.alg := Algorithm.ext (store_others ht c) halg
    simp [DigCred.finish, ha, hc.alg]

/--
**Credentials that are written out are read back**: each value is in the field of its name,
the user name is taken apart, two of the values are classified, and nothing else changes.
-/
theorem parseDigestCred_renderCred (ps : List Param) (hne : ps ≠ [])
    (hdistinct : (ps.map fun p => p.nm.map tolower).Nodup) (c : DigCred) (hc : c.Unparsed) :
    ∃ c', parseDigestCred (renderCred ps) c = .ok (1, c') ∧ c.Filled ps c' := by
  obtain ⟨p, ps, rfl⟩ := List.exists_cons_of_ne_nil hne
  have hfuel : ps.length < (p.text ++ behindFirst ps).length + 1 := by
    have hlen := length_le_behindFirst ps
    rw [List.length_append]
    omega
  have hparams := parseDigestParams_ok (paramLoop_text p ps hfuel c)
  refine ⟨_, ?_, store_filled (types_nodup hdistinct) hc⟩
  have hblank : trimLeading (p.blanks ++ (p.text ++ behindFirst ps)) = p.text ++ behindFirst ps :=
    trimLeading_blanks p.blanks_white (p.text_head _)
  rw [renderCred_cons]
  generalize p.blanks ++ (p.text ++ behindFirst ps) = body at hblank
  have htrim : trimLeading (ascii "Digest " ++ body) = ascii "Digest " ++ body := rfl
  have hscheme : strncasecmp (ascii "Digest " ++ body) digestScheme 6 = 0 :=
    (@strncasecmp_literal _ digestScheme (by decide)).mpr rfl
  have hlen : ¬ (ascii "Digest " ++ body).length < 6 + 1 := by
    have : (ascii "Digest ").length = 7 := rfl
    rw [List.length_append]
    omega
  have hbyte : byteAt (ascii "Digest " ++ body) 6 = .ok 32 := rfl
  have hdrop : (ascii "Digest " ++ body).drop (6 + 1) = body := rfl
  unfold parseDigestCred
  simp only [htrim, hlen, if_false, hscheme, if_true, hbyte, Res.ok_bind, hdrop, hblank, hparams]
  rfl

/-- A user name with a domain, a value with a comma in it, and the two that are classified. -/
def sampleParams : List Param :=
  [⟨.parUsername, ascii "UserName", ascii "bob@home", [], by decide +kernel, by decide +kernel,
      by decide +kernel⟩,
    ⟨.parNc, ascii "nc", ascii "1,uri", [32, 9], by decide +kernel, by decide +kernel,
      by decide +kernel⟩,
    ⟨.parQop, ascii "QOP", ascii "Auth-Int", [], by decide +kernel, by decide +kernel,
      by decide +kernel⟩,
    ⟨.parAlgorithm, ascii "algorithm", ascii " md5 ", [32], by decide +kernel, by decide +kernel,
      by decide +kernel⟩]

theorem parseDigestCred_sample :
    renderCred sampleParams
        = ascii "Digest UserName=\"bob@home\", \tnc=\"1,uri\",QOP=\"Auth-Int\", algorithm=\" md5 \"" ∧
      ∃ c', parseDigestCred (renderCred sampleParams) initDigCred = .ok (1, c')
        ∧ initDigCred.Filled sampleParams c' ∧ c'.username.user = some (ascii "bob")
        ∧ c'.qop.qopParsed = .qopAuthint ∧ c'.alg.algParsed = .algMd5 := by
  obtain ⟨c', hparse, hf⟩ := parseDigestCred_renderCred sampleParams (by decide) (by decide)
    initDigCred ⟨rfl, rfl, rfl⟩
  refine ⟨by decide, c', hparse, hf, (hf.user _ List.mem_cons_self rfl).1, ?_, ?_⟩
  · exact hf.qop _ (List.mem_cons_of_mem _ (List.mem_cons_of_mem _ List.mem_cons_self)) rfl
  · exact hf.alg _ (List.getLast_mem (by decide)) rfl

end Disc.Digest
