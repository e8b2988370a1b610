import Disc.Digest.Md5
import Disc.Digest.Nonce

/-!
# Responses

`rfc2617.c`. What a client answers to a challenge is a hash of hashes: of its name, the realm
and the password, and of the method and the URI, with the nonce between them and, if there is a
quality of protection, the count, the client's nonce and the quality as well.

The code feeds all this in pieces; `response` says what it is a hash of.
-/

namespace Disc.Digest

open Disc.Lib Disc.Server

/-! ## The code -/

/-- `cvt_hex`. -/
def cvtHex (b : List UInt8) : List UInt8 := b.flatMap hexOfByte ++ [0]

/-- `HASHHEXLEN`. -/
def hashHexLen : Nat := 32

/-- `ha_alg_t`. -/
inductive HaAlg where
  | haMd5
  | haMd5Sess
deriving Repr, DecidableEq

/-- `":"`. -/
def colon : List UInt8 := ascii ":"

/-- `calc_HA1`, with what is in the buffer of the context at first. -/
def calcHA1 (buffer : List UInt8) (alg : HaAlg) (username realm password nonce cnonce : List UInt8) :
    Res (List UInt8) := do
  let ha1 ← md5Pieces buffer [username, colon, realm, colon, password]
  let ha1 ←
    if alg = .haMd5Sess then
      md5Pieces (List.replicate 64 0) [ha1, colon, nonce, colon, cnonce]
    else .ok ha1
  return cvtHex ha1

/-- What `calc_response` feeds of `hentity`: 32 characters, if the body is protected. -/
def hashEntity (authInt : Bool) (hentity : List UInt8) : Res (List (List UInt8)) :=
  if authInt then
    Res.ofAccess (slice hentity 0 hashHexLen) >>= fun hent => .ok [colon, hent]
  else .ok []

/-- `calc_response`. Of `ha1` 32 characters are read. -/
def calcResponse (buffer ha1 nonce nc cnonce qop : List UInt8) (authInt : Bool)
    (method uri hentity : List UInt8) : Res (List UInt8) := do
  let hent ← hashEntity authInt hentity
  let ha2 ← md5Pieces buffer ([method, colon, uri] ++ hent)
  let ha1 ← Res.ofAccess (slice ha1 0 hashHexLen)
  let ha2Hex ← Res.ofAccess (slice (cvtHex ha2) 0 hashHexLen)
  let resp ← md5Pieces (List.replicate 64 0) ([ha1, colon, nonce, colon]
    ++ (if qop.length ≠ 0 then [nc, colon, cnonce, colon, qop, colon] else []) ++ [ha2Hex])
  return cvtHex resp

/-! ## What is hashed -/

/-- The hash of a text, in hexadecimal digits. -/
def md5Hex (s : List UInt8) : List UInt8 := (md5 s).toList.flatMap hexOfByte

/-- `H(A1)`: who somebody is, and the password. -/
def hashA1 (username realm password : List UInt8) : List UInt8 :=
  md5Hex (colon.intercalate [username, realm, password])

/-- `H(A1)` of a session. -/
def hashA1Sess (username realm password nonce cnonce : List UInt8) : List UInt8 :=
  md5Hex (colon.intercalate
    [(md5 (colon.intercalate [username, realm, password])).toList, nonce, cnonce])

/-- `H(A2)`: what is asked for, and the hash of the body if that is protected. -/
def hashA2 (method uri : List UInt8) (hent : Option (List UInt8)) : List UInt8 :=
  md5Hex (colon.intercalate ([method, uri] ++ hent.toList))

/-- The response to a nonce. -/
def response (ha1 nonce nc cnonce qop ha2 : List UInt8) : List UInt8 :=
  md5Hex (colon.intercalate ([ha1, nonce] ++ (if qop = [] then [] else [nc, cnonce, qop]) ++ [ha2]))

/-- A string the hash can take in one piece. -/
def Fits (s : List UInt8) : Prop := s.length + 64 ≤ 2 ^ 32

instance (s : List UInt8) : Decidable (Fits s) := inferInstanceAs (Decidable (_ ≤ _))

variable {buffer ha1 nonce nc cnonce qop method uri username realm password : List UInt8}

theorem length_md5Hex (s : List UInt8) : (md5Hex s).length = hashHexLen := by
  have hlen : (md5 s).toList.length = 16 := Vector.length_toList
  obtain ⟨bs, hbs⟩ : ∃ bs, bs = (md5 s).toList := ⟨_, rfl⟩
  rw [md5Hex, ← hbs]
  rw [← hbs] at hlen
  simp [List.length_flatMap, hexOfByte, hlen, hashHexLen]

/-- The digits come back out of a buffer they are at the front of. -/
theorem slice_hex {h rest : List UInt8} (hlen : h.length = hashHexLen) :
    Res.ofAccess (slice (h ++ rest) 0 hashHexLen) = .ok h := by
  have hslice := slice_append [] h rest
  rw [List.nil_append, hlen] at hslice
  exact congrArg Res.ofAccess hslice

theorem fits_md5 (s : List UInt8) : Fits (md5 s).toList := by
  have hlen : (md5 s).toList.length = 16 := Vector.length_toList
  unfold Fits
  rw [hlen]
  decide

/-- What has as many characters as a hash fits. -/
theorem fits_of_hex {s : List UInt8} (hs : s.length = hashHexLen) : Fits s := by
  unfold Fits
  rw [hs]
  decide

/-- Pieces that fit still do with a colon between them. -/
theorem fits_intersperse {ss : List (List UInt8)} (h : ∀ s ∈ ss, Fits s) :
    ∀ s ∈ ss.intersperse colon, Fits s := by
  induction ss with
  | nil => exact h
  | cons a ss ih =>
    obtain ⟨ha, hss⟩ := List.forall_mem_cons.mp h
    cases ss with
    | nil => exact h
    | cons b ss =>
      rw [List.intersperse_cons_cons]
      exact List.forall_mem_cons.mpr ⟨ha, List.forall_mem_cons.mpr ⟨by decide, ih hss⟩⟩

/-- Strings fed with a colon between them are hashed as one text. -/
theorem md5Pieces_colons (hbuf : buffer.length = 64) (ss pieces : List (List UInt8))
    (h : ∀ s ∈ ss, Fits s) (hp : pieces = ss.intersperse colon) :
    md5Pieces buffer pieces = .ok (md5 (colon.intercalate ss)).toList := by
  rw [hp]
  exact md5Pieces_eq hbuf (fits_intersperse h)

/-- **`calc_HA1`** hashes the name, the realm and the password. -/
theorem calcHA1_eq (hbuf : buffer.length = 64) (alg : HaAlg) (hu : Fits username) (hr : Fits realm)
    (hp : Fits password) (hn : Fits nonce) (hc : Fits cnonce) :
    calcHA1 buffer alg username realm password nonce cnonce
      = .ok ((if alg = .haMd5Sess then hashA1Sess username realm password nonce cnonce
          else hashA1 username realm password) ++ [0]) := by
  have hfirst := md5Pieces_colons hbuf [username, realm, password]
    [username, colon, realm, colon, password]
    (by simpa only [List.forall_mem_cons] using ⟨hu, hr, hp, List.forall_mem_nil _⟩) rfl
  obtain ⟨a1, ha1⟩ : ∃ a1, a1 = md5 (colon.intercalate [username, realm, password]) := ⟨_, rfl⟩
  rw [← ha1] at hfirst
  rw [calcHA1, hfirst, Res.ok_bind, hashA1Sess, hashA1, md5Hex, md5Hex, ← ha1]
  by_cases halg : alg = .haMd5Sess
  · have hfa1 : Fits a1.toList := ha1 ▸ fits_md5 _
    have hsess := @md5Pieces_colons (List.replicate 64 0) (by decide)
      [a1.toList, nonce, cnonce] [a1.toList, colon, nonce, colon, cnonce]
      (by simpa only [List.forall_mem_cons] using ⟨hfa1, hn, hc, List.forall_mem_nil _⟩) rfl
    rw [if_pos halg, hsess, if_pos halg]
    rfl
  · rw [if_neg halg, if_neg halg]
    rfl

/-- What is read of the hash of the body. -/
theorem hashEntity_eq (authInt : Bool) (hent more : List UInt8) (hh : hent.length = hashHexLen) :
    hashEntity authInt (hent ++ more) = .ok (if authInt then [colon, hent] else []) := by
  cases authInt
  · rfl
  · rw [hashEntity, if_pos rfl, slice_hex hh, Res.ok_bind, if_pos rfl]

/-- **`calc_response`** hashes the hashes, with the nonce between them. -/
theorem calcResponse_eq (hbuf : buffer.length = 64) {ha1 : List UInt8} (rest : List UInt8)
    (h1 : ha1.length = hashHexLen) (hn : Fits nonce) (hnc : Fits nc) (hc : Fits cnonce)
    (hq : Fits qop) (hm : Fits method) (hu : Fits uri) (authInt : Bool) (hent more : List UInt8)
    (hh : hent.length = hashHexLen) :
    calcResponse buffer (ha1 ++ rest) nonce nc cnonce qop authInt method uri (hent ++ more)
      = .ok (response ha1 nonce nc cnonce qop
          (hashA2 method uri (if authInt then some hent else none)) ++ [0]) := by
  obtain ⟨body, hbody⟩ : ∃ body, body = if authInt then some hent else none := ⟨_, rfl⟩
  obtain ⟨extra, hextra⟩ : ∃ extra, extra = if authInt then [colon, hent] else [] := ⟨_, rfl⟩
  have hread : hashEntity authInt (hent ++ more) = .ok extra := hextra ▸ hashEntity_eq authInt hent more hh
  have hfitbody : ∀ s ∈ [method, uri] ++ body.toList, Fits s := by
    refine List.forall_mem_append.mpr ⟨?_, ?_⟩
    · simpa only [List.forall_mem_cons] using ⟨hm, hu, List.forall_mem_nil _⟩
    · rw [hbody]
      cases authInt
      · exact List.forall_mem_nil _
      · exact List.forall_mem_singleton.mpr (fits_of_hex hh)
  have ha2 := md5Pieces_colons hbuf _ ([method, colon, uri] ++ extra) hfitbody (by
    rw [hbody, hextra]
    cases authInt <;> rfl)
  have hhex : cvtHex (md5 (colon.intercalate ([method, uri] ++ body.toList))).toList
      = hashA2 method uri body ++ [0] := rfl
  have hlen2 : (hashA2 method uri body).length = hashHexLen := length_md5Hex _
  obtain ⟨a2, ha2eq⟩ : ∃ a2, a2 = hashA2 method uri body := ⟨_, rfl⟩
  rw [← ha2eq] at hhex hlen2
  have hfitresp : ∀ s ∈ [ha1, nonce] ++ (if qop = [] then [] else [nc, cnonce, qop]) ++ [a2],
      Fits s := by
    refine List.forall_mem_append.mpr ⟨List.forall_mem_append.mpr ⟨?_, ?_⟩, ?_⟩
    · simpa only [List.forall_mem_cons] using ⟨fits_of_hex h1, hn, List.forall_mem_nil _⟩
    · by_cases hq0 : qop = []
      · rw [if_pos hq0]
        exact List.forall_mem_nil _
      · rw [if_neg hq0]
        simpa only [List.forall_mem_cons] using ⟨hnc, hc, hq, List.forall_mem_nil _⟩
    · exact List.forall_mem_singleton.mpr (fits_of_hex hlen2)
  have hresp := @md5Pieces_colons (List.replicate 64 0) (by decide) _
    ([ha1, colon, nonce, colon]
      ++ (if qop.length ≠ 0 then [nc, colon, cnonce, colon, qop, colon] else []) ++ [a2]) hfitresp (by
        by_cases hq0 : qop = []
        · rw [if_pos hq0, if_neg (by simp [hq0])]
          rfl
        · rw [if_neg hq0, if_pos (by simpa using hq0)]
          rfl)
  rw [calcResponse, hread, Res.ok_bind, ha2, Res.ok_bind, slice_hex h1, Res.ok_bind, hhex,
    slice_hex hlen2, Res.ok_bind, hresp, Res.ok_bind, ← hbody, ← ha2eq]
  rfl

end Disc.Digest
