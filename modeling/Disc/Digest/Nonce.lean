import Disc.Lib.Digits
import Disc.Lib.Memory
import Disc.Lib.Text
import Disc.Server.Route

/-!
# Nonces

`nonce.c` of the server's digest module, with `integer2hex`, `hex2integer` and `string2hex` of
`ut.h`. A nonce is the time it expires, in eight hexadecimal digits, and the MD5 of these digits
and a secret, in thirty-two. To check one, its expiry is read and the nonce made again.

The reader of the digits takes capital letters as well and reads zero where a digit is bad. The
printer does neither, so what is read wrongly does not compare.
-/

namespace Disc.Digest

open Disc.Lib Disc.Server

/-! ## The code -/

/-- The two characters of a byte; `s[i] >> 4` is the shift of a signed `char`. -/
def hexOfByte (b : UInt8) : List UInt8 :=
  let digit (j : UInt8) : UInt8 := if j ≤ 9 then j + 48 else j + 97 - 10
  [digit ((b.toInt8 >>> 4) &&& 15).toUInt8, digit (b.toInt8 &&& 15).toUInt8]

/-- `integer2hex`, over the bytes in network order. -/
def integer2hex (s : Int32) : List UInt8 := (be 4 s.toUInt32.toNat).flatMap hexOfByte

/-- What a character adds in `hex2integer`; a negative one is in none of the ranges. -/
def hexDigitValue (c : UInt8) : Option UInt32 :=
  if 48 ≤ c ∧ c ≤ 57 then some (c - 48).toUInt32
  else if 97 ≤ c ∧ c ≤ 102 then some ((c - 97).toUInt32 + 10)
  else if 65 ≤ c ∧ c ≤ 70 then some ((c - 65).toUInt32 + 10)
  else none

/-- The loop of `hex2integer`, with the characters that are still to be read. -/
def hex2integerLoop (s : List UInt8) : Nat → Nat → UInt32 → Res Int32
  | 0, _, res => .ok res.toInt32
  | k + 1, i, res => do
      let c ← Res.ofAccess s[i]?
      match hexDigitValue c with
      | some d => hex2integerLoop s k (i + 1) (res * 16 + d)
      | none => return 0

/-- `hex2integer`. -/
def hex2integer (s : List UInt8) : Res Int32 := hex2integerLoop s 8 0 0

/-- `fourbits2char`. -/
def fourbits2char : List UInt8 := ascii "0123456789abcdef"

/-- `string2hex`. -/
def string2hex (str : List UInt8) : List UInt8 :=
  if str = [] then [48]
  else str.flatMap fun b : UInt8 =>
    [fourbits2char.getD (b >>> 4).toNat 0, fourbits2char.getD (b &&& 15).toNat 0]

/-- `NONCE_LEN`. -/
def nonceLen : Nat := 8 + 32

/-- `calc_nonce`, with the zero behind it. -/
def calcNonce (md5 : List UInt8 → Vector UInt8 16) (expires : Int32) (secret : List UInt8) :
    List UInt8 :=
  let hex := integer2hex expires
  hex ++ string2hex (md5 (hex ++ secret)).toList ++ [0]

/--
`get_nonce_expires`. A `time_t` of eight bytes; it is cut down to an `int` wherever it is used, so
that one of four bytes, of a machine with longs of four, would do the same.
-/
def getNonceExpires (n : List UInt8) : Res Int64 := do
  let e ← hex2integer n
  return e.toInt64

/-- `check_nonce`; a string without a pointer is refused. -/
def checkNonce (md5 : List UInt8 → Vector UInt8 16) (nonce : Option (List UInt8))
    (secret : List UInt8) : Res Int :=
  match nonce with
  | none => .ok (-1)
  | some n =>
      if nonceLen ≠ n.length then .ok (-1)
      else do
        let expires ← getNonceExpires n
        let non := calcNonce md5 expires.toInt32 secret
        return if non.take n.length = n then 0 else -1

/-! ## Writing and reading the expiry -/

/-- The character of a digit. -/
def hexLetter (d : Nat) : UInt8 := UInt8.ofNat (d + if d < 10 then 48 else 87)

theorem hexLetter_all : ∀ d < 16, hexDigitValue (hexLetter d) = some (UInt32.ofNat d)
    ∧ tolower (hexLetter d) = hexLetter d := by decide +kernel

theorem hexOfByte_eq (b : UInt8) :
    hexOfByte b = [hexLetter (b.toNat / 16), hexLetter (b.toNat % 16)] := by
  have hall : ∀ b : UInt8, hexOfByte b = [hexLetter (b.toNat / 16), hexLetter (b.toNat % 16)] :=
    forall_byte (by decide +kernel)
  exact hall b

/-- Eight digits, the first ones first. -/
theorem integer2hex_eq (e : Int32) :
    integer2hex e = (fixed 16 8 e.toUInt32.toNat).map hexLetter := by
  have hbyte : ∀ n, hexOfByte (UInt8.ofNat n)
      = [hexLetter (n / 16 % 16), hexLetter (n % 16)] := by
    intro n
    have hhigh : n % 2 ^ 8 / 16 = n / 16 % 16 := by omega
    have hlow : n % 2 ^ 8 % 16 = n % 16 := by omega
    rw [hexOfByte_eq, UInt8.toNat_ofNat', hhigh, hlow]
  simp only [integer2hex, be, List.nil_append, List.cons_append, List.flatMap_cons,
    List.flatMap_nil, List.append_nil, hbyte, fixed, List.map_cons, List.map_nil,
    Nat.div_div_eq_div_mul, Nat.reduceMul, Nat.reducePow, Nat.div_one]

theorem length_integer2hex (e : Int32) : (integer2hex e).length = 8 := by
  rw [integer2hex_eq, List.length_map, length_fixed]

/-- The loop reads digits that were written, and does not look at what follows. -/
theorem hex2integerLoop_digits {ds : List Nat} (hds : ∀ d ∈ ds, d < 16) (pre rest : List UInt8)
    (acc : Nat) :
    hex2integerLoop (pre ++ ds.map hexLetter ++ rest) ds.length pre.length (UInt32.ofNat acc)
      = .ok (UInt32.ofNat (ds.foldl (fun a d => a * 16 + d) acc)).toInt32 := by
  induction ds generalizing pre acc with
  | nil => rfl
  | cons d ds ih =>
      have hd := (hexLetter_all d (hds d List.mem_cons_self)).1
      have hget : (pre ++ (d :: ds).map hexLetter ++ rest)[pre.length]? = some (hexLetter d) := by
        simp
      have hacc : UInt32.ofNat acc * 16 + UInt32.ofNat d = UInt32.ofNat (acc * 16 + d) := by
        rw [UInt32.ofNat_add, UInt32.ofNat_mul]
        rfl
      have hrest := ih (fun e he => hds e (List.mem_cons_of_mem _ he)) (pre ++ [hexLetter d])
        (acc * 16 + d)
      simp only [List.length_append, List.length_singleton, List.append_assoc,
        List.singleton_append] at hrest
      rw [List.length_cons, hex2integerLoop, hget, Res.ofAccess_some, Res.ok_bind, hd]
      dsimp only
      rw [hacc, List.foldl_cons, ← hrest]
      simp

/-- **The expiry is read back**, whatever stands behind it. -/
theorem hex2integer_integer2hex (e : Int32) (rest : List UInt8) :
    hex2integer (integer2hex e ++ rest) = .ok e := by
  have h := hex2integerLoop_digits (fixed_lt (b := 16) (k := 8) (n := e.toUInt32.toNat) (by decide))
    [] rest 0
  rw [length_fixed, List.nil_append, ← integer2hex_eq] at h
  have hv : (fixed 16 8 e.toUInt32.toNat).foldl (fun a d => a * 16 + d) 0 = e.toUInt32.toNat := by
    have hlt := e.toUInt32.toNat_lt
    have hfix := value_fixed 16 8 e.toUInt32.toNat
    rw [Nat.mod_eq_of_lt (by omega)] at hfix
    exact hfix
  rw [hv, UInt32.ofNat_toNat] at h
  exact h

/-! ## Nonces -/

section

variable (md5 : List UInt8 → Vector UInt8 16) (secret : List UInt8)

/-- The nonce as a string. -/
def nonceText (e : Int32) : List UInt8 := (calcNonce md5 e secret).take nonceLen

/-- Two digits for each byte. -/
theorem string2hex_eq {bin : List UInt8} (h : bin ≠ []) :
    string2hex bin = (bin.flatMap fun b => [b.toNat / 16, b.toNat % 16]).map hexLetter := by
  have hbyte : ∀ b : UInt8,
      [fourbits2char.getD (b >>> 4).toNat 0, fourbits2char.getD (b &&& 15).toNat 0]
        = [b.toNat / 16, b.toNat % 16].map hexLetter := forall_byte (by decide +kernel)
  rw [string2hex, if_neg h, List.map_flatMap]
  exact List.flatMap_congr fun b _ => hbyte b

/-- A nonce is the digits of its expiry and those of the hash. -/
theorem nonceText_eq (e : Int32) :
    ∃ ds : List Nat, (∀ d ∈ ds, d < 16) ∧ ds.length = 32
      ∧ nonceText md5 secret e = integer2hex e ++ ds.map hexLetter := by
  have hbin : (md5 (integer2hex e ++ secret)).toList.length = 16 := Vector.length_toList
  have hne : (md5 (integer2hex e ++ secret)).toList ≠ [] := by
    intro h
    rw [h] at hbin
    exact absurd hbin (by decide)
  obtain ⟨bin, hdef⟩ : ∃ bin, bin = (md5 (integer2hex e ++ secret)).toList := ⟨_, rfl⟩
  have hlen : (bin.flatMap fun b : UInt8 => [b.toNat / 16, b.toNat % 16]).length = 32 := by
    rw [← hdef] at hbin
    simp [List.length_flatMap, hbin]
  refine ⟨bin.flatMap fun b => [b.toNat / 16, b.toNat % 16], fun d hd => ?_, hlen, ?_⟩
  · obtain ⟨b, -, hd⟩ := List.mem_flatMap.mp hd
    have hb := b.toNat_lt
    simp only [List.mem_cons, List.not_mem_nil, or_false] at hd
    omega
  · have htake : (integer2hex e ++ string2hex bin).length = nonceLen := by
      rw [List.length_append, length_integer2hex, hdef, string2hex_eq hne, ← hdef, List.length_map,
        hlen]
      rfl
    rw [nonceText, calcNonce, ← hdef, ← htake, List.take_left, hdef, string2hex_eq hne]

theorem length_nonceText (e : Int32) : (nonceText md5 secret e).length = nonceLen := by
  obtain ⟨ds, -, hlen, heq⟩ := nonceText_eq md5 secret e
  rw [heq, List.length_append, length_integer2hex, List.length_map, hlen]
  rfl

theorem getNonceExpires_nonceText (e : Int32) :
    getNonceExpires (nonceText md5 secret e) = .ok e.toInt64 := by
  obtain ⟨ds, -, -, heq⟩ := nonceText_eq md5 secret e
  rw [heq, getNonceExpires, hex2integer_integer2hex]
  rfl

/-- There is no capital letter in it. -/
theorem nonceText_lower (e : Int32) :
    (nonceText md5 secret e).map tolower = nonceText md5 secret e := by
  obtain ⟨ds, hds, -, heq⟩ := nonceText_eq md5 secret e
  have hlower : ∀ ds : List Nat, (∀ d ∈ ds, d < 16) →
      (ds.map hexLetter).map tolower = ds.map hexLetter := by
    intro ds hds
    rw [List.map_map]
    exact List.map_congr_left fun d hd => (hexLetter_all d (hds d hd)).2
  rw [heq, integer2hex_eq, List.map_append, hlower ds hds, hlower _ (fixed_lt (by decide))]

/-- Eight characters are read, and there are as many. -/
theorem hex2integerLoop_ok {s : List UInt8} {k i : Nat} (h : i + k ≤ s.length) (res : UInt32) :
    ∃ e, hex2integerLoop s k i res = .ok e := by
  induction k generalizing i res with
  | zero => exact ⟨_, rfl⟩
  | succ k ih =>
      have hget : s[i]? = some s[i] := List.getElem?_eq_getElem (by omega)
      rw [hex2integerLoop, hget, Res.ofAccess_some, Res.ok_bind]
      cases hexDigitValue s[i] with
      | some d => exact ih (by omega) _
      | none => exact ⟨0, rfl⟩

/-- **What a check compares**: the string with the nonce its own expiry gives. -/
theorem checkNonce_eq (n : Option (List UInt8)) :
    checkNonce md5 n secret = .ok (-1)
      ∨ ∃ e, n = some (nonceText md5 secret e) ∧ checkNonce md5 n secret = .ok 0 := by
  cases n with
  | none => exact .inl rfl
  | some n =>
      -- any forty characters have an expiry, if only zero
      by_cases hlen : nonceLen = n.length
      · obtain ⟨e, he⟩ := @hex2integerLoop_ok n 8 0 (hlen ▸ by decide) 0
        have hexp : getNonceExpires n = .ok e.toInt64 := by
          rw [getNonceExpires, hex2integer, he]
          rfl
        have hcheck : checkNonce md5 (some n) secret
            = .ok (if nonceText md5 secret e = n then 0 else -1) := by
          simp only [checkNonce, ← hlen, ne_eq, not_true_eq_false, if_false, hexp, Res.ok_bind,
            Int32.toInt32_toInt64]
          rfl
        by_cases heq : nonceText md5 secret e = n
        · exact .inr ⟨e, by rw [heq], by rw [hcheck, if_pos heq]⟩
        · exact .inl (by rw [hcheck, if_neg heq])
      · exact .inl (if_pos hlen)

/-- **What is accepted** is a nonce. -/
theorem exists_of_accepted {n : Option (List UInt8)} (h : checkNonce md5 n secret = .ok 0) :
    ∃ e, n = some (nonceText md5 secret e) := by
  rcases checkNonce_eq md5 secret n with hno | ⟨e, he, -⟩
  · exact absurd (Res.ok.inj (h.symm.trans hno)) (by decide)
  · exact ⟨e, he⟩

theorem getNonceExpires_calcNonce (e : Int32) :
    getNonceExpires (calcNonce md5 e secret) = .ok e.toInt64 := by
  rw [getNonceExpires, calcNonce, List.append_assoc, hex2integer_integer2hex]
  rfl

/-- Two nonces with the same text expire at the same time. -/
theorem nonceText_injective {e e' : Int32} (h : nonceText md5 secret e = nonceText md5 secret e') :
    e = e' := by
  have hexp := getNonceExpires_nonceText md5 secret e
  rw [h, getNonceExpires_nonceText] at hexp
  have h64 := congrArg Int64.toInt32 (Res.ok.inj hexp)
  rw [Int32.toInt32_toInt64, Int32.toInt32_toInt64] at h64
  exact h64.symm

/-- **A nonce is accepted.** -/
theorem checkNonce_nonceText (e : Int32) :
    checkNonce md5 (some (nonceText md5 secret e)) secret = .ok 0 := by
  have hlen := length_nonceText md5 secret e
  have hexp := getNonceExpires_nonceText md5 secret e
  simp only [checkNonce, hlen, ne_eq, not_true_eq_false, if_false, hexp, Res.ok_bind,
    Int32.toInt32_toInt64]
  exact congrArg Res.ok (if_pos rfl)

end

/--
**A nonce is accepted exactly when it was made**, with whatever secret and hash; its expiry is
then the one it was made with, and neither another spelling of its letters nor a longer or
shorter string is accepted with it.
-/
theorem checkNonce_iff (md5 : List UInt8 → Vector UInt8 16) (secret : List UInt8) :
    (∀ n : Option (List UInt8), checkNonce md5 n secret = .ok 0
        ↔ ∃! e, n = some (nonceText md5 secret e))
      ∧ (∀ n, checkNonce md5 n secret = .ok 0 ∨ checkNonce md5 n secret = .ok (-1))
      ∧ (∀ e : Int32, getNonceExpires (nonceText md5 secret e) = .ok e.toInt64
        ∧ getNonceExpires (calcNonce md5 e secret) = .ok e.toInt64)
      ∧ ∀ n n' : List UInt8, checkNonce md5 (some n) secret = .ok 0 →
        checkNonce md5 (some n') secret = .ok 0 →
        n.map tolower = n'.map tolower ∨ n.Sublist n' → n = n' := by
  refine ⟨fun n => ⟨fun h => ?_, ?_⟩, fun n => ?_, fun e => ?_, fun n n' h h' hspell => ?_⟩
  · obtain ⟨e, rfl⟩ := exists_of_accepted md5 secret h
    exact ⟨e, rfl, fun e' he' => (nonceText_injective md5 secret (Option.some.inj he')).symm⟩
  · rintro ⟨e, rfl, -⟩
    exact checkNonce_nonceText md5 secret e
  · rcases checkNonce_eq md5 secret n with hno | ⟨e, -, hyes⟩
    · exact .inr hno
    · exact .inl hyes
  · exact ⟨getNonceExpires_nonceText md5 secret e, getNonceExpires_calcNonce md5 secret e⟩
  · obtain ⟨e, he⟩ := exists_of_accepted md5 secret h
    obtain ⟨e', he'⟩ := exists_of_accepted md5 secret h'
    obtain rfl := Option.some.inj he
    obtain rfl := Option.some.inj he'
    rcases hspell with hcase | hsub
    · rwa [nonceText_lower, nonceText_lower] at hcase
    · exact hsub.eq_of_length (by rw [length_nonceText, length_nonceText])

/-- A hash that does not look at what it is given. -/
def sampleMd5 (_ : List UInt8) : Vector UInt8 16 := Vector.replicate 16 0xab

/-- The nonce that expired one second before the epoch, and what it is not to be confused with. -/
theorem checkNonce_sample :
    nonceText sampleMd5 (ascii "secret") (-1) = ascii "ffffffffabababababababababababababababab" ∧
    checkNonce sampleMd5 (some (ascii "ffffffffabababababababababababababababab")) (ascii "secret")
      = .ok 0 ∧
    checkNonce sampleMd5 (some (ascii "FFFFFFFFabababababababababababababababab")) (ascii "secret")
      = .ok (-1) := by
  have htext : nonceText sampleMd5 (ascii "secret") (-1)
      = ascii "ffffffffabababababababababababababababab" := by decide +kernel
  obtain ⟨hiff, honly, -, hspell⟩ := checkNonce_iff sampleMd5 (ascii "secret")
  have hacc : checkNonce sampleMd5 (some (nonceText sampleMd5 (ascii "secret") (-1)))
      (ascii "secret") = .ok 0 := checkNonce_nonceText _ _ _
  rw [htext] at hacc
  refine ⟨htext, hacc, (honly _).resolve_left fun h => ?_⟩
  exact absurd (hspell _ _ hacc h (.inl (by decide +kernel))) (by decide +kernel)

end Disc.Digest
