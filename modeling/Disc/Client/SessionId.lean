import Disc.Lib.Digits
import Disc.Transport.HashTable

/-!
# Session-Ids

A Session-Id is the identity of the node, a 64-bit counter in two decimal halves, a
random number, and the hash code and label of the session, the last three in
hexadecimal. `generate_sessionID` and `AAAStartSession` write it into a buffer of a size
computed beforehand, and `parse_sessionID` reads the hash code and the label back from
its end.

The printers write a digit before they decide whether to keep it, so one byte beyond
the text may be touched. A write outside the buffer is a fault.
-/

namespace Disc.Client

open Disc.Lib Disc.Transport

/-! ## Printers -/

/-- Bytes are written at an offset; they must lie inside the buffer. -/
def put (m : List UInt8) (p : Nat) (bs : List UInt8) : Res (List UInt8) := Res.ofAccess (poke m p bs)

/-- The loop of the printers: a digit is written, and kept unless it is a leading zero. -/
def printLoop (digit : Nat → Nat → UInt8) (rest : Nat → Nat → Nat) (p maxLen : Nat) :
    Nat → Nat → Nat → List UInt8 → Res (Nat × List UInt8)
  | 0, _, len, m => .ok (len, m)
  | k + 1, l, len, m =>
      if len < maxLen then do
        let c := digit k l
        let m ← put m (p + len) [c]
        printLoop digit rest p maxLen k (rest k l) (if c ≠ 48 ∨ len ≠ 0 then len + 1 else len) m
      else .ok (len, m)

/-- The digit `int2str` writes when `n` is `10 ^ k`. -/
def decDigit (k l : Nat) : UInt8 := UInt8.ofNat (l / 10 ^ k + 48)

/-- The digit `int2hexstr` writes when `n` is `4 * k`. -/
def hexDigit (k l : Nat) : UInt8 :=
  let c := (l >>> (4 * k)) &&& 15
  UInt8.ofNat (c + if c < 10 then 48 else 55)

/-- `int2str`: how many characters were written at `p`, and the buffer. -/
def int2str (l : UInt32) (m : List UInt8) (p maxLen : Nat) : Res (Nat × List UInt8) := do
  let (len, m) ← printLoop decDigit (fun k l => l % 10 ^ k) p maxLen 10 l.toNat 0 m
  return (if len ≠ 0 then len else 1, m)

/-- `int2hexstr`. -/
def int2hexstr (l : UInt32) (m : List UInt8) (p maxLen : Nat) : Res (Nat × List UInt8) := do
  let (len, m) ← printLoop hexDigit (fun _ l => l) p maxLen 8 l.toNat 0 m
  return (if len ≠ 0 then len else 1, m)

/-! ## The Session-Id -/

/-- `inc_64biti`, on the low and the high word. -/
def inc64biti (lo hi : UInt32) : UInt32 × UInt32 := (lo + 1, hi + if lo + 1 = 0 then 1 else 0)

/-- The bytes that are allocated for a Session-Id, with the pad for hash code and label. -/
def sessionIDSize (aaaIdentity : List UInt8) : Nat :=
  aaaIdentity.length + 1 + 10 + 1 + 10 + 1 + 8 + 2 * 9

/-- `generate_sessionID` once there is memory: the length so far, and the buffer. -/
def generateSessionID (aaaIdentity : List UInt8) (lo hi rand : UInt32) (m : List UInt8) :
    Res (Nat × List UInt8) := do
  let m ← put m 0 aaaIdentity
  let p := aaaIdentity.length
  let m ← put m p [59]
  let p := p + 1
  let (n, m) ← int2str hi m p 10
  let p := p + n
  let m ← put m p [59]
  let p := p + 1
  let (n, m) ← int2str lo m p 10
  let p := p + n
  let m ← put m p [59]
  let p := p + 1
  let (n, m) ← int2hexstr rand m p 8
  return (p + n, m)

/-- The end of `AAAStartSession`: hash code and label are appended. -/
def appendHash (hashCode label : UInt32) (p : Nat) (m : List UInt8) : Res (Nat × List UInt8) := do
  let m ← put m p [46]
  let p := p + 1
  let (n, m) ← int2hexstr hashCode m p 8
  let p := p + n
  let m ← put m p [46]
  let p := p + 1
  let (n, m) ← int2hexstr label m p 8
  return (p + n, m)

/-- `hexchar2int`. -/
def hexchar2int (c : UInt8) : Option UInt32 :=
  if 48 ≤ c ∧ c ≤ 57 then some (c - 48).toUInt32
  else if 65 ≤ c ∧ c ≤ 70 then some (10 + c - 65).toUInt32
  else if 97 ≤ c ∧ c ≤ 102 then some (10 + c - 97).toUInt32
  else none

/-- One of the loops of `parse_sessionID`, over the characters from the end backwards. -/
def hexLoop : List UInt8 → UInt32 → UInt32 → Option (UInt32 × List UInt8)
  | [], u, _ => some (u, [])
  | c :: cs, u, rang =>
      if c = 46 then some (u, c :: cs)
      else match hexchar2int c with
        | none => none
        | some d => hexLoop cs (u + (d <<< rang)) (rang + 4)

/-- A dot that is not the first character of all. -/
def skipDot : List UInt8 → Option (List UInt8)
  | c :: c' :: cs => if c = 46 then some (c' :: cs) else none
  | _ => none

/-- `parse_sessionID`: the hash code and the label. -/
def parseSessionID (sID : List UInt8) : Option (UInt32 × UInt32) := do
  let (label, rest) ← hexLoop sID.reverse 0 0
  let rest ← skipDot rest
  let (hashCode, rest) ← hexLoop rest 0 0
  let _ ← skipDot rest
  return (hashCode, label)

/-! ## What is written -/

/-- The decimal text of a number. -/
def decText (l : UInt32) : List UInt8 := (numeral 10 10 l.toNat).map fun d => UInt8.ofNat (d + 48)

/-- A hexadecimal digit. -/
def hexChar (d : Nat) : UInt8 := UInt8.ofNat (d + if d < 10 then 48 else 55)

/-- The hexadecimal text of a number. -/
def hexText (l : UInt32) : List UInt8 := (numeral 16 8 l.toNat).map hexChar

/-- What `generate_sessionID` is to write. -/
def sessionIDHead (aaaIdentity : List UInt8) (lo hi rand : UInt32) : List UInt8 :=
  aaaIdentity ++ [59] ++ decText hi ++ [59] ++ decText lo ++ [59] ++ hexText rand

/-- What is appended to it. -/
def sessionIDTail (hashCode label : UInt32) : List UInt8 :=
  [46] ++ hexText hashCode ++ [46] ++ hexText label

theorem put_prefix {m pre : List UInt8} (h : pre <+: m) (bs : List UInt8)
    (hle : pre.length + bs.length ≤ m.length) :
    ∃ m', put m pre.length bs = .ok m' ∧ m'.length = m.length ∧ pre ++ bs <+: m' := by
  obtain ⟨m', hp, hl, ht⟩ := poke_take (List.prefix_iff_eq_take.mp h).symm bs hle
  refine ⟨m', ?_, hl, List.prefix_iff_eq_take.mpr ht.symm⟩
  rw [put, hp]
  rfl

section

variable {digit : Nat → Nat → UInt8} {rest : Nat → Nat → Nat} {p maxLen : Nat}

/-- All digits the loop comes to. -/
def printed (digit : Nat → Nat → UInt8) (rest : Nat → Nat → Nat) : Nat → Nat → List UInt8
  | 0, _ => []
  | k + 1, l => digit k l :: printed digit rest k (rest k l)

/-- Without leading zeros, but not without any digit. -/
def trimmed (cs : List UInt8) : List UInt8 :=
  match cs.dropWhile (· == 48) with
  | [] => [48]
  | c :: cs => c :: cs

/-- Once a digit was kept, all are kept. -/
theorem printLoop_kept {k l len : Nat} {m pre : List UInt8} (hlen : len ≠ 0)
    (hpre : pre.length = p + len) (hm : pre <+: m) (hk : len + k ≤ maxLen)
    (hfit : p + maxLen ≤ m.length) :
    ∃ m', printLoop digit rest p maxLen k l len m = .ok (len + k, m') ∧ m'.length = m.length
      ∧ pre ++ printed digit rest k l <+: m' := by
  induction k generalizing l len m pre with
  | zero => exact ⟨m, rfl, rfl, by simpa [printed] using hm⟩
  | succ k ih =>
      obtain ⟨m₁, hput, hl₁, hm₁⟩ := put_prefix hm [digit k l] (by simp; omega)
      obtain ⟨m', hloop, hl', hm'⟩ := @ih (rest k l) (len + 1) m₁ (pre ++ [digit k l]) (by omega)
        (by simp; omega) hm₁ (by omega) (by omega)
      refine ⟨m', ?_, hl'.trans hl₁, by simpa [printed] using hm'⟩
      rw [printLoop, if_pos (by omega), ← hpre]
      dsimp only
      rw [hput, Res.ok_bind, if_pos (Or.inr hlen), hloop]
      congr 2
      omega

/-- **What a printer writes**: the digits without leading zeros. -/
theorem printLoop_trimmed {k l : Nat} {m pre : List UInt8} (hm : pre <+: m) (hk : k ≤ maxLen)
    (hfit : pre.length + maxLen ≤ m.length) (hzero : k = 0 → pre ++ [48] <+: m) :
    ∃ len m', printLoop digit rest pre.length maxLen k l 0 m = .ok (len, m') ∧ m'.length = m.length
      ∧ (if len ≠ 0 then len else 1) = (trimmed (printed digit rest k l)).length
      ∧ pre ++ trimmed (printed digit rest k l) <+: m' := by
  -- on the digits left; as long as only zeros were seen the position stays
  induction k generalizing l m with
  | zero => exact ⟨0, m, rfl, rfl, rfl, by simpa [printed, trimmed] using hzero rfl⟩
  | succ k ih =>
      obtain ⟨m₁, hput, hl₁, hm₁⟩ := put_prefix hm [digit k l] (by simp; omega)
      rw [printLoop, if_pos (by omega), Nat.add_zero]
      dsimp only
      rw [hput, Res.ok_bind]
      by_cases hc : digit k l = 48
      · -- a leading zero is overwritten by the next digit, or stays if it was the last
        have hm₀ : pre <+: m₁ := (List.prefix_append _ _).trans hm₁
        obtain ⟨len, m', hloop, hl', hlen, hm'⟩ := @ih (rest k l) m₁ hm₀ (by omega) (by omega)
          (fun _ => hc ▸ hm₁)
        have htrim : trimmed (printed digit rest (k + 1) l) = trimmed (printed digit rest k (rest k l)) := by
          simp [printed, trimmed, hc]
        rw [htrim, if_neg (by simp [hc])]
        exact ⟨len, m', hloop, hl'.trans hl₁, hlen, hm'⟩
      · have htrim : trimmed (printed digit rest (k + 1) l) = printed digit rest (k + 1) l := by
          simp [printed, trimmed, hc]
        obtain ⟨m', hloop, hl', hm'⟩ := @printLoop_kept digit rest pre.length maxLen k (rest k l) 1 m₁
          (pre ++ [digit k l]) (by decide) (by simp) hm₁ (by omega) (by omega)
        rw [htrim, if_pos (Or.inl hc)]
        refine ⟨1 + k, m', hloop, hl'.trans hl₁, ?_, by simpa [printed] using hm'⟩
        have hlen : ∀ j l, (printed digit rest j l).length = j := by
          intro j
          induction j with
          | zero => exact fun _ => rfl
          | succ j ihj => exact fun l => congrArg (· + 1) (ihj _)
        rw [if_pos (by omega), hlen]
        omega

end

/-! ## The text of a number -/

/-- A printer whose digits are those of the numeral, zero being the one that prints as zero. -/
theorem trimmed_map {sym : Nat → UInt8} {ds : List Nat} (h0 : sym 0 = 48)
    (hz : ∀ d ∈ ds, sym d = 48 → d = 0) :
    trimmed (ds.map sym) = (match ds.dropWhile (· == 0) with
      | [] => [0]
      | d :: ds => d :: ds).map sym := by
  induction ds with
  | nil => simp [trimmed, h0]
  | cons d ds ih =>
      by_cases hd : d = 0
      · have htrim : trimmed ((d :: ds).map sym) = trimmed (ds.map sym) := by
          simp [trimmed, hd, h0]
        rw [htrim, List.dropWhile_cons_of_pos (by simp [hd])]
        exact ih fun e he => hz e (List.mem_cons_of_mem _ he)
      · have hne : sym d ≠ 48 := fun hs => hd (hz d List.mem_cons_self hs)
        rw [List.dropWhile_cons_of_neg (by simp [hd])]
        simp [trimmed, hne]

theorem decChar_zero {d : Nat} (hd : d < 10) (h : UInt8.ofNat (d + 48) = 48) : d = 0 := by
  have h := congrArg UInt8.toNat h
  rw [UInt8.toNat_ofNat'] at h
  simp only [UInt8.reduceToNat] at h
  omega

theorem hexChar_zero {d : Nat} (hd : d < 16) (h : hexChar d = 48) : d = 0 := by
  have h := congrArg UInt8.toNat h
  rw [hexChar, UInt8.toNat_ofNat'] at h
  simp only [UInt8.reduceToNat] at h
  split at h <;> omega

theorem printed_dec {k l : Nat} (h : l < 10 ^ k) :
    printed decDigit (fun k l => l % 10 ^ k) k l = (fixed 10 k l).map fun d => UInt8.ofNat (d + 48) := by
  induction k generalizing l with
  | zero => rfl
  | succ k ih =>
      have hd : l / 10 ^ k % 10 = l / 10 ^ k :=
        Nat.mod_eq_of_lt (Nat.div_lt_of_lt_mul (by rwa [Nat.pow_succ] at h))
      rw [printed, fixed, List.map_cons, hd, ih (Nat.mod_lt _ (Nat.pow_pos (by decide))),
        fixed_mod (Nat.le_refl k)]
      rfl

theorem printed_hex (k l : Nat) :
    printed hexDigit (fun _ l => l) k l = (fixed 16 k l).map hexChar := by
  induction k with
  | zero => rfl
  | succ k ih =>
      have hd : (l >>> (4 * k)) &&& 15 = l / 16 ^ k % 16 := by
        rw [Nat.shiftRight_eq_div_pow, Nat.pow_mul]
        exact Nat.and_two_pow_sub_one_eq_mod _ 4
      rw [printed, fixed, List.map_cons, ih, hexDigit, hexChar]
      simp only [hd]

/-- **`int2str` prints the decimal numeral**, inside the room it is given. -/
theorem int2str_spec {m pre : List UInt8} {maxLen : Nat} (l : UInt32) (hm : pre <+: m)
    (hmax : 10 ≤ maxLen) (hfit : pre.length + maxLen ≤ m.length) :
    ∃ m', int2str l m pre.length maxLen = .ok ((decText l).length, m') ∧ m'.length = m.length
      ∧ pre ++ decText l <+: m' := by
  obtain ⟨len, m', hloop, hl, hlen, hm'⟩ := @printLoop_trimmed decDigit
    (fun k l => l % 10 ^ k) maxLen 10 l.toNat m pre hm hmax hfit (by simp)
  have htext : trimmed (printed decDigit (fun k l => l % 10 ^ k) 10 l.toNat) = decText l := by
    rw [printed_dec (Nat.lt_of_lt_of_le l.toNat_lt (by decide)), trimmed_map rfl]
    · rfl
    · intro d hd
      exact decChar_zero (fixed_lt (by decide) d hd)
  rw [htext] at hlen hm'
  refine ⟨m', ?_, hl, hm'⟩
  rw [int2str, hloop, Res.ok_bind, ← hlen]
  rfl

/-- **`int2hexstr` prints the hexadecimal numeral**, inside the room it is given. -/
theorem int2hexstr_spec {m pre : List UInt8} (l : UInt32) (hm : pre <+: m)
    (hfit : pre.length + 8 ≤ m.length) :
    ∃ m', int2hexstr l m pre.length 8 = .ok ((hexText l).length, m') ∧ m'.length = m.length
      ∧ pre ++ hexText l <+: m' := by
  obtain ⟨len, m', hloop, hl, hlen, hm'⟩ := @printLoop_trimmed hexDigit
    (fun _ l => l) 8 8 l.toNat m pre hm (Nat.le_refl _) hfit (by simp)
  have htext : trimmed (printed hexDigit (fun _ l => l) 8 l.toNat) = hexText l := by
    rw [printed_hex, trimmed_map rfl]
    · rfl
    · intro d hd
      exact hexChar_zero (fixed_lt (by decide) d hd)
  rw [htext] at hlen hm'
  refine ⟨m', ?_, hl, hm'⟩
  rw [int2hexstr, hloop, Res.ok_bind, ← hlen]
  rfl

theorem length_decText (l : UInt32) : (decText l).length ≤ 10 := by
  rw [decText, List.length_map]
  exact length_numeral (by decide)

theorem length_hexText (l : UInt32) : (hexText l).length ≤ 8 := by
  rw [hexText, List.length_map]
  exact length_numeral (by decide)

/-! ## Writing a Session-Id -/

/-- **The first part of a Session-Id**, with room left for the second. -/
theorem generateSessionID_spec {aaaIdentity buf : List UInt8} (lo hi rand : UInt32)
    (hsize : buf.length = sessionIDSize aaaIdentity) :
    ∃ m, generateSessionID aaaIdentity lo hi rand buf
        = .ok ((sessionIDHead aaaIdentity lo hi rand).length, m)
      ∧ m.length = buf.length ∧ sessionIDHead aaaIdentity lo hi rand <+: m
      ∧ (sessionIDHead aaaIdentity lo hi rand).length + 2 * 9 ≤ buf.length := by
  have hhi := length_decText hi
  have hlo := length_decText lo
  have hrand := length_hexText rand
  unfold sessionIDSize at hsize
  obtain ⟨m₁, hw₁, hl₁, hm₁⟩ := put_prefix (List.nil_prefix (l := buf)) aaaIdentity (by simp; omega)
  obtain ⟨m₂, hw₂, hl₂, hm₂⟩ := put_prefix hm₁ [59] (by simp; omega)
  obtain ⟨m₃, hw₃, hl₃, hm₃⟩ := int2str_spec hi hm₂ (Nat.le_refl _) (by simp; omega)
  obtain ⟨m₄, hw₄, hl₄, hm₄⟩ := put_prefix hm₃ [59] (by simp; omega)
  obtain ⟨m₅, hw₅, hl₅, hm₅⟩ := int2str_spec lo hm₄ (Nat.le_refl _) (by simp; omega)
  obtain ⟨m₆, hw₆, hl₆, hm₆⟩ := put_prefix hm₅ [59] (by simp; omega)
  obtain ⟨m₇, hw₇, hl₇, hm₇⟩ := int2hexstr_spec rand hm₆ (by simp; omega)
  have hlen : (sessionIDHead aaaIdentity lo hi rand).length = aaaIdentity.length + 1
      + (decText hi).length + 1 + (decText lo).length + 1 + (hexText rand).length := by
    simp only [sessionIDHead, List.length_append, List.length_singleton]
  refine ⟨m₇, ?_, by omega, hm₇, by omega⟩
  simp only [List.nil_append, List.length_nil, List.length_append, List.length_singleton]
    at hw₁ hw₂ hw₃ hw₄ hw₅ hw₆ hw₇
  simp only [generateSessionID, hw₁, hw₂, hw₃, hw₄, hw₅, hw₆, hw₇, Res.ok_bind, Res.pure_eq, hlen]

/-- **The second part**: there is room for it. -/
theorem appendHash_spec {m pre : List UInt8} (hashCode label : UInt32) (hm : pre <+: m)
    (hfit : pre.length + 2 * 9 ≤ m.length) :
    ∃ m', appendHash hashCode label pre.length m
        = .ok ((pre ++ sessionIDTail hashCode label).length, m')
      ∧ m'.length = m.length ∧ pre ++ sessionIDTail hashCode label <+: m' := by
  have hcode := length_hexText hashCode
  obtain ⟨m₁, hw₁, hl₁, hm₁⟩ := put_prefix hm [46] (by simp; omega)
  obtain ⟨m₂, hw₂, hl₂, hm₂⟩ := int2hexstr_spec hashCode hm₁ (by simp; omega)
  obtain ⟨m₃, hw₃, hl₃, hm₃⟩ := put_prefix hm₂ [46] (by simp; omega)
  obtain ⟨m₄, hw₄, hl₄, hm₄⟩ := int2hexstr_spec label hm₃ (by simp; omega)
  refine ⟨m₄, ?_, by omega, by simpa [sessionIDTail] using hm₄⟩
  simp only [List.length_append, List.length_singleton] at hw₁ hw₂ hw₃ hw₄
  simp only [appendHash, hw₁, hw₂, hw₃, hw₄, Res.ok_bind, Res.pure_eq, sessionIDTail, List.length_append,
    List.length_singleton]
  congr 2
  omega

/-! ## Reading it back -/

theorem hexchar2int_hexChar {d : Nat} (hd : d < 16) : hexchar2int (hexChar d) = some (UInt32.ofNat d) := by
  have hall : ∀ d : Fin 16, hexchar2int (hexChar d) = some (UInt32.ofNat d) := by decide
  exact hall ⟨d, hd⟩

theorem hexChar_ne_dot {d : Nat} (hd : d < 16) : hexChar d ≠ 46 := by
  have hall : ∀ d : Fin 16, hexChar d ≠ 46 := by decide
  exact hall ⟨d, hd⟩

/-- A digit in its place. -/
theorem shift_digit {d i : Nat} (hd : d < 16) (hi : i < 8) :
    UInt32.ofNat d <<< UInt32.ofNat (4 * i) = UInt32.ofNat (d * 16 ^ i) := by
  apply UInt32.toNat_inj.mp
  have h4 : (UInt32.ofNat (4 * i)).toNat % 32 = 4 * i := by
    rw [UInt32.toNat_ofNat']
    omega
  have hd' : (UInt32.ofNat d).toNat = d := by
    rw [UInt32.toNat_ofNat']
    omega
  rw [UInt32.toNat_shiftLeft, h4, hd', UInt32.toNat_ofNat', Nat.shiftLeft_eq, Nat.pow_mul]

/-- The loop reads the digits before the next dot; `i` of them were read already. -/
theorem hexLoop_digits {ds : List Nat} {rest : List UInt8} {i : Nat} {u : UInt32}
    (hds : ∀ d ∈ ds, d < 16) (hi : i + ds.length ≤ 8) :
    hexLoop ((ds.map hexChar).reverse ++ 46 :: rest) u (UInt32.ofNat (4 * i))
      = some (u + UInt32.ofNat (16 ^ i * value 16 ds), 46 :: rest) := by
  induction ds using List.reverseRecOn generalizing i u with
  | nil => simp [hexLoop, value]
  | append_singleton ds d ih =>
      have hd : d < 16 := hds d (by simp)
      rw [List.length_append, List.length_singleton] at hi
      rw [List.map_append, List.reverse_append]
      simp only [List.map_singleton, List.reverse_singleton, List.cons_append, List.nil_append]
      rw [hexLoop, if_neg (hexChar_ne_dot hd), hexchar2int_hexChar hd]
      dsimp only
      have hrang : UInt32.ofNat (4 * i) + 4 = UInt32.ofNat (4 * (i + 1)) := by
        rw [Nat.mul_add, UInt32.ofNat_add]
        rfl
      rw [shift_digit hd (by omega), hrang, ih (fun e he => hds e (by simp [he])) (by omega)]
      have hv : value 16 (ds ++ [d]) = value 16 ds * 16 + d := by
        simp [value]
      rw [hv, UInt32.add_assoc, ← UInt32.ofNat_add]
      congr 4
      ring

theorem hexLoop_hexText (l : UInt32) (rest : List UInt8) :
    hexLoop ((hexText l).reverse ++ 46 :: rest) 0 0 = some (l, 46 :: rest) := by
  have hlen := length_hexText l
  rw [hexText, List.length_map] at hlen
  have h := @hexLoop_digits (numeral 16 8 l.toNat) rest 0 0 (numeral_lt (by decide)) (by omega)
  rw [value_numeral, Nat.mod_eq_of_lt (Nat.lt_of_lt_of_le l.toNat_lt (by decide))] at h
  rw [hexText]
  refine h.trans ?_
  simp

/-- **Hash code and label are read back**, whatever stands before them, as long as something does. -/
theorem parseSessionID_tail {head : List UInt8} (hashCode label : UInt32) (hne : head ≠ []) :
    parseSessionID (head ++ sessionIDTail hashCode label) = some (hashCode, label) := by
  have hrev : (head ++ sessionIDTail hashCode label).reverse
      = (hexText label).reverse ++ 46 :: ((hexText hashCode).reverse ++ 46 :: head.reverse) := by
    simp [sessionIDTail]
  obtain ⟨c, cs, hhead⟩ := List.exists_cons_of_ne_nil (fun h => hne (List.reverse_eq_nil_iff.mp h))
  have hcode : hexText hashCode ≠ [] := by
    rw [hexText, Ne, List.map_eq_nil_iff]
    exact numeral_ne_nil _ _ _
  obtain ⟨d, ds, hds⟩ := List.exists_cons_of_ne_nil (fun h => hcode (List.reverse_eq_nil_iff.mp h))
  have hdot : ∀ (c : UInt8) (cs : List UInt8), skipDot (46 :: c :: cs) = some (c :: cs) := by
    intro c cs
    rfl
  have hskip : skipDot (46 :: ((hexText hashCode).reverse ++ 46 :: head.reverse))
      = some ((hexText hashCode).reverse ++ 46 :: head.reverse) := by
    rw [hds]
    exact hdot _ _
  have hskip' : skipDot (46 :: head.reverse) = some head.reverse := by
    rw [hhead]
    exact hdot _ _
  simp only [parseSessionID, hrev, hexLoop_hexText, Option.bind_eq_bind, Option.bind_some, hskip, hskip',
    Option.pure_def]

/-! ## What the text tells -/

/-- The counter `monoton_sID` holds. -/
def counter (lo hi : UInt32) : Nat := hi.toNat * 2 ^ 32 + lo.toNat

theorem counter_lt (lo hi : UInt32) : counter lo hi < 2 ^ 64 := by
  have hlo := lo.toNat_lt
  have hhi := hi.toNat_lt
  unfold counter
  omega

/-- The carry goes from the low word to the high word. -/
theorem counter_inc64biti (lo hi : UInt32) :
    counter (inc64biti lo hi).1 (inc64biti lo hi).2 = (counter lo hi + 1) % 2 ^ 64 := by
  have hlo := lo.toNat_lt
  have hhi := hi.toNat_lt
  have hsucc : (lo + 1).toNat = (lo.toNat + 1) % 2 ^ 32 := UInt32.toNat_add lo 1
  unfold inc64biti counter
  dsimp only
  split
  · rename_i h0
    rw [h0] at hsucc
    rw [h0, UInt32.toNat_add]
    simp only [UInt32.reduceToNat] at hsucc ⊢
    omega
  · rename_i h0
    have hne : (lo + 1).toNat ≠ 0 := fun h => h0 (UInt32.toNat_inj.mp h)
    rw [UInt32.add_zero]
    omega

/-- What stands before the first separator, and what after it. -/
theorem separator_inj {x : UInt8} {a b s t : List UInt8} (ha : x ∉ a) (hb : x ∉ b)
    (h : a ++ x :: s = b ++ x :: t) : a = b ∧ s = t := by
  induction a generalizing b with
  | nil =>
      cases b with
      | nil => exact ⟨rfl, (List.cons.inj h).2⟩
      | cons d b => exact absurd (List.cons.inj h).1 (List.ne_of_not_mem_cons hb)
  | cons c a ih =>
      cases b with
      | nil => exact absurd (List.cons.inj h).1.symm (List.ne_of_not_mem_cons ha)
      | cons d b =>
          obtain ⟨rfl, htail⟩ := List.cons.inj h
          obtain ⟨rfl, rfl⟩ := ih (List.not_mem_of_not_mem_cons ha) (List.not_mem_of_not_mem_cons hb) htail
          exact ⟨rfl, rfl⟩

theorem decChar_toNat {d : Nat} (hd : d < 10) : (UInt8.ofNat (d + 48)).toNat = d + 48 := by
  rw [UInt8.toNat_ofNat']
  omega

/-- No digit is a semicolon. -/
theorem semicolon_not_mem_decText (l : UInt32) : 59 ∉ decText l := by
  intro h
  obtain ⟨d, hd, he⟩ := List.mem_map.mp h
  have hlt : d < 10 := numeral_lt (by decide) d hd
  have h59 := decChar_toNat hlt
  rw [he] at h59
  simp only [UInt8.reduceToNat] at h59
  omega

/-- **The decimal text determines the number.** -/
theorem decText_injective {l l' : UInt32} (h : decText l = decText l') : l = l' := by
  have hbound : ∀ n : UInt32, n.toNat < 10 ^ 10 := fun n => Nat.lt_of_lt_of_le n.toNat_lt (by decide)
  refine UInt32.toNat_inj.mp (numeral_injective (hbound l) (hbound l') ?_)
  -- the digits are read off the characters
  have hdigits : ∀ n : UInt32, (decText n).map (fun c => c.toNat - 48) = numeral 10 10 n.toNat := by
    intro n
    rw [decText, List.map_map]
    refine (List.map_congr_left fun d hd => ?_).trans (List.map_id _)
    rw [Function.comp_apply, decChar_toNat (numeral_lt (by decide) d hd), id]
    omega
  rw [← hdigits l, ← hdigits l', h]

/-- **A Session-Id determines the counter it was made from**, whatever follows. -/
theorem sessionIDHead_counter {aaaIdentity tail tail' : List UInt8} {lo hi rand lo' hi' rand' : UInt32}
    (h : sessionIDHead aaaIdentity lo hi rand ++ tail = sessionIDHead aaaIdentity lo' hi' rand' ++ tail') :
    counter lo hi = counter lo' hi' := by
  simp only [sessionIDHead, List.append_assoc, List.singleton_append] at h
  have hhi := (List.cons.inj (List.append_cancel_left h)).2
  obtain ⟨hhi, hlo⟩ := separator_inj (semicolon_not_mem_decText hi) (semicolon_not_mem_decText hi') hhi
  obtain ⟨hlo, -⟩ := separator_inj (semicolon_not_mem_decText lo) (semicolon_not_mem_decText lo') hlo
  rw [decText_injective hhi, decText_injective hlo]

end Disc.Client
