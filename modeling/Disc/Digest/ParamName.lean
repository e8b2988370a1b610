import Mathlib.Data.List.DropRight
import Mathlib.Tactic.IntervalCases
import Disc.Lib.Text
import Disc.Server.Route

/-!
# Names of digest parameters

`parse_param_name` of `param_parser.c`. The first four letters of the name select a case, in
which the letters that follow are compared one by one or four at a time. None of these reads
asks whether the letters are there. Two cases have no `goto` at their end: what is no realm
is tried as a nonce four letters further on, and what is no nonce as a response.
-/

namespace Disc.Digest

open Disc.Lib Disc.Server

/-! ## The code -/

/-- `dig_par_t`. -/
inductive DigPar where
  | parUsername
  | parRealm
  | parNonce
  | parUri
  | parResponse
  | parCnonce
  | parOpaque
  | parQop
  | parNc
  | parAlgorithm
  | parOther
deriving Repr, DecidableEq

/-- What `TRIM_SWITCH` goes past. -/
def isWhite (c : UInt8) : Bool := c = 32 || c = 9 || c = 13 || c = 10

/-- `trim_leading`. -/
def trimLeading (s : List UInt8) : List UInt8 := s.dropWhile isWhite

/-- `trim_trailing`. -/
def trimTrailing (s : List UInt8) : List UInt8 := s.rdropWhile isWhite

/-- `q_memchr`: what is left from the first `c` on. -/
def qMemchr (p : List UInt8) (c : UInt8) : Option (List UInt8) :=
  match p.dropWhile (· ≠ c) with
  | [] => none
  | q => some q

/-- `LOWER_BYTE`. -/
def lowerByte (b : UInt8) : UInt8 := b ||| 32

/-- `LOWER_DWORD`. -/
def lowerDword (d : UInt32) : UInt32 := d ||| 0x20202020

/-- `*p`. -/
def byteAt (s : List UInt8) (p : Nat) : Res UInt8 := Res.ofAccess s[p]?

/-- The integer a `char` becomes, which has a sign. -/
def charInt (c : UInt8) : UInt32 := if c < 128 then c.toUInt32 else c.toUInt32 + 0xffffff00

/-- The sum of four bytes that `READ` makes. -/
def dword (a b c d : UInt8) : UInt32 :=
  charInt a + (charInt b <<< 8) + (charInt c <<< 16) + (charInt d <<< 24)

/-- `READ`. -/
def readDword (s : List UInt8) (p : Nat) : Res UInt32 := do
  let a ← byteAt s p
  let b ← byteAt s (p + 1)
  let c ← byteAt s (p + 2)
  let d ← byteAt s (p + 3)
  return dword a b c d

/-- `_name_`. -/
def nameDword : UInt32 := 0x656d616e

/-- `_user_`. -/
def userDword : UInt32 := 0x72657375

/-- `_real_`. -/
def realDword : UInt32 := 0x6c616572

/-- `_nonc_`. -/
def noncDword : UInt32 := 0x636e6f6e

/-- `_resp_`. -/
def respDword : UInt32 := 0x70736572

/-- `_onse_`. -/
def onseDword : UInt32 := 0x65736e6f

/-- `_cnon_`. -/
def cnonDword : UInt32 := 0x6e6f6e63

/-- `_opaq_`. -/
def opaqDword : UInt32 := 0x7161706f

/-- `_algo_`. -/
def algoDword : UInt32 := 0x6f676c61

/-- `_rith_`. -/
def rithDword : UInt32 := 0x68746972

/-- From the label `other` on: the type, and the string from the `=` on. -/
def otherLabel (s : List UInt8) (p : Nat) : Res (DigPar × List UInt8) :=
  match qMemchr (s.drop p) 61 with
  | none => .error
  | some r => .ok (.parOther, r)

/-- From the label `end` on, with the type the name seems to have. -/
def endLabel (s : List UInt8) (p : Nat) (type : DigPar) : Res (DigPar × List UInt8) := do
  let r := trimLeading (s.drop p)
  let c ← byteAt r 0
  if c = 61 then return (type, r) else otherLabel s p

/-- `PARSE_SHORT`. -/
def parseShort (s : List UInt8) (p : Nat) : Res (DigPar × List UInt8) := do
  let c ← byteAt s p
  if lowerByte c = 117 then do
    let c ← byteAt s (p + 1)
    if lowerByte c = 114 then do
      let c ← byteAt s (p + 2)
      if lowerByte c = 105 then endLabel s (p + 3) .parUri else otherLabel s p
    else otherLabel s p
  else if lowerByte c = 113 then do
    let c ← byteAt s (p + 1)
    if lowerByte c = 111 then do
      let c ← byteAt s (p + 2)
      if lowerByte c = 112 then endLabel s (p + 3) .parQop else otherLabel s p
    else otherLabel s p
  else if lowerByte c = 110 then do
    let c ← byteAt s (p + 1)
    if lowerByte c = 99 then endLabel s (p + 2) .parNc else otherLabel s p
  else otherLabel s p

/-- `user_CASE`. -/
def userCase (s : List UInt8) (p : Nat) : Res (DigPar × List UInt8) := do
  let val ← readDword s (p + 4)
  if lowerDword val = nameDword then endLabel s (p + 4 + 4) .parUsername
  else otherLabel s (p + 4)

/-- `resp_CASE`. -/
def respCase (s : List UInt8) (p : Nat) : Res (DigPar × List UInt8) := do
  let val ← readDword s (p + 4)
  if lowerDword val = onseDword then endLabel s (p + 4 + 4) .parResponse
  else otherLabel s (p + 4)

/-- `nonc_CASE`, which goes on with `resp_CASE`. -/
def noncCase (s : List UInt8) (p : Nat) : Res (DigPar × List UInt8) := do
  let c ← byteAt s (p + 4)
  if lowerByte c = 101 then endLabel s (p + 4 + 1) .parNonce
  else respCase s (p + 4)

/-- `real_CASE`, which goes on with `nonc_CASE`. -/
def realCase (s : List UInt8) (p : Nat) : Res (DigPar × List UInt8) := do
  let c ← byteAt s (p + 4)
  if lowerByte c = 109 then endLabel s (p + 4 + 1) .parRealm
  else noncCase s (p + 4)

/-- What `cnon_CASE` and `opaq_CASE` do: one letter and then an `e`. -/
def letterCase (letter : UInt8) (type : DigPar) (s : List UInt8) (p : Nat) :
    Res (DigPar × List UInt8) := do
  let c ← byteAt s (p + 4)
  if lowerByte c = letter then do
    let c ← byteAt s (p + 4 + 1)
    if lowerByte c = 101 then endLabel s (p + 4 + 1 + 1) type
    else otherLabel s (p + 4 + 1)
  else otherLabel s (p + 4)

/-- `cnon_CASE`. -/
def cnonCase : List UInt8 → Nat → Res (DigPar × List UInt8) := letterCase 99 .parCnonce

/-- `opaq_CASE`. -/
def opaqCase : List UInt8 → Nat → Res (DigPar × List UInt8) := letterCase 117 .parOpaque

/-- `algo_CASE`. -/
def algoCase (s : List UInt8) (p : Nat) : Res (DigPar × List UInt8) := do
  let val ← readDword s (p + 4)
  if lowerDword val = rithDword then do
    let c ← byteAt s (p + 4 + 4)
    if lowerByte c = 109 then endLabel s (p + 4 + 4 + 1) .parAlgorithm
    else otherLabel s (p + 4 + 4)
  else otherLabel s (p + 4)

/-- `parse_param_name`. -/
def parseParamName (s : List UInt8) : Res (DigPar × List UInt8) := do
  let val ← readDword s 0
  if s.length < 4 then otherLabel s 0
  else if lowerDword val = userDword then userCase s 0
  else if lowerDword val = realDword then realCase s 0
  else if lowerDword val = noncDword then noncCase s 0
  else if lowerDword val = respDword then respCase s 0
  else if lowerDword val = cnonDword then cnonCase s 0
  else if lowerDword val = opaqDword then opaqCase s 0
  else if lowerDword val = algoDword then algoCase s 0
  else parseShort s 0

/-! ## What it should do -/

/-- The names of the parameters. -/
def parNames : List (DigPar × List UInt8) :=
  [(.parUsername, ascii "username"), (.parRealm, ascii "realm"), (.parNonce, ascii "nonce"),
    (.parUri, ascii "uri"), (.parResponse, ascii "response"), (.parCnonce, ascii "cnonce"),
    (.parOpaque, ascii "opaque"), (.parQop, ascii "qop"), (.parNc, ascii "nc"),
    (.parAlgorithm, ascii "algorithm")]

/-- The type a name has, in letters of any case. -/
def nameType (nm : List UInt8) : DigPar :=
  ((parNames.find? (·.2 = nm.map tolower)).map Prod.fst).getD .parOther

/-- The text in front of the first `=`. -/
def nameText (s : List UInt8) : List UInt8 := s.takeWhile (· ≠ 61)

/-- The result is no bad read, and if it is a type, it is that of the name, with the `=` next. -/
def RightName (s : List UInt8) (res : Res (DigPar × List UInt8)) : Prop :=
  res ≠ .fault ∧ ∀ type r, res = .ok (type, r) →
    s = nameText s ++ r ∧ r.head? = some 61 ∧ type = nameType (trimTrailing (nameText s))

/-! ## When it does -/

/-- Behind the first `p` bytes something comes that is not white. -/
def GoesOn (s : List UInt8) (p : Nat) : Prop := ∃ c ∈ s.drop p, isWhite c = false

/-- An `=` behind the first `p` bytes is the first one. -/
def NonePassed (s : List UInt8) (p : Nat) : Prop := 61 ∈ s.drop p → 61 ∉ s.take p

/-- A name that is none is found at `p`, and no `=` follows to make it one. -/
def NoNameAt (s : List UInt8) (p : Nat) : Prop :=
  GoesOn s p ∧ (trimLeading (s.drop p)).head? ≠ some 61 ∧ NonePassed s p

/-- The four letters at `p` are taken for the end of a response. -/
def NoResponseAt (s : List UInt8) (p : Nat) : Prop :=
  p + 4 ≤ s.length
    ∧ if spells (ascii "onse") (s.drop p) then NoNameAt s (p + 4) else NonePassed s p

/--
The letters the code reads are there: those that it compares, and one that is not white
behind a name. And where it goes on from one name to another it passes no `=`.
-/
def NameFits (s : List UInt8) : Prop :=
  4 ≤ s.length ∧
    if spells (ascii "user") s then 8 ≤ s.length ∧ (spells (ascii "username") s → GoesOn s 8)
    else if spells (ascii "real") s then
      5 ≤ s.length ∧
        if spells (ascii "realm") s then GoesOn s 5
        else 9 ≤ s.length ∧
          if spells (ascii "e") (s.drop 8) then NoNameAt s 9 else NoResponseAt s 12
    else if spells (ascii "nonc") s then
      5 ≤ s.length ∧ if spells (ascii "nonce") s then GoesOn s 5 else NoResponseAt s 8
    else if spells (ascii "resp") s then 8 ≤ s.length ∧ (spells (ascii "response") s → GoesOn s 8)
    else if spells (ascii "cnon") s then
      5 ≤ s.length ∧
        (spells (ascii "cnonc") s → 6 ≤ s.length ∧ (spells (ascii "cnonce") s → GoesOn s 6))
    else if spells (ascii "opaq") s then
      5 ≤ s.length ∧
        (spells (ascii "opaqu") s → 6 ≤ s.length ∧ (spells (ascii "opaque") s → GoesOn s 6))
    else if spells (ascii "algo") s then
      8 ≤ s.length ∧
        (spells (ascii "algorith") s → 9 ≤ s.length ∧ (spells (ascii "algorithm") s → GoesOn s 9))
    else (spells (ascii "uri") s → GoesOn s 3) ∧ (spells (ascii "qop") s → GoesOn s 3)
      ∧ (spells (ascii "nc") s → GoesOn s 2)

/-! ## Letters -/

theorem charInt_toNat (c : UInt8) :
    (charInt c).toNat = if c.toNat < 128 then c.toNat else c.toNat + 4294967040 := by
  have hc : c.toNat < 256 := c.toNat_lt
  by_cases h : c.toNat < 128
  · have h' : c < 128 := UInt8.lt_iff_toNat_lt.mpr h
    rw [charInt, if_pos h', if_pos h, UInt8.toNat_toUInt32]
  · have h' : ¬ c < 128 := fun h' => h (UInt8.lt_iff_toNat_lt.mp h')
    rw [charInt, if_neg h', if_neg h, UInt32.toNat_add, UInt8.toNat_toUInt32]
    simp only [UInt32.reduceToNat]
    omega

theorem dword_toNat (a b c d : UInt8) :
    (dword a b c d).toNat = ((charInt a).toNat + (charInt b).toNat * 2 ^ 8
      + (charInt c).toNat * 2 ^ 16 + (charInt d).toNat * 2 ^ 24) % 2 ^ 32 := by
  simp [dword, Nat.shiftLeft_eq]

/-- `LOWER_DWORD` does with each byte what `LOWER_BYTE` does. -/
theorem lowerDword_byte (x : UInt32) {k : Nat} (hk : k < 4) :
    (lowerDword x).toNat / 256 ^ k % 256 = x.toNat / 256 ^ k % 256 ||| 32 := by
  have h : (lowerDword x).toNat = x.toNat ||| 538976288 := by simp [lowerDword]
  have hm : 538976288 / 256 ^ k % 256 = 32 := by interval_cases k <;> rfl
  have hpow : 256 ^ k = 2 ^ (8 * k) := by rw [Nat.pow_mul]
  have hmask : (538976288 >>> (8 * k)) % 2 ^ 8 = 32 := by
    rw [Nat.shiftRight_eq_div_pow, ← hpow]
    exact hm
  rw [h, hpow, ← Nat.shiftRight_eq_div_pow, ← Nat.shiftRight_eq_div_pow,
    Nat.shiftRight_or_distrib, show 256 = 2 ^ 8 from rfl, Nat.or_mod_two_pow, hmask]

/-- A small letter. -/
def IsSmall (c : UInt8) : Prop := 97 ≤ c ∧ c ≤ 122

instance (c : UInt8) : Decidable (IsSmall c) := inferInstanceAs (Decidable (_ ∧ _))

theorem IsSmall.toNat_lt {c : UInt8} (h : IsSmall c) : c.toNat < 128 := by
  have := UInt8.le_iff_toNat_le.mp h.2
  exact Nat.lt_of_le_of_lt this (by decide)

theorem lowerByte_tolower :
    ∀ b : UInt8, IsSmall (lowerByte b) ∨ IsSmall (tolower b) → lowerByte b = tolower b :=
  forall_byte (by decide +kernel)

/-- Against a small letter, `LOWER_BYTE` and `tolower` come to the same. -/
theorem lowerByte_eq {b c : UInt8} (hc : IsSmall c) : lowerByte b = c ↔ tolower b = c := by
  constructor
  · rintro rfl
    exact (lowerByte_tolower b (.inl hc)).symm
  · rintro rfl
    exact lowerByte_tolower b (.inr hc)

theorem lowerByte_toNat (b : UInt8) : (lowerByte b).toNat = b.toNat ||| 32 := by
  rw [lowerByte, UInt8.toNat_or]
  rfl

/-- A byte that is a letter when lowered has no sign. -/
theorem toNat_lt_of_lower {b c : UInt8} (hc : c.toNat < 128) (h : b.toNat ||| 32 = c.toNat) :
    b.toNat < 128 := by
  have := @Nat.left_le_or b.toNat 32
  omega

/-- The bytes of the integer are those that were read, up to the first one with a sign. -/
theorem dword_bytes (a b c d : UInt8) :
    (dword a b c d).toNat / 256 ^ 0 % 256 = a.toNat
      ∧ (a.toNat < 128 → (dword a b c d).toNat / 256 ^ 1 % 256 = b.toNat
        ∧ (b.toNat < 128 → (dword a b c d).toNat / 256 ^ 2 % 256 = c.toNat
          ∧ (c.toNat < 128 → (dword a b c d).toNat / 256 ^ 3 % 256 = d.toNat))) := by
  have ha := a.toNat_lt
  have hb := b.toNat_lt
  have hc := c.toNat_lt
  have hd := d.toNat_lt
  have hsign : ∀ e : UInt8, (charInt e).toNat = e.toNat + (if e.toNat < 128 then 0 else 1) * 4294967040 := by
    intro e
    rw [charInt_toNat]
    split <;> omega
  have hx := dword_toNat a b c d
  simp only [hsign] at hx
  generalize (dword a b c d).toNat = x at hx ⊢
  refine ⟨by omega, fun ha => ?_⟩
  rw [if_pos ha] at hx
  refine ⟨by omega, fun hb => ?_⟩
  rw [if_pos hb] at hx
  refine ⟨by omega, fun hc => ?_⟩
  rw [if_pos hc] at hx
  omega

/-- Two integers with the same four bytes are one. -/
theorem eq_of_bytes {x y : UInt32}
    (h : ∀ k < 4, x.toNat / 256 ^ k % 256 = y.toNat / 256 ^ k % 256) : x = y := by
  have hx : x.toNat < 4294967296 := x.toNat_lt
  have hy : y.toNat < 4294967296 := y.toNat_lt
  have h0 := h 0 (by omega)
  have h1 := h 1 (by omega)
  have h2 := h 2 (by omega)
  have h3 := h 3 (by omega)
  refine UInt32.toNat_inj.mp ?_
  omega

/-- **A lowered integer is four letters** exactly when the bytes it was read from are. -/
theorem lowerDword_dword {a b c d a' b' c' d' : UInt8} (ha : IsSmall a') (hb : IsSmall b')
    (hc : IsSmall c') (hd : IsSmall d') :
    lowerDword (dword a b c d) = dword a' b' c' d' ↔
      [a, b, c, d].map tolower = [a', b', c', d'] := by
  have hletters : [a, b, c, d].map tolower = [a', b', c', d'] ↔
      a.toNat ||| 32 = a'.toNat ∧ b.toNat ||| 32 = b'.toNat ∧ c.toNat ||| 32 = c'.toNat
        ∧ d.toNat ||| 32 = d'.toNat := by
    simp only [← lowerByte_toNat, UInt8.toNat_inj, lowerByte_eq ha, lowerByte_eq hb,
      lowerByte_eq hc, lowerByte_eq hd]
    simp
  obtain ⟨l0, h'⟩ := dword_bytes a' b' c' d'
  obtain ⟨l1, h'⟩ := h' ha.toNat_lt
  obtain ⟨l2, h'⟩ := h' hb.toNat_lt
  have l3 := h' hc.toNat_lt
  obtain ⟨x0, hx⟩ := dword_bytes a b c d
  rw [hletters]
  constructor
  · intro h
    -- a byte that fits is no sign for those above it
    have hbyte := fun k hk => @lowerDword_byte (dword a b c d) k hk
    rw [h] at hbyte
    have ea : a.toNat ||| 32 = a'.toNat := by rw [← l0, hbyte 0 (by omega), x0]
    obtain ⟨x1, hx⟩ := hx (toNat_lt_of_lower ha.toNat_lt ea)
    have eb : b.toNat ||| 32 = b'.toNat := by rw [← l1, hbyte 1 (by omega), x1]
    obtain ⟨x2, hx⟩ := hx (toNat_lt_of_lower hb.toNat_lt eb)
    have ec : c.toNat ||| 32 = c'.toNat := by rw [← l2, hbyte 2 (by omega), x2]
    have x3 := hx (toNat_lt_of_lower hc.toNat_lt ec)
    have ed : d.toNat ||| 32 = d'.toNat := by rw [← l3, hbyte 3 (by omega), x3]
    exact ⟨ea, eb, ec, ed⟩
  · rintro ⟨ea, eb, ec, ed⟩
    obtain ⟨x1, hx⟩ := hx (toNat_lt_of_lower ha.toNat_lt ea)
    obtain ⟨x2, hx⟩ := hx (toNat_lt_of_lower hb.toNat_lt eb)
    have x3 := hx (toNat_lt_of_lower hc.toNat_lt ec)
    refine eq_of_bytes fun k hk => ?_
    rw [lowerDword_byte _ hk]
    interval_cases k
    · rw [x0, ea, l0]
    · rw [x1, eb, l1]
    · rw [x2, ec, l2]
    · rw [x3, ed, l3]

/-! ## What the code compares -/

section Spelling

variable {a b lit s : List UInt8}

theorem spells_length (h : spells lit s) : lit.length ≤ s.length := by
  have hlen := congrArg List.length h
  simp only [List.length_map, List.length_take] at hlen
  omega

theorem spells_add : spells (a ++ b) s ↔ spells a s ∧ spells b (s.drop a.length) := by
  unfold spells
  rw [List.length_append, List.take_add, List.map_append]
  constructor
  · intro h
    have hlen := congrArg List.length h
    simp only [List.length_append, List.length_map, List.length_take, List.length_drop] at hlen
    refine List.append_inj h ?_
    rw [List.length_map, List.length_take]
    omega
  · rintro ⟨ha, hb⟩
    rw [ha, hb]

/-- What two names that a text starts with have in common. -/
theorem spells_compat (ha : spells a s) (hb : spells b s) :
    a.take b.length = b.take a.length := by
  have h : ∀ c : List UInt8, spells c s → ∀ n, c.take n = (s.take (min n c.length)).map tolower := by
    intro c hc n
    rw [← List.take_take, List.map_take, hc]
  rw [h a ha, h b hb, Nat.min_comm]

/-- A text starts with one of two names that differ where both go on. -/
theorem not_spells (ha : spells a s) (hab : a.take b.length ≠ b.take a.length) :
    ¬ spells b s := fun hb => hab (spells_compat ha hb)

theorem spells_letter {c : UInt8} {p : Nat} {d : UInt8} (hd : s[p]? = some d) :
    spells [c] (s.drop p) ↔ tolower d = c := by
  obtain ⟨hp, hget⟩ := List.getElem?_eq_some_iff.mp hd
  have hdrop : s.drop p = d :: s.drop (p + 1) := by
    rw [← hget]
    exact List.drop_eq_getElem_cons hp
  rw [hdrop]
  simp [spells]

/-- No `=` is among letters. -/
theorem not_mem_of_spells (h : spells lit s) (hlit : 61 ∉ lit) {p : Nat} (hp : p ≤ lit.length) :
    61 ∉ s.take p := by
  intro hmem
  refine hlit ?_
  rw [← h]
  have htake : 61 ∈ s.take lit.length := (List.take_subset_take_left s hp) hmem
  exact List.mem_map.mpr ⟨61, htake, rfl⟩

end Spelling

/-- The integer is that of four letters. -/
def IsWord (w : UInt32) (lit : List UInt8) : Prop :=
  ∃ a b c d, lit = [a, b, c, d] ∧ w = dword a b c d
    ∧ IsSmall a ∧ IsSmall b ∧ IsSmall c ∧ IsSmall d

theorem nameWord : IsWord nameDword (ascii "name") := ⟨_, _, _, _, rfl, by decide⟩
theorem userWord : IsWord userDword (ascii "user") := ⟨_, _, _, _, rfl, by decide⟩
theorem realWord : IsWord realDword (ascii "real") := ⟨_, _, _, _, rfl, by decide⟩
theorem noncWord : IsWord noncDword (ascii "nonc") := ⟨_, _, _, _, rfl, by decide⟩
theorem respWord : IsWord respDword (ascii "resp") := ⟨_, _, _, _, rfl, by decide⟩
theorem onseWord : IsWord onseDword (ascii "onse") := ⟨_, _, _, _, rfl, by decide⟩
theorem cnonWord : IsWord cnonDword (ascii "cnon") := ⟨_, _, _, _, rfl, by decide⟩
theorem opaqWord : IsWord opaqDword (ascii "opaq") := ⟨_, _, _, _, rfl, by decide⟩
theorem algoWord : IsWord algoDword (ascii "algo") := ⟨_, _, _, _, rfl, by decide⟩
theorem rithWord : IsWord rithDword (ascii "rith") := ⟨_, _, _, _, rfl, by decide⟩

section Reads

variable {s : List UInt8} {p : Nat}

theorem byteAt_fault (h : s.length ≤ p) : byteAt s p = .fault := by
  rw [byteAt, List.getElem?_eq_none h]
  rfl

/-- A byte that is read is compared with a letter. -/
theorem byteAt_ok (h : p < s.length) :
    ∃ c, byteAt s p = .ok c ∧ ∀ l, IsSmall l → (lowerByte c = l ↔ spells [l] (s.drop p)) := by
  have hget := List.getElem?_eq_getElem h
  refine ⟨s[p], by rw [byteAt, hget, Res.ofAccess_some], fun l hl => ?_⟩
  rw [lowerByte_eq hl, spells_letter hget]

/-- The comparison of one byte with one letter. -/
theorem byteAt_test {l : UInt8} (hl : IsSmall l) (yes no : Res (DigPar × List UInt8)) :
    (byteAt s p >>= fun c => if lowerByte c = l then yes else no)
      = if p < s.length then if spells [l] (s.drop p) then yes else no else .fault := by
  by_cases h : p < s.length
  · obtain ⟨c, hc, htest⟩ := byteAt_ok h
    rw [hc, Res.ok_bind, if_pos h]
    simp only [htest l hl]
  · rw [byteAt_fault (by omega), if_neg h]
    rfl

/-- Four bytes that are read are compared with four letters. -/
theorem readDword_ok (h : p + 4 ≤ s.length) :
    ∃ val, readDword s p = .ok val
      ∧ ∀ w lit, IsWord w lit → (lowerDword val = w ↔ spells lit (s.drop p)) := by
  have h0 := List.getElem?_eq_getElem (show p < s.length by omega)
  have h1 := List.getElem?_eq_getElem (show p + 1 < s.length by omega)
  have h2 := List.getElem?_eq_getElem (show p + 2 < s.length by omega)
  have h3 := List.getElem?_eq_getElem (show p + 3 < s.length by omega)
  refine ⟨dword s[p] s[p + 1] s[p + 2] s[p + 3], ?_, ?_⟩
  · simp only [readDword, byteAt, h0, h1, h2, h3, Res.ofAccess_some, Res.ok_bind, Res.pure_eq]
  · rintro w lit ⟨a, b, c, d, rfl, rfl, ha, hb, hc, hd⟩
    have htake : (s.drop p).take 4 = [s[p], s[p + 1], s[p + 2], s[p + 3]] := by
      rw [List.drop_eq_getElem_cons (show p < s.length by omega),
        List.drop_eq_getElem_cons (show p + 1 < s.length by omega),
        List.drop_eq_getElem_cons (show p + 1 + 1 < s.length by omega),
        List.drop_eq_getElem_cons (show p + 1 + 1 + 1 < s.length by omega)]
      rfl
    rw [lowerDword_dword ha hb hc hd, ← htake]
    rfl

theorem readDword_fault (h : s.length < p + 4) : readDword s p = .fault := by
  have hbyte : ∀ q, s.length ≤ q ∨ ∃ c, byteAt s q = .ok c := fun q =>
    (Nat.lt_or_ge q s.length).symm.imp_right fun hq => ⟨_, (byteAt_ok hq).choose_spec.1⟩
  unfold readDword
  rcases hbyte p with h0 | ⟨a, h0⟩
  · rw [byteAt_fault h0]
    rfl
  rcases hbyte (p + 1) with h1 | ⟨b, h1⟩
  · rw [h0, byteAt_fault h1]
    rfl
  rcases hbyte (p + 2) with h2 | ⟨c, h2⟩
  · rw [h0, h1, byteAt_fault h2]
    rfl
  rw [h0, h1, h2, byteAt_fault (show s.length ≤ p + 3 by omega)]
  rfl

/-- The comparison of four bytes with four letters. -/
theorem readDword_test {w : UInt32} {lit : List UInt8} (hw : IsWord w lit)
    (yes no : Res (DigPar × List UInt8)) :
    (readDword s p >>= fun val => if lowerDword val = w then yes else no)
      = if p + 4 ≤ s.length then if spells lit (s.drop p) then yes else no else .fault := by
  by_cases h : p + 4 ≤ s.length
  · obtain ⟨val, hval, htest⟩ := readDword_ok h
    rw [hval, Res.ok_bind, if_pos h]
    simp only [htest w lit hw]
  · rw [readDword_fault (by omega), if_neg h]
    rfl

end Reads

/-! ## What each case comes to -/

theorem userCase_eq (s : List UInt8) (p : Nat) :
    userCase s p = if p + 4 + 4 ≤ s.length then
      if spells (ascii "name") (s.drop (p + 4)) then endLabel s (p + 4 + 4) .parUsername
      else otherLabel s (p + 4) else .fault := readDword_test nameWord _ _

theorem respCase_eq (s : List UInt8) (p : Nat) :
    respCase s p = if p + 4 + 4 ≤ s.length then
      if spells (ascii "onse") (s.drop (p + 4)) then endLabel s (p + 4 + 4) .parResponse
      else otherLabel s (p + 4) else .fault := readDword_test onseWord _ _

theorem noncCase_eq (s : List UInt8) (p : Nat) :
    noncCase s p = if p + 4 < s.length then
      if spells (ascii "e") (s.drop (p + 4)) then endLabel s (p + 4 + 1) .parNonce
      else respCase s (p + 4) else .fault := byteAt_test (by decide) _ _

theorem realCase_eq (s : List UInt8) (p : Nat) :
    realCase s p = if p + 4 < s.length then
      if spells (ascii "m") (s.drop (p + 4)) then endLabel s (p + 4 + 1) .parRealm
      else noncCase s (p + 4) else .fault := byteAt_test (by decide) _ _

theorem letterCase_eq {letter : UInt8} (hl : IsSmall letter) (type : DigPar) (s : List UInt8)
    (p : Nat) :
    letterCase letter type s p = if p + 4 < s.length then
      if spells [letter] (s.drop (p + 4)) then
        if p + 4 + 1 < s.length then
          if spells (ascii "e") (s.drop (p + 4 + 1)) then endLabel s (p + 4 + 1 + 1) type
          else otherLabel s (p + 4 + 1)
        else .fault
      else otherLabel s (p + 4) else .fault := by
  rw [letterCase, byteAt_test hl, byteAt_test (show IsSmall 101 by decide)]
  rfl

theorem algoCase_eq (s : List UInt8) (p : Nat) :
    algoCase s p = if p + 4 + 4 ≤ s.length then
      if spells (ascii "rith") (s.drop (p + 4)) then
        if p + 4 + 4 < s.length then
          if spells (ascii "m") (s.drop (p + 4 + 4)) then endLabel s (p + 4 + 4 + 1) .parAlgorithm
          else otherLabel s (p + 4 + 4)
        else .fault
      else otherLabel s (p + 4) else .fault := by
  rw [algoCase, readDword_test rithWord, byteAt_test (show IsSmall 109 by decide)]
  rfl

/-- The short names, all letters of which are there. -/
theorem parseShort_eq {s : List UInt8} (hs : 4 ≤ s.length) :
    parseShort s 0 = if spells (ascii "uri") s then endLabel s 3 .parUri
      else if spells (ascii "qop") s then endLabel s 3 .parQop
      else if spells (ascii "nc") s then endLabel s 2 .parNc else otherLabel s 0 := by
  obtain ⟨c, hc, htest⟩ := byteAt_ok (show 0 < s.length by omega)
  have huri : spells (ascii "uri") s ↔
      spells [117] s ∧ spells [114] (s.drop 1) ∧ spells [105] (s.drop 2) := by
    rw [show ascii "uri" = [117] ++ ([114] ++ [105]) from rfl, spells_add, spells_add,
      List.drop_drop]
    rfl
  have hqop : spells (ascii "qop") s ↔
      spells [113] s ∧ spells [111] (s.drop 1) ∧ spells [112] (s.drop 2) := by
    rw [show ascii "qop" = [113] ++ ([111] ++ [112]) from rfl, spells_add, spells_add,
      List.drop_drop]
    rfl
  have hnc : spells (ascii "nc") s ↔ spells [110] s ∧ spells [99] (s.drop 1) := by
    rw [show ascii "nc" = [110] ++ [99] from rfl, spells_add]
    rfl
  unfold parseShort
  rw [hc, Res.ok_bind]
  simp only [byteAt_test (show IsSmall 114 by decide), byteAt_test (show IsSmall 105 by decide),
    byteAt_test (show IsSmall 111 by decide), byteAt_test (show IsSmall 112 by decide),
    byteAt_test (show IsSmall 99 by decide), htest 117 (by decide), htest 113 (by decide),
    htest 110 (by decide), huri, hqop, hnc, List.drop_zero, Nat.zero_add,
    if_pos (show 1 < s.length by omega), if_pos (show 2 < s.length by omega)]
  -- the first letter decides
  have hfirst : ∀ a b : UInt8, a ≠ b → spells [a] s → ¬ spells [b] s := by
    intro a b hab ha hb
    exact hab (by simpa using spells_compat ha hb)
  by_cases hu : spells [117] s
  · simp only [hu, hfirst 117 113 (by decide) hu, hfirst 117 110 (by decide) hu]
    simp [ite_and]
  · by_cases hq : spells [113] s
    · simp only [hu, hq, hfirst 113 110 (by decide) hq]
      simp [ite_and]
    · by_cases hn : spells [110] s
      · simp [hu, hq, hn]
      · simp [hu, hq, hn]

/-- Which case a name gets into. -/
theorem parseParamName_eq {s : List UInt8} (hs : 4 ≤ s.length) :
    parseParamName s = if spells (ascii "user") s then userCase s 0
      else if spells (ascii "real") s then realCase s 0
      else if spells (ascii "nonc") s then noncCase s 0
      else if spells (ascii "resp") s then respCase s 0
      else if spells (ascii "cnon") s then cnonCase s 0
      else if spells (ascii "opaq") s then opaqCase s 0
      else if spells (ascii "algo") s then algoCase s 0
      else parseShort s 0 := by
  obtain ⟨val, hval, htest⟩ := readDword_ok (show 0 + 4 ≤ s.length by omega)
  rw [parseParamName, hval, Res.ok_bind, if_neg (by omega)]
  simp only [htest _ _ userWord, htest _ _ realWord, htest _ _ noncWord, htest _ _ respWord,
    htest _ _ cnonWord, htest _ _ opaqWord, htest _ _ algoWord, List.drop_zero]

/-! ## What a label makes of a name -/

section Right

variable {s : List UInt8} {p : Nat} {type : DigPar}

theorem not_rightName_fault : ¬ RightName s .fault := fun h => h.1 rfl

theorem rightName_fault {c : Prop} [Decidable c] {res : Res (DigPar × List UInt8)} :
    RightName s (if c then res else .fault) ↔ c ∧ RightName s res := by
  by_cases hc : c
  · simp [hc]
  · simp [hc, not_rightName_fault]

theorem rightName_ok {r : List UInt8} :
    RightName s (.ok (type, r)) ↔
      s = nameText s ++ r ∧ r.head? = some 61 ∧ type = nameType (trimTrailing (nameText s)) := by
  constructor
  · intro h
    exact h.2 type r rfl
  · intro h
    refine ⟨by nofun, fun type' r' heq => ?_⟩
    obtain ⟨rfl, rfl⟩ := Prod.mk.inj (Res.ok.inj heq)
    exact h

theorem nameText_append {nm r : List UInt8} (hnm : 61 ∉ nm) : nameText (nm ++ 61 :: r) = nm := by
  rw [nameText, List.takeWhile_append_of_pos]
  · simp
  · intro c hc
    simpa using fun h : c = 61 => hnm (h ▸ hc)

/-- Cut at an `=`, the text in front is the name if there is no `=` in it. -/
theorem nameText_cut {nm r : List UInt8} (h : s = nm ++ 61 :: r) :
    s = nameText s ++ 61 :: r ↔ 61 ∉ nm := by
  constructor
  · intro h'
    have hnm : nm = nameText s := List.append_cancel_right (h.symm.trans h')
    rw [hnm]
    intro hmem
    simpa using List.mem_takeWhile_imp hmem
  · intro hnm
    rw [h, nameText_append hnm]

/-- A text with an `=` is cut at it. -/
theorem nameText_ends (h : 61 ∈ s) : ∃ r, s = nameText s ++ 61 :: r := by
  obtain ⟨a, b, hab, ha, hb⟩ := exists_chunk (· = (61 : UInt8)) s
  have ha61 : 61 ∉ a := fun h => ha 61 h rfl
  rcases hb with rfl | ⟨c, r, rfl, rfl⟩
  · rw [List.append_nil] at hab
    exact absurd (hab ▸ h) ha61
  · refine ⟨r, ?_⟩
    conv_rhs => rw [hab, nameText_append ha61]
    exact hab

/-- **From the label `other` on**, the name counts as unknown. -/
theorem rightName_other :
    RightName s (otherLabel s p) ↔
      (61 ∈ s.drop p → 61 ∉ s.take p ∧ nameType (trimTrailing (nameText s)) = .parOther) := by
  obtain ⟨a, b, hab, ha, hb⟩ := exists_chunk (· = (61 : UInt8)) (s.drop p)
  have hq : qMemchr (s.drop p) 61 = if b = [] then none else some b := by
    have hdrop : (s.drop p).dropWhile (· ≠ 61) = b := by
      rw [hab, List.dropWhile_append_of_pos (by simpa using ha)]
      rcases hb with rfl | ⟨c, r, rfl, rfl⟩
      · rfl
      · simp
    rw [qMemchr, hdrop]
    cases b with
    | nil => rfl
    | cons c r => rfl
  have ha61 : 61 ∉ a := fun h => ha 61 h rfl
  rcases hb with rfl | ⟨c, r, rfl, rfl⟩
  · have hno : 61 ∉ s.drop p := by
      rw [hab, List.append_nil]
      exact ha61
    rw [otherLabel, hq]
    exact iff_of_true ⟨by nofun, by nofun⟩ fun h => absurd h hno
  · have hmem : 61 ∈ s.drop p := by
      rw [hab]
      simp
    have hs : s = (s.take p ++ a) ++ 61 :: r := by
      rw [List.append_assoc, ← hab, List.take_append_drop]
    have hcut := nameText_cut hs
    rw [otherLabel, hq]
    simp only [reduceCtorEq, if_false]
    rw [rightName_ok, hcut, List.mem_append, not_or]
    constructor
    · rintro ⟨⟨h, -⟩, -, ht⟩ -
      exact ⟨h, ht.symm⟩
    · intro h
      exact ⟨⟨(h hmem).1, ha61⟩, rfl, (h hmem).2.symm⟩

/-- **From the label `end` on**, the name counts if the `=` is next. -/
theorem rightName_end :
    RightName s (endLabel s p type) ↔ GoesOn s p ∧
      if (trimLeading (s.drop p)).head? = some 61 then
        61 ∉ s.take p ∧ nameType (trimTrailing (nameText s)) = type
      else RightName s (otherLabel s p) := by
  have hgoes : GoesOn s p ↔ trimLeading (s.drop p) ≠ [] := by
    rw [trimLeading, Ne, List.dropWhile_eq_nil_iff]
    simp [GoesOn]
  have hcut : s = (s.take p ++ (s.drop p).takeWhile isWhite) ++ trimLeading (s.drop p) := by
    rw [List.append_assoc, trimLeading, List.takeWhile_append_dropWhile, List.take_append_drop]
  have hwhite : 61 ∉ (s.drop p).takeWhile isWhite := fun h =>
    absurd (List.mem_takeWhile_imp h) (by decide)
  rw [hgoes, endLabel]
  cases hb : trimLeading (s.drop p) with
  | nil => exact iff_of_false not_rightName_fault fun h => h.1 rfl
  | cons c r =>
      rw [hb] at hcut
      have hbyte : byteAt (c :: r) 0 = .ok c := rfl
      simp only [hbyte, Res.ok_bind, Res.pure_eq, List.head?_cons, Option.some.injEq, ne_eq,
        reduceCtorEq, not_false_eq_true, true_and]
      by_cases hc : c = 61
      · subst hc
        rw [if_pos rfl, if_pos rfl, rightName_ok, nameText_cut hcut, List.mem_append, not_or]
        constructor
        · rintro ⟨⟨h, -⟩, -, ht⟩
          exact ⟨h, ht.symm⟩
        · rintro ⟨h, ht⟩
          exact ⟨⟨h, hwhite⟩, rfl, ht.symm⟩
      · rw [if_neg hc, if_neg hc]

end Right

/-! ## The names -/

section Names

variable {s : List UInt8} {p : Nat} {type : DigPar} {lit : List UInt8}

/-- A name that has a type is in the list. -/
theorem nameType_cases (nm : List UInt8) :
    nameType nm = .parOther ∨ (nameType nm, nm.map tolower) ∈ parNames := by
  unfold nameType
  cases hf : parNames.find? (·.2 = nm.map tolower) with
  | none => exact .inl rfl
  | some e =>
      have heq : e.2 = nm.map tolower := by simpa using List.find?_some hf
      exact .inr (heq ▸ List.mem_of_find?_eq_some hf)

/-- The text starts with its name. -/
theorem name_starts (s : List UInt8) : trimTrailing (nameText s) <+: s :=
  (List.rdropWhile_prefix _ _).trans (List.takeWhile_prefix _)

theorem spells_of_start {nm : List UInt8} (h : nm <+: s) : spells (nm.map tolower) s := by
  rw [spells, List.length_map, List.prefix_iff_eq_take.mp h]
  simp

/-- A text that starts with none of the names has none. -/
theorem nameType_other (h : ∀ e ∈ parNames, ¬ spells e.2 s) :
    nameType (trimTrailing (nameText s)) = .parOther :=
  (nameType_cases _).resolve_right fun hmem => h _ hmem (spells_of_start (name_starts s))

/-- Of the names, only one that begins as the text does can be there. -/
theorem only_name {a : List UInt8} (ha : spells a s) (hno : ¬ spells lit s)
    (honly : ∀ e ∈ parNames, a.take e.2.length = e.2.take a.length → e.2 = lit) :
    ∀ e ∈ parNames, ¬ spells e.2 s := fun e he h =>
  hno (honly e he (spells_compat ha h) ▸ h)

/-- **A text without a name** is right at the label `other`, behind letters. -/
theorem rightName_unnamed {a : List UInt8} (ha : spells a s) (ha61 : 61 ∉ a) (hp : p ≤ a.length)
    (hno : ∀ e ∈ parNames, ¬ spells e.2 s) : RightName s (otherLabel s p) :=
  rightName_other.mpr fun _ => ⟨not_mem_of_spells ha ha61 hp, nameType_other hno⟩

/-- A name that is none is right at the label `end` if no `=` follows. -/
theorem rightName_noName (hno : ∀ e ∈ parNames, ¬ spells e.2 s) (ht : type ≠ .parOther) :
    RightName s (endLabel s p type) ↔ NoNameAt s p := by
  have hother := nameType_other hno
  rw [rightName_end, NoNameAt, rightName_other, hother]
  by_cases hh : (trimLeading (s.drop p)).head? = some 61
  · simp [hh, ht.symm]
  · simp [hh, NonePassed]

theorem nameType_mem (hmem : (type, lit) ∈ parNames) {nm : List UInt8}
    (hnm : nm.map tolower = lit) : nameType nm = type := by
  have hfind : ∀ e ∈ parNames, parNames.find? (·.2 = e.2) = some e := by decide
  subst hnm
  rw [nameType, hfind _ hmem]
  rfl

theorem isWhite_tolower : ∀ c : UInt8, isWhite (tolower c) = isWhite c :=
  forall_byte (by decide +kernel)

/-- The letters of a name are not white. -/
theorem name_not_white (hmem : (type, lit) ∈ parNames) {nm : List UInt8}
    (hnm : nm.map tolower = lit) : ∀ c ∈ nm, isWhite c = false := by
  have hlit : ∀ e ∈ parNames, 32 ∉ e.2 ∧ 9 ∉ e.2 ∧ 13 ∉ e.2 ∧ 10 ∉ e.2 := by decide
  obtain ⟨h32, h9, h13, h10⟩ := hlit _ hmem
  intro c hc
  have hin : tolower c ∈ lit := hnm ▸ List.mem_map_of_mem hc
  rw [← isWhite_tolower]
  simp only [isWhite, Bool.or_eq_false_iff, decide_eq_false_iff_not]
  exact ⟨⟨⟨ne_of_mem_of_not_mem hin h32, ne_of_mem_of_not_mem hin h9⟩,
    ne_of_mem_of_not_mem hin h13⟩, ne_of_mem_of_not_mem hin h10⟩

theorem trimTrailing_append {a w : List UInt8} (ha : ∀ c ∈ a, isWhite c = false)
    (hw : ∀ c ∈ w, isWhite c) : trimTrailing (a ++ w) = a := by
  have hrev : a.reverse.dropWhile isWhite = a.reverse := by
    cases hr : a.reverse with
    | nil => rfl
    | cons c r =>
        have hc : c ∈ a := List.mem_reverse.mp (by simp [hr])
        rw [List.dropWhile_cons_of_neg (by simp [ha c hc])]
  rw [trimTrailing, List.rdropWhile, List.reverse_append,
    List.dropWhile_append_of_pos (fun c hc => hw c (List.mem_reverse.mp hc)), hrev,
    List.reverse_reverse]

/-- **A name of the list** is right at the label `end`, whether or not it ends there. -/
theorem rightName_named (hmem : (type, lit) ∈ parNames) (h : spells lit s) :
    RightName s (endLabel s lit.length type) ↔ GoesOn s lit.length := by
  have hlit61 : ∀ e ∈ parNames, 61 ∉ e.2 := by decide
  have h61 : 61 ∉ s.take lit.length := not_mem_of_spells h (hlit61 _ hmem) (Nat.le_refl _)
  rw [rightName_end, and_iff_left]
  by_cases hh : (trimLeading (s.drop lit.length)).head? = some 61
  · rw [if_pos hh]
    refine ⟨h61, nameType_mem hmem ?_⟩
    obtain ⟨r, hr⟩ := List.head?_eq_some_iff.mp hh
    have hcut : s = (s.take lit.length ++ (s.drop lit.length).takeWhile isWhite) ++ 61 :: r := by
      rw [← hr, List.append_assoc, trimLeading, List.takeWhile_append_dropWhile,
        List.take_append_drop]
    have hno : 61 ∉ s.take lit.length ++ (s.drop lit.length).takeWhile isWhite := by
      rw [List.mem_append, not_or]
      exact ⟨h61, fun hc => absurd (List.mem_takeWhile_imp hc) (by decide)⟩
    have htext : nameText s = s.take lit.length ++ (s.drop lit.length).takeWhile isWhite := by
      conv_lhs => rw [hcut]
      exact nameText_append hno
    rw [htext, trimTrailing_append (name_not_white hmem h) fun c hc => List.mem_takeWhile_imp hc]
    exact h
  · rw [if_neg hh, rightName_other]
    refine fun hin => ⟨h61, (nameType_cases _).resolve_right fun hnm => hh ?_⟩
    -- no name of the list begins another, so the `=` is the one behind this name
    have hfree : ∀ e ∈ parNames, ∀ f ∈ parNames,
        e.2.take f.2.length = f.2.take e.2.length → e.2 = f.2 := by decide
    have hsame : (trimTrailing (nameText s)).map tolower = lit :=
      hfree _ hnm _ hmem (spells_compat (spells_of_start (name_starts s)) h)
    have hlen : (trimTrailing (nameText s)).length = lit.length := by
      rw [← hsame, List.length_map]
    have hsplit := @List.rdropWhile_append_rtakeWhile _ isWhite (nameText s)
    obtain ⟨r, hr⟩ := nameText_ends (List.mem_of_mem_drop hin)
    have hdrop : s.drop lit.length = (nameText s).rtakeWhile isWhite ++ 61 :: r := by
      conv_lhs => rw [hr, ← hsplit, List.append_assoc]
      exact List.drop_left' hlen
    rw [hdrop, trimLeading, List.dropWhile_append_of_pos fun c hc => List.mem_rtakeWhile_imp hc]
    rfl

/-- The one name that begins as the text does is there and counts, or is not and does not. -/
theorem rightName_branch {a : List UInt8} (hmem : (type, lit) ∈ parNames) (ha : spells a s)
    (ha61 : 61 ∉ a) (hp : p ≤ a.length)
    (honly : ∀ e ∈ parNames, a.take e.2.length = e.2.take a.length → e.2 = lit) :
    RightName s (if spells lit s then endLabel s lit.length type else otherLabel s p) ↔
      (spells lit s → GoesOn s lit.length) := by
  by_cases h : spells lit s
  · rw [if_pos h, rightName_named hmem h]
    exact ⟨fun hgo _ => hgo, fun hgo => hgo h⟩
  · rw [if_neg h]
    exact iff_of_true (rightName_unnamed ha ha61 hp (only_name ha h honly)) fun h' => absurd h' h

/-- The four letters at `p` of a text without a name. -/
theorem respCase_unnamed (hno : ∀ e ∈ parNames, ¬ spells e.2 s) :
    RightName s (respCase s p) ↔ NoResponseAt s (p + 4) := by
  rw [respCase_eq, rightName_fault, NoResponseAt, apply_ite (RightName s),
    rightName_noName hno (by decide), rightName_other, nameType_other hno]
  simp [NonePassed]

end Names

/-! ## The cases -/

section Cases

variable {s : List UInt8}

theorem userCase_fits (h : spells (ascii "user") s) :
    RightName s (userCase s 0) ↔
      8 ≤ s.length ∧ (spells (ascii "username") s → GoesOn s 8) := by
  have hname : spells (ascii "username") s ↔ spells (ascii "name") (s.drop (0 + 4)) :=
    (@spells_add (ascii "user") (ascii "name") s).trans (and_iff_right h)
  rw [userCase_eq, rightName_fault]
  simp only [← hname]
  exact and_congr_right fun _ => rightName_branch (by decide) h (by decide) (by decide) (by decide)

theorem respCase_fits (h : spells (ascii "resp") s) :
    RightName s (respCase s 0) ↔
      8 ≤ s.length ∧ (spells (ascii "response") s → GoesOn s 8) := by
  have hname : spells (ascii "response") s ↔ spells (ascii "onse") (s.drop (0 + 4)) :=
    (@spells_add (ascii "resp") (ascii "onse") s).trans (and_iff_right h)
  rw [respCase_eq, rightName_fault]
  simp only [← hname]
  exact and_congr_right fun _ => rightName_branch (by decide) h (by decide) (by decide) (by decide)

theorem noncCase_fits (h : spells (ascii "nonc") s) :
    RightName s (noncCase s 0) ↔
      5 ≤ s.length ∧ if spells (ascii "nonce") s then GoesOn s 5 else NoResponseAt s 8 := by
  have hname : spells (ascii "nonce") s ↔ spells (ascii "e") (s.drop (0 + 4)) :=
    (@spells_add (ascii "nonc") (ascii "e") s).trans (and_iff_right h)
  rw [noncCase_eq, rightName_fault]
  simp only [← hname]
  refine and_congr_right fun _ => ?_
  by_cases hn : spells (ascii "nonce") s
  · rw [if_pos hn, if_pos hn]
    exact rightName_named (by decide) hn
  · rw [if_neg hn, if_neg hn]
    exact respCase_unnamed (only_name h hn (by decide))

theorem realCase_fits (h : spells (ascii "real") s) :
    RightName s (realCase s 0) ↔
      5 ≤ s.length ∧
        if spells (ascii "realm") s then GoesOn s 5
        else 9 ≤ s.length ∧
          if spells (ascii "e") (s.drop 8) then NoNameAt s 9 else NoResponseAt s 12 := by
  have hname : spells (ascii "realm") s ↔ spells (ascii "m") (s.drop (0 + 4)) :=
    (@spells_add (ascii "real") (ascii "m") s).trans (and_iff_right h)
  rw [realCase_eq, rightName_fault]
  simp only [← hname]
  refine and_congr_right fun _ => ?_
  by_cases hn : spells (ascii "realm") s
  · rw [if_pos hn, if_pos hn]
    exact rightName_named (by decide) hn
  · have hno := only_name h hn (by decide)
    rw [if_neg hn, if_neg hn, noncCase_eq, rightName_fault, apply_ite (RightName s),
      rightName_noName hno (by decide), respCase_unnamed hno]
    exact Iff.rfl

/-- `cnon_CASE` and `opaq_CASE`. -/
theorem letterCase_fits {letter : UInt8} {type : DigPar} {quad five name : List UInt8}
    (hl : IsSmall letter) (h4 : quad.length = 4) (hfive : five = quad ++ [letter])
    (hname : name = five ++ [101]) (hmem : (type, name) ∈ parNames) (h61 : 61 ∉ five)
    (honly : ∀ e ∈ parNames, quad.take e.2.length = e.2.take quad.length → e.2 = name)
    (honly5 : ∀ e ∈ parNames, five.take e.2.length = e.2.take five.length → e.2 = name)
    (h : spells quad s) :
    RightName s (letterCase letter type s 0) ↔
      5 ≤ s.length ∧ (spells five s → 6 ≤ s.length ∧ (spells name s → GoesOn s 6)) := by
  have h5 : five.length = 5 := by simp [hfive, h4]
  have h6 : name.length = 6 := by simp [hname, h5]
  have hletter : spells five s ↔ spells [letter] (s.drop (0 + 4)) := by
    rw [hfive, spells_add, h4]
    exact and_iff_right h
  rw [letterCase_eq hl, rightName_fault]
  refine and_congr_right fun _ => ?_
  by_cases hc : spells five s
  · have he : spells name s ↔ spells (ascii "e") (s.drop (0 + 4 + 1)) := by
      rw [hname, spells_add, h5]
      exact and_iff_right hc
    have hbranch := @rightName_branch s 5 type name five hmem hc h61 (by omega) honly5
    rw [h6] at hbranch
    rw [if_pos (hletter.mp hc), rightName_fault]
    simp only [← he]
    rw [forall_prop_of_true hc]
    exact and_congr_right fun _ => hbranch
  · have hno : ¬ spells name s := fun hn => hc (spells_add.mp (hname ▸ hn)).1
    have hq61 : 61 ∉ quad := fun hq => h61 (by simp [hfive, hq])
    rw [if_neg fun hc' => hc (hletter.mpr hc')]
    exact iff_of_true (rightName_unnamed h hq61 (by omega) (only_name h hno honly))
      fun hc' => absurd hc' hc

theorem algoCase_fits (h : spells (ascii "algo") s) :
    RightName s (algoCase s 0) ↔
      8 ≤ s.length ∧ (spells (ascii "algorith") s →
        9 ≤ s.length ∧ (spells (ascii "algorithm") s → GoesOn s 9)) := by
  have hrith : spells (ascii "algorith") s ↔ spells (ascii "rith") (s.drop (0 + 4)) :=
    (@spells_add (ascii "algo") (ascii "rith") s).trans (and_iff_right h)
  rw [algoCase_eq, rightName_fault]
  refine and_congr_right fun _ => ?_
  by_cases hr : spells (ascii "algorith") s
  · have hm : spells (ascii "algorithm") s ↔ spells (ascii "m") (s.drop (0 + 4 + 4)) :=
      (@spells_add (ascii "algorith") (ascii "m") s).trans (and_iff_right hr)
    rw [if_pos (hrith.mp hr), rightName_fault]
    simp only [← hm]
    rw [forall_prop_of_true hr]
    exact and_congr_right fun _ =>
      rightName_branch (by decide) hr (by decide) (by decide) (by decide)
  · have hno : ¬ spells (ascii "algorithm") s := fun hn =>
      hr (@spells_add (ascii "algorith") (ascii "m") s |>.mp hn).1
    rw [if_neg fun hr' => hr (hrith.mpr hr')]
    exact iff_of_true (rightName_unnamed h (by decide) (by decide) (only_name h hno (by decide)))
      fun hr' => absurd hr' hr

theorem parseShort_fits (hs : 4 ≤ s.length)
    (hquad : ∀ quad ∈ [ascii "user", ascii "real", ascii "nonc", ascii "resp", ascii "cnon",
      ascii "opaq", ascii "algo"], ¬ spells quad s) :
    RightName s (parseShort s 0) ↔
      (spells (ascii "uri") s → GoesOn s 3) ∧ (spells (ascii "qop") s → GoesOn s 3)
        ∧ (spells (ascii "nc") s → GoesOn s 2) := by
  rw [parseShort_eq hs]
  by_cases hu : spells (ascii "uri") s
  · have hright : RightName s (endLabel s 3 .parUri) ↔ GoesOn s 3 :=
      @rightName_named s .parUri (ascii "uri") (by decide) hu
    rw [if_pos hu, hright]
    simp [hu, @not_spells _ (ascii "qop") _ hu (by decide),
      @not_spells _ (ascii "nc") _ hu (by decide)]
  by_cases hq : spells (ascii "qop") s
  · have hright : RightName s (endLabel s 3 .parQop) ↔ GoesOn s 3 :=
      @rightName_named s .parQop (ascii "qop") (by decide) hq
    rw [if_neg hu, if_pos hq, hright]
    simp [hu, hq, @not_spells _ (ascii "nc") _ hq (by decide)]
  by_cases hn : spells (ascii "nc") s
  · have hright : RightName s (endLabel s 2 .parNc) ↔ GoesOn s 2 :=
      @rightName_named s .parNc (ascii "nc") (by decide) hn
    rw [if_neg hu, if_neg hq, if_pos hn, hright]
    simp [hu, hq, hn]
  · -- a name of four letters and more begins with one of the four letters above
    have hno : ∀ e ∈ parNames, ¬ spells e.2 s := by
      intro e he h
      have hlong : ∀ e ∈ parNames, e.2 = ascii "uri" ∨ e.2 = ascii "qop" ∨ e.2 = ascii "nc"
          ∨ ∃ quad ∈ [ascii "user", ascii "real", ascii "nonc", ascii "resp", ascii "cnon",
            ascii "opaq", ascii "algo"], e.2 = quad ++ e.2.drop 4 := by decide
      rcases hlong e he with h' | h' | h' | ⟨quad, hmem, h'⟩
      · exact hu (h' ▸ h)
      · exact hq (h' ▸ h)
      · exact hn (h' ▸ h)
      · rw [h'] at h
        exact hquad quad hmem (spells_add.mp h).1
    rw [if_neg hu, if_neg hq, if_neg hn]
    exact iff_of_true (@rightName_unnamed s 0 [] rfl (by simp) (Nat.le_refl _) hno)
      (by simp [hu, hq, hn])

end Cases

/-- **A name of the list** gets to the label `end` behind its letters. -/
theorem parseParamName_spelled {s lit : List UInt8} {type : DigPar}
    (hmem : (type, lit) ∈ parNames) (h : spells lit s) (hs : 4 ≤ s.length) :
    parseParamName s = endLabel s lit.length type := by
  have hlen := spells_length h
  -- the letters of the name are at their places, and no other name is
  have hat : ∀ a b, lit = a ++ b → spells a s ∧ spells b (s.drop a.length) := fun a b hab =>
    spells_add.mp (hab ▸ h)
  have hno : ∀ a, lit.take a.length ≠ a.take lit.length → ¬ spells a s := fun a => not_spells h
  rw [parseParamName_eq hs]
  simp only [parNames, List.mem_cons, Prod.mk.injEq, List.not_mem_nil, or_false] at hmem
  rcases hmem with ⟨rfl, rfl⟩ | ⟨rfl, rfl⟩ | ⟨rfl, rfl⟩ | ⟨rfl, rfl⟩ | ⟨rfl, rfl⟩ | ⟨rfl, rfl⟩
    | ⟨rfl, rfl⟩ | ⟨rfl, rfl⟩ | ⟨rfl, rfl⟩ | ⟨rfl, rfl⟩
  · obtain ⟨hq, hr⟩ := hat (ascii "user") (ascii "name") rfl
    rw [if_pos hq, userCase_eq, if_pos (show 0 + 4 + 4 ≤ s.length from hlen)]
    exact if_pos hr
  · obtain ⟨hq, hr⟩ := hat (ascii "real") (ascii "m") rfl
    rw [if_neg (hno (ascii "user") (by decide)), if_pos hq, realCase_eq,
      if_pos (show 0 + 4 < s.length from hlen)]
    exact if_pos hr
  · obtain ⟨hq, hr⟩ := hat (ascii "nonc") (ascii "e") rfl
    rw [if_neg (hno (ascii "user") (by decide)), if_neg (hno (ascii "real") (by decide)),
      if_pos hq, noncCase_eq, if_pos (show 0 + 4 < s.length from hlen)]
    exact if_pos hr
  · simp only [hno (ascii "user") (by decide), hno (ascii "real") (by decide),
      hno (ascii "nonc") (by decide), hno (ascii "resp") (by decide),
      hno (ascii "cnon") (by decide), hno (ascii "opaq") (by decide),
      hno (ascii "algo") (by decide), if_false, parseShort_eq hs, if_pos h]
    rfl
  · obtain ⟨hq, hr⟩ := hat (ascii "resp") (ascii "onse") rfl
    simp only [hno (ascii "user") (by decide), hno (ascii "real") (by decide),
      hno (ascii "nonc") (by decide), if_false, if_pos hq]
    rw [respCase_eq, if_pos (show 0 + 4 + 4 ≤ s.length from hlen)]
    exact if_pos hr
  · obtain ⟨hfive, hr⟩ := hat (ascii "cnonc") (ascii "e") rfl
    obtain ⟨hq, hc⟩ := (@spells_add (ascii "cnon") (ascii "c") s).mp hfive
    simp only [hno (ascii "user") (by decide), hno (ascii "real") (by decide),
      hno (ascii "nonc") (by decide), hno (ascii "resp") (by decide), if_false, if_pos hq]
    rw [cnonCase, letterCase_eq (by decide),
      if_pos (show 0 + 4 < s.length from Nat.lt_of_succ_lt hlen),
      if_pos (show spells [99] (s.drop (0 + 4)) from hc),
      if_pos (show 0 + 4 + 1 < s.length from hlen)]
    exact if_pos hr
  · obtain ⟨hfive, hr⟩ := hat (ascii "opaqu") (ascii "e") rfl
    obtain ⟨hq, hc⟩ := (@spells_add (ascii "opaq") (ascii "u") s).mp hfive
    simp only [hno (ascii "user") (by decide), hno (ascii "real") (by decide),
      hno (ascii "nonc") (by decide), hno (ascii "resp") (by decide),
      hno (ascii "cnon") (by decide), if_false, if_pos hq]
    rw [opaqCase, letterCase_eq (by decide),
      if_pos (show 0 + 4 < s.length from Nat.lt_of_succ_lt hlen),
      if_pos (show spells [117] (s.drop (0 + 4)) from hc),
      if_pos (show 0 + 4 + 1 < s.length from hlen)]
    exact if_pos hr
  · simp only [hno (ascii "user") (by decide), hno (ascii "real") (by decide),
      hno (ascii "nonc") (by decide), hno (ascii "resp") (by decide),
      hno (ascii "cnon") (by decide), hno (ascii "opaq") (by decide),
      hno (ascii "algo") (by decide), hno (ascii "uri") (by decide),
      if_false, parseShort_eq hs, if_pos h]
    rfl
  · simp only [hno (ascii "user") (by decide), hno (ascii "real") (by decide),
      hno (ascii "nonc") (by decide), hno (ascii "resp") (by decide),
      hno (ascii "cnon") (by decide), hno (ascii "opaq") (by decide),
      hno (ascii "algo") (by decide), hno (ascii "uri") (by decide),
      hno (ascii "qop") (by decide), if_false, parseShort_eq hs, if_pos h]
    rfl
  · obtain ⟨hrith, hm⟩ := hat (ascii "algorith") (ascii "m") rfl
    obtain ⟨hq, hr⟩ := (@spells_add (ascii "algo") (ascii "rith") s).mp hrith
    simp only [hno (ascii "user") (by decide), hno (ascii "real") (by decide),
      hno (ascii "nonc") (by decide), hno (ascii "resp") (by decide),
      hno (ascii "cnon") (by decide), hno (ascii "opaq") (by decide), if_false, if_pos hq]
    rw [algoCase_eq, if_pos (show 0 + 4 + 4 ≤ s.length from Nat.le_of_lt hlen),
      if_pos (show spells (ascii "rith") (s.drop (0 + 4)) from hr),
      if_pos (show 0 + 4 + 4 < s.length from hlen)]
    exact if_pos hm

/--
**The name of a parameter is read right** exactly when the letters the code looks at are
there and nothing makes it go from one name on to another.
-/
theorem parseParamName_right_iff (s : List UInt8) :
    RightName s (parseParamName s) ↔ NameFits s := by
  unfold NameFits
  by_cases hs : 4 ≤ s.length
  · rw [parseParamName_eq hs, and_iff_right hs]
    by_cases huser : spells (ascii "user") s
    · rw [if_pos huser, if_pos huser, userCase_fits huser]
    by_cases hreal : spells (ascii "real") s
    · rw [if_neg huser, if_neg huser, if_pos hreal, if_pos hreal, realCase_fits hreal]
    by_cases hnonc : spells (ascii "nonc") s
    · rw [if_neg huser, if_neg huser, if_neg hreal, if_neg hreal, if_pos hnonc, if_pos hnonc,
        noncCase_fits hnonc]
    rw [if_neg huser, if_neg huser, if_neg hreal, if_neg hreal, if_neg hnonc, if_neg hnonc]
    by_cases hresp : spells (ascii "resp") s
    · rw [if_pos hresp, if_pos hresp, respCase_fits hresp]
    by_cases hcnon : spells (ascii "cnon") s
    · rw [if_neg hresp, if_neg hresp, if_pos hcnon, if_pos hcnon]
      exact letterCase_fits (by decide) rfl rfl rfl (by decide) (by decide) (by decide)
        (by decide) hcnon
    by_cases hopaq : spells (ascii "opaq") s
    · rw [if_neg hresp, if_neg hresp, if_neg hcnon, if_neg hcnon, if_pos hopaq, if_pos hopaq]
      exact letterCase_fits (by decide) rfl rfl rfl (by decide) (by decide) (by decide)
        (by decide) hopaq
    rw [if_neg hresp, if_neg hresp, if_neg hcnon, if_neg hcnon, if_neg hopaq, if_neg hopaq]
    by_cases halgo : spells (ascii "algo") s
    · rw [if_pos halgo, if_pos halgo, algoCase_fits halgo]
    · rw [if_neg halgo, if_neg halgo]
      exact parseShort_fits hs
        (by simp [huser, hreal, hnonc, hresp, hcnon, hopaq, halgo])
  · have hfault : parseParamName s = .fault := by
      rw [parseParamName, readDword_fault (by omega)]
      rfl
    rw [hfault]
    exact iff_of_false not_rightName_fault fun h => hs h.1

/--
What is no realm is taken for a nonce if an `e` comes eight letters on, and four bytes are
read of a string of three.
-/
theorem reality_is_nonce :
    ¬ RightName (ascii "reality-e=1") (parseParamName (ascii "reality-e=1"))
      ∧ ¬ RightName (ascii "nc=") (parseParamName (ascii "nc=")) := by
  constructor
  · intro h
    have hres : parseParamName (ascii "reality-e=1") = .ok (.parNonce, ascii "=1") := by decide
    exact absurd (h.2 _ _ hres).2.2 (by decide)
  · intro h
    exact h.1 (by decide)

end Disc.Digest
