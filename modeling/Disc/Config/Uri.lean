import Disc.Lib.Text
import Disc.Server.Route

/-!
# AAA URIs

`aaa_parse_uri.c`. A URI is `aaa://`, a host, and after it a port and parameters if there
are any. The parser runs over it once, a state at a time; where it meets the name of a
parameter it knows, it jumps behind the `=`, and past the first character of the value
without looking at it.

A text of the grammar, `UriText`, is parsed into the pieces its parts say, and a text that is
none is refused. What is found for transport and protocol is not always what the grammar
says: the name may have something in front of it, and an empty value is not taken for one.
-/

namespace Disc.Config

open Disc.Lib Disc.Server

/-! ## The code -/

/-- A `str` that points into the buffer: where it starts, and `len`. -/
structure Str where
  s : Nat
  len : Nat
deriving Repr, DecidableEq

/-- The bytes of it. -/
def Str.of (c : Str) (buf : List UInt8) : Option (List UInt8) := slice buf c.s c.len

/-- The members of `struct aaa_uri` that `param` may point to. -/
inductive UriParam where
  | transport
  | protocol
deriving Repr, DecidableEq

/-- `struct aaa_uri`. -/
structure AaaUri where
  host : Option Str
  port : Option Str
  /-- All of the parameters. -/
  params : Option Str
  transport : Option Str
  protocol : Option Str
  portNo : UInt16
deriving Repr, DecidableEq

def AaaUri.zero : AaaUri := ⟨none, none, none, none, none, 0⟩

/-- `*param`. -/
def AaaUri.param (u : AaaUri) : UriParam → Option Str
  | .transport => u.transport
  | .protocol => u.protocol

def AaaUri.setParam (u : AaaUri) (k : UriParam) (c : Str) : AaaUri :=
  match k with
  | .transport => { u with transport := some c }
  | .protocol => { u with protocol := some c }

/-- `enum states`. -/
inductive UriState where
  | init
  | host
  | port
  | param
  | paramEat
  | paramVal
deriving Repr, DecidableEq

/-- The variables of the loop. -/
structure UriScan where
  state : UriState
  p : Nat
  s : Nat
  t : Nat
  par : Option UriParam
  portNo : UInt32
  uri : AaaUri
deriving Repr, DecidableEq

/-- `_RANSPORT_STR`. -/
def ransportStr : List UInt8 := ascii "ransport="

/-- `_ROTOCOL_STR`. -/
def rotocolStr : List UInt8 := ascii "rotocol="

/-- The first letter of a name: is it the whole name? -/
def uriName (buf : List UInt8) (x : UriScan) (k : UriParam) (name : List UInt8) : Res UriScan :=
  let l := buf.length - x.p - 1
  if name.length ≤ l then do
    let here ← Res.ofAccess (slice buf (x.p + 1) name.length)
    if strncasecmp here name name.length = 0 then
      let p := x.p + (name.length + 1)
      return { x with p := p, t := p, par := some k, state := .paramVal }
    else return { x with state := .paramEat }
  else return { x with state := .paramEat }

/-- The body of the loop. -/
def uriChar (buf : List UInt8) (x : UriScan) : Res UriScan :=
  match x.state with
  | .init => return { x with s := x.p, state := .host }
  | .host => do
      let c ← Res.ofAccess buf[x.p]?
      if c = 58 then
        return { x with uri := { x.uri with host := some ⟨x.s, x.p - x.s⟩ }, state := .port,
                        s := x.p + 1 }
      else if c = 59 then
        return { x with uri := { x.uri with host := some ⟨x.s, x.p - x.s⟩ }, state := .param,
                        s := x.p + 1 }
      else if c = 38 ∨ c = 64 ∨ c = 63 then .error
      else return x
  | .port => do
      let c ← Res.ofAccess buf[x.p]?
      if c = 59 then
        return { x with
          uri := { x.uri with port := some ⟨x.s, x.p - x.s⟩, portNo := x.portNo.toUInt16 }
          state := .param, s := x.p + 1 }
      else if isDigit c then return { x with portNo := x.portNo * 10 + (c - 48).toUInt32 }
      else .error
  | .param => do
      let c ← Res.ofAccess buf[x.p]?
      if c = 116 ∨ c = 84 then uriName buf x .transport ransportStr
      else if c = 112 ∨ c = 80 then uriName buf x .protocol rotocolStr
      -- also a new parameter and a value
      else return x
  | .paramEat => do
      let c ← Res.ofAccess buf[x.p]?
      if c = 59 then return { x with state := .param } else return x
  | .paramVal => do
      let c ← Res.ofAccess buf[x.p]?
      if c = 59 then do
        let k ← Res.ofAccess x.par
        return { x with state := .param, uri := x.uri.setParam k ⟨x.t, x.p - x.t⟩ }
      else return x

/-- The loop. -/
def uriLoop (buf : List UInt8) : Nat → UriScan → Res UriScan
  | 0, x => if x.p < buf.length then .diverge else .ok x
  | fuel + 1, x =>
      if x.p < buf.length then do
        let x ← uriChar buf x
        uriLoop buf fuel { x with p := x.p + 1 }
      else .ok x

/-- What follows the loop. -/
def uriEnd (x : UriScan) : Res AaaUri :=
  match x.state with
  | .init => .error
  | .host => return { x.uri with host := some ⟨x.s, x.p - x.s⟩ }
  | .port =>
      return { x.uri with port := some ⟨x.s, x.p - x.s⟩, portNo := x.portNo.toUInt16 }
  | .param | .paramEat => return { x.uri with params := some ⟨x.s, x.p - x.s⟩ }
  | .paramVal => do
      let k ← Res.ofAccess x.par
      return { x.uri with params := some ⟨x.s, x.p - x.s⟩ }.setParam k ⟨x.t, x.p - x.t⟩

/-- The start of a URI. -/
def isAaa (b : List UInt8) : Prop :=
  (b.take 3).map (· ||| 32) = ascii "aaa" ∧ b.drop 3 = ascii "://"

instance (b : List UInt8) : Decidable (isAaa b) := inferInstanceAs (Decidable (_ ∧ _))

/-- `aaa_parse_uri`. -/
def aaaParseUri (buf : List UInt8) : Res AaaUri :=
  if buf.length < 6 then .error
  else do
    let b ← Res.ofAccess (slice buf 0 6)
    if isAaa b then do
      let x ← uriLoop buf buf.length ⟨.init, 6, 0, 0, none, 0, .zero⟩
      uriEnd x
    else .error

/-! ## The grammar -/

/-- The name of a parameter. -/
def UriParam.name : UriParam → List UInt8
  | .transport => ascii "transport"
  | .protocol => ascii "protocol"

/-- The characters a host ends at, or may not contain. -/
def hostStop (c : UInt8) : Prop := c ∈ ascii ":;&@?"

instance : DecidablePred hostStop := fun c => inferInstanceAs (Decidable (c ∈ _))

/-- A URI in its parts; a parameter is all there is up to the next `;`. -/
structure UriText where
  scheme : List UInt8
  host : List UInt8
  port : Option (List UInt8)
  params : List (List UInt8)
deriving Repr, DecidableEq

def UriText.bytes (t : UriText) : List UInt8 :=
  t.scheme ++ (t.host ++ (t.port.elim [] (58 :: ·) ++ t.params.flatMap (59 :: ·)))

/-- What the parser accepts; it does not look at the first character of the host. -/
structure UriText.Grammatical (t : UriText) : Prop where
  scheme : t.scheme.length = 6 ∧ isAaa t.scheme
  host : ∃ c h, t.host = c :: h ∧ ∀ x ∈ h, ¬ hostStop x
  port : ∀ ds ∈ t.port, ∀ d ∈ ds, isDigit d
  params : ∀ s ∈ t.params, 59 ∉ s

theorem hostStop_iff {c : UInt8} : hostStop c ↔ c = 58 ∨ c = 59 ∨ c = 38 ∨ c = 64 ∨ c = 63 := by
  rw [hostStop, show ascii ":;&@?" = [58, 59, 38, 64, 63] by rfl]
  simp

/-- A byte that makes the parser look for the name of a parameter. -/
def startsName (c : UInt8) : Prop := c ∈ ascii "tTpP"

instance : DecidablePred startsName := fun c => inferInstanceAs (Decidable (c ∈ _))

/-- A parameter that the parser takes for one it knows. -/
structure Taken where
  kind : UriParam
  /-- The bytes in front of the name. -/
  junk : Nat
  /-- There is something behind the `=`. -/
  hasValue : Bool
  /-- What is found for the value. -/
  piece : Str
deriving Repr, DecidableEq

/-- The name after the bytes that are passed over: which one, how many bytes, and the value. -/
def takeName (seg : List UInt8) : Option (UriParam × Nat × List UInt8) :=
  let rest := seg.dropWhile (¬ startsName ·)
  let junk := (seg.takeWhile (¬ startsName ·)).length
  if spells (UriParam.transport.name ++ [61]) rest then some (.transport, junk, rest.drop 10)
  else if spells (UriParam.protocol.name ++ [61]) rest then some (.protocol, junk, rest.drop 9)
  else none

/--
The parameters that are taken, the first segment being at `a`. One with an empty value has
the next segment for its value, and where there is none, one byte beyond the end.
-/
def takenFrom (a : Nat) : List (List UInt8) → List Taken
  | [] => []
  | seg :: segs =>
      match takeName seg, segs with
      | none, segs => takenFrom (a + seg.length + 1) segs
      | some (k, j, []), [] => [⟨k, j, false, ⟨a + seg.length, 1⟩⟩]
      | some (k, j, []), next :: segs =>
          ⟨k, j, false, ⟨a + seg.length, next.length + 1⟩⟩
            :: takenFrom (a + seg.length + 1 + next.length + 1) segs
      | some (k, j, v), segs =>
          ⟨k, j, true, ⟨a + seg.length - v.length, v.length⟩⟩
            :: takenFrom (a + seg.length + 1) segs

/-- Where the host and the port end. -/
def UriText.hostEnd (t : UriText) : Nat := 6 + t.host.length

def UriText.portEnd (t : UriText) : Nat := t.hostEnd + t.port.elim 0 (1 + ·.length)

def UriText.taken (t : UriText) : List Taken := takenFrom (t.portEnd + 1) t.params

/-- Everything that is taken, stored one after another. -/
def AaaUri.takes (u : AaaUri) (ts : List Taken) : AaaUri :=
  ts.foldl (fun u x => u.setParam x.kind x.piece) u

/-- Where the parser stops: at the end of the text, or at that of a piece beyond it. -/
def stopOf (e : Nat) (ts : List Taken) : Nat :=
  ts.foldl (fun e x => max e (x.piece.s + x.piece.len)) e

/-- What is found last for a parameter. -/
def lastOf (k : UriParam) (ts : List Taken) : Option Taken := (ts.filter (·.kind = k)).getLast?

/-- What the parser makes of a text of the grammar. -/
def UriText.uri (t : UriText) : AaaUri where
  host := some ⟨6, t.host.length⟩
  port := t.port.map fun ds => ⟨t.hostEnd + 1, ds.length⟩
  params :=
    if t.params = [] then none
    else some ⟨t.portEnd + 1, stopOf t.bytes.length t.taken - (t.portEnd + 1)⟩
  transport := (lastOf .transport t.taken).map Taken.piece
  protocol := (lastOf .protocol t.taken).map Taken.piece
  portNo := UInt16.ofNat (t.port.elim 0 decValue)

/-! ## Names of parameters -/

theorem startsName_iff {c : UInt8} : startsName c ↔ c = 116 ∨ c = 84 ∨ c = 112 ∨ c = 80 := by
  rw [startsName, show ascii "tTpP" = [116, 84, 112, 80] by rfl]
  simp

theorem tolower_eq_iff (c : UInt8) : tolower c = 61 ↔ c = 61 :=
  forall_byte (P := fun c => tolower c = 61 ↔ c = 61) (by decide +kernel) c

theorem tolower_t (c : UInt8) : tolower c = 116 ↔ c = 116 ∨ c = 84 :=
  forall_byte (P := fun c => tolower c = 116 ↔ c = 116 ∨ c = 84) (by decide +kernel) c

theorem tolower_p (c : UInt8) : tolower c = 112 ↔ c = 112 ∨ c = 80 :=
  forall_byte (P := fun c => tolower c = 112 ↔ c = 112 ∨ c = 80) (by decide +kernel) c

theorem startsName_tolower (c : UInt8) : startsName c ↔ tolower c = 116 ∨ tolower c = 112 := by
  rw [startsName_iff, tolower_t, tolower_p, or_assoc]

/-- A name and its `=`, at the start of a text. -/
theorem spells_name {name text : List UInt8} :
    spells (name ++ [61]) text ↔ ∃ nm v, text = nm ++ 61 :: v ∧ nm.map tolower = name := by
  unfold spells
  constructor
  · intro h
    obtain ⟨nm, l, hnm, hl, hlow⟩ := List.map_eq_append_iff.mp h
    obtain ⟨e, rfl, he⟩ := List.map_eq_singleton_iff.mp hlow
    refine ⟨nm, text.drop (name ++ [61]).length, ?_, hl⟩
    rw [(tolower_eq_iff e).mp he] at hnm
    rw [← List.singleton_append, ← List.append_assoc, ← hnm, List.take_append_drop]
  · rintro ⟨nm, v, rfl, rfl⟩
    have hlen : (nm.map tolower ++ [61]).length = (nm ++ [61]).length := by simp
    rw [hlen, List.append_cons nm 61 v, List.take_left]
    simp [tolower]

theorem takeName_junk {junk : List UInt8} (hj : ∀ c ∈ junk, ¬ startsName c) :
    takeName junk = none := by
  have hd : junk.dropWhile (¬ startsName ·) = [] := List.dropWhile_eq_nil_iff.mpr (by simpa using hj)
  unfold takeName
  rw [hd]
  rfl

theorem takeName_cons {junk rest : List UInt8} {c : UInt8} (hj : ∀ c ∈ junk, ¬ startsName c)
    (hc : startsName c) :
    takeName (junk ++ c :: rest) =
      if spells (UriParam.transport.name ++ [61]) (c :: rest) then
        some (.transport, junk.length, rest.drop 9)
      else if spells (UriParam.protocol.name ++ [61]) (c :: rest) then
        some (.protocol, junk.length, rest.drop 8)
      else none := by
  unfold takeName
  rw [List.dropWhile_append_of_pos (by simpa using hj), List.takeWhile_append_of_pos (by simpa using hj)]
  simp [hc]

theorem takeName_transport {junk rest : List UInt8} {c : UInt8} (hj : ∀ c ∈ junk, ¬ startsName c)
    (hc : tolower c = 116) :
    takeName (junk ++ c :: rest) =
      if spells ransportStr rest then some (.transport, junk.length, rest.drop 9) else none := by
  have ht : spells (UriParam.transport.name ++ [61]) (c :: rest) ↔ spells ransportStr rest := by
    rw [show UriParam.transport.name ++ [61] = 116 :: ransportStr by rfl]
    simp [spells, hc]
  have hp : ¬ spells (UriParam.protocol.name ++ [61]) (c :: rest) := by
    intro h
    have hc' : tolower c = 112 := (List.cons.inj h).1
    exact absurd (hc.symm.trans hc') (by decide)
  rw [takeName_cons hj ((startsName_tolower c).mpr (.inl hc)), if_neg hp]
  simp only [ht]

theorem takeName_protocol {junk rest : List UInt8} {c : UInt8} (hj : ∀ c ∈ junk, ¬ startsName c)
    (hc : tolower c = 112) :
    takeName (junk ++ c :: rest) =
      if spells rotocolStr rest then some (.protocol, junk.length, rest.drop 8) else none := by
  have hp : spells (UriParam.protocol.name ++ [61]) (c :: rest) ↔ spells rotocolStr rest := by
    rw [show UriParam.protocol.name ++ [61] = 112 :: rotocolStr by rfl]
    simp [spells, hc]
  have ht : ¬ spells (UriParam.transport.name ++ [61]) (c :: rest) := by
    intro h
    have hc' : tolower c = 116 := (List.cons.inj h).1
    exact absurd (hc.symm.trans hc') (by decide)
  rw [takeName_cons hj ((startsName_tolower c).mpr (.inr hc)), if_neg ht]
  simp only [hp]

/-- A name that is taken is spelt behind the bytes that are passed over. -/
theorem takeName_some {seg v : List UInt8} {k : UriParam} {j : Nat}
    (h : takeName seg = some (k, j, v)) :
    ∃ junk nm, seg = junk ++ (nm ++ 61 :: v) ∧ junk.length = j ∧ (∀ c ∈ junk, ¬ startsName c)
      ∧ nm.map tolower = k.name := by
  obtain ⟨junk, rest, rfl, hj, hrest⟩ := exists_chunk startsName seg
  obtain rfl | ⟨c, rest, rfl, hc⟩ := hrest
  · rw [List.append_nil, takeName_junk hj] at h
    exact absurd h (by simp)
  · rw [takeName_cons hj hc] at h
    have key : ∀ (k' : UriParam) (v' : List UInt8), v' = (c :: rest).drop (k'.name.length + 1) →
        spells (k'.name ++ [61]) (c :: rest) → some (k', junk.length, v') = some (k, j, v) →
        ∃ junk' nm, junk ++ c :: rest = junk' ++ (nm ++ 61 :: v) ∧ junk'.length = j
          ∧ (∀ c ∈ junk', ¬ startsName c) ∧ nm.map tolower = k.name := by
      intro k' v' hv hs heq
      obtain ⟨nm, w, hnm, hlow⟩ := spells_name.mp hs
      obtain ⟨rfl, rfl, rfl⟩ : k' = k ∧ junk.length = j ∧ v' = v := by simpa using heq
      have hlen := congrArg List.length hlow
      rw [List.length_map] at hlen
      have hw : v' = w := by
        rw [hv, hnm, List.append_cons nm 61 w, List.drop_left' (by simp [hlen])]
      exact ⟨junk, nm, by rw [hnm, hw], rfl, hj, hlow⟩
    split at h
    · rename_i hs
      exact key .transport _ rfl hs h
    · split at h
      · rename_i hs
        exact key .protocol _ rfl hs h
      · exact absurd h (by simp)

/-- A parameter with a name that is known is taken. -/
theorem takeName_spelt {nm v : List UInt8} {k : UriParam} (hn : nm.map tolower = k.name) :
    takeName (nm ++ 61 :: v) = some (k, 0, v) := by
  have hlen := congrArg List.length hn
  rw [List.length_map] at hlen
  cases nm with
  | nil => cases k with
    | transport | protocol => exact absurd hlen (by decide)
  | cons c nm =>
    have hdrop : ∀ n, n = nm.length + 1 → (nm ++ 61 :: v).drop n = v := by
      rintro n rfl
      rw [List.append_cons nm 61 v, List.drop_left' (by simp)]
    cases k with
    | transport =>
      obtain ⟨hc, hnm⟩ := List.cons.inj hn
      have hs : spells ransportStr (nm ++ 61 :: v) := spells_name.mpr ⟨nm, v, rfl, hnm⟩
      have h := @takeName_transport [] (nm ++ 61 :: v) _ (by simp) hc
      rwa [if_pos hs, hdrop 9 hlen.symm] at h
    | protocol =>
      obtain ⟨hc, hnm⟩ := List.cons.inj hn
      have hs : spells rotocolStr (nm ++ 61 :: v) := spells_name.mpr ⟨nm, v, rfl, hnm⟩
      have h := @takeName_protocol [] (nm ++ 61 :: v) _ (by simp) hc
      rwa [if_pos hs, hdrop 8 hlen.symm] at h

/-! ## Running the loop -/

section Scan

variable {buf : List UInt8} {x y : UriScan} {r : Res AaaUri}

/-- From here the loop ends, and the parser comes to `r`. -/
def Parses (buf : List UInt8) (x : UriScan) (r : Res AaaUri) : Prop :=
  ∀ fuel, buf.length ≤ x.p + fuel → (do let x ← uriLoop buf fuel x; uriEnd x) = r

theorem parses_stop (hp : buf.length ≤ x.p) : Parses buf x r ↔ uriEnd x = r := by
  have h : ∀ fuel, (do let x ← uriLoop buf fuel x; uriEnd x) = uriEnd x := by
    intro fuel
    cases fuel with
    | zero => rw [uriLoop, if_neg (by omega)]; rfl
    | succ fuel => rw [uriLoop, if_neg (by omega)]; rfl
  exact ⟨fun hr => (h 0).symm.trans (hr 0 hp), fun hr fuel _ => (h fuel).trans hr⟩

theorem Parses.char (hp : x.p < buf.length) (hc : uriChar buf x = .ok y) (hy : x.p ≤ y.p)
    (h : Parses buf { y with p := y.p + 1 } r) : Parses buf x r := by
  intro fuel hf
  cases fuel with
  | zero => omega
  | succ fuel =>
      rw [uriLoop, if_pos hp, hc]
      exact h fuel (by simp only; omega)

theorem Parses.next (hp : x.p < buf.length) (hc : uriChar buf x = .ok y) (hy : y.p = x.p)
    (h : Parses buf x r) : Parses buf { y with p := y.p + 1 } r := by
  intro fuel hf
  have hr := h (fuel + 1) (by simp only at hf; omega)
  rw [uriLoop, if_pos hp, hc] at hr
  exact hr

theorem Parses.refuse (hp : x.p < buf.length) (hc : uriChar buf x = .error) :
    Parses buf x .error := by
  intro fuel hf
  cases fuel with
  | zero => omega
  | succ fuel => rw [uriLoop, if_pos hp, hc]; rfl

/-- A run of bytes that only move the position on. -/
theorem Parses.over {a b : List UInt8} (hd : buf.drop x.p = a ++ b)
    (hc : ∀ q, ∀ c ∈ a, buf[q]? = some c → uriChar buf { x with p := q } = .ok { x with p := q })
    (h : Parses buf { x with p := x.p + a.length } r) : Parses buf x r := by
  induction a generalizing x with
  | nil => exact h
  | cons c a ih =>
      obtain ⟨hp, hget, hd'⟩ := getElem?_of_drop hd
      refine Parses.char hp (hc x.p c List.mem_cons_self hget) (Nat.le_refl _) (ih hd' ?_ ?_)
      · exact fun q d hd hq => hc q d (List.mem_cons_of_mem _ hd) hq
      · rw [List.length_cons] at h
        rw [show x.p + 1 + a.length = x.p + (a.length + 1) by omega]
        exact h

/-! ### Names -/

theorem spells_append {lit a tail : List UInt8} (ht : Ends 59 tail) (hlit : 59 ∉ lit) :
    spells lit (a ++ tail) ↔ spells lit a := by
  unfold spells
  by_cases hle : lit.length ≤ a.length
  · rw [List.take_append_of_le_length hle]
  · -- the literal would have to go on in the tail
    refine iff_of_false ?_ ?_
    · intro h
      obtain rfl | ⟨q, rfl⟩ := ht
      · have hl := congrArg List.length h
        simp at hl
        omega
      · apply hlit
        rw [← h, List.take_append, List.map_append]
        refine List.mem_append_right _ ?_
        rw [show lit.length - a.length = (lit.length - a.length - 1) + 1 by omega]
        simp [tolower]
    · intro h
      have hl := congrArg List.length h
      simp at hl
      omega

theorem uriName_eq {k : UriParam} {lit text : List UInt8} (hp : x.p < buf.length)
    (hd : buf.drop (x.p + 1) = text) (hlow : lit.map tolower = lit) (hz : 0 ∉ lit) :
    (spells lit text → uriName buf x k lit = .ok
        { x with p := x.p + (lit.length + 1), t := x.p + (lit.length + 1), par := some k
                 state := .paramVal })
      ∧ (¬ spells lit text → uriName buf x k lit = .ok { x with state := .paramEat }) := by
  have hlen : buf.length - x.p - 1 = text.length := by
    rw [← hd, List.length_drop]
    omega
  unfold uriName spells
  simp only [hlen]
  by_cases hle : lit.length ≤ text.length
  · have hs : slice buf (x.p + 1) lit.length = some (text.take lit.length) := by
      rw [slice, if_pos (by omega), hd]
    have hcmp := strncasecmp_literal (s := text.take lit.length) (t := lit) (by rwa [hlow])
    rw [hlow, List.take_take, Nat.min_self] at hcmp
    rw [if_pos hle, hs, Res.ofAccess_some, Res.ok_bind]
    exact ⟨fun h => by rw [if_pos (hcmp.mpr h)]; rfl, fun h => by rw [if_neg (mt hcmp.mp h)]; rfl⟩
  · rw [if_neg hle]
    refine ⟨fun h => ?_, fun _ => rfl⟩
    have hl := congrArg List.length h
    simp at hl
    omega

/-! ### Parameters -/

/-- A `;` between parameters is passed over. -/
theorem uriChar_semicolon (hget : buf[x.p]? = some 59) :
    uriChar buf { x with state := .param } = .ok { x with state := .param } := by
  simp [uriChar, hget]

/-- Before a `;` or the end it makes no difference that the segment was passed over. -/
theorem Parses.eaten (hst : x.state = .paramEat) (ht : Ends 59 (buf.drop x.p))
    (h : Parses buf { x with state := .param } r) : Parses buf x r := by
  obtain hd | ⟨tail, hd⟩ := ht
  · have hp := List.drop_eq_nil_iff.mp hd
    rw [parses_stop hp, ← (parses_stop (x := { x with state := .param }) hp).mp h]
    simp only [uriEnd, hst]
  · obtain ⟨hp, hget, -⟩ := getElem?_of_drop hd
    have heat : uriChar buf x = .ok { x with state := .param } := by simp [uriChar, hst, hget]
    exact .char hp heat (Nat.le_refl _)
      (.next (x := { x with state := .param }) hp (uriChar_semicolon hget) rfl h)

/-- Nor that a value was read, once it is stored. -/
theorem Parses.valued {k : UriParam} (hst : x.state = .paramVal) (hk : x.par = some k)
    (ht : Ends 59 (buf.drop x.p))
    (h : Parses buf { x with state := .param, uri := x.uri.setParam k ⟨x.t, x.p - x.t⟩ } r) :
    Parses buf x r := by
  let y : UriScan :=
    { x with state := .param, uri := x.uri.setParam k ⟨x.t, x.p - x.t⟩ }
  obtain hd | ⟨tail, hd⟩ := ht
  · have hp := List.drop_eq_nil_iff.mp hd
    rw [parses_stop hp, ← (parses_stop (x := y) hp).mp h]
    simp only [uriEnd, hst, hk, y]
    cases k with
    | transport | protocol => rfl
  · obtain ⟨hp, hget, -⟩ := getElem?_of_drop hd
    have hval : uriChar buf x
        = .ok { x with state := .param, uri := x.uri.setParam k ⟨x.t, x.p - x.t⟩ } := by
      simp [uriChar, hst, hget, hk]
    exact .char hp hval (Nat.le_refl _)
      (.next (x := y) hp (uriChar_semicolon (x := y) hget) rfl h)

/-- The first letter of a name: the name follows, or the segment is passed over. -/
theorem Parses.named {k : UriParam} {lit rest tail : List UInt8} {c : UInt8}
    (hch : uriChar buf x = uriName buf x k lit) (hd : buf.drop x.p = c :: (rest ++ tail))
    (ht : Ends 59 tail) (hno : 59 ∉ rest) (hlow : lit.map tolower = lit)
    (hz : 0 ∉ lit) (h59 : 59 ∉ lit)
    (heat : ¬ spells lit rest →
      Parses buf { x with p := x.p + (1 + rest.length), state := .paramEat } r)
    (hval : spells lit rest → Parses buf
      { x with p := x.p + (lit.length + 1) + 1, t := x.p + (lit.length + 1), par := some k
               state := .paramVal } r) :
    Parses buf x r := by
  obtain ⟨hp, -, hd'⟩ := getElem?_of_drop hd
  have hname := uriName_eq (k := k) hp hd' hlow hz
  rw [spells_append ht h59] at hname
  by_cases hs : spells lit rest
  · refine Parses.char hp (hch.trans (hname.1 hs)) ?_ (hval hs)
    simp only
    omega
  · refine Parses.char hp (hch.trans (hname.2 hs)) (Nat.le_refl _) (Parses.over hd' ?_ ?_)
    · intro q d hd hq
      have hne : d ≠ 59 := fun h => hno (h ▸ hd)
      simp [uriChar, hq, hne]
    · have h := heat hs
      rw [← Nat.add_assoc] at h
      exact h

/-- One segment of the parameters. -/
theorem Parses.segment {seg tail : List UInt8} (hst : x.state = .param)
    (hd : buf.drop x.p = seg ++ tail) (ht : Ends 59 tail) (hno : 59 ∉ seg)
    (hnone : takeName seg = none → Parses buf { x with p := x.p + seg.length } r)
    (hsome : ∀ k j v, takeName seg = some (k, j, v) → Parses buf
      { x with p := x.p + (seg.length - v.length) + 1, t := x.p + (seg.length - v.length)
               par := some k, state := .paramVal } r) :
    Parses buf x r := by
  obtain ⟨junk, rest, rfl, hj, hrest⟩ := exists_chunk startsName seg
  have htail : buf.drop (x.p + (junk ++ rest).length) = tail := drop_of_append hd
  rw [List.append_assoc] at hd
  refine Parses.over hd ?_ ?_
  · intro q c hc hq
    have hne := hj c hc
    rw [startsName_iff, not_or, not_or, not_or] at hne
    simp [uriChar, hst, hq, hne]
  · have hd' := drop_of_append hd
    obtain rfl | ⟨c, rest, rfl, hc⟩ := hrest
    · have h := hnone (takeName_junk (by simpa using hj))
      rw [List.append_nil] at h
      exact h
    · obtain ⟨hp, hget, -⟩ := getElem?_of_drop hd'
      have hno' : 59 ∉ rest := fun h => hno (by simp [h])
      have key : ∀ (k : UriParam) (lit : List UInt8),
          takeName (junk ++ c :: rest) =
            (if spells lit rest then some (k, junk.length, rest.drop lit.length) else none) →
          uriChar buf { x with p := x.p + junk.length }
            = uriName buf { x with p := x.p + junk.length } k lit →
          lit.map tolower = lit → 0 ∉ lit → 59 ∉ lit →
          Parses buf { x with p := x.p + junk.length } r := by
        intro k lit htake hch hlow hz h59
        refine Parses.named hch hd' ht hno' hlow hz h59 ?_ ?_
        · intro hs
          have h := hnone (htake.trans (if_neg hs))
          rw [show x.p + (junk ++ c :: rest).length = x.p + junk.length + (1 + rest.length) by
            simp; omega] at h htail
          refine Parses.eaten rfl ?_ ?_
          · simp only [htail]
            exact ht
          · simp only [hst] at h
            exact h
        · intro hs
          have h := hsome _ _ _ (htake.trans (if_pos hs))
          have hle : lit.length ≤ rest.length := by
            have hl := congrArg List.length hs
            simp at hl
            omega
          rw [show x.p + ((junk ++ c :: rest).length - (rest.drop lit.length).length)
            = x.p + junk.length + (lit.length + 1) by simp; omega] at h
          exact h
      rcases (startsName_tolower c).mp hc with hlow | hlow
      · refine key .transport ransportStr (takeName_transport hj hlow) ?_ (by decide) (by decide)
          (by decide)
        simp only [uriChar, hst, hget, Res.ofAccess_some, Res.ok_bind]
        rw [if_pos ((tolower_t c).mp hlow)]
      · refine key .protocol rotocolStr (takeName_protocol hj hlow) ?_ (by decide) (by decide)
          (by decide)
        have hnot : ¬ (c = 116 ∨ c = 84) := by
          rw [← tolower_t, hlow]
          decide
        simp only [uriChar, hst, hget, Res.ofAccess_some, Res.ok_bind]
        rw [if_neg hnot, if_pos ((tolower_p c).mp hlow)]

/-- A value up to the end of its segment. -/
theorem Parses.value {k : UriParam} {v tail : List UInt8} (hst : x.state = .paramVal)
    (hk : x.par = some k) (hd : buf.drop x.p = v ++ tail) (ht : Ends 59 tail) (hno : 59 ∉ v)
    (h : Parses buf { x with p := x.p + v.length, state := .param
                             uri := x.uri.setParam k ⟨x.t, x.p + v.length - x.t⟩ } r) :
    Parses buf x r := by
  refine Parses.over hd ?_ (Parses.valued hst hk ?_ h)
  · intro q c hc hq
    have hne : c ≠ 59 := fun h => hno (h ▸ hc)
    simp [uriChar, hst, hq, hne]
  · rw [drop_of_append hd]
    exact ht

/-- What the first segment is and where the others are. -/
theorem drop_segment {p : Nat} {seg : List UInt8} {segs : List (List UInt8)}
    (hd : buf.drop p = (seg :: segs).flatMap (59 :: ·)) :
    buf.drop p = 59 :: (seg ++ segs.flatMap (59 :: ·))
      ∧ buf.drop (p + 1) = seg ++ segs.flatMap (59 :: ·)
      ∧ buf.drop (p + 1 + seg.length) = segs.flatMap (59 :: ·)
      ∧ p + 1 + seg.length ≤ buf.length := by
  have hcons : buf.drop p = 59 :: (seg ++ segs.flatMap (59 :: ·)) := hd
  obtain ⟨hp, -, hseg⟩ := getElem?_of_drop hcons
  have hlen := congrArg List.length hseg
  rw [List.length_drop, List.length_append] at hlen
  exact ⟨hcons, hseg, drop_of_append hseg, by omega⟩

/-- The `;` and one segment of the parameters. -/
theorem Parses.parameter {seg : List UInt8} {segs : List (List UInt8)} (hst : x.state = .param)
    (hd : buf.drop x.p = (seg :: segs).flatMap (59 :: ·)) (hno : 59 ∉ seg)
    (hnone : takeName seg = none → Parses buf { x with p := x.p + 1 + seg.length } r)
    (hsome : ∀ k j v, takeName seg = some (k, j, v) → Parses buf
      { x with p := x.p + 1 + (seg.length - v.length) + 1, t := x.p + 1 + (seg.length - v.length)
               par := some k, state := .paramVal } r) :
    Parses buf x r := by
  have hcons : buf.drop x.p = 59 :: (seg ++ segs.flatMap (59 :: ·)) := hd
  obtain ⟨hp, hget, hseg⟩ := getElem?_of_drop hcons
  have hstay : uriChar buf x = .ok x := by simp [uriChar, hst, hget]
  exact .char hp hstay (Nat.le_refl _) (.segment hst hseg (Ends.flatMap segs) hno hnone hsome)

theorem stopOf_cons {e : Nat} {t : Taken} {ts : List Taken} (ht : t.piece.s + t.piece.len ≤ e) :
    stopOf e (t :: ts) = stopOf e ts := by
  rw [stopOf, List.foldl_cons, Nat.max_eq_left ht]
  rfl

/-- **The parameters**, read from the `;` in front of them. -/
theorem parses_params {segs : List (List UInt8)} (hst : x.state = .param) (hle : x.p ≤ buf.length)
    (hd : buf.drop x.p = segs.flatMap (59 :: ·)) (hno : ∀ seg ∈ segs, 59 ∉ seg)
    {a : Nat} (ha : x.p + 1 = a) :
    Parses buf x (.ok { x.uri.takes (takenFrom a segs) with
      params := some ⟨x.s, stopOf buf.length (takenFrom a segs) - x.s⟩ }) := by
  induction a, segs using takenFrom.induct generalizing x with
  | case1 a =>
    have hp : buf.length ≤ x.p := List.drop_eq_nil_iff.mp hd
    rw [parses_stop hp, uriEnd, hst, Nat.le_antisymm hle hp]
    rfl
  | case2 a seg segs hn ih =>
    subst ha
    obtain ⟨hseg, hsegs⟩ := List.forall_mem_cons.mp hno
    obtain ⟨-, -, hrest, hend⟩ := drop_segment hd
    refine Parses.parameter hst hd hseg ?_ ?_
    · intro _
      rw [takenFrom.eq_2 _ seg segs hn]
      exact ih (x := { x with p := x.p + 1 + seg.length }) hst hend hrest hsegs rfl
    · intro k j v hs
      exact absurd (hn.symm.trans hs) (by simp)
  | case3 a seg k j hn =>
    -- the value is empty, and the parser is one byte beyond the end
    subst ha
    obtain ⟨-, -, hrest, hend⟩ := drop_segment hd
    have hp : buf.length ≤ x.p + 1 + seg.length := List.drop_eq_nil_iff.mp hrest
    refine Parses.parameter hst hd (hno seg List.mem_cons_self) ?_ ?_
    · intro hs
      exact absurd (hn.symm.trans hs) (by simp)
    · intro k' j' v' hs
      obtain ⟨rfl, rfl, rfl⟩ : k = k' ∧ j = j' ∧ [] = v' := by simpa using hn.symm.trans hs
      rw [takenFrom.eq_3 _ seg k j hn, parses_stop (by simp only [List.length_nil]; omega)]
      have hstop : stopOf buf.length [⟨k, j, false, ⟨x.p + 1 + seg.length, 1⟩⟩]
          = x.p + 1 + seg.length + 1 := by
        simp only [stopOf, List.foldl_cons, List.foldl_nil]
        omega
      rw [hstop]
      cases k with
      | transport | protocol =>
        simp [uriEnd, AaaUri.takes, AaaUri.setParam]
  | case4 a seg k j next segs hn ih =>
    subst ha
    obtain ⟨hseg, hno'⟩ := List.forall_mem_cons.mp hno
    obtain ⟨hnext, hsegs⟩ := List.forall_mem_cons.mp hno'
    obtain ⟨-, -, hrest, hend⟩ := drop_segment hd
    -- the `;` is the character that is not looked at
    obtain ⟨-, hval, hrest', hend'⟩ := drop_segment hrest
    refine Parses.parameter hst hd hseg ?_ ?_
    · intro hs
      exact absurd (hn.symm.trans hs) (by simp)
    · intro k' j' v' hs
      obtain ⟨rfl, rfl, rfl⟩ : k = k' ∧ j = j' ∧ [] = v' := by simpa using hn.symm.trans hs
      refine Parses.value rfl rfl hval (Ends.flatMap segs) hnext ?_
      rw [takenFrom.eq_4 _ seg k j next segs hn, stopOf_cons (by simp only; omega)]
      have hlen : x.p + 1 + seg.length + 1 + next.length - (x.p + 1 + seg.length)
          = next.length + 1 := by omega
      simp only [List.length_nil, Nat.sub_zero, hlen]
      exact ih (x := ⟨.param, x.p + 1 + seg.length + 1 + next.length, x.s, x.p + 1 + seg.length,
        some k, x.portNo, x.uri.setParam k ⟨x.p + 1 + seg.length, next.length + 1⟩⟩) rfl
        hend' hrest' hsegs rfl
  | case5 a seg k j v segs hv₁ hv₂ hn ih =>
    subst ha
    obtain ⟨hseg, hsegs⟩ := List.forall_mem_cons.mp hno
    obtain ⟨-, hdrop, hrest, hend⟩ := drop_segment hd
    have hv : v ≠ [] := by
      intro hv
      cases segs with
      | nil => exact hv₁ rfl hv
      | cons next segs => exact hv₂ next segs rfl hv
    refine Parses.parameter hst hd hseg ?_ ?_
    · intro hs
      exact absurd (hn.symm.trans hs) (by simp)
    · intro k' j' v' hs
      obtain ⟨rfl, rfl, rfl⟩ : k = k' ∧ j = j' ∧ v = v' := by simpa using hn.symm.trans hs
      obtain ⟨c, v, rfl⟩ := List.exists_cons_of_ne_nil hv
      obtain ⟨pre, rfl⟩ : ∃ pre, seg = pre ++ c :: v := by
        obtain ⟨junk, nm, rfl, -⟩ := takeName_some hn
        exact ⟨junk ++ (nm ++ [61]), by simp⟩
      rw [takenFrom.eq_5 _ _ segs k j (c :: v) hn hv₁ hv₂]
      have hlen : (pre ++ c :: v).length = pre.length + v.length + 1 := by simp; omega
      have hstart : (pre ++ c :: v).length - (c :: v).length = pre.length := by simp
      have hpiece : x.p + 1 + (pre ++ c :: v).length - (c :: v).length = x.p + 1 + pre.length := by
        simp; omega
      have hmid : x.p + 1 + pre.length + 1 + v.length = x.p + 1 + (pre ++ c :: v).length := by omega
      have hsize : x.p + 1 + (pre ++ c :: v).length - (x.p + 1 + pre.length) = (c :: v).length := by
        rw [List.length_cons]
        omega
      rw [hstart, hpiece, stopOf_cons (by simp only [List.length_cons]; omega)]
      rw [List.append_assoc] at hdrop
      obtain ⟨-, -, hval⟩ := getElem?_of_drop (drop_of_append hdrop)
      refine Parses.value rfl rfl hval (Ends.flatMap segs) (fun h => hseg (by simp [h])) ?_
      simp only [hmid, hsize]
      exact ih (x := ⟨.param, x.p + 1 + (pre ++ c :: v).length, x.s, x.p + 1 + pre.length, some k,
        x.portNo, x.uri.setParam k ⟨x.p + 1 + pre.length, (c :: v).length⟩⟩) rfl
        hend hrest hsegs rfl

/-! ### The port and the host -/

/-- What `port_no` comes to. -/
def portNumber (n : UInt32) (ds : List UInt8) : UInt32 :=
  ds.foldl (fun n c => n * 10 + (c - 48).toUInt32) n

theorem Parses.digits {ds tail : List UInt8} (hst : x.state = .port)
    (hd : buf.drop x.p = ds ++ tail) (hds : ∀ d ∈ ds, isDigit d)
    (h : Parses buf { x with p := x.p + ds.length, portNo := portNumber x.portNo ds } r) :
    Parses buf x r := by
  induction ds generalizing x with
  | nil => exact h
  | cons d ds ih =>
      obtain ⟨hp, hget, hd'⟩ := getElem?_of_drop hd
      obtain ⟨hdig, hds'⟩ := List.forall_mem_cons.mp hds
      have hne : d ≠ 59 := by
        rintro rfl
        exact absurd hdig (by decide)
      have hch : uriChar buf x = .ok { x with portNo := x.portNo * 10 + (d - 48).toUInt32 } := by
        simp [uriChar, hst, hget, hne, hdig]
      refine Parses.char hp hch (Nat.le_refl _) (ih hst hd' hds' ?_)
      rw [List.length_cons, Nat.add_comm ds.length, ← Nat.add_assoc] at h
      exact h

/-- The port is right up to what a `short` can hold. -/
theorem portNumber_toUInt16 {ds : List UInt8} (hds : ∀ d ∈ ds, isDigit d) :
    (portNumber 0 ds).toUInt16 = UInt16.ofNat (decValue ds) := by
  have h32 : portNumber 0 ds = UInt32.ofNat (decValue ds) := by
    induction ds using List.reverseRecOn with
    | nil => rfl
    | append_singleton ds d ih =>
        have hd := hds d (by simp)
        have hle : (48 : UInt8) ≤ d := hd.1
        have hsub : (d - 48).toUInt32 = UInt32.ofNat (d.toNat - 48) := by
          rw [← UInt32.ofNat_uInt8ToNat, UInt8.toNat_sub_of_le _ _ hle]
          rfl
        have hsnoc : portNumber 0 (ds ++ [d]) = portNumber 0 ds * 10 + (d - 48).toUInt32 := by
          simp [portNumber]
        rw [hsnoc, ih (fun d hd => hds d (by simp [hd])), decValue_snoc, hsub]
        simp
  rw [h32]
  simp

/-- What is known of a URI before its parameters, and with them; they start at `a`. -/
def AaaUri.addParams (u : AaaUri) (e a : Nat) (segs : List (List UInt8)) : AaaUri :=
  if segs = [] then u
  else { u.takes (takenFrom a segs) with params := some ⟨a, stopOf e (takenFrom a segs) - a⟩ }

/-- Behind host or port the text ends, or a `;` begins the parameters. -/
theorem Parses.enter {segs : List (List UInt8)} {u : AaaUri}
    (hd : buf.drop x.p = segs.flatMap (59 :: ·)) (hno : ∀ seg ∈ segs, 59 ∉ seg)
    (hstop : uriEnd x = .ok u)
    (hch : buf[x.p]? = some 59 →
      uriChar buf x = .ok { x with uri := u, state := .param, s := x.p + 1 }) :
    Parses buf x (.ok (u.addParams buf.length (x.p + 1) segs)) := by
  cases segs with
  | nil =>
      rw [parses_stop (List.drop_eq_nil_iff.mp hd), hstop]
      rfl
  | cons seg segs =>
      obtain ⟨hcons, -, -, -⟩ := drop_segment hd
      obtain ⟨hp, hget, -⟩ := getElem?_of_drop hcons
      let y : UriScan := { x with uri := u, state := .param, s := x.p + 1 }
      have h := parses_params (x := y) rfl (Nat.le_of_lt hp) hd hno rfl
      exact .char hp (hch hget) (Nat.le_refl _)
        (.next (x := y) hp (uriChar_semicolon (x := y) hget) rfl h)

theorem parses_port {ds : List UInt8} {segs : List (List UInt8)} (hst : x.state = .port)
    (hd : buf.drop x.p = ds ++ segs.flatMap (59 :: ·)) (hds : ∀ d ∈ ds, isDigit d)
    (hno : ∀ seg ∈ segs, 59 ∉ seg) :
    Parses buf x (.ok (AaaUri.addParams
      { x.uri with port := some ⟨x.s, x.p + ds.length - x.s⟩
                   portNo := (portNumber x.portNo ds).toUInt16 }
      buf.length (x.p + ds.length + 1) segs)) := by
  refine Parses.digits hst hd hds (Parses.enter (drop_of_append hd) hno ?_ ?_)
  · simp only [uriEnd, hst]
    rfl
  · intro hget
    simp [uriChar, hst, hget]

theorem Parses.host {h b : List UInt8} (hst : x.state = .host) (hd : buf.drop x.p = h ++ b)
    (hh : ∀ c ∈ h, ¬ hostStop c) (hr : Parses buf { x with p := x.p + h.length } r) :
    Parses buf x r := by
  refine Parses.over hd ?_ hr
  intro q c hc hq
  have hstop := hh c hc
  rw [hostStop_iff, not_or, not_or, not_or, not_or] at hstop
  simp [uriChar, hst, hq, hstop]

theorem parses_host {h : List UInt8} {port : Option (List UInt8)} {segs : List (List UInt8)}
    (hst : x.state = .host) (hs : x.portNo = 0)
    (hd : buf.drop x.p = h ++ (port.elim [] (58 :: ·) ++ segs.flatMap (59 :: ·)))
    (hh : ∀ c ∈ h, ¬ hostStop c) (hport : ∀ ds ∈ port, ∀ d ∈ ds, isDigit d)
    (hno : ∀ seg ∈ segs, 59 ∉ seg) :
    Parses buf x (.ok (AaaUri.addParams
      { x.uri with host := some ⟨x.s, x.p + h.length - x.s⟩
                   port := (port.map fun ds => ⟨x.p + h.length + 1, ds.length⟩).or x.uri.port
                   portNo := (port.map fun ds => UInt16.ofNat (decValue ds)).getD x.uri.portNo }
      buf.length (x.p + h.length + port.elim 0 (1 + ·.length) + 1) segs)) := by
  refine Parses.host hst hd hh ?_
  have hd' := drop_of_append hd
  cases port with
  | none =>
      refine Parses.enter hd' hno ?_ ?_
      · simp only [uriEnd, hst]
        rfl
      · intro hget
        simp [uriChar, hst, hget]
  | some ds =>
      obtain ⟨hp, hget, hd''⟩ := getElem?_of_drop hd'
      let y : UriScan := { x with
        p := x.p + h.length, state := .port, s := x.p + h.length + 1, portNo := 0
        uri := { x.uri with host := some ⟨x.s, x.p + h.length - x.s⟩ } }
      have hch : uriChar buf { x with p := x.p + h.length } = .ok y := by
        simp [uriChar, hst, hget, hs, y]
      have hrun := parses_port (x := { y with p := y.p + 1 }) rfl hd'' (hport ds rfl) hno
      simp only [y, portNumber_toUInt16 (hport ds rfl), Nat.add_sub_cancel_left] at hrun
      rw [Nat.add_assoc (x.p + h.length) 1 ds.length] at hrun
      exact .char hp hch (Nat.le_refl _) hrun

end Scan

/-! ## The grammar is what is parsed -/

theorem lastOf_snoc (k : UriParam) (ts : List Taken) (t : Taken) :
    lastOf k (ts ++ [t]) = if t.kind = k then some t else lastOf k ts := by
  unfold lastOf
  rw [List.filter_append]
  split
  · rename_i hk
    simp [hk]
  · rename_i hk
    simp [hk]

/-- Only the last one of a kind counts. -/
theorem takes_eq (u : AaaUri) (ts : List Taken) :
    u.takes ts = { u with
      transport := ((lastOf .transport ts).map Taken.piece).or u.transport
      protocol := ((lastOf .protocol ts).map Taken.piece).or u.protocol } := by
  induction ts using List.reverseRecOn with
  | nil => rfl
  | append_singleton ts t ih =>
      have hsnoc : u.takes (ts ++ [t]) = (u.takes ts).setParam t.kind t.piece := by
        simp [AaaUri.takes]
      rw [hsnoc, ih, lastOf_snoc, lastOf_snoc]
      cases hk : t.kind with
      | transport | protocol => simp [AaaUri.setParam]

/-- **A text of the grammar is parsed.** -/
theorem aaaParseUri_text {t : UriText} (hg : t.Grammatical) : aaaParseUri t.bytes = .ok t.uri := by
  obtain ⟨c, h, hhost, hh⟩ := hg.host
  have hlen : 6 < t.bytes.length := by
    simp only [UriText.bytes, hhost, List.length_append, hg.scheme.1, List.length_cons]
    omega
  have hslice : slice t.bytes 0 6 = some t.scheme := by
    rw [slice, if_pos (by omega), List.drop_zero, UriText.bytes, List.take_left' hg.scheme.1]
  have hd : t.bytes.drop 6 = c :: (h ++ (t.port.elim [] (58 :: ·) ++ t.params.flatMap (59 :: ·))) := by
    rw [UriText.bytes, List.drop_left' hg.scheme.1, hhost]
    rfl
  obtain ⟨-, -, hd'⟩ := getElem?_of_drop hd
  have hrun := parses_host (x := ⟨.host, 7, 6, 0, none, 0, .zero⟩) rfl rfl hd' hh hg.port hg.params
  have hinit : Parses t.bytes ⟨.init, 6, 0, 0, none, 0, .zero⟩ _ :=
    .char hlen rfl (Nat.le_refl _) hrun
  rw [aaaParseUri, if_neg (by omega), hslice, Res.ofAccess_some, Res.ok_bind, if_pos hg.scheme.2,
    hinit t.bytes.length (by omega)]
  have ha : 7 + h.length + t.port.elim 0 (1 + ·.length) + 1 = t.portEnd + 1 := by
    rw [UriText.portEnd, UriText.hostEnd, hhost, List.length_cons]
    omega
  have hport : 7 + h.length + 1 = t.hostEnd + 1 := by
    rw [UriText.hostEnd, hhost, List.length_cons]
    omega
  have hsize : 7 + h.length - 6 = t.host.length := by
    rw [hhost, List.length_cons]
    omega
  have hno : (t.port.map fun ds => UInt16.ofNat (decValue ds)).getD 0
      = UInt16.ofNat (t.port.elim 0 decValue) := by
    cases t.port with
    | none | some ds => rfl
  simp only [ha, hport, hsize]
  unfold AaaUri.addParams UriText.uri
  by_cases hp : t.params = []
  · simp [hp, hno, UriText.taken, takenFrom, lastOf, AaaUri.zero]
  · simp [hp, hno, takes_eq, UriText.taken, AaaUri.zero]

/-- **And nothing else is.** -/
theorem aaaParseUri_cases (buf : List UInt8) :
    aaaParseUri buf = .error ∨ ∃ t : UriText, t.Grammatical ∧ t.bytes = buf := by
  by_cases hlen : buf.length < 6
  · exact .inl (by rw [aaaParseUri, if_pos hlen])
  have hslice : slice buf 0 6 = some (buf.take 6) := by
    rw [slice, if_pos (by omega), List.drop_zero]
  by_cases hb : isAaa (buf.take 6)
  swap
  · exact .inl (by rw [aaaParseUri, if_neg hlen, hslice, Res.ofAccess_some, Res.ok_bind, if_neg hb])
  have hparse : ∀ r, Parses buf ⟨.init, 6, 0, 0, none, 0, .zero⟩ r → aaaParseUri buf = r := by
    intro r hr
    rw [aaaParseUri, if_neg hlen, hslice, Res.ofAccess_some, Res.ok_bind, if_pos hb,
      hr buf.length (by omega)]
  have hscheme : (buf.take 6).length = 6 ∧ isAaa (buf.take 6) :=
    ⟨List.length_take_of_le (by omega), hb⟩
  have hbuf := List.take_append_drop 6 buf
  cases hrest : buf.drop 6 with
  | nil => exact .inl (hparse _ ((parses_stop (List.drop_eq_nil_iff.mp hrest)).mpr rfl))
  | cons c rest =>
      obtain ⟨hp, -, hd⟩ := getElem?_of_drop hrest
      rw [hrest] at hbuf
      have hrefuse : Parses buf ⟨.host, 7, 6, 0, none, 0, .zero⟩ .error → aaaParseUri buf = .error :=
        fun h => hparse _ (.char hp rfl (Nat.le_refl _) h)
      obtain ⟨h, b, rfl, hh, rfl | ⟨d, b, rfl, hstop⟩⟩ := exists_chunk hostStop rest
      · exact .inr ⟨⟨buf.take 6, c :: h, none, []⟩, ⟨hscheme, ⟨c, h, rfl, hh⟩, by simp, by simp⟩, hbuf⟩
      have hd' := drop_of_append hd
      obtain ⟨hp', hget, hd''⟩ := getElem?_of_drop hd'
      rcases hostStop_iff.mp hstop with rfl | rfl | hbad
      · -- a port
        obtain ⟨ds, e, rfl, hds, he⟩ := exists_chunk (fun c => ¬ isDigit c) b
        have hdig : ∀ d ∈ ds, isDigit d := fun d hd => not_not.mp (hds d hd)
        have hport : ∀ ds' ∈ some ds, ∀ d ∈ ds', isDigit d := by
          intro ds' h'
          obtain rfl := Option.some.inj h'
          exact hdig
        obtain rfl | ⟨f, e, rfl, hf⟩ := he
        · refine .inr ⟨⟨buf.take 6, c :: h, some ds, []⟩, ⟨hscheme, ⟨c, h, rfl, hh⟩, hport, by simp⟩, ?_⟩
          simpa [UriText.bytes] using hbuf
        by_cases hf59 : f = 59
        · obtain ⟨a, segs, rfl, ha, hsegs⟩ := exists_segments 59 e
          refine .inr ⟨⟨buf.take 6, c :: h, some ds, a :: segs⟩, ⟨hscheme, ⟨c, h, rfl, hh⟩, hport,
            List.forall_mem_cons.mpr ⟨ha, hsegs⟩⟩, ?_⟩
          simpa [UriText.bytes, hf59] using hbuf
        · -- no digit, and not the end
          obtain ⟨hp'', hget', -⟩ := getElem?_of_drop (drop_of_append hd'')
          let y : UriScan := ⟨.port, 7 + h.length, 7 + h.length + 1, 0, none, 0,
            { AaaUri.zero with host := some ⟨6, 7 + h.length - 6⟩ }⟩
          have hcolon : uriChar buf ⟨.host, 7 + h.length, 6, 0, none, 0, .zero⟩ = .ok y := by
            simp only [uriChar, hget, Res.ofAccess_some, Res.ok_bind]
            rfl
          have hrun : Parses buf { y with p := y.p + 1 } .error := by
            refine Parses.digits rfl hd'' hdig (.refuse hp'' ?_)
            simp only [uriChar, hget', Res.ofAccess_some, Res.ok_bind, if_neg hf59, if_neg hf, y]
          exact .inl (hrefuse (Parses.host rfl hd hh (.char hp' hcolon (Nat.le_refl _) hrun)))
      · -- parameters
        obtain ⟨a, segs, rfl, ha, hsegs⟩ := exists_segments 59 b
        exact .inr ⟨⟨buf.take 6, c :: h, none, a :: segs⟩, ⟨hscheme, ⟨c, h, rfl, hh⟩, by simp,
          List.forall_mem_cons.mpr ⟨ha, hsegs⟩⟩, hbuf⟩
      · refine .inl (hrefuse (Parses.host rfl hd hh (.refuse hp' ?_)))
        have hne : d ≠ 58 ∧ d ≠ 59 := by
          rcases hbad with rfl | rfl | rfl
          · decide
          · decide
          · decide
        simp [uriChar, hget, hbad, hne]

/-! ## Where the parts stand -/

/-- A piece in the middle of a text. -/
theorem of_drop {buf a b c : List UInt8} {p : Nat} (hp : p ≤ buf.length)
    (hd : buf.drop p = a ++ (b ++ c)) : Str.of ⟨p + a.length, b.length⟩ buf = some b := by
  have hd' := drop_of_append hd
  have hlen := congrArg List.length hd
  simp only [List.length_drop, List.length_append] at hlen
  rw [Str.of, slice, if_pos (by simp only; omega), hd', List.take_left]

/-- The pieces for host and port are the host and the port, and behind them are the parameters. -/
theorem UriText.Grammatical.places {t : UriText} (hg : t.Grammatical) :
    Str.of ⟨6, t.host.length⟩ t.bytes = some t.host
      ∧ (∀ ds, t.port = some ds → Str.of ⟨t.hostEnd + 1, ds.length⟩ t.bytes = some ds)
      ∧ 7 ≤ t.portEnd ∧ t.portEnd ≤ t.bytes.length
      ∧ t.bytes.drop t.portEnd = t.params.flatMap (59 :: ·) := by
  have hbytes : t.bytes.drop 0 = t.scheme ++ (t.host ++ (t.port.elim [] (58 :: ·)
      ++ t.params.flatMap (59 :: ·))) := rfl
  have hhost := of_drop (Nat.zero_le _) hbytes
  have hrest := drop_of_append (drop_of_append hbytes)
  rw [hg.scheme.1, Nat.zero_add] at hhost hrest
  have hlen := congrArg List.length hbytes
  simp only [List.drop_zero, List.length_append, hg.scheme.1] at hlen
  have hpos : 0 < t.host.length := by
    obtain ⟨c, h, hh, -⟩ := hg.host
    rw [hh]
    exact Nat.succ_pos _
  have hend : t.portEnd = 6 + t.host.length + (t.port.elim [] (58 :: ·)).length := by
    rw [UriText.portEnd, UriText.hostEnd]
    cases t.port with
    | none => rfl
    | some ds =>
        rw [Option.elim_some, Nat.add_comm 1]
        rfl
  refine ⟨hhost, ?_, by omega, by omega, ?_⟩
  · intro ds hds
    rw [hds, Option.elim_some, ← List.singleton_append, List.append_assoc] at hrest
    exact of_drop (by omega) hrest
  · rw [hend]
    exact drop_of_append hrest

end Disc.Config
