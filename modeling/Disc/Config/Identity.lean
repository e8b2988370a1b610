import Disc.Client.SessionId
import Disc.Config.Uri

/-!
# URIs that are written and read back

A URI that names each of transport and protocol at most once, with a value, is read back as
it was written. The identity that `generate_aaaIdentity` of `aaa_core.c` makes of the name
of the host and the port is such a URI.
-/

namespace Disc.Config

open Disc.Lib Disc.Server Disc.Client

/-! ## The code -/

/-- `generate_aaaIdentity`: `portS` is the buffer for the port, and `shmMalloc` gives a block. -/
def generateAaaIdentity (aaaFqdn : List UInt8) (listenPort : UInt32) (portS : List UInt8)
    (shmMalloc : Nat → Option (List UInt8)) : Res (List UInt8) := do
  let (portLen, portS) ← int2str listenPort portS 0 32
  let len := 6 + aaaFqdn.length + 1 + portLen + 14
  match shmMalloc len with
  | none => .error
  | some m =>
      let m ← put m 0 (ascii "aaa://")
      let ptr := 6
      let m ← put m ptr aaaFqdn
      let ptr := ptr + aaaFqdn.length
      let m ← put m ptr [58]
      let ptr := ptr + 1
      let digits ← Res.ofAccess (slice portS 0 portLen)
      let m ← put m ptr digits
      let ptr := ptr + portLen
      put m ptr (ascii ";transport=tcp")

/-! ## What is written -/

/-- A parameter as it may be written: the name in letters of any case, and a value. -/
structure ParamText where
  kind : UriParam
  name : List UInt8
  value : List UInt8
deriving Repr, DecidableEq

def ParamText.bytes (p : ParamText) : List UInt8 := p.name ++ 61 :: p.value

structure ParamText.Spelt (p : ParamText) : Prop where
  name : p.name.map tolower = p.kind.name
  value : p.value ≠ [] ∧ 59 ∉ p.value

/-- A URI and its parameters, as a text of the grammar. -/
def uriText (host : List UInt8) (port : Option (List UInt8)) (ps : List ParamText) : UriText :=
  ⟨ascii "aaa://", host, port, ps.map ParamText.bytes⟩

/-- A host that can be written. -/
def HostName (host : List UInt8) : Prop := host ≠ [] ∧ ∀ c ∈ host, ¬ hostStop c

/-- A port that can be written. -/
def PortText (ds : List UInt8) : Prop := (∀ d ∈ ds, isDigit d) ∧ decValue ds < 65536

/--
The parser accepts the text, and finds in it this host, this port and these parameters; a port or
a parameter that is not there is a null pointer.
-/
def ReadsBack (buf host : List UInt8) (port : Option (List UInt8)) (ps : List ParamText) : Prop :=
  ∃ uri, aaaParseUri buf = .ok uri
    ∧ uri.host.bind (·.of buf) = some host
    ∧ uri.port.map (·.of buf) = port.map some ∧ uri.portNo.toNat = port.elim 0 decValue
    ∧ ∀ k, (uri.param k).map (·.of buf) = (ps.find? (·.kind = k)).map fun p => some p.value

/-! ## Reading back -/

theorem ParamText.Spelt.no_semicolon {p : ParamText} (h : p.Spelt) : 59 ∉ p.bytes := by
  intro hmem
  rcases List.mem_append.mp hmem with hn | hv
  · have hlow : tolower 59 ∈ p.kind.name := h.name ▸ List.mem_map_of_mem hn
    cases hk : p.kind with
    | transport | protocol => exact absurd (hk ▸ hlow) (by decide)
  · rcases List.mem_cons.mp hv with h61 | hv
    · exact absurd h61 (by decide)
    · exact h.value.2 hv

theorem uriText_grammatical {host : List UInt8} {port : Option (List UInt8)} {ps : List ParamText}
    (hhost : HostName host) (hport : ∀ ds ∈ port, PortText ds) (hps : ∀ p ∈ ps, p.Spelt) :
    (uriText host port ps).Grammatical where
  scheme := by
    have h : (ascii "aaa://").length = 6 ∧ isAaa (ascii "aaa://") := by decide
    exact h
  host := by
    obtain ⟨c, h, rfl⟩ := List.exists_cons_of_ne_nil hhost.1
    exact ⟨c, h, rfl, fun x hx => hhost.2 x (List.mem_cons_of_mem _ hx)⟩
  port := fun ds hds => (hport ds hds).1
  params := by
    intro s hs
    obtain ⟨p, hp, rfl⟩ := List.mem_map.mp hs
    exact (hps p hp).no_semicolon

/-- Every parameter that is spelt out is taken, with its value. -/
theorem takenFrom_spelt {buf : List UInt8} {ps : List ParamText} {p : Nat} (hp : p ≤ buf.length)
    (hd : buf.drop p = (ps.map ParamText.bytes).flatMap (59 :: ·)) (hps : ∀ q ∈ ps, q.Spelt) :
    (takenFrom (p + 1) (ps.map ParamText.bytes)).map (fun t => (t.kind, t.piece.of buf))
      = ps.map fun q => (q.kind, some q.value) := by
  induction ps generalizing p with
  | nil => rfl
  | cons q ps ih =>
      obtain ⟨hq, hps'⟩ := List.forall_mem_cons.mp hps
      obtain ⟨hcons, hseg, hrest, hend⟩ := drop_segment hd
      have hv : q.value ≠ [] := hq.value.1
      have htake : takeName q.bytes = some (q.kind, 0, q.value) := takeName_spelt hq.name
      have hlen : q.bytes.length = q.name.length + 1 + q.value.length := by
        simp [ParamText.bytes]
        omega
      have hpiece : Str.of ⟨p + 1 + q.bytes.length - q.value.length, q.value.length⟩ buf
          = some q.value := by
        rw [ParamText.bytes, List.append_cons, List.append_assoc] at hseg
        have hof := of_drop (by omega) hseg
        rw [List.length_append, List.length_singleton] at hof
        rw [hlen, show p + 1 + (q.name.length + 1 + q.value.length) - q.value.length
          = p + 1 + (q.name.length + 1) by omega]
        exact hof
      rw [List.map_cons, takenFrom.eq_5 _ _ _ _ _ _ htake (fun _ h => hv h) (fun _ _ _ h => hv h),
        List.map_cons, List.map_cons, hpiece]
      exact congrArg _ (ih hend hrest hps')

theorem lastOf_cons (k : UriParam) (t : Taken) (ts : List Taken) :
    lastOf k (t :: ts) = (lastOf k ts).or (if t.kind = k then some t else none) := by
  unfold lastOf
  by_cases hk : t.kind = k
  · simp [hk, List.getLast?_cons]
  · simp [hk]

/-- With no parameter named twice, the last one is the only one. -/
theorem lastOf_spelt {buf : List UInt8} {ps : List ParamText} {ts : List Taken} (k : UriParam)
    (hmap : ts.map (fun t => (t.kind, t.piece.of buf)) = ps.map fun q => (q.kind, some q.value))
    (hnd : (ps.map ParamText.kind).Nodup) :
    ((lastOf k ts).map Taken.piece).map (·.of buf)
      = (ps.find? (·.kind = k)).map fun p => some p.value := by
  induction ps generalizing ts with
  | nil =>
      rw [List.map_nil, List.map_eq_nil_iff] at hmap
      rw [hmap]
      rfl
  | cons q ps ih =>
      obtain ⟨t, ts, rfl, ht, hts⟩ := List.map_eq_cons_iff.mp hmap
      obtain ⟨hkind, hvalue⟩ := Prod.mk.inj ht
      obtain ⟨hq, hnd'⟩ := List.nodup_cons.mp hnd
      rw [lastOf_cons, hkind]
      by_cases hk : q.kind = k
      · have hkinds : ts.map Taken.kind = ps.map ParamText.kind := by
          have h := congrArg (List.map Prod.fst) hts
          rwa [List.map_map, List.map_map] at h
        have hnone : lastOf k ts = none := by
          rw [lastOf, List.getLast?_eq_none_iff, List.filter_eq_nil_iff]
          intro x hx
          have hmem : x.kind ∈ ps.map ParamText.kind := hkinds ▸ List.mem_map_of_mem hx
          rw [decide_eq_true_iff]
          exact fun hxk => hq (hk ▸ hxk ▸ hmem)
        simp [hnone, hk, hvalue]
      · have h := ih hts hnd'
        simp [hk, h]

/-- **A URI that is written is read back.** -/
theorem uriText_readsBack {host : List UInt8} {port : Option (List UInt8)} {ps : List ParamText}
    (hhost : HostName host) (hport : ∀ ds ∈ port, PortText ds) (hps : ∀ p ∈ ps, p.Spelt)
    (hnd : (ps.map ParamText.kind).Nodup) :
    ReadsBack (uriText host port ps).bytes host port ps := by
  have hg := uriText_grammatical hhost hport hps
  obtain ⟨hread, hreadPort, -, hle, hparams⟩ := hg.places
  refine ⟨(uriText host port ps).uri, aaaParseUri_text hg, hread, ?_, ?_, ?_⟩
  · cases port with
    | none => rfl
    | some ds => exact congrArg some (hreadPort ds rfl)
  · cases port with
    | none => rfl
    | some ds =>
        have hlt := (hport ds rfl).2
        show (UInt16.ofNat (decValue ds)).toNat = decValue ds
        rw [UInt16.toNat_ofNat']
        exact Nat.mod_eq_of_lt hlt
  · intro k
    have hk : (uriText host port ps).uri.param k
        = (lastOf k (uriText host port ps).taken).map Taken.piece := by
      cases k with
      | transport | protocol => rfl
    rw [hk]
    exact lastOf_spelt k (takenFrom_spelt hle hparams hps) hnd

/-! ## The identity of the node -/

/-- A decimal text has the value it was made of. -/
theorem decValue_decText (l : UInt32) :
    (∀ d ∈ decText l, isDigit d) ∧ decValue (decText l) = l.toNat := by
  have hdig : ∀ d ∈ numeral 10 10 l.toNat, d < 10 := numeral_lt (by decide)
  have hbyte : ∀ d < 10, isDigit (UInt8.ofNat (d + 48)) ∧ (UInt8.ofNat (d + 48)).toNat - 48 = d := by
    decide
  constructor
  · intro d hd
    obtain ⟨n, hn, rfl⟩ := List.mem_map.mp hd
    exact (hbyte n (hdig n hn)).1
  · have hmap : (decText l).map (fun c => c.toNat - 48) = numeral 10 10 l.toNat := by
      rw [decText, List.map_map]
      exact List.map_congr_left (fun n hn => (hbyte n (hdig n hn)).2) |>.trans (List.map_id _)
    rw [decValue, hmap, value_numeral]
    exact Nat.mod_eq_of_lt (Nat.lt_of_lt_of_le l.toNat_lt (by decide))

/-- The identity as a URI. -/
def identityText (aaaFqdn : List UInt8) (listenPort : UInt32) : UriText :=
  uriText aaaFqdn (some (decText listenPort)) [⟨.transport, ascii "transport", ascii "tcp"⟩]

/-- **`generate_aaaIdentity` writes it**, if there is memory. -/
theorem generateAaaIdentity_eq {aaaFqdn portS : List UInt8} {listenPort : UInt32}
    {shmMalloc : Nat → Option (List UInt8)} (hportS : portS.length = 32)
    (hmem : ∀ n, ∃ m, shmMalloc n = some m ∧ m.length = n) :
    generateAaaIdentity aaaFqdn listenPort portS shmMalloc
      = .ok (identityText aaaFqdn listenPort).bytes := by
  obtain ⟨portS', hint, hl, hpre⟩ := @int2str_spec portS [] 32 listenPort List.nil_prefix
    (by decide) (by simp [hportS])
  rw [List.nil_append] at hpre
  rw [List.length_nil] at hint
  have hdigits : slice portS' 0 (decText listenPort).length = some (decText listenPort) := by
    rw [slice, if_pos (by rw [Nat.zero_add]; exact hpre.length_le), List.drop_zero,
      ← List.prefix_iff_eq_take.mp hpre]
  obtain ⟨m, hm, hsize⟩ := hmem (6 + aaaFqdn.length + 1 + (decText listenPort).length + 14)
  have hstart : (ascii "aaa://").length = 6 := rfl
  have htail : (ascii ";transport=tcp").length = 14 := rfl
  obtain ⟨m₁, hw₁, hl₁, hm₁⟩ := put_prefix (List.nil_prefix (l := m)) (ascii "aaa://") (by simp [hstart]; omega)
  obtain ⟨m₂, hw₂, hl₂, hm₂⟩ := put_prefix hm₁ aaaFqdn (by simp [hstart]; omega)
  obtain ⟨m₃, hw₃, hl₃, hm₃⟩ := put_prefix hm₂ [58] (by simp [hstart]; omega)
  obtain ⟨m₄, hw₄, hl₄, hm₄⟩ := put_prefix hm₃ (decText listenPort) (by simp [hstart]; omega)
  obtain ⟨m₅, hw₅, hl₅, hm₅⟩ := put_prefix hm₄ (ascii ";transport=tcp") (by simp [hstart, htail]; omega)
  simp only [List.nil_append, List.length_nil, List.length_append, List.length_singleton, hstart]
    at hw₁ hw₂ hw₃ hw₄ hw₅
  have hall : m₅ = (identityText aaaFqdn listenPort).bytes := by
    rw [← hm₅.eq_of_length (by simp [hstart, htail]; omega)]
    simp only [List.nil_append, List.append_assoc]
    rfl
  simp only [generateAaaIdentity, hint, hm, hw₁, hw₂, hw₃, hw₄, hw₅, hdigits, hall, Res.ofAccess_some,
    Res.ok_bind]

/-- **Round trip of URIs**: what is written is read back, and so is the identity of the node. -/
theorem aaaParseUri_roundtrip {host : List UInt8} (hhost : HostName host) :
    (∀ port ps, (∀ ds ∈ port, PortText ds) → (∀ p ∈ ps, p.Spelt) →
        (ps.map ParamText.kind).Nodup →
        ReadsBack (uriText host port ps).bytes host port ps)
      ∧ ∀ (listenPort : UInt32) portS shmMalloc, listenPort.toNat < 65536 → portS.length = 32 →
        (∀ n, ∃ m, shmMalloc n = some m ∧ m.length = n) →
        ∃ buf uri, generateAaaIdentity host listenPort portS shmMalloc = .ok buf
          ∧ aaaParseUri buf = .ok uri ∧ uri.host.bind (·.of buf) = some host
          ∧ uri.portNo.toNat = listenPort.toNat := by
  refine ⟨fun port ps hport hps hnd => uriText_readsBack hhost hport hps hnd, ?_⟩
  intro listenPort portS shmMalloc hlt hportS hmem
  obtain ⟨hdig, hvalue⟩ := decValue_decText listenPort
  have hport : ∀ ds ∈ some (decText listenPort), PortText ds := by
    intro ds hds
    obtain rfl := Option.some.inj hds
    exact ⟨hdig, by omega⟩
  have hps : ∀ p ∈ [ParamText.mk .transport (ascii "transport") (ascii "tcp")], p.Spelt := by
    intro p hp
    rw [List.mem_singleton.mp hp]
    exact ⟨by decide +kernel, by decide +kernel⟩
  obtain ⟨uri, hparse, hread, -, hno, -⟩ := uriText_readsBack hhost hport hps (by simp)
  refine ⟨_, uri, generateAaaIdentity_eq hportS hmem, hparse, hread, ?_⟩
  rw [hno]
  exact hvalue

/-- A URI whose parameter names are in capitals, and the identity of a node at port 3868. -/
theorem aaaParseUri_roundtrip_sample :
    ReadsBack (ascii "aaa://h:38;TransPort=sctp;PROTOCOL=radius") (ascii "h") (some (ascii "38"))
        [⟨.transport, ascii "TransPort", ascii "sctp"⟩, ⟨.protocol, ascii "PROTOCOL", ascii "radius"⟩]
      ∧ ∃ buf uri, generateAaaIdentity (ascii "h") 3868 (List.replicate 32 0)
          (fun n => some (List.replicate n 0)) = .ok buf
        ∧ aaaParseUri buf = .ok uri ∧ uri.host.bind (·.of buf) = some (ascii "h")
        ∧ uri.portNo.toNat = 3868 := by
  have hhost : HostName (ascii "h") := by
    exact ⟨by decide +kernel, by decide +kernel⟩
  refine ⟨(aaaParseUri_roundtrip hhost).1 (some (ascii "38"))
      [⟨.transport, ascii "TransPort", ascii "sctp"⟩, ⟨.protocol, ascii "PROTOCOL", ascii "radius"⟩]
      ?_ ?_ (by decide),
    (aaaParseUri_roundtrip hhost).2 3868 (List.replicate 32 0) (fun n => some (List.replicate n 0))
      (by decide) (by decide) (fun n => ⟨_, rfl, List.length_replicate⟩)⟩
  · intro ds hds
    obtain rfl := Option.some.inj hds
    exact ⟨by decide +kernel, by decide +kernel⟩
  · intro p hp
    rcases List.mem_cons.mp hp with rfl | hp
    · exact ⟨by decide +kernel, by decide +kernel⟩
    · rw [List.mem_singleton.mp hp]
      exact ⟨by decide +kernel, by decide +kernel⟩

end Disc.Config
