import Disc.Msg.Received
import Disc.Transport.Wire

/-!
# The walker meets the decoder

A message that reaches the peer state machine is read by `for_all_AVPS_do_switch`, every
other one by `AAATranslateMessage`. The decoder goes from AVP to AVP by the size of the
header and the rounded data length, the walker by the rounded length of the whole AVP; the
first depends on the V bit and may wrap, the second looks at no flag and checks nothing.

On what the decoder accepts the two visit the same AVPs. To say so, each loop is given a
record of where it has been; what it computes does not depend on the record.
-/

namespace Disc.Transport

open Disc.Lib Disc.Msg

/-! ## The walker, with a record of where it has been -/

/-- `for_all_AVPS_do_switch`; notes offset and code of every AVP, and where it stops. -/
def forAllAvpsLog {σ ρ : Type} (buf : List UInt8) (body : σ → Nat → Nat → Res (σ ⊕ ρ)) :
    Nat → Nat → σ → List (Nat × Nat) → Res ((σ ⊕ ρ) × List (Nat × Nat) × Nat)
  | 0, _, _, _ => .diverge
  | fuel + 1, ptr, s, log =>
      if ptr < buf.length then do
        let code ← load4 buf ptr
        match ← body s (ofBe code) ptr with
        | .inr r => return (.inr r, log ++ [(ptr, ofBe code)], ptr)
        | .inl s => do
            let len ← load4 buf (ptr + 4)
            forAllAvpsLog buf body fuel (ptr + to32xLen (ofBe len % 2 ^ 24)) s
              (log ++ [(ptr, ofBe code)])
      else return (.inl s, log, ptr)

theorem forAllAvpsLog_erase {σ ρ : Type} {buf : List UInt8} {body : σ → Nat → Nat → Res (σ ⊕ ρ)}
    {fuel ptr : Nat} {s : σ} {log : List (Nat × Nat)} :
    eraseLog (forAllAvpsLog buf body fuel ptr s log) = forAllAvps buf body fuel ptr s := by
  induction fuel generalizing ptr s log with
  | zero => rfl
  | succ fuel ih =>
      rw [forAllAvpsLog, forAllAvps]
      split
      · rw [eraseLog_bind]
        refine Res.bind_congr fun code => ?_
        rw [eraseLog_bind]
        refine Res.bind_congr fun x => ?_
        cases x with
        | inr r => rfl
        | inl s' =>
            dsimp only
            rw [eraseLog_bind]
            exact Res.bind_congr fun _ => ih
      · rfl

/-! ## One round of the walker -/

section

variable {buf : List UInt8} {p : Nat}

theorem load4_eq (h : p + 4 ≤ buf.length) : load4 buf p = .ok ((buf.drop p).take 4) := by
  unfold load4 slice
  rw [if_pos h]
  rfl

theorem load4_fault (h : buf.length < p + 4) : load4 buf p = .fault := by
  unfold load4 slice
  rw [if_neg (by omega)]
  rfl

/-- The code, as the `switch` sees it. -/
theorem ofBe_code (h : p + 4 ≤ buf.length) : ofBe ((buf.drop p).take 4) = (wordAt buf p).toNat := by
  have hlt := ofBe_lt ((buf.drop p).take 4)
  have h4 : ((buf.drop p).take 4).length = 4 := by
    rw [List.length_take, List.length_drop]
    omega
  rw [h4] at hlt
  rw [wordAt, UInt32.toNat_ofNat_of_lt' (by simpa using hlt)]

/-- The walker masks the flags out of the word that holds the length. -/
theorem ofBe_len (h : p + 8 ≤ buf.length) :
    ofBe ((buf.drop (p + 4)).take 4) % 2 ^ 24 = lenAt buf p := by
  have hcut : (buf.drop (p + 4)).take 4
      = buf.get ⟨p + 4, by omega⟩ :: (buf.drop (p + 5)).take 3 := by
    rw [List.drop_eq_getElem_cons (by omega), List.take_succ_cons]
    rfl
  have hlt := @lenAt_lt buf p
  have h3 : ((buf.drop (p + 5)).take 3).length = 3 := by
    rw [List.length_take, List.length_drop]
    omega
  rw [hcut, ofBe_cons, h3]
  unfold lenAt at hlt ⊢
  omega

/-- The step to the next AVP. -/
theorem to32xLen_lenAt : to32xLen (lenAt buf p) = strideAt buf p := by
  have hs := @strideAt_le buf p
  exact to32xLen_eq (by unfold strideAt at hs; omega)

end

section

variable {σ ρ : Type} {buf : List UInt8} {body : σ → Nat → Nat → Res (σ ⊕ ρ)}

/-- One round of the walker, over an AVP whose first eight bytes are there. -/
theorem forAllAvpsLog_round {p : Nat} (h8 : p + 8 ≤ buf.length) (fuel : Nat) (s : σ)
    (log : List (Nat × Nat)) :
    forAllAvpsLog buf body (fuel + 1) p s log
      = body s (wordAt buf p).toNat p >>= fun x =>
          match x with
          | .inr r => .ok (.inr r, log ++ [(p, (wordAt buf p).toNat)], p)
          | .inl s' => forAllAvpsLog buf body fuel (p + strideAt buf p) s'
              (log ++ [(p, (wordAt buf p).toNat)]) := by
  rw [forAllAvpsLog, if_pos (by omega), load4_eq (by omega), Res.ok_bind, ofBe_code (by omega)]
  refine Res.bind_congr fun x => ?_
  cases x with
  | inr r => rfl
  | inl s' =>
      dsimp only
      rw [load4_eq (by omega), Res.ok_bind, ofBe_len h8, to32xLen_lenAt]

/-- A walk over the AVPs at the given offsets that stops at `e`, unless the body leaves it. -/
def visit (buf : List UInt8) (body : σ → Nat → Nat → Res (σ ⊕ ρ)) (e : Nat) :
    List Nat → σ → List (Nat × Nat) → Res ((σ ⊕ ρ) × List (Nat × Nat) × Nat)
  | [], s, log => .ok (.inl s, log, e)
  | p :: ps, s, log =>
      body s (wordAt buf p).toNat p >>= fun x =>
        match x with
        | .inr r => .ok (.inr r, log ++ [(p, (wordAt buf p).toNat)], p)
        | .inl s' => visit buf body e ps s' (log ++ [(p, (wordAt buf p).toNat)])

theorem visit_to_end (hbody : ∀ s c p, ∃ s', body s c p = .ok (.inl s')) (e : Nat) (ps : List Nat)
    (s : σ) (log : List (Nat × Nat)) :
    ∃ s', visit buf body e ps s log
      = .ok (.inl s', log ++ ps.map (fun p => (p, (wordAt buf p).toNat)), e) := by
  induction ps generalizing s log with
  | nil => exact ⟨s, by rw [visit, List.map_nil, List.append_nil]⟩
  | cons p ps ih =>
      obtain ⟨s₁, h₁⟩ := hbody s (wordAt buf p).toNat p
      obtain ⟨s', h'⟩ := ih s₁ (log ++ [(p, (wordAt buf p).toNat)])
      refine ⟨s', ?_⟩
      rw [visit, h₁, Res.ok_bind]
      dsimp only
      rw [h', List.append_assoc, List.map_cons, List.singleton_append]

/-- **The walker on an accepted message** visits the offsets the decoder comes by. -/
theorem forAllAvpsLog_accepts {p e : Nat} {ps : List Nat} (ha : Accepts buf buf.length p ps e)
    {fuel : Nat} (hfuel : ps.length < fuel) (s : σ) (log : List (Nat × Nat)) :
    forAllAvpsLog buf body fuel p s log = visit buf body e ps s log := by
  induction ha generalizing fuel s log with
  | done h =>
      obtain ⟨fuel, rfl⟩ := Nat.exists_eq_succ_of_ne_zero (Nat.ne_of_gt hfuel)
      rw [forAllAvpsLog, if_neg (by omega)]
      rfl
  | @next p e ps h hr ht ih =>
      obtain ⟨fuel, rfl⟩ := Nat.exists_eq_succ_of_ne_zero (Nat.ne_of_gt (Nat.zero_lt_of_lt hfuel))
      have h12 := (Refused.not hr).1
      rw [forAllAvpsLog_round (by omega), visit]
      refine Res.bind_congr fun x => ?_
      cases x with
      | inr r => rfl
      | inl s' => exact ih (by simpa using hfuel) s' _

end

/-! ## The two of them -/

/-- From one AVP to the next, and to the end: a positive number of words. -/
def Advances (ps : List Nat) (e : Nat) : Prop :=
  (ps ++ [e]).IsChain (fun a b => ∃ k, 0 < k ∧ b = a + 4 * k)

theorem advances_of_accepts {buf : List UInt8} {len p e : Nat} {ps : List Nat}
    (ha : Accepts buf len p ps e) : Advances ps e ∧ (ps ++ [e]).head? = some p := by
  induction ha with
  | done h => exact ⟨.singleton _, rfl⟩
  | @next p e ps h hr ht ih =>
      refine ⟨?_, rfl⟩
      have hs := strideAt_pos (Refused.not hr).2.1
      have hm := @strideAt_mod buf p
      have hstep : ∃ k, 0 < k ∧ p + strideAt buf p = p + 4 * k :=
        ⟨strideAt buf p / 4, by omega, by omega⟩
      unfold Advances at ih ⊢
      cases hps : ps ++ [e] with
      | nil => exact absurd hps (by simp)
      | cons q qs =>
          rw [hps] at ih
          obtain rfl : q = p + strideAt buf p := Option.some.inj ih.2
          rw [List.cons_append, hps]
          exact .cons_cons hstep ih.1

/--
**The two parsers agree.**

When the decoder accepts a buffer, its loop and the walker come by the same AVPs with the
same codes, in steps of a positive number of words, and stop at the same place, whatever
the walker does at each of them.
-/
theorem parsers_agree {src : Block} (hroom : Roomy src)
    (hlen : src.bytes.length = msgLenOf src.bytes) {mem : TranslateMem} {h h' : Heap} {m : Message}
    {attachBuf : Bool}
    (hdec : aaaTranslateMessage mem h src src.bytes.length attachBuf = .ok (h', m)) :
    ∃ ps e m', Advances ps e
      ∧ translateAvpsLog src (padd src.addr (msgLenOf src.bytes)) mem.avp (src.bytes.length + 1) 0
          (src.addr + aaaMsgHdrSize) h (hdrMessage src.bytes) []
        = .ok ((h', m'), ps.map (fun p => (src.addr + p, wordAt src.bytes p)), src.addr + e)
      ∧ m = m'.attach attachBuf src.bytes
      ∧ ∀ (σ ρ : Type) (body : σ → Nat → Nat → Res (σ ⊕ ρ)) (s : σ),
        forAllAvpsLog src.bytes body (src.bytes.length + 1) aaaMsgHdrSize s []
          = visit src.bytes body e ps s []
        ∧ ((∀ s c p, ∃ s', body s c p = .ok (.inl s')) →
          ∃ s', forAllAvpsLog src.bytes body (src.bytes.length + 1) aaaMsgHdrSize s []
            = .ok (.inl s', ps.map (fun p => (p, (wordAt src.bytes p).toNat)), e)) := by
  obtain ⟨h20, hmsg, hver, hle⟩ := aaaTranslateMessage_ok hdec
  have hfits := src.fits
  rcases aaaTranslateMessage_total hroom h20 mem h attachBuf with
    herr | ⟨ps, e, h₁, m₁, hacc, hrun, hd⟩
  · exact absurd (hdec.symm.trans herr) (by simp)
  · have hfit : ∀ q ∈ ps, Fits src q := fun q hq =>
      hroom.fits (Nat.lt_of_lt_of_le (hacc.avps.lt q hq) hle)
    have hps := hacc.avps.length_le
    have hwalk := hacc.avps
    -- the loop ended well, so it had memory, and ends the same way with its record
    rw [aaaTranslateMessage_eq mem h h20, if_neg (hacc.header hmsg)] at hdec
    obtain ⟨r, hr, hm⟩ := Res.bind_eq_ok hdec
    have hmem := translateAvps_mem hle hacc.avps hfit (avpList_hdrMessage h src.bytes) hr
    obtain ⟨h₂, m₂, new, hlog, -⟩ :=
      @translateAvpsLog_accepts src _ _ e ps mem.avp hle hacc.avps hfit (src.bytes.length + 1) 0 hmem
        (by omega) h (hdrMessage src.bytes) [] (avpList_hdrMessage h src.bytes) []
    have herase : translateAvps src (src.addr + msgLenOf src.bytes) mem.avp (src.bytes.length + 1) 0
        (src.addr + 20) h (hdrMessage src.bytes) = .ok (h₂, m₂) := by
      rw [← @translateAvpsLog_erase _ _ _ _ _ _ _ _ []]
      exact congrArg eraseLog hlog
    obtain rfl := Res.ok.inj (herase.symm.trans hr)
    obtain ⟨rfl, rfl⟩ := Prod.mk.inj (Res.ok.inj hm)
    refine ⟨ps, e, m₂, (advances_of_accepts hacc.avps).1, ?_, rfl, fun σ ρ body s => ?_⟩
    · rw [padd_eq (by omega)]
      exact hlog
    · rw [← hlen] at hwalk
      have hvisit : forAllAvpsLog src.bytes body (src.bytes.length + 1) aaaMsgHdrSize s []
          = visit src.bytes body e ps s [] := forAllAvpsLog_accepts hwalk (by omega) s []
      refine ⟨hvisit, fun hbody => ?_⟩
      rw [hvisit]
      exact visit_to_end hbody e ps s []

/-- A request with three AVPs: one that is padded, one with a vendor id, and a Class. -/
def threeAvps : List UInt8 :=
  [1, 0, 0, 60, 0x80, 0, 1, 9, 0, 0, 0, 1, 0, 0, 0, 7, 0, 0, 0, 8,
   0, 0, 1, 7, 0x40, 0, 0, 11, 97, 98, 99, 0,
   0, 0, 0, 1, 0xc0, 0, 0, 16, 0, 0, 40, 175, 98, 111, 98, 98,
   0, 0, 0, 25, 0x40, 0, 0, 12, 1, 2, 3, 4]

/-- Both parsers come by the AVPs at 20, 32 and 48. -/
theorem parsers_agree_sample :
    ∃ s', forAllAvpsLog threeAvps (fun (s : Nat) (_ _ : Nat) => (.ok (.inl (s + 1)) : Res (Nat ⊕ Bool)))
      61 aaaMsgHdrSize 0 [] = .ok (.inl s', [(20, 263), (32, 1), (48, 25)], 60) := by
  have hroom : Roomy ⟨2 ^ 24, threeAvps, by decide⟩ := ⟨by decide, by decide⟩
  obtain ⟨⟨h, m⟩, hdec⟩ : ∃ x, aaaTranslateMessage .all ⟨[]⟩ ⟨2 ^ 24, threeAvps, by decide⟩ 60 true = .ok x := by
    have hsome : (aaaTranslateMessage .all ⟨[]⟩ ⟨2 ^ 24, threeAvps, by decide⟩ 60 true).toOption.isSome := by
      decide +kernel
    obtain ⟨x, hx⟩ := Option.isSome_iff_exists.mp hsome
    exact ⟨x, Res.toOption_eq_some hx⟩
  obtain ⟨ps, e, m', -, hlog, -, hwalk⟩ := parsers_agree hroom (by decide) hdec
  -- what the decoder came by tells the offsets
  have hrun : (translateAvpsLog ⟨2 ^ 24, threeAvps, by decide⟩ (padd (2 ^ 24) (msgLenOf threeAvps))
      (TranslateMem.all).avp 61 0 (2 ^ 24 + aaaMsgHdrSize) ⟨[]⟩ (hdrMessage threeAvps) []).toOption.map (·.2)
      = some ([20, 32, 48].map (fun p => (2 ^ 24 + p, wordAt threeAvps p)), 2 ^ 24 + 60) := by
    decide +kernel
  have hsame := (congrArg (fun r => r.toOption.map (·.2)) hlog).symm.trans hrun
  obtain ⟨hps, he⟩ := Prod.mk.inj (Option.some.inj hsame)
  have hinj : Function.Injective fun p => (2 ^ 24 + p, wordAt threeAvps p) :=
    fun p q hpq => Nat.add_left_cancel (Prod.mk.inj hpq).1
  obtain rfl : ps = [20, 32, 48] := List.map_injective_iff.mpr hinj hps
  obtain rfl : e = 60 := Nat.add_left_cancel he
  exact (hwalk Nat Bool _ 0).2 fun s c p => ⟨s + 1, rfl⟩

end Disc.Transport
