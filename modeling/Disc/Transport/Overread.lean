import Disc.Transport.Verdict

/-!
# Which buffers the peer functions can read

`process_ce`, `process_dw` and `process_dp` get a buffer of which nothing is known but that
its length is the one its header gives. They follow the lengths of the AVPs without looking
whether these lead anywhere: an AVP of length zero is visited for ever, and one that is cut
off is read beyond the end of the buffer. This file says exactly which buffers are read
to the end, or to a Result-Code that ends the matter, without either happening.
-/

namespace Disc.Transport

open Disc.Lib Disc.Msg

/-! ## The `switch` of `process_dw` and `process_dp` -/

/-- A Result-Code that makes `process_dw` and `process_dp` give up; here the header is taken to be short. -/
def StdFailsAt (buf : List UInt8) (q : Nat) : Prop :=
  (wordAt buf q).toNat = 268 ∧ thirdWord buf q ≠ aaaSuccess

/-- The end of what they read at an AVP, besides its header. -/
def stdNeed (buf : List UInt8) (_ : List Nat) (q : Nat) : Nat :=
  if (wordAt buf q).toNat = 268 then q + 12 else 0

section

variable {cause : Bool} {buf : List UInt8} {mask q : Nat}

theorem stdSwitch_resultCode (hc : (wordAt buf q).toNat = 268) :
    stdSwitch cause buf mask (wordAt buf q).toNat q
      = if q + 12 ≤ buf.length then
          (if thirdWord buf q ≠ aaaSuccess then .ok (.inr ()) else .ok (.inl (mask ||| 1)))
        else .fault := by
  rw [hc]
  simp only [stdSwitch]
  by_cases hin : q + 12 ≤ buf.length
  · rw [if_pos hin, load4_eq (by omega), Res.ok_bind]
    rfl
  · rw [if_neg hin, load4_fault (by omega)]
    rfl

theorem stdSwitch_other (hc : (wordAt buf q).toNat ≠ 268) :
    ∃ mask', stdSwitch cause buf mask (wordAt buf q).toNat q = .ok (.inl mask') := by
  unfold stdSwitch
  split
  · contradiction
  all_goals exact ⟨_, rfl⟩

end

/-- The `switch` of `process_dw` and `process_dp`. -/
def stdReads (cause : Bool) (buf : List UInt8) : Switch buf (stdSwitch cause buf) where
  leaves := StdFailsAt buf
  result := fun _ => ()
  need := stdNeed buf
  seen := fun _ _ => True
  fault := by
    intro ps s q _ _ hn
    unfold stdNeed at hn
    split at hn
    · rename_i hc
      rw [stdSwitch_resultCode hc, if_neg (by omega)]
    · omega
  leave := by
    intro ps s q _ _ hn hl
    unfold stdNeed at hn
    rw [if_pos hl.1] at hn
    rw [stdSwitch_resultCode hl.1, if_pos hn, if_pos hl.2]
  goOn := by
    intro ps s q _ _ hn hl
    by_cases hc : (wordAt buf q).toNat = 268
    · unfold stdNeed at hn
      rw [if_pos hc] at hn
      have hok : ¬ thirdWord buf q ≠ aaaSuccess := fun hne => hl ⟨hc, hne⟩
      exact ⟨s ||| 1, by rw [stdSwitch_resultCode hc, if_pos hn, if_neg hok], trivial⟩
    · obtain ⟨mask', h⟩ := @stdSwitch_other cause buf s q hc
      exact ⟨mask', h, trivial⟩

/-! ## The condition -/

/-- Every AVP that is reached has what is read of it inside the buffer, and leads on. -/
def Legible (buf : List UInt8) (fails : Nat → Prop) (need : List Nat → Nat → Nat) : Prop :=
  ∀ ps q, Trail buf fails aaaMsgHdrSize ps q → q < buf.length →
    q + 4 ≤ buf.length ∧ need ps q ≤ buf.length ∧ (¬ fails q → q + 8 ≤ buf.length ∧ lenAt buf q ≠ 0)

/-- The message can succeed: it has the five AVPs, and a Result-Code or an application id. -/
def CanSucceed (buf : List UInt8) (ps : List Nat) : Prop :=
  hasFive buf ps = true
    ∧ (hasKind buf 268 ps = true ∨ hasKind buf 258 ps = true ∨ hasKind buf 259 ps = true)

/-- The Origin-Realm is no shorter than its header and ends inside the buffer. -/
def RealmInside (buf : List UInt8) (q : Nat) : Prop :=
  hdrAt buf q ≤ lenAt buf q ∧ q + lenAt buf q ≤ buf.length

/-- The buffers all three functions read without harm. -/
structure ReadsInside (buf : List UInt8) : Prop where
  ce : Legible buf (FailsAt buf) (ceNeed buf)
  std : Legible buf (StdFailsAt buf) (stdNeed buf)
  realm : ∀ ps e r, Trail buf (FailsAt buf) aaaMsgHdrSize ps e → buf.length ≤ e → CanSucceed buf ps →
    (ofKind buf 296 ps).getLast? = some r → RealmInside buf r

/-- The three functions end and read nothing outside the buffer, whatever the node and the role. -/
def StaysInside (buf : List UInt8) : Prop :=
  ∀ (cfg : Cfg) (mem : CeMem) (isReq : Bool),
    (∃ r, processCe cfg mem buf isReq = .ok r) ∧ (∃ b, processDw buf isReq = .ok b)
      ∧ ∃ b, processDp buf isReq = .ok b

section

variable {buf : List UInt8}

theorem Trail.mem {leaves : Nat → Prop} {p q : Nat} {ps : List Nat} (ht : Trail buf leaves p ps q) :
    ∀ r ∈ ps, r + 8 ≤ buf.length := by
  induction ht with
  | here => exact fun r hr => absurd hr (by simp)
  | pass h8 hl hs ht ih =>
      intro r hr
      rcases List.mem_cons.mp hr with rfl | hr
      · exact h8
      · exact ih r hr

/-- Copying the realm out of the buffer. -/
theorem saveRealm_ok {q : Nat} (h8 : q + 8 ≤ buf.length) :
    (∃ x, saveRealm true buf q = .ok x) ↔ RealmInside buf q := by
  have hh := @hdrAt_le buf q
  have hl := @lenAt_lt buf q
  have hflags : avpFlagsAt buf q = .ok (flagsAt buf q) := by
    unfold avpFlagsAt slice
    rw [if_pos (by omega)]
    rfl
  have hlen : ofBe (((buf.drop (q + 4)).take 4).drop 1) = lenAt buf q := by
    rw [List.drop_take, List.drop_drop]
    rfl
  rw [saveRealm, load4_eq (by omega), Res.ok_bind, hflags, Res.ok_bind, hlen]
  simp only [show avpHdrSize (flagsAt buf q) = hdrAt buf q from rfl]
  rw [if_neg (by simp)]
  unfold RealmInside
  by_cases hshort : lenAt buf q < hdrAt buf q
  · -- a negative length
    have hneg : 2 ^ 31 ≤ usub (lenAt buf q) (hdrAt buf q) := by
      unfold usub
      omega
    rw [if_pos hneg]
    constructor
    · rintro ⟨x, hx⟩
      cases hx
    · omega
  · have hsub : usub (lenAt buf q) (hdrAt buf q) = lenAt buf q - hdrAt buf q :=
      usub_eq (by omega) (by omega)
    rw [hsub, if_neg (by omega), slice]
    by_cases hin : q + lenAt buf q ≤ buf.length
    · rw [if_pos (by omega)]
      exact ⟨fun _ => ⟨by omega, hin⟩, fun _ => ⟨_, rfl⟩⟩
    · rw [if_neg (by omega)]
      constructor
      · rintro ⟨x, hx⟩
        cases hx
      · omega

/-- A message that succeeds is one that can. -/
theorem Collected.canSucceed {cfg : Cfg} {ps : List Nat} {s : CeState} {isReq : Bool}
    (hs : Collected cfg buf ps s) (hv : ceVerdict s isReq = aaaSuccess) : CanSucceed buf ps := by
  cases isReq with
  | false =>
      obtain ⟨h5, h268⟩ := hs.verdict_ans.mp hv
      exact ⟨h5, Or.inl h268⟩
  | true =>
      obtain ⟨h5, -, hany⟩ := hs.verdict_req.mp hv
      refine ⟨h5, Or.inr ?_⟩
      rw [Bool.or_eq_true, hs.auth, hs.acct] at hany
      -- an id that was accepted stands in some AVP
      rcases hany with hany | hany
      all_goals
        obtain ⟨x, hx, -⟩ := List.any_eq_true.mp hany
        obtain ⟨q, hq, -⟩ := List.mem_map.mp hx
        have hk := mem_ofKind.mp (List.mem_of_mem_take hq)
      · exact Or.inl (hasKind_iff.mpr ⟨q, hk⟩)
      · exact Or.inr (hasKind_iff.mpr ⟨q, hk⟩)

/-- And one that can does, at a relay that gets it in the right role. -/
theorem Collected.succeeds {ps : List Nat} {s : CeState} (hs : Collected relayCfg buf ps s)
    (hc : CanSucceed buf ps) : ∃ isReq, ceVerdict s isReq = aaaSuccess := by
  obtain ⟨h5, hk⟩ := hc
  cases h268 : hasKind buf 268 ps with
  | true => exact ⟨false, hs.verdict_ans.mpr ⟨h5, h268⟩⟩
  | false =>
      refine ⟨true, hs.verdict_req.mpr ⟨h5, h268, ?_⟩⟩
      have hfirst : ∀ {code}, hasKind buf code ps = true →
          ∃ x, x ∈ (firstOfKind buf code ps).map (thirdWord buf) := by
        intro code hcode
        obtain ⟨q, hq⟩ := hasKind_iff.mp hcode
        have hne : ofKind buf code ps ≠ [] := List.ne_nil_of_mem (mem_ofKind.mpr hq)
        have hne' : firstOfKind buf code ps ≠ [] := by
          simpa [firstOfKind, maxAppidPerPeer] using hne
        obtain ⟨r, hr⟩ := List.exists_mem_of_ne_nil _ hne'
        exact ⟨_, List.mem_map_of_mem (f := thirdWord buf) hr⟩
      rw [Bool.or_eq_true, List.any_eq_true, List.any_eq_true, hs.auth, hs.acct]
      rcases hk with hk | hk | hk
      · exact absurd hk (by simp [h268])
      · obtain ⟨x, hx⟩ := hfirst hk
        exact Or.inl ⟨x, hx, rfl⟩
      · obtain ⟨x, hx⟩ := hfirst hk
        exact Or.inr ⟨x, hx, rfl⟩

/-- `process_ce` on a buffer that can be read. -/
theorem ReadsInside.processCe_ok (hr : ReadsInside buf) (cfg : Cfg) (mem : CeMem) (isReq : Bool) :
    ∃ r, processCe cfg mem buf isReq = .ok r := by
  have hin : ∀ us q, Trail buf (ceReads cfg buf).leaves aaaMsgHdrSize us q → q < buf.length →
      (ceReads cfg buf).Inside ([] ++ us) q := by
    intro us q htr hq
    obtain ⟨h4, hn, hx⟩ := hr.ce us q htr hq
    exact ⟨h4, hn, hx⟩
  rw [processCe_eq]
  rcases (ceReads cfg buf).outcome (collected_ceStart cfg buf) hin
      (show buf.length - aaaMsgHdrSize < buf.length + 1 by omega) with
    ⟨us, e, s, htr, he, hs, hrun⟩ | ⟨us, q, htr, hq, hl, hrun⟩
  · have hcol : Collected cfg buf us s := hs
    rw [hrun, Res.ok_bind, ceFinish]
    split
    · rename_i hv
      have hcs := hcol.canSucceed hv
      obtain ⟨r, hlast⟩ := exists_realm hcs.1
      have hmem : r ∈ us := (mem_ofKind.mp (List.mem_of_getLast? hlast)).1
      rw [hcol.realm, hlast]
      dsimp only
      cases hm : mem.realm with
      | true =>
          obtain ⟨x, hx⟩ := (saveRealm_ok (htr.mem r hmem)).mpr (hr.realm us e r htr he hcs hlast)
          rw [hx]
          exact ⟨_, rfl⟩
      -- without memory nothing is copied
      | false =>
          have h8 := htr.mem r hmem
          have hflags : avpFlagsAt buf r = .ok (flagsAt buf r) := by
            unfold avpFlagsAt slice
            rw [if_pos (by omega)]
            rfl
          rw [saveRealm, load4_eq (by omega), Res.ok_bind, hflags, Res.ok_bind]
          simp
    · exact ⟨_, rfl⟩
  · rw [hrun]
    exact ⟨_, rfl⟩

theorem processStd_ok (hl : Legible buf (StdFailsAt buf) (stdNeed buf)) (cause : Bool) (pattern : Nat) :
    ∃ b, processStd cause pattern buf = .ok b := by
  have hin : ∀ us q, Trail buf (stdReads cause buf).leaves aaaMsgHdrSize us q → q < buf.length →
      (stdReads cause buf).Inside ([] ++ us) q := by
    intro us q htr hq
    obtain ⟨h4, hn, hx⟩ := hl us q htr hq
    exact ⟨h4, hn, hx⟩
  unfold processStd
  rcases @Switch.outcome _ _ _ _ (stdReads cause buf) aaaMsgHdrSize (buf.length + 1) [] 0 trivial hin
      (by omega) with
    ⟨us, e, s, -, -, -, hrun⟩ | ⟨us, q, -, -, -, hrun⟩
  · rw [hrun]
    exact ⟨_, rfl⟩
  · rw [hrun]
    exact ⟨_, rfl⟩

/--
**Which buffers can be read.**

Exactly those in which every AVP that is reached, going from each one on by its own
length, has its header inside the buffer, a length that is not zero and the words that are
read of it inside the buffer, and whose realm is complete if it is going to be copied.
-/
theorem staysInside_iff (buf : List UInt8) : StaysInside buf ↔ ReadsInside buf := by
  constructor
  · intro hstay
    obtain ⟨⟨r, hce⟩, ⟨b, hdw⟩, -⟩ := hstay relayCfg .all true
    rw [processCe_eq] at hce
    obtain ⟨x, hwalk, -⟩ := Res.bind_eq_ok hce
    obtain ⟨y, hstd, -⟩ := Res.bind_eq_ok hdw
    have hlegible : Legible buf (FailsAt buf) (ceNeed buf) := by
      intro us q htr hq
      have hi := (ceReads relayCfg buf).inside (collected_ceStart relayCfg buf) hwalk htr hq
      exact ⟨hi.code, hi.data, hi.next⟩
    refine ⟨hlegible, ?_, ?_⟩
    · intro us q htr hq
      have hi := @Switch.inside _ _ _ _ (stdReads false buf) _ _ [] 0 trivial _ hstd _ _ htr hq
      exact ⟨hi.code, hi.data, hi.next⟩
    · intro ps e r htr he hcs hlast
      have hin : ∀ us q, Trail buf (ceReads relayCfg buf).leaves aaaMsgHdrSize us q → q < buf.length →
          (ceReads relayCfg buf).Inside ([] ++ us) q := fun us q htr hq =>
        (ceReads relayCfg buf).inside (collected_ceStart relayCfg buf) hwalk htr hq
      rcases (ceReads relayCfg buf).outcome (collected_ceStart relayCfg buf) hin
          (show buf.length - aaaMsgHdrSize < buf.length + 1 by omega) with
        ⟨us, e', s, htr', he', hs, hrun⟩ | ⟨us, q, htr', hq, hl, hrun⟩
      · obtain ⟨rfl, rfl⟩ := htr.unique htr' (Or.inl he) (Or.inl he')
        have hcol : Collected relayCfg buf ps s := hs
        obtain ⟨isReq, hv⟩ := hcol.succeeds hcs
        obtain ⟨⟨r', hce'⟩, -⟩ := hstay relayCfg .all isReq
        rw [processCe_eq, hrun, Res.ok_bind, ceFinish, if_pos hv, hcol.realm, hlast] at hce'
        obtain ⟨z, hz, -⟩ := Res.bind_eq_ok hce'
        have hmem : r ∈ ps := (mem_ofKind.mp (List.mem_of_getLast? hlast)).1
        exact (saveRealm_ok (htr.mem r hmem)).mp ⟨z, hz⟩
      -- a walk that went to the end was not left before
      · obtain ⟨rfl, rfl⟩ := htr.unique htr' (Or.inl he) (Or.inr hl)
        omega
  · intro hr cfg mem isReq
    exact ⟨hr.processCe_ok cfg mem isReq, processStd_ok hr.std _ _, processStd_ok hr.std _ _⟩

end

/-- A DWR whose only AVP, an Origin-Host, gives zero as its length. -/
def zeroLengthDwr : List UInt8 :=
  [1, 0, 0, 28, 0x80, 0, 1, 24, 0, 0, 0, 0, 0, 0, 0, 0, 0, 0, 0, 0, 0, 0, 1, 8, 0x40, 0, 0, 0]

/-- It has the length its header gives, and no function ever gets past its AVP. -/
theorem zeroLengthDwr_stuck :
    zeroLengthDwr.length = msgLenOf zeroLengthDwr ∧ aaaMsgHdrSize ≤ zeroLengthDwr.length
      ∧ zeroLengthDwr.length ≤ 65536 ∧ ¬ StaysInside zeroLengthDwr := by
  refine ⟨by decide, by decide, by decide, fun hstay => ?_⟩
  obtain ⟨-, ⟨b, hdw⟩, -⟩ := hstay relayCfg .all true
  obtain ⟨y, hstd, -⟩ := Res.bind_eq_ok hdw
  exact @Switch.stuck _ _ _ _ (stdReads false zeroLengthDwr) aaaMsgHdrSize _ [] 0 trivial (by decide)
    (fun hl => absurd hl.1 (by decide)) (by decide) _ hstd

end Disc.Transport
