import Disc.Transport.Trail

/-!
# What `process_ce` concludes

The loop of `process_ce` has one variable for several purposes: the Result-Code, every
acceptable application id and, in the end, a missing AVP all write to `code`. Read from the
AVPs that have been passed it is simple all the same. `Collected` says what each variable
holds after them, in whatever order they came.
-/

namespace Disc.Transport

open Disc.Lib Disc.Msg

/-! ## The AVPs of a kind -/

section

variable (buf : List UInt8)

/-- The AVPs with the given code. -/
def ofKind (code : Nat) (ps : List Nat) : List Nat := ps.filter fun q => (wordAt buf q).toNat = code

/-- Is there an AVP with the given code? -/
def hasKind (code : Nat) (ps : List Nat) : Bool := ps.any fun q => (wordAt buf q).toNat = code

/-- The word behind the first eight bytes of an AVP. -/
def thirdWord (q : Nat) : UInt32 := wordAt buf (q + 8)

/-- The number an AVP carries. -/
def dataWord (q : Nat) : UInt32 := wordAt buf (q + hdrAt buf q)

/-- As many AVPs of a kind as there is room for ids. -/
def firstOfKind (code : Nat) (ps : List Nat) : List Nat := (ofKind buf code ps).take maxAppidPerPeer

variable {buf} {code q : Nat} {ps : List Nat}

theorem ofKind_snoc : ofKind buf code (ps ++ [q])
    = if (wordAt buf q).toNat = code then ofKind buf code ps ++ [q] else ofKind buf code ps := by
  unfold ofKind
  rw [List.filter_append]
  split <;> simp [*]

theorem hasKind_snoc : hasKind buf code (ps ++ [q])
    = (hasKind buf code ps || decide ((wordAt buf q).toNat = code)) := by
  simp [hasKind, List.any_append]

theorem mem_ofKind : q ∈ ofKind buf code ps ↔ q ∈ ps ∧ (wordAt buf q).toNat = code := by
  simp [ofKind]

theorem hasKind_iff : hasKind buf code ps = true ↔ ∃ q ∈ ps, (wordAt buf q).toNat = code := by
  simp [hasKind]

theorem length_firstOfKind :
    (firstOfKind buf code ps).length = maxAppidPerPeer ↔ maxAppidPerPeer ≤ (ofKind buf code ps).length := by
  rw [firstOfKind, List.length_take]
  omega

/-- Another one is taken as long as there is room for it. -/
theorem firstOfKind_snoc (hq : (wordAt buf q).toNat = code) : firstOfKind buf code (ps ++ [q])
    = if (firstOfKind buf code ps).length = maxAppidPerPeer then firstOfKind buf code ps
      else firstOfKind buf code ps ++ [q] := by
  have hlen := @length_firstOfKind buf code ps
  unfold firstOfKind at hlen ⊢
  rw [ofKind_snoc, if_pos hq]
  split
  · rename_i h
    rw [List.take_append_of_le_length (hlen.mp h)]
  · rename_i h
    have hlt : (ofKind buf code ps).length < maxAppidPerPeer := Nat.lt_of_not_le (mt hlen.mpr h)
    rw [List.take_of_length_le (by rw [List.length_append, List.length_singleton]; omega),
      List.take_of_length_le (by omega)]

theorem firstOfKind_snoc_ne (hq : (wordAt buf q).toNat ≠ code) :
    firstOfKind buf code (ps ++ [q]) = firstOfKind buf code ps := by
  rw [firstOfKind, ofKind_snoc, if_neg hq, firstOfKind]

end

/-! ## The variables of the loop -/

/-- The bits `set_bit_in_mask` sets for the AVPs that were seen. -/
def maskOf (resultCode origHost origRealm hostIp vendor product : Bool) : Nat :=
  (if resultCode then 1 else 0) ||| (if origHost then 2 else 0) ||| (if origRealm then 4 else 0)
    ||| (if hostIp then 8 else 0) ||| (if vendor then 16 else 0) ||| (if product then 32 else 0)

/-- The mask after the given AVPs. -/
def ceMask (buf : List UInt8) (ps : List Nat) : Nat :=
  maskOf (hasKind buf 268 ps) (hasKind buf 264 ps) (hasKind buf 296 ps) (hasKind buf 257 ps)
    (hasKind buf 266 ps) (hasKind buf 269 ps)

/-- What the variables of `process_ce` hold after the given AVPs. -/
structure Collected (cfg : Cfg) (buf : List UInt8) (ps : List Nat) (s : CeState) : Prop where
  mask : s.mask = ceMask buf ps
  auth : s.authAppIds = (firstOfKind buf 258 ps).map (thirdWord buf)
  acct : s.acctAppIds = (firstOfKind buf 259 ps).map (thirdWord buf)
  realm : s.realm = (ofKind buf 296 ps).getLast?
  code : s.code = if hasKind buf 268 ps || s.authAppIds.any (cfg.accepts (·.doesAuth))
      || s.acctAppIds.any (cfg.accepts (·.doesAcct)) then aaaSuccess else aaaNoCommonApplication

/-- A Result-Code that makes `process_ce` return it. -/
def FailsAt (buf : List UInt8) (q : Nat) : Prop :=
  (wordAt buf q).toNat = 268 ∧ dataWord buf q ≠ aaaSuccess

/-- The end of what `process_ce` reads at an AVP, besides its header. -/
def ceNeed (buf : List UInt8) (ps : List Nat) (q : Nat) : Nat :=
  match (wordAt buf q).toNat with
  | 268 => q + hdrAt buf q + 4
  | 258 => if (firstOfKind buf 258 ps).length = maxAppidPerPeer then 0 else q + 12
  | 259 => if (firstOfKind buf 259 ps).length = maxAppidPerPeer then 0 else q + 12
  | _ => 0

section

variable {cfg : Cfg} {buf : List UInt8} {ps : List Nat} {s : CeState} {q : Nat}

/-- The Result-Code is read behind the whole header. -/
theorem ceSwitch_resultCode (hc : (wordAt buf q).toNat = 268) :
    ceSwitch cfg buf s (wordAt buf q).toNat q
      = if q + hdrAt buf q + 4 ≤ buf.length then
          (if dataWord buf q ≠ aaaSuccess then .ok (.inr (dataWord buf q))
           else .ok (.inl { s with mask := s.mask ||| 1, code := dataWord buf q }))
        else .fault := by
  have hh := @hdrAt_le buf q
  rw [hc]
  simp only [ceSwitch]
  by_cases h5 : q + 4 + 1 ≤ buf.length
  · have hflags : avpFlagsAt buf q = .ok (flagsAt buf q) := by
      unfold avpFlagsAt slice
      rw [if_pos h5]
      rfl
    rw [hflags, Res.ok_bind]
    by_cases hin : q + hdrAt buf q + 4 ≤ buf.length
    · rw [if_pos hin, show avpHdrSize (flagsAt buf q) = hdrAt buf q from rfl, load4_eq hin, Res.ok_bind]
      rfl
    · rw [if_neg hin, show avpHdrSize (flagsAt buf q) = hdrAt buf q from rfl, load4_fault (by omega)]
      rfl
  · have hflags : avpFlagsAt buf q = .fault := by
      unfold avpFlagsAt slice
      rw [if_neg h5]
      rfl
    rw [hflags, if_neg (by omega)]
    rfl

/-- An id is read behind the first eight bytes. -/
theorem ceSwitch_acct (hc : (wordAt buf q).toNat = 259) (hr : s.acctAppIds.length ≠ maxAppidPerPeer) :
    ceSwitch cfg buf s (wordAt buf q).toNat q
      = if q + 12 ≤ buf.length then
          .ok (.inl { s with
            acctAppIds := s.acctAppIds ++ [thirdWord buf q]
            code := if cfg.accepts (·.doesAcct) (thirdWord buf q) then aaaSuccess else s.code })
        else .fault := by
  rw [hc]
  simp only [ceSwitch, if_neg hr]
  by_cases hin : q + 12 ≤ buf.length
  · rw [if_pos hin, load4_eq (by omega), Res.ok_bind]
    rfl
  · rw [if_neg hin, load4_fault (by omega)]
    rfl

theorem ceSwitch_auth (hc : (wordAt buf q).toNat = 258) (hr : s.authAppIds.length ≠ maxAppidPerPeer) :
    ceSwitch cfg buf s (wordAt buf q).toNat q
      = if q + 12 ≤ buf.length then
          .ok (.inl { s with
            authAppIds := s.authAppIds ++ [thirdWord buf q]
            code := if cfg.accepts (·.doesAuth) (thirdWord buf q) then aaaSuccess else s.code })
        else .fault := by
  rw [hc]
  simp only [ceSwitch, if_neg hr]
  by_cases hin : q + 12 ≤ buf.length
  · rw [if_pos hin, load4_eq (by omega), Res.ok_bind]
    rfl
  · rw [if_neg hin, load4_fault (by omega)]
    rfl

theorem ceSwitch_fault (hs : Collected cfg buf ps s) (hn : buf.length < ceNeed buf ps q) :
    ceSwitch cfg buf s (wordAt buf q).toNat q = .fault := by
  unfold ceNeed at hn
  split at hn
  · rename_i hc
    rw [ceSwitch_resultCode hc, if_neg (by omega)]
  · rename_i hc
    split at hn
    · omega
    · rename_i hr
      rw [ceSwitch_auth hc (by rw [hs.auth, List.length_map]; exact hr), if_neg (by omega)]
  · rename_i hc
    split at hn
    · omega
    · rename_i hr
      rw [ceSwitch_acct hc (by rw [hs.acct, List.length_map]; exact hr), if_neg (by omega)]
  · omega

theorem ceSwitch_leave (hn : ceNeed buf ps q ≤ buf.length) (hl : FailsAt buf q) :
    ceSwitch cfg buf s (wordAt buf q).toNat q = .ok (.inr (dataWord buf q)) := by
  have hin : q + hdrAt buf q + 4 ≤ buf.length := by
    unfold ceNeed at hn
    rw [hl.1] at hn
    exact hn
  rw [ceSwitch_resultCode hl.1, if_pos hin, if_pos hl.2]

/-- An AVP that is neither a Result-Code nor an id changes the mask and the realm only. -/
theorem Collected.snoc_plain {s' : CeState} (hs : Collected cfg buf ps s)
    (h268 : (wordAt buf q).toNat ≠ 268) (h258 : (wordAt buf q).toNat ≠ 258)
    (h259 : (wordAt buf q).toNat ≠ 259) (hmask : s'.mask = ceMask buf (ps ++ [q]))
    (hrealm : s'.realm = (ofKind buf 296 (ps ++ [q])).getLast?)
    (hauth : s'.authAppIds = s.authAppIds) (hacct : s'.acctAppIds = s.acctAppIds)
    (hcode : s'.code = s.code) : Collected cfg buf (ps ++ [q]) s' where
  mask := hmask
  auth := by rw [hauth, firstOfKind_snoc_ne h258, hs.auth]
  acct := by rw [hacct, firstOfKind_snoc_ne h259, hs.acct]
  realm := hrealm
  code := by
    rw [hcode, hauth, hacct, hasKind_snoc, hs.code, decide_eq_false h268, Bool.or_false]

/-- The AVPs that only set their bit. -/
theorem Collected.snoc_bit {bit : Nat} (hs : Collected cfg buf ps s)
    (h268 : (wordAt buf q).toNat ≠ 268) (h258 : (wordAt buf q).toNat ≠ 258)
    (h259 : (wordAt buf q).toNat ≠ 259) (h296 : (wordAt buf q).toNat ≠ 296)
    (hbit : ceMask buf ps ||| bit = ceMask buf (ps ++ [q])) :
    Collected cfg buf (ps ++ [q]) { s with mask := s.mask ||| bit } := by
  refine hs.snoc_plain h268 h258 h259 ?_ ?_ rfl rfl rfl
  · rw [← hbit, ← hs.mask]
  · rw [ofKind_snoc, if_neg h296]
    exact hs.realm

/-- Setting the bits of the mask one by one. -/
theorem maskOf_or (a b c d e f : Bool) :
    maskOf a b c d e f ||| 1 = maskOf true b c d e f ∧ maskOf a b c d e f ||| 2 = maskOf a true c d e f
      ∧ maskOf a b c d e f ||| 4 = maskOf a b true d e f
      ∧ maskOf a b c d e f ||| 8 = maskOf a b c true e f
      ∧ maskOf a b c d e f ||| 16 = maskOf a b c d true f
      ∧ maskOf a b c d e f ||| 32 = maskOf a b c d e true := by
  revert a b c d e f
  decide

theorem ceMask_snoc (code : Nat) (hc : (wordAt buf q).toNat = code) :
    ceMask buf (ps ++ [q]) = maskOf (hasKind buf 268 ps || decide (code = 268))
      (hasKind buf 264 ps || decide (code = 264)) (hasKind buf 296 ps || decide (code = 296))
      (hasKind buf 257 ps || decide (code = 257)) (hasKind buf 266 ps || decide (code = 266))
      (hasKind buf 269 ps || decide (code = 269)) := by
  simp only [ceMask, hasKind_snoc, hc]

/-- An id of a kind: mask and realm stay, and the code becomes success if the id is acceptable. -/
theorem ceMask_snoc_id (hq : (wordAt buf q).toNat = 258 ∨ (wordAt buf q).toNat = 259) :
    ceMask buf (ps ++ [q]) = ceMask buf ps ∧ ofKind buf 296 (ps ++ [q]) = ofKind buf 296 ps
      ∧ hasKind buf 268 (ps ++ [q]) = hasKind buf 268 ps := by
  refine ⟨?_, by rw [ofKind_snoc, if_neg (by omega)], ?_⟩
  · rcases hq with hq | hq <;> rw [ceMask_snoc _ hq, ceMask] <;> simp
  · rw [hasKind_snoc, decide_eq_false (by omega), Bool.or_false]

/-- Once success, always success. -/
theorem ite_or {α : Type} (a b : Bool) (x y : α) :
    (if b then x else if a then x else y) = if a || b then x else y := by
  cases a <;> cases b <;> rfl

theorem ceSwitch_goOn_acct (hs : Collected cfg buf ps s) (hn : ceNeed buf ps q ≤ buf.length)
    (hc : (wordAt buf q).toNat = 259) :
    ∃ s', ceSwitch cfg buf s (wordAt buf q).toNat q = .ok (.inl s')
      ∧ Collected cfg buf (ps ++ [q]) s' := by
  obtain ⟨hmask, hreal, hres⟩ := @ceMask_snoc_id buf ps q (Or.inr hc)
  have hlen : s.acctAppIds.length = (firstOfKind buf 259 ps).length := by rw [hs.acct, List.length_map]
  have hnext := @firstOfKind_snoc buf 259 q ps hc
  -- the sixty-fifth id and all later ones are not even read
  by_cases hr : s.acctAppIds.length = maxAppidPerPeer
  · refine ⟨s, by rw [hc]; simp only [ceSwitch, if_pos hr]; rfl, ?_⟩
    rw [if_pos (hlen ▸ hr)] at hnext
    refine ⟨by rw [hmask, hs.mask], by rw [firstOfKind_snoc_ne (by omega), hs.auth],
      by rw [hnext, hs.acct], by rw [hreal, hs.realm], by rw [hres, hs.code]⟩
  · have hin : q + 12 ≤ buf.length := by
      unfold ceNeed at hn
      rw [hc] at hn
      simpa [hlen ▸ hr] using hn
    rw [if_neg (hlen ▸ hr)] at hnext
    refine ⟨_, by rw [ceSwitch_acct hc hr, if_pos hin], ?_⟩
    refine ⟨by rw [hmask]; exact hs.mask, by rw [firstOfKind_snoc_ne (by omega)]; exact hs.auth, ?_,
      by rw [hreal]; exact hs.realm, ?_⟩
    · rw [hnext, List.map_append, ← hs.acct]
      rfl
    · dsimp only
      rw [hres, hs.code, ite_or, List.any_append, List.any_cons, List.any_nil, Bool.or_false,
        ← Bool.or_assoc]

theorem ceSwitch_goOn_auth (hs : Collected cfg buf ps s) (hn : ceNeed buf ps q ≤ buf.length)
    (hc : (wordAt buf q).toNat = 258) :
    ∃ s', ceSwitch cfg buf s (wordAt buf q).toNat q = .ok (.inl s')
      ∧ Collected cfg buf (ps ++ [q]) s' := by
  obtain ⟨hmask, hreal, hres⟩ := @ceMask_snoc_id buf ps q (Or.inl hc)
  have hlen : s.authAppIds.length = (firstOfKind buf 258 ps).length := by rw [hs.auth, List.length_map]
  have hnext := @firstOfKind_snoc buf 258 q ps hc
  by_cases hr : s.authAppIds.length = maxAppidPerPeer
  · refine ⟨s, by rw [hc]; simp only [ceSwitch, if_pos hr]; rfl, ?_⟩
    rw [if_pos (hlen ▸ hr)] at hnext
    refine ⟨by rw [hmask, hs.mask], by rw [hnext, hs.auth],
      by rw [firstOfKind_snoc_ne (by omega), hs.acct], by rw [hreal, hs.realm], by rw [hres, hs.code]⟩
  · have hin : q + 12 ≤ buf.length := by
      unfold ceNeed at hn
      rw [hc] at hn
      simpa [hlen ▸ hr] using hn
    rw [if_neg (hlen ▸ hr)] at hnext
    refine ⟨_, by rw [ceSwitch_auth hc hr, if_pos hin], ?_⟩
    refine ⟨by rw [hmask]; exact hs.mask, ?_, by rw [firstOfKind_snoc_ne (by omega)]; exact hs.acct,
      by rw [hreal]; exact hs.realm, ?_⟩
    · rw [hnext, List.map_append, ← hs.auth]
      rfl
    · dsimp only
      rw [hres, hs.code, ite_or, List.any_append, List.any_cons, List.any_nil, Bool.or_false,
        ← Bool.or_assoc, Bool.or_right_comm _ _ (cfg.accepts (·.doesAuth) _)]

theorem ceSwitch_goOn (hs : Collected cfg buf ps s) (hn : ceNeed buf ps q ≤ buf.length)
    (hl : ¬ FailsAt buf q) :
    ∃ s', ceSwitch cfg buf s (wordAt buf q).toNat q = .ok (.inl s') ∧ Collected cfg buf (ps ++ [q]) s' := by
  have hor := maskOf_or (hasKind buf 268 ps) (hasKind buf 264 ps) (hasKind buf 296 ps)
    (hasKind buf 257 ps) (hasKind buf 266 ps) (hasKind buf 269 ps)
  by_cases h268 : (wordAt buf q).toNat = 268
  · have hok : dataWord buf q = aaaSuccess := by
      by_contra hne
      exact hl ⟨h268, hne⟩
    have hin : q + hdrAt buf q + 4 ≤ buf.length := by
      unfold ceNeed at hn
      rw [h268] at hn
      exact hn
    refine ⟨_, by rw [ceSwitch_resultCode h268, if_pos hin, if_neg (not_not.mpr hok)], ?_⟩
    refine ⟨?_, ?_, ?_, ?_, ?_⟩
    · rw [ceMask_snoc 268 h268]
      simpa [hs.mask, ceMask] using hor.1
    · rw [firstOfKind_snoc_ne (by omega)]
      exact hs.auth
    · rw [firstOfKind_snoc_ne (by omega)]
      exact hs.acct
    · rw [ofKind_snoc, if_neg (by omega)]
      exact hs.realm
    · rw [hasKind_snoc, decide_eq_true h268, Bool.or_true, Bool.true_or, Bool.true_or]
      exact hok
  by_cases h259 : (wordAt buf q).toNat = 259
  · exact ceSwitch_goOn_acct hs hn h259
  by_cases h258 : (wordAt buf q).toNat = 258
  · exact ceSwitch_goOn_auth hs hn h258
  by_cases h296 : (wordAt buf q).toNat = 296
  · refine ⟨{ s with mask := s.mask ||| 4, realm := some q }, by rw [h296]; rfl, ?_⟩
    refine hs.snoc_plain h268 h258 h259 ?_ ?_ rfl rfl rfl
    · rw [ceMask_snoc 296 h296]
      simpa [hs.mask, ceMask] using hor.2.2.1
    · rw [ofKind_snoc, if_pos h296]
      simp
  by_cases h264 : (wordAt buf q).toNat = 264
  · refine ⟨{ s with mask := s.mask ||| 2 }, by rw [h264]; rfl, hs.snoc_bit h268 h258 h259 h296 ?_⟩
    rw [ceMask_snoc 264 h264]
    simpa [ceMask] using hor.2.1
  by_cases h257 : (wordAt buf q).toNat = 257
  · refine ⟨{ s with mask := s.mask ||| 8 }, by rw [h257]; rfl, hs.snoc_bit h268 h258 h259 h296 ?_⟩
    rw [ceMask_snoc 257 h257]
    simpa [ceMask] using hor.2.2.2.1
  by_cases h266 : (wordAt buf q).toNat = 266
  · refine ⟨{ s with mask := s.mask ||| 16 }, by rw [h266]; rfl, hs.snoc_bit h268 h258 h259 h296 ?_⟩
    rw [ceMask_snoc 266 h266]
    simpa [ceMask] using hor.2.2.2.2.1
  by_cases h269 : (wordAt buf q).toNat = 269
  · refine ⟨{ s with mask := s.mask ||| 32 }, by rw [h269]; rfl, hs.snoc_bit h268 h258 h259 h296 ?_⟩
    rw [ceMask_snoc 269 h269]
    simpa [ceMask] using hor.2.2.2.2.2
  · refine ⟨s, ?_, hs.snoc_plain h268 h258 h259 ?_ ?_ rfl rfl rfl⟩
    · unfold ceSwitch
      split <;> first | rfl | contradiction
    · rw [ceMask_snoc _ rfl, hs.mask, ceMask]
      simp [h268, h264, h296, h257, h266, h269]
    · rw [ofKind_snoc, if_neg h296]
      exact hs.realm

end

/-- The `switch` of `process_ce`. -/
def ceReads (cfg : Cfg) (buf : List UInt8) : Switch buf (ceSwitch cfg buf) where
  leaves := FailsAt buf
  result := dataWord buf
  need := ceNeed buf
  seen := Collected cfg buf
  fault := fun hs _ hn => ceSwitch_fault hs hn
  leave := fun _ _ hn hl => ceSwitch_leave hn hl
  goOn := fun hs _ hn hl => ceSwitch_goOn hs hn hl

theorem collected_ceStart (cfg : Cfg) (buf : List UInt8) : Collected cfg buf [] ceStart :=
  ⟨by simp [ceMask, maskOf, hasKind, ceStart], rfl, rfl, rfl, rfl⟩

/-! ## The verdict -/

/-- The five AVPs every CER and CEA has to carry. -/
def hasFive (buf : List UInt8) (ps : List Nat) : Bool :=
  hasKind buf 264 ps && hasKind buf 296 ps && hasKind buf 257 ps && hasKind buf 266 ps
    && hasKind buf 269 ps

/-- The masks `req_pattern` and `rpl_pattern`. -/
theorem maskOf_eq (a b c d e f : Bool) :
    (maskOf a b c d e f = 0x3e ↔ (b && c && d && e && f) = true ∧ a = false)
      ∧ (maskOf a b c d e f = 0x3f ↔ (b && c && d && e && f) = true ∧ a = true) := by
  revert a b c d e f
  decide

section

variable {cfg : Cfg} {buf : List UInt8} {ps : List Nat} {s : CeState}

theorem Collected.verdict_req (hs : Collected cfg buf ps s) :
    ceVerdict s true = aaaSuccess ↔ hasFive buf ps = true ∧ hasKind buf 268 ps = false
      ∧ (s.authAppIds.any (cfg.accepts (·.doesAuth)) || s.acctAppIds.any (cfg.accepts (·.doesAcct))) = true := by
  have hm := (maskOf_eq (hasKind buf 268 ps) (hasKind buf 264 ps) (hasKind buf 296 ps)
    (hasKind buf 257 ps) (hasKind buf 266 ps) (hasKind buf 269 ps)).1
  unfold ceVerdict
  rw [hs.mask, hs.code]
  by_cases hmask : ceMask buf ps = 0x3e
  · obtain ⟨h5, h268⟩ := hm.mp hmask
    have hfive : hasFive buf ps = true := h5
    rw [if_neg (by simp [hmask]), hfive, h268, Bool.false_or]
    cases s.authAppIds.any (cfg.accepts (·.doesAuth)) || s.acctAppIds.any (cfg.accepts (·.doesAcct))
    · simp [aaaSuccess, aaaNoCommonApplication]
    · simp
  · have hne : ¬ (hasFive buf ps = true ∧ hasKind buf 268 ps = false) := fun h => hmask (hm.mpr h)
    rw [if_pos (by simpa using hmask)]
    constructor
    · intro h
      exact absurd h (by decide)
    · rintro ⟨h5, h268, -⟩
      exact absurd ⟨h5, h268⟩ hne

theorem Collected.verdict_ans (hs : Collected cfg buf ps s) :
    ceVerdict s false = aaaSuccess ↔ hasFive buf ps = true ∧ hasKind buf 268 ps = true := by
  have hm := (maskOf_eq (hasKind buf 268 ps) (hasKind buf 264 ps) (hasKind buf 296 ps)
    (hasKind buf 257 ps) (hasKind buf 266 ps) (hasKind buf 269 ps)).2
  unfold ceVerdict
  rw [hs.mask, hs.code]
  by_cases hmask : ceMask buf ps = 0x3f
  · obtain ⟨h5, h268⟩ := hm.mp hmask
    have hfive : hasFive buf ps = true := h5
    rw [if_neg (by simp [hmask]), hfive, h268]
    simp
  · have hne : ¬ (hasFive buf ps = true ∧ hasKind buf 268 ps = true) := fun h => hmask (hm.mpr h)
    rw [if_pos (by simpa using hmask)]
    constructor
    · intro h
      exact absurd h (by decide)
    · exact fun h => absurd h hne

/-- With the five AVPs there is a realm. -/
theorem exists_realm (h5 : hasFive buf ps = true) : ∃ r, (ofKind buf 296 ps).getLast? = some r := by
  have h296 : hasKind buf 296 ps = true := by
    unfold hasFive at h5
    simp only [Bool.and_eq_true] at h5
    exact h5.1.1.1.2
  obtain ⟨q, hq, hc⟩ := hasKind_iff.mp h296
  cases hl : (ofKind buf 296 ps).getLast? with
  | some r => exact ⟨r, rfl⟩
  | none =>
      rw [List.getLast?_eq_none_iff] at hl
      exact absurd (mem_ofKind.mpr ⟨hq, hc⟩) (by rw [hl]; simp)

end

/-! ## A well formed message -/

section

variable {buf : List UInt8} {leaves : Nat → Prop} {p q : Nat} {ps us : List Nat}

/-- Every way through a tiled buffer goes from tile to tile. -/
theorem Trail.tiled (htr : Trail buf leaves p us q) (ht : Tiled buf p ps buf.length) :
    ∃ rest, ps = us ++ rest ∧ Tiled buf q rest buf.length := by
  induction htr generalizing ps with
  | here => exact ⟨ps, rfl, ht⟩
  | @pass p q us h8 hl hs htr ih =>
      cases ht with
      | nil => omega
      | cons hd ht =>
          obtain ⟨rest, rfl, hrest⟩ := ih ht
          exact ⟨rest, rfl, hrest⟩

theorem Trail.tiled_lt (htr : Trail buf leaves p us q) (ht : Tiled buf p ps buf.length)
    (hq : q < buf.length) : ∃ rest, ps = us ++ q :: rest := by
  obtain ⟨rest, rfl, hrest⟩ := htr.tiled ht
  cases hrest with
  | nil => omega
  | cons hd ht => exact ⟨_, rfl⟩

theorem Trail.tiled_end (htr : Trail buf leaves p us q) (ht : Tiled buf p ps buf.length)
    (hq : buf.length ≤ q) : ps = us := by
  obtain ⟨rest, rfl, hrest⟩ := htr.tiled ht
  cases hrest with
  | nil => rw [List.append_nil]
  | cons hd ht =>
      have hle := ht.le
      have hs := strideAt_of_data hd
      omega

/-- A tile holds all that `process_ce` reads of it. -/
theorem inside_of_tiled {cfg : Cfg} (ht : Tiled buf p ps buf.length) (hq : q ∈ ps) (us : List Nat) :
    (ceReads cfg buf).Inside us q := by
  -- an AVP with data is at least twelve bytes long, with a vendor id sixteen
  obtain ⟨-, hd, hend⟩ := ht.mem q hq
  have hs := strideAt_of_data hd
  have hh := @hdrAt_le buf q
  have hm := @hdrAt_mod buf q
  have hsm := @strideAt_mod buf q
  have hle : lenAt buf q ≤ strideAt buf q := Nat.le_add_right _ _
  refine ⟨by omega, ?_, fun _ => ⟨by omega, by omega⟩⟩
  have hneed : ceNeed buf us q ≤ q + strideAt buf q := by
    unfold ceNeed
    split
    · omega
    · split <;> omega
    · split <;> omega
    · omega
  exact Nat.le_trans hneed hend

end

instance (buf : List UInt8) (q : Nat) : Decidable (FailsAt buf q) :=
  inferInstanceAs (Decidable (_ ∧ _))

section

variable {buf : List UInt8} {ps : List Nat}

/-- **The walk of `process_ce` over a well formed message.** -/
theorem walk_tiled (cfg : Cfg) (ht : Tiled buf aaaMsgHdrSize ps buf.length) :
    ((∀ q ∈ ps, ¬ FailsAt buf q) ∧ ∃ s, Collected cfg buf ps s
        ∧ forAllAvps buf (ceSwitch cfg buf) (buf.length + 1) aaaMsgHdrSize ceStart = .ok (.inl s))
    ∨ ∃ q, ps.find? (fun q => FailsAt buf q) = some q ∧ FailsAt buf q
        ∧ forAllAvps buf (ceSwitch cfg buf) (buf.length + 1) aaaMsgHdrSize ceStart
          = .ok (.inr (dataWord buf q)) := by
  have hin : ∀ us q, Trail buf (ceReads cfg buf).leaves aaaMsgHdrSize us q → q < buf.length →
      (ceReads cfg buf).Inside ([] ++ us) q := by
    intro us q htr hq
    obtain ⟨rest, rfl⟩ := htr.tiled_lt ht hq
    exact inside_of_tiled ht (by simp) _
  -- at the end of the buffer all tiles were seen, before it those in front of the failing one
  rcases (ceReads cfg buf).outcome (collected_ceStart cfg buf) hin
      (show buf.length - aaaMsgHdrSize < buf.length + 1 by omega) with
    ⟨us, q, s, htr, hq, hs, hrun⟩ | ⟨us, q, htr, hq, hl, hrun⟩
  · obtain rfl := htr.tiled_end ht hq
    exact Or.inl ⟨htr.not_leaves, s, hs, hrun⟩
  · obtain ⟨rest, rfl⟩ := htr.tiled_lt ht hq
    have hlq : FailsAt buf q := hl
    have hno : ∀ r ∈ us, ¬ FailsAt buf r := htr.not_leaves
    refine Or.inr ⟨q, ?_, hlq, hrun⟩
    rw [List.find?_append, List.find?_eq_none.mpr (by simpa using hno)]
    simp [hlq]

/-- The Origin-Realm as it stands in the buffer. -/
def realmAt (buf : List UInt8) (q : Nat) : List UInt8 :=
  (buf.drop (q + hdrAt buf q)).take (lenAt buf q - hdrAt buf q)

theorem saveRealm_eq {q : Nat} (hd : hdrAt buf q < lenAt buf q) (hq : q + strideAt buf q ≤ buf.length) :
    saveRealm true buf q = .ok (some (realmAt buf q), lenAt buf q - hdrAt buf q) := by
  have hh := @hdrAt_le buf q
  have hl := @lenAt_lt buf q
  have hle : lenAt buf q ≤ strideAt buf q := Nat.le_add_right _ _
  have hflags : avpFlagsAt buf q = .ok (flagsAt buf q) := by
    unfold avpFlagsAt slice
    rw [if_pos (by omega)]
    rfl
  have hlen : ofBe (((buf.drop (q + 4)).take 4).drop 1) = lenAt buf q := by
    rw [List.drop_take, List.drop_drop]
    rfl
  have hsub : usub (lenAt buf q) (hdrAt buf q) = lenAt buf q - hdrAt buf q :=
    usub_eq (by omega) (by omega)
  rw [saveRealm, load4_eq (by omega), Res.ok_bind, hflags, Res.ok_bind, hlen]
  simp only [show avpHdrSize (flagsAt buf q) = hdrAt buf q from rfl, hsub]
  rw [if_neg (by simp), if_neg (by omega), slice, if_pos (by omega)]
  rfl

end

/-- Memory for everything. -/
def CeMem.all : CeMem := ⟨true, true, true⟩

section

variable {cfg : Cfg} {buf : List UInt8} {ps : List Nat} {isReq : Bool}

/-- What `process_ce` does once it is out of its loop. -/
def ceFinish (mem : CeMem) (buf : List UInt8) (isReq : Bool) :
    CeState ⊕ UInt32 → Res (UInt32 × Option Caps)
  | .inr code => .ok (code, none)
  | .inl s =>
      if ceVerdict s isReq = aaaSuccess then
        match s.realm with
        | none => .fault
        | some q => saveRealm mem.realm buf q >>= fun r =>
            .ok (ceVerdict s isReq,
              some { suppAuthAppIds := saveIds mem.auth s.authAppIds
                     suppAcctAppIds := saveIds mem.acct s.acctAppIds, realm := r.1, realmLen := r.2 })
      else .ok (ceVerdict s isReq, none)

theorem processCe_eq (mem : CeMem) :
    processCe cfg mem buf isReq
      = forAllAvps buf (ceSwitch cfg buf) (buf.length + 1) aaaMsgHdrSize ceStart
        >>= ceFinish mem buf isReq := by
  unfold processCe
  refine Res.bind_congr fun x => ?_
  cases x with
  | inr c => rfl
  | inl s =>
      unfold ceFinish
      dsimp only
      split
      · cases s.realm <;> rfl
      · rfl

/-- What is stored of a well formed message with the given verdict. -/
theorem processCe_end {s : CeState} (ht : Tiled buf aaaMsgHdrSize ps buf.length)
    (hs : Collected cfg buf ps s)
    (hw : forAllAvps buf (ceSwitch cfg buf) (buf.length + 1) aaaMsgHdrSize ceStart = .ok (.inl s))
    (h5 : ceVerdict s isReq = aaaSuccess → hasFive buf ps = true) :
    ∃ caps, processCe cfg .all buf isReq = .ok (ceVerdict s isReq, caps)
      ∧ (ceVerdict s isReq = aaaSuccess → ∃ r, (ofKind buf 296 ps).getLast? = some r
        ∧ caps = some { suppAuthAppIds := saveIds true s.authAppIds
                        suppAcctAppIds := saveIds true s.acctAppIds
                        realm := some (realmAt buf r), realmLen := lenAt buf r - hdrAt buf r })
      ∧ (ceVerdict s isReq ≠ aaaSuccess → caps = none) := by
  rw [processCe_eq, hw, Res.ok_bind, ceFinish]
  by_cases hv : ceVerdict s isReq = aaaSuccess
  -- `process_ce` dereferences the realm only for a success, and then there is one
  · obtain ⟨r, hr⟩ := exists_realm (h5 hv)
    have hmem : r ∈ ps := (mem_ofKind.mp (List.mem_of_getLast? hr)).1
    obtain ⟨-, hd, hend⟩ := ht.mem r hmem
    refine ⟨_, ?_, fun _ => ⟨r, hr, rfl⟩, fun hne => absurd hv hne⟩
    rw [if_pos hv, hs.realm, hr]
    dsimp only
    rw [show CeMem.all.realm = true from rfl, saveRealm_eq hd hend]
    rfl
  · exact ⟨none, if_neg hv, fun h => absurd h hv, fun _ => rfl⟩

end

/-! ## The decision -/

/-- The ids of a kind that a message advertises, as far as they are kept. -/
def idsOf (buf : List UInt8) (code : Nat) (ps : List Nat) : List UInt32 :=
  (firstOfKind buf code ps).map (dataWord buf)

/-- One of them is one this node can work with. -/
def acceptable (cfg : Cfg) (buf : List UInt8) (ps : List Nat) : Bool :=
  (idsOf buf 258 ps).any (cfg.accepts (·.doesAuth)) || (idsOf buf 259 ps).any (cfg.accepts (·.doesAcct))

/-- On success the ids and the last realm are stored, and otherwise nothing. -/
structure StoresCaps (buf : List UInt8) (ps : List Nat) (code : UInt32) (caps : Option Caps) : Prop where
  success : code = aaaSuccess → ∃ r, (ofKind buf 296 ps).getLast? = some r
    ∧ caps = some { suppAuthAppIds := saveIds true (idsOf buf 258 ps)
                    suppAcctAppIds := saveIds true (idsOf buf 259 ps)
                    realm := some (realmAt buf r), realmLen := lenAt buf r - hdrAt buf r }
  other : code ≠ aaaSuccess → caps = none

/-- A CER succeeds if its AVPs are complete and it names an application in common. -/
def DecidesCer (cfg : Cfg) (buf : List UInt8) (ps : List Nat) : Prop :=
  ∃ code caps, processCe cfg .all buf true = .ok (code, caps) ∧ StoresCaps buf ps code caps
    ∧ (code = aaaSuccess ↔ hasFive buf ps = true ∧ hasKind buf 268 ps = false
      ∧ acceptable cfg buf ps = true)

/-- A CEA succeeds if its AVPs are complete and it says so; another Result-Code is returned. -/
def DecidesCea (cfg : Cfg) (buf : List UInt8) (ps : List Nat) : Prop :=
  ∃ code caps, processCe cfg .all buf false = .ok (code, caps) ∧ StoresCaps buf ps code caps
    ∧ (code = aaaSuccess ↔ hasFive buf ps = true ∧ hasKind buf 268 ps = true
      ∧ ∀ q ∈ ps, (wordAt buf q).toNat = 268 → dataWord buf q = aaaSuccess)
    ∧ ∀ q, ps.find? (fun q => FailsAt buf q) = some q → code = dataWord buf q

/-- The vendor id of an AVP, if it has one, happens to be the number it carries. -/
def VendorIsData (buf : List UInt8) (q : Nat) : Prop :=
  flagsAt buf q &&& aaaAvpFlagVendorSpecific ≠ 0 → vendorAt buf q = dataWord buf q

/-- Unless the message fails anyway, none of its ids is hidden behind a vendor id. -/
def IdsVisible (buf : List UInt8) (ps : List Nat) : Prop :=
  hasFive buf ps = true → (∀ q ∈ ps, ¬ FailsAt buf q) →
    ∀ q ∈ firstOfKind buf 258 ps ++ firstOfKind buf 259 ps, VendorIsData buf q

section

variable {cfg : Cfg} {buf : List UInt8} {ps : List Nat} {s : CeState} {q : Nat}

theorem vendorIsData_iff : VendorIsData buf q ↔ thirdWord buf q = dataWord buf q := by
  unfold VendorIsData vendorAt thirdWord dataWord hdrAt avpHdrSize
  by_cases hv : flagsAt buf q &&& aaaAvpFlagVendorSpecific ≠ 0
  · simp [hv]
  · simp [hv]

theorem saveIds_inj {l l' : List UInt32} (h : saveIds true l = saveIds true l') : l = l' := by
  unfold saveIds at h
  cases l with
  | nil =>
      cases l' with
      | nil => rfl
      | cons x l' => simp at h
  | cons x l =>
      cases l' with
      | nil => simp at h
      | cons y l' => simpa using h

/-- With all ids visible the variables hold what the message advertises. -/
theorem Collected.ids (hs : Collected cfg buf ps s)
    (hv : ∀ q ∈ firstOfKind buf 258 ps ++ firstOfKind buf 259 ps, VendorIsData buf q) :
    s.authAppIds = idsOf buf 258 ps ∧ s.acctAppIds = idsOf buf 259 ps := by
  constructor
  · rw [hs.auth]
    exact List.map_congr_left fun q hq => vendorIsData_iff.mp (hv q (by simp [hq]))
  · rw [hs.acct]
    exact List.map_congr_left fun q hq => vendorIsData_iff.mp (hv q (by simp [hq]))

/-- What is stored tells whether they are visible. -/
theorem visible_of_ids (hs : Collected cfg buf ps s) (hauth : s.authAppIds = idsOf buf 258 ps)
    (hacct : s.acctAppIds = idsOf buf 259 ps) :
    ∀ q ∈ firstOfKind buf 258 ps ++ firstOfKind buf 259 ps, VendorIsData buf q := by
  intro q hq
  rw [hs.auth] at hauth
  rw [hs.acct] at hacct
  rcases List.mem_append.mp hq with hq | hq
  · exact vendorIsData_iff.mpr (List.map_inj_left.mp hauth q hq)
  · exact vendorIsData_iff.mpr (List.map_inj_left.mp hacct q hq)

/-- With all ids visible, what is stored is what the message advertises. -/
theorem processCe_stores {isReq : Bool} (ht : Tiled buf aaaMsgHdrSize ps buf.length)
    (hs : Collected cfg buf ps s)
    (hw : forAllAvps buf (ceSwitch cfg buf) (buf.length + 1) aaaMsgHdrSize ceStart = .ok (.inl s))
    (h5 : ceVerdict s isReq = aaaSuccess → hasFive buf ps = true)
    (hids : hasFive buf ps = true →
      s.authAppIds = idsOf buf 258 ps ∧ s.acctAppIds = idsOf buf 259 ps) :
    ∃ caps, processCe cfg .all buf isReq = .ok (ceVerdict s isReq, caps)
      ∧ StoresCaps buf ps (ceVerdict s isReq) caps := by
  obtain ⟨caps, hrun, hst, hnst⟩ := processCe_end ht hs hw h5
  refine ⟨caps, hrun, ⟨fun hc => ?_, hnst⟩⟩
  obtain ⟨r, hr, hcaps⟩ := hst hc
  obtain ⟨h1, h2⟩ := hids (h5 hc)
  exact ⟨r, hr, by rw [hcaps, h1, h2]⟩

/-- A message that was walked to its end. -/
theorem decides_of_walked (ht : Tiled buf aaaMsgHdrSize ps buf.length) (hno : ∀ q ∈ ps, ¬ FailsAt buf q)
    (hs : Collected cfg buf ps s)
    (hw : forAllAvps buf (ceSwitch cfg buf) (buf.length + 1) aaaMsgHdrSize ceStart = .ok (.inl s))
    (hids : hasFive buf ps = true →
      s.authAppIds = idsOf buf 258 ps ∧ s.acctAppIds = idsOf buf 259 ps) :
    DecidesCer cfg buf ps ∧ DecidesCea cfg buf ps := by
  constructor
  · obtain ⟨caps, hrun, hst⟩ := @processCe_stores cfg buf ps s true ht hs hw
      (fun h => (hs.verdict_req.mp h).1) hids
    refine ⟨_, caps, hrun, hst, ?_⟩
    rw [hs.verdict_req]
    refine and_congr_right fun hfive => ?_
    obtain ⟨h1, h2⟩ := hids hfive
    rw [h1, h2]
    rfl
  · obtain ⟨caps, hrun, hst⟩ := @processCe_stores cfg buf ps s false ht hs hw
      (fun h => (hs.verdict_ans.mp h).1) hids
    refine ⟨_, caps, hrun, hst, ?_, ?_⟩
    · rw [hs.verdict_ans]
      have hall : ∀ q ∈ ps, (wordAt buf q).toNat = 268 → dataWord buf q = aaaSuccess := by
        intro q hq hc
        by_contra hne
        exact hno q hq ⟨hc, hne⟩
      exact ⟨fun h => ⟨h.1, h.2, hall⟩, fun h => ⟨h.1, h.2.1⟩⟩
    · intro q hq
      have hnone : ps.find? (fun q => FailsAt buf q) = none :=
        List.find?_eq_none.mpr (by simpa using hno)
      rw [hnone] at hq
      exact absurd hq (by simp)

/-- A message with a Result-Code that ends the walk. -/
theorem decides_of_failed (hfind : ps.find? (fun q => FailsAt buf q) = some q) (hf : FailsAt buf q)
    (hw : forAllAvps buf (ceSwitch cfg buf) (buf.length + 1) aaaMsgHdrSize ceStart
      = .ok (.inr (dataWord buf q))) :
    DecidesCer cfg buf ps ∧ DecidesCea cfg buf ps := by
  have hq : q ∈ ps := List.mem_of_find?_eq_some hfind
  have hrun : ∀ isReq, processCe cfg .all buf isReq = .ok (dataWord buf q, none) := by
    intro isReq
    rw [processCe_eq, hw]
    rfl
  have hst : StoresCaps buf ps (dataWord buf q) none :=
    ⟨fun hc => absurd hc hf.2, fun _ => rfl⟩
  have h268 : hasKind buf 268 ps = true := hasKind_iff.mpr ⟨q, hq, hf.1⟩
  refine ⟨⟨_, _, hrun true, hst, ?_⟩, ⟨_, _, hrun false, hst, ?_, ?_⟩⟩
  · constructor
    · exact fun hc => absurd hc hf.2
    · rintro ⟨-, hno, -⟩
      rw [h268] at hno
      exact absurd hno (by simp)
  · constructor
    · exact fun hc => absurd hc hf.2
    · exact fun h => absurd (h.2.2 q hq hf.1) hf.2
  · intro q' hq'
    rw [hfind] at hq'
    rw [Option.some.inj hq']

/-- **Visible ids are decided on as they should be.** -/
theorem decides_of_visible (ht : Tiled buf aaaMsgHdrSize ps buf.length) (hv : IdsVisible buf ps)
    (cfg : Cfg) : DecidesCer cfg buf ps ∧ DecidesCea cfg buf ps := by
  rcases walk_tiled cfg ht with ⟨hno, s, hs, hw⟩ | ⟨q, hfind, hf, hw⟩
  · exact decides_of_walked ht hno hs hw fun h5 => hs.ids (hv h5 hno)
  · exact decides_of_failed hfind hf hw

/-- A node that relays, and has nothing else to say. -/
def relayCfg : Cfg :=
  { aaaIdentity := [], aaaRealm := [], productName := [], vendorId := 0, modules := [], doRelay := true }

/-- What a success stored is what the message advertises only if it is visible. -/
theorem visible_of_stored {isReq : Bool} {code : UInt32} {caps : Option Caps}
    (ht : Tiled buf aaaMsgHdrSize ps buf.length) (hs : Collected cfg buf ps s)
    (hw : forAllAvps buf (ceSwitch cfg buf) (buf.length + 1) aaaMsgHdrSize ceStart = .ok (.inl s))
    (h5 : hasFive buf ps = true) (hrun : processCe cfg .all buf isReq = .ok (code, caps))
    (hst : StoresCaps buf ps code caps) (hc : code = aaaSuccess) :
    ∀ q ∈ firstOfKind buf 258 ps ++ firstOfKind buf 259 ps, VendorIsData buf q := by
  obtain ⟨caps', hrun', hst', -⟩ := processCe_end ht hs hw (fun _ => h5)
  obtain ⟨hcode, rfl⟩ := Prod.mk.inj (Res.ok.inj (hrun.symm.trans hrun'))
  obtain ⟨r, -, hcaps⟩ := hst.success hc
  obtain ⟨r', -, hcaps'⟩ := hst' (hcode ▸ hc)
  have heq := Option.some.inj (hcaps.symm.trans hcaps')
  refine visible_of_ids hs ?_ ?_
  · exact (saveIds_inj (congrArg Caps.suppAuthAppIds heq)).symm
  · exact (saveIds_inj (congrArg Caps.suppAcctAppIds heq)).symm

theorem visible_of_decides (ht : Tiled buf aaaMsgHdrSize ps buf.length)
    (hdec : DecidesCer relayCfg buf ps ∧ DecidesCea relayCfg buf ps) : IdsVisible buf ps := by
  intro h5 hno
  rcases walk_tiled relayCfg ht with ⟨-, s, hs, hw⟩ | ⟨q, hfind, hf, -⟩
  · cases h268 : hasKind buf 268 ps with
    | true =>
        obtain ⟨code, caps, hrun, hst, hiff, -⟩ := hdec.2
        have hall : ∀ q ∈ ps, (wordAt buf q).toNat = 268 → dataWord buf q = aaaSuccess := by
          intro q hq hc
          by_contra hne
          exact hno q hq ⟨hc, hne⟩
        exact visible_of_stored ht hs hw h5 hrun hst (hiff.mpr ⟨h5, h268, hall⟩)
    | false =>
        obtain ⟨code, caps, hrun, hst, hiff⟩ := hdec.1
        intro q hq
        -- a relay accepts any id, and there is one
        have hacc : acceptable relayCfg buf ps = true := by
          unfold acceptable
          rw [Bool.or_eq_true, List.any_eq_true, List.any_eq_true]
          rcases List.mem_append.mp hq with hq | hq
          · exact Or.inl ⟨dataWord buf q, List.mem_map_of_mem (f := dataWord buf) hq, rfl⟩
          · exact Or.inr ⟨dataWord buf q, List.mem_map_of_mem (f := dataWord buf) hq, rfl⟩
        exact visible_of_stored ht hs hw h5 hrun hst (hiff.mpr ⟨h5, h268, hacc⟩) q hq
  · exact absurd hf (hno q (List.mem_of_find?_eq_some hfind))

/--
**When `process_ce` decides on what a message says.**

An application id is read behind eight bytes of header, also when the V bit says that the
vendor id stands there; the Result-Code is read behind the whole header.
-/
theorem ce_decides_iff (ht : Tiled buf aaaMsgHdrSize ps buf.length) :
    (∀ cfg, DecidesCer cfg buf ps ∧ DecidesCea cfg buf ps) ↔ IdsVisible buf ps :=
  ⟨fun hdec => visible_of_decides ht (hdec relayCfg), decides_of_visible ht⟩

end

/-- A CER of six AVPs: the five, and an Auth-Application-Id with the given flags and words. -/
def cerWithAppId (len flags : UInt8) (words : List UInt8) : List UInt8 :=
  [1, 0, 0, 80 + len, 0x80, 0, 1, 1, 0, 0, 0, 0, 0, 0, 0, 0, 0, 0, 0, 0]
  ++ [0, 0, 1, 8, 0x40, 0, 0, 12, 97, 97, 97, 97] ++ [0, 0, 1, 40, 0x40, 0, 0, 12, 98, 98, 98, 98]
  ++ [0, 0, 1, 1, 0x40, 0, 0, 12, 127, 0, 0, 1] ++ [0, 0, 1, 10, 0x40, 0, 0, 12, 0, 0, 0, 0]
  ++ [0, 0, 1, 13, 0, 0, 0, 12, 99, 99, 99, 99] ++ ([0, 0, 1, 2, flags, 0, 0, len] ++ words)

/-- The ids of a CER without vendor ids are visible. -/
theorem ce_decides_sample :
    Tiled (cerWithAppId 12 0x40 [0, 0, 0, 5]) aaaMsgHdrSize [20, 32, 44, 56, 68, 80]
        (cerWithAppId 12 0x40 [0, 0, 0, 5]).length
      ∧ ∀ cfg, DecidesCer cfg (cerWithAppId 12 0x40 [0, 0, 0, 5]) [20, 32, 44, 56, 68, 80]
        ∧ DecidesCea cfg (cerWithAppId 12 0x40 [0, 0, 0, 5]) [20, 32, 44, 56, 68, 80] := by
  have ht : Tiled (cerWithAppId 12 0x40 [0, 0, 0, 5]) aaaMsgHdrSize [20, 32, 44, 56, 68, 80]
      (cerWithAppId 12 0x40 [0, 0, 0, 5]).length :=
    .cons (by decide) (.cons (by decide) (.cons (by decide) (.cons (by decide) (.cons (by decide)
      (.cons (by decide) .nil)))))
  refine ⟨ht, (ce_decides_iff ht).mpr fun _ _ q hq => ?_⟩
  have hlist : firstOfKind (cerWithAppId 12 0x40 [0, 0, 0, 5]) 258 [20, 32, 44, 56, 68, 80]
      ++ firstOfKind (cerWithAppId 12 0x40 [0, 0, 0, 5]) 259 [20, 32, 44, 56, 68, 80] = [80] := by decide
  rw [hlist] at hq
  obtain rfl := List.mem_singleton.mp hq
  exact fun hv => absurd (by decide) hv

/-- A vendor-specific Auth-Application-Id: the vendor id nine is taken for the application five. -/
theorem ce_decides_vendor :
    Tiled (cerWithAppId 16 0xc0 [0, 0, 0, 9, 0, 0, 0, 5]) aaaMsgHdrSize [20, 32, 44, 56, 68, 80]
        (cerWithAppId 16 0xc0 [0, 0, 0, 9, 0, 0, 0, 5]).length
      ∧ ¬ ∀ cfg, DecidesCer cfg (cerWithAppId 16 0xc0 [0, 0, 0, 9, 0, 0, 0, 5]) [20, 32, 44, 56, 68, 80]
        ∧ DecidesCea cfg (cerWithAppId 16 0xc0 [0, 0, 0, 9, 0, 0, 0, 5]) [20, 32, 44, 56, 68, 80] := by
  have ht : Tiled (cerWithAppId 16 0xc0 [0, 0, 0, 9, 0, 0, 0, 5]) aaaMsgHdrSize [20, 32, 44, 56, 68, 80]
      (cerWithAppId 16 0xc0 [0, 0, 0, 9, 0, 0, 0, 5]).length :=
    .cons (by decide) (.cons (by decide) (.cons (by decide) (.cons (by decide) (.cons (by decide)
      (.cons (by decide) .nil)))))
  refine ⟨ht, fun hdec => ?_⟩
  have hvis := visible_of_decides ht (hdec relayCfg) (by decide) (by decide) 80 (by decide)
  exact absurd (hvis (by decide)) (by decide)

end Disc.Transport
