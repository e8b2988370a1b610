import Disc.Transport.Exchange
import Disc.Transport.Verdict

/-!
# Two nodes of this implementation

What one node writes with its prepared buffers, another one reads with its walker. Watchdog
and disconnect messages are always accepted. Of a capabilities exchange it depends on both
configurations what comes of it: the CER is accepted if the receiver can work with one of the
ids the sender advertises, and the CEA says what its sender decided.
-/

namespace Disc.Transport

open Disc.Lib Disc.Msg

/-! ## Configurations -/

/--
A configuration a node can run with: names that fit an AVP (the configuration is read in lines
of 800 bytes), at most 64 ids of each kind, and no module for the id of relays, which
`load_module` refuses.
-/
structure Cfg.Running (cfg : Cfg) : Prop extends cfg.Fitting where
  modules : ∀ mod ∈ cfg.modules, mod.appId ≠ aaaAppRelay

/-- An application `does` holds of, in a module of the sender and one of the receiver. -/
def Cfg.Shared (cfg' cfg : Cfg) (does : Module → Bool) : Prop :=
  ∃ mod ∈ cfg.modules, does mod = true
    ∧ ∃ mod', cfg'.findModule mod.appId = some mod' ∧ does mod' = true

/-- The receiver `cfg'` can work with what the sender `cfg` advertises. -/
def Cfg.Accepts (cfg' cfg : Cfg) : Prop :=
  (cfg'.doRelay = true ∧ (cfg.authAppIds ≠ [] ∨ cfg.acctAppIds ≠ []))
    ∨ cfg.doRelay = true
    ∨ cfg'.Shared cfg (·.doesAuth)
    ∨ cfg'.Shared cfg (·.doesAcct)

/-- The ids advertised for what `does` holds of. -/
def Cfg.idsFor (cfg : Cfg) (does : Module → Bool) : List UInt32 :=
  (cfg.modules.filter does).map (·.appId) ++ if cfg.doRelay then [aaaAppRelay] else []

theorem mem_idsFor {cfg : Cfg} {does : Module → Bool} {id : UInt32} :
    id ∈ cfg.idsFor does
      ↔ (∃ mod ∈ cfg.modules, does mod = true ∧ mod.appId = id)
        ∨ (cfg.doRelay = true ∧ id = aaaAppRelay) := by
  unfold Cfg.idsFor
  rw [List.mem_append, List.mem_map]
  refine or_congr ?_ ?_
  · simp only [List.mem_filter, and_assoc]
  · cases cfg.doRelay <;> simp

theorem accepts_iff {cfg : Cfg} {does : Module → Bool} {id : UInt32} :
    cfg.accepts does id = true
      ↔ cfg.doRelay = true ∨ id = aaaAppRelay
        ∨ ∃ mod, cfg.findModule id = some mod ∧ does mod = true := by
  unfold Cfg.accepts
  rw [Bool.or_eq_true, Bool.or_eq_true, beq_iff_eq, Option.any_eq_true, or_assoc]

/-- When one of the ids of a kind is accepted. -/
theorem any_accepts_iff {cfg cfg' : Cfg} (hs : cfg.Running) (does : Module → Bool) :
    (cfg.idsFor does).any (cfg'.accepts does) = true
      ↔ (cfg'.doRelay = true ∧ cfg.idsFor does ≠ []) ∨ cfg.doRelay = true
        ∨ cfg'.Shared cfg does := by
  rw [List.any_eq_true]
  constructor
  -- an id is accepted for three reasons, and is advertised for two
  · rintro ⟨id, hid, hacc⟩
    rcases accepts_iff.mp hacc with hr | hrelay | ⟨mod', hfind, hdoes⟩
    · exact Or.inl ⟨hr, List.ne_nil_of_mem hid⟩
    · rcases mem_idsFor.mp hid with ⟨mod, hmod, -, happ⟩ | ⟨hr, -⟩
      · exact absurd (happ.trans hrelay) (hs.modules mod hmod)
      · exact Or.inr (Or.inl hr)
    · rcases mem_idsFor.mp hid with ⟨mod, hmod, hd, rfl⟩ | ⟨hr, -⟩
      · exact Or.inr (Or.inr ⟨mod, hmod, hd, mod', hfind, hdoes⟩)
      · exact Or.inr (Or.inl hr)
  · rintro (⟨hr, hne⟩ | hr | ⟨mod, hmod, hd, hfind⟩)
    · obtain ⟨id, hid⟩ := List.exists_mem_of_ne_nil _ hne
      exact ⟨id, hid, accepts_iff.mpr (Or.inl hr)⟩
    · exact ⟨aaaAppRelay, mem_idsFor.mpr (Or.inr ⟨hr, rfl⟩), accepts_iff.mpr (Or.inr (Or.inl rfl))⟩
    · exact ⟨mod.appId, mem_idsFor.mpr (Or.inl ⟨mod, hmod, hd, rfl⟩),
        accepts_iff.mpr (Or.inr (Or.inr hfind))⟩

/-- The code `process_ce` ends with, in terms of the two configurations. -/
theorem shares_iff {cfg cfg' : Cfg} (hs : cfg.Running) :
    cfg'.shares cfg = true ↔ cfg'.Accepts cfg := by
  have hauth := @any_accepts_iff cfg cfg' hs (·.doesAuth)
  have hacct := @any_accepts_iff cfg cfg' hs (·.doesAcct)
  unfold Cfg.shares
  rw [Bool.or_eq_true]
  refine (or_congr hauth hacct).trans ?_
  unfold Cfg.Accepts
  rw [show cfg.authAppIds = cfg.idsFor (·.doesAuth) from rfl,
    show cfg.acctAppIds = cfg.idsFor (·.doesAcct) from rfl]
  constructor
  · rintro ((⟨hr, ha⟩ | hr | hs) | (⟨hr, ha⟩ | hr | hs))
    · exact Or.inl ⟨hr, Or.inl ha⟩
    · exact Or.inr (Or.inl hr)
    · exact Or.inr (Or.inr (Or.inl hs))
    · exact Or.inl ⟨hr, Or.inr ha⟩
    · exact Or.inr (Or.inl hr)
    · exact Or.inr (Or.inr (Or.inr hs))
  · rintro (⟨hr, ha | ha⟩ | hr | hs | hs)
    · exact Or.inl (Or.inl ⟨hr, ha⟩)
    · exact Or.inr (Or.inl ⟨hr, ha⟩)
    · exact Or.inl (Or.inr (Or.inl hr))
    · exact Or.inl (Or.inr (Or.inr hs))
    · exact Or.inr (Or.inr (Or.inr hs))

/-! ## Watchdog and disconnect messages -/

/-- The `switch` of `process_dw` and `process_dp`, on an item. -/
def stdItem (cause : Bool) (mask : Nat) (it : Item) (_ : Nat) : Nat ⊕ Unit :=
  match it.code with
  | 268 => if UInt32.ofNat (ofBe it.data) ≠ aaaSuccess then .inr () else .inl (mask ||| 1)
  | 264 => .inl (mask ||| 2)
  | 296 => .inl (mask ||| 4)
  | 273 => .inl (if cause then mask ||| 8 else mask)
  | _ => .inl mask

theorem stdSwitch_item {cause : Bool} {buf : List UInt8} {mask p : Nat} {it : Item}
    (h : it.At buf p) (hn : it.Numeric) :
    stdSwitch cause buf mask it.code p = .ok (stdItem cause mask it p) := by
  unfold stdSwitch
  split
  · rename_i hc
    obtain ⟨x, hx⟩ := hn (Or.inl hc)
    rw [h.word_eq hx, Res.ok_bind]
    simp only [stdItem, hc, hx]
    split <;> rfl
  -- an AVP none of the cases knows is skipped
  case h_5 =>
    have hother : stdItem cause mask it p = .inl mask := by
      unfold stdItem
      split <;> first | rfl | contradiction
    rw [hother, Res.pure_eq]
  all_goals
    rename_i hc
    simp only [stdItem, hc, Res.pure_eq]

/-- Reading a message made of items. -/
theorem processStd_items {cause : Bool} {pattern : Nat} {hdr buf : List UInt8} {items : List Item}
    (hl : hdr.length = aaaMsgHdrSize) (hitems : ∀ it ∈ items, it.Plain ∧ it.Numeric)
    (hbuf : buf = hdr ++ items.flatMap Item.bytes) {mask : Nat}
    (hwalk : walkItems (stdItem cause) aaaMsgHdrSize items 0 = .inl mask) :
    processStd cause pattern buf = .ok (decide (mask = pattern)) := by
  have hplain : ∀ it ∈ items, it.Plain := fun it h => (hitems it h).1
  have hlen := length_le_items hplain
  have hall : forAllAvps buf (stdSwitch cause buf) (buf.length + 1) aaaMsgHdrSize 0
      = .ok (walkItems (stdItem cause) aaaMsgHdrSize items 0) := by
    rw [← hl]
    refine forAllAvps_items hplain (fun s it hit p hat => stdSwitch_item hat (hitems it hit).2) hbuf ?_
    rw [hbuf, List.length_append]
    omega
  rw [processStd, hall, hwalk, Res.ok_bind]
  rfl

/-- The two AVPs every message of this layer has. -/
def Cfg.originItems (cfg : Cfg) : List Item := [⟨264, 0x40, cfg.aaaIdentity⟩, ⟨296, 0x40, cfg.aaaRealm⟩]

theorem mem_originItems {cfg : Cfg} (hs : cfg.Fitting) {it : Item} (h : it ∈ cfg.originItems) :
    it.Plain ∧ it.Numeric := by
  simp only [Cfg.originItems, List.mem_cons, List.not_mem_nil, or_false] at h
  rcases h with rfl | rfl
  · exact ⟨Item.plain (by decide) (by decide) hs.aaaIdentity, by simp [Item.Numeric]⟩
  · exact ⟨Item.plain (by decide) (by decide) hs.aaaRealm, by simp [Item.Numeric]⟩

theorem idItem_plain (code : Nat) (hc : code < 2 ^ 32) (x : UInt32) :
    (idItem code x).Plain ∧ (idItem code x).Numeric :=
  ⟨Item.plain hc (by decide) (by rw [length_be]; decide), fun _ => ⟨x, rfl⟩⟩

/-! ## Headers are skipped -/

theorem req_body (cfg : Cfg) {code : Nat} (avps : List UInt8) (hbh ete : UInt32)
    (hcode : code < 2 ^ 24) :
    ∃ hdr, hdr.length = aaaMsgHdrSize ∧ stamp (buildReq cfg code avps) hbh ete
      = hdr ++ (cfg.originItems.flatMap Item.bytes ++ avps) := by
  refine ⟨((1 ||| UInt8.ofNat ((20 + (reqBody cfg avps).length) / 2 ^ 24))
      :: be 3 (20 + (reqBody cfg avps).length)) ++ (0x80 :: be 3 code) ++ [0, 0, 0, 0]
      ++ le 4 hbh.toNat ++ le 4 ete.toNat, ?_, (stamp_buildReq_eq cfg avps hbh ete hcode).trans ?_⟩
  · simp only [List.length_append, List.length_cons, List.length_nil, length_be, length_le]
    rfl
  · simp only [reqBody, Cfg.originItems, List.flatMap_cons, List.flatMap_nil, Item.bytes,
      List.append_nil, List.append_assoc]

theorem ans_body (cfg : Cfg) (avps : List UInt8) {req : List UInt8} (res : UInt32)
    (hreq : 20 ≤ req.length) :
    ∃ hdr, hdr.length = aaaMsgHdrSize ∧ buildAns cfg avps req res
      = hdr ++ ((idItem 268 res :: cfg.originItems).flatMap Item.bytes ++ avps) := by
  refine ⟨(1 :: be 3 (20 + (ansBody cfg avps res).length)) ++ (0 :: (word req 1).drop 1) ++ word req 2
      ++ word req 3 ++ word req 4, ?_, (buildAns_eq cfg avps res hreq).trans ?_⟩
  · simp only [List.length_append, List.length_cons, length_be, List.length_drop,
      @length_word req 1 (by omega), @length_word req 2 (by omega), @length_word req 3 (by omega),
      @length_word req 4 (by omega)]
    rfl
  · simp only [ansBody, reqBody, Cfg.originItems, idItem, List.flatMap_cons, List.flatMap_nil,
      Item.bytes, List.append_nil, List.append_assoc]

/-! ## Both ends -/

section Ends

variable {cfg cfg' : Cfg}

/-- Every request of this layer but a CER. -/
theorem processStd_req (hs : cfg.Fitting) {code : Nat} (hcode : code < 2 ^ 24) (hbh ete : UInt32)
    {items : List Item} (hitems : ∀ it ∈ items, it.Plain ∧ it.Numeric) {cause : Bool}
    {pattern : Nat}
    (hwalk : walkItems (stdItem cause) aaaMsgHdrSize (cfg.originItems ++ items) 0 = .inl pattern) :
    processStd cause pattern (stamp (buildReq cfg code (items.flatMap Item.bytes)) hbh ete)
      = .ok true := by
  obtain ⟨hdr, hl, hbuf⟩ := req_body cfg (items.flatMap Item.bytes) hbh ete hcode
  rw [← List.flatMap_append] at hbuf
  rw [processStd_items hl ?_ hbuf hwalk, decide_eq_true rfl]
  intro it hit
  rcases List.mem_append.mp hit with hit | hit
  · exact mem_originItems hs hit
  · exact hitems it hit

/-- An answer that says success. -/
theorem processStd_ans (hs : cfg.Fitting) {req : List UInt8} (hreq : 20 ≤ req.length) (cause : Bool) :
    processStd cause 0x7 (cfg.stdAnswer req aaaSuccess) = .ok true := by
  obtain ⟨hdr, hl, hbuf⟩ := ans_body cfg [] aaaSuccess hreq
  rw [List.append_nil] at hbuf
  -- no disconnect cause in an answer, so both readers expect the same mask
  have hwalk : walkItems (stdItem cause) aaaMsgHdrSize (idItem 268 aaaSuccess :: cfg.originItems) 0
      = .inl 0x7 := rfl
  rw [Cfg.stdAnswer, processStd_items hl ?_ hbuf hwalk, decide_eq_true rfl]
  intro it hit
  rcases List.mem_cons.mp hit with rfl | hit
  · exact idItem_plain 268 (by decide) aaaSuccess
  · exact mem_originItems hs hit

/-- What `process_ce` returns once all AVPs of the other node were seen. -/
theorem ceFinish_code (hs : cfg.Fitting) (mem : CeMem) {buf : List UInt8} (isReq : Bool) {s : CeState}
    {p : Nat} (hrealm : s.realm = some p) (hat : Item.At ⟨296, 0x40, cfg.aaaRealm⟩ buf p) :
    ∃ caps, ceFinish mem buf isReq (.inl s) = .ok (ceVerdict s isReq, caps) := by
  unfold ceFinish
  dsimp only
  by_cases hv : ceVerdict s isReq = aaaSuccess
  · rw [if_pos hv, hrealm]
    dsimp only
    rw [saveRealm_at hat (Item.plain (by decide) (by decide) hs.aaaRealm), Res.ok_bind]
    exact ⟨_, rfl⟩
  · rw [if_neg hv]
    exact ⟨none, rfl⟩

theorem origin_ceItems (cfg : Cfg) (ip : IpAddr) :
    cfg.originItems.flatMap Item.bytes ++ ceAvp cfg ip = (cfg.ceItems ip).flatMap Item.bytes := by
  rw [ceItems_bytes]
  simp only [Cfg.originItems, List.flatMap_cons, List.flatMap_nil, Item.bytes, List.append_nil,
    List.append_assoc]

/-- The Origin-Realm stands behind the Origin-Host. -/
theorem realm_at {hdr buf : List UInt8} {ip : IpAddr}
    (hbuf : buf = hdr ++ (cfg.ceItems ip).flatMap Item.bytes) :
    Item.At ⟨296, 0x40, cfg.aaaRealm⟩ buf
      (hdr.length + (putAvp 264 0x40 cfg.aaaIdentity).length) := by
  refine ⟨hdr ++ putAvp 264 0x40 cfg.aaaIdentity, ceAvp cfg ip, ?_, by rw [List.length_append]⟩
  rw [hbuf, ceItems_bytes]
  simp only [Item.bytes, List.append_assoc]

/-- **A CER** is accepted if the receiver accepts what the sender advertises. -/
theorem processCe_other_cer (hs : cfg.Running) (mem : CeMem) (ip : IpAddr) (hbh ete : UInt32) :
    ∃ caps code, processCe cfg' mem (cfg.cer ip hbh ete) true = .ok (code, caps)
      ∧ (cfg'.Accepts cfg → code = aaaSuccess)
      ∧ (¬ cfg'.Accepts cfg → code = aaaNoCommonApplication) := by
  have hf := hs.toFitting
  obtain ⟨hdr, hl, hbuf⟩ := @req_body cfg ceMsgCode (ceAvp cfg ip) hbh ete (by decide)
  rw [origin_ceItems] at hbuf
  change cfg.cer ip hbh ete = _ at hbuf
  have hat := realm_at hbuf
  rw [hl] at hat
  obtain ⟨caps, hcode⟩ := ceFinish_code hf mem true
    (s := { mask := 0x3e, code := if cfg'.shares cfg then aaaSuccess else aaaNoCommonApplication
            authAppIds := cfg.authAppIds, acctAppIds := cfg.acctAppIds
            realm := some (aaaMsgHdrSize + (putAvp 264 0x40 cfg.aaaIdentity).length) }) rfl hat
  refine ⟨caps, if cfg'.shares cfg then aaaSuccess else aaaNoCommonApplication, ?_, fun h => ?_,
    fun h => ?_⟩
  · rw [processCe_eq, forAllAvps_ce hl (fun it hit => mem_ceItems hf hit) hbuf, Res.ok_bind,
      walk_ceItems cfg cfg' ip hf aaaMsgHdrSize rfl rfl]
    exact hcode
  · exact if_pos ((shares_iff hs).mpr h)
  · exact if_neg fun h' => h ((shares_iff hs).mp h')

/-- **A CEA** says what it says: success survives the walk, every other code ends it. -/
theorem processCe_other_cea (hs : cfg.Fitting) (mem : CeMem) (ip : IpAddr) {req : List UInt8}
    (hreq : 20 ≤ req.length) (res : UInt32) :
    ∃ caps, processCe cfg' mem (cfg.cea ip req res) false = .ok (res, caps) := by
  obtain ⟨hdr, hl, hbuf⟩ := ans_body cfg (ceAvp cfg ip) res hreq
  rw [List.flatMap_cons, List.append_assoc, origin_ceItems] at hbuf
  change cfg.cea ip req res = _ at hbuf
  have hitems : ∀ it ∈ idItem 268 res :: cfg.ceItems ip, it.Plain ∧ it.Numeric := by
    intro it hit
    rcases List.mem_cons.mp hit with rfl | hit
    · exact idItem_plain 268 (by decide) res
    · exact mem_ceItems hs hit
  rw [processCe_eq, forAllAvps_ce hl hitems hbuf, Res.ok_bind, walkItems]
  -- the Result-Code is the first AVP, and decides whether the others are looked at
  have hfirst : ceItem cfg' ceStart (idItem 268 res) aaaMsgHdrSize
      = if res ≠ aaaSuccess then .inr res else .inl { ceStart with mask := 1, code := res } := by
    simp only [ceItem, idItem, ofNat_ofBe_be]
    rfl
  rw [hfirst]
  by_cases hres : res = aaaSuccess
  · subst hres
    rw [if_neg (by simp)]
    dsimp only
    rw [walk_ceItems cfg cfg' ip hs _ rfl rfl]
    have hat := @realm_at cfg (hdr ++ (idItem 268 aaaSuccess).bytes) (cfg.cea ip req aaaSuccess) ip
      (by rw [hbuf, List.append_assoc])
    rw [List.length_append, hl] at hat
    obtain ⟨caps, hcode⟩ := ceFinish_code hs mem false
      (s := { mask := 0x3f, code := aaaSuccess
              authAppIds := cfg.authAppIds, acctAppIds := cfg.acctAppIds
              realm := some (aaaMsgHdrSize + (idItem 268 aaaSuccess).bytes.length
                + (putAvp 264 0x40 cfg.aaaIdentity).length) }) rfl hat
    refine ⟨caps, ?_⟩
    cases cfg'.shares cfg <;> exact hcode
  · rw [if_pos hres]
    exact ⟨none, rfl⟩

end Ends

/-- What the receiver `cfg'` makes of the messages of the sender `cfg`. -/
structure Interoperates (cfg' cfg : Cfg) : Prop where
  dwr : ∀ hbh ete, processDw (cfg.dwr hbh ete) true = .ok true
  dwa : ∀ req, 20 ≤ req.length → processDw (cfg.stdAnswer req aaaSuccess) false = .ok true
  dpr : ∀ cause hbh ete, processDp (cfg.dpr cause hbh ete) true = .ok true
  dpa : ∀ req, 20 ≤ req.length → processDp (cfg.stdAnswer req aaaSuccess) false = .ok true
  cer : ∀ mem ip hbh ete, ∃ caps code, processCe cfg' mem (cfg.cer ip hbh ete) true = .ok (code, caps)
    ∧ (cfg'.Accepts cfg → code = aaaSuccess) ∧ (¬ cfg'.Accepts cfg → code = aaaNoCommonApplication)
  cea : ∀ mem ip req, 20 ≤ req.length → ∀ res, ∃ caps,
    processCe cfg' mem (cfg.cea ip req res) false = .ok (res, caps)

/-- **Any two nodes understand each other.** -/
theorem interoperates {cfg : Cfg} (hs : cfg.Running) (cfg' : Cfg) : Interoperates cfg' cfg where
  dwr := fun hbh ete =>
    @processStd_req cfg hs.toFitting dwMsgCode (by decide) hbh ete [] (by simp) false 0x6 rfl
  dwa := fun _ hreq => processStd_ans hs.toFitting hreq false
  dpr := fun cause hbh ete => by
    have hitems : ∀ it ∈ [idItem 273 cause], it.Plain ∧ it.Numeric := by
      intro it hit
      obtain rfl := List.mem_singleton.mp hit
      exact idItem_plain 273 (by decide) cause
    have hok := @processStd_req cfg hs.toFitting dpMsgCode (by decide) hbh ete [idItem 273 cause]
      hitems true 0xe rfl
    rwa [List.flatMap_cons, List.flatMap_nil, List.append_nil] at hok
  dpa := fun _ hreq => processStd_ans hs.toFitting hreq true
  cer := fun mem ip hbh ete => processCe_other_cer hs mem ip hbh ete
  cea := fun mem ip _ hreq res => processCe_other_cea hs.toFitting mem ip hreq res

theorem interoperates_sample : Interoperates sampleCfg sampleCfg :=
  interoperates ⟨⟨by decide, by decide, by decide, by decide, by decide⟩, by decide⟩ sampleCfg

end Disc.Transport
