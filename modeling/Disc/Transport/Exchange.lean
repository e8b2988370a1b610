import Disc.Transport.Labels

/-!
# What `process_ce` reads of what `send_cer` and `send_cea` wrote

Both ends of a capabilities exchange are written by hand: `build_msg_buffers` prepares
the AVPs, the senders patch header words into a copy, and `process_ce` walks the bytes
with a pointer. Here the two meet. The AVPs of a message are items, the walk is a walk
over the items, and what it collects is what the configuration of the sender says.
-/

namespace Disc.Transport

open Disc.Lib Disc.Msg

/-! ## Items -/

/-- An AVP as `build_msg_buffers` puts it. -/
structure Item where
  code : Nat
  flags : UInt8
  data : List UInt8

namespace Item

def bytes (it : Item) : List UInt8 := putAvp it.code it.flags it.data

/-- No vendor id, and a length that fits its field. -/
structure Plain (it : Item) : Prop where
  code : it.code < 2 ^ 32
  flags : avpHdrSize it.flags = 8
  data : it.data.length < 2 ^ 23

theorem plain {code : Nat} {flags : UInt8} {data : List UInt8} (hc : code < 2 ^ 32)
    (hf : avpHdrSize flags = 8) (hd : data.length < 2 ^ 23) : Plain ⟨code, flags, data⟩ := ⟨hc, hf, hd⟩

end Item

theorem avpHdrSize_zero : avpHdrSize 0 = 8 := by decide

theorem length_pad {n : Nat} (h : n < 2 ^ 24) : n + (to32xLen n - n) = to32xLen n := by
  unfold to32xLen
  split <;> omega

theorem Item.length_bytes {it : Item} (h : it.Plain) : it.bytes.length = 8 + to32xLen it.data.length := by
  have hd := h.data
  have hp := @length_pad it.data.length (by omega)
  simp only [Item.bytes, putAvp, List.length_append, length_be, List.length_singleton, List.length_replicate]
  omega

/-- The item stands at offset `p` of the buffer. -/
def Item.At (it : Item) (buf : List UInt8) (p : Nat) : Prop :=
  ∃ pre post, buf = pre ++ it.bytes ++ post ∧ pre.length = p

/-- A stretch of the buffer that stands at a known place. -/
theorem slice_at {buf pre bs post : List UInt8} {p n : Nat} (h : buf = pre ++ bs ++ post)
    (hp : pre.length = p) (hn : bs.length = n) : slice buf p n = some bs := by
  subst h hp hn
  exact slice_append pre bs post

section

variable {it : Item} {buf : List UInt8} {p : Nat}

/-- Code, flags and length, data. -/
theorem Item.At.parts (h : it.At buf p) :
    ∃ pre post, buf = pre ++ be 4 it.code ++ (it.flags :: be 3 (8 + it.data.length)) ++ it.data ++ post
      ∧ pre.length = p := by
  obtain ⟨pre, post, hbuf, hp⟩ := h
  refine ⟨pre, List.replicate (to32xLen it.data.length - it.data.length) 0 ++ post, ?_, hp⟩
  rw [hbuf, Item.bytes, putAvp, avpHdrSize_zero]
  simp only [List.append_assoc, List.cons_append, List.nil_append]

theorem Item.At.code_eq (h : it.At buf p) : load4 buf p = .ok (be 4 it.code) := by
  obtain ⟨pre, post, hbuf, hp⟩ := h.parts
  rw [List.append_assoc, List.append_assoc] at hbuf
  rw [load4, slice_at hbuf hp (length_be _ _), Res.ofAccess_some]

theorem Item.At.len_eq (h : it.At buf p) :
    load4 buf (p + 4) = .ok (it.flags :: be 3 (8 + it.data.length)) := by
  obtain ⟨pre, post, hbuf, hp⟩ := h.parts
  rw [List.append_assoc] at hbuf
  rw [load4, slice_at hbuf (by simp [hp]) (by simp), Res.ofAccess_some]

theorem Item.At.flags_eq (h : it.At buf p) : avpFlagsAt buf p = .ok it.flags := by
  obtain ⟨pre, post, hbuf, hp⟩ := h.parts
  have hcut : buf = pre ++ be 4 it.code ++ [it.flags] ++ (be 3 (8 + it.data.length) ++ it.data ++ post) := by
    rw [hbuf]
    simp only [List.append_assoc, List.cons_append, List.nil_append]
  have hs : slice buf (p + 4) 1 = some [it.flags] := slice_at hcut (by simp [hp]) rfl
  rw [avpFlagsAt, hs, Res.ofAccess_some, Res.ok_bind]
  rfl

theorem Item.At.data_eq (h : it.At buf p) : slice buf (p + 8) it.data.length = some it.data := by
  obtain ⟨pre, post, hbuf, hp⟩ := h.parts
  exact slice_at hbuf (by simp [hp]) rfl

/-- The number a four-byte AVP carries. -/
theorem Item.At.word_eq {x : UInt32} (h : it.At buf p) (hd : it.data = be 4 x.toNat) :
    load4 buf (p + 8) = .ok (be 4 x.toNat) := by
  have hs := h.data_eq
  rw [hd, length_be] at hs
  rw [load4, hs, Res.ofAccess_some]

end

/-- A length behind a byte of flags. -/
theorem ofBe_flags_len (b : UInt8) {n : Nat} (h : n < 2 ^ 24) : ofBe (b :: be 3 n) % 2 ^ 24 = n := by
  rw [ofBe_cons, length_be, ofBe_be (by omega)]
  omega

/-! ## The walk -/

section

variable {σ ρ : Type}

/-- The walk of `for_all_AVPS_do_switch`, over items. -/
def walkItems (f : σ → Item → Nat → σ ⊕ ρ) : Nat → List Item → σ → σ ⊕ ρ
  | _, [], s => .inl s
  | p, it :: items, s =>
      match f s it p with
      | .inr r => .inr r
      | .inl s => walkItems f (p + it.bytes.length) items s

theorem walkItems_append {f : σ → Item → Nat → σ ⊕ ρ} {p : Nat} {items more : List Item} {s s' : σ}
    (h : walkItems f p items s = .inl s') :
    walkItems f p (items ++ more) s = walkItems f (p + (items.flatMap Item.bytes).length) more s' := by
  induction items generalizing p s with
  | nil =>
      obtain rfl := Sum.inl.inj h
      rfl
  | cons it items ih =>
      simp only [walkItems] at h
      simp only [List.cons_append, walkItems, List.flatMap_cons, List.length_append, ← Nat.add_assoc]
      cases hf : f s it p with
      | inr r =>
          rw [hf] at h
          exact absurd h (by simp)
      | inl s₁ =>
          rw [hf] at h
          exact ih h

/-- **The walk goes from item to item**, if the body can be told what stands at its pointer. -/
theorem forAllAvps_items {buf : List UInt8} {body : σ → Nat → Nat → Res (σ ⊕ ρ)}
    {f : σ → Item → Nat → σ ⊕ ρ} {items : List Item} {pre : List UInt8} {fuel : Nat} {s : σ}
    (hplain : ∀ it ∈ items, it.Plain)
    (hbody : ∀ s, ∀ it ∈ items, ∀ p, it.At buf p → body s it.code p = .ok (f s it p))
    (hbuf : buf = pre ++ items.flatMap Item.bytes) (hfuel : items.length < fuel) :
    forAllAvps buf body fuel pre.length s = .ok (walkItems f pre.length items s) := by
  induction items generalizing pre fuel s with
  | nil =>
      obtain ⟨fuel, rfl⟩ := Nat.exists_eq_succ_of_ne_zero (Nat.ne_of_gt hfuel)
      rw [forAllAvps, if_neg (by simp [hbuf])]
      rfl
  | cons it items ih =>
      obtain ⟨fuel, rfl⟩ := Nat.exists_eq_succ_of_ne_zero (Nat.ne_of_gt (Nat.zero_lt_of_lt hfuel))
      have hit := hplain it List.mem_cons_self
      have hlen := Item.length_bytes hit
      have hd := hit.data
      rw [List.flatMap_cons, ← List.append_assoc] at hbuf
      have hat : it.At buf pre.length := ⟨pre, _, hbuf, rfl⟩
      have hlt : pre.length < buf.length := by
        rw [hbuf, List.length_append, List.length_append]
        omega
      have hcode : ofBe (be 4 it.code) = it.code := ofBe_be hit.code
      rw [forAllAvps, if_pos hlt, hat.code_eq, Res.ok_bind, hcode,
        hbody s it List.mem_cons_self _ hat, Res.ok_bind, walkItems]
      cases hf : f s it pre.length with
      | inr r => rfl
      | inl s₁ =>
          dsimp only
          -- the step to the next item is the length rounded up
          have hstep : to32xLen (8 + it.data.length) = it.bytes.length := by
            rw [hlen]
            unfold to32xLen
            split <;> split <;> omega
          rw [hat.len_eq, Res.ok_bind, ofBe_flags_len _ (by omega), hstep, ← List.length_append]
          exact ih (fun it' h' => hplain it' (List.mem_cons_of_mem _ h'))
            (fun s it' h' => hbody s it' (List.mem_cons_of_mem _ h')) hbuf (Nat.lt_of_succ_lt_succ hfuel)

end

/-! ## What `process_ce` collects -/

/-- The `switch` of `process_ce`, on an item. -/
def ceItem (cfg : Cfg) (s : CeState) (it : Item) (p : Nat) : CeState ⊕ UInt32 :=
  let x := UInt32.ofNat (ofBe it.data)
  match it.code with
  | 268 => if x ≠ aaaSuccess then .inr x else .inl { s with mask := s.mask ||| 1, code := x }
  | 264 => .inl { s with mask := s.mask ||| 2 }
  | 296 => .inl { s with mask := s.mask ||| 4, realm := some p }
  | 257 => .inl { s with mask := s.mask ||| 8 }
  | 266 => .inl { s with mask := s.mask ||| 16 }
  | 269 => .inl { s with mask := s.mask ||| 32 }
  -- ids beyond the room a peer has for them are dropped without an error
  | 259 =>
      if s.acctAppIds.length = maxAppidPerPeer then .inl s
      else .inl { s with acctAppIds := s.acctAppIds ++ [x]
                         code := if cfg.accepts (·.doesAcct) x then aaaSuccess else s.code }
  | 258 =>
      if s.authAppIds.length = maxAppidPerPeer then .inl s
      else .inl { s with authAppIds := s.authAppIds ++ [x]
                         code := if cfg.accepts (·.doesAuth) x then aaaSuccess else s.code }
  | _ => .inl s

/-- The AVPs that are read as numbers are numbers. -/
def Item.Numeric (it : Item) : Prop :=
  it.code = 268 ∨ it.code = 258 ∨ it.code = 259 → ∃ x : UInt32, it.data = be 4 x.toNat

theorem ceSwitch_item {cfg : Cfg} {buf : List UInt8} {s : CeState} {it : Item} {p : Nat}
    (h : it.At buf p) (hp : it.Plain) (hn : it.Numeric) :
    ceSwitch cfg buf s it.code p = .ok (ceItem cfg s it p) := by
  -- only the codes that are read as numbers are loaded
  have hload : it.code = 268 ∨ it.code = 258 ∨ it.code = 259 → load4 buf (p + 8) = .ok it.data := by
    intro hc
    obtain ⟨x, hx⟩ := hn hc
    rw [h.word_eq hx, hx]
  unfold ceSwitch
  split
  · rename_i hc
    rw [h.flags_eq, Res.ok_bind, hp.flags, hload (Or.inl hc), Res.ok_bind]
    simp only [ceItem, hc]
    split <;> rfl
  case h_7 hc =>
    simp only [ceItem, hc, hload (Or.inr (Or.inr hc)), Res.ok_bind, Res.pure_eq]
    split <;> rfl
  case h_8 hc =>
    simp only [ceItem, hc, hload (Or.inr (Or.inl hc)), Res.ok_bind, Res.pure_eq]
    split <;> rfl
  case h_9 =>
    have hother : ceItem cfg s it p = .inl s := by
      unfold ceItem
      dsimp only
      split <;> first | rfl | contradiction
    rw [hother, Res.pure_eq]
  all_goals
    rename_i hc
    simp only [ceItem, hc, Res.pure_eq]

/-! ## What a node tells about itself -/

/--
A configuration whose messages fit: names that come from a line of the configuration
file, and no more ids than a peer keeps.
-/
structure Cfg.Sized (cfg : Cfg) : Prop where
  aaaIdentity : cfg.aaaIdentity.length ≤ 1024
  aaaRealm : cfg.aaaRealm.length ≤ 1024
  productName : cfg.productName.length ≤ 1024
  authAppIds : cfg.authAppIds.length ≤ maxAppidPerPeer
  acctAppIds : cfg.acctAppIds.length ≤ maxAppidPerPeer

/-- What the walk needs of it: names that fit an AVP, and no more ids than a peer keeps. -/
structure Cfg.Fitting (cfg : Cfg) : Prop where
  aaaIdentity : cfg.aaaIdentity.length < 2 ^ 23
  aaaRealm : cfg.aaaRealm.length < 2 ^ 23
  productName : cfg.productName.length < 2 ^ 23
  authAppIds : cfg.authAppIds.length ≤ maxAppidPerPeer
  acctAppIds : cfg.acctAppIds.length ≤ maxAppidPerPeer

theorem Cfg.Sized.fitting {cfg : Cfg} (h : cfg.Sized) : cfg.Fitting where
  aaaIdentity := by have := h.aaaIdentity; omega
  aaaRealm := by have := h.aaaRealm; omega
  productName := by have := h.productName; omega
  authAppIds := h.authAppIds
  acctAppIds := h.acctAppIds

/-- What a peer stores about this node, as far as there is memory for it. -/
def Cfg.advertised (cfg : Cfg) (mem : CeMem) : Caps where
  suppAuthAppIds := saveIds mem.auth cfg.authAppIds
  suppAcctAppIds := saveIds mem.acct cfg.acctAppIds
  realm := if mem.realm then some cfg.aaaRealm else none
  realmLen := if mem.realm then cfg.aaaRealm.length else 0

/-- An AVP with an application id. -/
def idItem (code : Nat) (id : UInt32) : Item := ⟨code, 0x40, be 4 id.toNat⟩

/-- The AVPs of a CER, which stand at the end of a CEA too. -/
def Cfg.ceItems (cfg : Cfg) (ip : IpAddr) : List Item :=
  [⟨264, 0x40, cfg.aaaIdentity⟩, ⟨296, 0x40, cfg.aaaRealm⟩, ⟨257, if ip.isV6 then 0 else 0x40, ip.addr⟩,
   ⟨266, 0x40, be 4 cfg.vendorId.toNat⟩, ⟨269, lenFlags cfg.productName, cfg.productName⟩]
  ++ cfg.authAppIds.map (idItem 258) ++ cfg.acctAppIds.map (idItem 259)

theorem ceItems_bytes (cfg : Cfg) (ip : IpAddr) :
    (cfg.ceItems ip).flatMap Item.bytes
      = putAvp 264 0x40 cfg.aaaIdentity ++ putAvp 296 0x40 cfg.aaaRealm ++ ceAvp cfg ip := by
  have hip : (if ip.isV6 then putAvp 257 0 ip.addr else putAvp 257 0x40 ip.addr)
      = putAvp 257 (if ip.isV6 then 0 else 0x40) ip.addr := by
    split <;> rfl
  simp only [Cfg.ceItems, ceAvp, ceAvpRest, hip, List.flatMap_append, List.flatMap_map, List.flatMap_cons,
    List.flatMap_nil, Item.bytes, idItem, List.append_assoc, List.append_nil]

/-- A length that fits its three bytes leaves no flags. -/
theorem lenFlags_eq_zero {data : List UInt8} (h : 8 + data.length < 2 ^ 24) : lenFlags data = 0 := by
  rw [lenFlags, avpHdrSize_zero, Nat.div_eq_of_lt h]
  rfl

theorem mem_ceItems {cfg : Cfg} {ip : IpAddr} (hs : cfg.Fitting) {it : Item} (h : it ∈ cfg.ceItems ip) :
    it.Plain ∧ it.Numeric := by
  have hi := hs.aaaIdentity
  have hr := hs.aaaRealm
  have hpn := hs.productName
  have hip : ip.addr.length ≤ 16 := by
    rw [ip.len]
    split <;> decide
  simp only [Cfg.ceItems, List.mem_append, List.mem_cons, List.not_mem_nil, or_false, List.mem_map] at h
  rcases h with ((rfl | rfl | rfl | rfl | rfl) | ⟨id, -, rfl⟩) | ⟨id, -, rfl⟩
  · exact ⟨Item.plain (by decide) (by decide) (by omega), by simp [Item.Numeric]⟩
  · exact ⟨Item.plain (by decide) (by decide) (by omega), by simp [Item.Numeric]⟩
  · refine ⟨Item.plain (by decide) ?_ (by omega), by simp [Item.Numeric]⟩
    split <;> decide
  · exact ⟨Item.plain (by decide) (by decide) (by rw [length_be]; decide), by simp [Item.Numeric]⟩
  · rw [lenFlags_eq_zero (by omega)]
    exact ⟨Item.plain (by decide) (by decide) (by omega), by simp [Item.Numeric]⟩
  · exact ⟨Item.plain (by decide) (by decide) (by rw [length_be]; decide), fun _ => ⟨id, rfl⟩⟩
  · exact ⟨Item.plain (by decide) (by decide) (by rw [length_be]; decide), fun _ => ⟨id, rfl⟩⟩

/--
Application ids are collected in their order, as long as there is room; `put` says where, and
one that is accepted is enough for success.
-/
theorem walk_ids {f : CeState → Item → Nat → CeState ⊕ UInt32} {put : List UInt32 → UInt32 → CeState}
    {avpCode : Nat} {A : UInt32 → Bool}
    (hf : ∀ l c id p, l.length ≠ maxAppidPerPeer → f (put l c) (idItem avpCode id) p
      = .inl (put (l ++ [id]) (if A id then aaaSuccess else c)))
    {l ids : List UInt32} {c : UInt32} {p : Nat} (h : l.length + ids.length ≤ maxAppidPerPeer) :
    walkItems f p (ids.map (idItem avpCode)) (put l c)
      = .inl (put (l ++ ids) (if ids.any A then aaaSuccess else c)) := by
  induction ids generalizing l c p with
  | nil =>
      rw [List.append_nil]
      rfl
  | cons id ids ih =>
      rw [List.length_cons] at h
      have hrest := @ih (l ++ [id]) (if A id then aaaSuccess else c)
        (p + (idItem avpCode id).bytes.length)
        (by rw [List.length_append, List.length_singleton]; omega)
      rw [List.map_cons, walkItems, hf l c id p (by omega)]
      dsimp only
      rw [hrest, List.append_assoc, List.singleton_append, List.any_cons]
      cases A id <;> simp

theorem walk_authIds (cfg : Cfg) {ids : List UInt32} (h : ids.length ≤ maxAppidPerPeer) (p : Nat)
    {s : CeState} (hs : s.authAppIds = []) :
    walkItems (ceItem cfg) p (ids.map (idItem 258)) s
      = .inl { s with authAppIds := ids
                      code := if ids.any (cfg.accepts (·.doesAuth)) then aaaSuccess else s.code } := by
  have hsame : { s with authAppIds := [], code := s.code } = s := by
    rw [← hs]
  have hw := @walk_ids (ceItem cfg) (fun l c => { s with authAppIds := l, code := c }) 258
    (cfg.accepts (·.doesAuth)) ?_ [] ids s.code p (by simpa using h)
  · rwa [hsame] at hw
  · intro l c id p hl
    simp only [ceItem, idItem, ofNat_ofBe_be]
    exact if_neg hl

theorem walk_acctIds (cfg : Cfg) {ids : List UInt32} (h : ids.length ≤ maxAppidPerPeer) (p : Nat)
    {s : CeState} (hs : s.acctAppIds = []) :
    walkItems (ceItem cfg) p (ids.map (idItem 259)) s
      = .inl { s with acctAppIds := ids
                      code := if ids.any (cfg.accepts (·.doesAcct)) then aaaSuccess else s.code } := by
  have hsame : { s with acctAppIds := [], code := s.code } = s := by
    rw [← hs]
  have hw := @walk_ids (ceItem cfg) (fun l c => { s with acctAppIds := l, code := c }) 259
    (cfg.accepts (·.doesAcct)) ?_ [] ids s.code p (by simpa using h)
  · rwa [hsame] at hw
  · intro l c id p hl
    simp only [ceItem, idItem, ofNat_ofBe_be]
    exact if_neg hl

/-- Does `cfg'` accept one of the ids `cfg` advertises? -/
def Cfg.shares (cfg' cfg : Cfg) : Bool :=
  cfg.authAppIds.any (cfg'.accepts (·.doesAuth)) || cfg.acctAppIds.any (cfg'.accepts (·.doesAcct))

/-- The state of `process_ce` behind the AVPs of a CER. -/
theorem walk_ceItems (cfg cfg' : Cfg) (ip : IpAddr) (hs : cfg.Fitting) (p : Nat) {s : CeState}
    (hauth : s.authAppIds = []) (hacct : s.acctAppIds = []) :
    walkItems (ceItem cfg') p (cfg.ceItems ip) s
      = .inl { mask := s.mask ||| 2 ||| 4 ||| 8 ||| 16 ||| 32
               code := if cfg'.shares cfg then aaaSuccess else s.code
               authAppIds := cfg.authAppIds, acctAppIds := cfg.acctAppIds
               realm := some (p + (putAvp 264 0x40 cfg.aaaIdentity).length) } := by
  -- the five single AVPs, then the two lists
  have h₁ : walkItems (ceItem cfg') p [⟨264, 0x40, cfg.aaaIdentity⟩, ⟨296, 0x40, cfg.aaaRealm⟩,
      ⟨257, if ip.isV6 then 0 else 0x40, ip.addr⟩, ⟨266, 0x40, be 4 cfg.vendorId.toNat⟩,
      ⟨269, lenFlags cfg.productName, cfg.productName⟩] s
      = .inl { s with mask := s.mask ||| 2 ||| 4 ||| 8 ||| 16 ||| 32
                      realm := some (p + (putAvp 264 0x40 cfg.aaaIdentity).length) } := rfl
  have h₂ := walk_authIds cfg' hs.authAppIds (p + (List.flatMap Item.bytes
    [⟨264, 0x40, cfg.aaaIdentity⟩, ⟨296, 0x40, cfg.aaaRealm⟩,
      ⟨257, if ip.isV6 then 0 else 0x40, ip.addr⟩, ⟨266, 0x40, be 4 cfg.vendorId.toNat⟩,
      ⟨269, lenFlags cfg.productName, cfg.productName⟩]).length)
    (s := { s with mask := s.mask ||| 2 ||| 4 ||| 8 ||| 16 ||| 32
                   realm := some (p + (putAvp 264 0x40 cfg.aaaIdentity).length) }) hauth
  have h₁₂ := (walkItems_append h₁).trans h₂
  refine (walkItems_append h₁₂).trans ((walk_acctIds cfg' hs.acctAppIds _
    (s := { s with mask := s.mask ||| 2 ||| 4 ||| 8 ||| 16 ||| 32
                   code := if cfg.authAppIds.any (cfg'.accepts (·.doesAuth)) then aaaSuccess
                     else s.code
                   authAppIds := cfg.authAppIds
                   realm := some (p + (putAvp 264 0x40 cfg.aaaIdentity).length) }) hacct).trans ?_)
  unfold Cfg.shares
  cases cfg.authAppIds.any (cfg'.accepts (·.doesAuth)) <;>
    cases cfg.acctAppIds.any (cfg'.accepts (·.doesAcct)) <;> rfl

theorem saveRealm_at {it : Item} {buf : List UInt8} {p : Nat} (h : it.At buf p) (hp : it.Plain)
    (mem : Bool) :
    saveRealm mem buf p = .ok (if mem then (some it.data, it.data.length) else (none, 0)) := by
  have hd := hp.data
  have hlen : usub (ofBe (be 3 (8 + it.data.length))) 8 = it.data.length := by
    rw [ofBe_be (by omega), usub_eq (by omega) (by omega)]
    omega
  rw [saveRealm, h.len_eq, Res.ok_bind, h.flags_eq, Res.ok_bind, hp.flags]
  simp only [List.drop_succ_cons, List.drop_zero, hlen]
  cases mem with
  | false => rfl
  | true =>
      rw [if_neg (by simp), if_neg (by omega), h.data_eq]
      rfl

/-! ## Reading a CER and a CEA -/

theorem length_le_items {items : List Item} (h : ∀ it ∈ items, it.Plain) :
    items.length ≤ (items.flatMap Item.bytes).length := by
  induction items with
  | nil => exact Nat.le_refl 0
  | cons it items ih =>
      have hit := Item.length_bytes (h it List.mem_cons_self)
      have hrest := ih fun it' h' => h it' (List.mem_cons_of_mem _ h')
      rw [List.length_cons, List.flatMap_cons, List.length_append]
      omega

section

variable {cfg cfg' : Cfg} {ip : IpAddr} {hdr buf : List UInt8} {mem : CeMem} {isReq : Bool} {code : UInt32}
  {caps : Caps}

/-- The walk over a message made of items. -/
theorem forAllAvps_ce {items : List Item} (hl : hdr.length = aaaMsgHdrSize)
    (hitems : ∀ it ∈ items, it.Plain ∧ it.Numeric) (hbuf : buf = hdr ++ items.flatMap Item.bytes) :
    forAllAvps buf (ceSwitch cfg' buf) (buf.length + 1) aaaMsgHdrSize ceStart
      = .ok (walkItems (ceItem cfg') aaaMsgHdrSize items ceStart) := by
  have hplain : ∀ it ∈ items, it.Plain := fun it h => (hitems it h).1
  have hlen := length_le_items hplain
  rw [← hl]
  refine forAllAvps_items hplain ?_ hbuf ?_
  · intro s it hit p hat
    exact ceSwitch_item hat (hplain it hit) (hitems it hit).2
  · rw [hbuf, List.length_append]
    omega

/-- Something is stored only when the walk went to the end and met a realm. -/
theorem processCe_ok (h : processCe cfg' mem buf isReq = .ok (code, some caps)) :
    ∃ s p realm realmLen, forAllAvps buf (ceSwitch cfg' buf) (buf.length + 1) aaaMsgHdrSize ceStart
        = .ok (.inl s)
      ∧ s.realm = some p ∧ saveRealm mem.realm buf p = .ok (realm, realmLen)
      ∧ caps = { suppAuthAppIds := saveIds mem.auth s.authAppIds
                 suppAcctAppIds := saveIds mem.acct s.acctAppIds, realm, realmLen } := by
  obtain ⟨x, hwalk, h⟩ := Res.bind_eq_ok h
  cases x with
  | inr r => exact absurd (Prod.mk.inj (Res.ok.inj h)).2 (by simp)
  | inl s =>
      dsimp only at h
      split at h
      -- nothing is stored unless the verdict is success
      · split at h
        · exact absurd h (by simp)
        · rename_i p hp
          obtain ⟨⟨realm, realmLen⟩, hsave, h⟩ := Res.bind_eq_ok h
          have hc := (Prod.mk.inj (Res.ok.inj h)).2
          exact ⟨s, p, realm, realmLen, hwalk, hp, hsave, (Option.some.inj hc).symm⟩
      · exact absurd (Prod.mk.inj (Res.ok.inj h)).2 (by simp)

/-- What is stored once the AVPs of the other node were collected. -/
theorem processCe_stored {s : CeState} {p : Nat} (hs : cfg.Fitting)
    (hwalk : forAllAvps buf (ceSwitch cfg' buf) (buf.length + 1) aaaMsgHdrSize ceStart = .ok (.inl s))
    (hauth : s.authAppIds = cfg.authAppIds) (hacct : s.acctAppIds = cfg.acctAppIds)
    (hrealm : s.realm = some p) (hat : Item.At ⟨296, 0x40, cfg.aaaRealm⟩ buf p)
    (h : processCe cfg' mem buf isReq = .ok (code, some caps)) : caps = cfg.advertised mem := by
  have hr := hs.aaaRealm
  obtain ⟨s', p', realm, realmLen, hwalk', hp, hsave, rfl⟩ := processCe_ok h
  obtain rfl : s = s' := Sum.inl.inj (Res.ok.inj (hwalk.symm.trans hwalk'))
  obtain rfl : p = p' := Option.some.inj (hrealm.symm.trans hp)
  rw [saveRealm_at hat (Item.plain (by decide) (by decide) (by omega)) mem.realm] at hsave
  have hpair := Res.ok.inj hsave
  rw [hauth, hacct, Cfg.advertised]
  cases hm : mem.realm with
  | false =>
      rw [hm] at hpair
      obtain ⟨rfl, rfl⟩ := Prod.mk.inj hpair
      rfl
  | true =>
      rw [hm] at hpair
      obtain ⟨rfl, rfl⟩ := Prod.mk.inj hpair
      rfl

/-- **What is stored of a CER** is what its sender advertises. -/
theorem processCe_cer (hs : cfg.Fitting) (hl : hdr.length = aaaMsgHdrSize)
    (hbuf : buf = hdr ++ (cfg.ceItems ip).flatMap Item.bytes)
    (h : processCe cfg' mem buf isReq = .ok (code, some caps)) : caps = cfg.advertised mem := by
  have hwalk := @forAllAvps_ce cfg' hdr buf _ hl (fun it hit => mem_ceItems hs hit) hbuf
  rw [walk_ceItems cfg cfg' ip hs aaaMsgHdrSize rfl rfl] at hwalk
  refine processCe_stored hs hwalk rfl rfl rfl ?_ h
  refine ⟨hdr ++ putAvp 264 0x40 cfg.aaaIdentity, ceAvp cfg ip, ?_, by rw [List.length_append, hl]⟩
  rw [hbuf, ceItems_bytes]
  simp only [Item.bytes, List.append_assoc]

/-- **What is stored of a CEA** is what its sender advertises, and it said success. -/
theorem processCe_cea {res : UInt32} (hs : cfg.Fitting) (hl : hdr.length = aaaMsgHdrSize)
    (hbuf : buf = hdr ++ (putAvp 268 0x40 (be 4 res.toNat) ++ (cfg.ceItems ip).flatMap Item.bytes))
    (h : processCe cfg' mem buf isReq = .ok (code, some caps)) :
    res = aaaSuccess ∧ caps = cfg.advertised mem := by
  have hitems : ∀ it ∈ idItem 268 res :: cfg.ceItems ip, it.Plain ∧ it.Numeric := by
    intro it hit
    rcases List.mem_cons.mp hit with rfl | hit
    · exact ⟨Item.plain (by decide) (by decide) (by rw [length_be]; decide), fun _ => ⟨res, rfl⟩⟩
    · exact mem_ceItems hs hit
  have hwalk := @forAllAvps_ce cfg' hdr buf _ hl hitems hbuf
  -- the Result-Code stands before everything else in an answer
  have hfirst : ceItem cfg' ceStart (idItem 268 res) aaaMsgHdrSize
      = if res ≠ aaaSuccess then .inr res else .inl { ceStart with mask := 1, code := res } := by
    simp only [ceItem, idItem, ofNat_ofBe_be]
    rfl
  rw [walkItems, hfirst] at hwalk
  by_cases hres : res = aaaSuccess
  · rw [if_neg (by simp [hres])] at hwalk
    dsimp only at hwalk
    rw [walk_ceItems cfg cfg' ip hs _ rfl rfl] at hwalk
    refine ⟨hres, processCe_stored hs hwalk rfl rfl rfl ?_ h⟩
    refine ⟨hdr ++ (idItem 268 res).bytes ++ putAvp 264 0x40 cfg.aaaIdentity, ceAvp cfg ip, ?_,
      by simp only [List.length_append, hl]⟩
    rw [hbuf, ceItems_bytes]
    simp only [Item.bytes, idItem, List.append_assoc]
  · -- any other code is returned at once, and nothing is stored
    rw [if_pos hres] at hwalk
    dsimp only at hwalk
    obtain ⟨s, p, realm, realmLen, hwalk', -⟩ := processCe_ok h
    exact absurd (hwalk.symm.trans hwalk') (by simp)

end

/-! ## Headers -/

/-- Patching a word that stands at a known place. -/
theorem setWord_at {pre old post x : List UInt8} {i : Nat} (hp : pre.length = 4 * i)
    (ho : old.length = 4) : setWord (pre ++ old ++ post) i x = pre ++ x ++ post := by
  unfold setWord
  have hlen : (pre ++ old).length = 4 * i + 4 := by rw [List.length_append, hp, ho]
  rw [List.drop_left' hlen, List.append_assoc pre old post, List.take_left' hp]

theorem word_at {pre w post : List UInt8} {i : Nat} (hp : pre.length = 4 * i) (hw : w.length = 4) :
    word (pre ++ w ++ post) i = w := by
  unfold word
  rw [List.append_assoc, List.drop_left' hp, List.take_left' hw]

theorem orWord_at {pre old post x : List UInt8} {i : Nat} (hp : pre.length = 4 * i)
    (ho : old.length = 4) :
    orWord (pre ++ old ++ post) i x = pre ++ List.zipWith (· ||| ·) old x ++ post := by
  rw [orWord, word_at hp ho, setWord_at hp ho]

/-- Oring onto a word of which only the first byte is set. -/
theorem zipWith_or_first (a b : UInt8) {bs : List UInt8} (h : bs.length = 3) :
    List.zipWith (· ||| ·) [a, 0, 0, 0] (b :: bs) = (a ||| b) :: bs := by
  obtain ⟨x, y, z, rfl⟩ := List.length_eq_three.mp h
  simp

theorem be_four (n : Nat) : be 4 n = UInt8.ofNat (n / 2 ^ 24) :: be 3 n := by
  have htop : n / 256 / 256 / 256 = n / 2 ^ 24 := by omega
  simp only [be, List.nil_append, List.cons_append, htop]

theorem be_four_small {n : Nat} (h : n < 2 ^ 24) : be 4 n = 0 :: be 3 n := by
  rw [be_four, Nat.div_eq_of_lt h]
  rfl

/-- The AVPs every request of this layer starts with, and its own. -/
def reqBody (cfg : Cfg) (avps : List UInt8) : List UInt8 :=
  putAvp 264 0x40 cfg.aaaIdentity ++ putAvp 296 0x40 cfg.aaaRealm ++ avps

theorem length_stdReq (cfg : Cfg) (avps : List UInt8) :
    (stdReq cfg ++ avps).length = 20 + (reqBody cfg avps).length := by
  simp only [stdReq, reqBody, List.length_append, List.length_cons, List.length_nil, List.length_replicate]
  omega

/-- **A request of this layer**: its length over the version, its code, its identifiers, its AVPs. -/
theorem stamp_buildReq_eq (cfg : Cfg) {code : Nat} (avps : List UInt8) (hbh ete : UInt32)
    (hcode : code < 2 ^ 24) :
    stamp (buildReq cfg code avps) hbh ete
      = ((1 ||| UInt8.ofNat ((20 + (reqBody cfg avps).length) / 2 ^ 24))
          :: be 3 (20 + (reqBody cfg avps).length)) ++ (0x80 :: be 3 code) ++ [0, 0, 0, 0]
        ++ le 4 hbh.toNat ++ le 4 ete.toNat ++ reqBody cfg avps := by
  have hstd : stdReq cfg ++ avps = [] ++ [1, 0, 0, 0] ++ ([0x80, 0, 0, 0] ++ [0, 0, 0, 0] ++ [0, 0, 0, 0]
      ++ [0, 0, 0, 0] ++ reqBody cfg avps) := by
    simp [stdReq, reqBody, List.replicate]
  -- the length goes into the word of the version, then the code into that of the flags
  have h₀ : orWord (stdReq cfg ++ avps) 0 (be 4 (stdReq cfg ++ avps).length)
      = ((1 ||| UInt8.ofNat ((20 + (reqBody cfg avps).length) / 2 ^ 24))
          :: be 3 (20 + (reqBody cfg avps).length)) ++ [0x80, 0, 0, 0] ++ ([0, 0, 0, 0] ++ [0, 0, 0, 0]
        ++ [0, 0, 0, 0] ++ reqBody cfg avps) := by
    rw [length_stdReq, hstd, orWord_at rfl rfl, be_four, zipWith_or_first _ _ (length_be _ _)]
    simp only [List.nil_append, List.append_assoc, List.cons_append]
  have h₁ : buildReq cfg code avps = ((1 ||| UInt8.ofNat ((20 + (reqBody cfg avps).length) / 2 ^ 24))
        :: be 3 (20 + (reqBody cfg avps).length)) ++ (0x80 :: be 3 code)
      ++ [0, 0, 0, 0] ++ [0, 0, 0, 0] ++ [0, 0, 0, 0] ++ reqBody cfg avps := by
    rw [buildReq, h₀, orWord_at (by simp) rfl, be_four_small hcode,
      zipWith_or_first _ _ (length_be _ _)]
    simp only [List.append_assoc, List.cons_append, UInt8.or_zero]
  rw [stamp, h₁, setWord_at (by simp) rfl, List.append_assoc _ (le 4 _) (reqBody _ _),
    setWord_at (by simp) rfl]
  simp only [List.append_assoc]

/-- As long as the length fits its field, it leaves the version alone. -/
theorem stamp_buildReq (cfg : Cfg) {code : Nat} (avps : List UInt8) (hbh ete : UInt32)
    (hlen : 20 + (reqBody cfg avps).length < 2 ^ 24) (hcode : code < 2 ^ 24) :
    stamp (buildReq cfg code avps) hbh ete
      = (1 :: be 3 (20 + (reqBody cfg avps).length)) ++ (0x80 :: be 3 code) ++ [0, 0, 0, 0]
        ++ le 4 hbh.toNat ++ le 4 ete.toNat ++ reqBody cfg avps := by
  rw [stamp_buildReq_eq cfg avps hbh ete hcode, Nat.div_eq_of_lt hlen]
  rfl

/-- The AVPs of an answer of this layer. -/
def ansBody (cfg : Cfg) (avps : List UInt8) (res : UInt32) : List UInt8 :=
  putAvp 268 0x40 (be 4 res.toNat) ++ reqBody cfg avps

theorem putAvp_word (code : Nat) (flags : UInt8) {w : List UInt8} (hw : w.length = 4) :
    putAvp code flags w = be 4 code ++ (flags :: be 3 12) ++ w := by
  have hpad : to32xLen 4 - 4 = 0 := by decide
  rw [putAvp, hw, avpHdrSize_zero, hpad]
  simp

theorem length_wordAvp (code : Nat) (flags : UInt8) {w : List UInt8} (hw : w.length = 4) :
    (putAvp code flags w).length = 12 := by
  rw [putAvp_word code flags hw]
  simp only [List.length_append, List.length_cons, length_be, hw]

/-- **An answer of this layer**: its length, the code and the identifiers of the request, its AVPs. -/
theorem buildAns_eq (cfg : Cfg) (avps : List UInt8) {req : List UInt8} (res : UInt32)
    (hreq : 20 ≤ req.length) :
    buildAns cfg avps req res
      = (1 :: be 3 (20 + (ansBody cfg avps res).length)) ++ (0 :: (word req 1).drop 1) ++ word req 2
        ++ word req 3 ++ word req 4 ++ ansBody cfg avps res := by
  have hstd : stdAns cfg ++ avps = ([1, 0, 0, 0] ++ [0, 0, 0, 0] ++ [0, 0, 0, 0] ++ [0, 0, 0, 0]
      ++ [0, 0, 0, 0] ++ (be 4 268 ++ (0x40 :: be 3 12))) ++ List.replicate 4 0 ++ reqBody cfg avps := by
    rw [stdAns, putAvp_word 268 0x40 (by simp)]
    simp [reqBody, List.replicate]
  -- the Result-Code is written into the template, behind the header and the two words of its AVP
  have hres : setWord (stdAns cfg ++ avps) 7 (be 4 res.toNat) = [] ++ [1, 0, 0, 0] ++ ([0, 0, 0, 0]
      ++ [0, 0, 0, 0] ++ [0, 0, 0, 0] ++ [0, 0, 0, 0] ++ ansBody cfg avps res) := by
    rw [hstd, setWord_at (by simp) (by simp), ansBody, putAvp_word 268 0x40 (length_be _ _)]
    simp only [List.nil_append, List.append_assoc]
  have hl : ([] ++ [1, 0, 0, 0] ++ ([0, 0, 0, 0] ++ [0, 0, 0, 0] ++ [0, 0, 0, 0] ++ [0, 0, 0, 0]
      ++ ansBody cfg avps res)).length = 20 + (ansBody cfg avps res).length := by
    simp only [List.length_append, List.length_cons, List.length_nil]
    omega
  have hword : ∀ i, i ≤ 4 → (word req i).length = 4 := by
    intro i hi
    simp only [word, List.length_take, List.length_drop]
    omega
  have hcode : ((word req 1).drop 1).length = 3 := by rw [List.length_drop, hword 1 (by decide)]
  unfold buildAns maskMsgCode
  dsimp only
  rw [hres, hl, orWord_at rfl rfl, be_four, List.drop_succ_cons, List.drop_zero,
    zipWith_or_first _ _ (length_be _ _), List.nil_append, UInt8.or_zero]
  -- the code of the request without its flags, then its three ids as they stand
  have h₁ := @orWord_at (1 :: be 3 (20 + (ansBody cfg avps res).length)) [0, 0, 0, 0]
    ([0, 0, 0, 0] ++ [0, 0, 0, 0] ++ [0, 0, 0, 0] ++ ansBody cfg avps res) (0 :: (word req 1).drop 1) 1
    (by simp) rfl
  rw [zipWith_or_first _ _ hcode, UInt8.or_zero] at h₁
  have h₂ := @setWord_at ((1 :: be 3 (20 + (ansBody cfg avps res).length)) ++ (0 :: (word req 1).drop 1))
    [0, 0, 0, 0] ([0, 0, 0, 0] ++ [0, 0, 0, 0] ++ ansBody cfg avps res) (word req 2) 2
    (by simp [hword]) rfl
  have h₃ := @setWord_at ((1 :: be 3 (20 + (ansBody cfg avps res).length)) ++ (0 :: (word req 1).drop 1)
    ++ word req 2) [0, 0, 0, 0] ([0, 0, 0, 0] ++ ansBody cfg avps res) (word req 3) 3
    (by simp [hword]) rfl
  have h₄ := @setWord_at ((1 :: be 3 (20 + (ansBody cfg avps res).length)) ++ (0 :: (word req 1).drop 1)
    ++ word req 2 ++ word req 3) [0, 0, 0, 0] (ansBody cfg avps res) (word req 4) 4
    (by simp [hword]) rfl
  simp only [List.append_assoc] at h₁ h₂ h₃ h₄ ⊢
  rw [h₁, h₂, h₃, h₄]

/-- A message of this layer: a header that says what it is, and AVPs. -/
structure Spelt (m : List UInt8) (code : Nat) (isReq : Bool) (body : List UInt8) : Prop where
  isFrame : IsFrame m
  code : msgCode m = code
  isReq : isReqBuf m = isReq
  body : ∃ hdr, hdr.length = aaaMsgHdrSize ∧ m = hdr ++ body

theorem spelt_of_header {m bs ids body : List UInt8} {b : UInt8} {n : Nat}
    (hm : m = (1 :: be 3 n) ++ (b :: bs) ++ ids ++ body) (hbs : bs.length = 3) (hids : ids.length = 12)
    (hn : n = 20 + body.length) (hmax : n ≤ 65536) :
    Spelt m (ofBe bs) (decide (b &&& 0x80 ≠ 0)) body := by
  have h₀ : (1 :: be 3 n).length = 4 := by rw [List.length_cons, length_be]
  have hcut : m = (1 :: be 3 n) ++ (b :: bs) ++ (ids ++ body) := by rw [hm, List.append_assoc]
  have hlen : m.length = n := by
    rw [hm]
    simp only [List.length_append, List.length_cons, length_be, hbs, hids]
    omega
  refine ⟨?_, ?_, ?_, _, ?_, hm⟩
  · have h4 : m.take 4 = 1 :: be 3 n := by
      rw [hcut, List.append_assoc, List.take_left' h₀]
    have hhdr : aaaMsgHdrSize = 20 := rfl
    have hmsg : maxAaaMsgSize = 65536 := rfl
    rw [IsFrame, h4, hlen, msgSize, ofBe_flags_len 1 (by omega)]
    exact if_neg (by omega)
  · rw [hcut, msgCode, word_at h₀ (by rw [List.length_cons, hbs]), List.drop_succ_cons, List.drop_zero]
  · have hget : m.getD 4 0 = b := by
      rw [hcut, List.append_assoc, List.getD_eq_getElem?_getD, List.getElem?_append_right (by omega), h₀]
      rfl
    rw [isReqBuf, hget]
  · simp only [List.length_append, List.length_cons, length_be, hbs, hids]
    rfl

/-! ## Sizes -/

theorem length_putAvp (code : Nat) (flags : UInt8) {data : List UInt8} (h : data.length < 2 ^ 23) :
    (putAvp code flags data).length ≤ 11 + data.length := by
  have hp := @length_pad data.length (by omega)
  have hpad : to32xLen data.length ≤ data.length + 3 := by
    unfold to32xLen
    split <;> omega
  simp only [putAvp, List.length_append, length_be, List.length_singleton, List.length_replicate]
  omega

theorem length_reqBody {cfg : Cfg} (hs : cfg.Sized) (avps : List UInt8) :
    (reqBody cfg avps).length ≤ 2070 + avps.length := by
  have hi := hs.aaaIdentity
  have hr := hs.aaaRealm
  have h₁ := @length_putAvp 264 0x40 cfg.aaaIdentity (by omega)
  have h₂ := @length_putAvp 296 0x40 cfg.aaaRealm (by omega)
  simp only [reqBody, List.length_append]
  omega

theorem length_ids (code : Nat) (ids : List UInt32) :
    (ids.flatMap fun id => putAvp code 0x40 (be 4 id.toNat)).length = 12 * ids.length := by
  induction ids with
  | nil => rfl
  | cons id ids ih =>
      rw [List.flatMap_cons, List.length_append, ih, length_wordAvp code 0x40 (length_be _ _),
        List.length_cons]
      omega

theorem length_ceAvp {cfg : Cfg} (hs : cfg.Sized) (ip : IpAddr) : (ceAvp cfg ip).length ≤ 3100 := by
  have hip : ip.addr.length ≤ 16 := by
    rw [ip.len]
    split <;> decide
  have hn := hs.productName
  have hauth := hs.authAppIds
  have hacct := hs.acctAppIds
  have hmax : maxAppidPerPeer = 64 := rfl
  have h₀ : (if ip.isV6 then putAvp 257 0 ip.addr else putAvp 257 0x40 ip.addr).length ≤ 27 := by
    split
    · have h := @length_putAvp 257 0 ip.addr (by omega)
      omega
    · have h := @length_putAvp 257 0x40 ip.addr (by omega)
      omega
  have h₁ := length_wordAvp 266 0x40 (length_be 4 cfg.vendorId.toNat)
  have h₂ := @length_putAvp 269 (lenFlags cfg.productName) cfg.productName (by omega)
  have h₃ := length_ids 258 cfg.authAppIds
  have h₄ := length_ids 259 cfg.acctAppIds
  simp only [ceAvp, ceAvpRest, List.length_append]
  omega

/-! ## The messages of this layer -/

theorem req_spelt {cfg : Cfg} (hs : cfg.Sized) {code : Nat} {avps : List UInt8} (hcode : code < 2 ^ 24)
    (havps : avps.length ≤ 4096) (hbh ete : UInt32) :
    Spelt (stamp (buildReq cfg code avps) hbh ete) code true (reqBody cfg avps) := by
  have hlen := length_reqBody hs avps
  have hm := stamp_buildReq cfg avps hbh ete (by omega) hcode
  have hspelt := spelt_of_header (m := stamp (buildReq cfg code avps) hbh ete)
    (by rw [hm, List.append_assoc _ (le 4 hbh.toNat), List.append_assoc _ [0, 0, 0, 0]]) (length_be 3 code)
    (by simp) rfl (by omega)
  rw [ofBe_be (by omega)] at hspelt
  exact hspelt

theorem length_word {req : List UInt8} {i : Nat} (h : 4 * i + 4 ≤ req.length) : (word req i).length = 4 := by
  simp only [word, List.length_take, List.length_drop]
  omega

theorem ans_spelt {cfg : Cfg} (hs : cfg.Sized) {avps req : List UInt8} (res : UInt32)
    (hreq : 20 ≤ req.length) (havps : avps.length ≤ 4096) :
    Spelt (buildAns cfg avps req res) (msgCode req) false (ansBody cfg avps res) := by
  have hlen := length_reqBody hs avps
  have hlen' : (ansBody cfg avps res).length ≤ 6200 := by
    have h := length_wordAvp 268 0x40 (length_be 4 res.toNat)
    rw [ansBody, List.length_append]
    omega
  have hm := buildAns_eq cfg avps res hreq
  exact spelt_of_header (m := buildAns cfg avps req res)
    (by rw [hm, List.append_assoc _ (word req 3), List.append_assoc _ (word req 2)])
    (by rw [List.length_drop, @length_word req 1 (by omega)])
    (by simp only [List.length_append, @length_word req 2 (by omega), @length_word req 3 (by omega),
      @length_word req 4 (by omega)]) rfl (by omega)

/-- **The CER of a node.** -/
theorem cer_spelt {cfg : Cfg} (hs : cfg.Sized) (ip : IpAddr) (hbh ete : UInt32) :
    Spelt (stamp (buildReq cfg ceMsgCode (ceAvp cfg ip)) hbh ete) ceMsgCode true
      ((cfg.ceItems ip).flatMap Item.bytes) := by
  have hlen := length_ceAvp hs ip
  rw [ceItems_bytes]
  exact req_spelt hs (by decide) (by omega) hbh ete

/-- **The CEA of a node**, to a request that has a header. -/
theorem cea_spelt {cfg : Cfg} (hs : cfg.Sized) (ip : IpAddr) {cer : List UInt8} (res : UInt32)
    (hcer : 20 ≤ cer.length) :
    Spelt (buildAns cfg (ceAvp cfg ip) cer res) (msgCode cer) false
      (putAvp 268 0x40 (be 4 res.toNat) ++ (cfg.ceItems ip).flatMap Item.bytes) := by
  have hlen := length_ceAvp hs ip
  rw [ceItems_bytes]
  exact ans_spelt hs res hcer (by omega)

/-! ## What is written -/

namespace Cfg

/-- A CER. -/
def cer (cfg : Cfg) (ip : IpAddr) (hbh ete : UInt32) : List UInt8 :=
  stamp (buildReq cfg ceMsgCode (ceAvp cfg ip)) hbh ete

/-- A CEA. -/
def cea (cfg : Cfg) (ip : IpAddr) (req : List UInt8) (res : UInt32) : List UInt8 :=
  buildAns cfg (ceAvp cfg ip) req res

/-- A DWR. -/
def dwr (cfg : Cfg) (hbh ete : UInt32) : List UInt8 := stamp (buildReq cfg dwMsgCode []) hbh ete

/-- A DPR. -/
def dpr (cfg : Cfg) (cause hbh ete : UInt32) : List UInt8 :=
  stamp (buildReq cfg dpMsgCode (dprAvp cause)) hbh ete

/-- A DWA or a DPA: they differ in the code, which is that of the request. -/
def stdAnswer (cfg : Cfg) (req : List UInt8) (res : UInt32) : List UInt8 := buildAns cfg [] req res

end Cfg

end Disc.Transport
