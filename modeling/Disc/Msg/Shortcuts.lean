import Disc.Msg.Edits
import Disc.Msg.Scan

/-!
# The shortcuts of a decoded message

`AAATranslateMessage` links one AVP after the other, and `AAAAddAVPToMessage` sets the
shortcut of its code each time. So a shortcut of a decoded message is null exactly when no
AVP of its code was received, and points to such an AVP otherwise.
-/

namespace Disc.Msg

open Disc.Lib

/-- The message has an AVP of this code. -/
def HasAvp (h : Heap) (m : Message) (code : UInt32) : Prop :=
  ∃ as, avpsOf h m = .ok as ∧ ∃ a ∈ as, a.code = code

/-- The list of the message and its shortcuts are as they should be. -/
def WellLinked (h : Heap) (m : Message) : Prop :=
  ∃ ids, AvpList h m ids ∧ ShortcutsRight h m ids

section Decoded

variable {h h' : Heap} {m m' : Message}

/-- A new AVP of `AAATranslateMessage` is a new cell. -/
theorem aaaCreateAVP_dontFree {mem : CreateMem} {code : UInt32} {flags : UInt8}
    {vendorId : UInt32} {blk : List UInt8} {off len a : Nat}
    (hc : aaaCreateAVP mem h code flags vendorId (some (blk, off)) len .dontFreeData
      = .ok (some a, h')) : ∃ c, a = h.size ∧ h' = ⟨h.cells ++ [c]⟩ := by
  simp only [aaaCreateAVP] at hc
  split at hc
  · exact absurd hc (by simp)
  · split at hc
    · exact absurd hc (by simp)
    · simp only [Res.ok.injEq, Prod.mk.injEq, Option.some.injEq] at hc
      exact ⟨_, hc.1.symm, hc.2.symm⟩

/-- What has not been linked does not matter to the shortcuts. -/
theorem ShortcutsRight.append {xs : List Nat} (hl : AvpList h m xs) (hr : ShortcutsRight h m xs)
    (c : Avp) : ShortcutsRight ⟨h.cells ++ [c]⟩ m xs := by
  have hcode : ∀ x ∈ xs, (⟨h.cells ++ [c]⟩ : Heap).code x = h.code x := by
    intro x hx
    simp only [Heap.code, Heap.body, List.getElem?_append_left (hl.alloc x hx)]
  intro k hk
  obtain ⟨hnone, hsome⟩ := hr k hk
  refine ⟨hnone.trans (forall₂_congr fun x hx => by rw [hcode x hx]), fun a ha => ?_⟩
  rw [hcode a (hsome a ha).1]
  exact hsome a ha

/-- **One AVP more.** -/
theorem WellLinked.add (hw : WellLinked h m) (c : Avp) {rc : ReturnCode}
    (hadd : aaaAddAVPToMessage ⟨h.cells ++ [c]⟩ m (some h.size) m.tail = .ok (rc, h', m')) :
    WellLinked h' m' := by
  obtain ⟨xs, hl, hr⟩ := hw
  obtain ⟨h₁, m₁, hadd₁, hlk⟩ := add_new hl c
  rw [hadd₁] at hadd
  simp only [Res.ok.injEq, Prod.mk.injEq] at hadd
  obtain ⟨rfl, rfl, rfl⟩ := hadd
  have hcell : (⟨h.cells ++ [c]⟩ : Heap).cells[h.size]? = some c := by simp [Heap.size]
  obtain ⟨hd, tl, rfl⟩ := aaaAddAVPToMessage_message hcell hadd₁
  refine ⟨_, hlk.list, (hr.append hl c).add hlk.code (code_cell hcell) (fun k hk => ?_) ?_⟩
  · rw [shortcut_setShortcut _ hk]
    rfl
  · intro x
    simp [or_comm]

theorem translateAvps_wellLinked {src : Block} {last : Nat} {mem : Nat → CreateMem}
    {fuel n ptr : Nat} (hw : WellLinked h m)
    (ht : translateAvps src last mem fuel n ptr h m = .ok (h', m')) : WellLinked h' m' := by
  induction fuel generalizing n ptr h m with
  | zero => exact absurd ht (by simp [translateAvps])
  | succ fuel ih =>
      rw [translateAvps] at ht
      split at ht
      · split at ht
        · exact absurd ht (by simp)
        · obtain ⟨code, -, ht⟩ := Res.bind_eq_ok ht
          obtain ⟨fl, -, ht⟩ := Res.bind_eq_ok ht
          obtain ⟨len, -, ht⟩ := Res.bind_eq_ok ht
          dsimp only at ht
          split at ht
          · exact absurd ht (by simp)
          · obtain ⟨⟨vid, p⟩, -, ht⟩ := Res.bind_eq_ok ht
            dsimp only at ht
            split at ht
            · exact absurd ht (by simp)
            · obtain ⟨⟨avp, h₁⟩, hnew, ht⟩ := Res.bind_eq_ok ht
              cases avp with
              | none => exact absurd ht (by simp)
              | some a =>
                  obtain ⟨c, rfl, rfl⟩ := aaaCreateAVP_dontFree hnew
                  obtain ⟨⟨rc, h₂, m₁⟩, hadd, ht⟩ := Res.bind_eq_ok ht
                  exact ih (hw.add c hadd) ht
      · obtain ⟨rfl, rfl⟩ := Prod.mk.inj (Res.ok.inj ht)
        exact hw

/-- **The list and the shortcuts of a decoded message are as they should be.** -/
theorem decoded_wellLinked {src : Block} {mem : TranslateMem} {attachBuf : Bool}
    (hdec : aaaTranslateMessage mem h src src.bytes.length attachBuf = .ok (h', m)) :
    WellLinked h' m := by
  obtain ⟨h20, hmsg, hver, hlen⟩ := aaaTranslateMessage_ok hdec
  rw [aaaTranslateMessage_eq mem h h20, if_neg (by simp [hmsg, hver, hlen])] at hdec
  obtain ⟨⟨h₁, m₁⟩, hrun, hret⟩ := Res.bind_eq_ok hdec
  obtain ⟨rfl, rfl⟩ := Prod.mk.inj (Res.ok.inj hret)
  have hnone : ∀ c, (hdrMessage src.bytes).shortcut c = none := by
    intro c
    simp [Message.shortcut, hdrMessage, Message.zero]
  have hempty : WellLinked h (hdrMessage src.bytes) :=
    ⟨[], avpList_hdrMessage h src.bytes, fun c _ => ⟨by simp [hnone c], by simp [hnone c]⟩⟩
  obtain ⟨ids, hl, hr⟩ := translateAvps_wellLinked hempty hrun
  cases attachBuf with
  | false => exact ⟨ids, hl, hr⟩
  | true => exact ⟨ids, ⟨hl.chain, hl.alloc⟩, hr⟩

/-- The cells of a list, and their codes. -/
theorem mapM_cells {xs : List Nat} (halloc : ∀ x ∈ xs, x < h.size) :
    ∃ as, xs.mapM (h.cells[·]?) = some as
      ∧ ∀ c, (∃ a ∈ as, a.code = c) ↔ ∃ x ∈ xs, h.code x = some c := by
  induction xs with
  | nil => exact ⟨[], rfl, fun c => by simp⟩
  | cons x xs ih =>
      obtain ⟨as, has, hcodes⟩ := ih fun y hy => halloc y (List.mem_cons_of_mem x hy)
      have hcell : h.cells[x]? = some (h.cells.get ⟨x, halloc x (by simp)⟩) :=
        List.getElem?_eq_getElem _
      refine ⟨_ :: as, by simp only [List.mapM_cons, hcell, has]; rfl, fun c => ?_⟩
      simp only [List.mem_cons, exists_eq_or_imp, hcodes c, code_cell hcell, Option.some.injEq]

/-- **A shortcut is there when an AVP of its code is.** -/
theorem WellLinked.shortcut_iff (hw : WellLinked h m) {c : UInt32} (hc : c ∈ shortcutCodes) :
    (m.shortcut c).isSome ↔ HasAvp h m c := by
  obtain ⟨ids, hl, hr⟩ := hw
  obtain ⟨as, has, hcodes⟩ := mapM_cells hl.alloc
  have hwalk : avpsOf h m = .ok as := by
    rw [avpsOf, hl.chain.fwd.walk_eq (hl.chain.length_le hl.alloc)]
    simp [has]
  have hhas : HasAvp h m c ↔ ∃ x ∈ ids, h.code x = some c := by
    rw [← hcodes c]
    refine ⟨fun hav => ?_, fun hex => ⟨as, hwalk, hex⟩⟩
    obtain ⟨bs, hbs, hex⟩ := hav
    obtain rfl := Res.ok.inj (hwalk.symm.trans hbs)
    exact hex
  rw [hhas, ← not_iff_not, Option.not_isSome_iff_eq_none, (hr c hc).1]
  simp

end Decoded

end Disc.Msg
