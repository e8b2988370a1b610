import Disc.Server.Missing
import Disc.Transport.Template

/-!
# The way of an answer

An answer that `AAANewMessage` has made gets its result code, perhaps an AVP more, and is
sent to the peer the request came from. What is followed here are its cells. They are new,
so that the request stays as it is, and as long as their data can be read the encoder
writes them.

The Session-Id is the data of the request. When its length is negative the encoder runs
over the end of its buffer.
-/

namespace Disc.Server

open Disc.Lib Disc.Msg Disc.Transport

/-! ## The answer so far -/

/-- An AVP as it is sent. -/
def sentAvp (code : UInt32) (data : List UInt8) : AvpView := ⟨code, (setAvpFields code 0).1, 0, data⟩

/-- The cells of an answer with this result code. -/
def answerCells (cfg : Cfg) (sid : Str) (code : UInt32) : List Avp :=
  [ownAvp 263 sid false, ownAvp 268 ⟨be 4 code.toNat, 0, 4⟩ true,
    ownAvp 264 ⟨cfg.aaaIdentity, 0, cfg.aaaIdentity.length⟩ false,
    ownAvp 296 ⟨cfg.aaaRealm, 0, cfg.aaaRealm.length⟩ false]

/-- The answer `ans` to `m`, with the AVPs `cs`; everything older is as it was in `h₀`. -/
structure Drafted (h₀ h : Heap) (m ans : Message) (app : UInt32) (ids : List Nat) (cs : List Avp) :
    Prop where
  made : Made h₀ h ans ids cs
  origin : ans.origin = ((m.flags &&& 0x40, m.commandCode, app, m.endtoendId, m.hopbyhopId),
    m.inPeer)

section Answer

variable {s : Site} {h₀ h h' : Heap} {m ans : Message} {app : UInt32} {ids : List Nat}
  {cs : List Avp} {sid : Str} {vs : List AvpView}

theorem bytes_whole (d : List UInt8) : (⟨d, 0, d.length⟩ : Str).bytes = some d := by
  have hbytes := slice_append [] d []
  rw [List.nil_append, List.append_nil] at hbytes
  exact hbytes

theorem bytes_code (code : UInt32) : (⟨be 4 code.toNat, 0, 4⟩ : Str).bytes = some (be 4 code.toNat) := by
  have hlen : (be 4 code.toNat).length = 4 := length_be 4 _
  have hwhole := bytes_whole (be 4 code.toNat)
  rwa [hlen] at hwhole

theorem view_ownAvp {code : UInt32} {data : Str} {d : List UInt8} (hd : data.bytes = some d)
    (freeIt : Bool) : (ownAvp code data freeIt).view = some (sentAvp code d) := by
  simp [Avp.view, ownAvp, hd, sentAvp]

/-- The views of a list are those of its cells. -/
theorem views_of_bodies (hb : ids.map h.body = cs.map some) : views h ids = cs.mapM Avp.view := by
  unfold views
  induction ids generalizing cs with
  | nil =>
      cases cs with
      | nil => rfl
      | cons c cs => exact absurd hb (by simp)
  | cons x ids ih =>
      cases cs with
      | nil => exact absurd hb (by simp)
      | cons c cs =>
          obtain ⟨hx, hrest⟩ := List.cons.inj hb
          rw [List.mapM_cons, List.mapM_cons, view_of_body, hx, ih hrest]
          rfl

theorem view_answerCells {cfg : Cfg} {d : List UInt8} (hs : sid.bytes = some d) (code : UInt32) :
    (answerCells cfg sid code).mapM Avp.view
      = some [sentAvp 263 d, sentAvp 268 (be 4 code.toNat), sentAvp 264 cfg.aaaIdentity,
          sentAvp 296 cfg.aaaRealm] := by
  simp only [answerCells, List.mapM_cons, List.mapM_nil, view_ownAvp hs,
    view_ownAvp (bytes_code code), view_ownAvp (bytes_whole _)]
  rfl

/-- An answer is no request. -/
theorem Drafted.isReq (hd : Drafted h₀ h m ans app ids cs) : isReq ans = false := by
  have horigin := hd.origin
  simp only [Message.origin, Message.header, Prod.mk.injEq] at horigin
  have hfl : ans.flags &&& 0x80 = 0 := by
    rw [horigin.1.1]
    show m.flags &&& 0x40 &&& 0x80 = 0
    rw [UInt8.and_assoc]
    show m.flags &&& 0 = 0
    simp
  simp [Server.isReq, hfl]

/-! ## Its result code -/

theorem next_setData {x : Nat} {a : Avp} (hx : h.cells[x]? = some a) (d : Str) :
    (⟨h.cells.set x { a with data := d }⟩ : Heap).next = h.next
      ∧ (⟨h.cells.set x { a with data := d }⟩ : Heap).prev = h.prev := by
  have hlt : x < h.cells.length := (List.getElem?_eq_some_iff.mp hx).1
  constructor
  all_goals
    funext q
    by_cases hq : x = q
    · subst hq
      simp [Heap.next, Heap.prev, List.getElem?_set_self hlt, hx]
    · simp [Heap.next, Heap.prev, List.getElem?_set_ne hq]

/-- Other data in one of the cells. -/
theorem Made.setData {as bs : List Nat} {x : Nat} {ca cb : List Avp} {c a : Avp}
    (hmade : Made h₀ h m (as ++ x :: bs) (ca ++ c :: cb)) (hlen : ca.length = as.length)
    (hx : h.cells[x]? = some a) (d : Str) :
    Made h₀ ⟨h.cells.set x { a with data := d }⟩ m (as ++ x :: bs)
      (ca ++ { c with data := d } :: cb) := by
  have hl := hmade.list
  obtain ⟨hnext, hprev⟩ := next_setData hx d
  have hlt : x < h.cells.length := (List.getElem?_eq_some_iff.mp hx).1
  have hsplit := List.append_inj (show as.map h.body ++ h.body x :: bs.map h.body
    = ca.map some ++ some c :: cb.map some by simpa using hmade.bodies) (by simp [hlen])
  obtain ⟨hxc, hbs⟩ := List.cons.inj hsplit.2
  have hother : ∀ y, x ≠ y → (⟨h.cells.set x { a with data := d }⟩ : Heap).body y = h.body y := by
    intro y hy
    simp [Heap.body, List.getElem?_set_ne hy]
  have hself : (⟨h.cells.set x { a with data := d }⟩ : Heap).body x = some { c with data := d } := by
    have hac : a.body = c := by
      rw [Heap.body, hx] at hxc
      exact Option.some.inj hxc
    rw [Heap.body, List.getElem?_set_self hlt, ← hac]
    rfl
  have hnd := List.nodup_middle.mp hl.chain.nodup
  have hnot : ∀ y ∈ as ++ bs, x ≠ y := fun y hy heq => (List.nodup_cons.mp hnd).1 (heq ▸ hy)
  refine ⟨⟨?_, fun y hy => ?_⟩, ?_, hmade.fresh, fun y hy => ?_, ?_, hmade.session⟩
  · rw [hnext, hprev]
    exact hl.chain
  · show y < (h.cells.set x _).length
    rw [List.length_set]
    exact hl.alloc y hy
  · rw [List.map_append, List.map_cons, hself, List.map_append, List.map_cons, ← hsplit.1, ← hbs]
    rw [List.map_congr_left fun y hy => hother y (hnot y (List.mem_append_left _ hy)),
      List.map_congr_left fun y hy => hother y (hnot y (List.mem_append_right _ hy))]
  · have hne : x ≠ y := fun heq => Nat.not_le_of_lt hy (heq ▸ hmade.fresh x (by simp))
    show (h.cells.set x _)[y]? = _
    rw [List.getElem?_set_ne hne]
    exact hmade.old y hy
  · show h₀.size ≤ (h.cells.set x _).length
    rw [List.length_set]
    exact hmade.grown

/-- **The result code is set** where it is, and nothing else of the answer changes. -/
theorem Drafted.setResultCode {cfg : Cfg} {x y o r : Nat} {was : UInt32}
    (hd : Drafted h₀ h m ans app [x, y, o, r] (answerCells cfg sid was))
    (hcode : ans.resCode = some y) (code : UInt32) :
    ∃ h', aaaSetMessageResultCode h ans code = .ok (some h')
      ∧ Drafted h₀ h' m ans app [x, y, o, r] (answerCells cfg sid code) := by
  have hbody : h.body y = some (ownAvp 268 ⟨be 4 was.toNat, 0, 4⟩ true) := by
    have hb := hd.made.bodies
    simp only [answerCells, List.map_cons, List.cons.injEq] at hb
    exact hb.2.1
  obtain ⟨a, ha, hab⟩ := Option.map_eq_some_iff.mp hbody
  have hdata : a.data = ⟨be 4 was.toNat, 0, 4⟩ := congrArg Avp.data hab
  have hpoke : poke (be 4 was.toNat) 0 (be 4 code.toNat) = some (be 4 code.toNat) := by
    simp [poke]
  refine ⟨_, ?_, ⟨@Made.setData h₀ h ans [x] [o, r] y [ownAvp 263 sid false] _ _ a hd.made rfl ha
    ⟨be 4 code.toNat, 0, 4⟩, hd.origin⟩⟩
  unfold aaaSetMessageResultCode
  rw [hd.isReq, hcode]
  simp only [Bool.false_eq_true, if_false, ha, hdata, hpoke, Res.ofAccess_some, Res.ok_bind,
    Res.pure_eq]

/-! ## Sending it -/

/-- The commands `AAASendMessage` takes an answer to. -/
def Answerable (code : UInt32) : Prop :=
  ¬ (code = 257 ∨ code = 280 ∨ code = 282) ∧ ¬ (code = 274 ∨ code = 275 ∨ code = 258)

instance (code : UInt32) : Decidable (Answerable code) := inferInstanceAs (Decidable (_ ∧ _))

/-- The header of the answer. -/
def draftHdr (m : Message) (app : UInt32) : Message :=
  { Message.zero with
    flags := m.flags &&& 0x40, commandCode := m.commandCode, applicationId := app
    endtoendId := m.endtoendId, hopbyhopId := m.hopbyhopId }

theorem Drafted.commandCode (hd : Drafted h₀ h m ans app ids cs) :
    ans.commandCode = m.commandCode := by
  have horigin := hd.origin
  simp only [Message.origin, Message.header, Prod.mk.injEq] at horigin
  exact horigin.1.2.1

/-- The answer goes to the peer the request came from. -/
theorem Drafted.send (hbuf : s.buf = true) (hd : Drafted h₀ h m ans app ids cs)
    (hv : cs.mapM Avp.view = some vs) (hcmd : Answerable m.commandCode) {p : Nat}
    (hp : m.inPeer = some p) (hlen : encLen vs < 2 ^ 32) (n : Node) :
    s.aaaSendMessage n h ans
      = .ok (n.setPeer p ((n.peers p).sendResToPeer s.env (encMsg (draftHdr m app) vs)).2) := by
  have horigin := hd.origin
  simp only [Message.origin, Prod.mk.injEq] at horigin
  obtain ⟨hhdr, hin⟩ := horigin
  have hseq : avpSeq h ans = some vs := by
    rw [hd.made.list.avpSeq_eq, views_of_bodies hd.made.bodies, hv]
  have hhdr' : ans.header = (draftHdr m app).header := hhdr
  unfold Site.aaaSendMessage
  rw [hd.commandCode, if_neg hcmd.1, if_neg hcmd.2, hd.isReq, hbuf, aaaBuildMsgBuffer_eq hseq hlen]
  simp only [Bool.false_eq_true, if_false, Res.ok_bind, hin, hp, Res.ofAccess_some, Res.pure_eq,
    encMsg_congr hhdr']

/-- A command it does not take leaves no trace. -/
theorem aaaSendMessage_refused (hcmd : ¬ Answerable ans.commandCode) (n : Node) (h : Heap) :
    s.aaaSendMessage n h ans = .ok n := by
  unfold Site.aaaSendMessage
  by_cases hce : ans.commandCode = 257 ∨ ans.commandCode = 280 ∨ ans.commandCode = 282
  · rw [if_pos hce]
  · rw [if_neg hce, if_pos (Decidable.of_not_not fun hno => hcmd ⟨hce, hno⟩)]

/-- Nor does an answer there is no buffer for. -/
theorem Drafted.send_noBuffer (hbuf : s.buf = false) (hd : Drafted h₀ h m ans app ids cs) (n : Node) :
    s.aaaSendMessage n h ans = .ok n := by
  by_cases hcmd : Answerable ans.commandCode
  · obtain ⟨as, has, -⟩ := mapM_cells hd.made.list.alloc
    have hwalk : avpsOf h ans = .ok as := by
      rw [avpsOf, hd.made.list.chain.fwd.walk_eq (hd.made.list.chain.length_le hd.made.list.alloc)]
      simp [has]
    unfold Site.aaaSendMessage aaaBuildMsgBuffer
    rw [if_neg hcmd.1, if_neg hcmd.2, hd.isReq, hbuf, hwalk]
    rfl
  · exact aaaSendMessage_refused hcmd n h

/-- Data that cannot be read cannot be written. -/
theorem writeAvp_unreadable {a : Avp} (ha : a.data.bytes = none) {buf : List UInt8} {p : Nat}
    {r : List UInt8 × Nat} : writeAvp a buf p ≠ .ok r := by
  intro hrun
  unfold writeAvp at hrun
  obtain ⟨b₁, -, hrun⟩ := Res.bind_eq_ok hrun
  obtain ⟨b₂, -, hrun⟩ := Res.bind_eq_ok hrun
  obtain ⟨b₃, -, hrun⟩ := Res.bind_eq_ok hrun
  simp only [ha, Res.pure_eq, Res.ok_bind] at hrun
  -- with or without a vendor id, what follows is the data
  split at hrun
  · obtain ⟨b₄, -, hrun⟩ := Res.bind_eq_ok hrun
    exact absurd hrun (by nofun)
  · exact absurd hrun (by nofun)

/-- **An answer whose first AVP cannot be read stops the program.** -/
theorem Drafted.send_unreadable (hbuf : s.buf = true) {x : Nat} {c : Avp}
    (hd : Drafted h₀ h m ans app (x :: ids) (c :: cs)) (hc : c.data.bytes = none)
    (hcmd : Answerable m.commandCode) {n n' : Node} : s.aaaSendMessage n h ans ≠ .ok n' := by
  intro hrun
  have hl := hd.made.list
  obtain ⟨a, ha, hac⟩ : ∃ a, h.cells[x]? = some a ∧ a.data.bytes = none := by
    obtain ⟨hx, -⟩ := List.cons.inj hd.made.bodies
    obtain ⟨a, ha, hbody⟩ := Option.map_eq_some_iff.mp hx
    exact ⟨a, ha, by rw [← hc, ← hbody]; rfl⟩
  unfold Site.aaaSendMessage at hrun
  rw [hd.commandCode, if_neg hcmd.1, if_neg hcmd.2, hd.isReq, hbuf] at hrun
  obtain ⟨⟨built, m'⟩, hbuild, -⟩ := Res.bind_eq_ok hrun
  unfold aaaBuildMsgBuffer at hbuild
  obtain ⟨as, has, hbuild⟩ := Res.bind_eq_ok hbuild
  obtain ⟨⟨b₁, p₁⟩, -, hbuild⟩ := Res.bind_eq_ok hbuild
  obtain ⟨⟨b₂, p₂⟩, hwrite, -⟩ := Res.bind_eq_ok hbuild
  -- the AVP at the front is the first to be written
  obtain ⟨as', rfl⟩ : ∃ as', as = a :: as' := by
    rw [avpsOf, hl.chain.fwd.walk_eq (hl.chain.length_le hl.alloc)] at has
    have hcells := Res.ofAccess_eq_ok has
    rw [List.mapM_cons, ha] at hcells
    obtain ⟨b, hb, hrest⟩ := Option.bind_eq_some_iff.mp hcells
    obtain rfl := Option.some.inj hb
    obtain ⟨as', -, heq⟩ := Option.bind_eq_some_iff.mp hrest
    exact ⟨as', (Option.some.inj heq).symm⟩
  obtain ⟨r, hfirst, -⟩ := Res.bind_eq_ok hwrite
  exact writeAvp_unreadable hac hfirst

end Answer

end Disc.Server
