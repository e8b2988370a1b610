import Disc.Msg.Codec
import Disc.Server.Worker
import Disc.Transport.Labels
import Mathlib.Logic.Relation

/-!
# Relay transparency

What comes back for a forwarded request goes to where the request came from. Three
facts make the round trip: the label of a transaction, which its request carries as
hop-by-hop id, selects that transaction and no other; the transaction remembers the
peer and the identifier the request came with; and a worker that has looked it up
changes four bytes of the reply and keeps it until it is sent.
-/

namespace Disc.Server

open Disc.Lib Disc.Msg Disc.Transport

/-! ## Reading a message -/

/-- The four bytes `getD` looks for in a list that is long enough. -/
theorem headD_drop_take (l : List UInt8) (i : Nat) : ((l.drop i).take 1).headD 0 = l.getD i 0 := by
  rw [List.getD_eq_getElem?_getD]
  cases hd : l.drop i with
  | nil =>
      rw [List.getElem?_eq_none (List.drop_eq_nil_iff.mp hd)]
      rfl
  | cons x xs =>
      have hx : l[i]? = some x := by
        have h0 : (l.drop i)[0]? = l[i + 0]? := List.getElem?_drop
        rw [hd, Nat.add_zero] at h0
        exact h0.symm
      rw [hx]
      rfl

/-- What the code reads off a message is what its buffer says. -/
theorem translate_ok {mem : TranslateMem} {addr : Nat} {buf : List UInt8} {m : Message}
    (h : translate mem addr buf = .ok m) :
    20 ≤ buf.length ∧ isReq m = isReqBuf buf ∧ m.hopbyhopId = hopbyhopOf buf
      ∧ m.endtoendId = endtoendOf buf ∧ msgBuf m = buf.take (ofBe ((buf.drop 1).take 3)) := by
  unfold translate at h
  split at h
  · obtain ⟨⟨h', m'⟩, ht, hk⟩ := Res.bind_eq_ok h
    obtain rfl := Res.ok.inj hk
    obtain ⟨h20, hf, hh, he, hb⟩ := aaaTranslateMessage_header ht
    refine ⟨h20, ?_, hh, he, ?_⟩
    · simp only [isReq, hf, isReqBuf, headD_drop_take]
    · simp only [msgBuf, hb, Option.getD_some]
  · exact absurd h (by simp)

/-- The two identifiers a forwarded request goes out with. -/
theorem outgoing_ids (w : World) {req : List UInt8} (h : 20 ≤ req.length) :
    hopbyhopOf (outgoing w req) = w.table.nextLabel (w.eteHash (endtoendOf req))
      ∧ endtoendOf (outgoing w req) = endtoendOf req := by
  constructor
  · rw [hopbyhopOf, outgoing, word_setWord (length_le 4 _) (by omega), ofNat_ofLe_le]
  · rw [endtoendOf, outgoing, word_setWord_ne (length_le 4 _) (by omega) (by omega)]
    rfl

/-! ## The peers of a node -/

/-- Some steps of a peer. -/
def Steps (cfg : Cfg) : World → World → Prop :=
  Relation.ReflTransGen fun w w' => ∃ a, World.step cfg w a = some w'

theorem Steps.one {cfg : Cfg} {w w' : World} {a : Transport.Act} (h : World.step cfg w a = some w') :
    Steps cfg w w' := .single ⟨a, h⟩

theorem Steps.reachable {cfg : Cfg} {w w' : World} (h : Steps cfg w w')
    (hr : World.Reachable cfg w) : World.Reachable cfg w' := by
  induction h with
  | refl => exact hr
  | tail _ hs ih =>
      obtain ⟨a, hs⟩ := hs
      exact .step ih trivial hs

/-- What happens to the transactions of a peer: none comes back, and the hash stays the same. -/
theorem Steps.cells {cfg : Cfg} {w w' : World} (h : Steps cfg w w') :
    w'.table.hashSize = w.table.hashSize ∧ w.nextTrans ≤ w'.nextTrans
      ∧ ∀ c ∈ w'.table.cells, c ∈ w.table.cells ∨ w.nextTrans ≤ c.payload.id := by
  induction h with
  | refl => exact ⟨rfl, Nat.le_refl _, fun _ hc => Or.inl hc⟩
  | tail _ hs ih =>
      obtain ⟨a, hs⟩ := hs
      obtain ⟨hr, hn, hc⟩ := World.step_table hs
      refine ⟨hr.hashSize.trans ih.1, Nat.le_trans ih.2.1 hn, ?_⟩
      intro c hm
      rcases hc c hm with hm | hm
      · exact ih.2.2 c hm
      · exact Or.inr (Nat.le_trans ih.2.1 hm)

namespace Node

section

variable (n : Node)

@[simp] theorem setPeer_self (p : Nat) (w : World) : (n.setPeer p w).peers p = w := if_pos rfl

@[simp] theorem setPeer_ne {p q : Nat} (w : World) (h : q ≠ p) :
    (n.setPeer p w).peers q = n.peers q := if_neg h

@[simp] theorem setRelay_peers (t : Nat) (r : Option Relay) : (n.setRelay t r).peers = n.peers := rfl

@[simp] theorem setRelay_self (t : Nat) (r : Option Relay) : (n.setRelay t r).relays t = r :=
  if_pos rfl

theorem setRelay_ne {t u : Nat} (r : Option Relay) (h : u ≠ t) :
    (n.setRelay t r).relays u = n.relays u := if_neg h

@[simp] theorem dequeue_forwards (p i : Nat) : (n.dequeue p i).forwards = n.forwards := rfl

end

variable {cfg : Cfg} {n n' : Node}

/-- One peer makes some steps, and the others none. -/
theorem steps_setPeer {p : Nat} {w : World} (h : Steps cfg (n.peers p) w) (q : Nat) :
    Steps cfg (n.peers q) ((n.setPeer p w).peers q) := by
  by_cases hq : q = p
  · subst hq
    rw [setPeer_self]
    exact h
  · rw [setPeer_ne n w hq]
    exact .refl

theorem steps_dequeue (n : Node) (p i q : Nat) : Steps cfg (n.peers q) ((n.dequeue p i).peers q) := by
  refine steps_setPeer ?_ q
  cases hi : (n.peers p).queue[i]? with
  | none =>
      rw [List.eraseIdx_of_length_le (List.getElem?_eq_none_iff.mp hi)]
      exact .refl
  | some buf =>
      refine Steps.one (a := .work i false) ?_
      simp only [World.step, World.work, hi]
      rfl

/-- Taking a reply is what `World.work` says. -/
theorem steps_takeReply {t p i : Nat} {mem : TranslateMem} {addr : Nat} {buf : List UInt8}
    {m : Message} (hi : (n.peers p).queue[i]? = some buf) (hm : translate mem addr buf = .ok m)
    (hr : isReq m = false) (q : Nat) :
    Steps cfg (n.peers q) (((n.dequeue p i).takeReply t p m).peers q) := by
  obtain ⟨-, hreq, hh, he, -⟩ := translate_ok hm
  have hreq : isReqBuf buf = false := by rw [← hreq, hr]
  set v : World := { n.peers p with queue := (n.peers p).queue.eraseIdx i } with hv
  have hpeer : (n.dequeue p i).peers p = v := setPeer_self _ _ _
  unfold takeReply
  rw [hpeer]
  cases hl : v.transactionLookup m.endtoendId m.hopbyhopId with
  | none => exact steps_dequeue n p i q
  | some r =>
      obtain ⟨tr, w⟩ := r
      -- what the worker does to peer `p` is the `work` step of that peer on its own
      have hwork : World.step cfg (n.peers p) (.work i true) = some w := by
        simp only [World.step, World.work, hi, hreq, ← he, ← hh, ← hv, hl]
        rfl
      have hpeers : Steps cfg (n.peers q) (((n.dequeue p i).setPeer p w).peers q) := by
        by_cases hq : q = p
        · subst hq
          rw [setPeer_self]
          exact Steps.one hwork
        · rw [setPeer_ne _ _ hq, dequeue, setPeer_ne _ _ hq]
          exact .refl
      dsimp only
      split
      · exact hpeers
      · exact hpeers

/-- A request that was forwarded: the peer that got it made the step, and the request was recorded. -/
theorem forwardRequest_cases {env : Env} {m : Message} {p q : Nat} {ok : Bool}
    (h : n.forwardRequest env m p q = (ok, n')) :
    (ok = false ∧ n' = n)
    ∨ (ok = true ∧ (n.peers q).canSend = true
      ∧ n' = { n.setPeer q ((n.peers q).sendReqToPeer env (some p) m.hopbyhopId (msgBuf m)).2 with
        forwards := n.forwards ++ [⟨p, q, msgBuf m, outgoing (n.peers q) (msgBuf m),
          (n.peers q).nextTrans⟩] }) := by
  unfold forwardRequest at h
  split at h
  · obtain ⟨rfl, rfl⟩ := Prod.mk.inj h
    exact Or.inl ⟨rfl, rfl⟩
  · split at h
    · obtain ⟨rfl, rfl⟩ := Prod.mk.inj h
      exact Or.inl ⟨rfl, rfl⟩
    · rename_i w hs
      obtain ⟨rfl, rfl⟩ := Prod.mk.inj h
      refine Or.inr ⟨rfl, ?_, by rw [hs]⟩
      cases hc : (n.peers q).canSend with
      | true => rfl
      | false =>
          simp [World.sendReqToPeer, hc] at hs

theorem takeReply_forwards (n : Node) (t p : Nat) (m : Message) :
    (n.takeReply t p m).forwards = n.forwards := by
  unfold takeReply
  split
  · rfl
  · dsimp only
    split <;> rfl

/-- A worker that forwards a request succeeds, or still has it. -/
theorem step_forward {p i q : Nat} {env : Env} {mem : TranslateMem} {addr : Nat}
    (h : n.step cfg (.forward p i q env mem addr) = some n') :
    ∃ buf m, (n.peers p).queue[i]? = some buf ∧ translate mem addr buf = .ok m ∧ isReq m = true
      ∧ (n' = n ∨ ∃ n₁, n.forwardRequest env m p q = (true, n₁) ∧ n' = n₁.dequeue p i) := by
  simp only [step] at h
  cases hi : (n.peers p).queue[i]? with
  | none =>
      rw [hi] at h
      exact absurd h (by simp)
  | some buf =>
      rw [hi] at h
      dsimp only at h
      cases hm : translate mem addr buf with
      | error | fault | diverge =>
          rw [hm] at h
          exact absurd h (by simp)
      | ok m =>
          rw [hm] at h
          dsimp only at h
          split at h
          · rename_i hr
            have hr : isReq m = true := by
              simp only [Bool.and_eq_true] at hr
              exact hr.1
            refine ⟨buf, m, rfl, hm, hr, ?_⟩
            cases hf : n.forwardRequest env m p q with
            | mk ok n₁ =>
                rw [hf] at h
                cases ok with
                -- a request that was not sent stays in the queue for the next peer of the route
                | true => exact Or.inr ⟨n₁, rfl, (Option.some.inj h).symm⟩
                | false => exact Or.inl (Option.some.inj h).symm
          · exact absurd h (by simp)

/-- A worker that takes a reply drops it, or looks up its transaction. -/
theorem step_reply {t p i : Nat} {mem : TranslateMem} {addr : Nat}
    (h : n.step cfg (.reply t p i mem addr) = some n') :
    n.relays t = none ∧ ∃ buf, (n.peers p).queue[i]? = some buf
      ∧ (n' = n.dequeue p i ∨ ∃ m, translate mem addr buf = .ok m ∧ isReq m = false
        ∧ n' = (n.dequeue p i).takeReply t p m) := by
  simp only [step] at h
  split at h
  · rename_i buf ht hi
    refine ⟨ht, buf, hi, ?_⟩
    split at h
    · rename_i m hm
      split at h
      · exact absurd h (by simp)
      · rename_i hr
        exact Or.inr ⟨m, hm, by simpa using hr, (Option.some.inj h).symm⟩
    · exact Or.inl (Option.some.inj h).symm
    · exact absurd h (by simp)
  · exact absurd h (by simp)

theorem step_relay {t : Nat} {env : Env} (h : n.step cfg (.relay t env) = some n') :
    ∃ r, n.relays t = some r
      ∧ n' = (n.setPeer r.inPeer ((n.peers r.inPeer).sendResToPeer env r.buf).2).setRelay t none := by
  simp only [step] at h
  cases hr : n.relays t with
  | none =>
      rw [hr] at h
      exact absurd h (by simp)
  | some r =>
      rw [hr] at h
      exact ⟨r, rfl, (Option.some.inj h).symm⟩

theorem step_peer {p : Nat} {a : Transport.Act} (h : n.step cfg (.peer p a) = some n') :
    ∃ w, World.step cfg (n.peers p) a = some w ∧ n' = n.setPeer p w := by
  simp only [step] at h
  split at h
  · obtain ⟨w, hw, rfl⟩ := Option.map_eq_some_iff.mp h
    exact ⟨w, hw, rfl⟩
  · exact absurd h (by simp)

theorem step_done {p i : Nat} (h : n.step cfg (.done p i) = some n') : n' = n.dequeue p i := by
  simp only [step] at h
  split at h
  · exact (Option.some.inj h).symm
  · exact absurd h (by simp)

/-- Whatever a node does, each of its peers makes steps of its own. -/
theorem step_peers {a : Act} (h : n.step cfg a = some n') (p : Nat) :
    Steps cfg (n.peers p) (n'.peers p) := by
  cases a with
  | peer q a =>
      obtain ⟨w, hw, rfl⟩ := step_peer h
      exact steps_setPeer (Steps.one hw) p
  | tick =>
      obtain rfl := Option.some.inj h
      exact Steps.one (a := .tick) rfl
  | forward r i q env mem addr =>
      obtain ⟨buf, m, -, -, -, rfl | ⟨n₁, hf, rfl⟩⟩ := step_forward h
      · exact .refl
      · refine Relation.ReflTransGen.trans ?_ (steps_dequeue n₁ r i p)
        obtain ⟨hno, -⟩ | ⟨-, -, hn₁⟩ := forwardRequest_cases hf
        · exact absurd hno (by simp)
        · rw [hn₁]
          have hs : World.step cfg (n.peers q) (.sendReq env (some r) m.hopbyhopId (msgBuf m))
              = some ((n.peers q).sendReqToPeer env (some r) m.hopbyhopId (msgBuf m)).2 := rfl
          exact steps_setPeer (n := n) (Steps.one hs) p
  | reply t q i mem addr =>
      obtain ⟨-, buf, hi, rfl | ⟨m, hm, hr, rfl⟩⟩ := step_reply h
      · exact steps_dequeue n q i p
      · exact steps_takeReply hi hm hr p
  | relay t env =>
      obtain ⟨r, -, rfl⟩ := step_relay h
      have hs : World.step cfg (n.peers r.inPeer) (.sendRes env r.buf)
          = some ((n.peers r.inPeer).sendResToPeer env r.buf).2 := rfl
      rw [setRelay_peers]
      exact steps_setPeer (Steps.one hs) p
  | done q i =>
      obtain rfl := step_done h
      exact steps_dequeue n q i p

/-- **Each peer of a node** runs as a peer of its own does. -/
theorem peers_reachable (h : Reachable cfg n) (p : Nat) : World.Reachable cfg (n.peers p) := by
  refine Reach.invariant (I := fun n => World.Reachable cfg (n.peers p)) ?_ ?_ h
  · intro n hn
    exact .init (hn.1 p)
  · intro n a n' hi _ hst
    exact (step_peers hst p).reachable hi

/-! ## What a transaction remembers -/

theorem safeWrite_table (w : World) (r : WriteRes) (k : WriteKind) (buf : List UInt8) :
    (w.safeWrite r k buf).2.table = w.table ∧ (w.safeWrite r k buf).2.nextTrans = w.nextTrans := by
  cases r with
  | failed => exact ⟨rfl, rfl⟩
  | wrote m =>
      simp only [World.safeWrite]
      split <;> exact ⟨rfl, rfl⟩

/-- The transaction of a forwarded request is the last one its peer has. -/
theorem sendReqToPeer_cells {w : World} (hc : w.canSend = true) (env : Env) (p : Nat)
    (orig : UInt32) (req : List UInt8) :
    ∃ tr : Trans, tr.id = w.nextTrans ∧ tr.inPeer = some p ∧ tr.origHopbyhopId = orig
      ∧ (w.sendReqToPeer env (some p) orig req).2.table
        = (w.table.addCell (w.eteHash (endtoendOf req)) tr).2
      ∧ (w.sendReqToPeer env (some p) orig req).2.nextTrans = w.nextTrans + 1 := by
  refine ⟨{ id := w.nextTrans, inPeer := some p, origHopbyhopId := orig, info := 0, internal := false,
            reqCode := msgCode req, origin := ⟨w.sock, w.resets⟩ }, rfl, rfl, rfl, ?_⟩
  unfold World.sendReqToPeer
  simp only [hc, Bool.not_true, Bool.false_eq_true, if_false]
  exact safeWrite_table _ _ _ _

/-- A forwarded request and, as long as it is in the table, its transaction. -/
structure Recorded (w : World) (f : Forward) : Prop where
  req : 20 ≤ f.req.length
  tr : f.tr < w.nextTrans
  cell : ∀ l ∈ w.table.cells, l.payload.id = f.tr →
    l.hashCode = w.eteHash (endtoendOf f.sent) ∧ l.label = hopbyhopOf f.sent
      ∧ l.payload.inPeer = some f.inPeer ∧ l.payload.origHopbyhopId = hopbyhopOf f.req

/-- A transaction that has ended does not come back, and the others stay as they are. -/
theorem Recorded.steps {w w' : World} {f : Forward} (h : Recorded w f) (hs : Steps cfg w w') :
    Recorded w' f := by
  obtain ⟨hsize, hn, hc⟩ := hs.cells
  refine ⟨h.req, Nat.lt_of_lt_of_le h.tr hn, ?_⟩
  intro l hl hid
  rw [World.eteHash, hsize]
  rcases hc l hl with hl | hl
  · exact h.cell l hl hid
  · have := h.tr
    omega

/-- A request that goes out now. -/
theorem recorded_new {w : World} (hw : World.Reachable cfg w) (hc : w.canSend = true) (env : Env)
    (p q : Nat) {orig : UInt32} {req : List UInt8} (h20 : 20 ≤ req.length)
    (ho : orig = hopbyhopOf req) : Recorded (w.sendReqToPeer env (some p) orig req).2
      ⟨p, q, req, outgoing w req, w.nextTrans⟩ := by
  obtain ⟨tr, hid, hin, horig, ht, hn⟩ := sendReqToPeer_cells hc env p orig req
  obtain ⟨hh, he⟩ := outgoing_ids w h20
  refine ⟨h20, ?_, ?_⟩
  · rw [hn]
    exact Nat.lt_succ_self _
  · intro l hl hlid
    rw [ht] at hl
    rw [World.eteHash, ht]
    rcases List.mem_append.mp hl with hl | hl
    · -- an older transaction has an older address
      have := World.ids_reachable hw l hl
      have hlid : l.payload.id = w.nextTrans := hlid
      omega
    · obtain rfl := List.mem_singleton.mp hl
      exact ⟨by rw [he]; rfl, hh.symm, hin, horig.trans ho⟩

theorem recorded_reachable (h : Reachable cfg n) :
    ∀ f ∈ n.forwards, Recorded (n.peers f.outPeer) f := by
  refine Reach.invariant_of (J := Reachable cfg)
    (I := fun n => ∀ f ∈ n.forwards, Recorded (n.peers f.outPeer) f) (fun _ hn => hn) ?_ ?_ h
  · intro n hn f hf
    rw [hn.2.2] at hf
    exact absurd hf (by simp)
  · intro n a n' hr hi _ hst
    -- requests forwarded before are kept whatever the peers do
    have hold : ∀ f ∈ n.forwards, Recorded (n'.peers f.outPeer) f :=
      fun f hf => (hi f hf).steps (step_peers hst f.outPeer)
    have hsame : n'.forwards = n.forwards → ∀ f ∈ n'.forwards, Recorded (n'.peers f.outPeer) f := by
      intro he
      rw [he]
      exact hold
    cases a with
    | peer p a =>
        obtain ⟨w, -, rfl⟩ := step_peer hst
        exact hsame rfl
    | tick =>
        obtain rfl := Option.some.inj hst
        exact hsame rfl
    | forward p i q env mem addr =>
        obtain ⟨buf, m, hq, hm, -, rfl | ⟨n₁, hf, rfl⟩⟩ := step_forward hst
        · exact hsame rfl
        · obtain ⟨hno, -⟩ | ⟨-, hc, hn₁⟩ := forwardRequest_cases hf
          · exact absurd hno (by simp)
          · obtain ⟨h20, -, hh, -, hb⟩ := translate_ok hm
            have hframe := (World.inbox_reachable (peers_reachable hr p)).queue buf
              (List.mem_of_getElem? hq)
            rw [hframe.take_eq] at hb
            intro f hf
            rw [dequeue_forwards, hn₁] at hf
            rcases List.mem_append.mp hf with hf | hf
            · exact hold f hf
            · obtain rfl := List.mem_singleton.mp hf
              have hl : 20 ≤ (msgBuf m).length := by rw [hb]; exact h20
              have ho : m.hopbyhopId = hopbyhopOf (msgBuf m) := by rw [hb]; exact hh
              have hpeer : n₁.peers q
                  = ((n.peers q).sendReqToPeer env (some p) m.hopbyhopId (msgBuf m)).2 := by
                rw [hn₁]
                exact setPeer_self _ _ _
              have hd : Steps cfg (n₁.peers q) ((n₁.dequeue p i).peers q) := steps_dequeue n₁ p i q
              rw [hpeer] at hd
              exact (recorded_new (peers_reachable hr q) hc env p q hl ho).steps hd
    | reply t p i mem addr =>
        obtain ⟨-, buf, -, rfl | ⟨m, -, -, rfl⟩⟩ := step_reply hst
        · exact hsame rfl
        · exact hsame (takeReply_forwards _ _ _ _)
    | relay t env =>
        obtain ⟨r, -, rfl⟩ := step_relay hst
        exact hsame rfl
    | done p i =>
        obtain rfl := step_done hst
        exact hsame rfl

/-! ## The way back -/

/-- The transaction of a forwarded request has not ended. -/
def Live (n : Node) (f : Forward) : Prop :=
  ∃ l ∈ (n.peers f.outPeer).table.cells, l.payload.id = f.tr

/-- A reply with the two identifiers the request went out with. -/
structure Echoes (buf : List UInt8) (f : Forward) : Prop where
  answer : isReqBuf buf = false
  hopbyhop : hopbyhopOf buf = hopbyhopOf f.sent
  endtoend : endtoendOf buf = endtoendOf f.sent

/-- The reply selects the transaction of the request, which is then gone. -/
theorem lookup_recorded {w : World} {f : Forward} {buf : List UInt8} (h : Recorded w f)
    (hlab : w.table.Labelled) (hlive : ∃ l ∈ w.table.cells, l.payload.id = f.tr)
    (he : Echoes buf f) :
    ∃ tr w', w.transactionLookup (endtoendOf buf) (hopbyhopOf buf) = some (tr, w')
      ∧ tr.inPeer = some f.inPeer ∧ tr.origHopbyhopId = hopbyhopOf f.req
      ∧ (∀ c ∈ w'.table.cells, c.payload.id ≠ f.tr) ∧ w'.writes = w.writes := by
  obtain ⟨l, hl, hid⟩ := hlive
  obtain ⟨hhash, hlabel, hin, horig⟩ := h.cell l hl hid
  rw [← he.endtoend] at hhash
  rw [← he.hopbyhop] at hlabel
  -- labels are not reused, so the cell found is the one of `f` and no other
  have hfind : w.table.cellLookup (w.eteHash (endtoendOf buf)) (hopbyhopOf buf) = some l := by
    rw [← hhash, ← hlabel]
    exact hlab.cellLookup_eq hl
  set cells := w.table.cells.eraseP (·.is (w.eteHash (endtoendOf buf)) (hopbyhopOf buf)) with hcells
  refine ⟨l.payload, { w with
    table := { w.table with cells }
    trTimer := w.trTimer.filter (fun e => e.1 ≠ l.payload.id) }, ?_, hin, horig, ?_, rfl⟩
  · simp only [World.transactionLookup, HTable.cellLookupAndRemove, hfind, ← hcells]
  · intro c hmem hcid
    obtain ⟨h1, h2, -⟩ := h.cell c (List.mem_of_mem_eraseP hmem) hcid
    rw [← he.endtoend] at h1
    rw [← he.hopbyhop] at h2
    exact hlab.not_mem_eraseP hmem ⟨h1, h2⟩

/-- A worker keeps its reply until it sends it. -/
theorem step_relays {t : Nat} {r : Relay} {a : Act} (hr : n.relays t = some r)
    (ha : ∀ env, a ≠ .relay t env) (h : n.step cfg a = some n') : n'.relays t = some r := by
  cases a with
  | peer p a =>
      obtain ⟨w, -, rfl⟩ := step_peer h
      exact hr
  | tick =>
      obtain rfl := Option.some.inj h
      exact hr
  | forward p i q env mem addr =>
      obtain ⟨buf, m, -, -, -, rfl | ⟨n₁, hf, rfl⟩⟩ := step_forward h
      · exact hr
      · obtain ⟨hno, -⟩ | ⟨-, -, rfl⟩ := forwardRequest_cases hf
        · exact absurd hno (by simp)
        · exact hr
  | reply u p i mem addr =>
      obtain ⟨hu, buf, -, rfl | ⟨m, -, -, rfl⟩⟩ := step_reply h
      · exact hr
      · have hne : t ≠ u := by
          rintro rfl
          rw [hu] at hr
          exact absurd hr (by simp)
        unfold takeReply
        split
        · exact hr
        · dsimp only
          split
          · rw [setRelay_ne _ _ hne]
            exact hr
          · exact hr
  | relay u env =>
      -- a worker takes a reply only when it holds none
      have hne : t ≠ u := by
        rintro rfl
        exact ha env rfl
      obtain ⟨r', -, rfl⟩ := step_relay h
      rw [setRelay_ne _ _ hne]
      exact hr
  | done p i =>
      obtain rfl := step_done h
      exact hr

/-- What happens before worker `t` sends what it has. -/
def Before (cfg : Cfg) (t : Nat) (n : Node) : Node → Prop :=
  Reach (· = n) (step cfg) fun _ a => ∀ env, a ≠ .relay t env

theorem Before.relays {t : Nat} {r : Relay} (hr : n.relays t = some r) (h : Before cfg t n n') :
    n'.relays t = some r := by
  refine Reach.invariant (I := fun n => n.relays t = some r) ?_ ?_ h
  · rintro n rfl
    exact hr
  · intro n a n' hi hok hst
    exact step_relays hi hok hst

/-- `buf` was handed to `safe_write` for peer `d` if that is connected, and to no other peer. -/
structure Delivered (n n' : Node) (env : Env) (d : Nat) (buf : List UInt8) : Prop where
  peer : n'.peers d = if (n.peers d).canSend then
    ((n.peers d).safeWrite env.write .response buf).2 else n.peers d
  others : ∀ p, p ≠ d → n'.peers p = n.peers p

/-- Worker `t` has taken the reply `buf`: the transaction is over, and nothing was written yet. -/
structure Taken (n n' : Node) (f : Forward) : Prop where
  gone : ¬ n'.Live f
  quiet : (n'.peers f.outPeer).writes = (n.peers f.outPeer).writes
  others : ∀ p, p ≠ f.outPeer → n'.peers p = n.peers p

theorem reply_taken (h : Reachable cfg n) {f : Forward} (hf : f ∈ n.forwards) (hlive : n.Live f)
    (hlt : ∀ c, (n.peers f.outPeer).table.issued c < 2 ^ 32) {i t : Nat} {buf : List UInt8}
    (hq : (n.peers f.outPeer).queue[i]? = some buf) (he : Echoes buf f) {mem : TranslateMem}
    {addr : Nat} {m : Message} (hm : translate mem addr buf = .ok m) (ht : n.relays t = none) :
    ∃ n', n.step cfg (.reply t f.outPeer i mem addr) = some n' ∧ Taken n n' f
      ∧ n'.relays t = some ⟨f.inPeer, setWord buf 3 (word f.req 3)⟩ := by
  obtain ⟨-, hreq, hh, hete, hb⟩ := translate_ok hm
  have hw := peers_reachable h f.outPeer
  -- what is queued is a whole frame, so cutting it to its length changes nothing
  rw [((World.inbox_reachable hw).queue buf (List.mem_of_getElem? hq)).take_eq] at hb
  have hrec := recorded_reachable h f hf
  set v : World := { n.peers f.outPeer with queue := (n.peers f.outPeer).queue.eraseIdx i } with hv
  have hrecv : Recorded v f := ⟨hrec.req, hrec.tr, hrec.cell⟩
  have hlab : (n.peers f.outPeer).table.Labelled := World.labelled_reachable hw hlt
  have hlabv : v.table.Labelled := hlab
  obtain ⟨tr, w, hl, hin, horig, hgone, hwr⟩ := lookup_recorded hrecv hlabv hlive he
  -- the id that is put back is, byte for byte, the one the request came with
  have hword : le 4 tr.origHopbyhopId.toNat = word f.req 3 := by
    rw [horig]
    refine le_ofNat_ofLe ?_
    have := hrec.req
    simp only [word, List.length_take, List.length_drop]
    omega
  have hpeer : (n.dequeue f.outPeer i).peers f.outPeer = v := setPeer_self _ _ _
  have htake : (n.dequeue f.outPeer i).takeReply t f.outPeer m
      = ((n.dequeue f.outPeer i).setPeer f.outPeer w).setRelay t
        (some ⟨f.inPeer, setWord buf 3 (word f.req 3)⟩) := by
    unfold takeReply
    rw [hpeer, hete, hh, hl]
    dsimp only
    rw [hin]
    dsimp only
    rw [hb, hword]
  have hst : n.step cfg (.reply t f.outPeer i mem addr)
      = some ((n.dequeue f.outPeer i).takeReply t f.outPeer m) := by
    simp only [step, ht, hq, hm, hreq, he.answer, Bool.false_eq_true, if_false]
  rw [htake] at hst
  refine ⟨_, hst, ⟨?_, ?_, ?_⟩, setRelay_self _ _ _⟩
  · rintro ⟨c, hc, hid⟩
    rw [setRelay_peers, setPeer_self] at hc
    exact hgone c hc hid
  · rw [setRelay_peers, setPeer_self, hwr]
  · intro p hp
    rw [setRelay_peers, setPeer_ne _ _ hp, dequeue, setPeer_ne _ _ hp]

theorem relay_delivered {t : Nat} {r : Relay} (hr : n.relays t = some r) (env : Env) :
    ∃ n', n.step cfg (.relay t env) = some n' ∧ n'.relays t = none
      ∧ Delivered n n' env r.inPeer r.buf := by
  refine ⟨(n.setPeer r.inPeer ((n.peers r.inPeer).sendResToPeer env r.buf).2).setRelay t none, ?_,
    setRelay_self _ _ _, ?_, ?_⟩
  · simp only [step, hr]
  · rw [setRelay_peers, setPeer_self]
    unfold World.sendResToPeer
    split <;> rfl
  · intro p hp
    rw [setRelay_peers, setPeer_ne _ _ hp]

/-- A session message is queued for the workers when it has come in. -/
theorem read_queued {w w' : World} {env : Env} {evs : List RecvEv} {avail buf : List UInt8}
    {out : ReadOut} (hout : doRead evs w.rb avail = .ok out) (hmsg : out.msg = some buf)
    (hne : ¬ Core.ForPeer buf) (h : World.step cfg w (.read env evs avail) = some w') :
    w'.queue = w.queue ++ [buf] ∧ w'.table = w.table ∧ w'.writes = w.writes := by
  simp only [Core.ForPeer, not_or] at hne
  simp only [World.step] at h
  split at h
  · exact absurd h (by simp)
  · split at h
    · obtain ⟨out', hout', h⟩ := Res.bind_eq_ok (World.ofRes_eq_some h)
      obtain rfl : out = out' := Res.ok.inj (hout.symm.trans hout')
      rw [hmsg, doRead_msg hout hmsg] at h
      obtain ⟨v, hd, hk⟩ := Res.bind_eq_ok h
      obtain rfl := Res.ok.inj hk
      unfold World.dispatchMessage at hd
      dsimp only at hd
      -- none of the three commands the peer handles itself
      rw [if_neg hne.1, if_neg hne.2.1, if_neg hne.2.2] at hd
      obtain rfl := Res.ok.inj hd
      exact ⟨rfl, rfl, rfl⟩
    · exact absurd h (by simp)

/--
**Relay transparency.**

Take any reachable state of a node, with any number of peers, forwarded requests and
workers. A session message that comes in is queued, and no other peer notices. A reply
from the queue of peer X that echoes the identifiers of a request forwarded to X whose
transaction has not ended, while X has labels left, ends that transaction when a worker
takes it; whatever happens next, the worker keeps the reply with the hop-by-hop id of
the request it answers, and sends it to the peer that request came from if that is
connected then, and to nobody else. Nothing that comes in from X changes another peer.
-/
theorem relay_transparent (h : Reachable cfg n) :
    (∀ f ∈ n.forwards, n.Live f → (∀ c, (n.peers f.outPeer).table.issued c < 2 ^ 32) →
      ∀ i buf, (n.peers f.outPeer).queue[i]? = some buf → Echoes buf f →
      ∀ mem addr m, translate mem addr buf = .ok m → ∀ t, n.relays t = none →
      ∃ n₁, n.step cfg (.reply t f.outPeer i mem addr) = some n₁ ∧ Taken n n₁ f
        ∧ ∀ n₂, Before cfg t n₁ n₂ → ∀ env, ∃ n₃, n₂.step cfg (.relay t env) = some n₃
          ∧ n₃.relays t = none ∧ Delivered n₂ n₃ env f.inPeer (setWord buf 3 (word f.req 3)))
    ∧ (∀ p env evs avail out buf n', doRead evs (n.peers p).rb avail = .ok out →
        out.msg = some buf → ¬ Core.ForPeer buf →
        n.step cfg (.peer p (.read env evs avail)) = some n' →
        (n'.peers p).queue = (n.peers p).queue ++ [buf]
          ∧ (n'.peers p).table = (n.peers p).table ∧ (n'.peers p).writes = (n.peers p).writes)
    ∧ ∀ p q n', q ≠ p → (∃ t i mem addr, n.step cfg (.reply t p i mem addr) = some n')
        ∨ (∃ env evs avail, n.step cfg (.peer p (.read env evs avail)) = some n') →
        n'.peers q = n.peers q := by
  refine ⟨?_, ?_, ?_⟩
  · intro f hf hlive hlt i buf hq he mem addr m hm t ht
    obtain ⟨n₁, hst, htaken, hr⟩ := reply_taken h hf hlive hlt hq he hm ht
    refine ⟨n₁, hst, htaken, ?_⟩
    -- the relay is a step of its own: anything may come between it and the lookup
    intro n₂ hb env
    exact relay_delivered (hb.relays hr) env
  · intro p env evs avail out buf n' hout hmsg hne hst
    obtain ⟨w, hw, rfl⟩ := step_peer hst
    rw [setPeer_self]
    exact read_queued hout hmsg hne hw
  · rintro p q n' hqp (⟨t, i, mem, addr, hst⟩ | ⟨env, evs, avail, hst⟩)
    · obtain ⟨-, buf, -, rfl | ⟨m, -, -, rfl⟩⟩ := step_reply hst
      · exact setPeer_ne _ _ hqp
      · unfold takeReply
        split
        · exact setPeer_ne _ _ hqp
        · dsimp only
          split
          · rw [setRelay_peers, setPeer_ne _ _ hqp]
            exact setPeer_ne _ _ hqp
          · rw [setPeer_ne _ _ hqp]
            exact setPeer_ne _ _ hqp
    · obtain ⟨w, -, rfl⟩ := step_peer hst
      exact setPeer_ne _ _ hqp

/-! ## A request and its reply -/

def sampleHdr (len : Nat) (flags : UInt8) (code : Nat) (hbh ete : UInt32) : List UInt8 :=
  [1] ++ be 3 len ++ [flags] ++ be 3 code ++ be 4 1 ++ le 4 hbh.toNat ++ le 4 ete.toNat

/-- A request with Session-Id, Origin-Host, Origin-Realm and Destination-Realm. -/
def sampleReq : List UInt8 :=
  sampleHdr 68 0x80 272 7 9 ++ putAvp 263 0x40 [115, 101, 115, 49]
    ++ putAvp 264 0x40 [104, 111, 115, 116] ++ putAvp 296 0x40 [114, 108, 109, 49]
    ++ putAvp 283 0x40 [114, 108, 109, 50]

/-- A reply with the identifiers that request goes out with. -/
def sampleReply (code : Nat) : List UInt8 := sampleHdr 20 0 code 0 9

def sampleMem : TranslateMem := { msg := true, avp := fun _ => ⟨true, true⟩ }

def sampleRead (p : Nat) (buf : List UInt8) : Act :=
  .peer p (.read sampleEnv [.got 4, .got 65536] buf)

/-- Two peers connect, and a request of the first is forwarded to the second. -/
def sampleForward : List Act :=
  sampleAccept.map (.peer 0) ++ sampleAccept.map (.peer 1)
    ++ [sampleRead 0 sampleReq, .forward 0 0 1 sampleEnv sampleMem 4096]

def sampleStart : Node :=
  { peers := fun _ => World.start (fun _ => 0) 0 0, relays := fun _ => none, forwards := [] }

/-- The state after some steps of the sample node, which passes a check. -/
theorem sample_run (as : List Act) (g : Node → Bool)
    (h : (trace (step sampleCfg) (fun _ _ => true) as sampleStart).any g = true) :
    ∃ n, Reachable sampleCfg n ∧ g n = true := by
  obtain ⟨n, hn, hg⟩ := (Option.any_eq_true _ _).mp h
  have hrun : Reach Init (step sampleCfg) (fun _ _ => true = true) n :=
    Reach.trace (.init ⟨fun _ => ⟨_, _, _, rfl⟩, rfl, rfl⟩) hn
  exact ⟨n, hrun.any, hg⟩

/-- The request of the sample node. -/
def sampleFwd : Forward :=
  { inPeer := 0, outPeer := 1, req := sampleReq, sent := setWord sampleReq 3 (le 4 0), tr := 0 }

theorem relay_transparent_sample :
    ∃ n n₁, Reachable sampleCfg n ∧ n.step sampleCfg (.reply 0 1 0 sampleMem 4096) = some n₁
      ∧ ∀ n₂, Before sampleCfg 0 n₁ n₂ → ∀ env, ∃ n₃, n₂.step sampleCfg (.relay 0 env) = some n₃
        ∧ Delivered n₂ n₃ env 0 (sampleHdr 20 0 272 7 9) := by
  obtain ⟨n, hr, hn⟩ := sample_run (sampleForward ++ [sampleRead 1 (sampleReply 272)])
    (fun n => n.forwards = [sampleFwd] ∧ (n.peers 1).queue = [sampleReply 272]
      ∧ (n.peers 1).table.cells.map (·.payload.id) = [0] ∧ (n.peers 1).nextTrans = 1
      ∧ n.relays 0 = none) (by decide +kernel)
  obtain ⟨hf, hq, hids, hnext, ht⟩ := of_decide_eq_true hn
  set f := sampleFwd with hfwd
  have hlive : n.Live f := by
    have hmem : 0 ∈ (n.peers 1).table.cells.map (·.payload.id) := by rw [hids]; decide
    obtain ⟨l, hl, hid⟩ := List.mem_map.mp hmem
    exact ⟨l, hl, hid⟩
  have hlt : ∀ c, (n.peers f.outPeer).table.issued c < 2 ^ 32 := by
    intro c
    have := World.issued_reachable (peers_reachable hr 1) c
    rw [hnext] at this
    exact Nat.lt_of_le_of_lt this (by decide)
  obtain ⟨m, hm⟩ : ∃ m, translate sampleMem 4096 (sampleReply 272) = .ok m := ⟨_, rfl⟩
  obtain ⟨n₁, hst, -, hback⟩ := (relay_transparent hr).1 f (by rw [hf]; simp) hlive hlt 0
    (sampleReply 272) (by show (n.peers 1).queue[0]? = _; rw [hq]; rfl)
    ⟨by decide +kernel, by decide +kernel, by decide +kernel⟩ sampleMem 4096 m hm 0 ht
  refine ⟨n, n₁, hr, hst, ?_⟩
  intro n₂ hb env
  obtain ⟨n₃, hst₃, -, hd⟩ := hback n₂ hb env
  have hbuf : setWord (sampleReply 272) 3 (word f.req 3) = sampleHdr 20 0 272 7 9 := by
    decide +kernel
  rw [hbuf] at hd
  exact ⟨n₃, hst₃, hd⟩

/--
A reply that calls itself a DWA is not for the workers: it ends the transaction of the
request it echoes, and nobody gets it, though the peer that waits for it is connected.
-/
theorem dwa_not_relayed :
    ∃ n n' f buf out, Reachable sampleCfg n ∧ f ∈ n.forwards ∧ n.Live f ∧ Echoes buf f
      ∧ (n.peers f.inPeer).canSend = true
      ∧ doRead [.got 4, .got 65536] (n.peers f.outPeer).rb buf = .ok out ∧ out.msg = some buf
      ∧ n.step sampleCfg (sampleRead f.outPeer buf) = some n'
      ∧ ¬ n'.Live f ∧ (n'.peers f.outPeer).queue = [] ∧ n'.relays = n.relays
      ∧ ∀ p, p ≠ f.outPeer → n'.peers p = n.peers p := by
  obtain ⟨n, hr, hn⟩ := sample_run sampleForward
    (fun n => n.forwards = [sampleFwd] ∧ (n.peers 1).table.cells.map (·.payload.id) = [0]
      ∧ (n.peers 0).canSend = true ∧ (n.peers 1).rb = .empty
      ∧ (n.step sampleCfg (sampleRead 1 (sampleReply 280))).any
        (fun n' => (n'.peers 1).table.cells = [] ∧ (n'.peers 1).queue = [])) (by decide +kernel)
  obtain ⟨hf, hids, hup, hrb, hst⟩ := of_decide_eq_true hn
  obtain ⟨n', hst, hn'⟩ := (Option.any_eq_true _ _).mp hst
  obtain ⟨hcells, hqueue⟩ := of_decide_eq_true hn'
  obtain ⟨out, hout, hmsg⟩ : ∃ out, doRead [.got 4, .got 65536] .empty (sampleReply 280) = .ok out
      ∧ out.msg = some (sampleReply 280) := by
    have hok : (doRead [.got 4, .got 65536] .empty (sampleReply 280)).toOption.map (·.msg)
        = some (some (sampleReply 280)) := by decide +kernel
    cases hread : doRead [.got 4, .got 65536] .empty (sampleReply 280) with
    | ok out =>
        rw [hread] at hok
        exact ⟨out, rfl, Option.some.inj hok⟩
    | error | fault | diverge =>
        rw [hread] at hok
        exact absurd hok (by simp [Res.toOption])
  obtain ⟨l, hl, hid⟩ := List.mem_map.mp (show 0 ∈ (n.peers 1).table.cells.map (·.payload.id) by
    rw [hids]; decide)
  obtain ⟨w, -, rfl⟩ := step_peer hst
  refine ⟨n, _, sampleFwd, sampleReply 280, out, hr, by rw [hf]; simp, ⟨l, hl, hid⟩,
    ⟨by decide +kernel, by decide +kernel, by decide +kernel⟩, hup, ?_, hmsg, hst, ?_, hqueue, rfl, ?_⟩
  · show doRead _ (n.peers 1).rb _ = _
    rw [hrb]
    exact hout
  · rintro ⟨c, hc, -⟩
    rw [show ((n.setPeer 1 w).peers sampleFwd.outPeer).table.cells = [] from hcells] at hc
    exact absurd hc (by simp)
  · intro p hp
    exact setPeer_ne _ _ hp

end Node

end Disc.Server
