import Disc.Msg.Codec
import Disc.Server.Worker
import Disc.Transport.Template

/-!
# Answers for the SIP server

`mod_msg` of the client's `sipauth.c`. A SIP server sends its requests over a connection to
the client, and `mod_msg` is to write the answers to that connection, with the two AVPs in
front by which the SIP server knows what is answered. The AVPs get there and the message is
encoded. But `AAABuildMsgBuffer` returns one if all went well, where `mod_msg` waits for the
zero that the other functions return, so no answer is ever written.
-/

namespace Disc.SipAuth

open Disc.Lib Disc.Msg Disc.Server Disc.Transport

/-! ## The code -/

/-- `ctx_entry_t`. -/
structure CtxEntry where
  inPort : Nat
  serviceType : UInt8
  sipMsgId : UInt32
deriving Repr, DecidableEq

/-- `AA_ANSWER`. -/
def aaAnswer : UInt32 := 265

/-- `ACCOUNTING_ANSWER`. -/
def accountingAnswer : UInt32 := 271

/-- `AVP_Service_Type`. -/
def avpServiceType : UInt32 := 404

/-- `AVP_SIP_MSGID`. -/
def avpSipMsgId : UInt32 := 406

/-- `AAA_ERR_SUCCESS`. -/
def aaaErrSuccess : Int := 0

/-- What `AAABuildMsgBuffer` returns. -/
def buildRc : BuildRes → Int
  | .built _ => 1
  | .noMemory | .mismatch => -1

/--
An AVP is created from a copy of the data and linked in front of the others. The module does
this in one condition each time, and gives up with `none` if one of the two fails.
-/
def createAndPrepend (mem : CreateMem) (h : Heap) (m : Message) (code : UInt32)
    (data : List UInt8) : Res (Option Nat × Heap × Message) := do
  let (avp, h) ← aaaCreateAVP mem h code 0 0 (some (data, 0)) data.length .duplicateData
  match avp with
  | none => return (none, h, m)
  | some a => do
      let (rc, h, m) ← aaaAddAVPToMessage h m (some a) none
      return (if rc = .errSuccess then some a else none, h, m)

/-- The outcome of one `write`. -/
inductive WriteRes where
  | wrote (n : Nat)
  /-- `EINTR`. -/
  | interrupted
  | failed
deriving Repr, DecidableEq

/-- The loop around `write`, until a call is not interrupted. -/
def writeLoop : List WriteRes → Res (Option Nat)
  | [] => .diverge
  | .wrote n :: _ => .ok (some n)
  | .interrupted :: ws => writeLoop ws
  | .failed :: _ => .ok none

/-- What a call of `mod_msg` meets: memory for the AVPs and the buffer, and the `write`s. -/
structure MsgEnv where
  msgIdMem : CreateMem
  serviceMem : CreateMem
  bufMem : Bool
  writes : List WriteRes
deriving Repr, DecidableEq

/-- What it returns and does. -/
structure MsgOut where
  rc : Int
  /-- What was written, and to which descriptor. -/
  written : List (Nat × List UInt8)
  /-- The times of `AAASessionTimerStart`. -/
  timers : List Nat
  /-- `msg->buf`. -/
  buf : Option (List UInt8)
deriving Repr, DecidableEq

/-- The label `error`. -/
def MsgOut.error (buf : Option (List UInt8)) : MsgOut := ⟨-1, [], [], buf⟩

/-- From `AAABuildMsgBuffer` on. -/
def writeAnswer (env : MsgEnv) (h : Heap) (m : Message) (myctx : CtxEntry) : Res MsgOut := do
  let (built, m) ← aaaBuildMsgBuffer env.bufMem h m
  if buildRc built ≠ aaaErrSuccess then return .error m.buf
  else do
    let buf := m.buf.getD []
    match ← writeLoop env.writes with
    | none => return .error m.buf
    | some n =>
        let written := [(myctx.inPort, buf.take n)]
        if n ≠ buf.length then return { MsgOut.error m.buf with written }
        else return ⟨1, written, [5], m.buf⟩

/-- `mod_msg`. -/
def modMsg (env : MsgEnv) (h : Heap) (msg : Option Message) (context : Option CtxEntry) :
    Res MsgOut :=
  match msg, context with
  | none, _ => .ok (.error none)
  | some m, none => .ok (.error m.buf)
  | some m, some myctx =>
      if isReq m then .ok (.error m.buf)
      else if m.commandCode ≠ aaAnswer ∧ m.commandCode ≠ accountingAnswer then .ok (.error m.buf)
      else do
        let (avp, h, m) ← createAndPrepend env.msgIdMem h m avpSipMsgId (le 4 myctx.sipMsgId.toNat)
        if avp.isNone then return .error m.buf
        else do
          let (avp, h, m) ← createAndPrepend env.serviceMem h m avpServiceType [myctx.serviceType]
          if avp.isNone then return .error m.buf
          else writeAnswer env h m myctx

/-! ## What it should do -/

/-- The AVPs of an answer, with those in front that name the request. -/
def answerAvps (ctx : CtxEntry) (vs : List AvpView) : List AvpView :=
  ⟨avpServiceType, 0, 0, [ctx.serviceType]⟩ :: ⟨avpSipMsgId, 0, 0, le 4 ctx.sipMsgId.toNat⟩ :: vs

/-- The answer is on its way to the SIP server, and the session's timer runs. -/
def Answers (h : Heap) (m : Message) (ctx : CtxEntry) (res : Res MsgOut) : Prop :=
  ∃ vs out, avpSeq h m = some vs ∧ res = .ok out ∧ out.rc = 1
    ∧ out.written = [(ctx.inPort, encMsg m (answerAvps ctx vs))] ∧ out.timers = [5]

/-- An answer to an authorisation or accounting request. -/
def IsAnswer (m : Message) : Prop :=
  isReq m = false ∧ (m.commandCode = aaAnswer ∨ m.commandCode = accountingAnswer)

/-- There is memory, and the first `write` that is not interrupted takes all of `len` bytes. -/
structure MsgEnv.Succeeds (env : MsgEnv) (len : Nat) : Prop where
  msgId : env.msgIdMem = ⟨true, true⟩
  service : env.serviceMem = ⟨true, true⟩
  buf : env.bufMem = true
  write : writeLoop env.writes = .ok (some len)

/-! ## An AVP in front -/

section Prepend

variable {h : Heap} {m : Message} {ids : List Nat} {vs : List AvpView}

/-- Linking a new AVP in front of the others. -/
theorem link_front (hh : Holds h m ids vs) {c : Avp} {v : AvpView} (hv : c.view = some v) :
    ∃ h' m', aaaAddAVPToMessage ⟨h.cells ++ [c]⟩ m (some h.size) none = .ok (.errSuccess, h', m')
      ∧ Holds h' m' (h.size :: ids) (v :: vs) ∧ m'.header = m.header := by
  have hnew : h.size ∉ ids := fun hm => Nat.lt_irrefl _ (hh.list.alloc _ hm)
  have hlt : h.size < (⟨h.cells ++ [c]⟩ : Heap).size := by simp [Heap.size]
  obtain ⟨h', m', hadd, hlk⟩ := add_front (hh.list.alloc_append c) hlt hnew
  refine ⟨h', m', hadd, ⟨hlk.list, ?_⟩, hlk.header⟩
  have hfirst : views ⟨h.cells ++ [c]⟩ [h.size] = some [v] := by simp [views, Heap.size, hv]
  rw [views_congr hlk.body, ← @List.singleton_append _ h.size ids, views_append, views_alloc hh.list.alloc,
    hh.seq, hfirst]
  rfl

/-- An AVP with data is created and linked if there is memory for it. -/
theorem createAndPrepend_ok (hh : Holds h m ids vs) (code : UInt32) {data : List UInt8}
    (hd : data ≠ []) {mem : CreateMem} (hmem : mem = ⟨true, true⟩) :
    ∃ h' m', createAndPrepend mem h m code data = .ok (some h.size, h', m')
      ∧ Holds h' m' (h.size :: ids) (⟨code, (setAvpFields code 0).1, 0, data⟩ :: vs)
      ∧ m'.header = m.header := by
  have hlen : data.length ≠ 0 := fun h0 => hd (List.eq_nil_of_length_eq_zero h0)
  have hcopy : slice data 0 data.length = some data := by simp [slice]
  obtain ⟨h', m', hadd, hh', hheader⟩ := @link_front h m ids vs hh
    { next := none, prev := none, code, flags := (setAvpFields code 0).1,
      type := (setAvpFields code 0).2, vendorId := 0, data := ⟨data, 0, data.length⟩,
      freeIt := true }
    ⟨code, (setAvpFields code 0).1, 0, data⟩ (by simp [Avp.view, Str.bytes, hcopy])
  refine ⟨h', m', ?_, hh', hheader⟩
  subst hmem
  simp [createAndPrepend, aaaCreateAVP, hlen, hcopy, hadd]

/-- Otherwise nothing happens. -/
theorem createAndPrepend_none {code : UInt32} {data : List UInt8} {mem : CreateMem}
    (hno : data = [] ∨ mem ≠ ⟨true, true⟩) :
    createAndPrepend mem h m code data = .ok (none, h, m) := by
  rcases hno with rfl | hmem
  · rfl
  · obtain ⟨avp, data'⟩ := mem
    have hcopy : slice data 0 data.length = some data := by simp [slice]
    by_cases hlen : data.length = 0
    · simp [createAndPrepend, aaaCreateAVP, hlen]
    · cases avp with
      | false => simp [createAndPrepend, aaaCreateAVP, hlen]
      | true =>
          cases data' with
          | false => simp [createAndPrepend, aaaCreateAVP, hlen]
          | true => exact absurd rfl hmem

end Prepend

/-! ## No answer is written -/

theorem buildRc_ne : ∀ b : BuildRes, buildRc b ≠ aaaErrSuccess
  | .built _ | .noMemory | .mismatch => by simp [buildRc, aaaErrSuccess]

/-- Whatever became of the buffer, the call ends in an error. -/
theorem writeAnswer_ok {env : MsgEnv} {h : Heap} {m : Message} {ctx : CtxEntry} {out : MsgOut}
    (ho : writeAnswer env h m ctx = .ok out) : ∃ buf, out = .error buf := by
  obtain ⟨⟨built, m'⟩, -, ho⟩ := Res.bind_eq_ok ho
  simp only [if_pos (buildRc_ne built)] at ho
  exact ⟨m'.buf, (Res.ok.inj ho).symm⟩

/-- **A call of `mod_msg` that returns, returns -1** and writes nothing. -/
theorem modMsg_error {env : MsgEnv} {h : Heap} {msg : Option Message}
    {context : Option CtxEntry} {out : MsgOut} (ho : modMsg env h msg context = .ok out) :
    ∃ buf, out = .error buf := by
  unfold modMsg at ho
  match msg, context with
  | none, _ => exact ⟨_, (Res.ok.inj ho).symm⟩
  | some m, none => exact ⟨_, (Res.ok.inj ho).symm⟩
  | some m, some ctx =>
      dsimp only at ho
      split at ho
      · exact ⟨_, (Res.ok.inj ho).symm⟩
      · split at ho
        · exact ⟨_, (Res.ok.inj ho).symm⟩
        · obtain ⟨⟨avp, h₁, m₁⟩, -, ho⟩ := Res.bind_eq_ok ho
          dsimp only at ho
          split at ho
          · exact ⟨_, (Res.ok.inj ho).symm⟩
          · obtain ⟨⟨avp, h₂, m₂⟩, -, ho⟩ := Res.bind_eq_ok ho
            dsimp only at ho
            split at ho
            · exact ⟨_, (Res.ok.inj ho).symm⟩
            · exact writeAnswer_ok ho

/--
**What becomes of an answer** when nothing fails: the two AVPs are in front and the message
is encoded, but the result is an error, and the buffer is not written.
-/
theorem modMsg_answer {env : MsgEnv} {h : Heap} {m : Message} {ids : List Nat}
    {vs : List AvpView} {ctx : CtxEntry} (hh : Holds h m ids vs) (hm : IsAnswer m)
    (hroom : encLen (answerAvps ctx vs) < 2 ^ 32)
    (henv : env.Succeeds (encLen (answerAvps ctx vs))) :
    modMsg env h (some m) (some ctx) = .ok (.error (some (encMsg m (answerAvps ctx vs)))) := by
  have hcode : ¬ (m.commandCode ≠ aaAnswer ∧ m.commandCode ≠ accountingAnswer) := by
    rcases hm.2 with h | h <;> simp [h]
  obtain ⟨h₁, m₁, hid, hh₁, hm₁⟩ := createAndPrepend_ok hh avpSipMsgId
    (show le 4 ctx.sipMsgId.toNat ≠ [] by simp [le, be]) henv.msgId
  obtain ⟨h₂, m₂, hsvc, hh₂, hm₂⟩ := createAndPrepend_ok hh₁ avpServiceType
    (show [ctx.serviceType] ≠ [] by simp) henv.service
  have hseq : avpSeq h₂ m₂ = some (answerAvps ctx vs) := hh₂.list.avpSeq_eq.trans hh₂.seq
  have hbuild := aaaBuildMsgBuffer_eq hseq hroom
  have henc := encMsg_congr (hm₂.trans hm₁) (answerAvps ctx vs)
  simp only [modMsg, hm.1, Bool.false_eq_true, if_false, if_neg hcode, hid, hsvc, Res.ok_bind,
    Option.isNone_some, writeAnswer, henv.buf, hbuild, if_pos (buildRc_ne _), henc, Res.pure_eq]

/-- **No answer gets to the SIP server**, whatever the message, the context and the environment. -/
theorem modMsg_never_answers (env : MsgEnv) (h : Heap) (m : Message) (ctx : CtxEntry) :
    ¬ Answers h m ctx (modMsg env h (some m) (some ctx)) := by
  rintro ⟨vs, out, -, ho, hrc, -⟩
  obtain ⟨buf, rfl⟩ := modMsg_error ho
  exact absurd hrc (by simp [MsgOut.error])

/-- An answer with a result code. -/
def sampleAnswer : Message :=
  { Message.zero with commandCode := aaAnswer, head := some 0, tail := some 0, resCode := some 0 }

def sampleAnswerHeap : Heap :=
  ⟨[⟨none, none, 268, 0x40, .integer32, 0, ⟨be 4 2001, 0, 4⟩, false⟩]⟩

def sampleCtx : CtxEntry := ⟨7, 54, 1⟩

def roomyEnv : MsgEnv := ⟨⟨true, true⟩, ⟨true, true⟩, true, [.interrupted, .wrote 56]⟩

/-- The buffer is there, and the connection would take all of it. -/
theorem answer_vanishes :
    IsAnswer sampleAnswer
      ∧ writeLoop roomyEnv.writes = .ok (some 56)
      ∧ (modMsg roomyEnv sampleAnswerHeap (some sampleAnswer) (some sampleCtx)).toOption.map
          (fun out => (out.rc, out.written, out.buf.map List.length)) = some (-1, [], some 56)
      ∧ ¬ Answers sampleAnswerHeap sampleAnswer sampleCtx
          (modMsg roomyEnv sampleAnswerHeap (some sampleAnswer) (some sampleCtx)) := by
  have hrun : (modMsg roomyEnv sampleAnswerHeap (some sampleAnswer) (some sampleCtx)).toOption.map
      (fun out => (out.rc, out.written, out.buf.map List.length)) = some (-1, [], some 56) := by
    decide +kernel
  refine ⟨⟨rfl, .inl rfl⟩, rfl, hrun, ?_⟩
  rintro ⟨vs, out, -, ho, hrc, -⟩
  rw [ho] at hrun
  have hout := congrArg (fun o => o.map Prod.fst) hrun
  exact absurd (hrc.symm.trans (Option.some.inj hout)) (by decide)

end Disc.SipAuth
