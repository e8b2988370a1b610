import Disc.Transport.Burst

/-!
# Reading requests of the SIP server

`reset_read_buffer` and `do_read` of the client's `tcp_socket.c`, and how `sipauth_worker` calls
them. The loop is that of `do_read` in `tcp_receive.c`, up to what a call returns: a whole message
stays in the buffer, and a `recv` that would block is an error like any other. The buffer is
reset before each call, and the worker closes the socket unless it got a message.

So a message whose bytes come in two bursts is lost, with all that comes behind it.
-/

namespace Disc.SipAuth

open Disc.Lib Disc.Msg Disc.Transport

/-! ## The code -/

/-- `CONN_SUCCESS`, `CONN_CLOSED` and `CONN_ERROR`. -/
inductive ConnCode where
  | success
  | closed
  | error
deriving Repr, DecidableEq

/-- `reset_read_buffer`. -/
def resetReadBuffer : ReadBuf := ⟨le 4 0, none, 0⟩

/-- The loop of `do_read`: what it returns, the buffer, and the bytes it did not read. -/
def doReadLoop : List RecvEv → ReadBuf → Nat → Nat → List UInt8 →
    Res (ConnCode × ReadBuf × List UInt8)
  | [], rb, _, wantedLen, avail =>
      .ok (if recv .again wantedLen avail = .zero then .closed else .error, rb, avail)
  | ev :: evs, rb, ptr, wantedLen, avail =>
      match recv ev wantedLen avail with
      | .zero => .ok (.closed, rb, avail)
      | .fail => .ok (.error, rb, avail)
      -- `EINTR` and `EAGAIN` only skip the log line
      | .retry => .ok (.error, rb, avail)
      | .bytes bs => do
          let rb ← rb.store ptr bs
          let avail := avail.drop bs.length
          if bs.length < wantedLen then
            doReadLoop evs rb (ptr + bs.length) (usub wantedLen bs.length) avail
          else match rb.buf with
            | none =>
                let len := ofBe rb.first4bytes % 2 ^ 24
                if len < aaaMsgHdrSize ∨ len > maxAaaMsgSize then .ok (.error, rb, avail)
                else do
                  let b ← Res.ofAccess (poke (List.replicate len 0) 0 rb.first4bytes)
                  let rb : ReadBuf := { first4bytes := le 4 len, buf := some b, bufLen := 4 }
                  doReadLoop evs rb rb.bufLen (usub (ofLe rb.first4bytes) rb.bufLen) avail
            | some _ => .ok (.success, rb, avail)

/-- `do_read`. -/
def doRead (evs : List RecvEv) (rb : ReadBuf) (avail : List UInt8) :
    Res (ConnCode × ReadBuf × List UInt8) :=
  match rb.buf with
  | none => doReadLoop evs rb rb.bufLen (usub 4 rb.bufLen) avail
  | some _ => doReadLoop evs rb rb.bufLen (usub (ofLe rb.first4bytes) rb.bufLen) avail

/-- The round of `sipauth_worker` up to the message it goes on with. -/
def readRequest : Round := fun evs avail l => do
  let (code, rb, avail) ← doRead evs resetReadBuffer avail
  match code with
  | .closed => return (⟨rb, l.msgs, false⟩, avail)
  | .error => return (⟨rb, l.msgs, false⟩, avail)
  | .success => return (⟨rb, l.msgs ++ [rb.bytes], true⟩, avail)

/-! ## When the two readers agree -/

/--
Each point where a reader would block has whole messages before it, or no message ends
behind it.
-/
def Aligned (bursts : List Burst) : Prop :=
  ∀ before after, bursts = before ++ after →
    (frames (stream before)).2 = [] ∨ (frames (stream before)).1 = (frames (stream bursts)).1

/-! ## One call -/

/-- What the call of the one reader says about the call of the other. -/
structure Matches (out : ReadOut) (res : Res (ConnCode × ReadBuf × List UInt8)) : Prop where
  whole : ∀ msg, out.msg = some msg → out.rb = .empty
    ∧ ∃ rb, res = .ok (.success, rb, out.avail) ∧ rb.bytes = msg
  part : out.msg = none → ∃ code rb avail, res = .ok (code, rb, avail) ∧ code ≠ .success

theorem Matches.none {rb : ReadBuf} {avail : List UInt8} {ok : Bool} {code : ConnCode}
    (h : code ≠ .success) : Matches ⟨rb, avail, none, ok⟩ (.ok (code, rb, avail)) :=
  ⟨fun _ hm => absurd hm (by simp), fun _ => ⟨code, rb, avail, rfl, h⟩⟩

/-- **The two loops** take the same bytes; one hands out the message the other leaves in the buffer. -/
theorem doReadLoop_matches (evs : List RecvEv) {rb : ReadBuf} {ptr wantedLen : Nat}
    {avail : List UInt8} {out : ReadOut}
    (h : Transport.doReadLoop evs rb ptr wantedLen avail = .ok out) :
    Matches out (doReadLoop evs rb ptr wantedLen avail) := by
  induction evs generalizing rb ptr wantedLen avail with
  | nil =>
      obtain rfl := Res.ok.inj h
      refine Matches.none ?_
      split
      · decide
      · decide
  | cons ev evs ih =>
      rw [Transport.doReadLoop] at h
      rw [doReadLoop]
      cases hrv : recv ev wantedLen avail with
      | zero =>
          rw [hrv] at h
          obtain rfl := Res.ok.inj h
          exact Matches.none (by decide)
      | fail =>
          rw [hrv] at h
          obtain rfl := Res.ok.inj h
          exact Matches.none (by decide)
      | retry =>
          rw [hrv] at h
          obtain rfl := Res.ok.inj h
          exact Matches.none (by decide)
      | bytes bs =>
          rw [hrv] at h
          dsimp only at h ⊢
          obtain ⟨rb', hstore, h⟩ := Res.bind_eq_ok h
          rw [hstore, Res.ok_bind]
          by_cases hshort : bs.length < wantedLen
          · rw [if_pos hshort] at h ⊢
            exact ih h
          · rw [if_neg hshort] at h ⊢
            cases hbuf : rb'.buf with
            | none =>
                rw [hbuf] at h
                dsimp only at h ⊢
                by_cases hbad : ofBe rb'.first4bytes % 2 ^ 24 < aaaMsgHdrSize
                    ∨ ofBe rb'.first4bytes % 2 ^ 24 > maxAaaMsgSize
                · rw [if_pos hbad] at h ⊢
                  obtain rfl := Res.ok.inj h
                  exact Matches.none (by decide)
                · rw [if_neg hbad] at h ⊢
                  obtain ⟨b, hpoke, h⟩ := Res.bind_eq_ok h
                  rw [hpoke, Res.ok_bind]
                  exact ih h
            | some b =>
                rw [hbuf] at h
                obtain rfl := Res.ok.inj h
                refine ⟨fun msg hm => ⟨rfl, rb', rfl, ?_⟩, fun hm => absurd hm (by simp)⟩
                rw [← Option.some.inj hm, ReadBuf.bytes, hbuf]

theorem doRead_matches (evs : List RecvEv) {rb : ReadBuf} {avail : List UInt8} {out : ReadOut}
    (h : Transport.doRead evs rb avail = .ok out) : Matches out (doRead evs rb avail) := by
  unfold Transport.doRead at h
  unfold doRead
  cases hb : rb.buf with
  | none =>
      rw [hb] at h
      exact doReadLoop_matches evs h
  | some b =>
      rw [hb] at h
      exact doReadLoop_matches evs h

/-- A call that would block has read all there was. -/
theorem doReadLoop_blocks (evs : List RecvEv) (hev : ∀ ev ∈ evs, ∃ n, ev = .got (n + 1))
    {rb : ReadBuf} {ptr wantedLen : Nat} {avail : List UInt8} (hlen : avail.length < evs.length)
    {out : ReadOut} (h : Transport.doReadLoop evs rb ptr wantedLen avail = .ok out)
    (hm : out.msg = none) (hok : out.ok = true) : out.avail = [] := by
  induction evs generalizing rb ptr wantedLen avail with
  | nil => exact absurd hlen (Nat.not_lt_zero _)
  | cons ev evs ih =>
      rw [Transport.doReadLoop] at h
      cases hrv : recv ev wantedLen avail with
      | zero | fail =>
          rw [hrv] at h
          obtain rfl := Res.ok.inj h
          exact absurd hok (by simp)
      | retry =>
          rw [hrv] at h
          obtain rfl := Res.ok.inj h
          obtain ⟨n, rfl⟩ := hev ev List.mem_cons_self
          by_contra hne
          have hlen : 0 < avail.length := List.length_pos_iff.mpr hne
          have hw := recv_retry hrv
          rw [recv, if_neg hw] at hrv
          split at hrv
          · rename_i h0
            have h0 := congrArg List.length h0
            simp only [List.length_take, List.length_nil] at h0
            omega
          · exact absurd hrv (by simp)
      | bytes bs =>
          obtain ⟨hne, -, hcut⟩ := recv_bytes hrv
          have hpos := List.length_pos_iff.mpr hne
          have hsum := congrArg List.length hcut
          rw [List.length_append] at hsum
          rw [hrv] at h
          dsimp only at h
          obtain ⟨rb', -, h⟩ := Res.bind_eq_ok h
          have hev' := fun ev hmem => hev ev (List.mem_cons_of_mem _ hmem)
          have hlen' : (avail.drop bs.length).length < evs.length := by
            rw [List.length_cons] at hlen
            omega
          split at h
          · exact ih hev' hlen' h
          · split at h
            · split at h
              · obtain rfl := Res.ok.inj h
                exact absurd hok (by simp)
              · obtain ⟨b, -, h⟩ := Res.bind_eq_ok h
                exact ih hev' hlen' h
            · obtain rfl := Res.ok.inj h
              exact absurd hm (by simp)

/-! ## The worker -/

variable {l : Link} {avail : List UInt8}

theorem frames_rest_of_nil {s : List UInt8} (h : (frames s).1 = []) : (frames s).2 = s := by
  cases hf : frontFrame 4 msgSize s with
  | some n =>
      have hs : (frames s).1 = _ :: _ := congrArg Prod.fst (splitFrames_some hf)
      exact absurd (h.symm.trans hs) (by simp)
  | none => exact congrArg Prod.snd (splitFrames_none hf)

/-- **A round of the worker** gets the message at the front, or closes the socket. -/
theorem readRequest_cases (l : Link) (caps : List Nat) (hne : avail ≠ []) :
    (∃ rb msg avail' x, readRequest (schedule caps avail) avail l
          = .ok (⟨rb, l.msgs ++ [msg], true⟩, avail')
        ∧ avail = x ++ avail' ∧ x ≠ [] ∧ frames x = ([msg], []))
      ∨ ∃ rb avail', readRequest (schedule caps avail) avail l = .ok (⟨rb, l.msgs, false⟩, avail')
        ∧ (frames avail).1 = [] ∧ (frames avail).2 ≠ [] := by
  obtain ⟨out, hout, hadv, hfail⟩ := doRead_advanced (schedule caps avail) Buffered.empty avail
  have hmatch := doRead_matches _ hout
  obtain ⟨x, hx, hmsg, hbuf, -⟩ := hadv.taken
  rw [List.nil_append] at hmsg hbuf
  cases hm : out.msg with
  | some msg =>
      obtain ⟨hempty, rb, hrun, hbytes⟩ := hmatch.whole msg hm
      rw [hempty] at hbuf
      have hrest : [] = (frames x).2 := hbuf.bytes_eq
      rw [hm, Option.toList_some] at hmsg
      refine .inl ⟨rb, msg, out.avail, x, ?_, hx, ?_, Prod.ext hmsg hrest.symm⟩
      · rw [readRequest, show resetReadBuffer = ReadBuf.empty from rfl, hrun, ← hbytes]
        rfl
      · rintro rfl
        rw [show splitFrames 4 msgSize ([] : List UInt8) = ([], []) from frames_nil] at hmsg
        exact absurd hmsg (by simp)
  | none =>
      obtain ⟨code, rb, avail', hrun, hcode⟩ := hmatch.part hm
      rw [hm, Option.toList_none] at hmsg
      have hround : readRequest (schedule caps avail) avail l
          = .ok (⟨rb, l.msgs, false⟩, avail') := by
        rw [readRequest, show resetReadBuffer = ReadBuf.empty from rfl, hrun, Res.ok_bind]
        cases code with
        | success => exact absurd rfl hcode
        | closed => rfl
        | error => rfl
      -- either all was read, or the header was refused
      have hnone : (frames avail).1 = [] := by
        cases hok : out.ok with
        | true =>
            have hgot : ∀ ev ∈ schedule caps avail, ∃ n, ev = .got (n + 1) := by
              have hpos := List.length_pos_iff.mpr hne
              intro ev hev
              rcases List.mem_append.mp hev with hev | hev
              · obtain ⟨n, -, rfl⟩ := List.mem_map.mp hev
                exact ⟨n, rfl⟩
              · refine ⟨avail.length - 1, ?_⟩
                rw [List.eq_of_mem_replicate hev, Nat.sub_add_cancel hpos]
            have hlen : avail.length < (schedule caps avail).length := by
              simp only [schedule, List.length_append, List.length_map, List.length_replicate]
              omega
            rw [Buffered.empty.doRead_eq] at hout
            have hall := doReadLoop_blocks _ hgot hlen hout hm hok
            rw [hall, List.append_nil] at hx
            rw [hx]
            exact hmsg
        | false =>
            have hr := (hfail hok).resolve_left (schedule_lasts caps avail)
            rw [hbuf.bytes_eq, frames_rest_of_nil hmsg] at hr
            rw [hx]
            exact congrArg Prod.fst (hr.splitFrames_eq out.avail)
      refine .inr ⟨rb, avail', hround, hnone, ?_⟩
      rw [frames_rest_of_nil hnone]
      exact hne

/-- A burst gives its whole messages; what is left over closes the socket. -/
theorem drain_readRequest {n : Nat} (hn : avail.length ≤ n) (hl : l.isOpen = true)
    (caps : List (List Nat)) :
    ∃ l', drain readRequest n caps avail l = .ok l' ∧ l'.msgs = l.msgs ++ (frames avail).1
      ∧ (l'.isOpen = true ↔ (frames avail).2 = []) := by
  have hdone : ∀ l : Link, l.isOpen = true → ∃ l', Res.ok l = .ok l'
      ∧ l'.msgs = l.msgs ++ (frames []).1 ∧ (l'.isOpen = true ↔ (frames []).2 = []) := by
    intro l hl
    rw [frames_nil]
    exact ⟨l, rfl, (List.append_nil _).symm, iff_of_true hl rfl⟩
  induction n generalizing avail l caps with
  | zero =>
      obtain rfl := List.length_eq_zero_iff.mp (Nat.le_zero.mp hn)
      exact hdone l hl
  | succ n ih =>
      rw [drain]
      by_cases hne : avail = []
      · rw [if_pos (.inl hne), hne]
        exact hdone l hl
      · rw [if_neg (by simp [hne, hl])]
        rcases readRequest_cases l (caps.headD []) hne with
          ⟨rb, msg, rest, x, hrun, hx, hx0, hframe⟩ | ⟨rb, rest, hrun, hnone, hrest⟩
        · have hpos := List.length_pos_iff.mpr hx0
          have hlen := congrArg List.length hx
          rw [List.length_append] at hlen
          obtain ⟨l', hdrain, hmsgs, hopen⟩ :=
            @ih ⟨rb, l.msgs ++ [msg], true⟩ rest (by omega) rfl caps.tail
          have hsplit : frames avail = (msg :: (frames rest).1, (frames rest).2) := by
            rw [hx, frames_append, hframe]
            rfl
          rw [hrun, Res.ok_bind, hsplit]
          refine ⟨l', hdrain, ?_, hopen⟩
          rw [hmsgs, List.append_assoc]
          rfl
        · rw [hrun, Res.ok_bind, hnone, List.append_nil]
          refine ⟨⟨rb, l.msgs, false⟩, ?_, rfl, iff_of_false (by simp) hrest⟩
          cases n with
          | zero => exact if_pos (.inr rfl)
          | succ n => exact if_pos (.inr rfl)

/-- **The worker stops** behind the first burst that leaves something over. -/
theorem readBursts_readRequest (bursts : List Burst) {got : List UInt8} (hl : l.isOpen = true)
    (hmsgs : l.msgs = (frames got).1) (hgot : (frames got).2 = []) :
    ∃ l' before after, readBursts readRequest bursts l = .ok l' ∧ bursts = before ++ after
      ∧ l'.msgs = (frames (got ++ stream before)).1
      ∧ (∀ a b, before = a ++ b → b ≠ [] → (frames (got ++ stream a)).2 = [])
      ∧ (l'.isOpen = true ∧ after = [] ∨ l'.isOpen = false)
      ∧ (l'.isOpen = true ↔ (frames (got ++ stream before)).2 = []) := by
  induction bursts generalizing got l with
  | nil =>
      refine ⟨l, [], [], rfl, rfl, ?_, ?_, .inl ⟨hl, rfl⟩, iff_of_true hl ?_⟩
      · rwa [stream_nil, List.append_nil]
      · intro a b hab hb
        exact absurd (List.append_eq_nil_iff.mp hab.symm).2 hb
      · rwa [stream_nil, List.append_nil]
  | cons b bursts ih =>
      obtain ⟨l₁, hdrain, hm, hopen⟩ := drain_readRequest (Nat.le_refl b.bytes.length) hl b.caps
      have hframes : frames (got ++ b.bytes) = (l₁.msgs, (frames b.bytes).2) := by
        rw [frames_append, hgot, hm, hmsgs, List.nil_append]
      rw [readBursts, hdrain, Res.ok_bind]
      cases hl₁ : l₁.isOpen with
      | true =>
          obtain ⟨l', before, after, hread, rfl, hmsgs', hlive, hend, hiff⟩ := ih hl₁
            (congrArg Prod.fst hframes).symm ((congrArg Prod.snd hframes).trans (hopen.mp hl₁))
          rw [List.append_assoc, ← stream_cons] at hmsgs' hiff
          refine ⟨l', b :: before, after, hread, rfl, hmsgs', ?_, hend, hiff⟩
          rintro (_ | ⟨b', a⟩) c hac hc
          · rwa [stream_nil, List.append_nil]
          · obtain rfl := (List.cons.inj hac).1
            have hrest := hlive a c (List.cons.inj hac).2 hc
            rwa [List.append_assoc, ← stream_cons] at hrest
      | false =>
          have hrest : (frames b.bytes).2 ≠ [] := fun h =>
            absurd (hl₁.symm.trans (hopen.mpr h)) (by simp)
          refine ⟨l₁, [b], bursts, readBursts_closed readRequest hl₁ bursts, rfl, ?_, ?_,
            .inr hl₁, iff_of_false (by simp [hl₁]) ?_⟩
          · rw [stream_cons, stream_nil, List.append_nil, hframes]
          · rintro (_ | ⟨b', a⟩) c hac hc
            · rwa [stream_nil, List.append_nil]
            · exact absurd (List.append_eq_nil_iff.mp (List.cons.inj hac).2.symm).2 hc
          · rw [stream_cons, stream_nil, List.append_nil, hframes]
            exact hrest

theorem obtained_readRequest (bursts : List Burst) (ending : RecvEv) :
    ∃ before after, obtained readRequest bursts ending = .ok (frames (stream before)).1
      ∧ bursts = before ++ after
      ∧ (∀ a b, before = a ++ b → b ≠ [] → (frames (stream a)).2 = [])
      ∧ ((frames (stream before)).2 = [] → after = []) := by
  obtain ⟨l, before, after, hread, hb, hmsgs, hlive, hend, hiff⟩ :=
    readBursts_readRequest bursts (show Link.fresh.isOpen = true from rfl)
      (show Link.fresh.msgs = (frames []).1 by rw [frames_nil]; rfl) (by rw [frames_nil])
  simp only [List.nil_append] at hmsgs hlive hiff
  refine ⟨before, after, ?_, hb, hlive, fun h => ?_⟩
  · rw [obtained, hread, Res.ok_bind, ← hmsgs]
    cases hl : l.isOpen with
    | false => rfl
    | true =>
        -- the socket has nothing: no message comes out
        obtain ⟨out, hout, hadv, -⟩ := doRead_advanced [ending] Buffered.empty []
        obtain ⟨x, hx, hmsg, -⟩ := hadv.taken
        obtain rfl : x = [] := (List.append_eq_nil_iff.mp hx.symm).1
        rw [List.append_nil, show splitFrames 4 msgSize ([] : List UInt8) = ([], []) from
          frames_nil] at hmsg
        have hnone : out.msg = none := by
          cases hm : out.msg with
          | none => rfl
          | some m => rw [hm] at hmsg; exact absurd hmsg (by simp)
        obtain ⟨code, rb, avail, hrun, hcode⟩ := (doRead_matches _ hout).part hnone
        rw [if_pos rfl, readRequest, show resetReadBuffer = ReadBuf.empty from rfl, hrun]
        cases code with
        | success => exact absurd rfl hcode
        | closed => rfl
        | error => rfl
  · rcases hend with ⟨-, h0⟩ | hclosed
    · exact h0
    · exact absurd (hclosed.symm.trans (hiff.mpr h)) (by simp)

theorem frames_le {a b : List Burst} : (frames (stream a)).1 <+: (frames (stream (a ++ b))).1 := by
  rw [stream_append]
  exact splitFrames_mono (List.prefix_append _ _)

/--
**The worker gets the messages of the core reader**, for any stream, any bursts and any
`recv`s, exactly when no burst ends inside of a message that is completed later on.
-/
theorem readers_agree_iff (bursts : List Burst) (ending : RecvEv) :
    ∃ core sip, obtained receive bursts ending = .ok core
      ∧ obtained readRequest bursts ending = .ok sip ∧ (sip = core ↔ Aligned bursts) := by
  obtain ⟨before, after, hsip, hb, hlive, hend⟩ := obtained_readRequest bursts ending
  refine ⟨_, _, obtained_receive bursts ending, hsip, fun heq => ?_, fun h => ?_⟩
  · intro a b hab
    have hle : (frames (stream a)).1 <+: (frames (stream bursts)).1 := hab ▸ frames_le
    rcases List.append_eq_append_iff.mp (hb.symm.trans hab) with ⟨c, rfl, -⟩ | ⟨c, rfl, -⟩
    · -- nothing is lost where the worker stopped, so nothing later on
      rw [← heq] at hle ⊢
      exact .inr (hle.eq_of_length_le frames_le.length_le)
    · by_cases hc : c = []
      · rw [hc, List.append_nil] at heq
        exact .inr heq
      · exact .inl (hlive a c rfl hc)
  · rcases h before after hb with hnil | heq
    · rw [hb, hend hnil, List.append_nil]
    · exact heq

/-! ## A message in two bursts -/

/-- A message without AVPs. -/
def sampleHeader : List UInt8 := [1, 0, 0, 20] ++ List.replicate 16 0

def splitBursts : List Burst := [⟨sampleHeader.take 7, []⟩, ⟨sampleHeader.drop 7, []⟩]

theorem split_message_lost :
    ¬ ∃ msgs, obtained receive splitBursts .fin = .ok msgs
      ∧ obtained readRequest splitBursts .fin = .ok msgs := by
  have hcore : obtained receive splitBursts .fin = .ok [sampleHeader] := by decide +kernel
  have hsip : obtained readRequest splitBursts .fin = .ok [] := by decide +kernel
  rintro ⟨msgs, h1, h2⟩
  rw [hcore] at h1
  rw [hsip] at h2
  exact absurd (Res.ok.inj (h1.trans h2.symm)) (by simp)

end Disc.SipAuth
