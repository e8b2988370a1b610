import Disc.Lib.Frame
import Disc.Lib.Memory
import Disc.Msg.Avp

/-!
# Reading messages off a connection

`do_read` of `tcp_receive.c`, called whenever the socket of a peer is readable.

The reader is resumable. It first collects four bytes in `first_4bytes`; the
low three of them give the length of the message, so it allocates a buffer,
copies the four bytes over, and from then on `first_4bytes` holds the length and
bytes go to the buffer. A call ends when `recv` has nothing more, when it fails,
or after one whole message has been handed to `dispatch_message`.

Bytes are taken from the part of the stream that has not been read yet; a
schedule of `RecvEv`s says what each `recv` does, so that a run of calls with
their schedules is one way of cutting the stream.
-/

namespace Disc.Transport

open Disc.Lib Disc.Msg

/-- `MAX_AAA_MSG_SIZE`. -/
def maxAaaMsgSize : Nat := 65536

/-- The read buffer of a peer: `first_4bytes`, `buf` and `buf_len`. -/
structure ReadBuf where
  /-- The four bytes of memory of the unsigned integer `first_4bytes`. -/
  first4bytes : List UInt8
  /-- `buf`, absent while it is null. -/
  buf : Option (List UInt8)
  bufLen : Nat
deriving Repr, DecidableEq

/-- The state after `reset_peer`, and after a whole message. -/
def ReadBuf.empty : ReadBuf := { first4bytes := le 4 0, buf := none, bufLen := 0 }

/-- What one `recv` does. -/
inductive RecvEv where
  /-- It returns up to `n` bytes, as many as there are and as were asked for. -/
  | got (n : Nat)
  | again
  | intr
  | fin
  | err
deriving Repr, DecidableEq

/-- The return of `recv`: some bytes, 0, or -1 with or without a reason to try again. -/
inductive RecvRes where
  | bytes (bs : List UInt8)
  | zero
  | retry
  | fail
deriving Repr, DecidableEq

/-- `recv(sock, ptr, wanted_len, MSG_DONTWAIT)` with `avail` still to be read. -/
def recv (ev : RecvEv) (wantedLen : Nat) (avail : List UInt8) : RecvRes :=
  if wantedLen = 0 then .zero
  else match ev with
    | .got n => if avail.take (min n wantedLen) = [] then .retry
        else .bytes (avail.take (min n wantedLen))
    | .again => .retry
    | .intr => .retry
    | .fin => .zero
    | .err => .fail

/-- What a call of `do_read` leaves: buffer, unread stream, message handed out, return value. -/
structure ReadOut where
  rb : ReadBuf
  avail : List UInt8
  msg : Option (List UInt8)
  ok : Bool
deriving Repr, DecidableEq

/-- The bytes `recv` stores: in `first_4bytes` or in the buffer, at offset `ptr`. -/
def ReadBuf.store (rb : ReadBuf) (ptr : Nat) (bs : List UInt8) : Res ReadBuf :=
  match rb.buf with
  | none => do
      let f ← Res.ofAccess (poke rb.first4bytes ptr bs)
      return { rb with first4bytes := f, bufLen := rb.bufLen + bs.length }
  | some b => do
      let b ← Res.ofAccess (poke b ptr bs)
      return { rb with buf := some b, bufLen := rb.bufLen + bs.length }

/-- The loop of `do_read`, one `recv` per event; where the schedule ends, the socket has nothing left. -/
def doReadLoop : List RecvEv → ReadBuf → Nat → Nat → List UInt8 → Res ReadOut
  | [], rb, _, wantedLen, avail =>
      .ok { rb, avail, msg := none, ok := recv .again wantedLen avail = .retry }
  | ev :: evs, rb, ptr, wantedLen, avail =>
      match recv ev wantedLen avail with
      | .zero => .ok { rb, avail, msg := none, ok := false }
      | .fail => .ok { rb, avail, msg := none, ok := false }
      | .retry => .ok { rb, avail, msg := none, ok := true }
      | .bytes bs => do
          let rb ← rb.store ptr bs
          let avail := avail.drop bs.length
          if bs.length < wantedLen then
            doReadLoop evs rb (ptr + bs.length) (usub wantedLen bs.length) avail
          else match rb.buf with
            | none =>
                -- the first four bytes are there
                let len := ofBe rb.first4bytes % 2 ^ 24
                if len < aaaMsgHdrSize ∨ len > maxAaaMsgSize then
                  .ok { rb, avail, msg := none, ok := false }
                else do
                  let b ← Res.ofAccess (poke (List.replicate len 0) 0 rb.first4bytes)
                  let rb : ReadBuf := { first4bytes := le 4 len, buf := some b, bufLen := 4 }
                  doReadLoop evs rb rb.bufLen (usub (ofLe rb.first4bytes) rb.bufLen) avail
            | some b =>
                -- the whole message is there
                .ok { rb := .empty, avail, msg := some (b.take rb.bufLen), ok := true }

/-- `do_read`. -/
def doRead (evs : List RecvEv) (rb : ReadBuf) (avail : List UInt8) : Res ReadOut :=
  match rb.buf with
  | none => doReadLoop evs rb rb.bufLen (usub 4 rb.bufLen) avail
  | some _ => doReadLoop evs rb rb.bufLen (usub (ofLe rb.first4bytes) rb.bufLen) avail

/-! ## A connection -/

/-- One connection over its whole life: what `do_read` has read and handed out so far. -/
structure Conn where
  rb : ReadBuf
  /-- Bytes taken off the stream. -/
  got : List UInt8
  /-- Bytes still to come. -/
  avail : List UInt8
  /-- Buffers handed to `dispatch_message`. -/
  delivered : List (List UInt8)
  /-- Return value of the last call. -/
  ok : Bool
deriving Repr, DecidableEq

/-- A fresh connection on which the remote side will send `s`. -/
def Conn.start (s : List UInt8) : Conn :=
  { rb := .empty, got := [], avail := s, delivered := [], ok := true }

/-- One call of `do_read`. -/
def Conn.call (c : Conn) (evs : List RecvEv) : Res Conn := do
  let out ← doRead evs c.rb c.avail
  return { rb := out.rb
           got := c.got ++ c.avail.take (c.avail.length - out.avail.length)
           avail := out.avail
           delivered := c.delivered ++ out.msg.toList
           ok := out.ok }

/-- Any number of calls, each with its own schedule. -/
def Conn.run : List (List RecvEv) → Conn → Res Conn
  | [], c => .ok c
  | evs :: calls, c => do
      let c ← c.call evs
      Conn.run calls c

/-! ## What the buffer holds -/

/-- The length a header announces, when `do_read` admits it. -/
def msgSize (hdr : List UInt8) : Option Nat :=
  let len := ofBe hdr % 2 ^ 24
  if len < aaaMsgHdrSize ∨ len > maxAaaMsgSize then none else some len

/-- The bytes of an unfinished message. -/
def ReadBuf.bytes (rb : ReadBuf) : List UInt8 :=
  match rb.buf with
  | none => rb.first4bytes.take rb.bufLen
  | some b => b.take rb.bufLen

/-- How many bytes the reader waits for: the header, or the whole message. -/
def ReadBuf.target (rb : ReadBuf) : Nat :=
  match rb.buf with
  | none => 4
  | some _ => ofLe rb.first4bytes

/--
The read buffer holds the unfinished message `tail`: part of a header (all of it
only when the length was refused), or a header and part of what it announces.
-/
inductive Buffered : ReadBuf → List UInt8 → Prop
  | header {mem tail : List UInt8} {n : Nat} (hn : n = tail.length) (hl : mem.length = 4)
      (ht : tail.length ≤ 4) (hm : mem.take tail.length = tail)
      (hfull : tail.length = 4 → msgSize tail = none) : Buffered ⟨mem, none, n⟩ tail
  | body {b tail : List UInt8} {n len : Nat} (hn : n = tail.length) (hl : len = b.length)
      (h4 : 4 ≤ tail.length) (hlt : tail.length < b.length)
      (hsz : msgSize (tail.take 4) = some len) (hm : b.take tail.length = tail) :
      Buffered ⟨le 4 len, some b, n⟩ tail

theorem Buffered.empty : Buffered .empty [] :=
  .header rfl (length_le 4 0) (Nat.zero_le 4) rfl (fun h => absurd h (by decide))

theorem msgSize_some {hdr : List UInt8} {n : Nat} (h : msgSize hdr = some n) :
    n = ofBe hdr % 2 ^ 24 ∧ 20 ≤ n ∧ n ≤ 65536 := by
  have h20 : aaaMsgHdrSize = 20 := rfl
  have hmax : maxAaaMsgSize = 65536 := rfl
  simp only [msgSize] at h
  split at h
  · exact absurd h (by simp)
  · obtain rfl := Option.some.inj h
    exact ⟨rfl, by omega, by omega⟩

theorem ofLe_le_msgSize {hdr : List UInt8} {n : Nat} (h : msgSize hdr = some n) :
    ofLe (le 4 n) = n := by
  have := msgSize_some h
  exact ofLe_le (by omega)

/-- An unfinished message is not a frame. -/
theorem Buffered.frontFrame_eq {rb : ReadBuf} {tail : List UInt8} (h : Buffered rb tail) :
    frontFrame 4 msgSize tail = none := by
  unfold frontFrame
  cases h with
  | header hn hl ht hm hfull =>
      split
      · rename_i h4
        have h4 : tail.length = 4 := by omega
        rw [List.take_of_length_le (by omega), hfull h4]
      · rfl
  | body hn hl h4 hlt hsz hm =>
      rw [if_pos h4, hsz]
      exact if_neg (by omega)

theorem Buffered.bytes_eq {rb : ReadBuf} {tail : List UInt8} (h : Buffered rb tail) :
    rb.bytes = tail := by
  cases h with
  | header hn hl ht hm hfull => subst hn; exact hm
  | body hn hl h4 hlt hsz hm => subst hn; exact hm

theorem Buffered.bufLen_le {rb : ReadBuf} {tail : List UInt8} (h : Buffered rb tail) :
    rb.bufLen = tail.length ∧ rb.bufLen ≤ rb.target ∧ rb.target < 2 ^ 32 := by
  cases h with
  | header hn hl ht hm hfull =>
      simp only [ReadBuf.target]
      omega
  | body hn hl h4 hlt hsz hm =>
      have := msgSize_some hsz
      simp only [ReadBuf.target, ofLe_le_msgSize hsz]
      omega

/-! ## One call -/

/-- Where the reader stands after reading `x` on top of `tail`. -/
structure Advanced (tail avail : List UInt8) (out : ReadOut) : Prop where
  /-- Only a prefix of the stream was taken. -/
  taken : ∃ x, avail = x ++ out.avail
    ∧ (splitFrames 4 msgSize (tail ++ x)).1 = out.msg.toList
    ∧ Buffered out.rb (splitFrames 4 msgSize (tail ++ x)).2
    ∧ (Refused 4 msgSize (splitFrames 4 msgSize (tail ++ x)).2 → out.ok = false)

theorem recv_bytes {ev : RecvEv} {wantedLen : Nat} {avail bs : List UInt8}
    (h : recv ev wantedLen avail = .bytes bs) :
    bs ≠ [] ∧ bs.length ≤ wantedLen ∧ avail = bs ++ avail.drop bs.length := by
  unfold recv at h
  split at h
  · exact absurd h (by simp)
  · cases ev with
    | got n =>
        simp only [] at h
        split at h
        · exact absurd h (by simp)
        · rename_i hne
          obtain rfl := RecvRes.bytes.inj h
          refine ⟨hne, by rw [List.length_take]; omega, ?_⟩
          rcases Nat.le_total (min n wantedLen) avail.length with hle | hle
          · rw [List.length_take, Nat.min_eq_left hle, List.take_append_drop]
          · rw [List.take_of_length_le hle, List.drop_length, List.append_nil]
    | again => exact absurd h (by simp)
    | intr => exact absurd h (by simp)
    | fin => exact absurd h (by simp)
    | err => exact absurd h (by simp)

/-- Stopping where nothing was read. -/
theorem Advanced.stop {rb : ReadBuf} {tail avail : List UInt8} {ok : Bool} (h : Buffered rb tail)
    (hok : Refused 4 msgSize tail → ok = false) :
    Advanced tail avail { rb, avail, msg := none, ok } := by
  refine ⟨[], rfl, ?_⟩
  rw [List.append_nil, splitFrames_none h.frontFrame_eq]
  exact ⟨rfl, h, hok⟩

/-- Reading some bytes and going on from there. -/
theorem Advanced.trans {tail avail bs : List UInt8} {out : ReadOut}
    (hcut : avail = bs ++ avail.drop bs.length)
    (h : Advanced (tail ++ bs) (avail.drop bs.length) out) : Advanced tail avail out := by
  obtain ⟨x, hx, h1, h2, h3⟩ := h.taken
  refine ⟨bs ++ x, ?_, ?_⟩
  · rw [List.append_assoc, ← hx]
    exact hcut
  · rw [← List.append_assoc]
    exact ⟨h1, h2, h3⟩

/-- A header whose length was refused is not waiting for anything. -/
theorem Buffered.refused {rb : ReadBuf} {tail : List UInt8} (h : Buffered rb tail)
    (hr : Refused 4 msgSize tail) : rb.target = rb.bufLen := by
  cases h with
  | header hn hl ht hm hfull =>
      have := hr.1
      simp only [ReadBuf.target]
      omega
  | body hn hl h4 hlt hsz hm => rw [hr.2] at hsz; exact absurd hsz (by simp)

/-- Otherwise it is. -/
theorem Buffered.waiting {rb : ReadBuf} {tail : List UInt8} (h : Buffered rb tail)
    (hr : ¬ Refused 4 msgSize tail) : rb.target - rb.bufLen ≠ 0 := by
  cases h with
  | header hn hl ht hm hfull =>
      have h4 : tail.length ≠ 4 := by
        intro h4
        refine hr ⟨by omega, ?_⟩
        rw [List.take_of_length_le (by omega)]
        exact hfull h4
      simp only [ReadBuf.target]
      omega
  | body hn hl h4 hlt hsz hm =>
      simp only [ReadBuf.target, ofLe_le_msgSize hsz]
      omega

/-- A `recv` that has to be tried again was asked for something. -/
theorem recv_retry {ev : RecvEv} {wantedLen : Nat} {avail : List UInt8}
    (h : recv ev wantedLen avail = .retry) : wantedLen ≠ 0 := by
  intro h0
  subst h0
  exact absurd h (by simp [recv])

/-- `recv` returns zero at the end of the stream only, or when it was asked for nothing. -/
theorem recv_zero {ev : RecvEv} {wantedLen : Nat} {avail : List UInt8}
    (h : recv ev wantedLen avail = .zero) : ev = .fin ∨ wantedLen = 0 := by
  cases ev with
  | fin => exact .inl rfl
  | got n =>
      refine .inr (by_contra fun hw => ?_)
      rw [recv, if_neg hw] at h
      split at h
      · exact absurd h (by simp)
      · exact absurd h (by simp)
  | again | intr | err =>
      refine .inr (by_contra fun hw => ?_)
      rw [recv, if_neg hw] at h
      exact absurd h (by simp)

/-- It fails when the connection does. -/
theorem recv_fail {ev : RecvEv} {wantedLen : Nat} {avail : List UInt8}
    (h : recv ev wantedLen avail = .fail) : ev = .err := by
  unfold recv at h
  split at h
  · exact absurd h (by simp)
  · cases ev with
    | err => rfl
    | got n =>
        dsimp only at h
        split at h
        · exact absurd h (by simp)
        · exact absurd h (by simp)
    | again | intr | fin => exact absurd h (by simp)

/--
**The loop of `do_read`**, from any state in which the pointer stands behind what is buffered.
It fails when the connection ends or fails, or behind a refused header.
-/
theorem doReadLoop_advanced (evs : List RecvEv) {rb : ReadBuf} {tail : List UInt8}
    (h : Buffered rb tail) (avail : List UInt8) :
    ∃ out, doReadLoop evs rb rb.bufLen (rb.target - rb.bufLen) avail = .ok out
      ∧ Advanced tail avail out
      ∧ (out.ok = false → (.fin ∈ evs ∨ .err ∈ evs) ∨ Refused 4 msgSize out.rb.bytes) := by
  induction evs generalizing rb tail avail with
  | nil =>
      refine ⟨_, rfl, Advanced.stop h fun hr => ?_, fun hok => .inr ?_⟩
      rotate_left
      · rw [h.bytes_eq]
        by_contra hr
        exact absurd hok (by simp [recv, h.waiting hr])
      have hne : recv .again (rb.target - rb.bufLen) avail ≠ .retry := fun he =>
        recv_retry he (by rw [h.refused hr]; omega)
      exact decide_eq_false hne
  | cons ev evs ih =>
      rw [doReadLoop]
      cases hrv : recv ev (rb.target - rb.bufLen) avail with
      | zero =>
          refine ⟨_, rfl, Advanced.stop h fun _ => rfl, fun _ => ?_⟩
          rcases recv_zero hrv with rfl | h0
          · exact .inl (.inl List.mem_cons_self)
          · refine .inr (by_contra fun hr => h.waiting (fun hr' => hr ?_) h0)
            rw [h.bytes_eq]
            exact hr'
      | fail =>
          obtain rfl := recv_fail hrv
          exact ⟨_, rfl, Advanced.stop h fun _ => rfl, fun _ => .inl (.inr List.mem_cons_self)⟩
      -- a refused length asks for nothing, and `recv` of nothing does not say try again
      | retry =>
          refine ⟨_, rfl, Advanced.stop h fun hr => ?_, fun hok => absurd hok (by simp)⟩
          exact absurd (by rw [h.refused hr]; omega) (recv_retry hrv)
      | bytes bs =>
          obtain ⟨hne, hle, hcut⟩ := recv_bytes hrv
          have hpos : 0 < bs.length := List.length_pos_iff.mpr hne
          have hlen := h.bufLen_le
          have hends : ∀ {P : Prop}, (.fin ∈ evs ∨ .err ∈ evs) ∨ P →
              (.fin ∈ ev :: evs ∨ .err ∈ ev :: evs) ∨ P :=
            Or.imp_left (Or.imp (List.mem_cons_of_mem _) (List.mem_cons_of_mem _))
          simp only []
          cases h with
          -- four bytes of length are still being collected
          | @header mem tail n hn hl ht hm hfull =>
              subst hn
              simp only [ReadBuf.target] at hle ⊢
              obtain ⟨mem', hpoke, hl', hm'⟩ := poke_take hm bs (by omega)
              have htl : (tail ++ bs).length = tail.length + bs.length := List.length_append
              simp only [ReadBuf.store, hpoke, Res.ofAccess_some, Res.ok_bind, Res.pure_eq]
              split
              · rename_i hlt
                have hb : Buffered ⟨mem', none, tail.length + bs.length⟩ (tail ++ bs) :=
                  .header htl.symm (by omega) (by omega) hm' (by omega)
                obtain ⟨out, h1, h2, h3⟩ := ih hb (avail.drop bs.length)
                refine ⟨out, ?_, h2.trans hcut, fun hok => hends (h3 hok)⟩
                rw [← h1, usub_eq (by omega) (by omega)]
                simp only [ReadBuf.target, Nat.sub_sub]
              · -- the header is complete; its length is admitted or not
                rename_i hge
                have hmem : mem' = tail ++ bs := by
                  rw [← hm', List.take_of_length_le (by omega)]
                rw [hmem]
                split
                · rename_i hbad
                  have hnone : msgSize (tail ++ bs) = none := if_pos hbad
                  have hb : Buffered ⟨tail ++ bs, none, tail.length + bs.length⟩ (tail ++ bs) :=
                    .header htl.symm (by omega) (by omega) (List.take_of_length_le (by omega))
                      fun _ => hnone
                  refine ⟨_, rfl, Advanced.trans hcut (Advanced.stop hb fun _ => rfl),
                    fun _ => .inr ?_⟩
                  rw [hb.bytes_eq]
                  exact ⟨by omega, by rw [List.take_of_length_le (by omega)]; exact hnone⟩
                · rename_i hgood
                  set len := ofBe (tail ++ bs) % 2 ^ 24 with hlen'
                  have hsz : msgSize (tail ++ bs) = some len := if_neg hgood
                  have hb20 := msgSize_some hsz
                  have hnil : (List.replicate len (0 : UInt8)).take ([] : List UInt8).length = [] :=
                    rfl
                  obtain ⟨b, hpk, hbl, hbm⟩ := poke_take hnil (tail ++ bs) (by simp; omega)
                  rw [List.length_replicate] at hbl
                  have hb : Buffered ⟨le 4 len, some b, 4⟩ (tail ++ bs) :=
                    .body (by omega) hbl.symm (by omega) (by omega)
                      (by rw [List.take_of_length_le (by omega)]; exact hsz) hbm
                  obtain ⟨out, h1, h2, h3⟩ := ih hb (avail.drop bs.length)
                  refine ⟨out, ?_, h2.trans hcut, fun hok => hends (h3 hok)⟩
                  rw [show poke (List.replicate len 0) 0 (tail ++ bs) = some b from hpk,
                    Res.ofAccess_some, Res.ok_bind, ← h1]
                  simp only [ReadBuf.target]
                  rw [usub_eq (by rw [ofLe_le_msgSize hsz]; omega)
                    (by rw [ofLe_le_msgSize hsz]; omega)]
          -- they are there, and the message is
          | @body b tail n len hn hl h4 hlt hsz hm =>
              subst hn
              have hsz' := msgSize_some hsz
              have htgt := ofLe_le_msgSize hsz
              simp only [ReadBuf.target, htgt] at hle ⊢
              obtain ⟨b', hpoke, hl', hm'⟩ := poke_take hm bs (by omega)
              have htl : (tail ++ bs).length = tail.length + bs.length := List.length_append
              have hhdr : msgSize ((tail ++ bs).take 4) = some len := by
                rw [List.take_append_of_le_length h4]; exact hsz
              simp only [ReadBuf.store, hpoke, Res.ofAccess_some, Res.ok_bind, Res.pure_eq]
              split
              · rename_i hshort
                have hb : Buffered ⟨le 4 len, some b', tail.length + bs.length⟩ (tail ++ bs) :=
                  .body htl.symm (by omega) (by omega) (by omega) hhdr hm'
                obtain ⟨out, h1, h2, h3⟩ := ih hb (avail.drop bs.length)
                refine ⟨out, ?_, h2.trans hcut, fun hok => hends (h3 hok)⟩
                rw [← h1, usub_eq (by omega) (by omega)]
                simp only [ReadBuf.target, htgt, Nat.sub_sub]
              · -- the message is complete: it is the frame at the front, and nothing is left
                rename_i hge
                have hfull : (tail ++ bs).length = len := by omega
                have hfr : frontFrame 4 msgSize (tail ++ bs) = some len := by
                  unfold frontFrame
                  rw [if_pos (by omega), hhdr]
                  exact if_pos (by omega)
                have hsplit : splitFrames 4 msgSize (tail ++ bs) = ([tail ++ bs], []) := by
                  rw [splitFrames_some hfr, List.take_of_length_le (by omega),
                    List.drop_eq_nil_of_le (by omega), splitFrames_none rfl]
                refine ⟨_, rfl, ⟨bs, hcut, ?_⟩, fun hok => absurd hok (by simp)⟩
                rw [hsplit]
                refine ⟨?_, Buffered.empty, fun hr => absurd hr.1 (by simp)⟩
                rw [← htl, hm']
                rfl

/-- `do_read` enters its loop with the pointer behind what is buffered. -/
theorem Buffered.doRead_eq {rb : ReadBuf} {tail : List UInt8} (h : Buffered rb tail)
    (evs : List RecvEv) (avail : List UInt8) :
    doRead evs rb avail = doReadLoop evs rb rb.bufLen (rb.target - rb.bufLen) avail := by
  have hlen := h.bufLen_le
  unfold doRead
  cases hb : rb.buf with
  | none =>
      simp only [ReadBuf.target, hb] at hlen ⊢
      rw [usub_eq hlen.2.1 hlen.2.2]
  | some b =>
      simp only [ReadBuf.target, hb] at hlen ⊢
      rw [usub_eq hlen.2.1 hlen.2.2]

/-- One call of `do_read`. -/
theorem doRead_advanced (evs : List RecvEv) {rb : ReadBuf} {tail : List UInt8}
    (h : Buffered rb tail) (avail : List UInt8) :
    ∃ out, doRead evs rb avail = .ok out ∧ Advanced tail avail out
      ∧ (out.ok = false → (.fin ∈ evs ∨ .err ∈ evs) ∨ Refused 4 msgSize out.rb.bytes) := by
  rw [h.doRead_eq]
  exact doReadLoop_advanced evs h avail

/-! ## A whole connection -/

/-- What holds between any two calls. -/
structure Framed (s : List UInt8) (c : Conn) : Prop where
  /-- What was read and what was not make up the stream. -/
  stream : c.got ++ c.avail = s
  /-- The buffers handed out are the frames of what was read. -/
  delivered : c.delivered = (splitFrames 4 msgSize c.got).1
  /-- The read buffer holds the rest of it. -/
  buffered : Buffered c.rb (splitFrames 4 msgSize c.got).2
  /-- A refused header made the call fail. -/
  refused : Refused 4 msgSize (splitFrames 4 msgSize c.got).2 → c.ok = false

theorem Framed.start (s : List UInt8) : Framed s (Conn.start s) := by
  have h0 : splitFrames 4 msgSize ([] : List UInt8) = ([], []) := splitFrames_none rfl
  refine ⟨rfl, ?_, ?_, ?_⟩
  · rw [Conn.start, h0]
  · rw [Conn.start, h0]
    exact Buffered.empty
  · rw [Conn.start, h0]
    intro hr
    exact absurd hr.1 (by simp)

/-- A call never faults, and keeps the framing. -/
theorem Framed.call {s : List UInt8} {c : Conn} (h : Framed s c) (evs : List RecvEv) :
    ∃ c', c.call evs = .ok c' ∧ Framed s c' ∧ c.got <+: c'.got := by
  obtain ⟨out, hout, hadv, -⟩ := doRead_advanced evs h.buffered c.avail
  obtain ⟨x, hx, h1, h2, h3⟩ := hadv.taken
  have hgot : c.avail.take (c.avail.length - out.avail.length) = x := by
    rw [hx, List.length_append, Nat.add_sub_cancel, List.take_left]
  refine ⟨_, by rw [Conn.call, hout, Res.ok_bind, Res.pure_eq], ?_, List.prefix_append _ _⟩
  rw [hgot]
  have happ : splitFrames 4 msgSize (c.got ++ x) = _ := splitFrames_append c.got x
  refine ⟨?_, ?_, ?_, ?_⟩
  · simp only [List.append_assoc]
    rw [← hx]
    exact h.stream
  · rw [happ, h1, h.delivered]
  · rw [happ]; exact h2
  · rw [happ]; exact h3

theorem Framed.run {s : List UInt8} {c : Conn} (h : Framed s c) (calls : List (List RecvEv)) :
    ∃ c', c.run calls = .ok c' ∧ Framed s c' ∧ c.got <+: c'.got := by
  induction calls generalizing c with
  | nil => exact ⟨c, rfl, h, List.prefix_rfl⟩
  | cons evs calls ih =>
      obtain ⟨c₁, h1, hf, hp⟩ := h.call evs
      obtain ⟨c', h2, hf', hp'⟩ := ih hf
      exact ⟨c', by rw [Conn.run, h1, Res.ok_bind, h2], hf', hp.trans hp'⟩

/-- Nothing is handed out, and every call fails, behind a refused header. -/
theorem Framed.stuck {s : List UInt8} {c c' : Conn} (h : Framed s c) (h' : Framed s c')
    (hr : Refused 4 msgSize (splitFrames 4 msgSize c.got).2) (hp : c.got <+: c'.got) :
    c'.delivered = c.delivered ∧ c'.ok = false := by
  obtain ⟨x, hx⟩ := hp
  have happ : splitFrames 4 msgSize (c.got ++ x) = _ := splitFrames_append c.got x
  rw [hr.splitFrames_eq x, List.append_nil, hx] at happ
  refine ⟨by rw [h'.delivered, h.delivered, happ], h'.refused ?_⟩
  rw [happ]
  refine ⟨by rw [List.length_append]; have := hr.1; omega, ?_⟩
  rw [List.take_append_of_le_length hr.1]
  exact hr.2

/-- When everything was read, or the rest is refused, all frames of the stream were handed out. -/
theorem Framed.complete {s : List UInt8} {c : Conn} (h : Framed s c)
    (hend : c.avail = [] ∨ Refused 4 msgSize (splitFrames 4 msgSize c.got).2) :
    c.delivered = (splitFrames 4 msgSize s).1 := by
  rw [← h.stream, h.delivered]
  rcases hend with h0 | hr
  · rw [h0, List.append_nil]
  · have happ : splitFrames 4 msgSize (c.got ++ c.avail) = _ := splitFrames_append c.got c.avail
    rw [happ, hr.splitFrames_eq c.avail, List.append_nil]

theorem Framed.delivered_le {s : List UInt8} {c : Conn} (h : Framed s c) :
    c.delivered <+: (splitFrames 4 msgSize s).1 := by
  rw [h.delivered, ← h.stream]
  exact splitFrames_mono (List.prefix_append _ _)

/-! ## Progress -/

/-- The loop only takes bytes off the front, and at least those its first `recv` returned. -/
theorem doReadLoop_suffix (evs : List RecvEv) {rb : ReadBuf} {ptr wantedLen : Nat}
    {avail : List UInt8} {out : ReadOut} (h : doReadLoop evs rb ptr wantedLen avail = .ok out) :
    out.avail <:+ avail ∧ ∀ ev rest bs, evs = ev :: rest → recv ev wantedLen avail = .bytes bs →
      out.avail <:+ avail.drop bs.length := by
  induction evs generalizing rb ptr wantedLen avail with
  | nil =>
      obtain rfl := Res.ok.inj h
      exact ⟨List.suffix_rfl, by simp⟩
  | cons ev evs ih =>
      rw [doReadLoop] at h
      cases hrv : recv ev wantedLen avail with
      | zero | fail | retry =>
          rw [hrv] at h
          obtain rfl := Res.ok.inj h
          refine ⟨List.suffix_rfl, ?_⟩
          rintro ev' rest bs ⟨rfl, rfl⟩ hb
          rw [hrv] at hb
          exact absurd hb (by simp)
      | bytes bs =>
          suffices hdrop : out.avail <:+ avail.drop bs.length by
            refine ⟨hdrop.trans (List.drop_suffix _ _), ?_⟩
            rintro ev' rest bs' ⟨rfl, rfl⟩ hb
            rw [hrv] at hb
            obtain rfl := RecvRes.bytes.inj hb
            exact hdrop
          rw [hrv] at h
          simp only [] at h
          obtain ⟨rb', -, h⟩ := Res.bind_eq_ok h
          split at h
          · exact (ih h).1
          · split at h
            · split at h
              · obtain rfl := Res.ok.inj h
                exact List.suffix_rfl
              · obtain ⟨b, -, h⟩ := Res.bind_eq_ok h
                exact (ih h).1
            · obtain rfl := Res.ok.inj h
              exact List.suffix_rfl

/-- A call that hands out a message returns well. -/
theorem doReadLoop_msg (evs : List RecvEv) {rb : ReadBuf} {ptr wantedLen : Nat}
    {avail buf : List UInt8} {out : ReadOut} (h : doReadLoop evs rb ptr wantedLen avail = .ok out)
    (hm : out.msg = some buf) : out.ok = true := by
  induction evs generalizing rb ptr wantedLen avail with
  | nil =>
      obtain rfl := Res.ok.inj h
      exact absurd hm (by simp)
  | cons ev evs ih =>
      rw [doReadLoop] at h
      cases hrv : recv ev wantedLen avail with
      | zero | fail | retry =>
          rw [hrv] at h
          obtain rfl := Res.ok.inj h
          exact absurd hm (by simp)
      | bytes bs =>
          rw [hrv] at h
          dsimp only at h
          obtain ⟨rb', -, h⟩ := Res.bind_eq_ok h
          split at h
          · exact ih h
          · split at h
            · split at h
              · obtain rfl := Res.ok.inj h
                exact absurd hm (by simp)
              · obtain ⟨b, -, h⟩ := Res.bind_eq_ok h
                exact ih h
            · obtain rfl := Res.ok.inj h
              rfl

theorem doRead_msg {evs : List RecvEv} {rb : ReadBuf} {avail buf : List UInt8} {out : ReadOut}
    (h : doRead evs rb avail = .ok out) (hm : out.msg = some buf) : out.ok = true := by
  unfold doRead at h
  split at h
  · exact doReadLoop_msg evs h hm
  · exact doReadLoop_msg evs h hm

/-- A reader that is not stuck can always read on. -/
theorem Framed.progress {s : List UInt8} {c : Conn} (h : Framed s c) (hne : c.avail ≠ [])
    (hr : ¬ Refused 4 msgSize (splitFrames 4 msgSize c.got).2) :
    ∃ c', c.call [.got 1] = .ok c' ∧ Framed s c' ∧ c'.avail.length < c.avail.length := by
  obtain ⟨c', hc, hf, -⟩ := h.call [.got 1]
  refine ⟨c', hc, hf, ?_⟩
  obtain ⟨out, hout, hc⟩ := Res.bind_eq_ok hc
  obtain rfl := Res.ok.inj hc
  obtain ⟨a, rest, hcons⟩ := List.exists_cons_of_ne_nil hne
  -- there is room for at least one byte
  have hroom : c.rb.target - c.rb.bufLen ≠ 0 := h.buffered.waiting hr
  have hrv : recv (.got 1) (c.rb.target - c.rb.bufLen) c.avail = .bytes [a] := by
    rw [recv, if_neg hroom, Nat.min_eq_left (by omega), hcons]
    rfl
  obtain ⟨out', hout', -⟩ := doReadLoop_advanced [.got 1] h.buffered c.avail
  have heq : out' = out := by
    rw [h.buffered.doRead_eq, hout'] at hout
    exact Res.ok.inj hout
  subst heq
  have hsuf := ((doReadLoop_suffix _ hout').2 _ _ _ rfl hrv).length_le
  rw [hcons] at hsuf ⊢
  simp only [List.length_singleton, List.drop_succ_cons, List.drop_zero] at hsuf
  simp only [List.length_cons]
  omega

/-- Every reader can be brought to the end of the stream, or to a header it refuses. -/
theorem Framed.finish {s : List UInt8} {c : Conn} (h : Framed s c) :
    ∃ calls c', c.run calls = .ok c' ∧ Framed s c'
      ∧ (c'.avail = [] ∨ Refused 4 msgSize (splitFrames 4 msgSize c'.got).2) := by
  induction hn : c.avail.length using Nat.strongRecOn generalizing c with
  | ind n ih =>
      by_cases hend : c.avail = [] ∨ Refused 4 msgSize (splitFrames 4 msgSize c.got).2
      · exact ⟨[], c, rfl, h, hend⟩
      · rw [not_or] at hend
        obtain ⟨c₁, h1, hf, hlt⟩ := h.progress hend.1 hend.2
        obtain ⟨calls, c', h2, hf', he⟩ := ih _ (hn ▸ hlt) hf rfl
        exact ⟨[.got 1] :: calls, c', by rw [Conn.run, h1, Res.ok_bind, h2], hf', he⟩

/--
**`do_read` cuts the stream at its message headers.**

However the stream is cut into the results of `recv` and these are spread over
calls, the buffers handed out are the frames of what was read, the read buffer is
the rest of it, and behind a header with a bad length every call fails and nothing
is handed out. So all readers that get to the end hand out the same messages, and
every reader can get there.
-/
theorem doRead_framing (s : List UInt8) (calls : List (List RecvEv)) :
    ∃ c, (Conn.start s).run calls = .ok c
      ∧ c.got ++ c.avail = s
      ∧ c.delivered = (splitFrames 4 msgSize c.got).1
      ∧ c.rb.bytes = (splitFrames 4 msgSize c.got).2
      ∧ c.rb.bufLen = c.rb.bytes.length ∧ c.rb.bufLen ≤ c.rb.target
      ∧ c.delivered <+: (splitFrames 4 msgSize s).1
      ∧ (c.avail = [] ∨ Refused 4 msgSize c.rb.bytes → c.delivered = (splitFrames 4 msgSize s).1)
      ∧ (Refused 4 msgSize c.rb.bytes → ∀ more, ∃ c', c.run more = .ok c'
          ∧ c'.delivered = c.delivered ∧ c'.ok = false)
      ∧ (∃ more c', c.run more = .ok c' ∧ (c'.avail = [] ∨ Refused 4 msgSize c'.rb.bytes))
      ∧ ∀ calls' c', (Conn.start s).run calls' = .ok c' →
          (c.avail = [] ∨ Refused 4 msgSize c.rb.bytes) →
          (c'.avail = [] ∨ Refused 4 msgSize c'.rb.bytes) → c'.delivered = c.delivered := by
  obtain ⟨c, hrun, hf, -⟩ := (Framed.start s).run calls
  have hbytes := hf.buffered.bytes_eq
  refine ⟨c, hrun, hf.stream, hf.delivered, hbytes, ?_, hf.buffered.bufLen_le.2.1,
    hf.delivered_le, ?_, ?_, ?_, ?_⟩
  · rw [hbytes]
    exact hf.buffered.bufLen_le.1
  · rw [hbytes]
    exact hf.complete
  · rw [hbytes]
    intro hr more
    obtain ⟨c', hmore, hf', hp⟩ := hf.run more
    exact ⟨c', hmore, hf.stuck hf' hr hp⟩
  · obtain ⟨more, c', hmore, hf', hend⟩ := hf.finish
    exact ⟨more, c', hmore, by rw [hf'.buffered.bytes_eq]; exact hend⟩
  -- both runs end with all frames of the stream
  · intro calls' c' hrun' hend hend'
    obtain ⟨c₁, h1, hf', -⟩ := (Framed.start s).run calls'
    rw [h1] at hrun'
    obtain rfl := Res.ok.inj hrun'
    rw [hbytes] at hend
    rw [hf'.buffered.bytes_eq] at hend'
    rw [hf.complete hend, hf'.complete hend']

end Disc.Transport
