import Disc.Transport.Read

/-!
# A socket whose bytes come in bursts

`do_read` of `tcp_receive.c` is called when `select` finds the socket readable, as long as
there is something to read. A stream comes in bursts: all of a burst is there at once, and
a `recv` that finds it used up would block. How the bytes of a burst are spread over the
`recv`s is free.

A `Round` is what a thread does when `select` reports the socket. The thread of
`do_receive` calls `do_read` and closes the connection when that fails.
-/

namespace Disc.Transport

open Disc.Lib Disc.Msg

/-- The bytes between two points where a reader would block. -/
structure Burst where
  bytes : List UInt8
  /-- For each call of `do_read`: its `recv`s return at most one byte more than this. -/
  caps : List (List Nat)
deriving Repr, DecidableEq

/-- What the bursts bring. -/
def stream (bursts : List Burst) : List UInt8 := bursts.flatMap Burst.bytes

@[simp] theorem stream_nil : stream [] = [] := rfl

theorem stream_cons (b : Burst) (bursts : List Burst) :
    stream (b :: bursts) = b.bytes ++ stream bursts := List.flatMap_cons

theorem stream_append (a b : List Burst) : stream (a ++ b) = stream a ++ stream b :=
  List.flatMap_append

/-- The `recv`s of a call; behind `caps` each gets what it asks for, and with nothing left it would block. -/
def schedule (caps : List Nat) (avail : List UInt8) : List RecvEv :=
  caps.map (fun n => .got (n + 1)) ++ List.replicate (avail.length + 1) (.got avail.length)

/-- A connection: its read buffer, the messages that came out, and whether it is open. -/
structure Link where
  rb : ReadBuf
  msgs : List (List UInt8)
  isOpen : Bool
deriving Repr, DecidableEq

def Link.fresh : Link := ⟨.empty, [], true⟩

/-- What a thread does with a readable socket; it leaves the bytes it did not read. -/
abbrev Round := List RecvEv → List UInt8 → Link → Res (Link × List UInt8)

/-- The round of `do_receive`; `TCP_CONN_CLOSE` closes the connection. -/
def receive : Round := fun evs avail l => do
  let out ← doRead evs l.rb avail
  return (⟨out.rb, l.msgs ++ out.msg.toList, out.ok⟩, out.avail)

/-- Rounds as long as the socket is open and has something. -/
def drain (round : Round) : Nat → List (List Nat) → List UInt8 → Link → Res Link
  | 0, _, avail, l => if avail = [] ∨ l.isOpen = false then .ok l else .diverge
  | n + 1, caps, avail, l =>
      if avail = [] ∨ l.isOpen = false then .ok l
      else do
        let (l, avail) ← round (schedule (caps.headD []) avail) avail l
        drain round n caps.tail avail l

/-- The rounds of all bursts. -/
def readBursts (round : Round) : List Burst → Link → Res Link
  | [], l => .ok l
  | b :: bursts, l => do
      let l ← drain round b.bytes.length b.caps b.bytes l
      readBursts round bursts l

/-- All messages of a connection that ends, or does not, behind the last burst. -/
def obtained (round : Round) (bursts : List Burst) (ending : RecvEv) :
    Res (List (List UInt8)) := do
  let l ← readBursts round bursts .fresh
  if l.isOpen then do
    let (l, _) ← round [ending] [] l
    return l.msgs
  else return l.msgs

/-! ## The thread of `do_receive` -/

/-- The messages and the rest of a stream. -/
abbrev frames (s : List UInt8) : List (List UInt8) × List UInt8 := splitFrames 4 msgSize s

/-- A connection that has read `got`. -/
structure Stands (got : List UInt8) (l : Link) : Prop where
  msgs : l.msgs = (frames got).1
  buffered : Buffered l.rb (frames got).2 ∨ l.isOpen = false
  closed : l.isOpen = false ↔ Refused 4 msgSize (frames got).2

theorem frames_nil : frames [] = ([], []) := splitFrames_none rfl

theorem frames_append (s t : List UInt8) :
    frames (s ++ t)
      = ((frames s).1 ++ (frames ((frames s).2 ++ t)).1, (frames ((frames s).2 ++ t)).2) :=
  splitFrames_append s t

variable {l : Link} {got avail : List UInt8}

theorem Stands.fresh : Stands [] .fresh := by
  refine ⟨by rw [frames_nil]; rfl, .inl ?_, ?_⟩
  · rw [frames_nil]
    exact Buffered.empty
  · rw [frames_nil]
    exact ⟨fun h => absurd h (by simp [Link.fresh]), fun h => absurd h.1 (by simp)⟩

/-- What comes after a refused header changes nothing. -/
theorem Stands.ignore (h : Stands got l) (hl : l.isOpen = false) (x : List UInt8) :
    Stands (got ++ x) l := by
  have hr := h.closed.mp hl
  have hx : frames ((frames got).2 ++ x) = ([], (frames got).2 ++ x) := hr.splitFrames_eq x
  refine ⟨?_, .inr hl, iff_of_true hl ?_⟩
  · rw [frames_append, hx, List.append_nil]
    exact h.msgs
  · rw [frames_append, hx]
    refine ⟨by rw [List.length_append]; have := hr.1; omega, ?_⟩
    rw [List.take_append_of_le_length hr.1]
    exact hr.2

/-- The first `recv` of a call gets something. -/
theorem schedule_recv (caps : List Nat) (hne : avail ≠ []) {wantedLen : Nat} (hw : wantedLen ≠ 0) :
    ∃ ev rest bs, schedule caps avail = ev :: rest ∧ recv ev wantedLen avail = .bytes bs := by
  have hgot : ∀ n, n ≠ 0 → ∃ bs, recv (.got n) wantedLen avail = .bytes bs := by
    intro n hn
    have hlen := List.length_pos_iff.mpr hne
    have htake : avail.take (min n wantedLen) ≠ [] := by
      rw [ne_eq, List.take_eq_nil_iff]
      rintro (h0 | h0)
      · omega
      · exact hne h0
    exact ⟨_, by rw [recv, if_neg hw]; exact if_neg htake⟩
  cases caps with
  | nil =>
      have hlen := List.length_pos_iff.mpr hne
      obtain ⟨bs, hbs⟩ := hgot avail.length (by omega)
      exact ⟨_, _, bs, rfl, hbs⟩
  | cons n caps =>
      obtain ⟨bs, hbs⟩ := hgot (n + 1) (by omega)
      exact ⟨_, _, bs, rfl, hbs⟩

/-- No `recv` of a schedule meets the end of the connection. -/
theorem schedule_lasts (caps : List Nat) (avail : List UInt8) :
    ¬ (.fin ∈ schedule caps avail ∨ .err ∈ schedule caps avail) := by
  simp [schedule]

/-- **A round** reads some bytes, and hands out what they complete. -/
theorem receive_stands (h : Stands got l) (hl : l.isOpen = true) (caps : List Nat)
    (hne : avail ≠ []) :
    ∃ l' x avail', receive (schedule caps avail) avail l = .ok (l', avail')
      ∧ avail = x ++ avail' ∧ x ≠ [] ∧ Stands (got ++ x) l' := by
  have hb : Buffered l.rb (frames got).2 := h.buffered.resolve_right (by simp [hl])
  have hr : ¬ Refused 4 msgSize (frames got).2 := fun hr =>
    absurd (h.closed.mpr hr) (by simp [hl])
  obtain ⟨out, hout, hadv, hok⟩ := doRead_advanced (schedule caps avail) hb avail
  obtain ⟨x, hx, hmsg, hbuf, hfail⟩ := hadv.taken
  refine ⟨⟨out.rb, l.msgs ++ out.msg.toList, out.ok⟩, x, out.avail, ?_, hx, ?_, ?_⟩
  · rw [receive, hout, Res.ok_bind, Res.pure_eq]
  · rintro rfl
    obtain ⟨ev, rest, bs, hev, hbs⟩ := schedule_recv caps hne (hb.waiting hr)
    rw [hb.doRead_eq] at hout
    have hsuf := ((doReadLoop_suffix _ hout).2 ev rest bs hev hbs).length_le
    have hpos := List.length_pos_iff.mpr (recv_bytes hbs).1
    have hlen := congrArg List.length hx
    have havail := List.length_pos_iff.mpr hne
    rw [List.length_drop] at hsuf
    simp only [List.nil_append] at hlen
    omega
  · refine ⟨?_, .inl ?_, fun hf => ?_, fun hf => ?_⟩
    · rw [frames_append, ← h.msgs, hmsg]
    · rw [frames_append]
      exact hbuf
    · have hrest := (hok hf).resolve_left (schedule_lasts caps avail)
      rw [hbuf.bytes_eq] at hrest
      rw [frames_append]
      exact hrest
    · rw [frames_append] at hf
      exact hfail hf

theorem drain_stands {n : Nat} (hn : avail.length ≤ n) (h : Stands got l)
    (caps : List (List Nat)) :
    ∃ l', drain receive n caps avail l = .ok l' ∧ Stands (got ++ avail) l' := by
  induction n generalizing got avail l caps with
  | zero =>
      obtain rfl := List.length_eq_zero_iff.mp (Nat.le_zero.mp hn)
      exact ⟨l, if_pos (.inl rfl), by rwa [List.append_nil]⟩
  | succ n ih =>
      rw [drain]
      by_cases hne : avail = []
      · exact ⟨l, if_pos (.inl hne), by rwa [hne, List.append_nil]⟩
      · cases hl : l.isOpen with
        | false => exact ⟨l, if_pos (.inr rfl), h.ignore hl avail⟩
        | true =>
            obtain ⟨l₁, x, rest, hrun, hx, hx0, hs⟩ := receive_stands h hl (caps.headD []) hne
            have hpos := List.length_pos_iff.mpr hx0
            have hlen := congrArg List.length hx
            rw [List.length_append] at hlen
            obtain ⟨l', hdrain, hs'⟩ := ih (show rest.length ≤ n by omega) hs caps.tail
            refine ⟨l', ?_, by rwa [hx, ← List.append_assoc]⟩
            rw [if_neg (by simp [hne]), hrun]
            exact hdrain

theorem readBursts_stands (h : Stands got l) (bursts : List Burst) :
    ∃ l', readBursts receive bursts l = .ok l' ∧ Stands (got ++ stream bursts) l' := by
  induction bursts generalizing got l with
  | nil => exact ⟨l, rfl, by rwa [stream_nil, List.append_nil]⟩
  | cons b bursts ih =>
      obtain ⟨l₁, hdrain, hs⟩ := drain_stands (Nat.le_refl _) h b.caps
      obtain ⟨l', hread, hs'⟩ := ih hs
      refine ⟨l', by rw [readBursts, hdrain, Res.ok_bind, hread], ?_⟩
      rwa [stream_cons, ← List.append_assoc]

/-- Nothing more is read once the connection is closed. -/
theorem readBursts_closed (round : Round) (hl : l.isOpen = false) (bursts : List Burst) :
    readBursts round bursts l = .ok l := by
  have hdrain : ∀ n caps avail, drain round n caps avail l = .ok l := by
    intro n caps avail
    cases n with
    | zero => exact if_pos (.inr hl)
    | succ n => exact if_pos (.inr hl)
  induction bursts with
  | nil => rfl
  | cons b bursts ih => rw [readBursts, hdrain, Res.ok_bind, ih]

/-- **Every message of the stream comes out**, whatever the bursts. -/
theorem obtained_receive (bursts : List Burst) (ending : RecvEv) :
    obtained receive bursts ending = .ok (frames (stream bursts)).1 := by
  obtain ⟨l, hread, hs⟩ := readBursts_stands Stands.fresh bursts
  rw [List.nil_append] at hs
  rw [obtained, hread, Res.ok_bind]
  cases hl : l.isOpen with
  | false => rw [← hs.msgs]; rfl
  | true =>
      have hb := hs.buffered.resolve_right (by simp [hl])
      obtain ⟨out, hout, hadv, -⟩ := doRead_advanced [ending] hb []
      obtain ⟨x, hx, hmsg, -⟩ := hadv.taken
      obtain rfl : x = [] := (List.append_eq_nil_iff.mp hx.symm).1
      rw [List.append_nil, splitFrames_none hb.frontFrame_eq] at hmsg
      rw [if_pos rfl, receive, hout, Res.ok_bind, Res.pure_eq, Res.ok_bind, ← hmsg,
        List.append_nil, hs.msgs]
      rfl

end Disc.Transport
