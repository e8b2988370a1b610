import Disc.Transport.Refine

/-!
# What ends a wait

A peer that has sent a CER, DWR or DPR waits for the answer, and the transaction of
the request bounds the wait: it is in the timer list, and when it expires its timeout
resets the peer. So a waiting peer must have that transaction, or its timeout on the
way, or a close because the request could not be written.

The transaction is found by two numbers that the remote node echoes, and any answer
with these numbers takes it out of the table, whatever it answers. An answer of
another kind is then not what the state machine waits for, and nothing is left that
would end the wait. As long as the answers that take out the awaited transaction are
of its kind, every wait is bounded.
-/

namespace Disc.Transport

open Disc.Lib Disc.Msg

/-- The request a waiting peer waits to see answered. -/
def PeerState.awaits : PeerState → Option Nat
  | .waitCea => some ceMsgCode
  | .waitDwa => some dwMsgCode
  | .waitDpa => some dpMsgCode
  | _ => none

namespace Core

/-- The transaction of the request the peer waits for, on the present connection. -/
structure Guards (c : Core) (code : Nat) (tr : Trans) : Prop where
  internal : tr.internal = true
  info : tr.info = c.connCnt
  origin : tr.origin.resets = c.resets
  code : tr.reqCode = code
  timed : tr.id ∈ c.timed

/-- Something will end the wait for an answer to `code`. -/
def Ends (c : Core) (code : Nat) : Prop :=
  (∃ l ∈ c.cells, Guards c code l.payload)
  ∨ (∃ o, .trTimeout c.connCnt o ∈ c.pipe ∧ o.resets = c.resets)
  ∨ ∃ o, .close o ∈ c.pipe ∧ o.resets = c.resets

/-- Every wait will end; and what that rests on. -/
structure Guarded (c : Core) : Prop where
  ends : ∀ code, c.state.awaits = some code → Ends c code
  /-- What the workers get is none of the messages a peer waits for. -/
  queue : ∀ buf ∈ c.queue, ¬ ForPeer buf
  /-- Transactions have addresses of their own. -/
  ids : (c.cells.map (·.payload.id)).Nodup
  fresh : ∀ l ∈ c.cells, l.payload.id < c.nextTrans

/-- Cells, links and commands only come, on the same connection. -/
theorem Ends.mono {c c' : Core} {code : Nat} (h : Ends c code) (hcnt : c'.connCnt = c.connCnt)
    (hr : c'.resets = c.resets) (hcells : ∀ l ∈ c.cells, l ∈ c'.cells)
    (htimed : ∀ i ∈ c.timed, i ∈ c'.timed) (hpipe : ∀ cmd ∈ c.pipe, cmd ∈ c'.pipe) :
    Ends c' code := by
  rcases h with ⟨l, hl, hg⟩ | ⟨o, ho, hor⟩ | ⟨o, ho, hor⟩
  · refine Or.inl ⟨l, hcells l hl, hg.internal, ?_, ?_, hg.code, htimed _ hg.timed⟩
    · rw [hcnt]
      exact hg.info
    · rw [hr]
      exact hg.origin
  · refine Or.inr (Or.inl ⟨o, ?_, hr ▸ hor⟩)
    rw [hcnt]
    exact hpipe _ ho
  · exact Or.inr (Or.inr ⟨o, hpipe _ ho, hr ▸ hor⟩)

/-- In a state that waits for nothing, only the side conditions matter. -/
theorem Guarded.settled {c c' : Core} (h : Guarded c) (hs : c'.state.awaits = none)
    (hq : ∀ buf ∈ c'.queue, buf ∈ c.queue)
    (hids : (c'.cells.map (·.payload.id)).Nodup) (hf : ∀ l ∈ c'.cells, l.payload.id < c'.nextTrans) :
    Guarded c' := by
  refine ⟨?_, fun buf hb => h.queue buf (hq buf hb), hids, hf⟩
  intro code hc
  rw [hs] at hc
  exact absurd hc (by simp)

theorem Guarded.reset {c : Core} (h : Guarded c) : Guarded c.reset :=
  h.settled rfl (fun _ hb => hb) h.ids h.fresh

/-- Nothing that ends a wait goes away. -/
theorem Guarded.keep {c c' : Core} (h : Guarded c) (hs : c'.state = c.state)
    (hcnt : c'.connCnt = c.connCnt) (hr : c'.resets = c.resets) (hcells : c'.cells = c.cells)
    (htimed : c'.timed = c.timed) (hn : c'.nextTrans = c.nextTrans)
    (hq : ∀ buf ∈ c'.queue, buf ∈ c.queue) (hpipe : ∀ cmd ∈ c.pipe, cmd ∈ c'.pipe) :
    Guarded c' := by
  refine ⟨?_, fun buf hb => h.queue buf (hq buf hb), hcells ▸ h.ids, ?_⟩
  · intro code hc
    rw [hs] at hc
    exact (h.ends code hc).mono hcnt hr (fun l hl => hcells ▸ hl) (fun i hi => htimed ▸ hi) hpipe
  · rw [hcells, hn]
    exact h.fresh

/-- A write leaves the wait as it is, or puts the peer into error. -/
theorem Guarded.wrote {c c' : Core} {k : WriteKind} (h : Guarded c) (hw : Wrote k c c') :
    Guarded c' := by
  cases hw with
  | whole bs => exact h.keep rfl rfl rfl rfl rfl rfl (fun _ hb => hb) (fun _ hc => hc)
  | broken rs hrs => exact h.settled rfl (fun _ hb => hb) h.ids h.fresh

/-- A new transaction has an address of its own. -/
theorem Guarded.start {c : Core} (h : Guarded c) {hc lab : UInt32} {tr : Trans}
    (hid : tr.id = c.nextTrans) : Guarded (c.start hc lab tr) := by
  refine ⟨?_, h.queue, ?_, ?_⟩
  · intro code hs
    exact (h.ends code hs).mono rfl rfl (fun _ hl => List.mem_append_left _ hl)
      (fun _ hi => List.mem_append_left _ hi) (fun _ hp => hp)
  · show ((c.cells ++ [(⟨hc, lab, tr⟩ : HLink Trans)]).map (·.payload.id)).Nodup
    rw [List.map_append, List.nodup_append]
    refine ⟨h.ids, by simp, ?_⟩
    -- the new transaction has a number none of the others has
    intro i hi j hj
    obtain ⟨l, hl, rfl⟩ := List.mem_map.mp hi
    obtain rfl : j = tr.id := by simpa using hj
    have := h.fresh l hl
    omega
  · intro l hl
    show l.payload.id < c.nextTrans + 1
    rcases List.mem_append.mp hl with hl | hl
    · exact Nat.lt_succ_of_lt (h.fresh l hl)
    · obtain rfl := List.mem_singleton.mp hl
      show tr.id < _
      omega

/-- A request of this layer goes out, and the peer waits for the answer to it. -/
theorem Guarded.requested {c c' : Core} {code : Nat} {st : PeerState} (h : Guarded c)
    (hw : Requested c code c') (hst : st.awaits = some code) : Guarded { c' with state := st } := by
  obtain ⟨hc, lab, hw⟩ := hw
  have hstart : Guarded (c.start hc lab (c.internalTrans code)) := h.start rfl
  have hends : Ends (c.start hc lab (c.internalTrans code)) code := by
    refine Or.inl ⟨⟨hc, lab, c.internalTrans code⟩, ?_, rfl, rfl, rfl, rfl, ?_⟩
    · exact List.mem_append_right _ (List.mem_singleton.mpr rfl)
    · exact List.mem_append_right _ (List.mem_singleton.mpr rfl)
  cases hw with
  | whole bs =>
      refine ⟨?_, hstart.queue, hstart.ids, hstart.fresh⟩
      intro code' hcode
      obtain rfl : code = code' := Option.some.inj (hst.symm.trans hcode)
      exact hends.mono rfl rfl (fun _ hl => hl) (fun _ hi => hi) (fun _ hp => hp)
  -- also after a failed write: the transaction was linked before
  | broken rs hrs =>
      refine ⟨?_, hstart.queue, hstart.ids, hstart.fresh⟩
      intro code' hcode
      obtain rfl : code = code' := Option.some.inj (hst.symm.trans hcode)
      exact hends.mono rfl rfl (fun _ hl => hl) (fun _ hi => hi)
        (fun _ hp => List.mem_append_left _ hp)

/-- A cell that is not the first one that fits stays when that is taken out. -/
theorem mem_eraseP_of_ne {l x : HLink Trans} {p : HLink Trans → Bool} {cells : List (HLink Trans)}
    (hfind : cells.find? p = some l) (hx : x ∈ cells) (hne : x ≠ l) : x ∈ cells.eraseP p := by
  obtain ⟨hp, as, bs, rfl, has⟩ := List.find?_eq_some_iff_append.mp hfind
  rw [List.eraseP_append_right _ (by simpa using has), List.eraseP_cons_of_pos hp]
  rcases List.mem_append.mp hx with hx | hx
  · exact List.mem_append_left _ hx
  · rcases List.mem_cons.mp hx with rfl | hx
    · exact absurd rfl hne
    · exact List.mem_append_right _ hx

/-- Two cells with one address are the same. -/
theorem Guarded.eq_of_id {c : Core} (h : Guarded c) {l x : HLink Trans} (hl : l ∈ c.cells)
    (hx : x ∈ c.cells) (hid : x.payload.id = l.payload.id) : x = l :=
  List.inj_on_of_nodup_map h.ids hx hl hid

/-- A transaction ends; the wait loses its guard only if it was the one. -/
theorem Guarded.drop {c : Core} (h : Guarded c) {p : HLink Trans → Bool} {l : HLink Trans}
    (hfind : c.cells.find? p = some l) :
    ((∀ code, c.state.awaits = some code → ¬ Guards c code l.payload) →
      Guarded (c.drop p l.payload.id))
    ∧ ∀ st, st.awaits = none → Guarded { c.drop p l.payload.id with state := st } := by
  have hl : l ∈ c.cells := List.mem_of_find?_eq_some hfind
  have hids : ((c.cells.eraseP p).map (·.payload.id)).Nodup :=
    h.ids.sublist (List.eraseP_sublist.map _)
  have hfresh : ∀ x ∈ c.cells.eraseP p, x.payload.id < c.nextTrans :=
    fun x hx => h.fresh x (List.mem_of_mem_eraseP hx)
  refine ⟨?_, ?_⟩
  · intro hnot
    refine ⟨?_, h.queue, hids, hfresh⟩
    intro code hc
    -- what is taken out is not what the peer waits for, and the numbers tell them apart
    rcases h.ends code hc with ⟨x, hx, hg⟩ | hrest
    · have hne : x ≠ l := by
        rintro rfl
        exact hnot code hc hg
      refine Or.inl ⟨x, mem_eraseP_of_ne hfind hx hne, hg.internal, hg.info, hg.origin, hg.code, ?_⟩
      refine List.mem_filter.mpr ⟨hg.timed, ?_⟩
      have : x.payload.id ≠ l.payload.id := fun hid => hne (h.eq_of_id hl hx hid)
      simpa using this
    · exact Or.inr hrest
  · intro st hst
    exact h.settled hst (fun _ hb => hb) hids hfresh

/-- The first command may go if it is neither a close nor a timeout of the present connection. -/
theorem Guarded.pop {c : Core} {cmd : Cmd} {rest : List Cmd} (h : Guarded c) (hp : c.pipe = cmd :: rest)
    (htr : c.state.awaits ≠ none → ∀ o, cmd ≠ .trTimeout c.connCnt o)
    (hcl : c.state.awaits ≠ none → ∀ o, cmd ≠ .close o) : Guarded { c with pipe := rest } := by
  have hmem : ∀ x, x ∈ c.pipe → cmd ≠ x → x ∈ rest := by
    intro x hx hne
    rw [hp] at hx
    rcases List.mem_cons.mp hx with rfl | hx
    · exact absurd rfl hne
    · exact hx
  refine ⟨?_, h.queue, h.ids, h.fresh⟩
  intro code hc
  have hw : c.state.awaits ≠ none := by
    rw [show c.state.awaits = some code from hc]
    simp
  rcases h.ends code hc with ⟨l, hl, hg⟩ | ⟨o, ho, hor⟩ | ⟨o, ho, hor⟩
  · exact Or.inl ⟨l, hl, hg.internal, hg.info, hg.origin, hg.code, hg.timed⟩
  · exact Or.inr (Or.inl ⟨o, hmem _ ho (htr hw o), hor⟩)
  · exact Or.inr (Or.inr ⟨o, hmem _ ho (hcl hw o), hor⟩)

/-- The connection of a peer that waits for nothing may be replaced. -/
theorem Guarded.connect {c : Core} (h : Guarded c) (hs : c.state = .unconn) (pipe : List Cmd)
    (s : Option Nat) (f : UInt8) : Guarded { c with pipe := pipe, flags := f, sock := s } :=
  h.settled (by rw [show _ = c.state from rfl, hs]; rfl) (fun _ hb => hb) h.ids h.fresh

theorem Guarded.exec {op : Op} {cmd : Cmd} {c c' : Core} {rest : List Cmd} (h : Guarded c)
    (hp : c.pipe = cmd :: rest) (he : Exec op cmd { c with pipe := rest } c') : Guarded c' := by
  cases he with
  | skipOpen hcmd hs =>
      refine h.pop hp ?_ ?_
      · rintro - o rfl
        exact absurd hcmd (by simp)
      · rintro - o rfl
        exact absurd hcmd (by simp)
  | connectFailed => exact h.settled rfl (fun _ hb => hb) h.ids h.fresh
  | connectInProg hcmd hs => exact h.connect hs _ _ _
  | connected hcmd hs hw => exact (h.connect hs _ _ _).requested hw rfl
  | connectedFailed => exact h.settled rfl (fun _ hb => hb) h.ids h.fresh
  | accepted hs =>
      split
      · exact h.settled rfl (fun _ hb => hb) h.ids h.fresh
      · exact h.settled rfl (fun _ hb => hb) h.ids h.fresh
  | inactivSkip => exact h.pop hp (by simp) (by simp)
  | inactivSent hs hw =>
      refine Guarded.requested ?_ hw rfl
      exact h.pop hp (by simp) (by simp)
  | closeSkip hs hi =>
      have hs : c.state = .unconn := hs
      exact h.pop hp (by simp) (fun hw => absurd (by rw [hs]; rfl) hw)
  | close => exact h.settled rfl (fun _ hb => hb) h.ids h.fresh
  | reconnSkip => exact h.pop hp (by simp) (by simp)
  | reconn hs =>
      have hs : c.state = .unconn := hs
      exact h.settled (by rw [show _ = c.state from rfl, hs]; rfl) (fun _ hb => hb) h.ids h.fresh
  | cerSkip => exact h.pop hp (by simp) (by simp)
  | cer => exact h.settled rfl (fun _ hb => hb) h.ids h.fresh
  | @trSkip _ info o hs =>
      -- a timeout that is skipped was not for this wait
      refine h.pop hp ?_ (by simp)
      rintro hw o' heq
      obtain ⟨rfl, -⟩ := Cmd.trTimeout.inj heq
      rcases hs with hne | ⟨h₁, h₂, h₃⟩
      · exact hne rfl
      · have h₁ : c.state ≠ .waitCea := h₁
        have h₂ : c.state ≠ .waitDwa := h₂
        have h₃ : c.state ≠ .waitDpa := h₃
        cases hst : c.state <;> simp_all [PeerState.awaits]
  | tr => exact h.settled rfl (fun _ hb => hb) h.ids h.fresh

theorem Guarded.handled {buf : List UInt8} {c c' : Core} (h : Guarded c) (hh : Handled buf c c') :
    Guarded c' := by
  cases hh with
  | ignored => exact h
  | cea => exact h.settled rfl (fun _ hb => hb) h.ids h.fresh
  | @cer c₁ c₂ caps hr hs hw =>
      have h₁ : Guarded { c₁ with ceLog := c₁.ceLog ++ [⟨c₁.sock, true, buf, caps⟩] } := by
        rcases hs with ⟨hs, rfl⟩ | ⟨hs, rfl⟩
        · exact h.keep rfl rfl rfl rfl rfl rfl (fun _ hb => hb) (fun _ hc => hc)
        · exact h.keep rfl rfl rfl rfl rfl rfl (fun _ hb => hb) (fun _ hc => hc)
      have h₂ := h₁.wrote hw
      exact h₂.settled rfl (fun _ hb => hb) h₂.ids h₂.fresh
  | @gaveUp c₁ c₂ l t hs h₁ hw =>
      have hc₁ : Guarded c₁ := by
        rw [h₁]
        exact h.keep rfl rfl rfl rfl rfl rfl (fun _ hb => hb) (fun _ hc => hc)
      rcases hw.wrote with rfl | ⟨_, _, hw⟩
      · exact hc₁.reset
      · exact (hc₁.wrote hw).reset
  | dwr hr hs hw => exact h.wrote hw
  | dwa => exact h.settled rfl (fun _ hb => hb) h.ids h.fresh

/-- Messages of this layer start no transaction. -/
theorem Handled.frame {buf : List UInt8} {c c' : Core} (hh : Handled buf c c') :
    c'.cells = c.cells ∧ c'.queue = c.queue ∧ c'.nextTrans = c.nextTrans := by
  have hwrote : ∀ {d d' : Core} {k : WriteKind}, Wrote k d d' →
      d'.cells = d.cells ∧ d'.queue = d.queue ∧ d'.nextTrans = d.nextTrans := by
    intro d d' k hw
    cases hw with
    | whole bs => exact ⟨rfl, rfl, rfl⟩
    | broken rs hrs => exact ⟨rfl, rfl, rfl⟩
  cases hh with
  | ignored => exact ⟨rfl, rfl, rfl⟩
  | cea => exact ⟨rfl, rfl, rfl⟩
  | cer hr hs hw =>
      have hf := hwrote hw
      rcases hs with ⟨-, rfl⟩ | ⟨-, rfl⟩
      · exact hf
      · exact hf
  | gaveUp hs h₁ hw =>
      subst h₁
      rcases hw.wrote with rfl | ⟨_, _, hw⟩
      · exact ⟨rfl, rfl, rfl⟩
      · have hf := hwrote hw
        exact hf
  | dwr hr hs hw => exact hwrote hw
  | dwa => exact ⟨rfl, rfl, rfl⟩

/-- An answer of the kind the peer waits for ends the wait, one way or the other. -/
theorem Handled.answered {buf : List UInt8} {c c' : Core} (hh : Handled buf c c')
    (hr : isReqBuf buf = false) (hc : c.state.awaits = some (msgCode buf)) :
    c'.state.awaits = none := by
  cases hh with
  | ignored hs =>
      obtain ⟨h₁, h₂, h₃⟩ := hs hr
      cases hst : c.state with
      | waitCea =>
          rw [hst] at hc
          exact absurd ⟨(Option.some.inj hc).symm, hst⟩ h₁
      | waitDwa =>
          rw [hst] at hc
          exact absurd ⟨(Option.some.inj hc).symm, hst⟩ h₂
      | waitDpa =>
          rw [hst] at hc
          exact absurd ⟨(Option.some.inj hc).symm, hst⟩ h₃
      | unconn | conn | error | waitCer => rfl
  | cea => rfl
  | cer hr' => exact absurd (hr.symm.trans hr') (by simp)
  | gaveUp => rfl
  | dwr hr' => exact absurd (hr.symm.trans hr') (by simp)
  | dwa => rfl

/-- An answer that takes out the awaited transaction is of its kind. -/
def Fits (op : Op) (c : Core) : Prop :=
  ∀ buf l, op = .ends buf l → l.payload.internal = true → l.payload.info = c.connCnt →
    c.state.awaits = some l.payload.reqCode → msgCode buf = l.payload.reqCode

/-- A transaction expires, and leaves its timeout if it was of this layer. -/
theorem Guarded.expired {c : Core} {l : HLink Trans} (h : Guarded c)
    (hfind : c.cells.find? (fun x => x.payload.id == l.payload.id) = some l) :
    Guarded (let d := c.drop (fun x => x.payload.id == l.payload.id) l.payload.id
      if l.payload.internal then
        { d with pipe := d.pipe ++ [.trTimeout l.payload.info l.payload.origin] }
      else d) := by
  dsimp only
  obtain ⟨hkeep, hany⟩ := h.drop hfind
  have hconn := hany .conn rfl
  by_cases hg : ∃ code, c.state.awaits = some code ∧ Guards c code l.payload
  · -- the wait now depends on the timeout
    obtain ⟨code, hc, hg⟩ := hg
    rw [if_pos hg.internal]
    refine ⟨?_, hconn.queue, hconn.ids, hconn.fresh⟩
    intro code' hc'
    refine Or.inr (Or.inl ⟨l.payload.origin, ?_, hg.origin⟩)
    refine List.mem_append_right _ (List.mem_singleton.mpr ?_)
    rw [hg.info]
    rfl
  · have hd : Guarded (c.drop (fun x => x.payload.id == l.payload.id) l.payload.id) :=
      hkeep fun code hc hgd => hg ⟨code, hc, hgd⟩
    split
    · exact hd.keep rfl rfl rfl rfl rfl rfl (fun _ hb => hb) (fun _ hp => List.mem_append_left _ hp)
    · exact hd

theorem Guarded.step {op : Op} {c c' : Core} (h : Guarded c) (hfits : Fits op c)
    (hst : Step op c c') : Guarded c' := by
  have hmore : ∀ cmd, Guarded { c with pipe := c.pipe ++ [cmd] } := fun cmd =>
    h.keep rfl rfl rfl rfl rfl rfl (fun _ hb => hb) (fun _ hp => List.mem_append_left _ hp)
  cases hst with
  | idle => exact h
  | exec hp he => exact h.exec hp he
  | request hr hh => exact h.handled hh
  | @answer _ _ buf l hcode hr hfor hfind hh =>
      obtain ⟨hkeep, hany⟩ := h.drop hfind
      by_cases hg : ∃ code, c.state.awaits = some code ∧ Guards c code l.payload
      · -- the awaited answer: the state machine acts on it
        obtain ⟨code, hc, hg⟩ := hg
        have hmsg : msgCode buf = l.payload.reqCode :=
          hfits buf l rfl hg.internal hg.info (by rw [hg.code]; exact hc)
        have hend := hh.answered hr (by rw [hmsg, hg.code]; exact hc)
        obtain ⟨hcells, hqueue, hnext⟩ := hh.frame
        have hconn := hany .conn rfl
        refine hconn.settled hend ?_ ?_ ?_
        · rw [hqueue]
          exact fun _ hb => hb
        · rw [hcells]
          exact hconn.ids
        · rw [hcells, hnext]
          exact hconn.fresh
      · exact (hkeep fun code hc hgd => hg ⟨code, hc, hgd⟩).handled hh
  | @enqueue _ buf hfor =>
      refine ⟨?_, ?_, h.ids, h.fresh⟩
      · intro code hc
        exact (h.ends code hc).mono rfl rfl (fun _ hl => hl) (fun _ hi => hi) (fun _ hp => hp)
      · intro b hb
        rcases List.mem_append.mp hb with hb | hb
        · exact h.queue b hb
        · obtain rfl := List.mem_singleton.mp hb
          exact hfor
  | broke => exact h.reset
  | pendingFailed => exact h.reset
  | pendingDone hs hsock hw =>
      exact (h.connect hs _ _ _).requested hw rfl
  | pendingRefused => exact h.settled rfl (fun _ hb => hb) h.ids h.fresh
  | hangup hs hw => exact h.requested hw rfl
  | hangupFailed => exact h.reset
  | sendReq hs ht hid hw => exact (h.start hid).wrote hw
  | sendRes hs hw => exact h.wrote hw
  | workSkip =>
      exact h.keep rfl rfl rfl rfl rfl rfl (fun _ hb => List.mem_of_mem_eraseIdx hb) (fun _ hp => hp)
  | @work _ i buf l hcode hq hr hfind =>
      obtain ⟨hkeep, -⟩ := h.drop hfind
      -- what a worker takes up answers no request of this layer
      have hd : Guarded (c.drop (·.is hcode (hopbyhopOf buf)) l.payload.id) := by
        refine hkeep ?_
        intro code hc hg
        have hmsg : msgCode buf = l.payload.reqCode :=
          hfits buf l rfl hg.internal hg.info (by rw [hg.code]; exact hc)
        refine h.queue buf hq ?_
        rw [hg.code] at hmsg
        cases hst : c.state with
        | waitCea =>
            rw [hst] at hc
            exact Or.inl (hmsg.trans (Option.some.inj hc).symm)
        | waitDwa =>
            rw [hst] at hc
            exact Or.inr (Or.inl (hmsg.trans (Option.some.inj hc).symm))
        | waitDpa =>
            rw [hst] at hc
            exact Or.inr (Or.inr (hmsg.trans (Option.some.inj hc).symm))
        | unconn | conn | error | waitCer =>
            rw [hst] at hc
            exact absurd hc (by simp [PeerState.awaits])
      exact hd.keep rfl rfl rfl rfl rfl rfl (fun _ hb => List.mem_of_mem_eraseIdx hb) (fun _ hp => hp)
  | accept => exact hmore _
  | reconnExpired =>
      split
      · exact (hmore .reconnTimeout).keep rfl rfl rfl rfl rfl rfl (fun _ hb => hb) (fun _ hp => hp)
      · exact h.keep rfl rfl rfl rfl rfl rfl (fun _ hb => hb) (fun _ hp => hp)
  | @cerExpired _ k =>
      exact (hmore (.cerTimeout k)).keep rfl rfl rfl rfl rfl rfl (fun _ hb => hb) (fun _ hp => hp)
  | inactiv => exact hmore _
  | transExpired hfind => exact h.expired hfind
  | @orphanExpired _ id hn =>
      refine ⟨?_, h.queue, h.ids, h.fresh⟩
      intro code hc
      rcases h.ends code hc with ⟨l, hl, hg⟩ | hrest
      · refine Or.inl ⟨l, hl, hg.internal, hg.info, hg.origin, hg.code, ?_⟩
        exact List.mem_filter.mpr ⟨hg.timed, by simpa using hn l hl⟩
      · exact Or.inr hrest

end Core

namespace World

/-- An answer that takes out the transaction the peer waits for is of the kind of its request. -/
def answersFit (w : World) (a : Act) : Bool :=
  match w.answer a with
  | none => true
  | some buf =>
      match w.selects buf with
      | none => true
      | some l =>
          !(l.payload.internal && l.payload.info == w.connCnt
            && w.state.awaits == some l.payload.reqCode)
          || msgCode buf == l.payload.reqCode

/-- The runs in which that is so. -/
def FittingRun (cfg : Cfg) : World → Prop := Runs cfg fun w a => w.answersFit a = true

/--
A waiting peer has an unanswered transaction of its present connection in the table
and in the timer list, or the timeout of one or a close of that connection in the pipe.
-/
def WaitGuarded (w : World) : Prop :=
  w.state = .waitCea ∨ w.state = .waitDwa ∨ w.state = .waitDpa →
    (∃ l ∈ w.table.cells, l.payload.internal = true ∧ l.payload.info = w.connCnt
      ∧ ∃ e ∈ w.trTimer, e.1 = l.payload.id)
    ∨ (∃ o, .trTimeout w.connCnt o ∈ w.pipe ∧ o.resets = w.resets)
    ∨ ∃ o, .close o ∈ w.pipe ∧ o.resets = w.resets

end World

theorem guarded_fittingRun {cfg : Cfg} {w : World} (h : World.FittingRun cfg w) :
    Core.Guarded w.core := by
  refine Reach.invariant (I := fun w => Core.Guarded w.core) ?_ ?_ h
  · intro s hs
    rw [World.core_init hs]
    exact ⟨by simp [PeerState.awaits], by simp, by simp, by simp⟩
  · intro s a s' hi hok hst
    obtain ⟨op, hstep, hof⟩ := World.step_core hst
    refine hi.step ?_ hstep
    -- the condition of the run, put in terms of the core
    rintro buf l rfl hint hinfo hwait
    obtain ⟨hans, hsel⟩ := hof
    have hinfo : l.payload.info = s.connCnt := hinfo
    have hwait : s.state.awaits = some l.payload.reqCode := hwait
    simpa [World.answersFit, hans, hsel, hint, hinfo, hwait] using hok

/--
**Every wait is bounded in runs whose answers fit.**

In every world of a run in which the answers that take out the awaited transaction
answer its request, a peer that waits for a CEA, DWA or DPA has the transaction of
its request in the table and in the timer list, or the timeout of it or a close of
the connection is on its way.
-/
theorem fittingRun_waitGuarded {cfg : Cfg} {w : World} (h : World.FittingRun cfg w) :
    w.WaitGuarded := by
  intro hs
  have hwait : ∃ code, w.core.state.awaits = some code := by
    rcases hs with hs | hs | hs
    · exact ⟨ceMsgCode, by rw [show w.core.state = _ from hs]; rfl⟩
    · exact ⟨dwMsgCode, by rw [show w.core.state = _ from hs]; rfl⟩
    · exact ⟨dpMsgCode, by rw [show w.core.state = _ from hs]; rfl⟩
  obtain ⟨code, hcode⟩ := hwait
  rcases (guarded_fittingRun h).ends code hcode with ⟨l, hl, hg⟩ | hrest
  · refine Or.inl ⟨l, hl, hg.internal, hg.info, ?_⟩
    obtain ⟨e, he, hid⟩ := List.mem_map.mp hg.timed
    exact ⟨e, he, hid⟩
  · exact Or.inr hrest

/-- A connect succeeds, and the CER is on its way. -/
theorem fittingRun_waitGuarded_cer :
    ∃ w, World.FittingRun sampleCfg w ∧ w.state = .waitCea ∧ w.WaitGuarded := by
  obtain ⟨w, hr, hs⟩ := @World.Runs.of_trace _ sampleCfg World.answersFit
    [.exec sampleEnv sampleIo] (fun w => w.state) .waitCea (by decide +kernel)
  exact ⟨w, hr, hs, fittingRun_waitGuarded hr⟩

/-- A DWA that carries the identifiers of the first request of a peer. -/
def sampleDwa : List UInt8 :=
  buildAns sampleCfg [] (buildReq sampleCfg dwMsgCode []) aaaSuccess

/-- The CER is answered with a DWA: its transaction is gone, and the peer waits for ever. -/
theorem dwa_for_cer_unguarded : ¬ ∀ cfg w, World.Reachable cfg w → w.WaitGuarded := by
  intro hall
  obtain ⟨w, hr, hw⟩ := @World.Reachable.of_trace _ sampleCfg
    [.exec sampleEnv sampleIo, .read sampleEnv [.got 4, .got 65536] sampleDwa]
    (fun w => (w.state, w.table.cells.length, w.pipe)) (.waitCea, 0, []) (by decide +kernel)
  simp only [Prod.mk.injEq] at hw
  obtain ⟨hs, hcells, hp⟩ := hw
  have hnil : w.table.cells = [] := List.eq_nil_of_length_eq_zero hcells
  have hg := hall sampleCfg w hr (Or.inl hs)
  simp [hnil, hp] at hg

end Disc.Transport
