import Disc.Transport.Handshake

/-!
# Timeouts of requests and the connection counter

`conn_cnt` counts the resets of a peer. A CER, DWR or DPR carries the count of the
moment it is sent, and its timeout resets the peer only if the count is still the
same. The count alone would not be enough: between two resets the connection must
not be replaced. It is only ever set in `PEER_UNCONN`, and no request of the present
count exists there, because sending one leads out of `PEER_UNCONN` and only a reset
leads back.
-/

namespace Disc.Transport

open Disc.Lib Disc.Msg

namespace Core

/-- A count and the moment it was taken at, as the peer sees them now. -/
structure Tagged (c : Core) (info : UInt32) (o : Origin) : Prop where
  past : o.resets ≤ c.resets
  info : info = UInt32.ofNat o.resets
  /-- With no reset in between, the connection is the same. -/
  current : o.resets = c.resets → c.state ≠ .unconn ∧ c.sock = o.sock

/-- Every outstanding request of this layer, and every timeout on its way, has its count right. -/
structure Counted (c : Core) : Prop where
  count : c.connCnt = UInt32.ofNat c.resets
  cells : ∀ l ∈ c.cells, l.payload.internal = true → Tagged c l.payload.info l.payload.origin
  pipe : ∀ info o, .trTimeout info o ∈ c.pipe → Tagged c info o

/-- Anything may change but the count, as long as the connection stays while there is one. -/
theorem Tagged.keep {c c' : Core} {info : UInt32} {o : Origin} (h : Tagged c info o)
    (hr : c'.resets = c.resets) (hs : c.state ≠ .unconn → c'.state ≠ .unconn ∧ c'.sock = c.sock) :
    Tagged c' info o := by
  refine ⟨hr ▸ h.past, h.info, ?_⟩
  intro ho
  obtain ⟨hne, hk⟩ := h.current (ho.trans hr)
  exact ⟨(hs hne).1, (hs hne).2.trans hk⟩

theorem Tagged.reset {c : Core} {info : UInt32} {o : Origin} (h : Tagged c info o) :
    Tagged c.reset info o := by
  refine ⟨Nat.le_succ_of_le h.past, h.info, ?_⟩
  intro ho
  have := h.past
  have : o.resets = c.resets + 1 := ho
  omega

theorem Counted.reset {c : Core} (h : Counted c) : Counted c.reset := by
  refine ⟨?_, fun l hl hi => (h.cells l hl hi).reset, fun info o ho => (h.pipe info o ho).reset⟩
  show c.connCnt + 1 = UInt32.ofNat (c.resets + 1)
  rw [h.count, UInt32.ofNat_add]
  rfl

/-- Cells may go, commands may come and go, and the connection may change where there is none. -/
theorem Counted.keep {c c' : Core} (h : Counted c) (hcnt : c'.connCnt = c.connCnt)
    (hr : c'.resets = c.resets)
    (hs : c.state ≠ .unconn → c'.state ≠ .unconn ∧ c'.sock = c.sock)
    (hcells : ∀ l ∈ c'.cells, l.payload.internal = true → l ∈ c.cells)
    (hpipe : ∀ info o, .trTimeout info o ∈ c'.pipe → .trTimeout info o ∈ c.pipe) : Counted c' := by
  refine ⟨by rw [hcnt, hr]; exact h.count, ?_, ?_⟩
  · intro l hl hi
    exact (h.cells l (hcells l hl hi) hi).keep hr hs
  · intro info o ho
    exact (h.pipe info o (hpipe info o ho)).keep hr hs

/-- Most steps leave the state and the connection alone. -/
theorem Counted.still {c c' : Core} (h : Counted c) (hcnt : c'.connCnt = c.connCnt)
    (hr : c'.resets = c.resets) (hst : c'.state = c.state) (hk : c'.sock = c.sock)
    (hcells : ∀ l ∈ c'.cells, l.payload.internal = true → l ∈ c.cells)
    (hpipe : ∀ info o, .trTimeout info o ∈ c'.pipe → .trTimeout info o ∈ c.pipe) : Counted c' :=
  h.keep hcnt hr (fun hne => ⟨by rw [hst]; exact hne, hk⟩) hcells hpipe

/-- A write may put the peer into error and a close into the pipe. -/
theorem Counted.wrote {c c' : Core} {k : WriteKind} (h : Counted c) (hw : Wrote k c c') :
    Counted c' := by
  cases hw with
  | whole bs => exact h.still rfl rfl rfl rfl (fun _ hl _ => hl) (fun _ _ ho => ho)
  | broken rs hrs =>
      refine h.keep rfl rfl (fun _ => ⟨by simp, rfl⟩) (fun _ hl _ => hl) ?_
      intro info o ho
      simpa using ho

/-- A request of this layer goes out on the connection, and the peer leaves `PEER_UNCONN` for good. -/
theorem Counted.requested {c c' : Core} {code : Nat} {st : PeerState} (h : Counted c)
    (hw : Requested c code c') (hst : st ≠ .unconn) : Counted { c' with state := st } := by
  obtain ⟨hc, lab, hw⟩ := hw
  have hnew : Tagged { c with state := st } c.connCnt ⟨c.sock, c.resets⟩ :=
    ⟨Nat.le_refl _, h.count, fun _ => ⟨hst, rfl⟩⟩
  have hold : ∀ info o, Tagged c info o → Tagged { c with state := st } info o :=
    fun info o ht => ht.keep rfl fun _ => ⟨hst, rfl⟩
  have hcells : ∀ l ∈ c.cells ++ [⟨hc, lab, c.internalTrans code⟩], l.payload.internal = true →
      Tagged { c with state := st } l.payload.info l.payload.origin := by
    intro l hl hi
    rcases List.mem_append.mp hl with hl | hl
    · exact hold _ _ (h.cells l hl hi)
    · obtain rfl := List.mem_singleton.mp hl
      exact hnew
  have hstate : Counted { c.start hc lab (c.internalTrans code) with state := st } := by
    refine ⟨h.count, ?_, ?_⟩
    · intro l hl hi
      exact (hcells l hl hi).keep rfl fun hne => ⟨hne, rfl⟩
    · intro info o ho
      exact (hold _ _ (h.pipe info o ho)).keep rfl fun hne => ⟨hne, rfl⟩
  -- what the write did to the state is overwritten, the rest does not matter here
  cases hw with
  | whole bs => exact hstate.still rfl rfl rfl rfl (fun _ hl _ => hl) (fun _ _ ho => ho)
  | broken rs hrs =>
      refine hstate.still rfl rfl rfl rfl (fun _ hl _ => hl) ?_
      intro info o ho
      simpa [start] using ho

/-- A new connection for a peer that has none. -/
theorem Counted.connect {c : Core} (h : Counted c) (hs : c.state = .unconn) (s : Nat) (f : UInt8) :
    Counted { c with flags := f, sock := some s } :=
  h.keep rfl rfl (fun hne => absurd hs hne) (fun _ hl _ => hl) (fun _ _ ho => ho)

theorem Counted.exec {op : Op} {cmd : Cmd} {c c' : Core} (h : Counted c) (he : Exec op cmd c c') :
    Counted c' := by
  cases he with
  | skipOpen => exact h
  | connectFailed => exact h.reset
  | connectInProg hcmd hs => exact h.connect hs _ _
  | connected hcmd hs hw => exact (h.connect hs _ _).requested hw (by decide)
  | connectedFailed hcmd hs => exact (h.connect hs _ _).reset
  | accepted hs =>
      split
      · exact h.keep rfl rfl (fun hne => absurd hs hne) (fun _ hl _ => hl) (fun _ _ ho => ho)
      · exact h.keep rfl rfl (fun hne => absurd hs hne) (fun _ hl _ => hl) (fun _ _ ho => ho)
  | inactivSkip => exact h
  | inactivSent hs hw => exact h.requested hw (by decide)
  | closeSkip => exact h
  | close => exact h.reset
  | reconnSkip => exact h
  | reconn =>
      refine h.still rfl rfl rfl rfl (fun _ hl _ => hl) ?_
      intro info o ho
      simpa using ho
  | cerSkip => exact h
  | cer => exact h.reset
  | trSkip => exact h
  | tr => exact h.reset

theorem Counted.drop {c : Core} (h : Counted c) (p : HLink Trans → Bool) (id : Nat) :
    Counted (c.drop p id) :=
  h.still rfl rfl rfl rfl (fun _ hl _ => List.mem_of_mem_eraseP hl) (fun _ _ ho => ho)

theorem Counted.handled {buf : List UInt8} {c c' : Core} (h : Counted c) (hh : Handled buf c c') :
    Counted c' := by
  cases hh with
  | ignored => exact h
  | cea hr hs =>
      exact h.keep rfl rfl (fun _ => ⟨by simp, rfl⟩) (fun _ hl _ => hl) (fun _ _ ho => ho)
  | @cer c₁ c₂ caps hr hs hw =>
      have h₁ : Counted { c₁ with ceLog := c₁.ceLog ++ [⟨c₁.sock, true, buf, caps⟩] } := by
        rcases hs with ⟨-, rfl⟩ | ⟨-, rfl⟩
        · exact h.still rfl rfl rfl rfl (fun _ hl _ => hl) (fun _ _ ho => ho)
        · exact h.still rfl rfl rfl rfl (fun _ hl _ => hl) (fun _ _ ho => ho)
      exact (h₁.wrote hw).keep rfl rfl (fun _ => ⟨by simp, rfl⟩) (fun _ hl _ => hl)
        (fun _ _ ho => ho)
  | @gaveUp c₁ c₂ l t hs h₁ hw =>
      have hc₁ : Counted c₁ := by
        rw [h₁]
        exact h.still rfl rfl rfl rfl (fun _ hl _ => hl) (fun _ _ ho => ho)
      rcases hw.wrote with rfl | ⟨_, _, hw⟩
      · exact hc₁.reset
      · exact (hc₁.wrote hw).reset
  | dwr hr hs hw => exact h.wrote hw
  | dwa hr hs =>
      exact h.keep rfl rfl (fun _ => ⟨by simp, rfl⟩) (fun _ hl _ => hl) (fun _ _ ho => ho)

theorem Counted.step {op : Op} {c c' : Core} (h : Counted c) (hst : Step op c c') : Counted c' := by
  -- a command that is no timeout of a request carries no count
  have hmore : ∀ cmd, (∀ info o, cmd ≠ .trTimeout info o) →
      Counted { c with pipe := c.pipe ++ [cmd] } := by
    intro cmd hne
    refine h.still rfl rfl rfl rfl (fun _ hl _ => hl) ?_
    intro info o ho
    rcases List.mem_append.mp ho with ho | ho
    · exact ho
    · exact absurd (List.mem_singleton.mp ho).symm (hne info o)
  cases hst with
  | idle => exact h
  | exec hp he =>
      refine Counted.exec ?_ he
      refine h.still rfl rfl rfl rfl (fun _ hl _ => hl) ?_
      intro info o ho
      rw [hp]
      exact List.mem_cons_of_mem _ ho
  | request hr hh => exact h.handled hh
  | answer hr hc hfind hh => exact (h.drop _ _).handled hh
  | enqueue => exact h.still rfl rfl rfl rfl (fun _ hl _ => hl) (fun _ _ ho => ho)
  | broke => exact h.reset
  | pendingFailed => exact h.reset
  | pendingDone hs hsock hw => exact (h.connect hs _ _).requested hw (by decide)
  | pendingRefused hs hsock => exact (h.connect hs _ _).reset
  | hangup hs hw => exact h.requested hw (by decide)
  | hangupFailed => exact h.reset
  -- the transactions of the workers carry no count
  | @sendReq _ _ hc lab tr hs ht hid hw =>
      have hstart : Counted (c.start hc lab tr) := by
        refine h.still rfl rfl rfl rfl ?_ (fun _ _ ho => ho)
        intro l hl hi
        rcases List.mem_append.mp hl with hl | hl
        · exact hl
        · obtain rfl := List.mem_singleton.mp hl
          exact absurd hi (by simp [ht])
      exact hstart.wrote hw
  | sendRes hs hw => exact h.wrote hw
  | workSkip => exact h.still rfl rfl rfl rfl (fun _ hl _ => hl) (fun _ _ ho => ho)
  | work =>
      exact h.still rfl rfl rfl rfl (fun _ hl _ => List.mem_of_mem_eraseP hl) (fun _ _ ho => ho)
  | accept => exact hmore _ (by simp)
  | reconnExpired =>
      split
      · exact (hmore .reconnTimeout (by simp)).still rfl rfl rfl rfl (fun _ hl _ => hl)
          (fun _ _ ho => ho)
      · exact h.still rfl rfl rfl rfl (fun _ hl _ => hl) (fun _ _ ho => ho)
  | @cerExpired _ k =>
      exact (hmore (.cerTimeout k) (by simp)).still rfl rfl rfl rfl (fun _ hl _ => hl)
        (fun _ _ ho => ho)
  | inactiv => exact hmore _ (by simp)
  | @transExpired _ l hfind =>
      dsimp only
      have hd := h.drop (fun x => x.payload.id == l.payload.id) l.payload.id
      split
      · -- the timeout of a request carries what its transaction carried
        rename_i hi
        have htag := h.cells l (List.mem_of_find?_eq_some hfind) hi
        refine ⟨hd.count, fun x hx hxi => (hd.cells x hx hxi).keep rfl fun hne => ⟨hne, rfl⟩, ?_⟩
        intro info o ho
        rcases List.mem_append.mp ho with ho | ho
        · exact (hd.pipe info o ho).keep rfl fun hne => ⟨hne, rfl⟩
        · obtain ⟨rfl, rfl⟩ := Cmd.trTimeout.inj (List.mem_singleton.mp ho)
          exact htag.keep rfl fun hne => ⟨hne, rfl⟩
      · exact hd
  | orphanExpired => exact h.still rfl rfl rfl rfl (fun _ hl _ => hl) (fun _ _ ho => ho)

end Core

/-- The counts are right in every reachable world. -/
theorem counted_reachable {cfg : Cfg} {w : World} (h : World.Reachable cfg w) :
    Core.Counted w.core := by
  refine Reach.invariant (I := fun w => Core.Counted w.core) ?_ ?_ h
  · intro s hs
    rw [World.core_init hs]
    exact ⟨rfl, by simp, by simp⟩
  · intro s a s' hi _ hst
    obtain ⟨op, hstep, -⟩ := World.step_core hst
    exact hi.step hstep

/-- Counts below `2 ^ 32` are told apart by their low 32 bits. -/
theorem ofNat_inj {a b : Nat} (ha : a < 2 ^ 32) (hb : b < 2 ^ 32)
    (h : UInt32.ofNat a = UInt32.ofNat b) : a = b := by
  have := congrArg UInt32.toNat h
  rw [UInt32.toNat_ofNat_of_lt' ha, UInt32.toNat_ofNat_of_lt' hb] at this
  exact this

/--
**A timeout of a request resets only the connection the request was sent on.**

The timeout is the first command of the pipe and the receive thread executes it. If
that resets the peer, in a run with fewer than `2 ^ 32` resets so far, then the
connection of the peer is the one on which the CER, DWR or DPR went out.
-/
theorem reachable_trTimeout {cfg : Cfg} {w w' : World} {env : Env} {io : SockEnv} {info : UInt32}
    {o : Origin} {rest : List Cmd} (h : World.Reachable cfg w) (hlt : w.resets < 2 ^ 32)
    (hp : w.pipe = .trTimeout info o :: rest) (hst : World.step cfg w (.exec env io) = some w')
    (hreset : w'.resets ≠ w.resets) : ∃ k, o.sock = some k ∧ w.sock = some k := by
  have hi := counted_reachable h
  have htag : Core.Tagged w.core info o := hi.pipe info o (by
    show _ ∈ w.pipe
    rw [hp]
    exact List.mem_cons_self)
  obtain ⟨op, he, -⟩ := World.step_exec hp hst
  rcases he.tr_cases with hc' | ⟨-, hinfo⟩
  · exact absurd (congrArg Core.resets hc') hreset
  · have hinfo : info = w.core.connCnt := hinfo
    -- equal modulo 2^32, and both below it
    have hcount : UInt32.ofNat o.resets = UInt32.ofNat w.core.resets := by
      rw [← htag.info, hinfo, hi.count]
    have hle : o.resets < 2 ^ 32 := Nat.lt_of_le_of_lt htag.past hlt
    obtain ⟨hu, hk⟩ := htag.current (ofNat_inj hle hlt hcount)
    obtain ⟨k, hsome⟩ := (shaken_reachable h).sock hu
    exact ⟨k, hk ▸ hsome, hsome⟩

/-- A connect succeeds, and the CER is never answered. -/
theorem reachable_trTimeout_cer :
    ∃ w w', World.Reachable sampleCfg w ∧ w.resets < 2 ^ 32
      ∧ w.pipe = [.trTimeout 0 ⟨some 1, 0⟩]
      ∧ World.step sampleCfg w (.exec sampleEnv sampleIo) = some w' ∧ w'.resets ≠ w.resets
      ∧ ∃ k, (⟨some 1, 0⟩ : Origin).sock = some k ∧ w.sock = some k := by
  obtain ⟨w, hr, hw⟩ := @World.Reachable.of_trace _ sampleCfg
    (Act.exec sampleEnv sampleIo :: List.replicate 10 Act.tick ++ [Act.expireTrans 0])
    (fun w => (w.resets, w.pipe,
      (World.step sampleCfg w (.exec sampleEnv sampleIo)).map (·.resets)))
    (0, [.trTimeout 0 ⟨some 1, 0⟩], some 1) (by decide +kernel)
  simp only [Prod.mk.injEq] at hw
  obtain ⟨h0, hp, hs⟩ := hw
  obtain ⟨w', hst, h1⟩ := Option.map_eq_some_iff.mp hs
  have hlt : w.resets < 2 ^ 32 := by omega
  have hne : w'.resets ≠ w.resets := by omega
  exact ⟨w, w', hr, hlt, hp, hst, hne, reachable_trTimeout hr hlt hp hst hne⟩

end Disc.Transport
