import Disc.Transport.Said

/-!
# Two nodes and the connection between them

Two copies of the peer, one on either side of a TCP connection: `sa` is the descriptor
of the node that connects, `sb` that of the node that accepts. What one of them can read
there is what the other has written there, in that order and not all at once. On every
other connection, and in everything else, each node does what it likes.

A node remembers how far it has read, and the moments it entered `PEER_CONN`.
-/

namespace Disc.Transport

open Disc.Lib Disc.Msg

/-! ## The system -/

/-- A peer enters `PEER_CONN` over a CER or a CEA: what it stores, and the memory there was for it. -/
structure Meeting where
  sock : Option Nat
  isReq : Bool
  mem : CeMem
  caps : Caps
deriving Repr, DecidableEq

/-- One of the two nodes. -/
structure Node where
  w : World
  /-- Bytes taken off the connection so far. -/
  got : Nat
  met : List Meeting

/-- The message brought the peer into `PEER_CONN`. -/
def meeting (w w' : World) (env : Env) : Option (List UInt8) → List Meeting
  | some buf =>
      if msgCode buf = ceMsgCode ∧ w.state ≠ .conn ∧ w'.state = .conn then
        [⟨w.sock, isReqBuf buf, env.ceMem, w'.caps⟩]
      else []
  | none => []

namespace Node

/-- A step of a node, when `stream` was written on the other end of its connection `s`. -/
def step (cfg : Cfg) (s : Nat) (stream : List UInt8) (n : Node) : Act → Option Node
  | .read env evs avail =>
      let avail := if n.w.sock = some s then stream.drop n.got else avail
      match World.step cfg n.w (.read env evs avail), doRead evs n.w.rb avail with
      | some w', .ok out =>
          some { w := w'
                 got := if n.w.sock = some s then n.got + (avail.length - out.avail.length) else n.got
                 met := n.met ++ meeting n.w w' env out.msg }
      | _, _ => none
  | a => (World.step cfg n.w a).map fun w' => { n with w := w' }

/-- A node that has just been started; the descriptor is not handed out yet. -/
def Init (s : Nat) (n : Node) : Prop :=
  World.Init n.w ∧ n.got = 0 ∧ n.met = [] ∧ n.w.nextSock ≤ s

end Node

/-- The node that connects and the one that accepts. -/
structure Pair where
  a : Node
  b : Node

/-- One of them takes a step. -/
inductive PairAct where
  | a (act : Act)
  | b (act : Act)

namespace Pair

/-- The second node got its end of the connection from its accept thread, and in no other way. -/
def accepted (sb : Nat) (w w' : World) : Bool :=
  w.sock = some sb ∨ w'.sock ≠ some sb ∨ w.pipe.head? = some (.accepted sb)

def step (cfgA cfgB : Cfg) (sa sb : Nat) (p : Pair) : PairAct → Option Pair
  | .a act => (p.a.step cfgA sa (p.b.w.said sb) act).map fun a => { p with a }
  | .b act =>
      match p.b.step cfgB sb (p.a.w.said sa) act with
      | some b => if accepted sb p.b.w b.w then some { p with b } else none
      | none => none

def Init (sa sb : Nat) (p : Pair) : Prop := p.a.Init sa ∧ p.b.Init sb

def Reachable (cfgA cfgB : Cfg) (sa sb : Nat) : Pair → Prop :=
  Reach (Init sa sb) (step cfgA cfgB sa sb) anyStep

end Pair

/-! ## One node -/

/-- What a step of a node says about the step of its peer. -/
inductive Node.Stepped (cfg : Cfg) (s : Nat) (stream : List UInt8) (n n' : Node) : Prop
  | quiet {a : Act} (h : World.step cfg n.w a = some n'.w) (ha : ¬ a.Reads) (hgot : n'.got = n.got)
      (hmet : n'.met = n.met)
  | read {env : Env} {evs : List RecvEv} {avail : List UInt8} {out : ReadOut}
      (h : World.step cfg n.w (.read env evs avail) = some n'.w)
      (hout : doRead evs n.w.rb avail = .ok out) (hmet : n'.met = n.met ++ meeting n.w n'.w env out.msg)
      (hgot : (n.w.sock = some s ∧ avail = stream.drop n.got
          ∧ n'.got = n.got + (avail.length - out.avail.length))
        ∨ (n.w.sock ≠ some s ∧ n'.got = n.got))

namespace Node

variable {cfg : Cfg} {s : Nat} {stream : List UInt8} {n n' : Node}

theorem stepped {a : Act} (h : n.step cfg s stream a = some n') : Stepped cfg s stream n n' := by
  have hquiet : ¬ a.Reads → (World.step cfg n.w a).map (fun w' => { n with w := w' }) = some n' →
      Stepped cfg s stream n n' := by
    intro ha h
    obtain ⟨w', hw, rfl⟩ := Option.map_eq_some_iff.mp h
    exact .quiet hw ha rfl rfl
  cases a with
  | read env evs avail =>
      simp only [step] at h
      split at h
      · rename_i w' out hw hout
        obtain rfl := Option.some.inj h
        refine .read hw hout rfl ?_
        by_cases hs : n.w.sock = some s
        · exact Or.inl ⟨hs, if_pos hs, if_pos hs⟩
        · exact Or.inr ⟨hs, if_neg hs⟩
      · exact absurd h (by simp)
  | _ => exact hquiet (by simp [Act.Reads]) h

theorem Stepped.world (h : Stepped cfg s stream n n') : ∃ a, World.step cfg n.w a = some n'.w := by
  cases h with
  | quiet h => exact ⟨_, h⟩
  | read h => exact ⟨_, h⟩

/-- How far the node is in the stream, and that its buffer holds the rest of it. -/
structure Tuned (s : Nat) (stream : List UInt8) (n : Node) : Prop where
  fresh : n.w.ledger.Fresh s → n.got = 0
  got : n.w.sock = some s → n.got ≤ stream.length
  rb : n.w.sock = some s → Buffered n.w.rb (splitFrames 4 msgSize (stream.take n.got)).2

/-- The connection as `do_read` sees it, `g` bytes into the stream. -/
theorem framed_at {rb : ReadBuf} {g : Nat} (hb : Buffered rb (splitFrames 4 msgSize (stream.take g)).2) :
    Framed stream { rb, got := stream.take g, avail := stream.drop g
                    delivered := (splitFrames 4 msgSize (stream.take g)).1, ok := false } :=
  ⟨List.take_append_drop g stream, rfl, hb, fun _ => rfl⟩

/-- **A read moves on in the stream**, and what it hands out is the next frame there. -/
theorem read_at {rb : ReadBuf} {g : Nat} {evs : List RecvEv} {out : ReadOut}
    (hb : Buffered rb (splitFrames 4 msgSize (stream.take g)).2)
    (hout : doRead evs rb (stream.drop g) = .ok out) :
    Buffered out.rb (splitFrames 4 msgSize
      (stream.take (g + ((stream.drop g).length - out.avail.length)))).2
    ∧ ∀ buf, out.msg = some buf → buf ∈ (splitFrames 4 msgSize stream).1 := by
  obtain ⟨c', hc, hf, -⟩ := (framed_at hb).call evs
  rw [Conn.call, hout, Res.ok_bind, Res.pure_eq] at hc
  obtain rfl := Res.ok.inj hc
  refine ⟨?_, fun buf hmsg => hf.delivered_le.subset ?_⟩
  · have hrb := hf.buffered
    dsimp only at hrb
    rw [← List.take_add] at hrb
    exact hrb
  · rw [hmsg]
    exact List.mem_append_right _ (List.mem_singleton.mpr rfl)

theorem Tuned.extend {stream' : List UInt8} (h : Tuned s stream n) (hp : stream <+: stream') :
    Tuned s stream' n := by
  refine ⟨h.fresh, fun hs => Nat.le_trans (h.got hs) hp.length_le, fun hs => ?_⟩
  obtain ⟨more, rfl⟩ := hp
  rw [List.take_append_of_le_length (h.got hs)]
  exact h.rb hs

/-- What is handed out on the connection is a frame of what was written on its other end. -/
theorem Tuned.heard (h : Tuned s stream n) (hs : n.w.sock = some s) {evs : List RecvEv} {out : ReadOut}
    {buf : List UInt8} (hout : doRead evs n.w.rb (stream.drop n.got) = .ok out) (hmsg : out.msg = some buf) :
    buf ∈ (splitFrames 4 msgSize stream).1 := (read_at (h.rb hs) hout).2 buf hmsg

/-- A new connection starts at the beginning of the stream, with an empty buffer. -/
theorem rb_of_fresh (hr : World.Reachable cfg n.w) (hst : Stepped cfg s stream n n')
    (hf : n.w.ledger.Fresh s) (hs' : n'.w.sock = some s) : n'.w.rb = .empty ∧ n'.got = n.got := by
  have hl := World.listens_reachable hr
  have hne : n.w.sock ≠ some s := fun hs => (World.sockets_reachable hr).sock s hs hf
  obtain ⟨a, hw⟩ := hst.world
  obtain ⟨op, hcore, -⟩ := World.step_core hw
  -- only an unconnected peer gets a connection
  have hu : n.w.state = .unconn := by
    rcases hcore.speech.sock with hk | hk | hu
    · exact absurd (hk.symm.trans hs') hne
    · exact absurd (hs'.symm.trans hk) (by simp)
    · exact hu
  cases hst with
  | quiet h ha hgot =>
      refine ⟨?_, hgot⟩
      rcases (World.step_moves (World.sends_any _) ha h).rb.1 with he | he
      · exact he.trans (hl.unconn hu).1
      · exact he
  | read h =>
      obtain ⟨s₀, out, hs₀, hrd, -⟩ := World.read_dispatch h
      exact absurd hrd ((hl.unconn hu).2 s₀ hs₀)

theorem Tuned.step (hr : World.Reachable cfg n.w) (h : Tuned s stream n)
    (hst : Stepped cfg s stream n n') : Tuned s stream n' := by
  have hk := World.sockets_reachable hr
  obtain ⟨a, hw⟩ := hst.world
  obtain ⟨rb, queue, hmv⟩ := World.step_ledger hw
  have huses : n'.w.ledger.Fresh s → n.w.ledger.Fresh s := hmv.sock_source.1 s
  -- a connection begins with an empty buffer and nothing received
  have hnew : n.w.ledger.Fresh s → n'.w.sock = some s →
      n'.got ≤ stream.length ∧ Buffered n'.w.rb (splitFrames 4 msgSize (stream.take n'.got)).2 := by
    intro hf hs'
    obtain ⟨hrb, hgot⟩ := rb_of_fresh hr hst hf hs'
    have hzero : n'.got = 0 := hgot.trans (h.fresh hf)
    have hnil : splitFrames 4 msgSize (stream.take 0) = ([], []) := splitFrames_none rfl
    rw [hrb, hzero, hnil]
    exact ⟨Nat.zero_le _, .empty⟩
  -- one that goes on moves only by what was read from it
  have hold : n.w.sock = some s → n'.w.sock = some s →
      n'.got ≤ stream.length ∧ Buffered n'.w.rb (splitFrames 4 msgSize (stream.take n'.got)).2 := by
    intro hs hs'
    have hnf : ¬ n.w.ledger.Fresh s := hk.sock s hs
    cases hst with
    | quiet hq ha hgot =>
        rcases (World.step_moves (World.sends_any _) ha hq).rb.2.2 s hs' with ⟨-, he⟩ | hf
        · have he : n'.w.rb = n.w.rb := he
          rw [hgot, he]
          exact ⟨h.got hs, h.rb hs⟩
        · exact absurd hf hnf
    | @read env evs avail out hq hout hmet hgot =>
        obtain ⟨-, rfl, hgot⟩ | ⟨hne, -⟩ := hgot
        · have hrb : n'.w.rb = out.rb := by
            obtain ⟨s₀, out', -, hout', hm⟩ := @World.read_moves cfg (fun _ => True) _ _ _ _ _ hq
            obtain rfl : out = out' := Res.ok.inj (hout.symm.trans hout')
            rcases hm with hm | ⟨buf, -, -, hl⟩
            · rcases hm.rb.2.2 s hs' with ⟨-, he⟩ | hf
              · exact he
              · exact absurd hf hnf
            · exact congrArg Ledger.rb hl
          rw [hgot, hrb]
          refine ⟨?_, (read_at (h.rb hs) hout).1⟩
          have hle := h.got hs
          rw [List.length_drop]
          omega
        · exact absurd hs hne
  refine ⟨fun hf => ?_, fun hs' => ?_, fun hs' => ?_⟩
  · have hf₀ := huses hf
    cases hst with
    | quiet hq ha hgot => exact hgot.trans (h.fresh hf₀)
    | read hq hout hmet hgot =>
        rcases hgot with ⟨hs, -⟩ | ⟨-, hgot⟩
        · exact absurd hf₀ (hk.sock s hs)
        · exact hgot.trans (h.fresh hf₀)
  · rcases World.step_sock_source hw hs' with hs | hf
    · exact (hold hs hs').1
    · exact (hnew hf hs').1
  · rcases World.step_sock_source hw hs' with hs | hf
    · exact (hold hs hs').2
    · exact (hnew hf hs').2

end Node

/-! ## Entering `PEER_CONN` -/

namespace World

variable {cfg : Cfg} {w w' : World} {env : Env} {buf : List UInt8}

theorem runProcessCe_success {isReq : Bool} {code : UInt32}
    (h : w.runProcessCe cfg env buf isReq = .ok (code, w')) (hc : code = aaaSuccess) :
    processCe cfg env.ceMem buf isReq = .ok (aaaSuccess, some w'.caps) := by
  unfold runProcessCe at h
  obtain ⟨⟨code', caps⟩, hce, h⟩ := Res.bind_eq_ok h
  rcases processCe_cases hce with ⟨hne, rfl⟩ | ⟨rfl, c, rfl⟩
  · obtain ⟨rfl, -⟩ := Prod.mk.inj (Res.ok.inj h)
    exact absurd hc hne
  · obtain ⟨-, rfl⟩ := Prod.mk.inj (Res.ok.inj h)
    exact hce

theorem caps_sendStdAns {avps req : List UInt8} {res : UInt32} {sent : Bool}
    (h : w.sendStdAns cfg env avps req res = (sent, w')) : w'.caps = w.caps := by
  unfold sendStdAns at h
  split at h
  · obtain ⟨-, rfl⟩ := Prod.mk.inj h
    rfl
  · obtain rfl : (w.safeWrite env.write (.ans (msgCode req) res) (buildAns cfg avps req res)).2 = w' :=
      congrArg Prod.snd h
    cases env.write with
    | failed => rfl
    | wrote n =>
        unfold safeWrite
        dsimp only
        split <;> rfl

theorem meets_onCerReceived {b : Bool} (h : w.onCerReceived cfg env buf = .ok (b, w'))
    (hs : w.state ≠ .conn) (hs' : w'.state = .conn) :
    processCe cfg env.ceMem buf true = .ok (aaaSuccess, some w'.caps) := by
  rcases onCerReceived_cases h with ⟨-, -, rfl⟩ | ⟨u, res, v, sent, v', -, hce, hcea, hk⟩
  · exact absurd hs' hs
  rcases hk with ⟨-, rfl⟩ | ⟨-, hsucc, rfl⟩
  · exact absurd hs' (by simp [closeAndReset])
  · -- sending the CEA does not touch what was stored
    have hcaps : v'.caps = v.caps := caps_sendStdAns hcea
    have hp := runProcessCe_success hce hsucc
    rw [← hcaps] at hp
    exact hp

theorem meets_onCeaReceived {b : Bool} (h : w.onCeaReceived cfg env buf = .ok (b, w'))
    (hs : w.state ≠ .conn) (hs' : w'.state = .conn) :
    processCe cfg env.ceMem buf false = .ok (aaaSuccess, some w'.caps) ∧ w.state = .waitCea := by
  rcases onCeaReceived_cases h with ⟨-, rfl⟩ | ⟨code, v, hwait, hce, hk⟩
  · exact absurd hs' hs
  rcases hk with ⟨-, rfl⟩ | ⟨hsucc, rfl⟩
  · exact absurd hs' (by simp [closeAndReset])
  · have hp := runProcessCe_success hce hsucc
    exact ⟨hp, hwait⟩

theorem state_transactionLookup {ete hbh : UInt32} {tr : Trans} {v : World}
    (h : w.transactionLookup ete hbh = some (tr, v)) : v.state = w.state := by
  unfold transactionLookup at h
  split at h
  · exact absurd h (by simp)
  · obtain ⟨-, rfl⟩ := Prod.mk.inj (Option.some.inj h)
    rfl

/-- **What a peer stores when it enters `PEER_CONN`** is what `process_ce` made of the message. -/
theorem dispatch_meets (h : w.dispatchMessage cfg env buf = .ok w') (hc : msgCode buf = ceMsgCode)
    (hs : w.state ≠ .conn) (hs' : w'.state = .conn) :
    processCe cfg env.ceMem buf (isReqBuf buf) = .ok (aaaSuccess, some w'.caps)
      ∧ (isReqBuf buf = false → w.state = .waitCea) := by
  unfold dispatchMessage at h
  simp only [hc, if_true] at h
  cases hr : isReqBuf buf with
  | true =>
      rw [hr] at h
      obtain ⟨⟨b, v⟩, hm, hk⟩ := Res.bind_eq_ok h
      obtain rfl := Res.ok.inj hk
      have hp := meets_onCerReceived hm hs hs'
      exact ⟨hp, fun hne => absurd hne (by simp)⟩
  | false =>
      rw [hr] at h
      set u : World := { w with lastActivTime := w.jiffies } with hu
      cases htl : u.transactionLookup (endtoendOf buf) (hopbyhopOf buf) with
      -- an answer nobody waits for is dropped before the state machine sees it
      | none =>
          simp only [Bool.false_eq_true, if_false, htl] at h
          obtain rfl := Res.ok.inj h
          exact absurd hs' hs
      | some r =>
          obtain ⟨tr, v⟩ := r
          simp only [Bool.false_eq_true, if_false, htl] at h
          have hv := state_transactionLookup htl
          have hv : v.state = w.state := hv
          obtain ⟨⟨b, v'⟩, hm, hk⟩ := Res.bind_eq_ok h
          obtain rfl := Res.ok.inj hk
          obtain ⟨hp, hwait⟩ := meets_onCeaReceived hm (hv ▸ hs) hs'
          exact ⟨hp, fun _ => hv ▸ hwait⟩

end World

theorem mem_meeting {w w' : World} {env : Env} {msg : Option (List UInt8)} {m : Meeting}
    (h : m ∈ meeting w w' env msg) :
    ∃ buf, msg = some buf ∧ msgCode buf = ceMsgCode ∧ w.state ≠ .conn ∧ w'.state = .conn
      ∧ m = ⟨w.sock, isReqBuf buf, env.ceMem, w'.caps⟩ := by
  cases msg with
  | none => exact absurd h (by simp [meeting])
  | some buf =>
      simp only [meeting] at h
      split at h
      · rename_i hm
        exact ⟨buf, rfl, hm.1, hm.2.1, hm.2.2, List.mem_singleton.mp h⟩
      · exact absurd h (by simp)

namespace Node

variable {cfg : Cfg} {s : Nat} {stream : List UInt8} {n n' : Node}

/-- **A new meeting on the connection**: over a frame of what the other end wrote. -/
theorem Stepped.met (hst : Stepped cfg s stream n n') (h : Tuned s stream n) {m : Meeting}
    (hm : m ∈ n'.met) (hs : m.sock = some s) :
    m ∈ n.met ∨ ∃ buf ∈ (splitFrames 4 msgSize stream).1, msgCode buf = ceMsgCode
      ∧ isReqBuf buf = m.isReq ∧ n.w.sock = some s
      ∧ processCe cfg m.mem buf m.isReq = .ok (aaaSuccess, some m.caps)
      ∧ (m.isReq = false → n.w.state = .waitCea) := by
  cases hst with
  | quiet hq ha hgot hmet =>
      rw [hmet] at hm
      exact Or.inl hm
  | @read env evs avail out hq hout hmet hgot =>
      rw [hmet] at hm
      rcases List.mem_append.mp hm with hm | hm
      · exact Or.inl hm
      -- met in this step: over a message that was read, and it is one of the stream
      · obtain ⟨buf, hmsg, hc, hne, hconn, rfl⟩ := mem_meeting hm
        obtain ⟨s₀, out', -, -, hout', hd⟩ := World.read_dispatch hq
        obtain rfl : out = out' := Res.ok.inj (hout.symm.trans hout')
        have hmeets := World.dispatch_meets (hd buf hmsg) hc hne hconn
        obtain ⟨hp, hwait⟩ := hmeets
        have hs : n.w.sock = some s := hs
        rcases hgot with ⟨-, rfl, -⟩ | ⟨hns, -⟩
        · exact Or.inr ⟨buf, h.heard hs hout hmsg, hc, rfl, hs, hp, hwait⟩
        · exact absurd hs hns

theorem Stepped.met_mono (hst : Stepped cfg s stream n n') {m : Meeting} (hm : m ∈ n.met) : m ∈ n'.met := by
  cases hst with
  | quiet hq ha hgot hmet => exact hmet ▸ hm
  | read hq hout hmet hgot => exact hmet ▸ List.mem_append_left _ hm

/-- What a node stored when it met the other is what it stores as long as it has the connection. -/
structure Keeps (s : Nat) (n : Node) : Prop where
  fresh : ∀ m ∈ n.met, m.sock = some s → ¬ n.w.ledger.Fresh s
  state : ∀ m ∈ n.met, m.sock = some s → n.w.sock = some s → n.w.core.Up ∨ n.w.state = .error
  caps : ∀ m ∈ n.met, m.sock = some s → n.w.sock = some s → n.w.caps = m.caps

/-- A new meeting is with the state and with what is stored now. -/
theorem Stepped.met_now (hst : Stepped cfg s stream n n') {m : Meeting} (hm : m ∈ n'.met) :
    m ∈ n.met ∨ (m.sock = n.w.sock ∧ n'.w.state = .conn ∧ n'.w.caps = m.caps) := by
  cases hst with
  | quiet hq ha hgot hmet =>
      rw [hmet] at hm
      exact Or.inl hm
  | read hq hout hmet hgot =>
      rw [hmet] at hm
      rcases List.mem_append.mp hm with hm | hm
      · exact Or.inl hm
      · obtain ⟨buf, -, -, -, hconn, rfl⟩ := mem_meeting hm
        exact Or.inr ⟨rfl, hconn, rfl⟩

theorem Keeps.step (hr : World.Reachable cfg n.w) (h : Keeps s n) (hst : Stepped cfg s stream n n') :
    Keeps s n' := by
  have hk := World.sockets_reachable hr
  obtain ⟨a, hw⟩ := hst.world
  obtain ⟨op, hcore, -⟩ := World.step_core hw
  obtain ⟨rb, queue, hmv⟩ := World.step_ledger hw
  have huses : n'.w.ledger.Fresh s → n.w.ledger.Fresh s := hmv.sock_source.1 s
  -- a connection on which there was a meeting is not a new one
  have hsock : ∀ m ∈ n.met, m.sock = some s → n'.w.sock = some s → n.w.sock = some s := by
    intro m hm hs hs'
    rcases World.step_sock_source hw hs' with hs₀ | hf
    · exact hs₀
    · exact absurd hf (h.fresh m hm hs)
  refine ⟨fun m hm hs => ?_, fun m hm hs hs' => ?_, fun m hm hs hs' => ?_⟩
  · rcases hst.met_now hm with hm | ⟨hms, -, -⟩
    · exact fun hf => h.fresh m hm hs (huses hf)
    · exact fun hf => hk.sock s (hms.symm.trans hs) (huses hf)
  · rcases hst.met_now hm with hm | ⟨-, hconn, -⟩
    · refine hcore.speech.up_or_error (h.state m hm hs (hsock m hm hs hs')) ?_
      have hs' : n'.w.core.sock = some s := hs'
      simp [hs']
    · exact Or.inl (Or.inl hconn)
  · rcases hst.met_now hm with hm | ⟨-, -, hcaps⟩
    · have hs₀ := hsock m hm hs hs'
      have hup := h.state m hm hs hs₀
      refine (World.step_caps hk hw hs₀ hs' ⟨fun hst => ?_, fun hst => ?_⟩).trans (h.caps m hm hs hs₀)
      · have hst : n.w.core.state = .waitCer := hst
        rcases hup with (hup | hup | hup) | hup <;> exact absurd (hst.symm.trans hup) (by decide)
      · have hst : n.w.core.state = .waitCea := hst
        rcases hup with (hup | hup | hup) | hup <;> exact absurd (hst.symm.trans hup) (by decide)
    · exact hcaps

/-- The node that is called has not met the other, or it just did. -/
theorem Stepped.unmet (hr : World.Reachable cfg n.w) (hst : Stepped cfg s stream n n')
    (hi : World.Unmet cfg s n.w)
    (htake : n'.w.sock = some s → n.w.sock ≠ some s → ∃ rest, n.w.pipe = .accepted s :: rest) :
    World.Unmet cfg s n'.w ∨ ∃ m ∈ n'.met, m.sock = some s ∧ m.isReq = true := by
  cases hst with
  | @quiet a hq ha hgot hmet =>
      rcases World.unmet_step hr hi hq htake with hi' | ⟨-, -, -, buf, hmsg, -⟩
      · exact Or.inl hi'
      -- nobody is met without a message
      · obtain ⟨_, _, _, _, rfl, -⟩ := World.message_read hmsg
        exact absurd trivial ha
  | @read env evs avail out hq hout hmet hgot =>
      rcases World.unmet_step hr hi hq htake with hi' | ⟨hs, hne, hconn, buf, hmsg, hc, hreq⟩
      · exact Or.inl hi'
      · simp only [World.message, hout] at hmsg
        refine Or.inr ⟨⟨n.w.sock, isReqBuf buf, env.ceMem, n'.w.caps⟩, ?_, hs, hreq⟩
        rw [hmet, hmsg]
        refine List.mem_append_right _ ?_
        simp only [meeting]
        rw [if_pos ⟨hc, hne, hconn⟩]
        exact List.mem_singleton.mpr rfl

end Node

/-! ## The records of a connection, read back -/

theorem msgSize_pos : ∀ hdr n, msgSize hdr = some n → 4 ≤ n ∧ 0 < n := by
  intro hdr n h
  have := msgSize_some h
  omega

/-- A message that went out whole; and if it is one of a worker, it is a frame and not a CEA. -/
def WriteRec.Sound (r : WriteRec) : Prop :=
  r.whole = true ∧ (r.kind = .request ∨ r.kind = .response →
    IsFrame r.bytes ∧ ¬ (msgCode r.bytes = ceMsgCode ∧ isReqBuf r.bytes = false))

theorem bytes_of_whole {r : WriteRec} {buf : List UInt8} {n : Nat} (hb : r.bytes = buf.take n)
    (hw : r.whole = true → buf.length ≤ n) (h : r.whole = true) : r.bytes = buf := by
  rw [hb, List.take_of_length_le (hw h)]

theorem length_dprAvp (cause : UInt32) : (dprAvp cause).length ≤ 4096 := by
  have h := @length_putAvp 273 0x40 (be 4 cause.toNat) (by rw [length_be]; decide)
  rw [length_be] at h
  unfold dprAvp
  omega

/-- **A sound record is a frame, and if it is a CEA it is the one of this node.** -/
theorem sound_record {cfg : Cfg} {w : World} (hs : cfg.Sized) (hr : World.Reachable cfg w) {r : WriteRec}
    (hmem : r ∈ w.writes) (hsound : r.Sound) :
    IsFrame r.bytes ∧ (msgCode r.bytes = ceMsgCode → isReqBuf r.bytes = false →
      ∃ ip req res, 20 ≤ req.length ∧ r.bytes = buildAns cfg (ceAvp cfg ip) req res) := by
  obtain ⟨hwhole, hworker⟩ := hsound
  cases hkind : r.kind with
  -- requests of this layer: none of them is an answer
  | req code =>
      obtain ⟨buf, n, hb, hw, hfit⟩ := World.recorded_reachable hr r hmem
      rw [hkind] at hfit
      obtain ⟨avps, hbh, ete, rfl, havps⟩ := hfit
      have hspelt : IsFrame (stamp (buildReq cfg code avps) hbh ete)
          ∧ isReqBuf (stamp (buildReq cfg code avps) hbh ete) = true := by
        rcases havps with ⟨rfl, ip, rfl⟩ | ⟨rfl, rfl⟩ | ⟨rfl, cause, rfl⟩
        · have hlen := length_ceAvp hs ip
          have h := @req_spelt cfg hs ceMsgCode (ceAvp cfg ip) (by decide) (by omega) hbh ete
          exact ⟨h.isFrame, h.isReq⟩
        · have h := @req_spelt cfg hs dwMsgCode [] (by decide) (by decide) hbh ete
          exact ⟨h.isFrame, h.isReq⟩
        · have h := @req_spelt cfg hs dpMsgCode (dprAvp cause) (by decide) (length_dprAvp cause) hbh ete
          exact ⟨h.isFrame, h.isReq⟩
      rw [bytes_of_whole hb hw hwhole]
      exact ⟨hspelt.1, fun _ hreq => absurd (hspelt.2.symm.trans hreq) (by simp)⟩
  -- answers of this layer: a CEA is built from the configuration, the others are no CE messages
  | ans code res =>
      obtain ⟨req, hreq, avps, res', n, -, hb, hw, havps⟩ := World.answers_reachable hr r hmem code res hkind
      rw [bytes_of_whole hb hw hwhole]
      rcases havps with ⟨hc, ip, rfl⟩ | ⟨hnc, rfl⟩
      · exact ⟨(cea_spelt hs ip res' hreq).isFrame, fun _ _ => ⟨ip, req, res', hreq, rfl⟩⟩
      · have h := @ans_spelt cfg hs [] req res' hreq (by decide)
        exact ⟨h.isFrame, fun hc => absurd (h.code.symm.trans hc) hnc⟩
  | request =>
      obtain ⟨hf, hn⟩ := hworker (Or.inl hkind)
      exact ⟨hf, fun hc hreq => absurd ⟨hc, hreq⟩ hn⟩
  | response =>
      obtain ⟨hf, hn⟩ := hworker (Or.inr hkind)
      exact ⟨hf, fun hc hreq => absurd ⟨hc, hreq⟩ hn⟩

/-- What the other end is handed of sound records are their messages. -/
theorem frames_said {cfg : Cfg} {w : World} {s : Nat} (hs : cfg.Sized) (hr : World.Reachable cfg w)
    (hsound : ∀ r ∈ w.on s, r.Sound) {buf : List UInt8} (hbuf : buf ∈ (splitFrames 4 msgSize (w.said s)).1) :
    ∃ r ∈ w.on s, r.bytes = buf := by
  have hframes : splitFrames 4 msgSize ((w.on s).map (·.bytes)).flatten = ((w.on s).map (·.bytes), []) := by
    refine splitFrames_of_frames msgSize_pos fun f hf => ?_
    obtain ⟨r, hr', rfl⟩ := List.mem_map.mp hf
    exact (sound_record hs hr (List.mem_of_mem_filter hr') (hsound r hr')).1
  rw [World.said, List.flatMap_def, hframes] at hbuf
  exact List.mem_map.mp hbuf

/-! ## The pair -/

namespace Pair

/-- The called node entered `PEER_CONN` over the CER, and what the two stored is what they told. -/
def Met (cfgA cfgB : Cfg) (sb : Nat) (b : Node) (m : Meeting) : Prop :=
  (∃ m' ∈ b.met, m'.sock = some sb ∧ m'.isReq = true ∧ m'.caps = cfgA.advertised m'.mem)
    ∧ ((∀ r ∈ b.w.on sb, r.Sound) → m.caps = cfgB.advertised m.mem)

/-- What holds at any time. -/
structure Agrees (cfgA cfgB : Cfg) (sa sb : Nat) (p : Pair) : Prop where
  a : World.Reachable cfgA p.a.w
  b : World.Reachable cfgB p.b.w
  tunedA : p.a.Tuned sa (p.b.w.said sb)
  tunedB : p.b.Tuned sb (p.a.w.said sa)
  keepsA : p.a.Keeps sa
  keepsB : p.b.Keeps sb
  called : (∃ m ∈ p.b.met, m.sock = some sb ∧ m.isReq = true) ∨ World.Unmet cfgB sb p.b.w
  /-- As long as the first node dials, there is nothing but its CER that the second can have met it over. -/
  dialing : World.Dialing p.a.w sa → ∀ m ∈ p.b.met, m.sock = some sb → m.isReq = true →
    m.caps = cfgA.advertised m.mem
  met : ∀ m ∈ p.a.met, m.sock = some sa → m.isReq = false → Met cfgA cfgB sb p.b m

variable {cfgA cfgB : Cfg} {sa sb : Nat} {p p' : Pair}

theorem step_a {act : Act} (h : step cfgA cfgB sa sb p (.a act) = some p') :
    Node.Stepped cfgA sa (p.b.w.said sb) p.a p'.a ∧ p'.b = p.b := by
  obtain ⟨a, ha, rfl⟩ := Option.map_eq_some_iff.mp h
  exact ⟨Node.stepped ha, rfl⟩

theorem step_b {act : Act} (h : step cfgA cfgB sa sb p (.b act) = some p') :
    Node.Stepped cfgB sb (p.a.w.said sa) p.b p'.b ∧ p'.a = p.a
      ∧ (p'.b.w.sock = some sb → p.b.w.sock ≠ some sb → ∃ rest, p.b.w.pipe = .accepted sb :: rest) := by
  simp only [step] at h
  split at h
  · rename_i b hb
    split at h
    · rename_i hacc
      obtain rfl := Option.some.inj h
      refine ⟨Node.stepped hb, rfl, fun hs' hs => ?_⟩
      have hhead : p.b.w.pipe.head? = some (.accepted sb) := by
        rcases of_decide_eq_true hacc with h | h | h
        · exact absurd h hs
        · exact absurd hs' h
        · exact h
      exact List.head?_eq_some_iff.mp hhead
    · exact absurd h (by simp)
  · exact absurd h (by simp)

/-- The second node meets the first over its CER, as long as that has sent nothing else. -/
theorem caps_of_cer (hA : cfgA.Sized) {w : World} (hr : World.Reachable cfgA w)
    (hd : World.Dialing w sa) {buf : List UInt8} (hbuf : buf ∈ (splitFrames 4 msgSize (w.said sa)).1)
    {mem : CeMem} {isReq : Bool} {caps : Caps}
    (hp : processCe cfgB mem buf isReq = .ok (aaaSuccess, some caps)) : caps = cfgA.advertised mem := by
  obtain ⟨ip, hbh, ete, hfront⟩ := World.dialing_said hr hd
  have hspelt := cer_spelt hA ip hbh ete
  obtain rfl := eq_of_mem_splitFrames msgSize_pos hspelt.isFrame hfront hbuf
  obtain ⟨hdr, hl, hbody⟩ := hspelt.body
  exact processCe_cer hA.fitting hl hbody hp

/-- The first node meets nobody over a CEA that refuses, or over nothing. -/
theorem not_unmet (hB : cfgB.Sized) {w : World} (hu : World.Unmet cfgB sb w) {buf : List UInt8}
    (hbuf : buf ∈ (splitFrames 4 msgSize (w.said sb)).1) {mem : CeMem} {isReq : Bool} {caps : Caps} :
    processCe cfgA mem buf isReq ≠ .ok (aaaSuccess, some caps) := by
  cases hu with
  | silent hon hst =>
      rw [World.said_nil hon, splitFrames_none rfl] at hbuf
      exact absurd hbuf (by simp)
  | @refused hs hf ip req res hreq hc hres hfront =>
      intro hp
      have hspelt := cea_spelt hB ip res hreq
      obtain rfl := eq_of_mem_splitFrames msgSize_pos hspelt.isFrame hfront hbuf
      obtain ⟨hdr, hl, hbody⟩ := hspelt.body
      exact hres (processCe_cea hB.fitting hl hbody hp).1

/-- Over a CEA of the second node the first one learns what that advertises. -/
theorem caps_of_cea (hB : cfgB.Sized) {w : World} (hr : World.Reachable cfgB w)
    (hsound : ∀ r ∈ w.on sb, r.Sound) {buf : List UInt8}
    (hbuf : buf ∈ (splitFrames 4 msgSize (w.said sb)).1) (hc : msgCode buf = ceMsgCode)
    (hreq : isReqBuf buf = false) {mem : CeMem} {isReq : Bool} {caps : Caps}
    (hp : processCe cfgA mem buf isReq = .ok (aaaSuccess, some caps)) : caps = cfgB.advertised mem := by
  obtain ⟨r, hmem, rfl⟩ := frames_said hB hr hsound hbuf
  obtain ⟨-, hcea⟩ := sound_record hB hr (List.mem_of_mem_filter hmem) (hsound r hmem)
  obtain ⟨ip, req, res, hlen, hb⟩ := hcea hc hreq
  obtain ⟨hdr, hl, hbody⟩ := (cea_spelt hB ip res hlen).body
  rw [← hb] at hbody
  exact (processCe_cea hB.fitting hl hbody hp).2

theorem Agrees.step_a {act : Act} (hB : cfgB.Sized) (hi : Agrees cfgA cfgB sa sb p)
    (h : step cfgA cfgB sa sb p (.a act) = some p') : Agrees cfgA cfgB sa sb p' := by
  obtain ⟨hst, hb⟩ := Pair.step_a h
  obtain ⟨a, hw⟩ := hst.world
  have htuned := hi.tunedA.step hi.a hst
  refine ⟨.step hi.a trivial hw, ?_, ?_, ?_, hi.keepsA.step hi.a hst, hb ▸ hi.keepsB, ?_, ?_, ?_⟩
  · exact hb ▸ hi.b
  · exact hb ▸ htuned
  · rw [hb]
    exact hi.tunedB.extend (World.step_said hw sa)
  · exact hb ▸ hi.called
  · intro hd
    rw [hb]
    exact hi.dialing (World.dialing_of_step hw hd)
  · intro m hm hs hans
    rw [hb]
    rcases hst.met hi.tunedA hm hs with hm | ⟨buf, hbuf, hc, hreq, hsock, hp, hwait⟩
    · exact hi.met m hm hs hans
    · -- the node was dialling until now, so what the other met it over is its CER
      have hd : World.Dialing p.a.w sa := Or.inr ⟨hsock, Or.inr (hwait hans)⟩
      refine ⟨?_, fun hsound => ?_⟩
      · rcases hi.called with ⟨m', hm', hs', hreq'⟩ | hu
        · exact ⟨m', hm', hs', hreq', hi.dialing hd m' hm' hs' hreq'⟩
        · exact absurd hp (not_unmet hB hu hbuf)
      · exact caps_of_cea hB hi.b hsound hbuf hc (hreq.trans hans) hp

theorem Agrees.step_b {act : Act} (hA : cfgA.Sized) (hi : Agrees cfgA cfgB sa sb p)
    (h : step cfgA cfgB sa sb p (.b act) = some p') : Agrees cfgA cfgB sa sb p' := by
  obtain ⟨hst, ha, htake⟩ := Pair.step_b h
  obtain ⟨a, hw⟩ := hst.world
  have htuned := hi.tunedB.step hi.b hst
  refine ⟨?_, .step hi.b trivial hw, ?_, ?_, ha ▸ hi.keepsA, hi.keepsB.step hi.b hst, ?_, ?_, ?_⟩
  · exact ha ▸ hi.a
  · rw [ha]
    exact hi.tunedA.extend (World.step_said hw sb)
  · exact ha ▸ htuned
  -- the other end has met the node already, or has heard nothing that would do
  · rcases hi.called with ⟨m, hm, hmet⟩ | hu
    · exact Or.inl ⟨m, hst.met_mono hm, hmet⟩
    · exact (hst.unmet hi.b hu htake).symm
  · intro hd m hm hs hreq
    rw [ha] at hd
    rcases hst.met hi.tunedB hm hs with hm | ⟨buf, hbuf, hc, -, hsock, hp, -⟩
    · exact hi.dialing hd m hm hs hreq
    · exact caps_of_cer hA hi.a hd hbuf hp
  · intro m hm hs hans
    rw [ha] at hm
    obtain ⟨⟨m', hm', hmet⟩, hcaps⟩ := hi.met m hm hs hans
    refine ⟨⟨m', hst.met_mono hm', hmet⟩, fun hsound => hcaps fun r hr => hsound r ?_⟩
    obtain ⟨rs, hw, -⟩ := World.step_writes hw
    rw [World.on_append hw]
    exact List.mem_append_left _ hr

theorem agrees_init (h : Init sa sb p) : Agrees cfgA cfgB sa sb p := by
  obtain ⟨⟨ha, hgotA, hmetA, -⟩, hb, hgotB, hmetB, hsb⟩ := h
  have htuned : ∀ (n : Node) (s : Nat) (stream : List UInt8), World.Init n.w → n.got = 0 →
      n.Tuned s stream := by
    rintro ⟨w, got, met⟩ s stream ⟨nextLabel, ete, jiffies, rfl⟩ rfl
    have hnil : splitFrames 4 msgSize (stream.take 0) = ([], []) := splitFrames_none rfl
    refine ⟨fun _ => rfl, fun _ => Nat.zero_le _, fun _ => ?_⟩
    dsimp only
    rw [hnil]
    exact .empty
  have hkeeps : ∀ (n : Node) (s : Nat), n.met = [] → n.Keeps s := by
    intro n s hmet
    exact ⟨by simp [hmet], by simp [hmet], by simp [hmet]⟩
  refine ⟨.init ha, .init hb, htuned _ _ _ ha hgotA, htuned _ _ _ hb hgotB, hkeeps _ _ hmetA,
    hkeeps _ _ hmetB, Or.inr ?_, ?_, ?_⟩
  · obtain ⟨nextLabel, ete, jiffies, hw⟩ := hb
    refine .silent (by rw [hw]; rfl) fun hs => ?_
    -- the descriptor of a zeroed peer is none the kernel handed out
    rw [hw] at hs hsb
    have h0 : (0 : Nat) = sb := Option.some.inj hs
    have h1 : 1 ≤ sb := hsb
    omega
  · intro _ m hm
    exact absurd hm (by simp [hmetB])
  · intro m hm
    exact absurd hm (by simp [hmetA])

theorem agrees_reachable (hA : cfgA.Sized) (hB : cfgB.Sized) (h : Reachable cfgA cfgB sa sb p) :
    Agrees cfgA cfgB sa sb p := by
  refine Reach.invariant (I := Agrees cfgA cfgB sa sb) (fun _ => agrees_init) ?_ h
  intro p act p' hi _ hst
  cases act with
  | a act => exact hi.step_a hB hst
  | b act => exact hi.step_b hA hst

/-- Two nodes that have just been started. -/
def start : Pair := ⟨⟨World.start (fun _ => 0) 0 0, 0, []⟩, ⟨World.start (fun _ => 0) 0 0, 0, []⟩⟩

theorem Reachable.of_trace {β : Type} {as : List PairAct} {f : Pair → β} {b : β} (ha : 1 ≤ sa) (hb : 1 ≤ sb)
    (h : (trace (step cfgA cfgB sa sb) (fun _ _ => true) as start).map f = some b) :
    ∃ p, Reachable cfgA cfgB sa sb p ∧ f p = b := by
  obtain ⟨p, hp, hf⟩ := Option.map_eq_some_iff.mp h
  have hinit : Init sa sb start := ⟨⟨⟨_, _, _, rfl⟩, rfl, rfl, ha⟩, ⟨_, _, _, rfl⟩, rfl, rfl, hb⟩
  exact ⟨p, (Reach.trace (.init hinit) hp).any, hf⟩

end Pair

/--
**Two nodes that shook hands agree.**

In every run of two nodes that share a connection, when the one that connects enters
`PEER_CONN` over a CEA, the one that accepts has entered it on the same connection over
the CER, and had stored what the other advertises. What the first one stores is what the
second advertises, if that wrote its messages in full and its workers wrote no CEA. In
both cases what there was no memory for is left out, and each of them keeps what it has
stored as long as it has the connection.
-/
theorem handshake_agreement {cfgA cfgB : Cfg} (hA : cfgA.Sized) (hB : cfgB.Sized) {sa sb : Nat} {p : Pair}
    (h : Pair.Reachable cfgA cfgB sa sb p) {m : Meeting} (hm : m ∈ p.a.met) (hs : m.sock = some sa)
    (hcea : m.isReq = false) :
    (∃ m' ∈ p.b.met, m'.sock = some sb ∧ m'.isReq = true ∧ m'.caps = cfgA.advertised m'.mem
      ∧ (p.b.w.sock = some sb → p.b.w.caps = m'.caps))
    ∧ ((∀ r ∈ p.b.w.writes, r.sock = some sb → r.Sound) → m.caps = cfgB.advertised m.mem)
    ∧ (p.a.w.sock = some sa → p.a.w.caps = m.caps) := by
  have hi := Pair.agrees_reachable hA hB h
  obtain ⟨⟨m', hm', hs', hreq, hcaps'⟩, hcaps⟩ := hi.met m hm hs hcea
  refine ⟨⟨m', hm', hs', hreq, hcaps', hi.keepsB.caps m' hm' hs'⟩, ?_, hi.keepsA.caps m hm hs⟩
  intro hsound
  refine hcaps fun r hr => ?_
  obtain ⟨hmem, hsock⟩ := List.mem_filter.mp hr
  exact hsound r hmem (of_decide_eq_true hsock)

/-- The first node connects and the second accepts; the CEA comes in with the memory `mem`. -/
def sampleMeeting (mem : CeMem) : List PairAct :=
  [.b .accept, .b (.exec sampleEnv { sampleIo with socket := false }), .a (.exec sampleEnv sampleIo),
   .b (.exec sampleEnv sampleIo), .b (.read sampleEnv [.got 4, .got 65536] []),
   .a (.read { sampleEnv with ceMem := mem } [.got 4, .got 65536] [])]

theorem sampleCfg_sized : sampleCfg.Sized := ⟨by decide, by decide, by decide, by decide, by decide⟩

/-- No record is of a worker, and none was cut. -/
def allInternal (w : World) : Bool :=
  w.writes.all fun r => r.whole && decide (r.kind ≠ .request) && decide (r.kind ≠ .response)

theorem sound_of_allInternal {w : World} (h : allInternal w = true) : ∀ r ∈ w.writes, r.Sound := by
  intro r hr
  have hall := List.all_eq_true.mp h r hr
  simp only [Bool.and_eq_true, decide_eq_true_eq] at hall
  obtain ⟨⟨hwhole, hreq⟩, hres⟩ := hall
  exact ⟨hwhole, fun hk => absurd hk (by simp [hreq, hres])⟩

theorem handshake_agreement_sample :
    ∃ p, Pair.Reachable sampleCfg sampleCfg 1 1 p ∧ ∃ m ∈ p.a.met, m.sock = some 1 ∧ m.isReq = false
      ∧ m.caps = sampleCfg.advertised m.mem
      ∧ ∃ m' ∈ p.b.met, m'.sock = some 1 ∧ m'.isReq = true ∧ m'.caps = sampleCfg.advertised m'.mem
        ∧ (p.b.w.sock = some 1 → p.b.w.caps = m'.caps) := by
  obtain ⟨p, hp, hf⟩ := @Pair.Reachable.of_trace sampleCfg sampleCfg 1 1 _ (sampleMeeting ⟨true, true, true⟩)
    (fun p => (p.a.met, allInternal p.b.w))
    ([⟨some 1, false, ⟨true, true, true⟩, sampleCfg.advertised ⟨true, true, true⟩⟩], true)
    (by decide) (by decide) (by decide +kernel)
  obtain ⟨hmet, hsound⟩ := Prod.mk.inj hf
  refine ⟨p, hp, _, hmet ▸ List.mem_singleton.mpr rfl, rfl, rfl, ?_⟩
  obtain ⟨hcalled, hcaps, -⟩ := handshake_agreement sampleCfg_sized sampleCfg_sized hp
    (hmet ▸ List.mem_singleton.mpr rfl) rfl rfl
  exact ⟨hcaps fun r hr _ => sound_of_allInternal hsound r hr, hcalled⟩

/-- `process_ce` goes on when it cannot save the ids, and the node that connects is up without them. -/
theorem handshake_without_memory :
    ¬ ∀ cfgA cfgB : Cfg, cfgA.Sized → cfgB.Sized → ∀ sa sb p, Pair.Reachable cfgA cfgB sa sb p →
      (∀ r ∈ p.b.w.writes, r.Sound) → ∀ m ∈ p.a.met, m.sock = some sa → m.isReq = false →
      (∃ m' ∈ p.b.met, m'.sock = some sb ∧ m'.isReq = true
        ∧ m'.caps = cfgA.advertised ⟨true, true, true⟩) ∧ m.caps = cfgB.advertised ⟨true, true, true⟩ := by
  intro hall
  obtain ⟨p, hp, hf⟩ := @Pair.Reachable.of_trace sampleCfg sampleCfg 1 1 _ (sampleMeeting ⟨false, true, true⟩)
    (fun p => (p.a.met, allInternal p.b.w))
    ([⟨some 1, false, ⟨false, true, true⟩, sampleCfg.advertised ⟨false, true, true⟩⟩], true)
    (by decide) (by decide) (by decide +kernel)
  obtain ⟨hmet, hsound⟩ := Prod.mk.inj hf
  have hcaps := (hall _ _ sampleCfg_sized sampleCfg_sized 1 1 p hp (sound_of_allInternal hsound) _
    (hmet ▸ List.mem_singleton.mpr rfl) rfl rfl).2
  exact absurd hcaps (by decide)

end Disc.Transport
