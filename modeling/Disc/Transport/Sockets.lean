import Disc.Transport.Ledger

/-!
# A descriptor names one connection

Descriptors are numbered as they are created, so a number stands for one connection of
the whole run. The connection a peer gets is its own from before, one that was accepted
and waits in the pipe, or a new one; and on the last two nothing was written or
exchanged yet.
-/

namespace Disc.Transport

open Disc.Lib Disc.Msg

/-- Descriptors that are waiting or not created yet, for which there is no record. -/
def Ledger.Fresh (l : Ledger) (s : Nat) : Prop := s ∈ l.pending ∨ l.nextSock ≤ s

/-- The records are about descriptors the peer has or had. -/
structure Sockets (l : Ledger) : Prop where
  nodup : l.pending.Nodup
  pending : ∀ s ∈ l.pending, s < l.nextSock
  sock : ∀ s, l.sock = some s → ¬ l.Fresh s
  ceLog : ∀ e ∈ l.ceLog, ∀ s, e.sock = some s → ¬ l.Fresh s
  writes : ∀ r ∈ l.writes, ∀ s, r.sock = some s → ¬ l.Fresh s

/-- Nothing that was in use becomes fresh. -/
def Ledger.Uses (l l' : Ledger) : Prop := ∀ s, l'.Fresh s → l.Fresh s

theorem Ledger.uses_socket (l : Ledger) : l.Uses { l with nextSock := l.nextSock + 1 } := by
  rintro s (hs | hs)
  · exact Or.inl hs
  · exact Or.inr (Nat.le_of_succ_le hs)

theorem Ledger.uses_accept (l : Ledger) :
    l.Uses { l with nextSock := l.nextSock + 1, pending := l.pending ++ [l.nextSock] } := by
  rintro s (hs | hs)
  · rcases List.mem_append.mp hs with hs | hs
    · exact Or.inl hs
    · exact Or.inr (Nat.le_of_eq (List.mem_singleton.mp hs).symm)
  · exact Or.inr (Nat.le_of_succ_le hs)

theorem Ledger.uses_refuse {l : Ledger} {s : Nat} {rest : List Nat} (hp : l.pending = s :: rest) :
    l.Uses { l with pending := rest } := by
  rintro x (hx | hx)
  · exact Or.inl (by rw [hp]; exact List.mem_cons_of_mem _ hx)
  · exact Or.inr hx

/-- The records stay, and what waits does so in order. -/
theorem Sockets.uses {l l' : Ledger} (h : Sockets l) (hu : l.Uses l') (hn : l'.pending.Nodup)
    (hp : ∀ s ∈ l'.pending, s < l'.nextSock) (hs : ∀ s, l'.sock = some s → ¬ l'.Fresh s)
    (hc : l'.ceLog = l.ceLog) (hw : l'.writes = l.writes) : Sockets l' := by
  refine ⟨hn, hp, hs, ?_, ?_⟩
  · intro e he s hes hf
    exact h.ceLog e (hc ▸ he) s hes (hu s hf)
  · intro r hr s hrs hf
    exact h.writes r (hw ▸ hr) s hrs (hu s hf)

/-- The descriptors, whatever happens to the rest. -/
theorem Sockets.of_eq {l l' : Ledger} (h : Sockets l) (hp : l'.pending = l.pending)
    (hn : l'.nextSock = l.nextSock) (hs : ∀ s, l'.sock = some s → l.sock = some s)
    (hc : l'.ceLog = l.ceLog) (hw : l'.writes = l.writes) : Sockets l' := by
  have hu : l.Uses l' := by
    intro s hf
    rw [Ledger.Fresh, hp, hn] at hf
    exact hf
  refine h.uses hu (hp ▸ h.nodup) (hp ▸ hn ▸ h.pending) ?_ hc hw
  intro s hs' hf
  exact h.sock s (hs s hs') (hu s hf)

theorem Sockets.moves {cfg : Cfg} {P : List UInt8 → Prop} {l l' : Ledger} (hm : Moves cfg P l l')
    (h : Sockets l) : Sockets l' := by
  induction hm with
  | refl l => exact h
  | trans _ _ ih ih' => exact ih' (ih h)
  | start | drop | unqueue => exact h.of_eq rfl rfl (fun _ hs => hs) rfl rfl
  | reset => exact h.of_eq rfl rfl (fun _ hs => absurd hs (by simp)) rfl rfl
  | wrote k buf n hfit =>
      refine ⟨h.nodup, h.pending, h.sock, h.ceLog, ?_⟩
      intro r hr s hrs
      rcases List.mem_append.mp hr with hr | hr
      · exact h.writes r hr s hrs
      · obtain rfl := List.mem_singleton.mp hr
        exact h.sock s hrs
  | exchanged mem isReq buf caps hce =>
      refine ⟨h.nodup, h.pending, h.sock, ?_, h.writes⟩
      intro e he s hes
      rcases List.mem_append.mp he with he | he
      · exact h.ceLog e he s hes
      · obtain rfl := List.mem_singleton.mp he
        exact h.sock s hes
  | @socket l =>
      refine h.uses l.uses_socket h.nodup (fun s hs => Nat.lt_succ_of_lt (h.pending s hs)) ?_ rfl rfl
      intro s hs hf
      exact h.sock s hs (l.uses_socket s hf)
  | @connect l =>
      refine h.uses l.uses_socket h.nodup (fun s hs => Nat.lt_succ_of_lt (h.pending s hs)) ?_ rfl rfl
      intro s hs hf
      obtain rfl := Option.some.inj hs
      rcases hf with hf | hf
      · exact absurd (h.pending _ hf) (Nat.lt_irrefl _)
      · exact absurd hf (Nat.not_succ_le_self _)
  | @accept l =>
      refine h.uses l.uses_accept ?_ ?_ ?_ rfl rfl
      · refine List.nodup_append.mpr ⟨h.nodup, List.nodup_singleton _, ?_⟩
        intro a ha b hb hab
        obtain rfl := List.mem_singleton.mp hb
        exact absurd (hab ▸ h.pending a ha) (Nat.lt_irrefl _)
      · intro s hs
        rcases List.mem_append.mp hs with hs | hs
        · exact Nat.lt_succ_of_lt (h.pending s hs)
        · exact Nat.lt_succ_of_le (Nat.le_of_eq (List.mem_singleton.mp hs))
      · intro s hs hf
        exact h.sock s hs (l.uses_accept s hf)
  | @refuse l s rest hp =>
      have hn := h.nodup
      have hlt := h.pending
      rw [hp] at hn hlt
      refine h.uses (l.uses_refuse hp) (List.nodup_cons.mp hn).2
        (fun x hx => hlt x (List.mem_cons_of_mem _ hx)) ?_ rfl rfl
      intro x hx hf
      exact h.sock x hx (l.uses_refuse hp x hf)
  | @take l s rest hp =>
      have hn := h.nodup
      have hlt := h.pending
      rw [hp] at hn hlt
      refine h.uses (l.uses_refuse hp) (List.nodup_cons.mp hn).2
        (fun x hx => hlt x (List.mem_cons_of_mem _ hx)) ?_ rfl rfl
      -- the one that was taken does not wait any more
      intro x hx hf
      obtain rfl := Option.some.inj hx
      rcases hf with hf | hf
      · exact (List.nodup_cons.mp hn).1 hf
      · exact absurd (hlt s List.mem_cons_self) (Nat.not_lt.mpr hf)

/-- **The connection of a peer** is the one it had, or one nobody had yet. -/
theorem Moves.sock_source {cfg : Cfg} {P : List UInt8 → Prop} {l l' : Ledger} (hm : Moves cfg P l l') :
    l.Uses l' ∧ ∀ s, l'.sock = some s → l.sock = some s ∨ l.Fresh s := by
  induction hm with
  | refl l => exact ⟨fun _ hf => hf, fun _ hs => Or.inl hs⟩
  | trans _ _ ih ih' =>
      refine ⟨fun s hf => ih.1 s (ih'.1 s hf), fun s hs => ?_⟩
      rcases ih'.2 s hs with hs | hs
      · exact ih.2 s hs
      · exact Or.inr (ih.1 s hs)
  | start | drop | unqueue | wrote | exchanged => exact ⟨fun _ hf => hf, fun _ hs => Or.inl hs⟩
  | reset => exact ⟨fun _ hf => hf, fun _ hs => absurd hs (by simp)⟩
  | socket => exact ⟨Ledger.uses_socket _, fun _ hs => Or.inl hs⟩
  | connect =>
      refine ⟨Ledger.uses_socket _, fun s hs => Or.inr (Or.inr ?_)⟩
      exact Nat.le_of_eq (Option.some.inj hs)
  | accept => exact ⟨Ledger.uses_accept _, fun _ hs => Or.inl hs⟩
  | refuse hp => exact ⟨Ledger.uses_refuse hp, fun _ hs => Or.inl hs⟩
  | take hp =>
      refine ⟨Ledger.uses_refuse hp, fun s hs => Or.inr (Or.inl ?_)⟩
      rw [hp, ← Option.some.inj hs]
      exact List.mem_cons_self

namespace World

variable {cfg : Cfg} {w w' : World} {a : Act}

/-- Of what a worker sends nothing need be known here. -/
theorem sends_any (a : Act) : a.Sends fun _ => True := by
  cases a with
  | sendReq => exact fun _ _ => ⟨trivial, trivial⟩
  | _ => exact trivial

/-- The moves of any step, apart from the read buffer and the queue. -/
theorem step_ledger (h : step cfg w a = some w') :
    ∃ rb queue, Moves cfg (fun _ => True) { w.ledger with rb := rb, queue := queue } w'.ledger := by
  by_cases hr : a.Reads
  · cases a with
    | read env evs avail =>
        obtain ⟨s, out, -, -, hm | ⟨buf, -, -, hl⟩⟩ := read_moves (P := fun _ => True) h
        · exact ⟨_, _, hm⟩
        · exact ⟨out.rb, w.queue ++ [buf], .of_eq hl⟩
    | _ => exact absurd hr (by simp [Act.Reads])
  · exact ⟨w.rb, w.queue, step_moves (sends_any a) hr h⟩

theorem sockets_step (h : step cfg w a = some w') (hi : Sockets w.ledger) : Sockets w'.ledger := by
  obtain ⟨rb, queue, hm⟩ := step_ledger h
  refine Sockets.moves hm ?_
  exact hi.of_eq rfl rfl (fun _ hs => hs) rfl rfl

theorem step_sock_source (h : step cfg w a = some w') {s : Nat} (hs : w'.sock = some s) :
    w.sock = some s ∨ w.ledger.Fresh s := by
  obtain ⟨rb, queue, hm⟩ := step_ledger h
  exact hm.sock_source.2 s hs

theorem sockets_reachable (h : Reachable cfg w) : Sockets w.ledger := by
  refine Reach.invariant (I := fun w => Sockets w.ledger) ?_ ?_ h
  · rintro w ⟨nextLabel, ete, jiffies, rfl⟩
    refine ⟨List.nodup_nil, by simp [ledger, start, Transport.pending], ?_, by simp [ledger, start],
      by simp [ledger, start]⟩
    intro s hs hf
    obtain rfl := Option.some.inj hs
    rcases hf with hf | hf
    · simp [ledger, start, Transport.pending] at hf
    · exact absurd hf (by simp [ledger, start])
  · intro w a w' hi _ hst
    exact sockets_step hst hi

end World

end Disc.Transport
