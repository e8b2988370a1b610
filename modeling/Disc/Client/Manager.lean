import Disc.Client.SessionId
import Disc.Lib.Run
import Mathlib.Data.List.Basic

/-!
# The session manager

`ses_mgr`: the counter Session-Ids are made from and the hash table of sessions.
`AAAStartSession` gives every session an id and a place in the table, `AAAEndSession`
takes it out, and `session_lookup` finds it by its id.

The counter makes the ids differ: its two halves stand between semicolons after an
identity that is the same in all of them, so nothing that follows can make up for a
difference there. The hash code and the label at the end make them an address.

Calls of several threads meet in the counter and in the table only, and there under a
lock, so a run is a sequence of calls.
-/

namespace Disc.Client

open Disc.Lib Disc.Transport

/-- A session that was started, and its id. -/
structure Started where
  ses : Nat
  sID : List UInt8
deriving Repr, DecidableEq

/-- `struct session_manager`; sessions are numbered as they are created. -/
structure SesMgr where
  /-- `monoton_sID[0]`. -/
  sIDLow : UInt32
  /-- `monoton_sID[1]`. -/
  sIDHigh : UInt32
  sesTable : HTable Nat
  nextSes : Nat
  /-- The sessions `AAAStartSession` has returned. -/
  started : List Started
  /-- The sessions `AAAEndSession` was called for. -/
  ended : List Nat

/-- What a call of `AAAStartSession` meets: memory for the session and its id, and random numbers. -/
structure StartEnv where
  sesMem : Bool
  sidMem : Bool
  /-- What the memory holds before it is written. -/
  junk : Nat → UInt8
  rand : UInt32

namespace SesMgr

/-- `init_session_manager`, with any counter and any labels. -/
def init (sIDLow sIDHigh : UInt32) (nextLabel : UInt32 → UInt32) : SesMgr :=
  { sIDLow, sIDHigh, sesTable := buildHtable 1024 nextLabel, nextSes := 0, started := [], ended := [] }

/-- `AAAStartSession`. -/
def aaaStartSession (aaaIdentity : List UInt8) (mgr : SesMgr) (env : StartEnv) : Res SesMgr :=
  if !env.sesMem then .ok mgr
  else if !env.sidMem then .ok { mgr with nextSes := mgr.nextSes + 1 }
  else do
    let m := (List.range (sessionIDSize aaaIdentity)).map env.junk
    let (len, m) ← generateSessionID aaaIdentity mgr.sIDLow mgr.sIDHigh env.rand m
    let (sIDLow, sIDHigh) := inc64biti mgr.sIDLow mgr.sIDHigh
    let hashCode := hash (m.take len) mgr.sesTable.hashSize
    let (label, sesTable) := mgr.sesTable.addCell hashCode mgr.nextSes
    let (len, m) ← appendHash hashCode label len m
    return { mgr with sIDLow, sIDHigh, sesTable, nextSes := mgr.nextSes + 1
                      started := mgr.started ++ [⟨mgr.nextSes, m.take len⟩] }

/-- `AAAEndSession` and the hash table: a session with a stateful server stays where it is. -/
def aaaEndSession (mgr : SesMgr) (ses : Nat) (statefull : Bool) : SesMgr :=
  let sesTable := if statefull then mgr.sesTable
    else (mgr.sesTable.removeCell (· == ses)).getD mgr.sesTable
  { mgr with sesTable, ended := mgr.ended ++ [ses] }

/-- `session_lookup`. -/
def sessionLookup (table : HTable Nat) (sID : List UInt8) : Option Nat := do
  let (hashCode, label) ← parseSessionID sID
  let l ← table.cellLookup hashCode label
  return l.payload

/-- What a module can do. -/
inductive Act where
  | start (env : StartEnv)
  | finish (ses : Nat) (statefull : Bool)

/-- One call; a session is ended after it was started, and once. -/
def step (aaaIdentity : List UInt8) (mgr : SesMgr) : Act → Option SesMgr
  | .start env =>
      match mgr.aaaStartSession aaaIdentity env with
      | .ok mgr => some mgr
      | _ => none
  | .finish ses statefull =>
      if ses ∈ mgr.started.map (·.ses) ∧ ses ∉ mgr.ended then some (mgr.aaaEndSession ses statefull)
      else none

/-- The managers of all runs. -/
def Reachable (aaaIdentity : List UInt8) : SesMgr → Prop :=
  Reach (fun mgr => ∃ lo hi nextLabel, mgr = init lo hi nextLabel) (step aaaIdentity) anyStep

/-! ## Starting a session -/

/-- The hash code a session will get. -/
def nextHash (aaaIdentity : List UInt8) (mgr : SesMgr) (rand : UInt32) : UInt32 :=
  hash (sessionIDHead aaaIdentity mgr.sIDLow mgr.sIDHigh rand) mgr.sesTable.hashSize

/-- The id it will get. -/
def nextSID (aaaIdentity : List UInt8) (mgr : SesMgr) (rand : UInt32) : List UInt8 :=
  sessionIDHead aaaIdentity mgr.sIDLow mgr.sIDHigh rand ++ sessionIDTail (mgr.nextHash aaaIdentity rand)
    (mgr.sesTable.nextLabel (mgr.nextHash aaaIdentity rand))

/-- A session was started. -/
def begun (aaaIdentity : List UInt8) (mgr : SesMgr) (rand : UInt32) : SesMgr :=
  { mgr with
    sIDLow := (inc64biti mgr.sIDLow mgr.sIDHigh).1
    sIDHigh := (inc64biti mgr.sIDLow mgr.sIDHigh).2
    sesTable := (mgr.sesTable.addCell (mgr.nextHash aaaIdentity rand) mgr.nextSes).2
    nextSes := mgr.nextSes + 1
    started := mgr.started ++ [⟨mgr.nextSes, mgr.nextSID aaaIdentity rand⟩] }

theorem take_written {pre m : List UInt8} (h : pre <+: m) : m.take pre.length = pre :=
  (List.prefix_iff_eq_take.mp h).symm

/-- **What `AAAStartSession` does**: nothing is written outside the buffer. -/
theorem aaaStartSession_eq (aaaIdentity : List UInt8) (mgr : SesMgr) (env : StartEnv) :
    mgr.aaaStartSession aaaIdentity env = .ok
      (if !env.sesMem then mgr else if !env.sidMem then { mgr with nextSes := mgr.nextSes + 1 }
        else mgr.begun aaaIdentity env.rand) := by
  unfold aaaStartSession
  split
  · rfl
  · split
    · rfl
    · obtain ⟨m, hgen, hl, hm, hroom⟩ := generateSessionID_spec mgr.sIDLow mgr.sIDHigh env.rand
        (show ((List.range (sessionIDSize aaaIdentity)).map env.junk).length = sessionIDSize aaaIdentity by
          simp)
      obtain ⟨m', happ, hl', hm'⟩ := appendHash_spec (mgr.nextHash aaaIdentity env.rand)
        (mgr.sesTable.nextLabel (mgr.nextHash aaaIdentity env.rand)) hm (by omega)
      have happ' : appendHash (hash (sessionIDHead aaaIdentity mgr.sIDLow mgr.sIDHigh env.rand)
          mgr.sesTable.hashSize) _ _ _ = _ := happ
      simp only [hgen, Res.ok_bind, take_written hm]
      rw [show (mgr.sesTable.addCell (hash (sessionIDHead aaaIdentity mgr.sIDLow mgr.sIDHigh env.rand)
        mgr.sesTable.hashSize) mgr.nextSes).1
          = mgr.sesTable.nextLabel (mgr.nextHash aaaIdentity env.rand) from rfl, happ']
      simp only [Res.ok_bind, take_written hm']
      rfl

/-- What a call can do. -/
theorem step_cases {aaaIdentity : List UInt8} {mgr mgr' : SesMgr} {a : Act}
    (h : step aaaIdentity mgr a = some mgr') :
    mgr' = mgr ∨ mgr' = { mgr with nextSes := mgr.nextSes + 1 }
      ∨ (∃ rand, mgr' = mgr.begun aaaIdentity rand)
      ∨ ∃ ses statefull, mgr' = mgr.aaaEndSession ses statefull := by
  cases a with
  | start env =>
      simp only [step, aaaStartSession_eq, Option.some.injEq] at h
      subst h
      split
      · exact .inl rfl
      · split
        · exact .inr (.inl rfl)
        · exact .inr (.inr (.inl ⟨env.rand, rfl⟩))
  | finish ses statefull =>
      simp only [step] at h
      split at h
      · exact .inr (.inr (.inr ⟨ses, statefull, (Option.some.inj h).symm⟩))
      · exact absurd h (by simp)

/-- Ending a session adds none to the table. -/
theorem aaaEndSession_cells (mgr : SesMgr) (ses : Nat) (statefull : Bool) :
    (mgr.aaaEndSession ses statefull).sesTable.cells.Sublist mgr.sesTable.cells := by
  cases statefull with
  | true => exact List.Sublist.refl _
  | false =>
      simp only [aaaEndSession, Bool.false_eq_true, if_false, HTable.removeCell]
      split
      · exact List.eraseP_sublist
      · exact List.Sublist.refl _

/-! ## No id twice -/

/-- The ids carry the values of the counter one after the other, from `c₀` on. -/
structure Counted (aaaIdentity : List UInt8) (c₀ : Nat) (mgr : SesMgr) : Prop where
  now : counter mgr.sIDLow mgr.sIDHigh = (c₀ + mgr.started.length) % 2 ^ 64
  past : ∀ i e, mgr.started[i]? = some e → ∃ lo hi rand tail,
    e.sID = sessionIDHead aaaIdentity lo hi rand ++ tail ∧ counter lo hi = (c₀ + i) % 2 ^ 64

theorem init_counted (aaaIdentity : List UInt8) (lo hi : UInt32) (nextLabel : UInt32 → UInt32) :
    Counted aaaIdentity (counter lo hi) (init lo hi nextLabel) := by
  refine ⟨?_, fun i e he => ?_⟩
  · simp only [init, List.length_nil, Nat.add_zero]
    rw [Nat.mod_eq_of_lt (counter_lt lo hi)]
  · exact absurd he (by simp [init])

theorem begun_counted {aaaIdentity : List UInt8} {c₀ : Nat} {mgr : SesMgr}
    (h : Counted aaaIdentity c₀ mgr) (rand : UInt32) : Counted aaaIdentity c₀ (mgr.begun aaaIdentity rand) := by
  refine ⟨?_, fun i e he => ?_⟩
  · simp only [begun]
    rw [counter_inc64biti, h.now, Nat.mod_add_mod, List.length_append, List.length_singleton, Nat.add_assoc]
  · by_cases hi : i < mgr.started.length
    · rw [begun, List.getElem?_append_left hi] at he
      exact h.past i e he
    · -- the new id carries the value the counter had
      have hlen : i < (mgr.begun aaaIdentity rand).started.length := (List.getElem?_eq_some_iff.mp he).1
      simp only [begun, List.length_append, List.length_singleton] at hlen
      obtain rfl : i = mgr.started.length := by omega
      rw [begun, List.getElem?_append_right (Nat.le_refl _), Nat.sub_self] at he
      obtain rfl := Option.some.inj he
      exact ⟨_, _, rand, _, rfl, h.now⟩

theorem step_counted {aaaIdentity : List UInt8} {c₀ : Nat} {mgr mgr' : SesMgr} {a : Act}
    (h : Counted aaaIdentity c₀ mgr) (hs : step aaaIdentity mgr a = some mgr') :
    Counted aaaIdentity c₀ mgr' := by
  obtain rfl | rfl | ⟨rand, rfl⟩ | ⟨ses, statefull, rfl⟩ := step_cases hs
  · exact h
  · exact ⟨h.now, h.past⟩
  · exact begun_counted h rand
  · exact ⟨h.now, h.past⟩

theorem counted_reachable {aaaIdentity : List UInt8} {mgr : SesMgr} (h : Reachable aaaIdentity mgr) :
    ∃ c₀, Counted aaaIdentity c₀ mgr := by
  refine Reach.invariant (I := fun mgr => ∃ c₀, Counted aaaIdentity c₀ mgr) ?_ ?_ h
  · rintro _ ⟨lo, hi, nextLabel, rfl⟩
    exact ⟨_, init_counted aaaIdentity lo hi nextLabel⟩
  · rintro mgr a mgr' ⟨c₀, hc⟩ - hs
    exact ⟨c₀, step_counted hc hs⟩

/--
**Session-Ids are unique**: the first `2 ^ 64` sessions of a run have pairwise distinct
ids, whatever the counter started from, the random numbers and the labels were.
-/
theorem sessionIds_nodup {aaaIdentity : List UInt8} {mgr : SesMgr} (h : Reachable aaaIdentity mgr)
    (hn : mgr.started.length ≤ 2 ^ 64) : (mgr.started.map (·.sID)).Nodup := by
  obtain ⟨c₀, hc⟩ := counted_reachable h
  rw [List.Nodup, List.pairwise_iff_getElem]
  intro i j hi hj hij heq
  rw [List.length_map] at hi hj
  rw [List.getElem_map, List.getElem_map] at heq
  obtain ⟨lo, hi', rand, tail, hsid, hcnt⟩ := hc.past i _ (List.getElem?_eq_getElem hi)
  obtain ⟨lo₂, hi₂, rand₂, tail₂, hsid₂, hcnt₂⟩ := hc.past j _ (List.getElem?_eq_getElem hj)
  rw [hsid, hsid₂] at heq
  have hval := sessionIDHead_counter heq
  rw [hcnt, hcnt₂] at hval
  omega

/-- What is true of the state a sequence of calls ends in is true of some manager of a run. -/
theorem Reachable.of_trace {β : Type} {aaaIdentity : List UInt8} {as : List Act} {f : SesMgr → β} {b : β}
    (h : (trace (step aaaIdentity) (fun _ _ => true) as (init 0 0 fun _ => 0)).map f = some b) :
    ∃ mgr, Reachable aaaIdentity mgr ∧ f mgr = b := by
  obtain ⟨mgr, hm, hf⟩ := Option.map_eq_some_iff.mp h
  have hstart : Reach (fun mgr => ∃ lo hi nextLabel, mgr = init lo hi nextLabel) (step aaaIdentity)
      (fun _ _ => true = true) (init 0 0 fun _ => 0) := .init ⟨0, 0, fun _ => 0, rfl⟩
  exact ⟨mgr, (hstart.trace hm).any, hf⟩

/-- There is memory for everything. -/
def roomy (rand : UInt32) : StartEnv := { sesMem := true, sidMem := true, junk := fun _ => 0, rand }

theorem sessionIds_nodup_two :
    ∃ mgr, Reachable [97] mgr ∧ mgr.started.length = 2 ∧ (mgr.started.map (·.sID)).Nodup := by
  obtain ⟨mgr, hr, hlen⟩ := @Reachable.of_trace _ [97] [.start (roomy 7), .start (roomy 7)]
    (·.started.length) 2 (by decide +kernel)
  have hlen : mgr.started.length = 2 := hlen
  exact ⟨mgr, hr, hlen, sessionIds_nodup hr (by omega)⟩

/-! ## The id is an address -/

/-- A session that was not ended is in the table, under the numbers its id ends in. -/
structure Linked (mgr : SesMgr) : Prop where
  cell : ∀ e ∈ mgr.started, e.ses ∉ mgr.ended → ∃ l ∈ mgr.sesTable.cells, l.payload = e.ses
    ∧ parseSessionID e.sID = some (l.hashCode, l.label)
  /-- As long as no entry has used up its labels. -/
  labels : (∀ c, mgr.sesTable.issued c < 2 ^ 32) → mgr.sesTable.Labelled
  issued : ∀ c, mgr.sesTable.issued c ≤ mgr.started.length

theorem init_linked (lo hi : UInt32) (nextLabel : UInt32 → UInt32) : Linked (init lo hi nextLabel) :=
  ⟨fun e he => absurd he (by simp [init]), fun _ => buildHtable_labelled 1024 nextLabel,
    fun _ => Nat.le_refl 0⟩

theorem parseSessionID_nextSID (aaaIdentity : List UInt8) (mgr : SesMgr) (rand : UInt32) :
    parseSessionID (mgr.nextSID aaaIdentity rand) = some (mgr.nextHash aaaIdentity rand,
      mgr.sesTable.nextLabel (mgr.nextHash aaaIdentity rand)) :=
  parseSessionID_tail _ _ (by simp [sessionIDHead])

theorem begun_linked {aaaIdentity : List UInt8} {mgr : SesMgr} (h : Linked mgr) (rand : UInt32) :
    Linked (mgr.begun aaaIdentity rand) := by
  refine ⟨fun e he hend => ?_, fun hlt => ?_, fun c => ?_⟩
  · rcases List.mem_append.mp he with he | he
    · obtain ⟨l, hl, hpay, hparse⟩ := h.cell e he hend
      exact ⟨l, List.mem_append_left _ hl, hpay, hparse⟩
    · obtain rfl := List.mem_singleton.mp he
      exact ⟨_, List.mem_append_right _ (List.mem_singleton.mpr rfl), rfl,
        parseSessionID_nextSID aaaIdentity mgr rand⟩
  · -- the labels of an entry only become more
    have hold : ∀ c, mgr.sesTable.issued c < 2 ^ 32 := by
      intro c
      have hc := hlt c
      simp only [begun, HTable.addCell] at hc
      split at hc <;> omega
    have hnew := hlt (mgr.nextHash aaaIdentity rand)
    simp only [begun, HTable.addCell, if_true] at hnew
    exact (h.labels hold).addCell _ hnew
  · have hc := h.issued c
    simp only [begun, HTable.addCell, List.length_append, List.length_singleton]
    split <;> omega

theorem aaaEndSession_linked {mgr : SesMgr} (h : Linked mgr) (ses : Nat) (statefull : Bool) :
    Linked (mgr.aaaEndSession ses statefull) := by
  -- the cells of the other sessions stay
  have htable : ∃ cells, (mgr.aaaEndSession ses statefull).sesTable = { mgr.sesTable with cells }
      ∧ cells.Sublist mgr.sesTable.cells
      ∧ ∀ l ∈ mgr.sesTable.cells, l.payload ≠ ses → l ∈ cells := by
    have hsame : mgr.sesTable = { mgr.sesTable with cells := mgr.sesTable.cells } := rfl
    simp only [aaaEndSession]
    split
    · exact ⟨_, hsame, List.Sublist.refl _, fun l hl _ => hl⟩
    · unfold HTable.removeCell
      split
      · exact ⟨_, rfl, List.eraseP_sublist,
          fun l hl hne => (List.mem_eraseP_of_neg (by simpa using hne)).mpr hl⟩
      · exact ⟨_, hsame, List.Sublist.refl _, fun l hl _ => hl⟩
  obtain ⟨cells, htab, hsub, hkeep⟩ := htable
  refine ⟨fun e he hend => ?_, fun hlt => ?_, fun c => ?_⟩
  · have hend : e.ses ∉ mgr.ended ++ [ses] := hend
    rw [List.mem_append, List.mem_singleton, not_or] at hend
    obtain ⟨l, hl, hpay, hparse⟩ := h.cell e he hend.1
    rw [htab]
    exact ⟨l, hkeep l hl (by rw [hpay]; exact hend.2), hpay, hparse⟩
  · rw [htab] at hlt ⊢
    exact (h.labels hlt).drop hsub
  · rw [htab]
    exact h.issued c

theorem step_linked {aaaIdentity : List UInt8} {mgr mgr' : SesMgr} {a : Act} (h : Linked mgr)
    (hs : step aaaIdentity mgr a = some mgr') : Linked mgr' := by
  obtain rfl | rfl | ⟨rand, rfl⟩ | ⟨ses, statefull, rfl⟩ := step_cases hs
  · exact h
  · exact ⟨h.cell, h.labels, h.issued⟩
  · exact begun_linked h rand
  · exact aaaEndSession_linked h ses statefull

theorem linked_reachable {aaaIdentity : List UInt8} {mgr : SesMgr} (h : Reachable aaaIdentity mgr) :
    Linked mgr := by
  refine Reach.invariant ?_ ?_ h
  · rintro _ ⟨lo, hi, nextLabel, rfl⟩
    exact init_linked lo hi nextLabel
  · intro mgr a mgr' hl _ hs
    exact step_linked hl hs

/-- A session is found by its id until it is ended. -/
theorem sessionLookup_started {aaaIdentity : List UInt8} {mgr : SesMgr} (h : Reachable aaaIdentity mgr)
    (hlt : ∀ c, mgr.sesTable.issued c < 2 ^ 32) {e : Started} (he : e ∈ mgr.started)
    (hend : e.ses ∉ mgr.ended) : sessionLookup mgr.sesTable e.sID = some e.ses := by
  have hl := linked_reachable h
  obtain ⟨l, hmem, hpay, hparse⟩ := hl.cell e he hend
  simp only [sessionLookup, hparse, Option.bind_eq_bind, Option.bind_some, Option.pure_def,
    (hl.labels hlt).cellLookup_eq hmem, hpay]

/-- The bytes of a finished id lie in the buffer and give hash code and label back. -/
theorem parseSessionID_written {aaaIdentity buf : List UInt8} (lo hi rand hashCode label : UInt32)
    (hsize : buf.length = sessionIDSize aaaIdentity) :
    ∃ len m len' m', generateSessionID aaaIdentity lo hi rand buf = .ok (len, m)
      ∧ appendHash hashCode label len m = .ok (len', m') ∧ len' ≤ buf.length
      ∧ parseSessionID (m'.take len') = some (hashCode, label) := by
  obtain ⟨m, hgen, hl, hm, hroom⟩ := generateSessionID_spec lo hi rand hsize
  obtain ⟨m', happ, hl', hm'⟩ := appendHash_spec hashCode label hm (by omega)
  refine ⟨_, m, _, m', hgen, happ, ?_, ?_⟩
  · have hle := hm'.length_le
    omega
  · rw [take_written hm']
    exact parseSessionID_tail hashCode label (by simp [sessionIDHead])

/--
**The Session-Id as an address.** Whatever the identity, the counter, the random number,
the hash code and the label are, the id is written inside its buffer and read back from
its end; `AAAStartSession` puts hash code and label of the session there; and until the
session is ended it is found by its id, as long as no entry has used up its labels.
-/
theorem sessionId_codec (aaaIdentity : List UInt8) :
    (∀ (lo hi rand hashCode label : UInt32) (buf : List UInt8), buf.length = sessionIDSize aaaIdentity →
      ∃ len m len' m', generateSessionID aaaIdentity lo hi rand buf = .ok (len, m)
        ∧ appendHash hashCode label len m = .ok (len', m') ∧ len' ≤ buf.length
        ∧ parseSessionID (m'.take len') = some (hashCode, label))
    ∧ (∀ (mgr : SesMgr) (env : StartEnv), ∃ mgr', mgr.aaaStartSession aaaIdentity env = .ok mgr'
        ∧ (env.sesMem = true → env.sidMem = true → ∃ e l, mgr'.started = mgr.started ++ [e]
            ∧ mgr'.sesTable.cells = mgr.sesTable.cells ++ [l] ∧ l.payload = e.ses
            ∧ parseSessionID e.sID = some (l.hashCode, l.label)))
    ∧ ∀ mgr : SesMgr, Reachable aaaIdentity mgr → (∀ c, mgr.sesTable.issued c < 2 ^ 32) →
        ∀ e ∈ mgr.started, e.ses ∉ mgr.ended → sessionLookup mgr.sesTable e.sID = some e.ses := by
  refine ⟨fun lo hi rand hashCode label buf => parseSessionID_written lo hi rand hashCode label,
    fun mgr env => ⟨_, aaaStartSession_eq aaaIdentity mgr env, fun hses hsid => ?_⟩,
    fun mgr h hlt e he hend => sessionLookup_started h hlt he hend⟩
  rw [hses, hsid]
  exact ⟨_, _, rfl, rfl, rfl, parseSessionID_nextSID aaaIdentity mgr env.rand⟩

/-- Two sessions are started and the first is ended. -/
theorem sessionId_codec_second :
    (∃ len m len' m', generateSessionID [97] 0 0 7 (List.replicate 50 0) = .ok (len, m)
      ∧ appendHash 5 0xffffffff len m = .ok (len', m') ∧ len' ≤ 50
      ∧ parseSessionID (m'.take len') = some (5, 0xffffffff))
    ∧ ∃ mgr e, Reachable [97] mgr ∧ e ∈ mgr.started ∧ sessionLookup mgr.sesTable e.sID = some e.ses := by
  refine ⟨(sessionId_codec [97]).1 0 0 7 5 0xffffffff (List.replicate 50 0) rfl, ?_⟩
  obtain ⟨mgr, hr, hf⟩ := @Reachable.of_trace _ [97]
    [.start (roomy 7), .start (roomy 9), .finish 0 false]
    (fun mgr => (mgr.started.map (·.ses), mgr.ended)) ([0, 1], [0]) (by decide +kernel)
  simp only [Prod.mk.injEq] at hf
  obtain ⟨e, he, hses⟩ := List.mem_map.mp (hf.1 ▸ List.mem_cons_of_mem 0 List.mem_cons_self)
  have hlen : mgr.started.length = 2 := by
    rw [← List.length_map (·.ses), hf.1]
    rfl
  have hissued : ∀ c, mgr.sesTable.issued c < 2 ^ 32 := by
    intro c
    have hc := (linked_reachable hr).issued c
    omega
  exact ⟨mgr, e, hr, he, (sessionId_codec [97]).2.2 mgr hr hissued e he (by rw [hf.2, hses]; decide)⟩

end SesMgr

end Disc.Client
