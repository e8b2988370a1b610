import Disc.Lib.Run
import Mathlib.Algebra.GroupWithZero.Nat

/-!
# The life of a transaction

A `struct trans` is shared by three kinds of threads. The sender links it into the
hash table and into the timer list; a reply takes it out of the table and then tries
to take it out of the timer list; the timer detaches what has expired and then tries
to take it out of the table. Each link stands for a reference, and whoever holds the
last one frees the memory.

Here every section under a lock, every operation on the counter and every access to
memory that no lock protects is a step of its own, and the steps of all threads may
come in any order. A step that touches memory which has been freed is remembered in
`fault`. Addresses are not reused.

What carries the proof is bookkeeping: `ref_cnt` is the number of references that
the table, the timer list and the threads own between them. A thread that owns one
can touch the transaction. The timer's look at the head of its list, before it takes
the lock, is the one access that owns none.
-/

namespace Disc.Transport.Lifecycle

open Disc.Lib

/-! ## The system -/

/-- Where the sender of a transaction stands. -/
inductive Stage where
  /-- `create_transaction` has returned. -/
  | created
  /-- In the hash table. -/
  | linked
  /-- `ref_cnt` was incremented for the timer list. -/
  | counted
  /-- In the timer list. -/
  | timed
  /-- `safe_write` has returned. -/
  | sent
  /-- It was not sent, and the last reference was given up. -/
  | dropping
  | dropped
deriving Repr, DecidableEq

/-- Where a reply stands that has found the transaction. -/
inductive Hold where
  /-- Before `rmv_from_timer_list`. -/
  | rmv
  /-- Before the `atomic_dec` that follows when it succeeds. -/
  | dec
  /-- The reply is processed. -/
  | use
  /-- Before the `atomic_dec_and_test` of `destroy_transaction`. -/
  | test
  /-- Before `shm_free`. -/
  | free
deriving Repr, DecidableEq

/-- Who has taken a transaction out of the table. -/
inductive Claim where
  | reply | timeout
deriving Repr, DecidableEq

/-- `struct trans`; the last three fields are there to talk about runs. -/
structure Tr where
  stage : Stage
  refCnt : Int
  /-- `linker` is linked. -/
  inTable : Bool
  /-- `timeout.timeout`. -/
  timeout : Nat
  freed : Bool
  /-- The replies that have found it. -/
  holds : List Hold
  claims : List Claim
  /-- How often `ref_cnt` has reached zero. -/
  zeros : Nat
deriving Repr, DecidableEq

/-- Where the timer thread stands. -/
inductive Timer where
  | idle
  /-- The quick check of `get_expired_from_timer_list` has read the head of the list. -/
  | peeked (tl time : Nat)
  /-- Before the lock. -/
  | expired (time : Nat)
  /-- The loop of `timeout_handler`, with the rest of the detached chain. -/
  | walk (tl : List Nat)
  /-- Before `remove_cell_from_htable`. -/
  | remove (tr : Nat) (tl : List Nat)
  | dec (tr : Nat) (tl : List Nat)
  /-- Before `timeout_f`. -/
  | call (tr : Nat) (tl : List Nat)
  | test (tr : Nat) (tl : List Nat)
  | free (tr : Nat) (tl : List Nat)
deriving Repr, DecidableEq

structure Sys where
  /-- Transactions by address. -/
  trs : Nat → Option Tr
  next : Nat
  /-- `tr_timeout_timer`. -/
  timerList : List Nat
  timer : Timer
  jiffies : Nat
  /-- Freed memory was touched. -/
  fault : Bool

/-- `TR_TIMEOUT_TIMEOUT`. -/
def trTimeout : Nat := 10

namespace Sys

/-- Change a transaction. -/
def put (s : Sys) (i : Nat) (t : Tr) : Sys :=
  { s with trs := fun j => if j = i then some t else s.trs j }

/-- Was this memory freed? -/
def isFreed (s : Sys) (i : Nat) : Bool := (s.trs i).any (·.freed)

/-- Touch some transactions. -/
def touch (s : Sys) (is : List Nat) : Sys := { s with fault := s.fault || is.any s.isFreed }

/-- The transactions in the table: neighbours of the one a table operation is about. -/
def linked (s : Sys) : List Nat := (List.range s.next).filter fun i => (s.trs i).any (·.inTable)

end Sys

/-- `atomic_dec_and_test`: the count, and one more zero when it gets there. -/
def Tr.decTest (t : Tr) : Tr :=
  { t with refCnt := t.refCnt - 1, zeros := if t.refCnt - 1 = 0 then t.zeros + 1 else t.zeros }

namespace Sys

/-- The next step of `send_req_to_peer` or `internal_send_request`. -/
def send (s : Sys) (i : Nat) (t : Tr) : Option Sys :=
  match t.stage with
  | .created =>
      some ((s.touch (i :: s.linked)).put i { t with inTable := true, stage := .linked })
  | .linked =>
      some ((s.touch [i]).put i { t with refCnt := t.refCnt + 1, stage := .counted })
  | .counted =>
      some ({ (s.touch (i :: s.timerList)).put i
                { t with timeout := s.jiffies + trTimeout, stage := .timed } with
              timerList := s.timerList ++ [i] })
  -- `safe_write` works on the buffer, which is no longer the transaction's
  | .timed => some ((s.touch []).put i { t with stage := .sent })
  | .dropping => some ((s.touch [i]).put i { t with freed := true, stage := .dropped })
  | .sent => none
  | .dropped => none

/-- The peer is not connected: `destroy_transaction` instead of sending. -/
def giveUp (s : Sys) (i : Nat) (t : Tr) : Option Sys :=
  match t.stage with
  | .created =>
      let t' := t.decTest
      some ((s.touch [i]).put i
        { t' with stage := if t'.refCnt = 0 then .dropping else .dropped })
  | _ => none

/-- `cell_lookup_and_remove`, for a reply to a request that has been written. -/
def reply (s : Sys) (i : Nat) (t : Tr) : Option Sys :=
  if t.stage = .sent then
    let s := s.touch s.linked
    if t.inTable then
      some (s.put i { t with inTable := false, holds := t.holds ++ [.rmv]
                             claims := t.claims ++ [.reply] })
    else some s
  else none

/-- The next step of the `k`-th reply that has found the transaction. -/
def handle (s : Sys) (i : Nat) (t : Tr) (k : Nat) : Option Sys :=
  match t.holds[k]? with
  | none => none
  | some .rmv =>
      let s := s.touch (i :: s.timerList)
      if i ∈ s.timerList then
        some { s.put i { t with holds := t.holds.set k .dec } with
               timerList := s.timerList.erase i }
      else some (s.put i { t with holds := t.holds.set k .use })
  | some .dec =>
      some ((s.touch [i]).put i { t with refCnt := t.refCnt - 1, holds := t.holds.set k .use })
  | some .use => some ((s.touch [i]).put i { t with holds := t.holds.set k .test })
  | some .test =>
      let t' := t.decTest
      some ((s.touch [i]).put i
        { t' with holds := if t'.refCnt = 0 then t.holds.set k .free else t.holds.eraseIdx k })
  | some .free =>
      some ((s.touch [i]).put i { t with freed := true, holds := t.holds.eraseIdx k })

/-- The links at the front of the list that have expired. -/
def isExpired (s : Sys) (time i : Nat) : Bool := (s.trs i).any fun t => t.timeout ≤ time

/-- The next step of the timer thread. -/
def tickTimer (s : Sys) : Option Sys :=
  match s.timer with
  | .idle =>
      match s.timerList with
      | [] => some s
      -- the head is read without the lock and looked at in the next step
      | i :: _ => some { s with timer := .peeked i s.jiffies }
  | .peeked i time =>
      let s := s.touch [i]
      some { s with timer := if s.isExpired time i then .expired time else .idle }
  | .expired time =>
      let s := s.touch s.timerList
      some { s with timer := .walk (s.timerList.takeWhile (s.isExpired time))
                    timerList := s.timerList.dropWhile (s.isExpired time) }
  | .walk [] => some { s with timer := .idle }
  | .walk (i :: tl) => some { s.touch [i] with timer := .remove i tl }
  | .remove i tl =>
      match s.trs i with
      | none => none
      | some t =>
          let s := s.touch (i :: s.linked)
          -- whoever finds it in the table has claimed it
          if t.inTable then
            some { s.put i { t with inTable := false, claims := t.claims ++ [.timeout] } with
                   timer := .dec i tl }
          else some { s with timer := .test i tl }
  | .dec i tl =>
      match s.trs i with
      | none => none
      | some t =>
          some { (s.touch [i]).put i { t with refCnt := t.refCnt - 1 } with timer := .call i tl }
  | .call i tl => some { s.touch [i] with timer := .test i tl }
  | .test i tl =>
      match s.trs i with
      | none => none
      | some t =>
          let t' := t.decTest
          some { (s.touch [i]).put i t' with
                 timer := if t'.refCnt = 0 then .free i tl else .walk tl }
  | .free i tl =>
      match s.trs i with
      | none => none
      | some t => some { (s.touch [i]).put i { t with freed := true } with timer := .walk tl }

end Sys

/-- What can happen next. -/
inductive Act where
  | create
  | send (i : Nat)
  | giveUp (i : Nat)
  | reply (i : Nat)
  | handle (i k : Nat)
  | timer
  | tick
deriving Repr, DecidableEq

namespace Sys

/-- One step of the system. -/
def step (s : Sys) : Act → Option Sys
  | .create =>
      some { s.put s.next { stage := .created, refCnt := 1, inTable := false, timeout := 0
                            freed := false, holds := [], claims := [], zeros := 0 } with
             next := s.next + 1 }
  | .send i => (s.trs i).bind (s.send i)
  | .giveUp i => (s.trs i).bind (s.giveUp i)
  | .reply i => (s.trs i).bind (s.reply i)
  | .handle i k => (s.trs i).bind (s.handle i · k)
  | .timer => s.tickTimer
  | .tick => some { s with jiffies := s.jiffies + 1 }

/-- No transactions, and the timer thread asleep. -/
def start (jiffies : Nat) : Sys :=
  { trs := fun _ => none, next := 0, timerList := [], timer := .idle, jiffies, fault := false }

/-- The states of runs whose steps all satisfy `ok`. -/
def Runs (ok : Sys → Act → Prop) : Sys → Prop := Reach (fun s => ∃ j, s = start j) step ok

end Sys

end Disc.Transport.Lifecycle
