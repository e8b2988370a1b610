import Disc.Digest.Challenge
import Disc.Msg.Answer

/-!
# Asking the database

What `do_auth` and `check_group` of `db.c` do alike: they put two AVPs of a request into a
query, and ask the database. The query is as long as was reckoned with, with two bytes to spare.

`check_group` looks for two AVPs, but both times it is the first one it tests for being there.
-/

namespace Disc.Digest

open Disc.Lib Disc.Server Disc.Msg

/-! ## The code -/

/-- How the database answers a query: not at all, with no result, without a row, or with one. -/
inductive DbAnswer where
  | queryError
  | noResult
  | noRow
  | row (first : List UInt8)
deriving Repr, DecidableEq

/-- What `do_auth` and `check_group` return. -/
inductive AuthCode where
  | authorized
  | notAuthorized
  | rejected
  | mysqlError
  | nonceStale
  | notUserIn
  | userIn
deriving Repr, DecidableEq

/-- `AAAFindMatchingAVP(msg, NULL, code, vendorID, AAA_FORWARD_SEARCH)`. -/
def findAvp (h : Heap) (m : Message) (code : UInt32) : Res (Option Nat) :=
  aaaFindMatchingAVP h m none code 0 .forward

/-- `avp->data`; a null pointer has none. -/
def avpStr (h : Heap) (avp : Option Nat) : Res Str := do
  let x ← Res.ofAccess avp
  let a ← Res.ofAccess h.cells[x]?
  return a.data

/-- Its bytes. -/
def avpData (h : Heap) (avp : Option Nat) : Res (List UInt8) := do
  let s ← avpStr h avp
  Res.ofAccess s.bytes

/-- How a lookup ends. -/
inductive Lookup where
  | noMemory
  | error
  | noRow
  | row (first : List UInt8)
deriving Repr, DecidableEq

/-- What `mysql_query`, `mysql_store_result` and `mysql_fetch_lengths` make of an answer. -/
def DbAnswer.lookup : DbAnswer → Lookup
  | .queryError | .noResult => .error
  | .noRow => .noRow
  | .row first => .row first

/--
What a server has besides the request: an allocation for a query, if there is memory, and the
database, if there is a connection. A query is a string to it.
-/
structure DbEnv where
  queryMem : Option (Nat → UInt8)
  mysql : Option (List UInt8 → DbAnswer)

/-- Putting the query together and asking. -/
def ask (env : DbEnv) (select a selectc b : List UInt8) : Res Lookup :=
  let queryLen := select.length + a.length + selectc.length + b.length + 5
  match env.queryMem with
  | none => .ok .noMemory
  | some junk => do
      let (query, _) ← copyAll [select, a, selectc, b, [34, 0]] (fresh junk queryLen) 0
      match env.mysql with
      | none => return .error
      | some db => return (db (Routes.cString query)).lookup

/-- `check_group`. -/
def checkGroup (env : DbEnv) (h : Heap) (m : Message) : Res AuthCode := do
  let avpU ← findAvp h m 1
  if avpU.isNone then return .notUserIn
  else do
    let avpG ← findAvp h m 405
    if avpU.isNone then return .notUserIn
    else do
      let u ← avpData h avpU
      let g ← avpData h avpG
      match ← ask env (ascii "SELECT * FROM sipgroups WHERE user=\"") u
          (ascii "\" AND user_group=\"") g with
      | .noMemory => return .notUserIn
      | .error => return .mysqlError
      | .noRow => return .notUserIn
      | .row _ => return .userIn

/-! ## What a message says -/

/-- The data of the first AVP with this code. -/
def firstData (vs : List AvpView) (code : UInt32) : Option (List UInt8) :=
  (vs.find? fun v => v.code = code ∧ v.vendorId = 0).map AvpView.data

section Find

variable {h : Heap} {m : Message} {ids : List Nat} {vs : List AvpView} {code : UInt32}

/-- The first AVP with a code is the one whose view is the first with it. -/
theorem find_views (hs : views h ids = some vs) :
    match firstData vs code with
    | none => ids.find? (h.isAvp code 0) = none
    | some d => ∃ x a, ids.find? (h.isAvp code 0) = some x ∧ h.cells[x]? = some a
        ∧ a.data.bytes = some d := by
  unfold views at hs
  induction ids generalizing vs with
  | nil =>
      obtain rfl : vs = [] := by simpa [eq_comm] using hs
      rfl
  | cons x ids ih =>
      rw [List.mapM_cons] at hs
      obtain ⟨u, hx, hs⟩ := Option.bind_eq_some_iff.mp hs
      obtain ⟨us, hus, he⟩ := Option.bind_eq_some_iff.mp hs
      obtain rfl : u :: us = vs := by simpa using he
      obtain ⟨a, ha, hview⟩ := Option.bind_eq_some_iff.mp hx
      obtain ⟨hdata, -, hcode, -, hvendor⟩ := view_eq_some hview
      have his : h.isAvp code 0 x = decide (u.code = code ∧ u.vendorId = 0) := by
        simp only [Heap.isAvp, ha, Option.any_some, IsAvp, hcode, hvendor]
      unfold firstData
      by_cases hu : u.code = code ∧ u.vendorId = 0
      · rw [List.find?_cons_of_pos (by simpa using hu), Option.map_some]
        exact ⟨x, a, List.find?_cons_of_pos (by simpa [his] using hu), ha, hdata⟩
      · rw [List.find?_cons_of_neg (by simpa using hu),
          List.find?_cons_of_neg (by simpa [his] using hu)]
        exact ih hus

theorem findAvp_eq (hh : Holds h m ids vs) (code : UInt32) :
    findAvp h m code = .ok (ids.find? (h.isAvp code 0)) :=
  searchAvp_eq hh.list.chain.fwd hh.list.alloc (hh.list.chain.length_le hh.list.alloc)

/-- No AVP with this code. -/
theorem findAvp_none (hh : Holds h m ids vs) (hf : firstData vs code = none) :
    findAvp h m code = .ok none := by
  have hfind := @find_views h ids vs code hh.seq
  rw [hf] at hfind
  rw [findAvp_eq hh, hfind]

/-- The first AVP with this code, and what is in it. -/
theorem findAvp_some (hh : Holds h m ids vs) {d : List UInt8} (hf : firstData vs code = some d) :
    ∃ x, findAvp h m code = .ok (some x) ∧ avpData h (some x) = .ok d := by
  have hfind := @find_views h ids vs code hh.seq
  rw [hf] at hfind
  obtain ⟨x, a, hx, ha, hd⟩ := hfind
  refine ⟨x, by rw [findAvp_eq hh, hx], ?_⟩
  simp only [avpData, avpStr, Res.ofAccess_some, Res.ok_bind, Res.pure_eq, ha, hd]

/-- Any AVPs are those of some message. -/
theorem exists_holds (vs : List AvpView) : ∃ h m ids, Holds h m ids vs := by
  induction vs using List.reverseRecOn with
  | nil => exact ⟨⟨[]⟩, Message.zero, [], ⟨⟨List.nodup_nil, rfl, rfl⟩, by simp⟩, rfl⟩
  | append_singleton vs v ih =>
      obtain ⟨h, m, ids, hh⟩ := ih
      have hview : (⟨none, none, v.code, v.flags, .data, v.vendorId, ⟨v.data, 0, v.data.length⟩,
          false⟩ : Avp).view = some v := by
        have hbytes := slice_append [] v.data []
        rw [List.nil_append, List.append_nil] at hbytes
        exact congrArg (Option.map _) hbytes
      obtain ⟨h', m', -, hh', -⟩ := link_view hh hview
      exact ⟨h', m', _, hh'⟩

end Find

/-! ## The query -/

/-- The query the database gets. -/
def queryText (select a selectc b : List UInt8) : List UInt8 :=
  Routes.cString (select ++ a ++ selectc ++ b ++ [34])

/-- A string in a buffer ends at its zero, whatever is behind that. -/
theorem cString_zero (s rest : List UInt8) : Routes.cString (s ++ 0 :: rest) = Routes.cString s := by
  unfold Routes.cString
  induction s with
  | nil => rfl
  | cons b s ih =>
      by_cases hb : b = 0
      · simp [hb]
      · rw [List.cons_append, List.takeWhile_cons_of_pos (by simpa using hb),
          List.takeWhile_cons_of_pos (by simpa using hb), ih]

/-- How the lookup for a query ends. -/
def DbEnv.lookup (env : DbEnv) (query : List UInt8) : Lookup :=
  if env.queryMem.isNone then .noMemory
  else match env.mysql with
    | none => .error
    | some db => (db query).lookup

/-- **The query has room**, and the database gets it as a string. -/
theorem ask_eq (env : DbEnv) (select a selectc b : List UInt8) :
    ask env select a selectc b = .ok (env.lookup (queryText select a selectc b)) := by
  unfold ask DbEnv.lookup
  cases env.queryMem with
  | none => rfl
  | some junk =>
      have hroom : [select, a, selectc, b, [34, 0]].flatten.length
          ≤ select.length + a.length + selectc.length + b.length + 5 := by
        simp only [List.flatten_cons, List.flatten_nil, List.length_append, List.length_nil,
          List.length_cons]
        omega
      have hcopy := copyAll_fresh junk _ _ hroom
      have hstring : ∀ rest, Routes.cString ([select, a, selectc, b, [34, 0]].flatten ++ rest)
          = queryText select a selectc b := by
        intro rest
        have hflat : [select, a, selectc, b, [34, 0]].flatten ++ rest
            = (select ++ a ++ selectc ++ b ++ [34]) ++ 0 :: rest := by simp
        rw [hflat, cString_zero, queryText]
      dsimp only
      rw [hcopy, Res.ok_bind]
      cases env.mysql with
      | none => rfl
      | some db =>
          simp only [hstring]
          rfl

/-! ## Groups -/

/-- What `check_group` makes of what the lookup ends with. -/
def groupCode : Lookup → AuthCode
  | .noMemory | .noRow => .notUserIn
  | .error => .mysqlError
  | .row _ => .userIn

/-- The query for a user and a group. -/
def groupQuery (user group : List UInt8) : List UInt8 :=
  queryText (ascii "SELECT * FROM sipgroups WHERE user=\"") user (ascii "\" AND user_group=\"") group

/--
**A group is checked** as it should be for a request with a user and a group, or without a user.
For a user without a group `check_group` follows a null pointer, and it does so for no other
request.
-/
theorem checkGroup_eq (env : DbEnv) {h : Heap} {m : Message} {ids : List Nat} {vs : List AvpView}
    (hh : Holds h m ids vs) :
    checkGroup env h m = match firstData vs 1, firstData vs 405 with
      | none, _ => .ok .notUserIn
      | some _, none => .fault
      | some user, some group => .ok (groupCode (env.lookup (groupQuery user group))) := by
  unfold checkGroup
  cases hu : firstData vs 1 with
  | none =>
      rw [findAvp_none hh hu, Res.ok_bind]
      rfl
  | some user =>
      obtain ⟨x, hx, huser⟩ := findAvp_some hh hu
      rw [hx, Res.ok_bind]
      cases hg : firstData vs 405 with
      | none =>
          rw [findAvp_none hh hg]
          simp only [Option.isNone_some, Bool.false_eq_true, if_false, Res.ok_bind, huser]
          rfl
      | some group =>
          obtain ⟨y, hy, hgroup⟩ := findAvp_some hh hg
          rw [hy]
          simp only [Option.isNone_some, Bool.false_eq_true, if_false, Res.ok_bind, huser, hgroup,
            ask_eq]
          cases hr : env.lookup (groupQuery user group) <;> simp only [groupQuery] at hr <;>
            simp only [hr] <;> rfl

/-- A user, and no group. -/
theorem checkGroup_eq_no_group :
    ∃ h m ids, Holds h m ids [⟨1, 64, 0, ascii "bob"⟩]
      ∧ checkGroup ⟨some fun _ => 0, some fun _ => .noRow⟩ h m = .fault := by
  obtain ⟨h, m, ids, hh⟩ := exists_holds [⟨1, 64, 0, ascii "bob"⟩]
  exact ⟨h, m, ids, hh, checkGroup_eq ⟨some fun _ => 0, some fun _ => .noRow⟩ hh⟩

end Disc.Digest
