import Disc.Digest.Queries

/-!
# Accounting

`do_acc` of `db.c`. Twelve AVPs of a request may each fill a column of a new row; the thirteenth
column is the time. The statement is put together in two buffers, one for the columns and one
for the values, whose lengths are counted first. Behind every column and every value there is a
comma, and the last one of each is overwritten with the closing bracket.

The columns are copied with lengths of their own, from another table. The values are collected
in an array that all workers share; here one call is made at a time.
-/

namespace Disc.Digest

open Disc.Lib Disc.Server Disc.Msg

/-! ## The code -/

/-- An entry of `col`, with that of `col_len`. -/
structure AccCol where
  name : List UInt8
  len : Nat
deriving Repr, DecidableEq

/-- The first entries of `col`, `col_len` and `avpname`. -/
def accCols : List (AccCol × UInt32) :=
  [(⟨ascii "SIP_FROM", 8⟩, 560), (⟨ascii "SIP_TO", 6⟩, 561), (⟨ascii "SIP_STATUS", 10⟩, 554),
    (⟨ascii "SIP_METHOD", 10⟩, 553), (⟨ascii "I_URI", 5⟩, 558), (⟨ascii "O_URI", 5⟩, 559),
    (⟨ascii "FROM_URI", 8⟩, 551), (⟨ascii "TO_URI", 6⟩, 552), (⟨ascii "SIP_CALLID", 10⟩, 550),
    (⟨ascii "USERNAME", 8⟩, 1), (⟨ascii "FROMTAG", 7⟩, 555), (⟨ascii "TOTAG", 5⟩, 556)]

/-- The last entry of `col` and `col_len`. -/
def timeCol : AccCol := ⟨ascii "TIME", 4⟩

/--
What a call of `do_acc` meets: its allocations, in order; what `strftime` writes, which the
format makes nineteen characters; and whether the database takes a statement. No other call is
under way, which would write to the same `values`.
-/
structure AccEnv where
  valueMem : Nat → Option (Nat → UInt8)
  timeMem : Option (Nat → UInt8)
  queryMem : Option (Nat → UInt8)
  tmpMem : Option (Nat → UInt8)
  stamp : List UInt8
  stamp_len : stamp.length = 19
  stamp_str : 0 ∉ stamp
  mysql : Option (List UInt8 → Bool)

/-- The loop that fills `values`; `i` of its allocations were made. -/
def collectValues (mem : Nat → Option (Nat → UInt8)) (h : Heap) (m : Message) :
    List (AccCol × UInt32) → Nat → Res (Option (List (AccCol × Option (List UInt8))))
  | [], _ => .ok (some [])
  | (c, code) :: cols, i => do
      let avp ← findAvp h m code
      if avp.isNone then do
        let values ← collectValues mem h m cols i
        return values.map ((c, none) :: ·)
      else
        match mem i with
        | none => return none
        | some junk => do
            let data ← avpData h avp
            let (s, _) ← copyAll [data] (fresh junk data.length) 0
            let values ← collectValues mem h m cols (i + 1)
            return values.map ((c, some s) :: ·)

/-- `cnt_col`. -/
def cntCol (values : List (AccCol × Option (List UInt8))) : Nat :=
  (values.map fun v => if v.2.isSome then v.1.name.length + 1 else 0).sum

/-- `cnt_values`. -/
def cntValues (values : List (AccCol × Option (List UInt8))) : Nat :=
  (values.map fun v => (v.2.map fun s => s.length + 3).getD 0).sum

/-- The loop that writes the columns to `query` and the values to `tmp`. -/
def writeValues : List (AccCol × Option (List UInt8)) → List UInt8 → Nat → List UInt8 → Nat →
    Res ((List UInt8 × Nat) × (List UInt8 × Nat))
  | [], query, pos, tmp, post => .ok ((query, pos), (tmp, post))
  | (_, none) :: values, query, pos, tmp, post => writeValues values query pos tmp post
  | (c, some s) :: values, query, pos, tmp, post => do
      let (query, pos) ← copyAll [c.name.take c.len, [44]] query pos
      let (tmp, post) ← copyAll [[34], s, [34, 44]] tmp post
      writeValues values query pos tmp post

/-- `query1`. -/
def query1 : List UInt8 := ascii "INSERT INTO acc ("

/-- `query2`. -/
def query2 : List UInt8 := ascii " VALUES ("

/-- The statement, from the values on, and whether the database takes it. -/
def insertValues (env : AccEnv) (values : List (AccCol × Option (List UInt8))) : Res Bool :=
  let len := query1.length + cntCol values + query2.length + cntValues values + 1
  match env.queryMem, env.tmpMem with
  | none, _ => .ok false
  | some _, none => .ok false
  | some junkQuery, some junkTmp => do
      let (query, pos) ← copyAll [query1] (fresh junkQuery len) 0
      let ((query, pos), (tmp, post)) ← writeValues values query pos (fresh junkTmp (cntValues values)) 0
      let query ← Res.ofAccess (poke query (pos - 1) [41])
      let tmp ← Res.ofAccess (poke tmp (post - 1) [41])
      let (query, pos) ← copyAll [query2] query pos
      let text ← Res.ofAccess (slice tmp 0 post)
      let (query, pos) ← copyAll [text] query pos
      let query ← Res.ofAccess (poke query pos [0])
      let db ← Res.ofAccess env.mysql
      return db (Routes.cString query)

/-- `do_acc`: whether it returns `AAA_ERR_SUCCESS`. -/
def doAcc (env : AccEnv) (h : Heap) (m : Message) : Res Bool := do
  match ← collectValues env.valueMem h m accCols 0 with
  | none => return false
  | some values =>
      match env.timeMem with
      | none => return false
      | some junk => do
          let s ← Res.ofAccess (poke (fresh junk 20) 0 (env.stamp ++ [0]))
          insertValues env (values ++ [(timeCol, some (Routes.cString s))])

/-! ## The statement -/

/-- The columns a request fills, and what with. -/
def accRow (vs : List AvpView) (stamp : List UInt8) : List (List UInt8 × List UInt8) :=
  (accCols.filterMap fun c => (firstData vs c.2).map (c.1.name, ·)) ++ [(timeCol.name, stamp)]

/-- A value as it is written. -/
def quoted (s : List UInt8) : List UInt8 := [34] ++ s ++ [34]

/-- The statement for a row. -/
def insertText (row : List (List UInt8 × List UInt8)) : List UInt8 :=
  ascii "INSERT INTO acc (" ++ [44].intercalate (row.map Prod.fst) ++ ascii ") VALUES ("
    ++ [44].intercalate (row.map fun c => quoted c.2) ++ ascii ")"

/-- The row the values make. -/
def rowOf (values : List (AccCol × Option (List UInt8))) : List (List UInt8 × List UInt8) :=
  values.filterMap fun v => v.2.map (v.1.name, ·)

/-- The lengths in the table are those of the columns. -/
theorem accCols_len : ∀ c ∈ accCols, c.1.len = c.1.name.length := by decide

/-- With a comma behind each is with commas between them and one at the end. -/
theorem flatMap_comma (xs : List (List UInt8)) (h : xs ≠ []) :
    xs.flatMap (· ++ [44]) = [44].intercalate xs ++ [44] := by
  induction xs with
  | nil => exact absurd rfl h
  | cons x xs ih =>
      cases xs with
      | nil => simp [List.intercalate]
      | cons y xs =>
          rw [List.flatMap_cons, ih (by simp)]
          simp [List.intercalate]

section

variable {env : AccEnv} {h : Heap} {m : Message} {ids : List Nat} {vs : List AvpView}
  {values : List (AccCol × Option (List UInt8))}

/-- With memory for all of them, the values are what the request says. -/
theorem collectValues_eq (hh : Holds h m ids vs) {mem : Nat → Option (Nat → UInt8)}
    (hmem : ∀ i, (mem i).isSome) (cols : List (AccCol × UInt32)) (i : Nat) :
    collectValues mem h m cols i = .ok (some (cols.map fun c => (c.1, firstData vs c.2))) := by
  induction cols generalizing i with
  | nil => rfl
  | cons c cols ih =>
      obtain ⟨c, code⟩ := c
      rw [collectValues, List.map_cons]
      cases hf : firstData vs code with
      | none =>
          rw [findAvp_none hh hf, Res.ok_bind]
          simp only [Option.isNone_none, if_true, ih, Res.ok_bind]
          rfl
      | some d =>
          obtain ⟨x, hx, hdata⟩ := findAvp_some hh hf
          obtain ⟨junk, hjunk⟩ := Option.isSome_iff_exists.mp (hmem i)
          have hflat : [d].flatten = d := by simp
          have hcopy := copyAll_fresh junk [d] d.length (by rw [hflat])
          have hfull : (fresh junk d.length).drop d.length = [] := by
            rw [List.drop_eq_nil_iff, length_fresh]
          rw [hflat, hfull, List.append_nil] at hcopy
          simp only [hx, Res.ok_bind, Option.isNone_some, Bool.false_eq_true, if_false, hjunk, hdata,
            hcopy, ih]
          rfl

/-- What the loop writes to `query`. -/
def colText (values : List (AccCol × Option (List UInt8))) : List UInt8 :=
  ((rowOf values).map Prod.fst).flatMap (· ++ [44])

/-- What the loop writes to `tmp`. -/
def valText (values : List (AccCol × Option (List UInt8))) : List UInt8 :=
  ((rowOf values).map fun c => quoted c.2).flatMap (· ++ [44])

theorem rowOf_none (c : AccCol) : rowOf ((c, none) :: values) = rowOf values := rfl

theorem rowOf_some (c : AccCol) (s : List UInt8) :
    rowOf ((c, some s) :: values) = (c.name, s) :: rowOf values := rfl

/-- **What is counted is what is written.** -/
theorem cnt_eq (values : List (AccCol × Option (List UInt8))) :
    cntCol values = (colText values).length ∧ cntValues values = (valText values).length := by
  induction values with
  | nil => exact ⟨rfl, rfl⟩
  | cons v values ih =>
      obtain ⟨c, s⟩ := v
      obtain ⟨hc, hv⟩ := ih
      unfold cntCol colText at hc ⊢
      unfold cntValues valText at hv ⊢
      cases s with
      | none => simp [rowOf_none, hc, hv]
      | some s =>
          have hquoted : (quoted s).length = s.length + 2 := by
            rw [quoted, List.length_append, List.length_append, List.length_singleton]
            omega
          rw [rowOf_some]
          simp only [List.map_cons, List.sum_cons, Option.isSome_some, if_true, Option.map_some,
            Option.getD_some, List.flatMap_cons, List.length_append, hc, hv,
            hquoted, List.length_singleton, and_self]

theorem writeValues_eq (hlen : ∀ v ∈ values, v.1.len = v.1.name.length) (pre rest pre' rest' : List UInt8)
    (hq : (colText values).length ≤ rest.length) (ht : (valText values).length ≤ rest'.length) :
    writeValues values (pre ++ rest) pre.length (pre' ++ rest') pre'.length
      = .ok ((pre ++ colText values ++ rest.drop (colText values).length,
            (pre ++ colText values).length),
          (pre' ++ valText values ++ rest'.drop (valText values).length,
            (pre' ++ valText values).length)) := by
  induction values generalizing pre rest pre' rest' with
  | nil => simp [writeValues, colText, valText, rowOf]
  | cons v values ih =>
      obtain ⟨c, s⟩ := v
      obtain ⟨hclen, hmore⟩ := List.forall_mem_cons.mp hlen
      cases s with
      | none => exact ih hmore _ _ _ _ hq ht
      | some s =>
          have hcol : colText ((c, some s) :: values) = (c.name ++ [44]) ++ colText values := by
            rw [colText, rowOf_some]
            rfl
          have hval : valText ((c, some s) :: values) = (quoted s ++ [44]) ++ valText values := by
            rw [valText, rowOf_some]
            rfl
          rw [hcol] at hq ⊢
          rw [hval] at ht ⊢
          have hname : [c.name.take c.len, [44]].flatten = c.name ++ [44] := by
            rw [show c.len = c.name.length from hclen, List.take_length]
            simp
          have hquoted : [[34], s, [34, 44]].flatten = quoted s ++ [44] := by simp [quoted]
          rw [List.length_append] at hq ht
          have hcopy := copyAll_eq [c.name.take c.len, [44]] pre rest (by
            rw [hname]
            omega)
          have hcopy' := copyAll_eq [[34], s, [34, 44]] pre' rest' (by
            rw [hquoted]
            omega)
          rw [hname] at hcopy
          rw [hquoted] at hcopy'
          have hnext := ih hmore (pre ++ (c.name ++ [44])) (rest.drop (c.name ++ [44]).length)
            (pre' ++ (quoted s ++ [44])) (rest'.drop (quoted s ++ [44]).length)
            (by rw [List.length_drop]; omega) (by rw [List.length_drop]; omega)
          rw [writeValues, hcopy, Res.ok_bind]
          dsimp only
          rw [hcopy', Res.ok_bind]
          dsimp only
          rw [hnext, List.drop_drop, List.drop_drop, ← List.length_append, ← List.length_append]
          simp only [List.append_assoc]

/-- The bracket takes the place of the last comma. -/
theorem poke_comma (a rest : List UInt8) :
    poke (a ++ [44] ++ rest) ((a ++ [44]).length - 1) [41] = some (a ++ [41] ++ rest) := by
  have hpos : (a ++ [44]).length - 1 = a.length := by
    rw [List.length_append, List.length_singleton]
    omega
  rw [hpos, List.append_assoc, poke_behind a [41] ([44] ++ rest) (by simp)]
  rfl

/-- **The statement is as long as was counted**, and the database gets it as a string. -/
theorem insertValues_eq (hlen : ∀ v ∈ values, v.1.len = v.1.name.length) (hrow : rowOf values ≠ [])
    (hquery : env.queryMem.isSome) (htmp : env.tmpMem.isSome) :
    insertValues env values = match env.mysql with
      | none => .fault
      | some db => .ok (db (Routes.cString (insertText (rowOf values)))) := by
  obtain ⟨junkQuery, hjq⟩ := Option.isSome_iff_exists.mp hquery
  obtain ⟨junkTmp, hjt⟩ := Option.isSome_iff_exists.mp htmp
  obtain ⟨hcnt, hcnt'⟩ := cnt_eq values
  obtain ⟨cols, hcols⟩ : ∃ cols, cols = [44].intercalate ((rowOf values).map Prod.fst) := ⟨_, rfl⟩
  obtain ⟨vals, hvals⟩ : ∃ vals, vals = [44].intercalate ((rowOf values).map fun c => quoted c.2) :=
    ⟨_, rfl⟩
  have hcoltext : colText values = cols ++ [44] := by
    rw [hcols]
    exact flatMap_comma _ (by simpa using hrow)
  have hvaltext : valText values = vals ++ [44] := by
    rw [hvals]
    exact flatMap_comma _ (by simpa using hrow)
  -- the columns
  obtain ⟨query, hquerydef⟩ : ∃ query, query
    = fresh junkQuery (query1.length + cntCol values + query2.length + cntValues values + 1) := ⟨_, rfl⟩
  have hqlen : query.length = query1.length + (cols.length + 1) + query2.length + (vals.length + 1)
      + 1 := by
    rw [hquerydef, length_fresh, hcnt, hcnt', hcoltext, hvaltext, List.length_append,
      List.length_append, List.length_singleton]
  have hone : ∀ s : List UInt8, [s].flatten = s := by simp
  have hfirst := copyAll_eq [query1] [] query (by rw [hone]; omega)
  rw [hone, List.nil_append, List.nil_append] at hfirst
  obtain ⟨rest, hrest⟩ : ∃ rest, rest = query.drop query1.length := ⟨_, rfl⟩
  have hrestlen : rest.length = (cols.length + 1) + query2.length + (vals.length + 1) + 1 := by
    rw [hrest, List.length_drop, hqlen]
    omega
  rw [← hrest] at hfirst
  -- the columns and the values
  obtain ⟨tmp, htmpdef⟩ : ∃ tmp, tmp = fresh junkTmp (cntValues values) := ⟨_, rfl⟩
  have htmplen : tmp.length = vals.length + 1 := by
    rw [htmpdef, length_fresh, hcnt', hvaltext, List.length_append, List.length_singleton]
  have hwrite := writeValues_eq hlen query1 rest [] tmp
    (by rw [hcoltext, List.length_append, List.length_singleton]; omega)
    (by rw [hvaltext, List.length_append, List.length_singleton]; omega)
  obtain ⟨head, hhead⟩ : ∃ head, head = query1 ++ cols := ⟨_, rfl⟩
  obtain ⟨rest', hrest'⟩ : ∃ rest', rest' = rest.drop (cols ++ [44]).length := ⟨_, rfl⟩
  have hrestlen' : rest'.length = query2.length + (vals.length + 1) + 1 := by
    rw [hrest', List.length_drop, List.length_append, List.length_singleton, hrestlen]
    omega
  have htmpfull : tmp.drop (vals ++ [44]).length = [] := by
    rw [List.drop_eq_nil_iff, htmplen, List.length_append, List.length_singleton]
  rw [hcoltext, hvaltext, ← hrest', ← List.append_assoc, ← hhead, htmpfull, List.nil_append,
    List.nil_append] at hwrite
  -- the brackets
  have hclose := poke_comma head rest'
  have hclose' := poke_comma vals []
  have hpos : ∀ s : List UInt8, (s ++ [44]).length = (s ++ [41]).length := by
    intro s
    rw [List.length_append, List.length_append]
    rfl
  rw [List.append_nil, List.append_nil] at hclose'
  have hslice := slice_append [] (vals ++ [41]) []
  rw [List.nil_append, List.append_nil] at hslice
  -- the values behind the columns
  have hsecond := copyAll_eq [query2] (head ++ [41]) rest' (by
    rw [hone]
    omega)
  rw [hone] at hsecond
  obtain ⟨rest'', hrest''⟩ : ∃ rest'', rest'' = rest'.drop query2.length := ⟨_, rfl⟩
  have hrestlen'' : rest''.length = vals.length + 2 := by
    rw [hrest'', List.length_drop, hrestlen']
    omega
  rw [← hrest''] at hsecond
  have hthird := copyAll_eq [vals ++ [41]] (head ++ [41] ++ query2) rest'' (by
    rw [hone, List.length_append, List.length_singleton]
    omega)
  rw [hone] at hthird
  have hlast := poke_behind (head ++ [41] ++ query2 ++ (vals ++ [41])) [0]
    (rest''.drop (vals ++ [41]).length) (by
      rw [List.length_drop, hrestlen'', List.length_append, List.length_singleton,
        List.length_singleton]
      omega)
  have hfull : (rest''.drop (vals ++ [41]).length).drop [(0 : UInt8)].length = [] := by
    rw [List.drop_drop, List.drop_eq_nil_iff, hrestlen'', List.length_append]
    rfl
  rw [hfull] at hlast
  have htext : head ++ [41] ++ query2 ++ (vals ++ [41]) = insertText (rowOf values) := by
    rw [hhead, insertText, ← hcols, ← hvals]
    simp only [List.append_assoc]
    rfl
  have hstring : Routes.cString (head ++ [41] ++ query2 ++ (vals ++ [41]) ++ [0] ++ [])
      = Routes.cString (insertText (rowOf values)) := by
    rw [List.append_assoc _ [0] [], ← htext]
    exact cString_zero _ []
  unfold insertValues
  simp only [hjq, hjt, ← hquerydef, ← htmpdef]
  change copyAll [query1] query 0 = _ at hfirst
  change writeValues values (query1 ++ rest) query1.length tmp 0 = _ at hwrite
  change slice (vals ++ [41]) 0 _ = _ at hslice
  rw [hfirst, Res.ok_bind, hwrite, Res.ok_bind, hclose, Res.ofAccess_some, Res.ok_bind,
    List.append_nil, hclose', Res.ofAccess_some, Res.ok_bind, hpos, hsecond, Res.ok_bind, hpos, hslice,
    Res.ofAccess_some, Res.ok_bind, hthird, Res.ok_bind, hlast, Res.ofAccess_some, Res.ok_bind]
  cases env.mysql with
  | none => rfl
  | some db =>
      simp only [hstring]
      rfl

theorem cString_self {s : List UInt8} (h : 0 ∉ s) : Routes.cString s = s := by
  rw [Routes.cString, List.takeWhile_eq_self_iff]
  intro b hb
  simpa using fun h0 : b = 0 => h (h0 ▸ hb)

/--
**What is entered for a request**: the AVPs it has, each in its column, in the order of the
table, and the time. The buffers are exactly as long as the texts, whatever the AVPs hold.
-/
theorem doAcc_eq (hh : Holds h m ids vs) (hvalue : ∀ i, (env.valueMem i).isSome)
    (htime : env.timeMem.isSome) (hquery : env.queryMem.isSome) (htmp : env.tmpMem.isSome) :
    doAcc env h m = match env.mysql with
      | none => .fault
      | some db => .ok (db (Routes.cString (insertText (accRow vs env.stamp)))) := by
  obtain ⟨junk, hjunk⟩ := Option.isSome_iff_exists.mp htime
  have hpoke := poke_front (env.stamp ++ [0]) (fresh junk 20) (by
    rw [List.length_append, env.stamp_len, length_fresh]
    decide)
  have hstamp : ∀ rest, Routes.cString (env.stamp ++ [0] ++ rest) = env.stamp := by
    intro rest
    rw [List.append_assoc]
    exact (cString_zero _ _).trans (cString_self env.stamp_str)
  have hrow : rowOf ((accCols.map fun c => (c.1, firstData vs c.2)) ++ [(timeCol, some env.stamp)])
      = accRow vs env.stamp := by
    unfold rowOf
    rw [List.filterMap_append, List.filterMap_map]
    rfl
  have hlen : ∀ v ∈ (accCols.map fun c => (c.1, firstData vs c.2)) ++ [(timeCol, some env.stamp)],
      v.1.len = v.1.name.length := by
    intro v hv
    rcases List.mem_append.mp hv with hv | hv
    · obtain ⟨c, hc, rfl⟩ := List.mem_map.mp hv
      exact accCols_len c hc
    · obtain rfl := List.mem_singleton.mp hv
      rfl
  have hne : accRow vs env.stamp ≠ [] := by simp [accRow]
  have hinsert := @insertValues_eq env _ hlen (hrow ▸ hne) hquery htmp
  rw [hrow] at hinsert
  rw [doAcc, collectValues_eq hh hvalue, Res.ok_bind, ← hinsert]
  simp only [hjunk, hpoke, Res.ofAccess_some, Res.ok_bind, hstamp]

end

/-- A call, with its two ends in the wrong order. -/
theorem doAcc_eq_call :
    ∃ env h m ids, Holds h m ids [⟨552, 0, 0, ascii "b"⟩, ⟨560, 0, 0, ascii "a"⟩]
      ∧ env.mysql = some (fun q => decide (q = ascii
        "INSERT INTO acc (SIP_FROM,TO_URI,TIME) VALUES (\"a\",\"b\",\"2003-04-14 10:32:51\")"))
      ∧ doAcc env h m = .ok true := by
  obtain ⟨h, m, ids, hh⟩ := exists_holds [⟨552, 0, 0, ascii "b"⟩, ⟨560, 0, 0, ascii "a"⟩]
  refine ⟨⟨fun _ => some fun _ => 7, some fun _ => 7, some fun _ => 7, some fun _ => 7,
    ascii "2003-04-14 10:32:51", by decide, by decide, some _⟩, h, m, ids, hh, rfl, ?_⟩
  rw [doAcc_eq hh (fun _ => rfl) rfl rfl rfl]
  decide +kernel

end Disc.Digest
