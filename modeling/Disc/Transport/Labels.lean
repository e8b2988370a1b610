import Disc.Transport.Ledger

/-!
# Transactions and messages that a peer keeps

Two things every run keeps. A transaction in the table can be found by the hash of
its end-to-end id and by its label, and by no other pair, until one of the entries
has given out all the labels there are. And what stands in the queue for the workers
is a frame: its length is the one its header announces, so decoding it meets all of
its bytes.
-/

namespace Disc.Transport

open Disc.Lib Disc.Msg

/-! ## The table -/

section

variable {cfg : Cfg} {P : List UInt8 → Prop} {l l' : Ledger}

/-- Counters only go up, and labels stay distinct until one of them comes round. -/
structure Relabelled (t t' : HTable Trans) : Prop where
  hashSize : t'.hashSize = t.hashSize
  issued : ∀ c, t.issued c ≤ t'.issued c
  labelled : (∀ c, t'.issued c < 2 ^ 32) → t.Labelled → t'.Labelled

theorem Relabelled.refl (t : HTable Trans) : Relabelled t t :=
  ⟨rfl, fun _ => Nat.le_refl _, fun _ h => h⟩

theorem Relabelled.trans {t₁ t₂ t₃ : HTable Trans} (h : Relabelled t₁ t₂) (h' : Relabelled t₂ t₃) :
    Relabelled t₁ t₃ := by
  refine ⟨h'.hashSize.trans h.hashSize, fun c => Nat.le_trans (h.issued c) (h'.issued c), ?_⟩
  intro hlt hl
  exact h'.labelled hlt (h.labelled (fun c => Nat.lt_of_le_of_lt (h'.issued c) (hlt c)) hl)

theorem Moves.relabelled (h : Moves cfg P l l') : Relabelled l.table l'.table := by
  induction h with
  | trans _ _ ih ih' => exact ih.trans ih'
  | @start l hashCode tr hid =>
      refine ⟨rfl, ?_, ?_⟩
      · intro c
        simp only [HTable.addCell]
        split <;> omega
      · intro hlt hl
        refine hl.addCell tr ?_
        simpa [HTable.addCell] using hlt hashCode
  | drop cells hsub => exact ⟨rfl, fun _ => Nat.le_refl _, fun _ hl => hl.drop hsub⟩
  | _ => exact .refl _

/-- A cell that was not there before is that of a new transaction. -/
theorem Moves.cells (h : Moves cfg P l l') :
    l.nextTrans ≤ l'.nextTrans
      ∧ ∀ c ∈ l'.table.cells, c ∈ l.table.cells ∨ l.nextTrans ≤ c.payload.id := by
  induction h with
  | trans _ _ ih ih' =>
      refine ⟨Nat.le_trans ih.1 ih'.1, ?_⟩
      intro c hc
      rcases ih'.2 c hc with hc | hc
      · exact ih.2 c hc
      · exact Or.inr (Nat.le_trans ih.1 hc)
  | start hashCode tr hid =>
      refine ⟨Nat.le_succ _, ?_⟩
      intro c hc
      rcases List.mem_append.mp hc with hc | hc
      · exact Or.inl hc
      · obtain rfl := List.mem_singleton.mp hc
        exact Or.inr (Nat.le_of_eq hid.symm)
  | drop cells hsub => exact ⟨Nat.le_refl _, fun c hc => Or.inl (hsub.subset hc)⟩
  | _ => exact ⟨Nat.le_refl _, fun _ hc => Or.inl hc⟩

/-- The address of a transaction was given out. -/
theorem Moves.ids (h : Moves cfg P l l') (hi : ∀ c ∈ l.table.cells, c.payload.id < l.nextTrans) :
    ∀ c ∈ l'.table.cells, c.payload.id < l'.nextTrans := by
  induction h with
  | trans _ _ ih ih' => exact ih' (ih hi)
  | start hashCode tr hid =>
      intro c hc
      rcases List.mem_append.mp hc with hc | hc
      · exact Nat.lt_succ_of_lt (hi c hc)
      · obtain rfl := List.mem_singleton.mp hc
        exact Nat.lt_succ_of_le (Nat.le_of_eq hid)
  | drop cells hsub => exact fun c hc => hi c (hsub.subset hc)
  | _ => exact hi

/-- Every label was given to a transaction. -/
theorem Moves.issued_le (h : Moves cfg P l l') (hi : ∀ c, l.table.issued c ≤ l.nextTrans) :
    ∀ c, l'.table.issued c ≤ l'.nextTrans := by
  induction h with
  | trans _ _ ih ih' => exact ih' (ih hi)
  | @start l hashCode tr hid =>
      intro c
      have := hi c
      simp only [HTable.addCell]
      split <;> omega
  | _ => exact hi

/-! ## The read buffer and the queue -/

/-- A buffer that is exactly the message its header announces. -/
def IsFrame (buf : List UInt8) : Prop := msgSize (buf.take 4) = some buf.length

/-- The three length bytes of a frame spell its length. -/
theorem IsFrame.take_eq {buf : List UInt8} (h : IsFrame buf) :
    buf.take (ofBe ((buf.drop 1).take 3)) = buf := by
  obtain ⟨hlen, h20, -⟩ := msgSize_some h
  match buf, h20 with
  | a :: b :: c :: d :: rest, _ =>
      have hd := d.toNat_lt
      have hc := c.toNat_lt
      have hb := b.toNat_lt
      simp only [List.take_succ_cons, List.take_zero, ofBe, List.foldl_cons, List.foldl_nil] at hlen
      refine List.take_of_length_le ?_
      simp only [List.drop_succ_cons, List.drop_zero, List.take_succ_cons, List.take_zero, ofBe,
        List.foldl_cons, List.foldl_nil]
      omega

/-- The read buffer holds an unfinished message, and the queue holds finished ones. -/
structure Inbox (l : Ledger) : Prop where
  rb : ∃ tail, Buffered l.rb tail
  queue : ∀ buf ∈ l.queue, IsFrame buf

theorem Moves.inbox (h : Moves cfg P l l') (hi : Inbox l) : Inbox l' := by
  induction h with
  | trans _ _ ih ih' => exact ih' (ih hi)
  | reset => exact ⟨⟨[], .empty⟩, hi.queue⟩
  | unqueue i => exact ⟨hi.rb, fun buf hb => hi.queue buf (List.mem_of_mem_eraseIdx hb)⟩
  | _ => exact ⟨hi.rb, hi.queue⟩

end

/-- What `do_read` hands over is a frame. -/
theorem Advanced.isFrame {tail avail buf : List UInt8} {out : ReadOut} (h : Advanced tail avail out)
    (hm : out.msg = some buf) : IsFrame buf := by
  obtain ⟨x, -, hx, -⟩ := h.taken
  rw [hm] at hx
  refine size_of_mem_splitFrames (k := 4) (s := tail ++ x) ?_ (by rw [hx]; exact List.mem_singleton.mpr rfl)
  intro hdr n hn
  have := msgSize_some hn
  omega

/-! ## Runs -/

namespace World

variable {cfg : Cfg} {w w' : World} {a : Act}

/-- A property of ledgers that no elementary change and no reading breaks is kept by every step. -/
theorem step_kept {I : Ledger → Prop} (hmove : ∀ l l', Moves cfg (fun _ => True) l l' → I l → I l')
    (hread : ∀ evs avail out, doRead evs w.rb avail = .ok out → I w.ledger →
      I { w.ledger with rb := out.rb }
        ∧ ∀ buf, out.msg = some buf → I { w.ledger with rb := out.rb, queue := w.queue ++ [buf] })
    (hi : I w.ledger) (h : step cfg w a = some w') : I w'.ledger := by
  by_cases ha : a.Reads
  · cases a with
    | read env evs avail =>
        obtain ⟨s, out, -, hout, hm⟩ := read_moves (P := fun _ => True) h
        obtain ⟨hr, hq⟩ := hread evs avail out hout hi
        rcases hm with hm | ⟨buf, hmsg, -, hl⟩
        · exact hmove _ _ hm hr
        · rw [hl]
          exact hq buf hmsg
    | _ => exact absurd ha (by simp [Act.Reads])
  · exact hmove _ _ (step_moves (by cases a <;> simp [Act.Sends]) ha h) hi

/-- What a step does to the table, read or not. -/
theorem step_table (h : step cfg w a = some w') :
    Relabelled w.table w'.table ∧ w.nextTrans ≤ w'.nextTrans
      ∧ ∀ c ∈ w'.table.cells, c ∈ w.table.cells ∨ w.nextTrans ≤ c.payload.id := by
  refine step_kept (w := w) (I := fun l => Relabelled w.table l.table ∧ w.nextTrans ≤ l.nextTrans
    ∧ ∀ c ∈ l.table.cells, c ∈ w.table.cells ∨ w.nextTrans ≤ c.payload.id) ?_ ?_ ?_ h
  · intro l l' hm hi
    refine ⟨hi.1.trans hm.relabelled, Nat.le_trans hi.2.1 hm.cells.1, ?_⟩
    intro c hc
    rcases hm.cells.2 c hc with hc | hc
    · exact hi.2.2 c hc
    · exact Or.inr (Nat.le_trans hi.2.1 hc)
  · intro _ _ _ _ hi
    exact ⟨hi, fun _ _ => hi⟩
  · exact ⟨.refl _, Nat.le_refl _, fun _ hc => Or.inl hc⟩

theorem step_inbox (hi : Inbox w.ledger) (h : step cfg w a = some w') : Inbox w'.ledger := by
  refine step_kept (fun _ _ hm => hm.inbox) ?_ hi h
  intro evs avail out hout hi
  obtain ⟨tail, hb⟩ := hi.rb
  obtain ⟨out', hout', hadv, -⟩ := doRead_advanced evs hb avail
  obtain rfl : out = out' := Res.ok.inj (hout.symm.trans hout')
  obtain ⟨x, -, -, hb', -⟩ := hadv.taken
  refine ⟨⟨⟨_, hb'⟩, hi.queue⟩, ?_⟩
  intro buf hmsg
  refine ⟨⟨_, hb'⟩, ?_⟩
  intro b hbuf
  rcases List.mem_append.mp hbuf with hbuf | hbuf
  · exact hi.queue b hbuf
  · obtain rfl := List.mem_singleton.mp hbuf
    exact hadv.isFrame hmsg

/-- Labels are distinct as long as no entry has given out all of them. -/
theorem labelled_reachable (h : Reachable cfg w) (hlt : ∀ c, w.table.issued c < 2 ^ 32) :
    w.table.Labelled := by
  revert hlt
  refine Reach.invariant (I := fun w => (∀ c, w.table.issued c < 2 ^ 32) → w.table.Labelled) ?_ ?_ h
  · rintro w ⟨nextLabel, ete, jiffies, rfl⟩ -
    exact buildHtable_labelled 256 nextLabel
  · intro w a w' hi _ hst hlt
    obtain ⟨hr, -⟩ := step_table hst
    exact hr.labelled hlt (hi fun c => Nat.lt_of_le_of_lt (hr.issued c) (hlt c))

theorem ids_reachable (h : Reachable cfg w) :
    ∀ c ∈ w.table.cells, c.payload.id < w.nextTrans := by
  refine Reach.invariant (I := fun w => ∀ c ∈ w.table.cells, c.payload.id < w.nextTrans) ?_ ?_ h
  · rintro w ⟨nextLabel, ete, jiffies, rfl⟩
    simp [start, buildHtable]
  · intro w a w' hi _ hst
    exact step_kept (I := fun l => ∀ c ∈ l.table.cells, c.payload.id < l.nextTrans)
      (fun _ _ hm => hm.ids) (fun _ _ _ _ hi => ⟨hi, fun _ _ => hi⟩) hi hst

theorem issued_reachable (h : Reachable cfg w) : ∀ c, w.table.issued c ≤ w.nextTrans := by
  refine Reach.invariant (I := fun w => ∀ c, w.table.issued c ≤ w.nextTrans) ?_ ?_ h
  · rintro w ⟨nextLabel, ete, jiffies, rfl⟩ c
    exact Nat.le_refl 0
  · intro w a w' hi _ hst
    exact step_kept (I := fun l => ∀ c, l.table.issued c ≤ l.nextTrans)
      (fun _ _ hm => hm.issued_le) (fun _ _ _ _ hi => ⟨hi, fun _ _ => hi⟩) hi hst

theorem inbox_reachable (h : Reachable cfg w) : Inbox w.ledger := by
  refine Reach.invariant (I := fun w => Inbox w.ledger) ?_ ?_ h
  · rintro w ⟨nextLabel, ete, jiffies, rfl⟩
    exact ⟨⟨[], .empty⟩, by simp [start, ledger]⟩
  · intro w a w' hi _ hst
    exact step_inbox hi hst

/-! ## Outstanding requests -/

/-- The label of a new transaction is what its request carries as hop-by-hop id. -/
theorem startTrans_label (ete : UInt32) (tr : Trans) {req : List UInt8} (h : 20 ≤ req.length) :
    hopbyhopOf (setWord req 3 (le 4 (w.startTrans ete tr).1.toNat)) = (w.startTrans ete tr).1
      ∧ (w.startTrans ete tr).2.table.cells
        = w.table.cells ++ [⟨w.eteHash ete, (w.startTrans ete tr).1, tr⟩] := by
  refine ⟨?_, rfl⟩
  rw [hopbyhopOf, word_setWord (length_le 4 _) (by omega), ofNat_ofLe_le]

/--
**Requests of one entry have distinct hop-by-hop ids.**

A transaction is outstanding as long as its cell is in the table, and the label of
the cell is the hop-by-hop id its request went out with. Two outstanding requests
whose end-to-end ids have the same hash differ in it, so the two numbers an answer
echoes select the transaction it belongs to. Labels of different entries are not
compared by anything and may be equal.
-/
theorem outstanding_labels (h : Reachable cfg w) (hn : w.nextTrans < 2 ^ 32) :
    (w.table.cells.Pairwise fun l l' => l.hashCode = l'.hashCode → l.label ≠ l'.label)
    ∧ (∀ l ∈ w.table.cells, w.table.cellLookup l.hashCode l.label = some l)
    ∧ ∀ (ete : UInt32) (tr : Trans) (req : List UInt8), 20 ≤ req.length →
      hopbyhopOf (setWord req 3 (le 4 (w.startTrans ete tr).1.toNat)) = (w.startTrans ete tr).1
        ∧ (w.startTrans ete tr).2.table.cells
          = w.table.cells ++ [⟨w.eteHash ete, (w.startTrans ete tr).1, tr⟩] := by
  have hl : w.table.Labelled :=
    labelled_reachable h fun c => Nat.lt_of_le_of_lt (issued_reachable h c) hn
  refine ⟨?_, fun l hmem => hl.cellLookup_eq hmem, fun ete tr req h20 => startTrans_label ete tr h20⟩
  have hkeys : w.table.cells.Pairwise fun l l' => l.key ≠ l'.key := List.pairwise_map.mp hl.distinct
  refine hkeys.imp ?_
  intro l l' hne hcode hlab
  exact hne (Prod.ext hcode hlab)

/-- A request for another node, with its end-to-end id. -/
def sampleReq (ete : UInt8) : List UInt8 :=
  [1, 0, 0, 20, 0x80, 0, 1, 16] ++ List.replicate 8 0 ++ [ete, 0, 0, 0]

/-- A connection is accepted, and two requests are forwarded on it. -/
def sampleForward (ete ete' : UInt8) : List Act :=
  sampleAccept ++ [Act.sendReq sampleEnv (some 1) 0 (sampleReq ete),
    Act.sendReq sampleEnv (some 1) 0 (sampleReq ete')]

/-- Two requests with the same end-to-end id. -/
theorem outstanding_labels_forwarded :
    ∃ w, Reachable sampleCfg w ∧ w.nextTrans < 2 ^ 32
      ∧ w.table.cells.map (fun l => (l.hashCode, l.label)) = [(0, 0), (0, 1)]
      ∧ w.table.cells.Pairwise fun l l' => l.hashCode = l'.hashCode → l.label ≠ l'.label := by
  obtain ⟨w, hr, hw⟩ := @Reachable.of_trace _ sampleCfg (sampleForward 0 0)
    (fun w => (w.nextTrans, w.table.cells.map fun l => (l.hashCode, l.label)))
    (2, [(0, 0), (0, 1)]) (by decide +kernel)
  obtain ⟨hn, hc⟩ := Prod.mk.inj hw
  have hlt : w.nextTrans < 2 ^ 32 := by rw [hn]; decide
  exact ⟨w, hr, hlt, hc, (outstanding_labels hr hlt).1⟩

/-- Two entries whose counters agree give the same hop-by-hop id to both of their requests. -/
theorem outstanding_labels_collide :
    ∃ w, Reachable sampleCfg w ∧ w.nextTrans < 2 ^ 32
      ∧ ¬ (w.table.cells.map (·.label)).Nodup
      ∧ ∃ r r', r ∈ w.writes ∧ r' ∈ w.writes ∧ endtoendOf r.bytes ≠ endtoendOf r'.bytes
        ∧ hopbyhopOf r.bytes = hopbyhopOf r'.bytes := by
  obtain ⟨w, hr, hw⟩ := @Reachable.of_trace _ sampleCfg (sampleForward 0 8)
    (fun w => (w.nextTrans, w.table.cells.map (·.label),
      (w.writes.drop 1).map fun r => (endtoendOf r.bytes, hopbyhopOf r.bytes)))
    (2, [0, 0], [(0, 0), (8, 0)]) (by decide +kernel)
  obtain ⟨hn, hrest⟩ := Prod.mk.inj hw
  obtain ⟨hc, hb⟩ := Prod.mk.inj hrest
  refine ⟨w, hr, by rw [hn]; decide, by rw [hc]; decide, ?_⟩
  match hd : w.writes.drop 1 with
  | [] => rw [hd] at hb; exact absurd hb (by simp)
  | [_] => rw [hd] at hb; exact absurd hb (by simp)
  | r :: r' :: rest =>
      rw [hd] at hb
      simp only [List.map_cons, List.cons.injEq, Prod.mk.injEq] at hb
      refine ⟨r, r', ?_, ?_, ?_, ?_⟩
      · exact List.mem_of_mem_drop (by rw [hd]; simp)
      · exact List.mem_of_mem_drop (by rw [hd]; simp)
      · rw [hb.1.1, hb.2.1.1]
        decide
      · rw [hb.1.2, hb.2.1.2]

end World

end Disc.Transport
