import Disc.Config.Uri

/-!
# What is found in a URI

The parser never reads outside its text, and the host it finds is never empty. The port is
kept in a `short`. What it stores for transport and protocol is the value of a parameter of
that name if the name comes first in its segment and has a value: bytes in front of the name
are passed over, and behind the `=` one byte is taken for the start of the value whether or
not there is one. With an empty value that byte is the next `;`, or lies beyond the end.
-/

namespace Disc.Config

open Disc.Lib Disc.Server

/-! ## What should be found -/

/-- The piece is the value of a parameter whose name is that of `k`, in letters of any case. -/
def IsValue (buf : List UInt8) (k : UriParam) (c : Str) : Prop :=
  ∃ q nm v post, 7 ≤ q ∧ buf.drop q = 59 :: (nm ++ 61 :: (v ++ post)) ∧ nm.map tolower = k.name
    ∧ 59 ∉ v ∧ Ends 59 post ∧ c = ⟨q + 1 + nm.length + 1, v.length⟩

/-- The pieces that are there. -/
def AaaUri.pieces (u : AaaUri) : List Str :=
  [u.host, u.port, u.params, u.transport, u.protocol].filterMap id

structure UriRight (buf : List UInt8) (u : AaaUri) : Prop where
  inside : ∀ c ∈ u.pieces, c.s + c.len ≤ buf.length
  host : ∃ c, u.host = some c ∧ 0 < c.len
  port : ∀ c, u.port = some c →
    ∃ ds, c.of buf = some ds ∧ (∀ d ∈ ds, isDigit d) ∧ u.portNo.toNat = decValue ds
  param : ∀ k c, u.param k = some c → IsValue buf k c

/-- The parser stays inside the text, and if it accepts it, what it finds is right. -/
def ParsesRight (buf : List UInt8) : Prop :=
  aaaParseUri buf ≠ .fault ∧ ∀ u, aaaParseUri buf = .ok u → UriRight buf u

/--
The port fits a `short`, and the last parameter taken for transport, and the last one for
protocol, has nothing in front of its name and a value behind it.
-/
structure UriText.Regular (t : UriText) : Prop where
  port : ∀ ds ∈ t.port, decValue ds < 65536
  param : ∀ k x, lastOf k t.taken = some x → x.junk = 0 ∧ x.hasValue = true

/-! ## The parameters that are taken -/

/-- Where a parameter that is taken stands in the text. -/
structure Taken.At (buf : List UInt8) (x : Taken) (q : Nat) (front nm rest : List UInt8) : Prop where
  text : buf.drop q = 59 :: (front ++ (nm ++ 61 :: rest))
  junk : front.length = x.junk ∧ 59 ∉ front
  name : nm.map tolower = x.kind.name
  piece : x.piece.s = q + 1 + front.length + nm.length + 1 ∧ 0 < x.piece.len
  value : x.hasValue = true →
    ∃ v post, rest = v ++ post ∧ 59 ∉ v ∧ Ends 59 post ∧ x.piece.len = v.length
  empty : x.hasValue = false → Ends 59 rest

section Taken

variable {buf : List UInt8} {segs : List (List UInt8)}

theorem Taken.At.of_segment {x : Taken} {p : Nat} {seg : List UInt8} {k : UriParam} {j : Nat}
    {v : List UInt8} (hd : buf.drop p = (seg :: segs).flatMap (59 :: ·)) (hno : 59 ∉ seg)
    (hn : takeName seg = some (k, j, v)) (hk : x.kind = k) (hj : x.junk = j)
    (hs : x.piece.s = p + 1 + seg.length - v.length) (hpos : 0 < x.piece.len)
    (hv : x.hasValue = true → x.piece.len = v.length) (he : x.hasValue = false → v = []) :
    ∃ q junk nm rest, p ≤ q ∧ x.At buf q junk nm rest := by
  obtain ⟨junk, nm, rfl, hjunk, -, hlow⟩ := takeName_some hn
  obtain ⟨hcons, -, -, -⟩ := drop_segment hd
  refine ⟨p, junk, nm, v ++ segs.flatMap (59 :: ·), Nat.le_refl _, ?_, ⟨hjunk.trans hj.symm, ?_⟩,
    hk ▸ hlow, ⟨?_, hpos⟩, ?_, ?_⟩
  · simpa using hcons
  · exact fun h => hno (by simp [h])
  · rw [hs]
    simp
    omega
  · intro h
    exact ⟨v, _, rfl, fun h' => hno (by simp [h']), Ends.flatMap segs, hv h⟩
  · intro h
    rw [he h]
    exact Ends.flatMap segs

/-- **Every parameter that is taken is spelt out somewhere**, and only the last may stick out. -/
theorem takenFrom_at {p a : Nat} (ha : p + 1 = a) (hd : buf.drop p = segs.flatMap (59 :: ·))
    (hno : ∀ seg ∈ segs, 59 ∉ seg) {x : Taken} (hx : x ∈ takenFrom a segs) :
    (∃ q junk nm rest, p ≤ q ∧ x.At buf q junk nm rest)
      ∧ (x.piece.s + x.piece.len ≤ buf.length
        ∨ (takenFrom a segs).getLast? = some x ∧ x.hasValue = false) := by
  induction a, segs using takenFrom.induct generalizing p with
  | case1 a => exact absurd hx (by simp [takenFrom])
  | case2 a seg segs hn ih =>
    subst ha
    obtain ⟨-, hsegs⟩ := List.forall_mem_cons.mp hno
    obtain ⟨-, -, hrest, -⟩ := drop_segment hd
    rw [takenFrom.eq_2 _ seg segs hn] at hx ⊢
    obtain ⟨⟨q, junk, nm, rest, hq, hat⟩, hin⟩ := ih rfl hrest hsegs hx
    exact ⟨⟨q, junk, nm, rest, by omega, hat⟩, hin⟩
  | case3 a seg k j hn =>
    subst ha
    rw [takenFrom.eq_3 _ seg k j hn] at hx ⊢
    obtain rfl := List.mem_singleton.mp hx
    exact ⟨Taken.At.of_segment hd (hno seg List.mem_cons_self) hn rfl rfl (by simp) (by simp) (by simp)
      (fun _ => rfl), .inr ⟨rfl, rfl⟩⟩
  | case4 a seg k j next segs hn ih =>
    subst ha
    obtain ⟨hseg, hno'⟩ := List.forall_mem_cons.mp hno
    obtain ⟨-, hsegs⟩ := List.forall_mem_cons.mp hno'
    obtain ⟨-, -, hrest, -⟩ := drop_segment hd
    obtain ⟨-, -, hrest', hend'⟩ := drop_segment hrest
    rw [takenFrom.eq_4 _ seg k j next segs hn] at hx ⊢
    rcases List.mem_cons.mp hx with rfl | hx
    · exact ⟨Taken.At.of_segment hd hseg hn rfl rfl (by simp) (by simp) (by simp) (fun _ => rfl),
        .inl (by simp only; omega)⟩
    · obtain ⟨⟨q, junk, nm, rest, hq, hat⟩, hin⟩ := ih rfl hrest' hsegs hx
      refine ⟨⟨q, junk, nm, rest, by omega, hat⟩, hin.imp_right fun h => ⟨?_, h.2⟩⟩
      rw [List.getLast?_cons, h.1]
      rfl
  | case5 a seg k j v segs hv₁ hv₂ hn ih =>
    subst ha
    obtain ⟨hseg, hsegs⟩ := List.forall_mem_cons.mp hno
    obtain ⟨-, -, hrest, hend⟩ := drop_segment hd
    have hv : v ≠ [] := by
      intro hv
      cases segs with
      | nil => exact hv₁ rfl hv
      | cons next segs => exact hv₂ next segs rfl hv
    rw [takenFrom.eq_5 _ seg segs k j v hn hv₁ hv₂] at hx ⊢
    rcases List.mem_cons.mp hx with rfl | hx
    · refine ⟨Taken.At.of_segment hd hseg hn rfl rfl rfl (List.length_pos_iff.mpr hv) (fun _ => rfl)
        (by simp), .inl ?_⟩
      obtain ⟨junk, nm, rfl, -⟩ := takeName_some hn
      simp at hend ⊢
      omega
    · obtain ⟨⟨q, junk, nm, rest, hq, hat⟩, hin⟩ := ih rfl hrest hsegs hx
      refine ⟨⟨q, junk, nm, rest, by omega, hat⟩, hin.imp_right fun h => ⟨?_, h.2⟩⟩
      rw [List.getLast?_cons, h.1]
      rfl

/-- What comes behind the `=`. -/
theorem drop_of_name {q : Nat} {front nm rest : List UInt8}
    (h : buf.drop q = 59 :: (front ++ (nm ++ 61 :: rest))) :
    buf.drop (q + 1 + front.length + nm.length + 1) = rest := by
  have hd : buf.drop q = (59 :: (front ++ (nm ++ [61]))) ++ rest := by simpa using h
  have hd' := drop_of_append hd
  rw [← hd']
  congr 1
  simp
  omega

/-- **What is taken is the value of a parameter** if it is in the right place and there is one. -/
theorem Taken.At.isValue_iff {x : Taken} {q : Nat} {front nm rest : List UInt8} (hq : 7 ≤ q)
    (h : x.At buf q front nm rest) :
    IsValue buf x.kind x.piece ↔ x.junk = 0 ∧ x.hasValue = true := by
  constructor
  · intro hval
    obtain ⟨q', nm', v, post, -, htext, hname, hv, hpost, hc⟩ := hval
    have hlen : nm'.length = nm.length := by
      have h1 := congrArg List.length hname
      have h2 := congrArg List.length h.name
      rw [List.length_map] at h1 h2
      omega
    have hs : x.piece.s = q' + 1 + nm'.length + 1 := by rw [hc]
    have hq' : q' = q + front.length := by
      have hp := h.piece.1
      omega
    have hl : x.piece.len = v.length := by rw [hc]
    constructor
    · -- otherwise the `;` in front of the name would be in front of it here
      rw [← h.junk.1]
      by_contra hne
      obtain ⟨front', c, rfl⟩ := List.eq_nil_or_concat' front |>.resolve_left (by simpa using hne)
      have hd : buf.drop q' = c :: (nm ++ 61 :: rest) := by
        have hd := h.text
        rw [List.append_assoc, ← List.cons_append] at hd
        have hd' := drop_of_append hd
        rw [hq', show q + (front' ++ [c]).length = q + (59 :: front').length by simp]
        exact hd'
      rw [hd] at htext
      exact h.junk.2 (by simp [(List.cons.inj htext).1])
    · by_contra hno
      have hrest := drop_of_name h.text
      have hrest' : buf.drop (q' + 1 + nm'.length + 1) = v ++ post :=
        @drop_of_name buf q' [] nm' (v ++ post) htext
      rw [← h.piece.1, hs, hrest'] at hrest
      have hv0 : v ≠ [] := fun h0 => by simp [h0] at hl; have := h.piece.2; omega
      obtain ⟨c, v, rfl⟩ := List.exists_cons_of_ne_nil hv0
      obtain h0 | ⟨r, hr⟩ := h.empty (by simpa using hno)
      · exact absurd (hrest.trans h0) (by simp)
      · have hc59 := (List.cons.inj (hrest.trans hr)).1
        exact hv (by simp [hc59])
  · rintro ⟨hj, hval⟩
    obtain ⟨v, post, rfl, hv, hpost, hl⟩ := h.value hval
    have hfront : front = [] := List.length_eq_zero_iff.mp (h.junk.1.trans hj)
    subst hfront
    refine ⟨q, nm, v, post, hq, h.text, h.name, hv, hpost, ?_⟩
    have hs : x.piece.s = q + 1 + nm.length + 1 := h.piece.1
    rw [← hl, ← hs]

end Taken

/-! ## The parser -/

theorem getLast?_lastOf {ts : List Taken} {x : Taken} (h : ts.getLast? = some x) :
    lastOf x.kind ts = some x := by
  obtain ⟨ts, rfl⟩ := List.getLast?_eq_some_iff.mp h
  rw [lastOf_snoc, if_pos rfl]

theorem stopOf_eq {e : Nat} {ts : List Taken} (h : ∀ x ∈ ts, x.piece.s + x.piece.len ≤ e) :
    stopOf e ts = e := by
  induction ts with
  | nil => rfl
  | cons t ts ih =>
      rw [stopOf_cons (h t List.mem_cons_self)]
      exact ih fun x hx => h x (List.mem_cons_of_mem _ hx)

theorem mem_of_lastOf {k : UriParam} {ts : List Taken} {x : Taken} (h : lastOf k ts = some x) :
    x ∈ ts ∧ x.kind = k := by
  have hmem := List.mem_of_getLast? h
  rw [List.mem_filter] at hmem
  exact ⟨hmem.1, by simpa using hmem.2⟩

/-- What can be read is there. -/
theorem inside_of {buf bs : List UInt8} {c : Str} (h : c.of buf = some bs) :
    c.s + c.len ≤ buf.length := by
  rw [Str.of, slice] at h
  split at h
  · assumption
  · exact absurd h (by simp)

section Text

variable {t : UriText}

theorem UriText.uri_param (t : UriText) (k : UriParam) :
    t.uri.param k = (lastOf k t.taken).map Taken.piece := by
  cases k with
  | transport | protocol => rfl

/-- **The parser is right about a text exactly when it is regular.** -/
theorem uriRight_iff (hg : t.Grammatical) : UriRight t.bytes t.uri ↔ t.Regular := by
  obtain ⟨hhost, hport, h7, hle, hparams⟩ := hg.places
  have htaken : ∀ k x, lastOf k t.taken = some x →
      (IsValue t.bytes k x.piece ↔ x.junk = 0 ∧ x.hasValue = true) := by
    intro k x hx
    obtain ⟨hmem, rfl⟩ := mem_of_lastOf hx
    obtain ⟨⟨q, junk, nm, rest, hq, hat⟩, -⟩ := takenFrom_at rfl hparams hg.params hmem
    exact hat.isValue_iff (by omega)
  constructor
  · intro h
    constructor
    · intro ds hds
      obtain ⟨ds', hof, -, hno⟩ := h.port ⟨t.hostEnd + 1, ds.length⟩ (by rw [UriText.uri, hds]; rfl)
      obtain rfl : ds = ds' := Option.some.inj ((hport ds hds).symm.trans hof)
      rw [← hno]
      exact t.uri.portNo.toNat_lt
    · intro k x hx
      exact (htaken k x hx).mp (h.param k x.piece (by rw [t.uri_param, hx]; rfl))
  · intro h
    have hin : ∀ x ∈ t.taken, x.piece.s + x.piece.len ≤ t.bytes.length := by
      intro x hx
      obtain ⟨-, hin | ⟨hlast, hno⟩⟩ := takenFrom_at rfl hparams hg.params hx
      · exact hin
      · have hval := (h.param x.kind x (getLast?_lastOf hlast)).2
        rw [hno] at hval
        exact absurd hval (by simp)
    have hparam : ∀ k c, t.uri.param k = some c → ∃ x, lastOf k t.taken = some x ∧ x.piece = c := by
      intro k c hc
      rw [t.uri_param] at hc
      exact Option.map_eq_some_iff.mp hc
    constructor
    · intro c hc
      simp only [AaaUri.pieces, List.mem_filterMap, List.mem_cons, List.not_mem_nil, or_false, id]
        at hc
      obtain ⟨o, ho, rfl⟩ := hc
      rcases ho with ho | ho | ho | ho | ho
      · obtain rfl := Option.some.inj ho
        exact inside_of hhost
      · obtain ⟨ds, hds, rfl⟩ := Option.map_eq_some_iff.mp ho.symm
        exact inside_of (hport ds hds)
      · rw [UriText.uri] at ho
        split at ho
        · exact absurd ho (by simp)
        · rename_i hne
          obtain ⟨seg, segs, hsegs⟩ := List.exists_cons_of_ne_nil hne
          obtain ⟨-, -, -, hend⟩ := drop_segment (hsegs ▸ hparams)
          rw [stopOf_eq hin] at ho
          obtain rfl := Option.some.inj ho
          simp only
          omega
      · obtain ⟨x, hx, rfl⟩ := hparam .transport c ho.symm
        exact hin x (mem_of_lastOf hx).1
      · obtain ⟨x, hx, rfl⟩ := hparam .protocol c ho.symm
        exact hin x (mem_of_lastOf hx).1
    · obtain ⟨c, rest, hc, -⟩ := hg.host
      exact ⟨_, rfl, by rw [hc]; exact Nat.succ_pos _⟩
    · intro c hc
      obtain ⟨ds, hds, rfl⟩ := Option.map_eq_some_iff.mp hc
      refine ⟨ds, hport ds hds, hg.port ds hds, ?_⟩
      have hlt := h.port ds hds
      rw [UriText.uri, hds]
      show (UInt16.ofNat (decValue ds)).toNat = decValue ds
      rw [UInt16.toNat_ofNat']
      exact Nat.mod_eq_of_lt hlt
    · intro k c hc
      obtain ⟨x, hx, rfl⟩ := hparam k c hc
      exact (htaken k x hx).mpr (h.param k x hx)

end Text

/-- **The parser is right about a buffer exactly when its text is regular**, if it is one. -/
theorem parsesRight_iff (buf : List UInt8) :
    ParsesRight buf ↔ ∀ t : UriText, t.Grammatical → t.bytes = buf → t.Regular := by
  constructor
  · rintro ⟨-, h⟩ t hg rfl
    exact (uriRight_iff hg).mp (h _ (aaaParseUri_text hg))
  · intro h
    rcases aaaParseUri_cases buf with hbad | ⟨t, hg, rfl⟩
    · constructor
      · rw [hbad]
        nofun
      · intro u hu
        rw [hbad] at hu
        exact absurd hu (by nofun)
    · constructor
      · rw [aaaParseUri_text hg]
        nofun
      · intro u hu
        obtain rfl := Res.ok.inj ((aaaParseUri_text hg).symm.trans hu)
        exact (uriRight_iff hg).mpr (h t hg rfl)

/-- A transport without a value is a byte that lies beyond the end. -/
theorem emptyTransport_not_right : ¬ ParsesRight (ascii "aaa://h;transport=") := by
  rintro ⟨-, h⟩
  have hparse : aaaParseUri (ascii "aaa://h;transport=")
      = .ok ⟨some ⟨6, 1⟩, none, some ⟨8, 11⟩, some ⟨18, 1⟩, none, 0⟩ := by decide
  have hin := (h _ hparse).inside ⟨18, 1⟩ (by decide)
  exact absurd hin (by decide)

end Disc.Config
