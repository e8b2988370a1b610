import Disc.Digest.Cred

/-!
# Strings inside the credentials

`parse_digest_cred` copies nothing: the strings it leaves in `dig_cred_t` point into the text of
the AVP. What they have of it is a part of it, whether the text is well formed or not, and so are
the user and the domain that are cut out of the user name.

One string may go on behind the text: that of a parameter which is given again with nothing for
a value. Reading ends there with an error, so that it is the only one.
-/

namespace Disc.Digest

open Disc.Lib Disc.Server

/-- All strings of the credentials are parts of the text, as far as they are in it. -/
structure DigCred.Inside (s : List UInt8) (c : DigCred) : Prop where
  field : ∀ t, ∀ v ∈ c.field t, v <:+: s
  user : ∀ v ∈ c.username.user, v <:+: s
  domain : ∀ v ∈ c.username.domain, v <:+: s

/-- A string that goes on behind the text begins in it. -/
def DigCred.Ends (s : List UInt8) (c : DigCred) : Prop :=
  ∀ t n, c.beyond = some (t, n) → 0 < n ∧ ∃ v, c.field t = some v ∧ v <:+ s

/-- If a name is read, what is left of the text is its end. -/
def LeavesEnd (s : List UInt8) (res : Res (DigPar × List UInt8)) : Prop :=
  ∀ t r, res = .ok (t, r) → r <:+ s

section Names

variable {s : List UInt8} {p : Nat} {type : DigPar}

/-- A test of something that is read first: both ways have to leave the end. -/
theorem LeavesEnd.test {α : Type} {x : Res α} {c : α → Prop} [DecidablePred c]
    {yes no : α → Res (DigPar × List UInt8)} (hyes : ∀ a, LeavesEnd s (yes a))
    (hno : ∀ a, LeavesEnd s (no a)) : LeavesEnd s (x >>= fun a => if c a then yes a else no a) := by
  intro t r h
  obtain ⟨a, -, hr⟩ := Res.bind_eq_ok h
  split at hr
  · exact hyes a t r hr
  · exact hno a t r hr

theorem qMemchr_suffix {r : List UInt8} {c : UInt8} (h : qMemchr s c = some r) : r <:+ s := by
  have hdrop := List.dropWhile_suffix (l := s) fun b => decide (b ≠ c)
  unfold qMemchr at h
  split at h
  · exact absurd h (by simp)
  · obtain rfl := Option.some.inj h
    exact hdrop

theorem leavesEnd_other : LeavesEnd s (otherLabel s p) := by
  intro t r h
  unfold otherLabel at h
  split at h
  · exact absurd h (by simp)
  · rename_i r' hq
    obtain ⟨-, rfl⟩ := Prod.mk.inj (Res.ok.inj h)
    exact (qMemchr_suffix hq).trans (List.drop_suffix _ _)

theorem leavesEnd_end : LeavesEnd s (endLabel s p type) := by
  refine LeavesEnd.test (fun _ => ?_) fun _ => leavesEnd_other
  intro t r h
  obtain ⟨-, rfl⟩ := Prod.mk.inj (Res.ok.inj h)
  exact (List.dropWhile_suffix _).trans (List.drop_suffix _ _)

theorem leavesEnd_respCase : LeavesEnd s (respCase s p) :=
  LeavesEnd.test (fun _ => leavesEnd_end) fun _ => leavesEnd_other

theorem leavesEnd_noncCase : LeavesEnd s (noncCase s p) :=
  LeavesEnd.test (fun _ => leavesEnd_end) fun _ => leavesEnd_respCase

theorem leavesEnd_letterCase (letter : UInt8) : LeavesEnd s (letterCase letter type s p) :=
  LeavesEnd.test (fun _ => LeavesEnd.test (fun _ => leavesEnd_end) fun _ => leavesEnd_other)
    fun _ => leavesEnd_other

theorem leavesEnd_parseShort : LeavesEnd s (parseShort s p) := by
  refine LeavesEnd.test (fun _ => ?_) fun _ => ?_
  · exact LeavesEnd.test
      (fun _ => LeavesEnd.test (fun _ => leavesEnd_end) fun _ => leavesEnd_other)
      fun _ => leavesEnd_other
  · split_ifs
    · exact LeavesEnd.test
        (fun _ => LeavesEnd.test (fun _ => leavesEnd_end) fun _ => leavesEnd_other)
        fun _ => leavesEnd_other
    · exact LeavesEnd.test (fun _ => leavesEnd_end) fun _ => leavesEnd_other
    · exact leavesEnd_other

/-- Every way through the reader of names ends at one of its two labels. -/
theorem leavesEnd_parseParamName (s : List UInt8) : LeavesEnd s (parseParamName s) := by
  refine LeavesEnd.test (fun _ => leavesEnd_other) fun val => ?_
  split_ifs
  · exact LeavesEnd.test (fun _ => leavesEnd_end) fun _ => leavesEnd_other
  · exact LeavesEnd.test (fun _ => leavesEnd_end) fun _ => leavesEnd_noncCase
  · exact leavesEnd_noncCase
  · exact leavesEnd_respCase
  · exact leavesEnd_letterCase _
  · exact leavesEnd_letterCase _
  · exact LeavesEnd.test
      (fun _ => LeavesEnd.test (fun _ => leavesEnd_end) fun _ => leavesEnd_other)
      fun _ => leavesEnd_other
  · exact leavesEnd_parseShort

end Names

/-! ## Values -/

section Values

variable {s : List UInt8} {c : DigCred}

theorem inside_init (s : List UInt8) : initDigCred.Inside s := by
  refine ⟨fun t v hv => ?_, by simp [initDigCred], by simp [initDigCred]⟩
  cases t <;> exact absurd hv (by simp [initDigCred, DigCred.field])

theorem DigCred.Inside.setField (hc : c.Inside s) {v : Option (List UInt8)} (hv : ∀ x ∈ v, x <:+: s)
    (t : DigPar) : (c.setField v t).Inside s := by
  obtain ⟨huser, hdomain, -, -⟩ := @setField_derived c v t
  refine ⟨fun t' x hx => ?_, huser ▸ hc.user, hdomain ▸ hc.domain⟩
  by_cases htt : t = t'
  · subst htt
    by_cases ht : t = .parOther
    · subst ht
      exact absurd hx (by simp [DigCred.field])
    · rw [field_setField ht] at hx
      exact hv x hx
  · rw [field_setField_ne htt] at hx
    exact hc.field t' x hx

/-- What comes between quotes is a part of the text, and what is left is its end. -/
theorem parseQuoted_inside {text : List UInt8} {r v : Option (List UInt8)} {rc : Int}
    {rest : List UInt8} (hs : s <:+ text) (hr : ∀ x ∈ r, x <:+: text)
    (h : parseQuoted s r = (rc, rest, v)) : rest <:+ text ∧ ∀ x ∈ v, x <:+: text := by
  have htail : s.tail <:+ text := (List.tail_suffix _).trans hs
  unfold parseQuoted at h
  split at h
  · obtain ⟨-, rfl, rfl⟩ : rc = -1 ∧ s = rest ∧ r = v := by simpa [eq_comm] using h
    exact ⟨hs, hr⟩
  · split at h
    · obtain ⟨-, rfl, rfl⟩ : rc = -2 ∧ s.tail = rest ∧ r = v := by simpa [eq_comm] using h
      exact ⟨htail, hr⟩
    · rename_i q hq
      obtain ⟨-, rfl, rfl⟩ : rc = 0 ∧ q.tail = rest
          ∧ some (s.tail.take (s.tail.length - q.length)) = v := by simpa [eq_comm] using h
      refine ⟨((List.tail_suffix _).trans (qMemchr_suffix hq)).trans htail, fun x hx => ?_⟩
      obtain rfl := Option.some.inj hx
      exact (List.take_prefix _ _).isInfix.trans htail.isInfix

theorem parseToken_inside {r v : Option (List UInt8)} {rc : Int} {rest : List UInt8} {extra : Nat}
    (h : parseToken s r = (rc, rest, v, extra)) : rest <:+ s ∧ ∀ x ∈ v, x <:+: s := by
  unfold parseToken at h
  dsimp only at h
  split at h
  · obtain ⟨-, rfl, rfl, -⟩ : rc = -2 ∧ s = rest ∧ some (s.take (r.getD []).length) = v
        ∧ (r.getD []).length - s.length = extra := by simpa [eq_comm] using h
    refine ⟨List.suffix_refl _, fun x hx => ?_⟩
    obtain rfl := Option.some.inj hx
    exact (List.take_prefix _ _).isInfix
  · obtain ⟨-, rfl, rfl, -⟩ : rc = 0 ∧ s.drop (s.takeWhile fun c => !endsToken c).length = rest
        ∧ some (s.takeWhile fun c => !endsToken c) = v ∧ 0 = extra := by simpa [eq_comm] using h
    refine ⟨List.drop_suffix _ _, fun x hx => ?_⟩
    obtain rfl := Option.some.inj hx
    exact (List.takeWhile_prefix _).isInfix

theorem reaching_derived (c : DigCred) (t : DigPar) (n : Nat) :
    (c.reaching t n).field = c.field ∧ (c.reaching t n).username = c.username := by
  cases n with
  | zero => exact ⟨rfl, rfl⟩
  | succ n => exact ⟨funext fun t' => by cases t' <;> rfl, rfl⟩

theorem DigCred.Inside.reaching (hc : c.Inside s) (t : DigPar) (n : Nat) :
    (c.reaching t n).Inside s := by
  obtain ⟨hfield, huser⟩ := reaching_derived c t n
  exact ⟨fun t' => hfield ▸ hc.field t', huser ▸ hc.user, huser ▸ hc.domain⟩

/-- Reading the value of a parameter, quoted or not, keeps the strings inside the text. -/
theorem parseDigestParam_inside {text rest : List UInt8} {c' : DigCred} {rc : Int}
    (hs : s <:+ text) (hc : c.Inside text) (h : parseDigestParam s c = .ok (rc, rest, c')) :
    rest <:+ text ∧ c'.Inside text := by
  unfold parseDigestParam at h
  split at h
  · rename_i t r hname
    have hbody : trimLeading r.tail <:+ text :=
      (((List.dropWhile_suffix _).trans (List.tail_suffix _)).trans
        (leavesEnd_parseParamName s t r hname)).trans hs
    dsimp only at h
    split at h
    · obtain ⟨-, rfl, rfl⟩ : (-2 : Int) = rc ∧ trimLeading r.tail = rest ∧ c = c' := by
        simpa using h
      exact ⟨hbody, hc⟩
    · -- the two readers of values, on what is behind the `=`
      split at h
      · obtain ⟨rc', rest', v, hquoted⟩ : ∃ rc' rest' v,
            parseQuoted (trimLeading r.tail) (c.field t) = (rc', rest', v) := ⟨_, _, _, rfl⟩
        obtain ⟨hrest, hv⟩ := parseQuoted_inside hbody (hc.field t) hquoted
        rw [hquoted] at h
        obtain ⟨-, rfl, rfl⟩ : _ ∧ rest' = rest ∧ c.setField v t = c' := by simpa using h
        exact ⟨hrest, hc.setField hv t⟩
      · obtain ⟨rc', rest', v, extra, htoken⟩ : ∃ rc' rest' v extra,
            parseToken (trimLeading r.tail) (c.field t) = (rc', rest', v, extra) := ⟨_, _, _, _, rfl⟩
        obtain ⟨hrest, hv⟩ := parseToken_inside htoken
        rw [htoken] at h
        obtain ⟨-, rfl, rfl⟩ : _ ∧ rest' = rest ∧ (c.setField v t).reaching t extra = c' := by
          simpa using h
        refine ⟨hrest.trans hbody, (hc.setField (fun x hx => ?_) t).reaching t extra⟩
        exact (hv x hx).trans hbody.isInfix
  · obtain ⟨-, rfl, rfl⟩ : (-1 : Int) = rc ∧ s = rest ∧ c = c' := by simpa using h
    exact ⟨hs, hc⟩
  · exact absurd h (by simp)
  · exact absurd h (by simp)

end Values

/-! ## All of them -/

section Cred

variable {s text : List UInt8} {c c' : DigCred} {rc : Int}

theorem paramLoop_inside {fuel : Nat} (hs : s <:+ text) (hc : c.Inside text)
    (h : paramLoop fuel s c = .ok (rc, c')) : c'.Inside text := by
  induction fuel generalizing s c with
  | zero => exact absurd h (by simp [paramLoop])
  | succ fuel ih =>
      rw [paramLoop] at h
      obtain ⟨⟨rc₁, s₁, c₁⟩, hparam, h⟩ := Res.bind_eq_ok h
      obtain ⟨hs₁, hc₁⟩ := parseDigestParam_inside hs hc hparam
      dsimp only at h
      split at h
      · obtain ⟨-, rfl⟩ := Prod.mk.inj (Res.ok.inj h)
        exact hc₁
      · split at h
        · obtain ⟨-, rfl⟩ := Prod.mk.inj (Res.ok.inj h)
          exact hc₁
        · rename_i comma hcomma
          refine ih ?_ hc₁ h
          exact (((List.dropWhile_suffix _).trans (List.tail_suffix _)).trans
            (qMemchr_suffix hcomma)).trans hs₁

/-- The user and the domain are cut out of the user name. -/
theorem parseUsername_inside {u : Username} (hw : ∀ x ∈ u.whole, x <:+: text)
    (hd : ∀ x ∈ u.domain, x <:+: text) :
    (∀ x ∈ (parseUsername u).whole, x <:+: text) ∧ (∀ x ∈ (parseUsername u).user, x <:+: text)
      ∧ ∀ x ∈ (parseUsername u).domain, x <:+: text := by
  obtain ⟨whole, user, domain⟩ := u
  cases whole with
  | none => exact ⟨hw, hw, hd⟩
  | some v =>
      have hv : v <:+: text := hw v rfl
      rw [parseUsername_value]
      refine ⟨hw, fun x hx => ?_, fun x hx => ?_⟩
      · obtain rfl := Option.some.inj hx
        unfold userPart
        split
        · exact (List.takeWhile_prefix _).isInfix.trans hv
        · exact hv
      · unfold domainPart at hx
        split at hx
        · obtain rfl := Option.some.inj hx
          exact (((List.tail_suffix _).trans (List.dropWhile_suffix _)).isInfix).trans hv
        · exact hd x hx

theorem finish_inside (hc : c.Inside text) : c.finish.Inside text := by
  have hname := parseUsername_inside (u := c.username) (hc.field .parUsername) hc.domain
  refine ⟨fun t x hx => hc.field t x (finish_field c t ▸ hx), fun x hx => ?_, fun x hx => ?_⟩
  · unfold DigCred.finish at hx
    dsimp only at hx
    split at hx
    · exact hname.2.1 x hx
    · exact hc.user x hx
  · unfold DigCred.finish at hx
    dsimp only at hx
    split at hx
    · exact hname.2.2 x hx
    · exact hc.domain x hx

theorem parseDigestParams_inside (hs : s <:+ text) (hc : c.Inside text)
    (h : parseDigestParams s c = .ok (rc, c')) : c'.Inside text := by
  unfold parseDigestParams at h
  obtain ⟨⟨rc₁, c₁⟩, hloop, hrest⟩ := Res.bind_eq_ok h
  have hc₁ := paramLoop_inside hs hc hloop
  dsimp only at hrest
  split at hrest
  · obtain ⟨-, rfl⟩ := Prod.mk.inj (Res.ok.inj hrest)
    exact hc₁
  · have hfinish : c₁.finish = c' := by
      have hc' := (Prod.mk.inj (Res.ok.inj hrest)).2
      by_cases hq : c₁.qop.qopStr.isSome <;> by_cases ha : c₁.alg.algStr.isSome <;>
        by_cases hu : c₁.username.whole.isSome <;>
        simpa [DigCred.finish, hq, ha, hu] using hc'
    exact hfinish ▸ finish_inside hc₁

theorem parseDigestCred_keeps (hc : c.Inside text)
    (h : parseDigestCred text c = .ok (rc, c')) : c'.Inside text := by
  have htrim : trimLeading text <:+ text := List.dropWhile_suffix _
  unfold parseDigestCred at h
  dsimp only at h
  split at h
  · obtain ⟨-, rfl⟩ := Prod.mk.inj (Res.ok.inj h)
    exact hc
  · split at h
    · obtain ⟨b, -, h⟩ := Res.bind_eq_ok h
      split at h
      · obtain ⟨⟨rc₁, c₁⟩, hparams, h⟩ := Res.bind_eq_ok h
        obtain ⟨-, rfl⟩ := Prod.mk.inj (Res.ok.inj h)
        exact parseDigestParams_inside
          (((List.dropWhile_suffix _).trans (List.drop_suffix _ _)).trans htrim) hc hparams
      · obtain ⟨-, rfl⟩ := Prod.mk.inj (Res.ok.inj h)
        exact hc
    · obtain ⟨-, rfl⟩ := Prod.mk.inj (Res.ok.inj h)
      exact hc

end Cred

/-- The realm is given again, as nothing: it keeps its length, and begins at the last comma. -/
example : parseDigestCred (ascii "Digest realm=abcdefgh,realm=,") initDigCred
    = .ok (-2, { initDigCred with realm := some (ascii ","), beyond := some (.parRealm, 7) }) := by
  decide +kernel

end Disc.Digest
