import Disc.Transport.Walk

/-!
# How far the walker gets

On a buffer nobody has looked at, the walker of `for_all_AVPS_do_switch` may read outside
the buffer, or stay where it is for ever. Which of the two, or neither, depends on the
bytes it comes by and on the bytes the `switch` reads there. A `Switch` says what a
`switch` needs and when it leaves the loop; a `Trail` is a way through the buffer. The
walk ends well exactly if every AVP that a trail reaches is `Inside`.
-/

namespace Disc.Transport

open Disc.Lib Disc.Msg

/-- The AVPs the walker passes on its way from `p` to `q`; it does not come past one where the loop is left. -/
inductive Trail (buf : List UInt8) (leaves : Nat → Prop) : Nat → List Nat → Nat → Prop
  | here {p : Nat} : Trail buf leaves p [] p
  | pass {p q : Nat} {ps : List Nat} (h8 : p + 8 ≤ buf.length) (hl : lenAt buf p ≠ 0)
      (hs : ¬ leaves p) (ht : Trail buf leaves (p + strideAt buf p) ps q) :
      Trail buf leaves p (p :: ps) q

section

variable {buf : List UInt8} {leaves : Nat → Prop} {p q q' : Nat} {ps ps' : List Nat}

theorem Trail.not_leaves (ht : Trail buf leaves p ps q) : ∀ r ∈ ps, ¬ leaves r := by
  induction ht with
  | here => exact fun r hr => absurd hr (by simp)
  | pass h8 hl hs ht ih =>
      intro r hr
      rcases List.mem_cons.mp hr with rfl | hr
      · exact hs
      · exact ih r hr

/-- From the end of the buffer, or from where the loop is left, no way leads on. -/
theorem Trail.unique (ht : Trail buf leaves p ps q) (ht' : Trail buf leaves p ps' q')
    (hq : buf.length ≤ q ∨ leaves q) (hq' : buf.length ≤ q' ∨ leaves q') : ps = ps' ∧ q = q' := by
  induction ht generalizing ps' with
  | here =>
      cases ht' with
      | here => exact ⟨rfl, rfl⟩
      | pass h8 hl hs ht =>
          rcases hq with hq | hq
          · omega
          · exact absurd hq hs
  | pass h8 hl hs ht ih =>
      cases ht' with
      | here =>
          rcases hq' with hq' | hq'
          · omega
          · exact absurd hq' hs
      | pass h8' hl' hs' ht' =>
          obtain ⟨rfl, rfl⟩ := ih ht' hq
          exact ⟨rfl, rfl⟩

end

section

variable {σ ρ : Type}

/-- What a `switch` does at an AVP, told from the AVPs seen before. -/
structure Switch (buf : List UInt8) (body : σ → Nat → Nat → Res (σ ⊕ ρ)) where
  /-- The loop is left at this AVP. -/
  leaves : Nat → Prop
  /-- With this result. -/
  result : Nat → ρ
  /-- The end of what is read at an AVP. -/
  need : List Nat → Nat → Nat
  /-- The variables after the given AVPs. -/
  seen : List Nat → σ → Prop
  fault : ∀ {ps s q}, seen ps s → q + 4 ≤ buf.length → buf.length < need ps q →
    body s (wordAt buf q).toNat q = .fault
  leave : ∀ {ps s q}, seen ps s → q + 4 ≤ buf.length → need ps q ≤ buf.length → leaves q →
    body s (wordAt buf q).toNat q = .ok (.inr (result q))
  goOn : ∀ {ps s q}, seen ps s → q + 4 ≤ buf.length → need ps q ≤ buf.length → ¬ leaves q →
    ∃ s', body s (wordAt buf q).toNat q = .ok (.inl s') ∧ seen (ps ++ [q]) s'

variable {buf : List UInt8} {body : σ → Nat → Nat → Res (σ ⊕ ρ)}

/-- What is read at `q` is there, and leads on. -/
structure Switch.Inside (sw : Switch buf body) (ps : List Nat) (q : Nat) : Prop where
  code : q + 4 ≤ buf.length
  data : sw.need ps q ≤ buf.length
  next : ¬ sw.leaves q → q + 8 ≤ buf.length ∧ lenAt buf q ≠ 0

variable (sw : Switch buf body) {p fuel : Nat} {pre : List Nat} {s : σ}

/-- One round of the walker whose reads are inside. -/
theorem Switch.round (hs : sw.seen pre s) (hp : p < buf.length) (hin : sw.Inside pre p)
    (hl : ¬ sw.leaves p) :
    ∃ s', sw.seen (pre ++ [p]) s' ∧ forAllAvps buf body (fuel + 1) p s
      = forAllAvps buf body fuel (p + strideAt buf p) s' := by
  obtain ⟨s', hbody, hs'⟩ := sw.goOn hs hin.code hin.data hl
  obtain ⟨h8, -⟩ := hin.next hl
  refine ⟨s', hs', ?_⟩
  rw [forAllAvps, if_pos hp, load4_eq hin.code, Res.ok_bind, ofBe_code hin.code, hbody, Res.ok_bind]
  dsimp only
  rw [load4_eq (by omega), Res.ok_bind, ofBe_len h8, to32xLen_lenAt]

theorem Switch.last (hs : sw.seen pre s) (hp : p < buf.length) (hin : sw.Inside pre p)
    (hl : sw.leaves p) : forAllAvps buf body (fuel + 1) p s = .ok (.inr (sw.result p)) := by
  rw [forAllAvps, if_pos hp, load4_eq hin.code, Res.ok_bind, ofBe_code hin.code,
    sw.leave hs hin.code hin.data hl, Res.ok_bind]
  rfl

/-- **A walk whose reads are all inside ends well**: at the end of the buffer, or where the loop is left. -/
theorem Switch.outcome (hs : sw.seen pre s)
    (hin : ∀ ps q, Trail buf sw.leaves p ps q → q < buf.length → sw.Inside (pre ++ ps) q)
    (hfuel : buf.length - p < fuel) :
    (∃ ps q s', Trail buf sw.leaves p ps q ∧ buf.length ≤ q ∧ sw.seen (pre ++ ps) s'
        ∧ forAllAvps buf body fuel p s = .ok (.inl s'))
    ∨ ∃ ps q, Trail buf sw.leaves p ps q ∧ q < buf.length ∧ sw.leaves q
        ∧ forAllAvps buf body fuel p s = .ok (.inr (sw.result q)) := by
  induction fuel generalizing p pre s with
  | zero => omega
  | succ fuel ih =>
      by_cases hp : p < buf.length
      · have hp' : sw.Inside pre p := by simpa using hin [] p .here hp
        by_cases hl : sw.leaves p
        · exact Or.inr ⟨[], p, .here, hp, hl, sw.last hs hp hp' hl⟩
        · obtain ⟨s', hs', hround⟩ := @Switch.round _ _ _ _ sw p fuel pre s hs hp hp' hl
          -- the round moves on, so the fuel lasts
          obtain ⟨h8, hlen⟩ := hp'.next hl
          have hpos := strideAt_pos hlen
          have hrest := @ih (p + strideAt buf p) (pre ++ [p]) s' hs'
            (fun ps q ht hq => by simpa using hin (p :: ps) q (.pass h8 hlen hl ht) hq) (by omega)
          rw [hround]
          rcases hrest with ⟨ps, q, s₁, ht, hq, hs₁, hrun⟩ | ⟨ps, q, ht, hq, hlq, hrun⟩
          · exact Or.inl ⟨p :: ps, q, s₁, .pass h8 hlen hl ht, hq, by simpa using hs₁, hrun⟩
          · exact Or.inr ⟨p :: ps, q, .pass h8 hlen hl ht, hq, hlq, hrun⟩
      · refine Or.inl ⟨[], p, s, .here, by omega, by simpa using hs, ?_⟩
        rw [forAllAvps, if_neg hp]
        rfl

/-- What a walk that ends well has read at the place where it starts. -/
theorem Switch.read (hs : sw.seen pre s) (hp : p < buf.length) {x : σ ⊕ ρ}
    (hrun : forAllAvps buf body (fuel + 1) p s = .ok x) :
    p + 4 ≤ buf.length ∧ sw.need pre p ≤ buf.length ∧ (¬ sw.leaves p → p + 8 ≤ buf.length) := by
  rw [forAllAvps, if_pos hp] at hrun
  have h4 : p + 4 ≤ buf.length := by
    by_contra hlt
    rw [load4_fault (by omega)] at hrun
    cases hrun
  rw [load4_eq h4, Res.ok_bind, ofBe_code h4] at hrun
  have hneed : sw.need pre p ≤ buf.length := by
    by_contra hlt
    rw [sw.fault hs h4 (by omega)] at hrun
    cases hrun
  refine ⟨h4, hneed, fun hl => ?_⟩
  obtain ⟨s', hbody, -⟩ := sw.goOn hs h4 hneed hl
  rw [hbody, Res.ok_bind] at hrun
  dsimp only at hrun
  by_contra hlt
  rw [load4_fault (by omega)] at hrun
  cases hrun

/-- An AVP without a length is never passed. -/
theorem Switch.stuck (hs : sw.seen pre s) (hp : p < buf.length) (hl : ¬ sw.leaves p)
    (hlen : lenAt buf p = 0) {x : σ ⊕ ρ} : forAllAvps buf body fuel p s ≠ .ok x := by
  intro hrun
  induction fuel generalizing pre s with
  | zero => exact absurd hrun (by simp [forAllAvps])
  | succ fuel ih =>
      obtain ⟨h4, hneed, hnext⟩ := sw.read hs hp hrun
      obtain ⟨s', hbody, hs'⟩ := sw.goOn hs h4 hneed hl
      have h8 := hnext hl
      -- the next round starts where this one did
      have hstay : p + strideAt buf p = p := by simp [strideAt, hlen, padLen]
      rw [forAllAvps, if_pos hp, load4_eq h4, Res.ok_bind, ofBe_code h4, hbody, Res.ok_bind] at hrun
      dsimp only at hrun
      rw [load4_eq (by omega), Res.ok_bind, ofBe_len h8, to32xLen_lenAt, hstay] at hrun
      exact ih hs' hrun

/-- **Only such a walk ends well.** -/
theorem Switch.inside (hs : sw.seen pre s) {x : σ ⊕ ρ}
    (hrun : forAllAvps buf body fuel p s = .ok x) {ps : List Nat} {q : Nat}
    (ht : Trail buf sw.leaves p ps q) (hq : q < buf.length) : sw.Inside (pre ++ ps) q := by
  -- on the way to `q`: every AVP passed takes one round of the walk
  induction ht generalizing fuel pre s with
  | @here p =>
      cases fuel with
      | zero => exact absurd hrun (by simp [forAllAvps])
      | succ fuel =>
          obtain ⟨h4, hneed, hnext⟩ := sw.read hs hq hrun
          rw [List.append_nil]
          exact ⟨h4, hneed, fun hl => ⟨hnext hl, fun hlen => sw.stuck hs hq hl hlen hrun⟩⟩
  | @pass p q ps h8 hl hlv ht ih =>
      cases fuel with
      | zero => exact absurd hrun (by simp [forAllAvps])
      | succ fuel =>
          obtain ⟨h4, hneed, -⟩ := sw.read hs (by omega) hrun
          obtain ⟨s', hs', hround⟩ :=
            @Switch.round _ _ _ _ sw p fuel pre s hs (by omega) ⟨h4, hneed, fun _ => ⟨h8, hl⟩⟩ hlv
          rw [hround] at hrun
          simpa using ih hs' hrun hq

end

end Disc.Transport
