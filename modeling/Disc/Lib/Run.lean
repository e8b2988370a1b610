/-!
# Runs of a transition system

A system is a set of initial states and a partial step function that takes an
action. `Reach` collects the states of all runs in which every step, looked at in
the state it starts from, satisfies `ok`; with `ok` always true these are the
reachable states. Every safety property below is an instance of `Reach.invariant`.

`Stays` is about progress. It counts the steps of one kind in a run that stays somewhere;
what comes closer with each of them is reached in time, or the run has left.
-/

namespace Disc.Lib

variable {σ α : Type}

/-- The states of the runs whose steps all satisfy `ok`. -/
inductive Reach (init : σ → Prop) (step : σ → α → Option σ) (ok : σ → α → Prop) : σ → Prop
  | init {s : σ} (h : init s) : Reach init step ok s
  | step {s s' : σ} {a : α} (hr : Reach init step ok s) (hok : ok s a)
      (hs : step s a = some s') : Reach init step ok s'

/-- The condition that excludes nothing. -/
def anyStep (_ : σ) (_ : α) : Prop := True

variable {init : σ → Prop} {step : σ → α → Option σ} {ok : σ → α → Prop}

/-- What holds initially and is kept by every admitted step holds in every state reached. -/
theorem Reach.invariant {I : σ → Prop} (hinit : ∀ s, init s → I s)
    (hstep : ∀ s a s', I s → ok s a → step s a = some s' → I s') {s : σ}
    (h : Reach init step ok s) : I s := by
  induction h with
  | init h => exact hinit _ h
  | step hr hok hs ih => exact hstep _ _ _ ih hok hs

/-- A step may use another invariant that is already known. -/
theorem Reach.invariant_of {J I : σ → Prop} (hJ : ∀ s, Reach init step ok s → J s)
    (hinit : ∀ s, init s → I s)
    (hstep : ∀ s a s', J s → I s → ok s a → step s a = some s' → I s') {s : σ}
    (h : Reach init step ok s) : I s := by
  induction h with
  | init h => exact hinit _ h
  | step hr hok hs ih => exact hstep _ _ _ (hJ _ hr) ih hok hs

/-- A run that meets a condition is in particular a run. -/
theorem Reach.any {s : σ} (h : Reach init step ok s) : Reach init step anyStep s := by
  induction h with
  | init h => exact .init h
  | step _ _ hs ih => exact .step ih trivial hs

/-- Take the given actions one after the other, as long as each of them is admitted. -/
def trace (step : σ → α → Option σ) (ok : σ → α → Bool) : List α → σ → Option σ
  | [], s => some s
  | a :: as, s => if ok s a then (step s a).bind (trace step ok as) else none

/-- A trace from a state of a run ends in a state of a run. -/
theorem Reach.trace {ok : σ → α → Bool} {as : List α} {s s' : σ}
    (h : Reach init step (fun s a => ok s a = true) s) (ht : trace step ok as s = some s') :
    Reach init step (fun s a => ok s a = true) s' := by
  induction as generalizing s with
  | nil => exact Option.some.inj ht ▸ h
  | cons a as ih =>
      rw [Lib.trace] at ht
      by_cases hok : ok s a = true
      · rw [if_pos hok] at ht
        obtain ⟨s₁, hs, ht⟩ := Option.bind_eq_some_iff.mp ht
        exact ih (.step h hok hs) ht
      · rw [if_neg hok] at ht
        exact absurd ht (by simp)

/--
A run from `s` that stays in `P`, and the number of its steps that are of the kind
`counted`.
-/
inductive Stays (step : σ → α → Option σ) (ok : σ → α → Prop) (P : σ → Prop) (counted : α → Bool)
    (s : σ) : Nat → σ → Prop
  | refl (h : P s) : Stays step ok P counted s 0 s
  | step {n : Nat} {v v' : σ} {a : α} (h : Stays step ok P counted s n v) (hok : ok v a)
      (hs : step v a = some v') (hp : P v') :
      Stays step ok P counted s (n + (counted a).toNat) v'

variable {P : σ → Prop} {counted : α → Bool} {s s' : σ} {n k : Nat}

theorem Stays.now (h : Stays step ok P counted s n s') : P s' := by
  cases h with
  | refl h => exact h
  | step _ _ _ hp => exact hp

/-- **What comes a place closer with each counted step** is as many places closer by now. -/
theorem Stays.closer (place : σ → Nat → Prop)
    (hstep : ∀ v a v' k, P v → P v' → ok v a → step v a = some v' → place v k →
      ∃ k', place v' k' ∧ k' + (counted a).toNat ≤ k)
    (h : Stays step ok P counted s n s') (hk : place s k) : ∃ k', place s' k' ∧ k' + n ≤ k := by
  induction h with
  | refl => exact ⟨k, hk, Nat.le_refl k⟩
  | step h hok hs hp ih =>
      obtain ⟨k₁, hk₁, hle₁⟩ := ih
      obtain ⟨k₂, hk₂, hle₂⟩ := hstep _ _ _ k₁ h.now hp hok hs hk₁
      exact ⟨k₂, hk₂, by omega⟩

end Disc.Lib
