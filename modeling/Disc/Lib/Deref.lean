import Disc.Lib.Memory

/-!
# Null pointers

A routine that follows pointers which may be null ends in one of the ways of `Res`, or
with the name of the null pointer it followed. The names are whatever tells the pointers
of a program apart. `NoNull` says that no null pointer is followed, however else the
routine ends; it is kept by sequencing, so that a routine is cleared step by step.
`Returns` says that it comes to its end, and is decided step by step.
-/

namespace Disc.Lib

/-- A routine that follows pointers named by `κ`. -/
abbrev Deref (κ : Type) := ExceptT κ Res

variable {κ α β : Type}

/-- Follow the pointer `k`. -/
def follow (k : κ) : Option α → Deref κ α
  | some a => pure a
  | none => throw k

/-- The null pointer `k` is followed. -/
def FollowsNull (x : Deref κ α) (k : κ) : Prop := x.run = .ok (.error k)

/-- No null pointer is. -/
def NoNull (x : Deref κ α) : Prop := ∀ k, ¬ FollowsNull x k

@[simp] theorem follow_some (k : κ) (a : α) : (follow k (some a) : Deref κ α) = pure a := rfl

theorem noNull_pure (a : α) : NoNull (pure a : Deref κ α) := by
  intro k h
  cases h

/-- What follows no pointer of the program follows no null pointer of it. -/
theorem noNull_lift (x : Res α) : NoNull (liftM x : Deref κ α) := by
  intro k h
  cases x <;> cases h

theorem NoNull.bind {x : Deref κ α} {f : α → Deref κ β} (hx : NoNull x) (hf : ∀ a, NoNull (f a)) :
    NoNull (x >>= f) := by
  intro k h
  cases hrun : x.run with
  | ok r =>
      have hbind : (x >>= f).run = ExceptT.bindCont f r := by
        show (x.run >>= ExceptT.bindCont f) = _
        rw [hrun]
        rfl
      cases r with
      | ok a => exact hf a k (hbind.symm.trans h)
      | error k' => exact hx k' hrun
  | error | fault | diverge =>
      have hbind : (x >>= f).run = x.run >>= ExceptT.bindCont f := rfl
      rw [FollowsNull, hbind, hrun] at h
      cases h

/-- A sequence that ended well did so in both parts. -/
theorem deref_bind_ok {x : Deref κ α} {f : α → Deref κ β} {b : β}
    (h : (x >>= f).run = .ok (.ok b)) : ∃ a, x.run = .ok (.ok a) ∧ (f a).run = .ok (.ok b) := by
  obtain ⟨r, hrun, hf⟩ := Res.bind_eq_ok h
  cases r with
  | ok a => exact ⟨a, hrun, hf⟩
  | error k => cases hf

theorem deref_lift_ok {x : Res α} {a : α} (h : (liftM x : Deref κ α).run = .ok (.ok a)) :
    x = .ok a := by
  cases x with
  | ok b => exact congrArg Res.ok (Except.ok.inj (Res.ok.inj h))
  | error | fault | diverge => cases h

theorem deref_pure_ok {a b : α} (h : (pure a : Deref κ α).run = .ok (.ok b)) : b = a :=
  (Except.ok.inj (Res.ok.inj h)).symm

theorem noNull_follow {k : κ} {p : Option α} (hp : p.isSome) : NoNull (follow k p) := by
  obtain ⟨a, rfl⟩ := Option.isSome_iff_exists.mp hp
  exact noNull_pure a

/-- A routine that starts by following a null pointer. -/
theorem followsNull_bind (k : κ) (f : α → Deref κ β) : FollowsNull (follow k none >>= f) k := rfl

/-- What comes after a step that ended well. -/
theorem FollowsNull.after {x : Deref κ α} {a : α} {f : α → Deref κ β} {k : κ}
    (hx : x.run = .ok (.ok a)) (h : FollowsNull (f a) k) : FollowsNull (x >>= f) k := by
  show (x.run >>= ExceptT.bindCont f) = _
  rw [hx]
  exact h

/-! ## Coming to the end -/

/-- The routine returns. -/
def Returns (x : Deref κ α) : Prop := ∃ a, x.run = .ok (.ok a)

theorem returns_pure (a : α) : Returns (pure a : Deref κ α) := ⟨a, rfl⟩

theorem Returns.noNull {x : Deref κ α} (h : Returns x) : NoNull x := by
  obtain ⟨a, ha⟩ := h
  intro k hk
  cases ha.symm.trans hk

/-- A sequence returns when its second part does, on what the first came to. -/
theorem returns_bind {x : Deref κ α} {f : α → Deref κ β} :
    Returns (x >>= f) ↔ ∃ a, x.run = .ok (.ok a) ∧ Returns (f a) := by
  constructor
  · rintro ⟨b, hb⟩
    obtain ⟨a, ha, hf⟩ := deref_bind_ok hb
    exact ⟨a, ha, b, hf⟩
  · rintro ⟨a, ha, b, hb⟩
    refine ⟨b, ?_⟩
    show (x.run >>= ExceptT.bindCont f) = _
    rw [ha]
    exact hb

theorem returns_lift {x : Res α} {f : α → Deref κ β} :
    Returns ((liftM x : Deref κ α) >>= f) ↔ ∃ a, x = .ok a ∧ Returns (f a) := by
  rw [returns_bind]
  constructor
  · rintro ⟨a, ha, hf⟩
    exact ⟨a, deref_lift_ok ha, hf⟩
  · rintro ⟨a, rfl, hf⟩
    exact ⟨a, rfl, hf⟩

/-- After a call that came to `a`. -/
theorem returns_of_ok {x : Res α} {a : α} {f : α → Deref κ β} (hx : x = .ok a) :
    Returns ((liftM x : Deref κ α) >>= f) ↔ Returns (f a) := by
  rw [returns_lift, hx]
  constructor
  · rintro ⟨b, hb, hf⟩
    obtain rfl := Res.ok.inj hb
    exact hf
  · exact fun hf => ⟨a, rfl, hf⟩

end Disc.Lib
