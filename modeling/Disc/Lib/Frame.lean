import Mathlib.Data.List.Basic

/-!
# Length-prefixed framing

A stream is cut into frames by a fixed number of header symbols in front of each
frame, from which the length of the whole frame can be told. `splitFrames` does
the cutting: it returns the complete frames and the tail that is left, which is
an incomplete frame, a header that announces no admissible length together with
everything behind it, or nothing.

What a reader that gets the stream in pieces needs is `splitFrames_append`: the
frames found so far stay found, and the tail is all there is to know about them.
-/

namespace Disc.Lib

variable {α : Type}

section

variable (k : Nat) (size : List α → Option Nat)

/-- The frame at the front of a stream, when it is there in full. -/
def frontFrame (s : List α) : Option Nat :=
  if k ≤ s.length then
    match size (s.take k) with
    | some n => if 0 < n ∧ n ≤ s.length then some n else none
    | none => none
  else none

theorem frontFrame_le {s : List α} {n : Nat} (h : frontFrame k size s = some n) :
    0 < n ∧ n ≤ s.length := by
  unfold frontFrame at h
  split at h
  · split at h
    · split at h
      · rename_i hn
        obtain rfl := Option.some.inj h
        exact hn
      · exact absurd h (by simp)
    · exact absurd h (by simp)
  · exact absurd h (by simp)

/-- Cut a stream into its complete frames and the rest. -/
def splitFrames (s : List α) : List (List α) × List α :=
  match _h : frontFrame k size s with
  | some n =>
      let r := splitFrames (s.drop n)
      (s.take n :: r.1, r.2)
  | none => ([], s)
termination_by s.length
decreasing_by
  have hn := frontFrame_le k size _h
  rw [List.length_drop]
  omega

end

variable {k : Nat} {size : List α → Option Nat}

theorem splitFrames_none {s : List α} (h : frontFrame k size s = none) :
    splitFrames k size s = ([], s) := by
  rw [splitFrames]
  split
  · rename_i n hn
    rw [h] at hn
    exact absurd hn (by simp)
  · rfl

theorem splitFrames_some {s : List α} {n : Nat} (h : frontFrame k size s = some n) :
    splitFrames k size s
      = (s.take n :: (splitFrames k size (s.drop n)).1, (splitFrames k size (s.drop n)).2) := by
  rw [splitFrames]
  split
  · rename_i m hm
    rw [h] at hm
    obtain rfl := Option.some.inj hm
    rfl
  · rename_i hn
    rw [h] at hn
    exact absurd hn (by simp)

/-- A frame that is there stays there when more of the stream arrives. -/
theorem frontFrame_append {s : List α} {n : Nat} (h : frontFrame k size s = some n)
    (t : List α) : frontFrame k size (s ++ t) = some n := by
  unfold frontFrame at h ⊢
  split at h
  · rename_i hk
    rw [if_pos (by rw [List.length_append]; omega), List.take_append_of_le_length hk]
    split at h
    · rename_i m hm
      split at h
      · rename_i hle
        obtain rfl := Option.some.inj h
        exact if_pos ⟨hle.1, by rw [List.length_append]; omega⟩
      · exact absurd h (by simp)
    · exact absurd h (by simp)
  · exact absurd h (by simp)

/-- A frame has the length its own header announces. -/
theorem size_of_mem_splitFrames (hk : ∀ hdr n, size hdr = some n → k ≤ n) {s f : List α}
    (hf : f ∈ (splitFrames k size s).1) : size (f.take k) = some f.length := by
  fun_induction splitFrames k size s with
  | case1 s n h r ih =>
      rcases List.mem_cons.mp hf with rfl | hf
      · have hn := frontFrame_le k size h
        have hsz : size (s.take k) = some n := by
          unfold frontFrame at h
          split at h
          · split at h
            · rename_i m hm
              split at h
              · exact Option.some.inj h ▸ hm
              · exact absurd h (by simp)
            · exact absurd h (by simp)
          · exact absurd h (by simp)
        rw [List.take_take, Nat.min_eq_left (hk _ _ hsz), hsz, List.length_take, Nat.min_eq_left hn.2]
      · exact ih hf
  | case2 s h => exact absurd hf (by simp)

/-- **Resuming at the tail.** What arrives later only depends on the tail left so far. -/
theorem splitFrames_append (s t : List α) :
    splitFrames k size (s ++ t)
      = ((splitFrames k size s).1 ++ (splitFrames k size ((splitFrames k size s).2 ++ t)).1,
         (splitFrames k size ((splitFrames k size s).2 ++ t)).2) := by
  fun_induction splitFrames k size s with
  | case1 s n h r ih =>
      have hn := frontFrame_le k size h
      rw [splitFrames_some (frontFrame_append h t), List.take_append_of_le_length hn.2,
        List.drop_append_of_le_length hn.2, ih]
      rfl
  | case2 s h => rfl

/-- More of the stream only adds frames. -/
theorem splitFrames_mono {s t : List α} (h : s <+: t) :
    (splitFrames k size s).1 <+: (splitFrames k size t).1 := by
  obtain ⟨u, rfl⟩ := h
  rw [splitFrames_append]
  exact List.prefix_append _ _

/-- **Frames that were put one behind the other are cut apart again.** -/
theorem splitFrames_of_frames {fs : List (List α)} (hk : ∀ hdr n, size hdr = some n → k ≤ n ∧ 0 < n)
    (h : ∀ f ∈ fs, size (f.take k) = some f.length) : splitFrames k size fs.flatten = (fs, []) := by
  induction fs with
  | nil =>
      refine splitFrames_none ?_
      cases hn : frontFrame k size ([] : List α) with
      | none => exact hn
      | some n => exact absurd (frontFrame_le k size hn).1 (Nat.not_lt.mpr (frontFrame_le k size hn).2)
  | cons f fs ih =>
      have hf := h f List.mem_cons_self
      obtain ⟨hle, hpos⟩ := hk _ _ hf
      have hfront : frontFrame k size f = some f.length := by
        unfold frontFrame
        rw [if_pos hle, hf]
        exact if_pos ⟨hpos, Nat.le_refl _⟩
      rw [List.flatten_cons, splitFrames_some (frontFrame_append hfront fs.flatten), List.take_left,
        List.drop_left, ih fun g hg => h g (List.mem_cons_of_mem _ hg)]

/-- In the front of one frame there is that frame or none. -/
theorem eq_of_mem_splitFrames (hk : ∀ hdr n, size hdr = some n → k ≤ n ∧ 0 < n) {m s f : List α}
    (hm : size (m.take k) = some m.length) (hs : s <+: m) (hf : f ∈ (splitFrames k size s).1) : f = m := by
  have hsub := (@splitFrames_mono _ k size _ _ hs).subset hf
  have hone : splitFrames k size [m].flatten = ([m], []) :=
    splitFrames_of_frames hk fun g hg => List.mem_singleton.mp hg ▸ hm
  rw [List.flatten_singleton] at hone
  rw [hone] at hsub
  exact List.mem_singleton.mp hsub

/-- The header at the front announces no admissible frame. -/
def Refused (k : Nat) (size : List α → Option Nat) (s : List α) : Prop :=
  k ≤ s.length ∧ size (s.take k) = none

/-- Behind a refused header nothing is ever found. -/
theorem Refused.splitFrames_eq {s : List α} (h : Refused k size s) (t : List α) :
    splitFrames k size (s ++ t) = ([], s ++ t) := by
  apply splitFrames_none
  unfold frontFrame
  rw [if_pos (by rw [List.length_append]; have := h.1; omega),
    List.take_append_of_le_length h.1, h.2]

end Disc.Lib
