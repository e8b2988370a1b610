import Mathlib.Data.List.TakeWhile
import Disc.Lib.Digits

/-!
# Cutting a text

A text is read up to the first character that stops the reader, and lists in a text are
cut at a separator. The two lemmas that say that every text can be seen this way,
`exists_chunk` and `exists_segments`, turn what a scanner does with a text put together
from its parts into what it does with any text.
-/

namespace Disc.Lib

/-- The bytes of a literal. -/
def ascii (s : String) : List UInt8 := s.toList.map fun c => c.toUInt8

/-- What holds of the 256 bytes. -/
theorem forall_byte {P : UInt8 → Prop} (h : ∀ n < 256, P (UInt8.ofNat n)) (c : UInt8) : P c := by
  have hc := h c.toNat c.toNat_lt
  rwa [UInt8.ofNat_toNat] at hc

section

variable {α : Type}

/-- Nothing comes, or a separator. -/
def Ends (sep : α) (l : List α) : Prop := l = [] ∨ ∃ r, l = sep :: r

theorem Ends.nil {sep : α} : Ends sep [] := .inl rfl

theorem Ends.cons {sep : α} {r : List α} : Ends sep (sep :: r) := .inr ⟨r, rfl⟩

theorem Ends.flatMap {sep : α} (segs : List (List α)) : Ends sep (segs.flatMap (sep :: ·)) := by
  cases segs with
  | nil => exact .nil
  | cons s segs => exact .cons

/-- **A text starts with what the reader accepts**, and ends there or goes on with a stop. -/
theorem exists_chunk (stop : α → Prop) [DecidablePred stop] (l : List α) :
    ∃ a b, l = a ++ b ∧ (∀ x ∈ a, ¬ stop x) ∧ (b = [] ∨ ∃ c r, b = c :: r ∧ stop c) := by
  induction l with
  | nil => exact ⟨[], [], rfl, by simp, .inl rfl⟩
  | cons c l ih =>
      by_cases hc : stop c
      · exact ⟨[], c :: l, rfl, by simp, .inr ⟨c, l, rfl, hc⟩⟩
      · obtain ⟨a, b, rfl, ha, hb⟩ := ih
        exact ⟨c :: a, b, rfl, List.forall_mem_cons.mpr ⟨hc, ha⟩, hb⟩

/-- **Every text is a list of segments**, with the separator in front of all but the first. -/
theorem exists_segments [DecidableEq α] (sep : α) (l : List α) :
    ∃ (a : List α) (segs : List (List α)), l = a ++ segs.flatMap (sep :: ·) ∧ sep ∉ a ∧ ∀ s ∈ segs, sep ∉ s := by
  induction l with
  | nil => exact ⟨[], [], rfl, by simp, by simp⟩
  | cons c l ih =>
      obtain ⟨a, segs, rfl, ha, hsegs⟩ := ih
      by_cases hc : c = sep
      · refine ⟨[], a :: segs, by simp [hc], by simp, ?_⟩
        intro s hs
        rcases List.mem_cons.mp hs with rfl | hs
        · exact ha
        · exact hsegs s hs
      · refine ⟨c :: a, segs, rfl, ?_, hsegs⟩
        intro hmem
        rcases List.mem_cons.mp hmem with h | h
        · exact hc h.symm
        · exact ha h

/-- What comes at a place of a text, one character at a time. -/
theorem getElem?_of_drop {l r : List α} {p : Nat} {c : α} (h : l.drop p = c :: r) :
    p < l.length ∧ l[p]? = some c ∧ l.drop (p + 1) = r := by
  refine ⟨?_, ?_, ?_⟩
  · by_contra hp
    rw [List.drop_of_length_le (by omega)] at h
    exact absurd h (by simp)
  · rw [← List.head?_drop, h]
    rfl
  · rw [← List.tail_drop, h]
    rfl

theorem drop_of_append {l a b : List α} {p : Nat} (h : l.drop p = a ++ b) :
    l.drop (p + a.length) = b := by
  rw [← List.drop_drop, h, List.drop_left]

end

/-! ## Decimal numbers -/

def isDigit (c : UInt8) : Prop := 48 ≤ c ∧ c ≤ 57

instance (c : UInt8) : Decidable (isDigit c) := inferInstanceAs (Decidable (_ ∧ _))

/-- The number a text of digits stands for. -/
def decValue (ds : List UInt8) : Nat := value 10 (ds.map fun c => c.toNat - 48)

theorem decValue_snoc (ds : List UInt8) (c : UInt8) :
    decValue (ds ++ [c]) = decValue ds * 10 + (c.toNat - 48) := by
  simp [decValue, value, List.foldl_append]

end Disc.Lib
