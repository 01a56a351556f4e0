-- SUMMARY: The numerals of programs: what the readers of numbers make of digits, and of digits with a point.
import Mathlib
import Scriptlet.Decimal.Reader

/-!
# Numerals

A program writes integers as digits, and floats as digits, a point and perhaps
more digits. Every text of the second shape denotes a float; one of the first
denotes an integer unless it is too large.
-/
namespace Scriptlet.Decimal

/-- Digits, at least one. -/
structure IsWhole (cs : List Char) : Prop where
  nonempty : cs ≠ []
  digits : ∀ c ∈ cs, c.isDigit

/-- Digits, a point, and digits, at least one before the point. -/
def IsPointed (cs : List Char) : Prop :=
  ∃ whole fraction, IsWhole whole ∧ (∀ c ∈ fraction, c.isDigit) ∧ cs = whole ++ '.' :: fraction

theorem isWhole_toDigits (n : Nat) : IsWhole (Nat.toDigits 10 n) where
  nonempty := Nat.toDigits_ne_nil
  digits _ hc := Nat.isDigit_of_mem_toDigits (by decide) (by decide) hc

theorem IsWhole.head_isDigit {c : Char} {cs : List Char} (h : IsWhole (c :: cs)) : c.isDigit :=
  h.digits c List.mem_cons_self

theorem readNat?_of_isWhole {cs : List Char} (h : IsWhole cs) :
    readNat? cs = some (Nat.ofDigitChars 10 cs 0) := by
  rw [readNat?, if_neg]
  simpa [h.nonempty] using h.digits

theorem readInt?_of_isWhole {cs : List Char} (h : IsWhole cs) :
    readInt? cs = some (Nat.ofDigitChars 10 cs 0 : Int) := by
  unfold readInt?
  split
  · exact absurd h.head_isDigit (by decide)
  · exact absurd h.head_isDigit (by decide)
  · rw [readNat?_of_isWhole h]
    rfl

theorem readInt64?_of_isWhole {cs : List Char} (h : IsWhole cs) :
    readInt64? cs =
      if Nat.ofDigitChars 10 cs 0 < 2 ^ 63 then some (Int64.ofNat (Nat.ofDigitChars 10 cs 0))
      else none := by
  simp only [readInt64?, readInt?_of_isWhole h, Option.bind_some]
  have hmin : Int64.minValue.toInt = -2 ^ 63 := by decide
  have hmax : Int64.maxValue.toInt = 2 ^ 63 - 1 := by decide
  by_cases hlt : Nat.ofDigitChars 10 cs 0 < 2 ^ 63
  · rw [if_pos hlt, if_pos (by omega), Int64.ofInt_eq_ofNat]
  · rw [if_neg hlt, if_neg (by omega)]

/-- A text with a point spells no infinity and no NaN. -/
theorem ofList_toLower_ne {cs : List Char} {name : String} (hcs : '.' ∈ cs)
    (hname : '.' ∉ name.toList) : String.ofList (cs.map Char.toLower) ≠ name := by
  rintro rfl
  rw [String.toList_ofList] at hname
  exact hname (List.mem_map.mpr ⟨'.', hcs, by decide⟩)

theorem span_whole {whole rest : List Char} {c : Char} (h : ∀ d ∈ whole, d.isDigit)
    (hc : c.isDigit = false) :
    (whole ++ c :: rest).span Char.isDigit = (whole, c :: rest) := by
  rw [List.span_eq_takeWhile_dropWhile, List.takeWhile_append_of_pos h,
    List.dropWhile_append_of_pos h, List.takeWhile_cons_of_neg (by simp [hc]),
    List.dropWhile_cons_of_neg (by simp [hc]), List.append_nil]

theorem readScientific?_of_isPointed {whole fraction : List Char} (hw : IsWhole whole)
    (hf : ∀ c ∈ fraction, c.isDigit) :
    readScientific? (whole ++ '.' :: fraction) =
      some ⟨Nat.ofDigitChars 10 (whole ++ fraction) 0, -fraction.length⟩ := by
  have hspan : fraction.span Char.isDigit = (fraction, []) := by
    rw [List.span_eq_takeWhile_dropWhile, ← List.append_nil fraction,
      List.takeWhile_append_of_pos hf, List.dropWhile_append_of_pos hf]
    rfl
  simp only [readScientific?, span_whole hw.digits (c := '.') (by decide), hspan]
  simp [hw.nonempty, readExponent?]

theorem readFloat?_of_isPointed {whole fraction : List Char} (hw : IsWhole whole)
    (hf : ∀ c ∈ fraction, c.isDigit) :
    readFloat? (whole ++ '.' :: fraction) =
      some (Scientific.toFloat
        ⟨Nat.ofDigitChars 10 (whole ++ fraction) 0, -fraction.length⟩) := by
  obtain ⟨d, ds, rfl⟩ := List.exists_cons_of_ne_nil hw.nonempty
  have hsign : readFloat? (d :: ds ++ '.' :: fraction) =
      readMagnitude? (d :: ds ++ '.' :: fraction) := by
    have hd := hw.head_isDigit
    unfold readFloat?
    split <;> simp_all
  have hpoint : '.' ∈ d :: ds ++ '.' :: fraction := by simp
  rw [hsign, readMagnitude?, if_neg, if_neg (ofList_toLower_ne hpoint (by decide)),
    readScientific?_of_isPointed hw hf]
  · rfl
  · rintro (h | h)
    · exact ofList_toLower_ne hpoint (by decide) h
    · exact ofList_toLower_ne hpoint (by decide) h

theorem readFloat?_isSome {cs : List Char} (h : IsPointed cs) : (readFloat? cs).isSome := by
  obtain ⟨whole, fraction, hw, hf, rfl⟩ := h
  rw [readFloat?_of_isPointed hw hf]
  rfl

end Scriptlet.Decimal
