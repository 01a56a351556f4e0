-- SUMMARY: The lines of a text, and that the bytes of a text fall into the bytes of its lines.
import Mathlib
import Scriptlet.Console

/-!
# Lines that are read

The prompt splits bytes into lines. No character but a line feed has the byte of a line feed
among its bytes, so where the bytes are those of a text, the lines are those of the text, and
each of them can be decoded.
-/
namespace Scriptlet.Console

/-! ## Lines of characters -/

/-- The lines of characters with their ends. The last one may have none. -/
def charLines : List Char → List (List Char)
  | [] => []
  | c :: cs =>
    if c = '\n' then [c] :: charLines cs
    else
      match charLines cs with
      | [] => [[c]]
      | line :: others => (c :: line) :: others

/-- The lines of a text with their ends. -/
def lines (text : String) : List String := (charLines text.toList).map String.ofList

/-- What a text without lines is, and a text with a first line: only the last line has no end. -/
theorem charLines_cases (cs : List Char) : cs = [] ∧ charLines cs = [] ∨
    ∃ line rest, cs = line ++ rest ∧ charLines cs = line :: charLines rest ∧
      (line.getLast? = some '\n' ∨ rest = []) := by
  fun_induction charLines cs with
  | case1 => exact .inl ⟨rfl, rfl⟩
  | case2 cs ih => exact .inr ⟨['\n'], cs, rfl, rfl, .inl rfl⟩
  | case3 c cs hc hnone ih =>
    obtain ⟨rfl, -⟩ | ⟨line, rest, -, hlines, -⟩ := ih
    · exact .inr ⟨[c], [], rfl, rfl, .inr rfl⟩
    · rw [hnone] at hlines
      cases hlines
  | case4 c cs hc line others hsome ih =>
    obtain ⟨-, hnone⟩ | ⟨line', rest, rfl, hlines, hend⟩ := ih
    · rw [hsome] at hnone
      cases hnone
    · rw [hsome] at hlines
      cases hlines
      refine .inr ⟨c :: line, rest, rfl, rfl, ?_⟩
      rcases hend with hend | rfl
      · refine .inl ?_
        cases line with
        | nil => cases hend
        | cons d line => rw [List.getLast?_cons_cons, hend]
      · exact .inr rfl

/-! ## Bytes -/

/-- Bytes without a line feed begin the first line. -/
theorem byteLines_append {bytes : List UInt8} (hne : bytes ≠ []) (h : ∀ b ∈ bytes, b ≠ 10)
    (rest : List UInt8) :
    byteLines (bytes ++ rest) =
      match byteLines rest with
      | [] => [bytes]
      | line :: others => (bytes ++ line) :: others := by
  induction bytes with
  | nil => exact absurd rfl hne
  | cons b bytes ih =>
    obtain ⟨hb, hbytes⟩ := List.forall_mem_cons.mp h
    rw [List.cons_append, byteLines, if_neg hb]
    cases bytes with
    | nil => rfl
    | cons b' bytes =>
      rw [ih (List.cons_ne_nil _ _) hbytes]
      cases byteLines rest <;> rfl

/-- A line feed is the only character with its byte. -/
theorem utf8EncodeChar_ne {c : Char} (hc : c ≠ '\n') : ∀ b ∈ String.utf8EncodeChar c, b ≠ 10 := by
  have hcode : c.val.toNat ≠ 10 := fun h => hc (Char.ext (UInt32.toNat_inj.mp h))
  have hbyte {n : Nat} (hn : n % 256 ≠ 10) : UInt8.ofNat n ≠ 10 := by
    intro h
    have hmod := congrArg UInt8.toNat h
    rw [UInt8.toNat_ofNat'] at hmod
    exact hn hmod
  fun_cases String.utf8EncodeChar c with
  | case1 => exact List.forall_mem_singleton.mpr (hbyte (by omega))
  | case2 => simpa only [List.forall_mem_cons] using ⟨hbyte (by omega), hbyte (by omega), nofun⟩
  | case3 =>
    simpa only [List.forall_mem_cons] using
      ⟨hbyte (by omega), hbyte (by omega), hbyte (by omega), nofun⟩
  | case4 =>
    simpa only [List.forall_mem_cons] using
      ⟨hbyte (by omega), hbyte (by omega), hbyte (by omega), hbyte (by omega), nofun⟩

theorem byteLines_flatMap (cs : List Char) :
    byteLines (cs.flatMap String.utf8EncodeChar) =
      (charLines cs).map (·.flatMap String.utf8EncodeChar) := by
  induction cs with
  | nil => rfl
  | cons c cs ih =>
    rw [List.flatMap_cons, charLines]
    split
    · next hc =>
      subst hc
      change byteLines (10 :: cs.flatMap String.utf8EncodeChar) = _
      rw [byteLines, if_pos rfl, ih]
      rfl
    · next hc =>
      rw [byteLines_append String.utf8EncodeChar_ne_nil (utf8EncodeChar_ne hc), ih]
      cases charLines cs with
      | nil => simp
      | cons line others => simp

theorem toList_loop (bytes : ByteArray) (i : Nat) (before : List UInt8) :
    ByteArray.toList.loop bytes i before = before.reverse ++ bytes.data.toList.drop i := by
  fun_induction ByteArray.toList.loop bytes i before with
  | case1 i before hi ih =>
    have hlength : i < bytes.data.toList.length := by simpa using hi
    have hget : bytes.get! i = bytes.data.toList[i] := by
      rw [Array.getElem_toList, ← getElem!_pos bytes.data i hi]
      rfl
    rw [ih, List.drop_eq_getElem_cons hlength, hget, List.reverse_cons, List.append_assoc]
    rfl
  | case2 i before hi =>
    rw [List.drop_eq_nil_of_le (by simpa using Nat.le_of_not_lt hi), List.append_nil]

theorem toList_toByteArray (text : String) :
    text.toByteArray.toList = text.toList.flatMap String.utf8EncodeChar := by
  rw [ByteArray.toList, toList_loop, List.reverse_nil, List.nil_append, List.drop_zero]
  conv_lhs => rw [← String.ofList_toList (s := text), String.toByteArray_ofList]
  exact List.toList_data_toByteArray

/-- The lines of the bytes of a text are the bytes of its lines. -/
theorem byteLines_toByteArray (text : String) :
    ((byteLines text.toByteArray.toList).map fun line => (⟨line.toArray⟩ : ByteArray)) =
      (lines text).map String.toByteArray := by
  rw [toList_toByteArray, byteLines_flatMap, lines, List.map_map, List.map_map]
  refine List.map_congr_left fun line _ => ByteArray.ext ?_
  rw [Function.comp_apply, Function.comp_apply, String.toByteArray_ofList, List.utf8Encode, List.data_toByteArray]

theorem decode_toByteArray (text : String) : decode text.toByteArray = .ok text := by
  have hvalid : text.toByteArray.IsValidUTF8 := text.isValidUTF8
  simp only [decode, String.fromUTF8?, dif_pos hvalid]
  rfl

end Scriptlet.Console
