-- SUMMARY: The report of an error that has a position shows the line of it, with the caret below the character.
import Scriptlet.Script
import Scriptlet.Proofs.Source.Lines

/-!
# Reports

A report without colours has five lines. The fourth shows the line of the position, behind
its number. The fifth ends with the caret, below the character at the position.
-/
namespace Scriptlet

namespace Text

variable {s t : String}

/-- A text without line feeds. -/
def OneLine (s : String) : Prop := '\n' ∉ s.toList

instance (s : String) : Decidable (OneLine s) := inferInstanceAs (Decidable ('\n' ∉ s.toList))

@[simp] theorem oneLine_append : OneLine (s ++ t) ↔ OneLine s ∧ OneLine t := by
  rw [OneLine, String.toList_append, List.mem_append, not_or]
  rfl

@[simp] theorem oneLine_toString : OneLine (toString s) ↔ OneLine s := .rfl

theorem feed_not_mem_toDigits {base : Nat} (hbase : 1 < base) (n : Nat) :
    '\n' ∉ Nat.toDigits base n := by
  induction n using Nat.strongRecOn with
  | _ n ih =>
    have hdigit {n : Nat} : '\n' ∉ [n.digitChar] :=
      fun h => Nat.digitChar_ne '\n' rfl (List.mem_singleton.mp h).symm
    rw [Nat.toDigits_eq_if hbase]
    split
    · exact hdigit
    · intro h
      exact (List.mem_append.mp h).elim (ih _ (Nat.div_lt_self (by omega) hbase)) hdigit

@[simp] theorem oneLine_repr (n : Nat) : OneLine n.repr := by
  rw [OneLine, Nat.repr, String.toList_ofList]
  exact feed_not_mem_toDigits (by decide) n

end Text

namespace Source

open Text (OneLine)

variable {s : Source} {message : String} {offset : Nat} (p : Text.Place s.content.toList offset)

/-! ## The position -/

theorem lineCol_eq : s.lineCol offset = (p.number, p.left.length + 1) := by
  simp only [lineCol, p.above_cut, Option.getD_some, p.count_above, p.takeWhile_left,
    List.length_reverse, Text.Place.number]

theorem lineText_eq : s.lineText p.number = String.ofList p.shown := by
  rw [lineText, p.getElem?_lines_number]

/-! ## The lines of a report -/

theorem toList_blanks (n : Nat) : (blanks n).toList = List.replicate n ' ' := String.toList_ofList

theorem length_blanks (n : Nat) : (blanks n).length = n := by
  rw [← String.length_toList, toList_blanks, List.length_replicate]

theorem mem_blanks {n : Nat} {c : Char} (h : c ∈ (blanks n).toList) : c = ' ' :=
  List.eq_of_mem_replicate (toList_blanks n ▸ h)

theorem oneLine_blanks (n : Nat) : OneLine (blanks n) := fun h => nomatch mem_blanks h

/-- As many spaces as the number of the line has digits. -/
def gutter : String := blanks (toString p.number).length

/-- The line of a report that tells the position. -/
def location : String :=
  gutter p ++ "--> " ++ s.name ++ ":" ++ toString p.number ++ ":" ++ toString (p.left.length + 1)

/-- What stands before the shown line. -/
def margin : String := toString p.number ++ " | "

/-- What stands before the caret. -/
def indent : String := gutter p ++ " | " ++ blanks p.left.length

/-- The lines of a report, with the shown line behind its margin and the caret behind its indent. -/
def layout (heading location bar margin indent : String) (shown : List Char) : List String :=
  [heading, location, bar, margin ++ String.ofList shown, indent ++ "^"]

/-- The lines of a report without colours. -/
def reportLines (message : String) : List String :=
  layout ("error: " ++ message) (location p) (gutter p ++ " |") (margin p) (indent p) p.shown

theorem toList_report :
    (s.report false message (some offset)).toList =
      (reportLines p message).flatMap fun line => line.toList ++ ['\n'] := by
  rw [report, excerpt, lineCol_eq p]
  simp only [lineText_eq]
  simp [heading, Style.paint, reportLines, layout, location, margin, indent, gutter, toString]

theorem oneLine_reportLines (hname : OneLine s.name) (hmessage : OneLine message) :
    ∀ line ∈ reportLines p message, OneLine line := by
  have hgutter : OneLine (gutter p) := oneLine_blanks _
  have hindent : OneLine (blanks p.left.length) := oneLine_blanks _
  have hshown : OneLine (String.ofList p.shown) := by
    rw [OneLine, String.toList_ofList]
    exact p.not_mem_shown
  simp +decide [reportLines, layout, location, margin, indent, *]

/-- The caret stands as far behind the margin as the position behind the beginning of the line. -/
theorem length_indent : (indent p).length = (margin p).length + p.left.length := by
  rw [indent, margin, gutter, String.length_append, String.length_append, String.length_append,
    length_blanks, length_blanks]

theorem caret_not_mem_indent : '^' ∉ (indent p).toList := by
  rw [indent, gutter, String.toList_append, String.toList_append, List.mem_append, List.mem_append]
  rintro ((h | h) | h)
  · exact nomatch mem_blanks h
  · exact absurd h (by decide)
  · exact nomatch mem_blanks h

/-! ## Where the caret stands -/

/-- The report has these five lines. The fourth shows the line of the position behind a margin. The caret
that ends the fifth stands below the character at the position, or just behind what is shown if the
position is the end of the text. -/
structure Points {cs : List Char} (p : Text.Place cs offset)
    (report heading location bar margin indent : String) : Prop where
  lines : report.toList =
    (layout heading location bar margin indent p.shown).flatMap fun line => line.toList ++ ['\n']
  oneLine : ∀ line ∈ layout heading location bar margin indent p.shown, OneLine line
  number : margin = toString p.number ++ " | "
  caret : '^' ∉ indent.toList
  below : ∀ c ∈ (p.right ++ p.below).head?, (margin.toList ++ p.shown)[indent.length]? = some c
  behind : p.right ++ p.below = [] → indent.length = margin.length + p.shown.length

/-- The caret points at a character that is no blank, and at the end of the text. -/
theorem points_report (hname : OneLine s.name) (hmessage : OneLine message)
    (hink : ∀ c ∈ (p.right ++ p.below).head?, Token.isBlank c = false) :
    Points p (s.report false message (some offset)) ("error: " ++ message) (location p)
      (gutter p ++ " |") (margin p) (indent p) where
  lines := toList_report p
  oneLine := oneLine_reportLines p hname hmessage
  number := rfl
  caret := caret_not_mem_indent p
  below c hc := by
    have hblank := hink c hc
    rw [length_indent, ← String.length_toList, List.getElem?_append_right (Nat.le_add_right _ _),
      Nat.add_sub_cancel_left]
    refine p.getElem?_shown hc ?_ ?_
    · rintro rfl
      cases hblank
    · rintro rfl
      cases hblank
  behind h := by rw [length_indent, p.length_shown h]

end Source

end Scriptlet
