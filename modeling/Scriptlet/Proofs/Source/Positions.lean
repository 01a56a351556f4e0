-- SUMMARY: Lines and columns are in the order of the positions, and the columns of a line are those of its shown text.
import Scriptlet.Proofs.Source.Report

/-!
# Positions

Lines and columns are counted on what stands before a position. What is shown of a line
is cut out of the text by other means: it ends before a carriage return that belongs to
the end of the line, and there is no line behind the last line feed. Both agree on every
position but the one inside such an end.
-/
namespace Scriptlet

namespace Text

variable {before between rest : List Char}

/-- A position of a text cuts it in two. -/
theorem exists_cut_of_isValid {text : String} {offset : Nat}
    (h : String.Pos.Raw.IsValid text ⟨offset⟩) :
    ∃ before rest, text.toList = before ++ rest ∧ byteLength before = offset := by
  obtain ⟨before, rest, htext, hoffset⟩ := String.Pos.Raw.isValid_iff_exists_append.mp h
  refine ⟨before.toList, rest.toList, by rw [htext, String.toList_append], ?_⟩
  rw [byteLength_toList]
  exact congrArg String.Pos.Raw.byteIdx hoffset.symm

/-- The line and the column behind these characters. -/
def lineColBehind (before : List Char) : Nat × Nat :=
  (before.count '\n' + 1, (before.reverse.takeWhile (· ≠ '\n')).length + 1)

/-- Characters that are added lead on to a later line, or to a later column of the line. -/
theorem lineColBehind_lt (before : List Char) (h : between ≠ []) :
    toLex (lineColBehind before) < toLex (lineColBehind (before ++ between)) := by
  rw [Prod.Lex.toLex_lt_toLex]
  by_cases hfeed : '\n' ∈ between
  · have hpos : 0 < between.count '\n' := List.count_pos_iff.mpr hfeed
    exact .inl (by simpa [lineColBehind] using hpos)
  · have hkept : ∀ c ∈ between.reverse, decide (c ≠ '\n') = true := by
      rintro c hc
      refine decide_eq_true ?_
      rintro rfl
      exact hfeed (List.mem_reverse.mp hc)
    refine .inr ⟨?_, ?_⟩
    · simp [lineColBehind, List.count_eq_zero_of_not_mem hfeed]
    · have hpos : 0 < between.length := List.length_pos_iff.mpr h
      simp only [lineColBehind, List.reverse_append, List.takeWhile_append_of_pos hkept,
        List.length_append, List.length_reverse]
      omega

namespace Place

variable {cs : List Char} {offset : Nat} (p : Place cs offset)

/-- What is before the position in its line is shown, unless the position is inside the end of the
line. -/
theorem left_prefix_shown
    (h : ¬ (p.left.getLast? = some '\r' ∧ (p.right ++ p.below).head? = some '\n')) :
    p.left <+: p.shown := by
  unfold shown
  split
  case isTrue => exact List.prefix_append _ _
  case isFalse hbelow =>
    by_cases hright : p.right = []
    · have hreturn : p.left.getLast? ≠ some '\r' := by
        intro hlast
        obtain ⟨c, below, hc⟩ := List.exists_cons_of_ne_nil hbelow
        obtain rfl := p.feeds c (by simp [hc])
        exact h ⟨hlast, by simp [hright, hc]⟩
      rw [hright, List.append_nil, dropReturn, if_neg hreturn]
    · rw [dropReturn_append _ hright]
      exact List.prefix_append _ _

end Place

end Text

namespace Source

variable {s : Source} {offset : Nat}

theorem lineCol_of_cut {before rest : List Char} (h : s.content.toList = before ++ rest) :
    s.lineCol (Text.byteLength before) = Text.lineColBehind before := by
  simp only [lineCol, h, Text.before?_append, Option.getD_some, Text.lineColBehind]

/-- A later position has a later line, or a later column of the same line. -/
theorem lineCol_lt {offset' : Nat} (h : String.Pos.Raw.IsValid s.content ⟨offset⟩)
    (h' : String.Pos.Raw.IsValid s.content ⟨offset'⟩) (hlt : offset < offset') :
    toLex (s.lineCol offset) < toLex (s.lineCol offset') := by
  obtain ⟨before, rest, hcut, rfl⟩ := Text.exists_cut_of_isValid h
  obtain ⟨before', rest', hcut', rfl⟩ := Text.exists_cut_of_isValid h'
  obtain ⟨between, rfl⟩ | ⟨between, rfl⟩ := List.prefix_or_prefix_of_prefix
    (hcut ▸ List.prefix_append before rest) (hcut' ▸ List.prefix_append before' rest')
  · rw [lineCol_of_cut hcut, lineCol_of_cut hcut']
    refine Text.lineColBehind_lt before ?_
    rintro rfl
    simp at hlt
  · simp at hlt

/-- Is the position between the carriage return and the line feed of an end of a line? -/
def IsInsideEnd (s : Source) (offset : Nat) : Prop :=
  ∃ before rest, s.content.toList = before ++ '\r' :: '\n' :: rest ∧
    offset = Text.byteLength (before ++ ['\r'])

theorem not_inside_of_not_isInsideEnd (p : Text.Place s.content.toList offset)
    (h : ¬ s.IsInsideEnd offset) :
    ¬ (p.left.getLast? = some '\r' ∧ (p.right ++ p.below).head? = some '\n') := by
  rintro ⟨hleft, hrest⟩
  obtain ⟨before, hleft⟩ := List.getLast?_eq_some_iff.mp hleft
  obtain ⟨rest, hrest⟩ := List.head?_eq_some_iff.mp hrest
  refine h ⟨p.above ++ before, rest, ?_, ?_⟩
  · refine p.text.trans ?_
    simp [hrest, hleft]
  · refine p.bytes.trans ?_
    rw [hleft, List.append_assoc]

/-- Lines and columns tell positions apart and are in their order. The columns before a position are
the first characters of what is shown of its line, and these are the characters of the text from the
beginning of the line to the position, unless the position is inside the end of the line. -/
theorem lineCol_faithful (s : Source) :
    StrictMonoOn (fun offset => toLex (s.lineCol offset))
      {offset | String.Pos.Raw.IsValid s.content ⟨offset⟩} ∧
    Set.InjOn s.lineCol {offset | String.Pos.Raw.IsValid s.content ⟨offset⟩} ∧
    ∀ offset, String.Pos.Raw.IsValid s.content ⟨offset⟩ → ¬ s.IsInsideEnd offset →
      ∃ above left rest,
        s.content.toList = above ++ (left ++ rest) ∧ offset = Text.byteLength (above ++ left) ∧
        above.count '\n' + 1 = (s.lineCol offset).1 ∧ (∀ c ∈ above.getLast?, c = '\n') ∧
        (s.lineCol offset).2 - 1 ≤ (s.lineText (s.lineCol offset).1).length ∧
        (s.lineText (s.lineCol offset).1).toList.take ((s.lineCol offset).2 - 1) = left := by
  have hmono : StrictMonoOn (fun offset => toLex (s.lineCol offset))
      {offset | String.Pos.Raw.IsValid s.content ⟨offset⟩} :=
    fun _ h _ h' hlt => lineCol_lt h h' hlt
  refine ⟨hmono, fun _ h _ h' heq => hmono.injOn h h' (congrArg toLex heq), ?_⟩
  intro offset hvalid hinside
  obtain ⟨before, rest, hcut, hoffset⟩ := Text.exists_cut_of_isValid hvalid
  obtain ⟨p, -⟩ := Text.exists_place hcut hoffset
  have hprefix : p.left <+: (s.lineText p.number).toList := by
    rw [lineText_eq, String.toList_ofList]
    exact p.left_prefix_shown (not_inside_of_not_isInsideEnd p hinside)
  rw [lineCol_eq p]
  refine ⟨p.above, p.left, p.right ++ p.below, p.text, p.bytes, rfl, p.ended, ?_, ?_⟩
  · exact hprefix.length_le
  · exact (List.prefix_iff_eq_take.mp hprefix).symm

/-- The position before the last character, behind a line that ends with a carriage return and a line
feed, and behind a character of two bytes. -/
theorem lineCol_faithful_two_lines :
    let s : Source := { content := "é\r\nab" }
    s.lineCol 2 ≠ s.lineCol 5 ∧
      ∃ above left rest,
        s.content.toList = above ++ (left ++ rest) ∧ 5 = Text.byteLength (above ++ left) ∧
        above.count '\n' + 1 = (s.lineCol 5).1 ∧ (∀ c ∈ above.getLast?, c = '\n') ∧
        (s.lineCol 5).2 - 1 ≤ (s.lineText (s.lineCol 5).1).length ∧
        (s.lineText (s.lineCol 5).1).toList.take ((s.lineCol 5).2 - 1) = left := by
  intro s
  have hvalid2 : String.Pos.Raw.IsValid s.content ⟨2⟩ := by decide
  have hvalid5 : String.Pos.Raw.IsValid s.content ⟨5⟩ := by decide
  have hinside : ¬ s.IsInsideEnd 5 := by
    rintro ⟨before, rest, htext, hoffset⟩
    have hcontent : s.content.toList = ['é', '\r', '\n', 'a'] ++ ['b'] := by decide
    have hcut : ['é', '\r', '\n', 'a'] ++ ['b'] = (before ++ ['\r']) ++ '\n' :: rest := by
      rw [← hcontent, htext, List.append_assoc]
      rfl
    obtain ⟨hbefore, -⟩ := Text.append_inj_of_byteLength hcut hoffset
    have hlast := congrArg List.getLast? hbefore
    simp at hlast
  obtain ⟨-, hinj, hall⟩ := lineCol_faithful s
  exact ⟨fun h => absurd (hinj hvalid2 hvalid5 h) (by decide), hall 5 hvalid5 hinside⟩

end Source

end Scriptlet
