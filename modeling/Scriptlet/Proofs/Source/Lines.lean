-- SUMMARY: The line that a position is in, and the line number, the column and the shown text of it.
import Scriptlet.Source
import Scriptlet.Proofs.Token.Tiling

/-!
# Positions and their lines

A position in a text is given with the line that it is in: what stands above the line, in
the line before and behind the position, and below the line. The line number, the column
and the text that is shown for the line can all be read off it.
-/
namespace Scriptlet

namespace Text

variable {cs before line left right above below : List Char}

/-! ## Cuts at byte offsets -/

theorem before?_append (before rest : List Char) :
    before? (byteLength before) (before ++ rest) = some before := by
  induction before with
  | nil => cases rest <;> rfl
  | cons c before ih =>
    have hpos := c.utf8Size_pos
    obtain ⟨n, hn⟩ : ∃ n, byteLength (c :: before) = n + 1 :=
      ⟨byteLength (c :: before) - 1, by rw [byteLength_cons]; omega⟩
    rw [hn, List.cons_append, before?]
    rw [byteLength_cons] at hn
    rw [if_pos (by omega), show n + 1 - c.utf8Size = byteLength before by omega, ih]
    rfl

/-- The characters between two byte offsets. There are none to give if an offset lies inside a character or
past the end, or if the second is before the first. -/
def slice? (start stop : Nat) (cs : List Char) : Option (List Char) := do
  let before ← before? stop cs
  let skipped ← before? start before
  return before.drop skipped.length

theorem slice?_append (before part rest : List Char) :
    slice? (byteLength before) (byteLength before + byteLength part) (before ++ part ++ rest) =
      some part := by
  rw [slice?, ← byteLength_append, before?_append]
  simp only [bind, Option.bind, before?_append, List.drop_left]
  rfl

/-- What stands before a cut of a text ends at a position of it. -/
theorem isValid_of_cut {text : String} {rest : List Char} (h : text.toList = before ++ rest) :
    String.Pos.Raw.IsValid text ⟨byteLength before⟩ := by
  refine String.Pos.Raw.isValid_iff_exists_append.mpr
    ⟨String.ofList before, String.ofList rest, ?_, ?_⟩
  · rw [← String.ofList_append, ← h, String.ofList_toList]
  · rw [String.rawEndPos, ← byteLength_toList, String.toList_ofList]

/-! ## Lines -/

/-- A line without the carriage return that belongs to the end of the line. -/
def dropReturn (line : List Char) : List Char :=
  if line.getLast? = some '\r' then line.dropLast else line

theorem dropReturn_cons {c : Char} (h : line ≠ []) : dropReturn (c :: line) = c :: dropReturn line := by
  obtain ⟨d, ds, rfl⟩ := List.exists_cons_of_ne_nil h
  rw [dropReturn, dropReturn, List.getLast?_cons_cons]
  split <;> rfl

theorem lines_cons {c : Char} (hfeed : c ≠ '\n') (hreturn : c = '\r' → cs.head? ≠ some '\n') :
    lines (c :: cs) = match lines cs with
      | [] => [[c]]
      | line :: others => (c :: line) :: others := by
  refine lines.eq_4 c cs hfeed ?_
  rintro tail rfl rfl
  exact hreturn rfl rfl

/-- What is ended by a line feed is a line, and then come those behind it. -/
theorem lines_append_feed (h : '\n' ∉ line) (cs : List Char) :
    lines (line ++ '\n' :: cs) = dropReturn line :: lines cs := by
  induction line with
  | nil => rfl
  | cons c line ih =>
    obtain ⟨hc, hline⟩ := not_or.mp (List.mem_cons.not.mp h)
    cases hl : line with
    | nil =>
      by_cases hreturn : c = '\r'
      · subst hreturn
        rfl
      · rw [List.cons_append, lines_cons (Ne.symm hc) (absurd · hreturn)]
        simp [lines, dropReturn, hreturn]
    | cons d ds =>
      rw [← hl, List.cons_append, lines_cons (Ne.symm hc), ih hline, dropReturn_cons (by simp [hl])]
      intro _ hhead
      rw [hl, List.cons_append, List.head?_cons, Option.some.injEq] at hhead
      rw [hl, hhead] at hline
      exact hline List.mem_cons_self

/-- What no line feed ends is the last line, unless it is empty. -/
theorem lines_of_not_mem (h : '\n' ∉ line) : lines line = if line = [] then [] else [line] := by
  induction line with
  | nil => rfl
  | cons c line ih =>
    obtain ⟨hc, hline⟩ := not_or.mp (List.mem_cons.not.mp h)
    rw [lines_cons (Ne.symm hc), ih hline, if_neg (List.cons_ne_nil c line)]
    · by_cases hnil : line = []
      · rw [if_pos hnil, hnil]
      · rw [if_neg hnil]
    · intro _ hhead
      obtain ⟨tail, rfl⟩ := List.head?_eq_some_iff.mp hhead
      exact hline List.mem_cons_self

theorem dropReturn_append (left : List Char) (h : right ≠ []) :
    dropReturn (left ++ right) = left ++ dropReturn right := by
  induction left with
  | nil => rfl
  | cons c left ih => rw [List.cons_append, dropReturn_cons (by simp [h]), ih, List.cons_append]

theorem mem_of_mem_dropReturn {c : Char} (h : c ∈ dropReturn line) : c ∈ line := by
  unfold dropReturn at h
  split at h
  · exact (List.dropLast_sublist line).subset h
  · exact h

/-- Line feeds above count lines. -/
theorem getElem?_lines (h : ∀ c ∈ above.getLast?, c = '\n') (cs : List Char) (i : Nat) :
    (lines (above ++ cs))[above.count '\n' + i]? = (lines cs)[i]? := by
  induction hn : above.length using Nat.strongRecOn generalizing above with
  | _ n ih =>
    by_cases hnil : above = []
    · simp [hnil]
    · have hmem : '\n' ∈ above := by
        rw [List.getLast?_eq_some_getLast hnil] at h
        exact h _ rfl ▸ List.getLast_mem hnil
      obtain ⟨line, more, rfl, hline⟩ := List.eq_append_cons_of_mem hmem
      have hmore : ∀ c ∈ more.getLast?, c = '\n' := by
        intro c hc
        refine h c ?_
        rw [List.getLast?_append, List.getLast?_cons, Option.mem_def.mp hc]
        rfl
      have hrest := ih more.length (by rw [← hn, List.length_append, List.length_cons]; omega) hmore rfl
      rw [List.append_assoc, List.cons_append, lines_append_feed hline, ← hrest,
        List.count_append, List.count_eq_zero_of_not_mem hline, List.count_cons_self, Nat.zero_add,
        Nat.add_right_comm, List.getElem?_cons_succ]

/-! ## Positions -/

/-- A position in a text, with the line that it is in. -/
structure Place (cs : List Char) (offset : Nat) where
  above : List Char
  left : List Char
  right : List Char
  below : List Char
  text : cs = above ++ (left ++ (right ++ below))
  bytes : offset = byteLength (above ++ left)
  oneLine : '\n' ∉ left ++ right
  ended : ∀ c ∈ above.getLast?, c = '\n'
  feeds : ∀ c ∈ below.head?, c = '\n'

namespace Place

variable {offset : Nat} (p : Place cs offset)

/-- The number of the line. -/
def number : Nat := p.above.count '\n' + 1

/-- What is shown of the line. -/
def shown : List Char :=
  if p.below = [] then p.left ++ p.right else dropReturn (p.left ++ p.right)

theorem isValid {text : String} {offset : Nat} (p : Place text.toList offset) :
    String.Pos.Raw.IsValid text ⟨offset⟩ := by
  have htext := p.text
  rw [← List.append_assoc] at htext
  rw [p.bytes]
  exact isValid_of_cut htext

theorem above_cut : before? offset cs = some (p.above ++ p.left) := by
  have hcut := before?_append (p.above ++ p.left) (p.right ++ p.below)
  rwa [List.append_assoc, ← p.text, ← p.bytes] at hcut

theorem count_above : (p.above ++ p.left).count '\n' = p.above.count '\n' := by
  have hleft : '\n' ∉ p.left := fun h => p.oneLine (List.mem_append_left _ h)
  rw [List.count_append, List.count_eq_zero_of_not_mem hleft, Nat.add_zero]

theorem takeWhile_left :
    (p.above ++ p.left).reverse.takeWhile (· ≠ '\n') = p.left.reverse := by
  rw [List.reverse_append]
  refine Token.takeWhile_append_stop (fun c hc => ?_) fun c hc => ?_
  · have hne : c ≠ '\n' := by
      rintro rfl
      exact p.oneLine (List.mem_append_left _ (List.mem_reverse.mp hc))
    simpa using hne
  · rw [List.head?_reverse] at hc
    simpa using p.ended c hc

theorem getElem?_lines_number : (lines cs)[p.number - 1]?.getD [] = p.shown := by
  have hlines := getElem?_lines p.ended (p.left ++ (p.right ++ p.below)) 0
  rw [← p.text, Nat.add_zero, ← List.append_assoc] at hlines
  rw [number, Nat.add_sub_cancel, hlines, shown]
  cases hbelow : p.below with
  | nil =>
    rw [List.append_nil, lines_of_not_mem p.oneLine, if_pos rfl]
    split <;> simp [*]
  | cons c below =>
    obtain rfl := p.feeds c (by rw [hbelow]; rfl)
    rw [lines_append_feed p.oneLine, if_neg (List.cons_ne_nil _ _)]
    rfl

theorem not_mem_shown : '\n' ∉ p.shown := by
  unfold shown
  split
  · exact p.oneLine
  · exact fun h => p.oneLine (mem_of_mem_dropReturn h)

/-- The character at the position is shown, unless it ends the line. -/
theorem getElem?_shown {c : Char} (hc : c ∈ (p.right ++ p.below).head?) (hfeed : c ≠ '\n')
    (hreturn : c ≠ '\r') : p.shown[p.left.length]? = some c := by
  obtain ⟨right, hright⟩ : ∃ right, p.right = c :: right := by
    cases hright : p.right with
    | nil =>
      rw [hright, List.nil_append] at hc
      exact absurd (p.feeds c hc) hfeed
    | cons d right =>
      rw [hright] at hc
      exact ⟨right, by rw [← Option.some.inj hc]⟩
  have hkept : ∃ more, dropReturn (c :: right) = c :: more := by
    by_cases hnil : right = []
    · exact ⟨[], by simp [hnil, dropReturn, hreturn]⟩
    · exact ⟨_, dropReturn_cons hnil⟩
  obtain ⟨more, hmore⟩ := hkept
  rw [shown, hright]
  split
  · simp
  · rw [dropReturn_append _ (List.cons_ne_nil c right), hmore]
    simp

/-- At the end of the text the line is shown as it is. -/
theorem length_shown (h : p.right ++ p.below = []) : p.shown.length = p.left.length := by
  obtain ⟨hright, hbelow⟩ := List.append_eq_nil_iff.mp h
  rw [shown, if_pos hbelow, hright, List.append_nil]

end Place

/-- What stands before a position and what stands behind it tells the line. -/
theorem exists_place {before rest : List Char} (htext : cs = before ++ rest) {offset : Nat}
    (hoffset : byteLength before = offset) :
    ∃ p : Place cs offset, p.above ++ p.left = before ∧ p.right ++ p.below = rest := by
  obtain ⟨left, above, hbefore, hleft, habove⟩ := Token.exists_run (· ≠ '\n') before.reverse
  obtain ⟨right, below, rfl, hright, hbelow⟩ := Token.exists_run (· ≠ '\n') rest
  have hbefore : above.reverse ++ left.reverse = before := by
    rw [← List.reverse_append, ← hbefore, List.reverse_reverse]
  refine ⟨⟨above.reverse, left.reverse, right, below, ?_, ?_, ?_, ?_, ?_⟩, hbefore, rfl⟩
  · rw [htext, ← hbefore, List.append_assoc]
  · rw [hbefore, hoffset]
  · simp only [List.mem_append, List.mem_reverse, not_or]
    exact ⟨fun h => by simpa using hleft _ h, fun h => by simpa using hright _ h⟩
  · simpa using habove
  · simpa using hbelow

end Text

end Scriptlet
