-- SUMMARY: The fault of a text is reported at a character of it that is no blank, in one line.
import Scriptlet.Proofs.Parse.CorrectPrefix
import Scriptlet.Proofs.Parse.Ensures
import Scriptlet.Proofs.Source.Report
import Scriptlet.Proofs.Token.Faults

/-!
# Where faults stand and how they are told

A reader reports a fault at a token of the text. What it says about the fault quotes names
and numbers of the text, and these have no line feed. So every fault of a text is reported
at a character of the text that is no blank, or at the end, and in one line.
-/
namespace Scriptlet

open Text (OneLine byteLength)

/-! ## Wording -/

namespace Text

@[simp] theorem oneLine_quoted (c : Char) : OneLine (quoted c) := by
  suffices hescaped : OneLine (escaped c) by simp +decide [quoted, hescaped]
  unfold escaped
  split
  case h_7 _ _ _ hfeed _ _ =>
    split
    · rw [OneLine, Char.toString, String.toList_singleton, List.mem_singleton]
      exact Ne.symm hfeed
    · have hdigits : OneLine (String.ofList (Nat.toDigits 16 c.toNat)) := by
        rw [OneLine, String.toList_ofList]
        exact feed_not_mem_toDigits (by decide) _
      simp +decide [codePointEscape, hdigits]
  all_goals decide

end Text

@[simp] theorem Token.Kind.oneLine_display (kind : Kind) : OneLine kind.display := by
  cases kind <;> decide

@[simp] theorem Expected.oneLine_display (expected : Expected) : OneLine expected.display := by
  cases expected with
  | kind kind => exact kind.oneLine_display
  | _ => decide

theorem Token.LexError.oneLine_message (e : LexError) : OneLine e.message := by
  unfold message
  split <;> simp only [Text.oneLine_append, Text.oneLine_toString, Nat.toString_eq_repr,
    Text.oneLine_repr, Text.oneLine_quoted] <;> decide

/-! ## Faults of readers -/

/-- The texts that the fault quotes are written in one line. -/
def ParseError.QuotesLines : ParseError → Prop
  | .duplicateParam f x _ => OneLine f ∧ OneLine x
  | .requiredAfterOptional f x _ => OneLine f ∧ OneLine x
  | .numberOutOfRange text _ => OneLine text
  | _ => True

theorem ParseError.QuotesLines.oneLine_message {e : ParseError} (h : e.QuotesLines) :
    OneLine e.message := by
  unfold message
  split <;> simp only [QuotesLines] at h <;> simp only [Text.oneLine_append, Text.oneLine_toString,
    Nat.toString_eq_repr, Text.oneLine_repr, Token.Kind.oneLine_display, Expected.oneLine_display,
    h] <;> decide

namespace Parse

variable {cs : List Char}

/-- The tokens that the cursor sees are tokens of the text. -/
def ReadsFrom (cs : List Char) (c : Cursor) : Prop := ∀ t ∈ c.final :: c.rest, t.StandsIn cs

/-- The fault is at a token of the text and quotes texts in one line. -/
def FaultIn (cs : List Char) (e : ParseError) (_ : Cursor) : Prop :=
  Token.InkAt cs e.offset ∧ e.QuotesLines

theorem ReadsFrom.current {c : Cursor} (h : ReadsFrom cs c) : c.current.StandsIn cs := by
  rcases c with ⟨_ | ⟨t, rest⟩, final, depth, height⟩
  · exact h final List.mem_cons_self
  · exact h t (List.mem_cons_of_mem _ List.mem_cons_self)

theorem lawfulExpr_faultIn : LawfulExpr (FaultIn cs) (ReadsFrom cs) OneLine where
  advance c hc t ht := hc t (List.cons_subset_cons _ (List.tail_sublist _).subset ht)
  named c x hc hx := by
    obtain ⟨hkind, htext⟩ := Token.name?_eq_some.mp hx
    have honeLine := hc.current.oneLine (.inr (.inr hkind))
    rwa [htext] at honeLine
  unexpected expected c hc := by
    rw [Cursor.unexpected]
    split
    · exact ⟨hc.current.ink, trivial⟩
    · exact ⟨hc.current.ink, trivial⟩
  ofParam f x c hf hc hx c' := by
    obtain ⟨hkind, htext⟩ := Token.name?_eq_some.mp hx
    have honeLine := hc.current.oneLine (.inr (.inr hkind))
    rw [htext] at honeLine
    exact ⟨⟨hc.current.ink, hf, honeLine⟩, ⟨hc.current.ink, hf, honeLine⟩⟩
  height _ _ hc := hc
  depth _ _ hc := hc
  faultDepth _ _ _ he := he
  number c hc hmisread :=
    ⟨hc.current.ink, hc.current.oneLine (hmisread.imp And.left fun h => .inl h.1)⟩
  nesting c hc _ := ⟨hc.current.ink, trivial⟩

end Parse

/-! ## Faults of texts -/

/-- The fault is reported at a place in the text where no blank stands, in one line. -/
structure SourceError.TellsOf (cs : List Char) (e : SourceError) : Prop where
  ink : Token.InkAt cs e.offset
  oneLine : OneLine e.message

theorem Program.tellsOf_of_ofText {text : String} {e : SourceError}
    (h : Program.ofText text = .error e) : e.TellsOf text.toList := by
  unfold ofText at h
  split at h
  next e' hlex =>
    cases h
    exact ⟨Token.inkAt_of_ofText hlex, e'.oneLine_message⟩
  next ts htokens =>
    split at h
    next e' hparse =>
      cases h
      have hstands := Token.standsIn_of_ofText htokens
      have hreads : Parse.ReadsFrom text.toList (Cursor.ofTokens ts) := by
        refine List.forall_mem_cons.mpr ⟨?_, hstands⟩
        obtain ⟨us, rfl, -⟩ := Token.scan_eq_ok_iff_splits.mp htokens
        refine hstands _ (List.mem_append_right _ ?_)
        simp [Cursor.ofTokens, Cursor.atIndex]
      obtain ⟨c, hrun⟩ := Program.ofTokens_eq_error.mp hparse
      have hends := Parse.lawfulExpr_faultIn.program _ hreads
      rw [hrun] at hends
      exact ⟨hends.1, hends.2.oneLine_message⟩
    next => cases h

/-! ## Reports of faults -/

namespace SourceError

/-- The fault of a text is at a position of the text, and its report points there. -/
theorem report_points {name text : String} {e : SourceError} (hname : OneLine name)
    (h : Program.ofText text = .error e) :
    String.Pos.Raw.IsValid text ⟨e.offset⟩ ∧
      ∃ (p : Text.Place text.toList e.offset) (heading location bar margin indent : String),
        Source.Points p ((ScriptError.source e).report ⟨name, text⟩ false)
          heading location bar margin indent := by
  have htells := Program.tellsOf_of_ofText h
  obtain ⟨before, rest, htext, hoffset, hink⟩ := htells.ink
  obtain ⟨p, -, hrest⟩ := Text.exists_place htext hoffset
  have hpoints := Source.points_report (s := ⟨name, text⟩) p hname htells.oneLine (hrest ▸ hink)
  exact ⟨p.isValid, p, _, _, _, _, _, hpoints⟩

/-- A semicolon is missing behind characters of two bytes, in a line with a carriage return. -/
theorem report_points_after_wide :
    OneLine "main" ∧
      Program.ofText "var a = \"éé\" 1;\r\n" =
        .error (.parse (.unexpectedToken (.kind .semicolon) .integer 15)) ∧
      String.Pos.Raw.IsValid "var a = \"éé\" 1;\r\n" ⟨15⟩ ∧
      ∃ (p : Text.Place "var a = \"éé\" 1;\r\n".toList 15)
        (heading location bar margin indent : String),
        Source.Points p ((ScriptError.source (.parse
          (.unexpectedToken (.kind .semicolon) .integer 15))).report
            ⟨"main", "var a = \"éé\" 1;\r\n"⟩ false) heading location bar margin indent := by
  have hname : OneLine "main" := by decide
  have herror : Program.ofText "var a = \"éé\" 1;\r\n" =
      .error (.parse (.unexpectedToken (.kind .semicolon) .integer 15)) := by decide +kernel
  exact ⟨hname, herror, report_points hname herror⟩

end SourceError

end Scriptlet
