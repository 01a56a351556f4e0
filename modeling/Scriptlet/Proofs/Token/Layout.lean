-- SUMMARY: Terminals are scanned as and where they were written, however they are laid out in a text.
import Scriptlet.Proofs.Token.Spelling
import Scriptlet.Proofs.Token.Tiling

/-!
# Laying out terminals

A gap consists of blanks and of comments with the line feeds that end them. No token goes on
into a gap, and no gap into what stands behind it, whatever a comment holds. So terminals
that are written with gaps between them are scanned as those terminals; what the gaps are
shows only in the places of the tokens.
-/
namespace Scriptlet.Token

open Text

/-! ## Gaps -/

/-- Blanks, and comments that end their lines. -/
inductive IsGap : List Char → Prop
  | nil : IsGap []
  | blank {c : Char} {gap : List Char} (hc : isBlank c) : IsGap gap → IsGap (c :: gap)
  | comment {body gap : List Char} (hbody : ∀ c ∈ body, c ≠ '\n') :
      IsGap gap → IsGap ('#' :: body ++ '\n' :: gap)

variable {gap rest : List Char}

/-- A gap is layout before anything. -/
theorem IsGap.isLayout (h : IsGap gap) (rest : List Char) : IsLayout rest gap := by
  induction h with
  | nil => exact .nil
  | blank hc _ ih => exact .skip (.blank hc) ih
  | @comment body gap hbody _ ih =>
    have hfeed : Skips (gap ++ rest) ['\n'] := .blank rfl
    have hgap : IsLayout rest ('\n' :: gap) := .skip hfeed ih
    exact .skip (.comment hbody fun c hc => (Option.some.inj hc).symm) hgap

theorem IsGap.separates (h : IsGap gap) (hne : gap ≠ []) : Separates (gap ++ rest) := by
  cases h with
  | nil => exact absurd rfl hne
  | blank hc => exact fun c h => .inl (Option.some.inj h ▸ hc)
  | comment => exact fun c h => .inr (Option.some.inj h).symm

/-! ## Terminals with gaps -/

/-- A terminal, and the gap that is written behind it. -/
structure Piece where
  terminal : Terminal
  gap : List Char

/-- The characters of a piece. -/
def Piece.chars (p : Piece) : List Char := p.terminal.spelling ++ p.gap

/-- The terminals can be written, and a gap of at least one character stands between any two. -/
structure LaidOut (ps : List Piece) : Prop where
  spellable : ∀ p ∈ ps, p.terminal.Spellable
  gaps : ∀ p ∈ ps, IsGap p.gap
  apart : ∀ p ∈ ps.dropLast, p.gap ≠ []

/-- The tokens of pieces that stand at `offset`. -/
def place (offset : Nat) : List Piece → List Token
  | [] => []
  | p :: ps =>
    ⟨p.terminal.kind, p.terminal.text, offset, offset + byteLength p.terminal.spelling⟩ ::
      place (offset + byteLength p.chars) ps

variable {p : Piece} {ps qs : List Piece} {offset : Nat}

theorem place_append (offset : Nat) (ps qs : List Piece) :
    place offset (ps ++ qs) =
      place offset ps ++ place (offset + byteLength (ps.flatMap Piece.chars)) qs := by
  induction ps generalizing offset with
  | nil => rfl
  | cons p ps ih =>
    rw [List.cons_append, place, place, ih, List.flatMap_cons, byteLength_append, List.cons_append,
      Nat.add_assoc]

theorem length_place (offset : Nat) (ps : List Piece) : (place offset ps).length = ps.length := by
  induction ps generalizing offset with
  | nil => rfl
  | cons p ps ih => rw [place, List.length_cons, List.length_cons, ih]

theorem map_terminal_place (offset : Nat) (ps : List Piece) :
    (place offset ps).map terminal = ps.map Piece.terminal := by
  induction ps generalizing offset with
  | nil => rfl
  | cons p ps ih =>
    rw [place, List.map_cons, List.map_cons, ih]
    rfl

theorem LaidOut.tail (h : LaidOut (p :: ps)) : LaidOut ps where
  spellable := (List.forall_mem_cons.mp h.spellable).2
  gaps := (List.forall_mem_cons.mp h.gaps).2
  apart q hq := by
    cases ps with
    | nil => cases hq
    | cons p' ps => exact h.apart q (List.mem_cons_of_mem p hq)

/-- What is written behind the first terminal separates it from the others. -/
theorem LaidOut.separates (h : LaidOut (p :: ps)) :
    Separates (p.gap ++ ps.flatMap Piece.chars) := by
  have hgap : IsGap p.gap := h.gaps p List.mem_cons_self
  cases ps with
  | cons q ps => exact hgap.separates (h.apart p List.mem_cons_self)
  | nil =>
    by_cases hnil : p.gap = []
    · rw [hnil]
      exact nofun
    · exact hgap.separates hnil

/-- Pieces are split into their terminals and gaps. -/
theorem LaidOut.splits (h : LaidOut ps) (offset : Nat) :
    Splits offset (ps.flatMap Piece.chars) (place offset ps) := by
  induction ps generalizing offset with
  | nil => exact .nil
  | cons p ps ih =>
    have hrest := ih h.tail (offset + byteLength p.terminal.spelling + byteLength p.gap)
    have hlayout := (h.gaps p List.mem_cons_self).isLayout (ps.flatMap Piece.chars)
    have hends := ends_spelling (h.spellable p List.mem_cons_self) h.separates
    rw [List.flatMap_cons, Piece.chars, List.append_assoc, place, Piece.chars, byteLength_append,
      ← Nat.add_assoc]
    exact .token hends (hlayout.splits hrest)

/-- A text in which terminals are written with a gap before them all, gaps between them and a gap, if
any, behind the last one has these terminals as its tokens and no others but the end of input. Each
token stands in the bytes where its terminal was written. -/
theorem ofText_laidOut {lead : List Char} (hlead : IsGap lead) (h : LaidOut ps) :
    let text := String.ofList (lead ++ ps.flatMap Piece.chars)
    ∃ ts, ofText text = .ok (ts ++ [atEnd text.utf8ByteSize]) ∧
      ts.map terminal = ps.map Piece.terminal ∧
      ∀ before p after, ps = before ++ p :: after → ∃ t, ts[before.length]? = some t ∧
        Cut text.toList t.start t.stop p.terminal.spelling (p.gap ++ after.flatMap Piece.chars) ∧
        t.start = byteLength (lead ++ before.flatMap Piece.chars) := by
  intro text
  have htext : text.toList = lead ++ ps.flatMap Piece.chars := String.toList_ofList
  refine ⟨place (byteLength lead) ps, ?_, map_terminal_place _ ps, ?_⟩
  · have hsplits : Splits 0 text.toList (place (byteLength lead) ps) := by
      rw [htext]
      refine (hlead.isLayout _).splits ?_
      rw [Nat.zero_add]
      exact h.splits _
    rw [ofText, hsplits.scan, Nat.zero_add, byteLength_toList]
  · rintro before p after rfl
    have hplace := place_append (byteLength lead) before (p :: after)
    rw [← byteLength_append] at hplace
    let start := byteLength (lead ++ before.flatMap Piece.chars)
    let token : Token :=
      ⟨p.terminal.kind, p.terminal.text, start, start + byteLength p.terminal.spelling⟩
    refine ⟨token, ?_, ⟨lead ++ before.flatMap Piece.chars, ?_, rfl, rfl⟩, rfl⟩
    · rw [hplace, List.getElem?_append_right (length_place _ before).le, length_place,
        Nat.sub_self]
      rfl
    · rw [htext, List.flatMap_append, List.flatMap_cons, Piece.chars]
      simp only [List.append_assoc]

/-- A name and a string with a comment behind each of them. -/
def remarks : List Piece :=
  [⟨.word "x", ['\t', '#', ' ', '"', 'é', '\n']⟩, ⟨⟨.string, some "a\"\\"⟩, ['#', '\n']⟩]

/-- Comments that hold a keyword, a quote and a wide character, and one that holds nothing. -/
theorem ofText_remarks :
    IsGap ['#', 'v', 'a', 'r', '\n'] ∧ LaidOut remarks ∧
      ∃ t u, ofText "#var\nx\t# \"é\n\"a\\\"\\\\\"#\n" = .ok [t, u, atEnd 22] ∧
        t.terminal = .word "x" ∧ t.start = 5 ∧ u.terminal = ⟨.string, some "a\"\\"⟩ ∧ u.start = 13 := by
  have hcomment (body : List Char) (hbody : ∀ c ∈ body, c ≠ '\n') :
      IsGap ('#' :: body ++ ['\n']) := .comment hbody .nil
  have hlead : IsGap ['#', 'v', 'a', 'r', '\n'] := hcomment ['v', 'a', 'r'] (by simp)
  have hfirst : IsGap ['\t', '#', ' ', '"', 'é', '\n'] :=
    .blank rfl (hcomment [' ', '"', 'é'] (by simp))
  have hlast : IsGap ['#', '\n'] := hcomment [] nofun
  have hx : IsIdentifier "x" := ⟨⟨'x', [], rfl, rfl, nofun⟩, by decide⟩
  have hremarks : LaidOut remarks := by
    refine ⟨?_, ?_, ?_⟩
    · exact List.forall_mem_cons.mpr ⟨⟨"x", rfl, hx⟩, List.forall_mem_singleton.mpr ⟨_, rfl⟩⟩
    · exact List.forall_mem_cons.mpr ⟨hfirst, List.forall_mem_singleton.mpr hlast⟩
    · exact List.forall_mem_singleton.mpr (List.cons_ne_nil _ _)
  have htext : String.ofList (['#', 'v', 'a', 'r', '\n'] ++ remarks.flatMap Piece.chars) =
      "#var\nx\t# \"é\n\"a\\\"\\\\\"#\n" := by decide +kernel
  obtain ⟨ts, hscan, hterminals, hplaces⟩ := ofText_laidOut hlead hremarks
  obtain ⟨t, ht, -, hstart⟩ := hplaces [] _ _ rfl
  obtain ⟨u, hu, -, hstart'⟩ := hplaces [_] _ _ rfl
  obtain ⟨t', u', rfl⟩ : ∃ t' u', ts = [t', u'] :=
    List.length_eq_two.mp ((List.length_map _).symm.trans (congrArg List.length hterminals))
  obtain rfl : t' = t := Option.some.inj ht
  obtain rfl : u' = u := Option.some.inj hu
  obtain ⟨hx, hs⟩ : t'.terminal = .word "x" ∧ u'.terminal = ⟨.string, some "a\"\\"⟩ := by
    simpa [remarks] using hterminals
  rw [htext] at hscan
  exact ⟨hlead, hremarks, t', u', hscan, hx, hstart, hs, hstart'.trans (by decide +kernel)⟩

end Scriptlet.Token
