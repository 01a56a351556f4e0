-- SUMMARY: The tokens of a text are its one tiling by longest matches.
import Mathlib.Data.String.Basic
import Scriptlet.Proofs.Token.Scan

/-!
# Tilings

Tokens tile a text if each of them is the longest match where it stands, and nothing
but blanks and comments stands between them. The places of tokens are counted in
bytes and patterns match characters, so a place is read as what it cuts out of the text.
-/
namespace Scriptlet

/-! ## Bytes -/

namespace Text

theorem byteLength_toList (s : String) : byteLength s.toList = s.utf8ByteSize := by
  rw [← String.utf8Len_toList]
  induction s.toList with
  | nil => rfl
  | cons c cs ih => rw [byteLength_cons, ih, String.utf8Len_cons, Nat.add_comm]

theorem eq_nil_of_byteLength {cs : List Char} (h : byteLength cs = 0) : cs = [] := by
  cases cs with
  | nil => rfl
  | cons c cs =>
    have hpos := c.utf8Size_pos
    rw [byteLength_cons] at h
    omega

theorem byteLength_pos {cs : List Char} (h : cs ≠ []) : 0 < byteLength cs :=
  Nat.pos_of_ne_zero fun hzero => h (eq_nil_of_byteLength hzero)

/-- A text is cut in one way where so many bytes end. -/
theorem append_inj_of_byteLength {cs cs' ds ds' : List Char} (h : cs ++ ds = cs' ++ ds')
    (hbytes : byteLength cs = byteLength cs') : cs = cs' ∧ ds = ds' := by
  obtain ⟨more, rfl, rfl⟩ | ⟨more, rfl, rfl⟩ := List.append_eq_append_iff.mp h
  all_goals
    obtain rfl : more = [] := eq_nil_of_byteLength (by rw [byteLength_append] at hbytes; omega)
    simp

end Text

namespace Token

open Text

/-! ## Tilings -/

/-- Blanks and comments stand before `rest`, or nothing. -/
inductive IsLayout (rest : List Char) : List Char → Prop
  | nil : IsLayout rest []
  | skip {part gap : List Char} (hpart : Skips (gap ++ rest) part) :
      IsLayout rest gap → IsLayout rest (part ++ gap)

/-- In the bytes of the text from `start` up to `stop` stands `part`, and `rest` stands behind it. -/
def Cut (cs : List Char) (start stop : Nat) (part rest : List Char) : Prop :=
  ∃ before, cs = before ++ (part ++ rest) ∧ start = byteLength before ∧
    stop = byteLength before + byteLength part

/-- The stretches of bytes before, between and behind the tokens. -/
def gaps (start : Nat) : List Token → Nat → List (Nat × Nat)
  | [], stop => [(start, stop)]
  | t :: ts, stop => (start, t.start) :: gaps t.stop ts stop

/-- The tokens are the text from `start` on, cut where the longest matches end. -/
structure Tiling (cs : List Char) (start : Nat) (ts : List Token) : Prop where
  notEnd : ∀ t ∈ ts, t.kind ≠ .endOfInput
  inBounds : ∀ t ∈ ts, start ≤ t.start ∧ t.start < t.stop ∧ t.stop ≤ byteLength cs
  ordered : ts.Pairwise fun t u => t.stop ≤ u.start
  layout : ∀ gap ∈ gaps start ts (byteLength cs), ∃ part rest,
    Cut cs gap.1 gap.2 part rest ∧ IsLayout rest part
  munches : ∀ t ∈ ts, ∃ lexeme rest,
    Cut cs t.start t.stop lexeme rest ∧ Munches t.kind t.text lexeme rest

variable {before cs part lexeme rest : List Char} {offset : Nat} {ts : List Token}

theorem cut_append_iff {after : List Char} {stop : Nat} :
    Cut (before ++ after) (byteLength before) stop part rest ↔
      after = part ++ rest ∧ stop = byteLength before + byteLength part := by
  constructor
  · rintro ⟨before', heq, hstart, rfl⟩
    obtain ⟨rfl, rfl⟩ := append_inj_of_byteLength heq hstart
    exact ⟨rfl, rfl⟩
  · rintro ⟨rfl, rfl⟩
    exact ⟨before, rfl, rfl, rfl⟩

theorem gaps_eq_cons (ts : List Token) (last : Nat) :
    ∃ stop others, ∀ start, gaps start ts last = (start, stop) :: others := by
  cases ts with
  | nil => exact ⟨last, [], fun _ => rfl⟩
  | cons t ts => exact ⟨t.start, gaps t.stop ts last, fun _ => rfl⟩

/-! ## From splits to tilings -/

theorem Tiling.nil (cs : List Char) : Tiling cs (byteLength cs) [] where
  notEnd := nofun
  inBounds := nofun
  ordered := .nil
  layout gap hgap := by
    obtain rfl := List.mem_singleton.mp hgap
    exact ⟨[], [], ⟨cs, by simp, rfl, rfl⟩, .nil⟩
  munches := nofun

/-- A blank or comment widens the first gap. -/
theorem Tiling.skip (hpart : Skips rest part)
    (h : Tiling (before ++ part ++ rest) (byteLength (before ++ part)) ts) :
    Tiling (before ++ part ++ rest) (byteLength before) ts where
  notEnd := h.notEnd
  inBounds t ht := by
    obtain ⟨hstart, hbounds⟩ := h.inBounds t ht
    rw [byteLength_append] at hstart
    exact ⟨by omega, hbounds⟩
  ordered := h.ordered
  layout := by
    obtain ⟨stop, others, hgaps⟩ := gaps_eq_cons ts (byteLength (before ++ part ++ rest))
    have hlayout := h.layout
    rw [hgaps, List.forall_mem_cons] at hlayout ⊢
    obtain ⟨⟨gap, tail, hcut, hgap⟩, hothers⟩ := hlayout
    obtain ⟨rfl, hstop⟩ := cut_append_iff.mp hcut
    refine ⟨⟨part ++ gap, tail, ?_, .skip hpart hgap⟩, hothers⟩
    rw [List.append_assoc, cut_append_iff]
    refine ⟨by simp, ?_⟩
    rw [hstop, byteLength_append, byteLength_append, Nat.add_assoc]
  munches := h.munches

/-- A token, without a gap before it. -/
theorem Tiling.token {kind : Kind} {text : Option String} (hlexeme : Munches kind text lexeme rest)
    (h : Tiling (before ++ lexeme ++ rest) (byteLength (before ++ lexeme)) ts) :
    Tiling (before ++ lexeme ++ rest) (byteLength before)
      (⟨kind, text, byteLength before, byteLength (before ++ lexeme)⟩ :: ts) where
  notEnd := List.forall_mem_cons.mpr ⟨hlexeme.isMatch.ne_endOfInput, h.notEnd⟩
  inBounds := by
    have hpos := byteLength_pos hlexeme.isMatch.ne_nil
    refine List.forall_mem_cons.mpr ⟨?_, fun t ht => ?_⟩
    · simp only [byteLength_append]
      omega
    · obtain ⟨hstart, hbounds⟩ := h.inBounds t ht
      rw [byteLength_append] at hstart
      exact ⟨by omega, hbounds⟩
  ordered := List.pairwise_cons.mpr ⟨fun t ht => (h.inBounds t ht).1, h.ordered⟩
  layout := by
    rw [gaps, List.forall_mem_cons]
    refine ⟨⟨[], lexeme ++ rest, ?_, .nil⟩, h.layout⟩
    rw [List.append_assoc, cut_append_iff]
    exact ⟨rfl, rfl⟩
  munches := by
    refine List.forall_mem_cons.mpr ⟨⟨lexeme, rest, ?_, hlexeme⟩, h.munches⟩
    rw [List.append_assoc, cut_append_iff, byteLength_append]
    exact ⟨rfl, rfl⟩

theorem Splits.tiling (h : Splits offset cs ts) (hoffset : offset = byteLength before) :
    Tiling (before ++ cs) offset ts := by
  induction h generalizing before with
  | nil =>
    rw [List.append_nil, hoffset]
    exact .nil before
  | skip hpart _ ih =>
    subst hoffset
    rw [← byteLength_append] at ih
    have htiling := ih rfl
    rw [← List.append_assoc]
    exact htiling.skip hpart
  | token hlexeme _ ih =>
    subst hoffset
    rw [← byteLength_append] at ih ⊢
    rw [← List.append_assoc]
    exact (ih rfl).token (ends_iff_munches.mp hlexeme).1

/-! ## From tilings to splits -/

theorem IsLayout.splits {gap : List Char} (hgap : IsLayout rest gap)
    (h : Splits (offset + byteLength gap) rest ts) : Splits offset (gap ++ rest) ts := by
  induction hgap generalizing offset with
  | nil => exact h
  | skip hpart _ ih =>
    rw [byteLength_append, ← Nat.add_assoc] at h
    rw [List.append_assoc]
    exact .skip hpart (ih h)

/-- No text that is split into tokens begins with a point. -/
theorem Splits.head_ne_point (h : Splits offset cs ts) : cs.head? ≠ some '.' := by
  intro hpoint
  obtain ⟨tail, rfl⟩ := List.head?_eq_some_iff.mp hpoint
  obtain ⟨found, hfirst⟩ := exists_first_of_scan h.scan
  have hfault : Lexeme.first offset '.' tail = .error (.unexpectedCharacter '.' offset) := rfl
  rw [hfault] at hfirst
  cases hfirst

theorem Tiling.tail {start : Nat} {t : Token} (h : Tiling cs start (t :: ts)) :
    Tiling cs t.stop ts where
  notEnd := (List.forall_mem_cons.mp h.notEnd).2
  inBounds u hu :=
    ⟨(List.pairwise_cons.mp h.ordered).1 u hu, (h.inBounds u (List.mem_cons_of_mem t hu)).2⟩
  ordered := (List.pairwise_cons.mp h.ordered).2
  layout := (List.forall_mem_cons.mp h.layout).2
  munches := (List.forall_mem_cons.mp h.munches).2

theorem Tiling.splits (h : Tiling (before ++ cs) (byteLength before) ts) :
    Splits (byteLength before) cs ts := by
  induction ts generalizing before cs with
  | nil =>
    obtain ⟨part, rest, hcut, hpart⟩ := h.layout _ (List.mem_singleton.mpr rfl)
    obtain ⟨rfl, hstop⟩ := cut_append_iff.mp hcut
    obtain rfl : rest = [] := eq_nil_of_byteLength (by simp at hstop; omega)
    exact hpart.splits .nil
  | cons t ts ih =>
    obtain ⟨kind, text, start, stop⟩ := t
    obtain ⟨part, after, hcut, hpart⟩ := h.layout _ List.mem_cons_self
    obtain ⟨rfl, rfl⟩ := cut_append_iff.mp hcut
    obtain ⟨lexeme, rest, hcut, hlexeme⟩ := h.munches _ List.mem_cons_self
    rw [← byteLength_append, ← List.append_assoc, cut_append_iff] at hcut
    obtain ⟨rfl, rfl⟩ := hcut
    have htail : Tiling _ (byteLength (before ++ part) + byteLength lexeme) ts := h.tail
    rw [← byteLength_append, ← List.append_assoc, ← List.append_assoc] at htail
    have hrest := ih htail
    -- A longest match may be a float with a point behind it, but no such rest can be tiled.
    have hends := ends_iff_munches.mpr ⟨hlexeme, fun _ => hrest.head_ne_point⟩
    rw [byteLength_append] at hrest
    refine hpart.splits ?_
    rw [← byteLength_append]
    exact .token hends hrest

theorem splits_iff_tiling :
    Splits (byteLength before) cs ts ↔ Tiling (before ++ cs) (byteLength before) ts :=
  ⟨fun h => h.tiling rfl, Tiling.splits⟩

/-! ## What stands behind a token -/

/-- Each token of a text stands in it before characters that it cannot go on with. -/
theorem Splits.exists_cut (h : Splits offset cs ts) (before : List Char)
    (hoffset : offset = byteLength before) :
    ∀ t ∈ ts, ∃ lexeme rest,
      Cut (before ++ cs) t.start t.stop lexeme rest ∧ Ends t.kind t.text lexeme rest := by
  induction h generalizing before with
  | nil => nofun
  | skip _ _ ih =>
    subst hoffset
    rw [← byteLength_append] at ih
    rw [← List.append_assoc]
    exact ih _ rfl
  | token hlexeme _ ih =>
    subst hoffset
    rw [← byteLength_append] at ih
    refine List.forall_mem_cons.mpr ⟨⟨_, _, cut_append_iff.mpr ⟨rfl, rfl⟩, hlexeme⟩, ?_⟩
    rw [← List.append_assoc]
    exact ih _ rfl

/-- The tokens of a text are its one tiling by longest matches, and the end of input after them. A
mark or keyword is told by its spelling; behind a word stands no character of a word, and behind a
number neither a digit nor a point. -/
theorem ofText_eq_ok_iff_tiling (text : String) :
    (∀ us, ofText text = .ok us ↔
      ∃ ts, us = ts ++ [atEnd text.utf8ByteSize] ∧ Tiling text.toList 0 ts) ∧
    (∀ ts us, Tiling text.toList 0 ts → Tiling text.toList 0 us → ts = us) ∧
    ∀ ts, Tiling text.toList 0 ts → ∀ t ∈ ts, ∃ lexeme rest,
      Cut text.toList t.start t.stop lexeme rest ∧
      (∀ k : Kind, k.isMark → (t.kind = k ↔ lexeme = k.spelling.toList)) ∧
      ∀ c ∈ rest.head?, t.kind.goesOn c = false := by
  have hiff {ts : List Token} : Splits 0 text.toList ts ↔ Tiling text.toList 0 ts :=
    @splits_iff_tiling [] text.toList ts
  have hscan (us : List Token) : ofText text = .ok us ↔
      ∃ ts, us = ts ++ [atEnd text.utf8ByteSize] ∧ Splits 0 text.toList ts := by
    rw [ofText, scan_eq_ok_iff_splits, byteLength_toList, Nat.zero_add]
  refine ⟨fun us => ?_, fun ts us hts hus => ?_, fun ts hts t ht => ?_⟩
  · rw [hscan]
    exact exists_congr fun ts => and_congr_right fun _ => hiff
  · have heq := (hiff.mpr hts).scan.symm.trans (hiff.mpr hus).scan
    exact List.append_cancel_right (Except.ok.inj heq)
  · obtain ⟨lexeme, rest, hcut, hends⟩ := (hiff.mpr hts).exists_cut [] rfl t ht
    exact ⟨lexeme, rest, hcut, fun k hk => hends.kind_eq_iff hk, hends.stops⟩

end Token

end Scriptlet
