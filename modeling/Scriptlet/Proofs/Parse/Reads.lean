-- SUMMARY: What a parser has read between two cursors, as terminals, and what may still be read.
import Scriptlet.Parse.Cursor
import Scriptlet.Proofs.Grammar.Follow
import Scriptlet.Proofs.Token.Scan

/-!
# What a parser reads

Between two cursors stand the terminals that were read. They are what the
grammar speaks of: the places of tokens and the height of the last tree do not
matter to it.
-/
namespace Scriptlet

/-- The fault is that something else was expected. -/
def ParseError.IsUnexpected : ParseError → Prop
  | .unexpectedToken .. | .unexpectedEnd .. => True
  | _ => False

/-- A terminal that may stand in a program. -/
structure Terminal.Readable (t : Terminal) : Prop where
  proper : t.kind ≠ .endOfInput
  inRange : t.InRange

theorem Terminal.readable_of_kind {t : Terminal} (hend : t.kind ≠ .endOfInput)
    (hint : t.kind ≠ .integer) : t.Readable :=
  ⟨hend, fun h => absurd h hint⟩

theorem Terminal.readable_mark {kind : Token.Kind} (hm : kind.isMark) :
    (Terminal.mark kind).Readable := by
  apply Terminal.readable_of_kind
  all_goals
    rintro rfl
    exact absurd hm (by decide)

namespace Cursor

/-- The terminals that are left. -/
def terminals (c : Cursor) : List Terminal := c.rest.map Token.terminal

/-- The second cursor stands behind the terminals `read` that the first stands before. -/
structure Reads (c : Cursor) (read : List Terminal) (c' : Cursor) : Prop where
  terminals : c.terminals = read ++ c'.terminals
  final : c'.final = c.final
  depth : c'.depth = c.depth
  readable : ∀ t ∈ read, t.Readable

variable {c c₁ c' : Cursor} {t : Terminal} {ts read read' more : List Terminal}

/-! ## The token at the cursor -/

theorem terminal_current (h : c.terminals = t :: ts) : c.current.terminal = t := by
  unfold terminals at h
  unfold current
  cases hr : c.rest with
  | nil => simp [hr] at h
  | cons token rest =>
    rw [hr, List.map_cons, List.cons.injEq] at h
    exact h.1

theorem kind_current (h : c.terminals = t :: ts) : c.current.kind = t.kind :=
  congrArg Terminal.kind (terminal_current h)

theorem text_current (h : c.terminals = t :: ts) : c.current.text = t.text :=
  congrArg Terminal.text (terminal_current h)

theorem terminals_advance (h : c.terminals = t :: ts) : c.advance.terminals = ts := by
  have htail := congrArg List.tail h
  rw [terminals, ← List.map_tail, List.tail_cons] at htail
  exact htail

theorem next_eq (c : Cursor) : c.next = c.advance.current := rfl

/-- These are all terminals from the cursor on. -/
structure Faces (c : Cursor) (ts : List Terminal) : Prop where
  terminals : c.terminals = ts
  final : c.final.kind = .endOfInput

namespace Faces

theorem kind_current (h : c.Faces ts) : c.current.kind = Grammar.firstKind ts := by
  have hterminals := h.terminals
  cases ts with
  | nil =>
    rw [Cursor.current, List.map_eq_nil_iff.mp hterminals]
    exact h.final
  | cons t ts => exact Cursor.kind_current hterminals

theorem advance (h : c.Faces (t :: ts)) : c.advance.Faces ts :=
  ⟨terminals_advance h.terminals, h.final⟩

theorem kind_next (h : c.Faces (t :: ts)) : c.next.kind = Grammar.firstKind ts :=
  h.advance.kind_current

theorem length (h : c.Faces ts) : c.rest.length = ts.length := by
  rw [← h.terminals, Cursor.terminals, List.length_map]

end Faces

theorem reads_advance (h : c.terminals = t :: ts) (ht : t.Readable) :
    c.Reads [t] c.advance where
  terminals := by rw [terminals_advance h, h]; rfl
  final := rfl
  depth := rfl
  readable := by simpa using ht

/-! ## Reading on -/

namespace Reads

theorem refl (c : Cursor) : c.Reads [] c where
  terminals := rfl
  final := rfl
  depth := rfl
  readable := by simp

theorem trans (h : c.Reads read c₁) (h' : c₁.Reads read' c') : c.Reads (read ++ read') c' where
  terminals := by rw [h.terminals, h'.terminals, List.append_assoc]
  final := h'.final.trans h.final
  depth := h'.depth.trans h.depth
  readable := List.forall_mem_append.mpr ⟨h.readable, h'.readable⟩

/-- Reading on behind one terminal. -/
theorem cons (h : c.Reads [t] c₁) (h' : c₁.Reads read c') : c.Reads (t :: read) c' :=
  h.trans h'

/-- The height of the last tree does not matter. -/
theorem withHeight (h : c.Reads read c') (height : Nat) :
    c.Reads read { c' with height := height } :=
  ⟨h.terminals, h.final, h.depth, h.readable⟩

/-- What is read with one more primary expression open is read. -/
theorem nested (h : Reads { c with depth := c.depth + 1 } read c') :
    c.Reads read { c' with depth := c'.depth - 1 } where
  terminals := h.terminals
  final := h.final
  depth := by
    have := h.depth
    simp only at this ⊢
    omega
  readable := h.readable

theorem left (h : c.Reads read c') (hc : c.terminals = read ++ more) : c'.terminals = more :=
  List.append_cancel_left (h.terminals.symm.trans hc)

theorem length (h : c.Reads read c') : c.rest.length = read.length + c'.rest.length := by
  simpa [Cursor.terminals] using congrArg List.length h.terminals

/-- A loop whose rounds each read a terminal does not run out of rounds. -/
theorem rounds_lt {rounds : Nat} (h : c.Reads read c') (hread : read ≠ [])
    (hc : c.rest.length < rounds + 1) : c'.rest.length < rounds := by
  have hlength := h.length
  have hpos := List.length_pos_iff.mpr hread
  omega

end Reads

/-! ## Cursors in texts -/

/-- All tokens from the cursor on were read from a text. -/
structure Lexed (c : Cursor) : Prop where
  final : c.final.kind = .endOfInput
  lexed : ∀ t ∈ c.terminals, t.Lexed

theorem Lexed.of_reads (hc : c.Lexed) (h : c.Reads read c') : c'.Lexed where
  final := by rw [h.final, hc.final]
  lexed t ht := hc.lexed t (by rw [h.terminals]; exact List.mem_append_right _ ht)

/-- A cursor at another token than the end of input is not at the end of its list. -/
theorem Lexed.terminals_eq (hc : c.Lexed) (hk : c.current.kind ≠ .endOfInput) :
    c.terminals = c.current.terminal :: c.advance.terminals := by
  unfold terminals advance current
  cases hr : c.rest with
  | nil => exact absurd (by simp [current, hr, hc.final]) hk
  | cons token rest => rfl

theorem Lexed.current (hc : c.Lexed) (hk : c.current.kind ≠ .endOfInput) :
    c.current.terminal.Lexed :=
  hc.lexed _ (by rw [hc.terminals_eq hk]; exact List.mem_cons_self)

theorem Lexed.reads_mark {kind : Token.Kind} (hc : c.Lexed) (hk : c.current.kind = kind)
    (hm : kind.isMark) : c.Reads [.mark kind] c.advance := by
  subst hk
  have hend : c.current.kind ≠ .endOfInput := by
    intro h
    rw [h] at hm
    exact absurd hm (by decide)
  have hcurrent : c.current.terminal = .mark c.current.kind := (hc.current hend).eq_mark hm
  exact reads_advance (hcurrent ▸ hc.terminals_eq hend) (Terminal.readable_mark hm)

theorem Lexed.reads_word {x : String} (hc : c.Lexed) (hk : c.current.kind = .identifier)
    (ht : c.current.text = some x) : c.Reads [.word x] c.advance := by
  have hcurrent : c.current.terminal = .word x := by rw [Token.terminal, hk, ht]
  have hterminals := hc.terminals_eq (by simp [hk])
  rw [hcurrent] at hterminals
  exact reads_advance hterminals (Terminal.readable_of_kind (by simp) (by simp))

end Cursor

end Scriptlet
