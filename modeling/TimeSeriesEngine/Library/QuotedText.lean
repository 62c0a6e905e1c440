import Mathlib.Data.List.Basic

/-!
# Text with quoted literals

Statements of a language in which a literal stands between quotes, an escape symbol
makes the next symbol of a literal ordinary, and a name stands between marks of its
own.  The symbols are arbitrary; they are bytes for one program and characters for
another.

* `readLiteral_quoted` — a literal that was escaped symbol by symbol reads back, and
  the reader stops right behind it, whatever follows;
* `scan` — a whole statement, symbol by symbol, into the symbols read as language,
  the names and the literals;
* `Reads` — a text that leaves the scanner where it found it.  Texts that read well
  are put together with `Reads.append` and `Reads.flatMap`;
* `scan_pieces_mono` — a statement that is cut short reads as a part of what the
  whole one reads as.
-/

namespace QuotedText

variable {α : Type} [DecidableEq α]

/-- The symbols with a meaning of their own. -/
structure Dialect (α : Type) where
  quote : α
  escape : α
  nameMark : α
  quote_ne_escape : quote ≠ escape
  nameMark_ne_quote : nameMark ≠ quote

/-! ## One literal -/

/-- A symbol inside a literal. -/
def escapeSymbol (d : Dialect α) (symbol : α) : List α :=
  if symbol = d.escape ∨ symbol = d.quote then [d.escape, symbol] else [symbol]

/-- A literal with this content. -/
def quoted (d : Dialect α) (content : List α) : List α :=
  d.quote :: content.flatMap (escapeSymbol d) ++ [d.quote]

/-- The rest of a literal, behind an escape symbol or not: its content, and what
    follows the closing quote. -/
def readBody (d : Dialect α) : Bool → List α → Option (List α × List α)
  | _, [] => none
  | true, symbol :: rest =>
      (readBody d false rest).map fun read => (symbol :: read.1, read.2)
  | false, symbol :: rest =>
      if symbol = d.escape then readBody d true rest
      else if symbol = d.quote then some ([], rest)
      else (readBody d false rest).map fun read => (symbol :: read.1, read.2)

/-- A literal and what follows it. -/
def readLiteral (d : Dialect α) : List α → Option (List α × List α)
  | [] => none
  | symbol :: rest => if symbol = d.quote then readBody d false rest else none

/-- An escaped text is read back up to its closing quote. -/
theorem readBody_escaped (d : Dialect α) (content rest : List α) :
    readBody d false (content.flatMap (escapeSymbol d) ++ d.quote :: rest) =
      some (content, rest) := by
  induction content with
  | nil =>
      rw [List.flatMap_nil, List.nil_append, readBody, if_neg d.quote_ne_escape, if_pos rfl]
  | cons symbol content ih =>
      rw [List.flatMap_cons, List.append_assoc, escapeSymbol]
      by_cases hspecial : symbol = d.escape ∨ symbol = d.quote
      · rw [if_pos hspecial, List.cons_append, List.singleton_append, readBody, if_pos rfl,
          readBody, ih, Option.map_some]
      · obtain ⟨hescape, hquote⟩ := not_or.mp hspecial
        rw [if_neg hspecial, List.singleton_append, readBody, if_neg hescape, if_neg hquote, ih,
          Option.map_some]

/-- An escaped literal reads back and ends where it should, whatever follows. -/
theorem readLiteral_quoted (d : Dialect α) (content rest : List α) :
    readLiteral d (quoted d content ++ rest) = some (content, rest) := by
  have htext : quoted d content ++ rest =
      d.quote :: (content.flatMap (escapeSymbol d) ++ d.quote :: rest) := by
    simp [quoted]
  rw [htext, readLiteral, if_pos rfl, readBody_escaped]

/-! ## Whole statements -/

/-- What a part of a statement is read as. -/
inductive Piece (α : Type) where
  | code (symbol : α)
  | name (content : List α)
  | literal (content : List α)
  deriving DecidableEq

/-- Where the scanner is, with what it has read of a name or a literal. -/
inductive Mode (α : Type) where
  | code
  | name (read : List α)
  | literal (read : List α)
  | escaped (read : List α)
  deriving DecidableEq

/-- The scanner reads one symbol. -/
def scanStep (d : Dialect α) : Mode α × List (Piece α) → α → Mode α × List (Piece α)
  | (.code, pieces), symbol =>
      if symbol = d.quote then (.literal [], pieces)
      else if symbol = d.nameMark then (.name [], pieces)
      else (.code, pieces ++ [.code symbol])
  | (.name read, pieces), symbol =>
      if symbol = d.nameMark then (.code, pieces ++ [.name read])
      else (.name (read ++ [symbol]), pieces)
  | (.literal read, pieces), symbol =>
      if symbol = d.escape then (.escaped read, pieces)
      else if symbol = d.quote then (.code, pieces ++ [.literal read])
      else (.literal (read ++ [symbol]), pieces)
  | (.escaped read, pieces), symbol => (.literal (read ++ [symbol]), pieces)

/-- The pieces of a text, and where its end lies. -/
def scan (d : Dialect α) (text : List α) : Mode α × List (Piece α) :=
  text.foldl (scanStep d) (.code, [])

/-- The contents of the literals, in order. -/
def literals (pieces : List (Piece α)) : List (List α) :=
  pieces.filterMap fun
    | .literal content => some content
    | _ => none

omit [DecidableEq α] in
theorem literals_append (xs ys : List (Piece α)) :
    literals (xs ++ ys) = literals xs ++ literals ys :=
  List.filterMap_append

omit [DecidableEq α] in
theorem literals_code (text : List α) : literals (text.map .code) = [] := by
  rw [literals, List.filterMap_map]
  exact List.filterMap_eq_nil_iff.mpr fun _ _ => rfl

/-- The scanner reads a literal as `readBody` does. -/
theorem scan_readBody (d : Dialect α) {text content rest : List α} {escaped : Bool}
    (h : readBody d escaped text = some (content, rest)) (read : List α)
    (pieces : List (Piece α)) :
    text.foldl (scanStep d) (if escaped then .escaped read else .literal read, pieces) =
      rest.foldl (scanStep d) (.code, pieces ++ [.literal (read ++ content)]) := by
  induction text generalizing content read escaped with
  | nil => cases escaped <;> exact nomatch h
  | cons symbol text ih =>
      have hordinary : ∀ {content}, (readBody d false text).map
          (fun read => (symbol :: read.1, read.2)) = some (content, rest) →
            text.foldl (scanStep d) (.literal (read ++ [symbol]), pieces) =
              rest.foldl (scanStep d) (.code, pieces ++ [.literal (read ++ content)]) := by
        intro content hmap
        obtain ⟨⟨tail, after⟩, htail, heq⟩ := Option.map_eq_some_iff.mp hmap
        obtain ⟨rfl, rfl⟩ := Prod.mk.inj heq
        have htext := ih htail (read ++ [symbol])
        rwa [if_neg Bool.false_ne_true, List.append_assoc, List.singleton_append] at htext
      cases escaped with
      | true => exact hordinary h
      | false =>
          rw [if_neg Bool.false_ne_true, List.foldl_cons, scanStep]
          rw [readBody] at h
          by_cases hescape : symbol = d.escape
          · rw [if_pos hescape] at h ⊢
            exact ih h read
          · rw [if_neg hescape] at h ⊢
            by_cases hquote : symbol = d.quote
            · rw [if_pos hquote] at h ⊢
              obtain ⟨rfl, rfl⟩ := Prod.mk.inj (Option.some.inj h)
              rw [List.append_nil]
            · rw [if_neg hquote] at h ⊢
              exact hordinary h

/-- The scanner reads a literal as `readLiteral` does. -/
theorem scan_readLiteral (d : Dialect α) {text content rest : List α}
    (h : readLiteral d text = some (content, rest)) (pieces : List (Piece α)) :
    text.foldl (scanStep d) (.code, pieces) =
      rest.foldl (scanStep d) (.code, pieces ++ [.literal content]) := by
  cases text with
  | nil => exact nomatch h
  | cons symbol text =>
      rw [readLiteral] at h
      by_cases hquote : symbol = d.quote
      · rw [if_pos hquote] at h
        rw [List.foldl_cons, scanStep, if_pos hquote]
        exact scan_readBody d h [] pieces
      · rw [if_neg hquote] at h
        exact nomatch h

/-! ## Texts that read well -/

/-- Between two parts of a statement the text reads as these pieces. -/
def Reads (d : Dialect α) (text : List α) (pieces : List (Piece α)) : Prop :=
  ∀ before, text.foldl (scanStep d) (.code, before) = (.code, before ++ pieces)

theorem Reads.scan {d : Dialect α} {text : List α} {pieces : List (Piece α)}
    (h : Reads d text pieces) : scan d text = (.code, pieces) :=
  h []

theorem reads_nil (d : Dialect α) : Reads d ([] : List α) [] := fun before => by
  rw [List.foldl_nil, List.append_nil]

theorem Reads.append {d : Dialect α} {text text' : List α} {pieces pieces' : List (Piece α)}
    (h : Reads d text pieces) (h' : Reads d text' pieces') :
    Reads d (text ++ text') (pieces ++ pieces') := fun before => by
  rw [List.foldl_append, h, h', List.append_assoc]

/-- Texts one after the other. -/
theorem Reads.flatMap {ι : Type} {d : Dialect α} {text : ι → List α}
    {pieces : ι → List (Piece α)} {items : List ι} (h : ∀ i ∈ items, Reads d (text i) (pieces i)) :
    Reads d (items.flatMap text) (items.flatMap pieces) := by
  induction items with
  | nil => exact reads_nil d
  | cons i items ih =>
      exact (h i List.mem_cons_self).append (ih fun j hj => h j (List.mem_cons_of_mem _ hj))

/-- A symbol that opens nothing. -/
def Ordinary (d : Dialect α) (symbol : α) : Prop := symbol ≠ d.quote ∧ symbol ≠ d.nameMark

instance (d : Dialect α) (symbol : α) : Decidable (Ordinary d symbol) :=
  inferInstanceAs (Decidable (_ ∧ _))

/-- Ordinary symbols are code. -/
theorem reads_code {d : Dialect α} {text : List α} (h : ∀ symbol ∈ text, Ordinary d symbol) :
    Reads d text (text.map .code) := by
  intro before
  induction text generalizing before with
  | nil => rw [List.foldl_nil, List.map_nil, List.append_nil]
  | cons symbol text ih =>
      obtain ⟨hquote, hmark⟩ := h symbol List.mem_cons_self
      rw [List.foldl_cons, scanStep, if_neg hquote, if_neg hmark,
        ih fun other hother => h other (List.mem_cons_of_mem _ hother), List.append_assoc]
      rfl

/-- A name between its marks. -/
theorem reads_name {d : Dialect α} {content : List α} (h : d.nameMark ∉ content) :
    Reads d (d.nameMark :: content ++ [d.nameMark]) [.name content] := by
  have hbody : ∀ (text read : List α) (before : List (Piece α)), d.nameMark ∉ text →
      text.foldl (scanStep d) (.name read, before) = (.name (read ++ text), before) := by
    intro text
    induction text with
    | nil => exact fun read before _ => by rw [List.foldl_nil, List.append_nil]
    | cons symbol text ih =>
        intro read before hmem
        obtain ⟨hne, htext⟩ := not_or.mp fun hor => hmem (List.mem_cons.mpr hor)
        rw [List.foldl_cons, scanStep, if_neg (Ne.symm hne), ih _ _ htext, List.append_assoc,
          List.singleton_append]
  intro before
  rw [List.cons_append, List.foldl_cons, scanStep, if_neg d.nameMark_ne_quote, if_pos rfl,
    List.foldl_append, hbody content [] before h, List.nil_append, List.foldl_cons, List.foldl_nil,
    scanStep, if_pos rfl]

theorem reads_quoted (d : Dialect α) (content : List α) :
    Reads d (quoted d content) [.literal content] := fun before => by
  have hread := readLiteral_quoted d content []
  rw [List.append_nil] at hread
  exact scan_readLiteral d hread before

/-! ## A statement that is cut short -/

/-- A step of the scan appends. -/
theorem scanStep_extends (d : Dialect α) (state : Mode α × List (Piece α)) (symbol : α) :
    state.2 <+: (scanStep d state symbol).2 := by
  obtain ⟨mode, pieces⟩ := state
  cases mode with
  | code =>
      rw [scanStep]
      split
      · exact List.prefix_rfl
      · split
        · exact List.prefix_rfl
        · exact List.prefix_append _ _
  | name read =>
      rw [scanStep]
      split
      · exact List.prefix_append _ _
      · exact List.prefix_rfl
  | literal read =>
      rw [scanStep]
      split
      · exact List.prefix_rfl
      · split
        · exact List.prefix_append _ _
        · exact List.prefix_rfl
  | escaped read => exact List.prefix_rfl

theorem scan_extends (d : Dialect α) (text : List α) (state : Mode α × List (Piece α)) :
    state.2 <+: (text.foldl (scanStep d) state).2 := by
  induction text generalizing state with
  | nil => exact List.prefix_rfl
  | cons symbol text ih => exact (scanStep_extends d state symbol).trans (ih _)

/-- The first part of a statement reads as a first part of what the statement reads as. -/
theorem scan_pieces_mono (d : Dialect α) {text text' : List α} (h : text <+: text') :
    (scan d text).2 <+: (scan d text').2 := by
  obtain ⟨rest, rfl⟩ := h
  rw [scan, scan, List.foldl_append]
  exact scan_extends d rest _

end QuotedText
