import RobotsTxt.Proofs.Document.Layout
import RobotsTxt.Proofs.Document.Relocation
import RobotsTxt.Proofs.Document.Runs

/-!
# Moving records

What is read from a text depends on where the text stands only in that all spans move along.

* `Span.shift`, `Token.shift`, `Line.shift`, `Record.shift`: everything moved by one distance.
* `Layout.line_add`, `Line.read?_add`: lines of a text that stands farther on.
* **`Record.readAll_add`**: records of a text that stands farther on.
-/

namespace RobotsTxt

/-! ## Distances -/

/-- A span moved by a distance. -/
def Span.shift (s : Span) (δ : Int) : Span := ⟨s.start + δ, s.stop + δ⟩

/-- A token moved by a distance. -/
def Token.shift (t : Token) (δ : Int) : Token := { t with span := t.span.shift δ }

/-- A line moved by a distance, with its tokens. -/
def Line.shift (l : Line) (δ : Int) : Line :=
  { kind := l.kind
    span := l.span.shift δ
    name? := l.name?.map (·.shift δ)
    delimiter? := l.delimiter?.map (·.shift δ)
    value? := l.value?.map (·.shift δ)
    comment? := l.comment?.map (·.shift δ) }

/-- **A record moved by a distance**, with its lines and its name. -/
def Record.shift (r : Record) (δ : Int) : Record :=
  { nameToken? := r.nameToken?.map (·.shift δ)
    lines := r.lines.map (·.shift δ)
    span := r.span.shift δ }

theorem Line.shift_eq_relocate (l : Line) (δ : Int) : l.shift δ = l.relocate (·.shift δ) := rfl

theorem Span.shift_shift (s : Span) (δ ε : Int) : (s.shift δ).shift ε = s.shift (δ + ε) := by
  simp [Span.shift, Int.add_assoc]

theorem Token.shift_shift (t : Token) (δ ε : Int) : (t.shift δ).shift ε = t.shift (δ + ε) := by
  simp [Token.shift, Span.shift_shift]

theorem Token.map_shift_shift (t? : Option Token) (δ ε : Int) :
    (t?.map (·.shift δ)).map (·.shift ε) = t?.map (·.shift (δ + ε)) := by
  cases t? <;> simp [Token.shift_shift]

theorem Line.shift_shift (l : Line) (δ ε : Int) : (l.shift δ).shift ε = l.shift (δ + ε) := by
  simp only [Line.shift, Span.shift_shift, Token.map_shift_shift]

theorem Record.shift_shift (r : Record) (δ ε : Int) : (r.shift δ).shift ε = r.shift (δ + ε) := by
  simp only [Record.shift, Span.shift_shift, Token.map_shift_shift, List.map_map,
    Function.comp_def, Line.shift_shift]

/-! ## Tokens and lines -/

theorem Token.at_add (kind : TokenKind) (start k : Nat) (value : Text) :
    Token.at kind (start + k) value = (Token.at kind start value).shift k := by
  simp [Token.at, Token.shift, Span.shift]
  omega

theorem Token.missingAt_add (kind : TokenKind) (pos k : Nat) :
    Token.missingAt kind (pos + k) = (Token.missingAt kind pos).shift k := by
  simp [Token.missingAt, Token.shift, Span.shift, Span.empty]

theorem Token.optional_add (kind : TokenKind) (start k : Nat) (value : Text) :
    Token.optional kind (start + k) value = (Token.optional kind start value).map (·.shift k) := by
  unfold Token.optional
  split <;> simp [Token.at_add]

theorem Token.required_add (start k : Nat) (name : Text) :
    Token.required (start + k) name = (Token.required start name).shift k := by
  unfold Token.required
  split <;> simp [Token.at_add, Token.missingAt_add]

theorem Line.ofTokens_shift (start k : Nat) (name delimiter : Token)
    (value? comment? : Option Token) :
    Line.ofTokens (start + k) (name.shift k) (delimiter.shift k) (value?.map (·.shift k))
      (comment?.map (·.shift k)) =
        (Line.ofTokens start name delimiter value? comment?).shift k := by
  have hstop : ∀ (ts : List Token) (stop : Int),
      (ts.map (·.shift k)).foldl (fun stop t => max stop t.span.stop) (stop + k) =
        ts.foldl (fun stop t => max stop t.span.stop) stop + k := by
    intro ts
    induction ts with
    | nil => exact fun _ => rfl
    | cons t ts ih =>
      intro stop
      have hmax : max (stop + k) (t.shift k).span.stop = max stop t.span.stop + k := by
        simp only [Token.shift, Span.shift]
        omega
      rw [List.map_cons, List.foldl_cons, List.foldl_cons, ← ih, hmax]
  have hrest : [value?.map (·.shift k), comment?.map (·.shift k)].reduceOption =
      [value?, comment?].reduceOption.map (·.shift k) := by
    cases value? <;> cases comment? <;> rfl
  simp only [Line.ofTokens, hrest, Line.shift]
  exact congrArg (fun stop => Line.mk _ ⟨start + k, stop⟩ _ _ _ _)
    (hstop (delimiter :: [value?, comment?].reduceOption) name.span.stop)

theorem Head.line_add (start k : Nat) (comment? : Option Token) (h : Head) :
    h.line (start + k) (comment?.map (·.shift k)) = (h.line start comment?).shift k := by
  cases h with
  | bare name =>
    have hp : start + k + name.length = start + name.length + k := by omega
    simp only [Head.line, hp, Token.at_add, Token.missingAt_add, ← Line.ofTokens_shift,
      Option.map_some]
  | pair name gap₁ gap₂ value =>
    have hp : start + k + (name ++ gap₁).length = start + (name ++ gap₁).length + k := by omega
    have hq : start + (name ++ gap₁).length + k + 1 + gap₂.length =
        start + (name ++ gap₁).length + 1 + gap₂.length + k := by omega
    simp only [Head.line, hp, hq, Token.at_add, Token.required_add, Token.optional_add,
      ← Line.ofTokens_shift]

theorem Layout.line_add (start k : Nat) (l : Layout) :
    l.line (start + k) = (l.line start).shift k := by
  cases l with
  | comment c => simp [Layout.line, Line.ofComment, Token.at_add, Line.shift, Token.shift]
  | directive head gap c =>
    have hp : start + k + (head.text ++ gap).length = start + (head.text ++ gap).length + k := by
      omega
    simp only [Layout.line, hp, Token.optional_add, Head.line_add]

theorem Line.read?_add (start k : Nat) (content : Text) :
    Line.read? (start + k) content = (Line.read? start content).map (·.shift k) := by
  by_cases h : content.IsBlank
  · rw [Line.read?_blank _ h, Line.read?_blank _ h, Option.map_none]
  · obtain ⟨lead, l, trail, hv, hl, ht, rfl⟩ := Line.exists_layout h
    rw [Line.read?_pad _ hv hl ht, Line.read?_pad _ hv hl ht, Option.map_some, ← Layout.line_add,
      Nat.add_right_comm]

theorem readLines_add (start k : Nat) (ls : List RawLine) :
    readLines (start + k) ls = (readLines start ls).map (Option.map (·.shift k)) := by
  induction ls generalizing start with
  | nil => rfl
  | cons l ls ih =>
    have hp : start + k + l.content.length + l.ending.length =
        start + l.content.length + l.ending.length + k := by omega
    rw [readLines, readLines, List.map_cons, Line.read?_add, hp, ih]

/-! ## Records -/

theorem Record.ofLines?_shift {ls : List Line} (k : Nat) (h : ∀ l ∈ ls, 0 ≤ l.span.start) :
    Record.ofLines? (ls.map (·.shift k)) = (Record.ofLines? ls).map (·.shift k) := by
  refine Record.ofLines?_relocate (·.shift k) (fun _ _ _ _ => rfl) fun l hl => ?_
  have hstart := h l hl
  simp only [Span.shift, Span.empty, Span.mk.injEq]
  omega

theorem readLines_nonneg (start : Nat) (ls : List RawLine) :
    ∀ l ∈ (readLines start ls).reduceOption, (start : Int) ≤ l.span.start := by
  induction ls generalizing start with
  | nil => simp [readLines]
  | cons r ls ih =>
    intro l hl
    have hrest : ∀ l ∈ (readLines (start + r.content.length + r.ending.length) ls).reduceOption,
        (start : Int) ≤ l.span.start := fun l hl => by
      have := ih _ l hl
      omega
    rw [readLines] at hl
    by_cases hb : r.content.IsBlank
    · rw [Line.read?_blank _ hb, List.reduceOption_cons_of_none] at hl
      exact hrest l hl
    · obtain ⟨lead, layout, trail, hv, hlead, htrail, hc⟩ := Line.exists_layout hb
      rw [hc, Line.read?_pad _ hv hlead htrail, ← hc, List.reduceOption_cons_of_some,
        List.mem_cons] at hl
      rcases hl with rfl | hl
      · rw [Layout.span_line _ hv]
        simp only
        omega
      · exact hrest l hl

/-- **Records of a text that stands farther on** are the same records moved along. -/
theorem Record.readAll_add (start k : Nat) (t : Text) :
    Record.readAll (start + k) t = (Record.readAll start t).map (·.shift k) := by
  unfold Record.readAll
  rw [readLines_add, groups_map, List.filterMap_map, List.map_filterMap]
  refine List.filterMap_congr fun ls hls => Record.ofLines?_shift k fun l hl => ?_
  have := readLines_nonneg start (splitLines t) l
    (by rw [← flatten_groups]; exact List.mem_flatten.mpr ⟨ls, hls, hl⟩)
  omega

end RobotsTxt
