import Mathlib.Data.List.ReduceOption
import RobotsTxt.Document.Grammar

/-!
# Other places

Every span of a document can be replaced by another one, and all else stays as it is.

* `Token.relocate`, `Line.relocate`, `Record.relocate`, `Document.relocate`, `Node.relocate`: other
  spans throughout.
* **`Node.descendants_relocate`**: the nodes of a relocated document.
* **`Record.ofLines?_relocate`**: the record of relocated lines.
-/

namespace RobotsTxt

/-! ## Other spans -/

/-- A token with another span. -/
def Token.relocate (k : Token) (f : Span → Span) : Token := { k with span := f k.span }

/-- A line with other spans. -/
def Line.relocate (l : Line) (f : Span → Span) : Line :=
  { kind := l.kind
    span := f l.span
    name? := l.name?.map (·.relocate f)
    delimiter? := l.delimiter?.map (·.relocate f)
    value? := l.value?.map (·.relocate f)
    comment? := l.comment?.map (·.relocate f) }

/-- A record with other spans. -/
def Record.relocate (r : Record) (f : Span → Span) : Record :=
  { nameToken? := r.nameToken?.map (·.relocate f)
    lines := r.lines.map (·.relocate f)
    span := f r.span }

/-- **A document with other spans.** -/
def Document.relocate (d : Document) (f : Span → Span) : Document :=
  { leading := d.leading.map (·.relocate f)
    records := d.records.map (·.relocate f)
    span := f d.span }

/-- A node with other spans. -/
def Node.relocate (n : Node) (f : Span → Span) : Node :=
  match n with
  | .document d => .document (d.relocate f)
  | .record r => .record (r.relocate f)
  | .line l => .line (l.relocate f)

variable (f g : Span → Span)

/-! ## What stays -/

theorem Token.map_relocate_relocate (k? : Option Token) :
    (k?.map (·.relocate f)).map (·.relocate g) = k?.map (·.relocate (g ∘ f)) := by
  cases k? <;> rfl

namespace Line

variable (l : Line)

theorem relocate_relocate : (l.relocate f).relocate g = l.relocate (g ∘ f) := by
  simp only [relocate, Token.map_relocate_relocate, Function.comp_apply]

@[simp] theorem kind_relocate : (l.relocate f).kind = l.kind := rfl

@[simp] theorem valueText_relocate : (l.relocate f).valueText = l.valueText := by
  unfold valueText relocate
  cases l.value? <;> rfl

theorem tokens_relocate : (l.relocate f).tokens = l.tokens.map (·.relocate f) := by
  simp only [tokens, ← List.reduceOption_map, List.map_cons, List.map_nil]
  rfl

end Line

theorem Record.directives_relocate (r : Record) :
    (r.relocate f).directives = r.directives.map (·.relocate f) := by
  simp only [directives, relocate, List.filter_map]
  rfl

theorem Document.lines_relocate (d : Document) :
    (d.relocate f).lines = d.lines.map (·.relocate f) := by
  simp only [lines, relocate, List.flatMap_map, List.map_flatMap]
  rfl

/-! ## Nodes -/

namespace Node

theorem kind_relocate (n : Node) : (n.relocate f).kind = n.kind := by
  cases n <;> rfl

theorem tokens_relocate (n : Node) : (n.relocate f).tokens = n.tokens.map (·.relocate f) := by
  cases n with
  | document d => rfl
  | record r => rfl
  | line l => exact l.tokens_relocate f

/-- **The nodes of a relocated document** are its nodes, relocated. -/
theorem descendants_relocate (d : Document) : (Node.document (d.relocate f)).descendants =
    (Node.document d).descendants.map (·.relocate f) := by
  have hrecord : ∀ r : Record, walkRecord (fun _ => true) (r.relocate f) =
      (walkRecord (fun _ => true) r).map (·.relocate f) := fun r => by
    simp only [walkRecord, if_true, Record.relocate, List.map_cons, List.map_map]
    rfl
  simp only [descendants, walk, if_true, Document.relocate, List.flatMap_map, hrecord,
    List.map_cons, List.map_flatMap]
  rfl

end Node

/-! ## Records -/

theorem Record.ofLines?_eq {ls : List Line} {first last : Line} (hf : ls.head? = some first)
    (hl : ls.getLast? = some last) :
    Record.ofLines? ls = some
      { nameToken? := some (((ls.find? Line.isDirective).bind Line.name?).getD
          (.missingAt .name first.span.start.toNat))
        lines := ls
        span := ⟨first.span.start, last.span.stop⟩ } := by
  unfold Record.ofLines?
  rw [hf, hl]

/-- **The record of relocated lines** is their record, relocated, if the span and the start of the
record move with the lines. -/
theorem Record.ofLines?_relocate {ls : List Line}
    (hspan : ∀ l ∈ ls, ∀ m ∈ ls,
      f ⟨l.span.start, m.span.stop⟩ = ⟨(f l.span).start, (f m.span).stop⟩)
    (hempty : ∀ l ∈ ls,
      f (.empty l.span.start.toNat) = .empty (f l.span).start.toNat) :
    Record.ofLines? (ls.map (·.relocate f)) = (Record.ofLines? ls).map (·.relocate f) := by
  rcases List.eq_nil_or_concat ls with rfl | ⟨init, last, hls⟩
  · rfl
  obtain ⟨first, rest, hrest⟩ := List.exists_cons_of_ne_nil (show ls ≠ [] by simp [hls])
  have hf : ls.head? = some first := by rw [hrest]; rfl
  have hl : ls.getLast? = some last := by rw [hls]; simp
  have hf' : (ls.map (·.relocate f)).head? = some (first.relocate f) := by
    rw [List.head?_map, hf, Option.map_some]
  have hl' : (ls.map (·.relocate f)).getLast? = some (last.relocate f) := by
    rw [List.getLast?_map, hl, Option.map_some]
  have hfirst := List.mem_of_mem_head? hf
  have hfind : (ls.map (·.relocate f)).find? Line.isDirective =
      (ls.find? Line.isDirective).map (·.relocate f) := by
    rw [List.find?_map]
    rfl
  have hmissing : Token.missingAt .name (first.relocate f).span.start.toNat =
      (Token.missingAt .name first.span.start.toNat).relocate f := by
    simp only [Token.missingAt, Token.relocate, Line.relocate, hempty first hfirst]
  have hname : ∀ l? : Option Line, ((l?.map (·.relocate f)).bind Line.name?).getD
      ((Token.missingAt .name first.span.start.toNat).relocate f) =
        ((l?.bind Line.name?).getD (.missingAt .name first.span.start.toNat)).relocate f := by
    rintro (_ | l)
    · rfl
    · simp only [Option.map_some, Option.bind_some, Line.relocate]
      cases l.name? <;> rfl
  rw [Record.ofLines?_eq hf hl, Record.ofLines?_eq hf' hl', hfind, hmissing, hname,
    Option.map_some, Record.relocate, hspan first hfirst last (List.mem_of_mem_getLast? hl)]
  rfl

end RobotsTxt
