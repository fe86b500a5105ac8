import RobotsTxt.Proofs.Editor.Ranges
import RobotsTxt.Proofs.Server.Answers

/-!
# Outlines nest

An outline has a symbol for every record whose name is there, and under it one for every directive
whose name is there. What a symbol selects lies in its range, a directive lies in its record, and
neighbours are apart and in order, as an editor counts.

* `Line.presentName?`, `Record.presentName?`: the name of a line or a record, if it is there.
* `Document.OutlinedBy`: the symbols that a document should have, and how they should lie.
* **`Document.outline_parse`**: the outline of a document.
* **`Server.outline_current`**: the answer of a server is the outline of the current text.
-/

namespace RobotsTxt

/-- The name of a line, if it is there. -/
def Line.presentName? (l : Line) : Option Token := l.name?.filter fun k => !k.missing

/-- The name of a record, if it is there. -/
def Record.presentName? (r : Record) : Option Token := r.nameToken?.filter fun k => !k.missing

/-! ## What an outline should be -/

/-- The symbol that a directive should have. -/
structure DirectiveSymbol.Shows (t : Text) (l : Line) (s : DirectiveSymbol) : Prop where
  name : ∃ k ∈ l.presentName?,
    s.name = Directive.canonicalName k.value ∧ t.rangeOf k.span = .ok s.selection
  detail : s.detail = l.valueText
  range : t.rangeOf l.span = .ok s.range

/-- The symbol that a record should have. -/
structure RecordSymbol.Shows (t : Text) (r : Record) (s : RecordSymbol) : Prop where
  name : s.name = r.title
  selection : ∃ k ∈ r.presentName?, t.rangeOf k.span = .ok s.selection
  range : t.rangeOf r.span = .ok s.range
  children : List.Forall₂ (DirectiveSymbol.Shows t)
    (r.directives.filter fun l => l.presentName?.isSome) s.children

/-- How a symbol and those under it should lie. -/
structure RecordSymbol.Nested (s : RecordSymbol) : Prop where
  selection : s.selection.Within s.range
  children : ∀ c ∈ s.children, c.range.Within s.range ∧ c.selection.Within c.range
  apart : s.children.Pairwise fun c d => c.range.Before d.range

/-- **The symbols that a document should have**, and how they should lie. -/
structure Document.OutlinedBy (t : Text) (d : Document) (symbols : List RecordSymbol) : Prop where
  shows : List.Forall₂ (RecordSymbol.Shows t)
    (d.records.filter fun r => r.presentName?.isSome) symbols
  nested : ∀ s ∈ symbols, s.Nested
  apart : symbols.Pairwise fun s u => s.range.Before u.range

/-! ## Things with a part -/

/-- The elements that have a given part, with it. -/
def withPart {α β : Type} (part : α → Option β) (xs : List α) : List (α × β) :=
  xs.filterMap fun x => (part x).map fun y => (x, y)

section WithPart

variable {α β γ ε : Type} {part : α → Option β} {xs : List α}

theorem mem_withPart {x : α} {y : β} : (x, y) ∈ withPart part xs ↔ x ∈ xs ∧ part x = some y := by
  simp only [withPart, List.mem_filterMap, Option.map_eq_some_iff, Prod.mk.injEq]
  constructor
  · rintro ⟨a, ha, b, hb, rfl, rfl⟩
    exact ⟨ha, hb⟩
  · rintro ⟨hx, hy⟩
    exact ⟨x, hx, y, hy, rfl, rfl⟩

theorem pairwise_withPart {P : α → α → Prop} (h : xs.Pairwise P) :
    (withPart part xs).Pairwise fun p q => P p.1 q.1 := by
  refine h.filterMap _ fun x x' hP p hp q hq => ?_
  obtain ⟨y, -, rfl⟩ := Option.map_eq_some_iff.mp hp
  obtain ⟨y', -, rfl⟩ := Option.map_eq_some_iff.mp hq
  exact hP

theorem forall₂_withPart {R : α → γ → Prop} {f : α × β → γ}
    (h : ∀ x ∈ xs, ∀ y, part x = some y → R x (f (x, y))) :
    List.Forall₂ R (xs.filter fun x => (part x).isSome) ((withPart part xs).map f) := by
  induction xs with
  | nil => exact .nil
  | cons x xs ih =>
    obtain ⟨hx, hxs⟩ := List.forall_mem_cons.mp h
    unfold withPart
    rw [List.filter_cons, List.filterMap_cons]
    cases hy : part x with
    | none => exact ih hxs
    | some y => exact .cons (hx y hy) (ih hxs)

theorem mapM_eq_ok {f : α → Except ε β} {g : α → β} (h : ∀ x ∈ xs, f x = .ok (g x)) :
    xs.mapM f = .ok (xs.map g) := by
  induction xs with
  | nil => rfl
  | cons x xs ih =>
    obtain ⟨hx, hxs⟩ := List.forall_mem_cons.mp h
    rw [List.mapM_cons, hx, ih hxs]
    rfl

end WithPart

/-! ## The symbols -/

variable {t : Text} {l : Line} {r : Record} {k : Token}

/-- The symbol of a line of a text. -/
def Line.symbolAt (t : Text) (l : Line) (name : Token) : DirectiveSymbol :=
  { name := Directive.canonicalName name.value
    detail := l.valueText
    range := t.rangeAt l.span
    selection := t.rangeAt name.span }

theorem Record.namedDirectives_eq (r : Record) :
    r.namedDirectives = withPart Line.presentName? r.directives := rfl

/-- The symbol of a record of a text. -/
def Record.symbolAt (t : Text) (r : Record) (name : Token) : RecordSymbol :=
  { name := r.title
    range := t.rangeAt r.span
    selection := t.rangeAt name.span
    children := r.namedDirectives.map fun (l, k) => l.symbolAt t k }

namespace Document

/-! ### One directive -/

theorem clean_presentName (hl : l ∈ (parse t).lines) (hk : l.presentName? = some k) :
    t.CleanSpan k.span ∧ k.span.Within l.span := by
  obtain ⟨hname, -⟩ := Option.filter_eq_some_iff.mp hk
  have hmem : k ∈ l.tokens := by simp [Line.tokens, hname]
  exact ⟨cleanSpan_token hl hmem, (wellFormed_of_mem_lines hl).tokens k hmem⟩

theorem symbol_line (hl : l ∈ (parse t).lines) (hk : l.presentName? = some k) :
    l.symbol t k = .ok (l.symbolAt t k) := by
  rw [Line.symbol, (cleanSpan_line hl).rangeOf_eq, (clean_presentName hl hk).1.rangeOf_eq]
  rfl

theorem shows_symbolAt_line (hl : l ∈ (parse t).lines) (hk : l.presentName? = some k) :
    (l.symbolAt t k).Shows t l where
  name := ⟨k, hk, rfl, (clean_presentName hl hk).1.rangeOf_eq⟩
  detail := rfl
  range := (cleanSpan_line hl).rangeOf_eq

/-! ### One record -/

theorem name_eq_nil_iff (hr : r ∈ (parse t).records) : r.name = [] ↔ r.presentName? = none := by
  obtain ⟨k, hk, hreads⟩ := reads_name hr
  rw [Record.name, Record.presentName?, hk]
  cases hm : k.missing with
  | true => simp [hm]
  | false =>
    obtain ⟨hpos, hvalue⟩ := hreads.present hm
    have hfirst := hreads.first
    have hlast := hreads.last
    have hne : k.value ≠ [] := by
      rw [hvalue, Text.slice, ← List.length_pos_iff, List.length_take, List.length_drop]
      omega
    simp [hm, hne]

theorem clean_presentName_record (hr : r ∈ (parse t).records) (hk : r.presentName? = some k) :
    t.CleanSpan k.span ∧ k.span.Within r.span := by
  obtain ⟨hname, hpresent⟩ := Option.filter_eq_some_iff.mp hk
  obtain ⟨m, hm, ⟨l, hl, hkl⟩ | hmissing⟩ := exists_name hr
  · obtain rfl := Option.some_inj.mp (hname.symm.trans hm)
    obtain ⟨h₁, h₂⟩ := (wellFormed_of_mem_lines (mem_lines hr hl)).tokens k hkl
    obtain ⟨h₃, h₄⟩ := (wellFormed_of_mem_records hr).within l hl
    exact ⟨cleanSpan_name hr hname, Int.le_trans h₃ h₁, Int.le_trans h₂ h₄⟩
  · rw [hm] at hname
    rw [← Option.some_inj.mp hname, hmissing] at hpresent
    exact absurd hpresent (by simp [Token.missingAt])

theorem mem_lines_of_directives (hr : r ∈ (parse t).records) (hl : l ∈ r.directives) :
    l ∈ (parse t).lines := mem_lines hr (List.mem_filter.mp hl).1

theorem symbol_record (hr : r ∈ (parse t).records) (hk : r.presentName? = some k) :
    r.symbol t k = .ok (r.symbolAt t k) := by
  have hchildren : r.namedDirectives.mapM (fun (l, k) => l.symbol t k) =
      .ok (r.namedDirectives.map fun (l, k) => l.symbolAt t k) := by
    refine mapM_eq_ok ?_
    rintro ⟨l, k⟩ hmem
    obtain ⟨hl, hk⟩ := mem_withPart.mp (r.namedDirectives_eq ▸ hmem)
    exact symbol_line (mem_lines_of_directives hr hl) hk
  rw [Record.symbol, (cleanSpan_record hr).rangeOf_eq,
    (clean_presentName_record hr hk).1.rangeOf_eq, hchildren]
  rfl

theorem shows_symbolAt (hr : r ∈ (parse t).records) (hk : r.presentName? = some k) :
    (r.symbolAt t k).Shows t r where
  name := rfl
  selection := ⟨k, hk, (clean_presentName_record hr hk).1.rangeOf_eq⟩
  range := (cleanSpan_record hr).rangeOf_eq
  children := forall₂_withPart fun _ hl _ hk =>
    shows_symbolAt_line (mem_lines_of_directives hr hl) hk

theorem nested_symbolAt (hr : r ∈ (parse t).records) (hk : r.presentName? = some k) :
    (r.symbolAt t k).Nested := by
  have hwf := wellFormed_of_mem_records hr
  have hrecord := cleanSpan_record hr
  obtain ⟨hname, hwithin⟩ := clean_presentName_record hr hk
  refine ⟨hname.within_rangeAt hrecord hwithin, ?_, ?_⟩
  · intro c hc
    obtain ⟨⟨l, k⟩, hmem, rfl⟩ := List.mem_map.mp hc
    obtain ⟨hl, hk⟩ := mem_withPart.mp (r.namedDirectives_eq ▸ hmem)
    have hline := mem_lines_of_directives hr hl
    obtain ⟨hname, hwithin⟩ := clean_presentName hline hk
    exact ⟨(cleanSpan_line hline).within_rangeAt hrecord (hwf.within l (List.mem_filter.mp hl).1),
      hname.within_rangeAt (cleanSpan_line hline) hwithin⟩
  · have hordered : r.directives.Pairwise fun l m => l.span.stop < m.span.start :=
      hwf.ordered.sublist List.filter_sublist
    refine List.pairwise_map.mpr ((pairwise_withPart hordered).imp_of_mem ?_)
    rintro ⟨l, k⟩ ⟨m, n⟩ hl hm hlt
    have hl := mem_lines_of_directives hr (mem_withPart.mp hl).1
    have hm := mem_lines_of_directives hr (mem_withPart.mp hm).1
    exact (cleanSpan_line hl).before_rangeAt (cleanSpan_line hm) hlt

/-! ### The whole outline -/

theorem named_eq (t : Text) :
    (parse t).records.filterMap (fun r =>
      if r.name.isEmpty then none else r.nameToken?.map fun k => (r, k)) =
        withPart Record.presentName? (parse t).records := by
  refine List.filterMap_congr fun r hr => ?_
  cases hk : r.presentName? with
  | none => rw [(name_eq_nil_iff hr).mpr hk, List.isEmpty_nil, if_pos rfl, Option.map_none]
  | some k =>
    have hne : r.name ≠ [] := fun hnil => by simp [(name_eq_nil_iff hr).mp hnil] at hk
    rw [if_neg (by simpa using hne), (Option.filter_eq_some_iff.mp hk).1]

/-- **The outline of a document**: never a fault, the symbols that it should have, in order, each of
them around what is under it. -/
theorem outline_parse (t : Text) :
    ∃ symbols, (parse t).outline t = .ok symbols ∧ (parse t).OutlinedBy t symbols := by
  refine ⟨(withPart Record.presentName? (parse t).records).map fun p => p.1.symbolAt t p.2,
    ?_, ?_, ?_, ?_⟩
  · rw [outline, named_eq]
    refine mapM_eq_ok ?_
    rintro ⟨r, k⟩ hmem
    obtain ⟨hr, hk⟩ := mem_withPart.mp hmem
    exact symbol_record hr hk
  · exact forall₂_withPart fun _ hr _ hk => shows_symbolAt hr hk
  · intro s hs
    obtain ⟨⟨r, k⟩, hmem, rfl⟩ := List.mem_map.mp hs
    obtain ⟨hr, hk⟩ := mem_withPart.mp hmem
    exact nested_symbolAt hr hk
  · refine List.pairwise_map.mpr ((pairwise_withPart (pairwise_records t)).imp_of_mem ?_)
    rintro ⟨r, k⟩ ⟨s, m⟩ hr hs hlt
    exact (cleanSpan_record (mem_withPart.mp hr).1).before_rangeAt
      (cleanSpan_record (mem_withPart.mp hs).1) hlt

end Document

/-! ## The answer of a server -/

namespace Server

/-- **A server that is asked for the outline of an open document answers with it.** After any
events, the symbols are those of the text that the client's own messages have led to. -/
theorem outline_current (identity : Text) (notifies : Bool) (logLevel : LogLevel)
    (es : List ServerEvent) (disk : Disk) {uri : Text} {x : Snapshot}
    (h : Desk.run (fun _ => none) es uri = some x) :
    ∃ symbols, ((({ identity, notifies, logLevel } : Server).run es).handle disk
        (.documentSymbol uri)).reply = .ok (.outline symbols) ∧
      (Document.parse x.text).OutlinedBy x.text symbols := by
  have h₀ := coherent_fresh identity notifies logLevel
  have hshown : (({ identity, notifies, logLevel } : Server).run es).shown uri = some x := by
    rw [h₀.shown_run es]
    exact h
  obtain ⟨symbols, hsymbols, hby⟩ := Document.outline_parse x.text
  refine ⟨symbols, ?_, hby⟩
  refine ((h₀.run es).ask_eq uri fun _ => .ok .outline).trans ?_
  rw [hshown]
  show (((Document.parse x.text).outline x.text).mapError Fault.span).map Reply.outline = _
  rw [hsymbols]
  rfl

/-- A record of a comment alone, and two with names, of which the first has a line without. -/
def twoNamed : Text := utf8 "# 𝄞\n\n  user-agent: é\r\n: /\rallow\r\rfoo"

theorem outline_current_opened :
    let disk : Disk := ⟨fun _ => .ok [], fun _ => .ok 0⟩
    let es : List ServerEvent := [.request disk (.didOpen (utf8 "u") 1 twoNamed)]
    let s := ({ identity := utf8 "a", notifies := true, logLevel := .info } : Server).run es
    Desk.run (fun _ => none) es (utf8 "u") = some ⟨1, twoNamed⟩ ∧
      ∃ symbols, (s.handle disk (.documentSymbol (utf8 "u"))).reply = .ok (.outline symbols) ∧
        (Document.parse twoNamed).OutlinedBy twoNamed symbols ∧ symbols.length = 2 := by
  intro disk es s
  have hdesk : Desk.run (fun _ => none) es (utf8 "u") = some ⟨1, twoNamed⟩ := by decide +kernel
  obtain ⟨symbols, hreply, hby⟩ := outline_current (utf8 "a") true .info es disk hdesk
  have hlength := hby.shows.length_eq
  exact ⟨hdesk, symbols, hreply, hby, hlength.symm.trans (by decide +kernel)⟩

end Server

end RobotsTxt
