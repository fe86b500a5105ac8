import RobotsTxt.Proofs.Canonical.Line
import RobotsTxt.Proofs.Document.Order

/-!
# Documents as runs of layouts

The records of a document are the runs of its layouts. Written out, with a line feed after every
layout and an empty line between two runs, they are read back as the same runs.

* `Line.HasLayout`, `Text.HasRuns`: the layout of a line, and the layouts of a whole text.
* **`Text.exists_runs`**: every text has its layouts.
* `render`: runs of layouts written out.
* **`Text.hasRuns_render`**: what is written out is read back.
* **`canonicalText_eq`**: the canonical text is the canonical layouts written out.
-/

namespace RobotsTxt

/-! ## The layout of a line -/

/-- A line of a text that has a given layout. -/
structure Line.HasLayout (source : Text) (l : Line) (a : Layout) : Prop where
  valid : a.Valid
  unbroken : a.Unbroken
  placed : ∃ start, l = a.line start ∧ source.slice start (start + a.text.length) = a.text

theorem Line.HasLayout.slice_span {source : Text} {l : Line} {a : Layout}
    (h : l.HasLayout source a) :
    source.slice l.span.start.toNat l.span.stop.toNat = a.text := by
  obtain ⟨start, rfl, hslice⟩ := h.placed
  rw [Layout.span_line start h.valid]
  exact hslice

/-- What a physical line holds: blanks only, or a layout between blanks. -/
def RawLine.Holds (r : RawLine) : Option Layout → Prop
  | none => r.content.IsBlank
  | some a => a.Valid ∧ a.Unbroken ∧
    ∃ lead trail : Text, lead.IsBlank ∧ trail.IsBlank ∧ r.content = lead ++ a.text ++ trail

theorem Text.slice_append (s m e : Text) :
    (s ++ m ++ e).slice s.length (s.length + m.length) = m := by
  simp [Text.slice]

theorem RawLine.exists_holds {r : RawLine} (h : ∀ b ∈ r.content, isBreak b = false) :
    ∃ a?, r.Holds a? := by
  by_cases hb : r.content.IsBlank
  · exact ⟨none, hb⟩
  · obtain ⟨lead, a, trail, hv, hl, ht, hr⟩ := Line.exists_layout hb
    refine ⟨some a, hv, fun b hb => h b ?_, lead, trail, hl, ht, hr⟩
    rw [hr]
    exact List.mem_append_left _ (List.mem_append_right _ hb)

theorem RawLine.rel_read? {r : RawLine} {a? : Option Layout} (h : r.Holds a?) (pre post : Text) :
    Option.Rel (Line.HasLayout (pre ++ r.content ++ post))
      (Line.read? pre.length r.content) a? := by
  cases a? with
  | none =>
    rw [Line.read?_blank _ h]
    exact .none
  | some a =>
    obtain ⟨hv, hu, lead, trail, hl, ht, hr⟩ := h
    rw [hr, Line.read?_pad _ hv hl ht]
    refine .some ⟨hv, hu, _, rfl, ?_⟩
    have hslice := Text.slice_append (pre ++ lead) a.text (trail ++ post)
    rw [List.length_append] at hslice
    simpa only [List.append_assoc] using hslice

theorem forall₂_readLines {ls : List RawLine} {as : List (Option Layout)}
    (h : List.Forall₂ RawLine.Holds ls as) (pre : Text) :
    List.Forall₂ (Option.Rel (Line.HasLayout (pre ++ joinLines ls)))
      (readLines pre.length ls) as := by
  induction h generalizing pre with
  | nil => exact .nil
  | @cons r a? ls as hr _ ih =>
    have hstart : pre.length + r.content.length + r.ending.length =
        (pre ++ (r.content ++ r.ending)).length := by simp; omega
    have hsource : pre ++ joinLines (r :: ls) =
        pre ++ r.content ++ (r.ending ++ joinLines ls) := by simp
    refine .cons ?_ ?_
    · rw [hsource]
      exact RawLine.rel_read? hr pre _
    · rw [hstart, joinLines_cons, ← List.append_assoc]
      exact ih _

/-! ## The layouts of a document -/

/-- The records of a text are given runs of layouts. -/
def Text.HasRuns (t : Text) (runs : List (List Layout)) : Prop :=
  List.Forall₂ (List.Forall₂ (Line.HasLayout t)) ((Document.parse t).records.map Record.lines) runs

theorem Text.hasRuns_of_holds {t : Text} {as : List (Option Layout)}
    (h : List.Forall₂ RawLine.Holds (splitLines t.body) as) : t.HasRuns (groups as) := by
  have hlines := forall₂_readLines h t.mark
  rw [joinLines_splitLines, t.mark_append_body] at hlines
  rw [Text.HasRuns, Document.records_parse, Record.map_lines_readAll]
  exact groups_forall₂ hlines

theorem exists_forall₂_holds {ls : List RawLine}
    (h : ∀ r ∈ ls, ∀ b ∈ r.content, isBreak b = false) :
    ∃ as, List.Forall₂ RawLine.Holds ls as := by
  induction ls with
  | nil => exact ⟨[], .nil⟩
  | cons r ls ih =>
    obtain ⟨a?, ha⟩ := RawLine.exists_holds (h r List.mem_cons_self)
    obtain ⟨as, has⟩ := ih fun r hr => h r (List.mem_cons_of_mem _ hr)
    exact ⟨a? :: as, .cons ha has⟩

/-- Runs that can be written out and told apart again. -/
structure Writable (runs : List (List Layout)) : Prop where
  nonempty : ∀ run ∈ runs, run ≠ []
  layouts : ∀ run ∈ runs, ∀ a ∈ run, a.Valid ∧ a.Unbroken

theorem forall_of_forall₂_right {α β : Type} {R : α → β → Prop} {P : β → Prop}
    (hR : ∀ a b, R a b → P b) {l : List α} {m : List β} (h : List.Forall₂ R l m) :
    ∀ b ∈ m, P b := by
  induction h with
  | nil => simp
  | cons h _ ih => exact List.forall_mem_cons.mpr ⟨hR _ _ h, ih⟩

theorem Text.HasRuns.layouts {t : Text} {runs : List (List Layout)} (h : t.HasRuns runs) :
    ∀ run ∈ runs, ∀ a ∈ run, a.Valid ∧ a.Unbroken :=
  forall_of_forall₂_right (fun _ _ hrun =>
    forall_of_forall₂_right (fun _ _ ha => ⟨ha.valid, ha.unbroken⟩) hrun) h

/-- **Every text has its layouts.** -/
theorem Text.exists_runs (t : Text) : ∃ runs, t.HasRuns runs ∧ Writable runs := by
  obtain ⟨as, has⟩ := exists_forall₂_holds fun r hr => noBreak_of_mem_splitLines (t := t.body) hr
  have hruns := hasRuns_of_holds has
  exact ⟨groups as, hruns, fun run hrun => (exists_around_of_mem_groups hrun).1, hruns.layouts⟩

/-! ## Writing layouts out -/

/-- The text of a run, with a line feed after every layout. -/
def renderRun (run : List Layout) : Text := run.flatMap fun a => a.text ++ [0x0A]

/-- The text of runs, with an empty line between two of them. -/
def render (runs : List (List Layout)) : Text := [0x0A].intercalate (runs.map renderRun)

/-- What the lines of the text of runs hold. -/
def sheet : List (List Layout) → List (Option Layout)
  | [] => [none]
  | [run] => run.map some ++ [none]
  | run :: runs => run.map some ++ none :: sheet runs

variable {run : List Layout} {runs : List (List Layout)}

theorem render_singleton (run : List Layout) : render [run] = renderRun run :=
  List.intercalate_singleton

theorem render_gap (run : List Layout) (h : runs ≠ []) :
    render (run :: runs) = renderRun run ++ 0x0A :: render runs := by
  unfold render
  rw [List.map_cons, List.intercalate_cons_of_ne_nil (by simpa using h), List.append_assoc]
  rfl

theorem render_cons (a : Layout) (run : List Layout) (runs : List (List Layout)) :
    render ((a :: run) :: runs) = a.text ++ 0x0A :: render (run :: runs) := by
  cases runs with
  | nil => simp [render_singleton, renderRun]
  | cons run' runs => simp [render_gap, renderRun]

theorem sheet_cons (a : Layout) (run : List Layout) (runs : List (List Layout)) :
    sheet ((a :: run) :: runs) = some a :: sheet (run :: runs) := by
  cases runs <;> rfl

theorem splitLines_feed {c : Text} (hc : ∀ b ∈ c, isBreak b = false) (t : Text) :
    splitLines (c ++ 0x0A :: t) = ⟨c, [0x0A]⟩ :: splitLines t := by
  have hline := splitLines_line (t := t) hc (.inl rfl) (by simp [Straddles])
  rwa [List.append_assoc] at hline

theorem forall₂_renderRun (h : ∀ a ∈ run, a.Valid ∧ a.Unbroken) {rest : Text}
    {as : List (Option Layout)} (hrest : List.Forall₂ RawLine.Holds (splitLines rest) as) :
    List.Forall₂ RawLine.Holds (splitLines (renderRun run ++ rest)) (run.map some ++ as) := by
  induction run with
  | nil => exact hrest
  | cons a run ih =>
    obtain ⟨hv, hu⟩ := h a List.mem_cons_self
    have htext : renderRun (a :: run) ++ rest = a.text ++ 0x0A :: (renderRun run ++ rest) := by
      simp [renderRun]
    rw [htext, splitLines_feed hu]
    exact .cons ⟨hv, hu, [], [], by simp, by simp, by simp⟩
      (ih fun a ha => h a (List.mem_cons_of_mem _ ha))

theorem forall₂_render (h : ∀ run ∈ runs, ∀ a ∈ run, a.Valid ∧ a.Unbroken) :
    List.Forall₂ RawLine.Holds (splitLines (render runs)) (sheet runs) := by
  have hempty : List.Forall₂ RawLine.Holds (splitLines []) [none] :=
    .cons (by simp [RawLine.Holds]) .nil
  induction runs with
  | nil => exact hempty
  | cons run runs ih =>
    have hrun := h run List.mem_cons_self
    have hrest := ih fun run hrun => h run (List.mem_cons_of_mem _ hrun)
    cases runs with
    | nil =>
      rw [render_singleton, ← List.append_nil (renderRun run)]
      exact forall₂_renderRun hrun hempty
    | cons run' runs =>
      rw [render_gap run (by simp)]
      refine forall₂_renderRun hrun ?_
      rw [← List.nil_append (0x0A :: _), splitLines_feed (by simp)]
      exact .cons (by simp [RawLine.Holds]) hrest

/-- The runs of a sheet; the first run may be empty. -/
theorem groups_sheet (h : ∀ run ∈ runs, run ≠ []) :
    groups (sheet (run :: runs)) = consRun run runs := by
  have hrun : ∀ run : List Layout, groups (run.map some) = consRun run [] := fun run => by
    rw [groups_eq, splitRuns_map_some]
  induction runs generalizing run with
  | nil => rw [sheet, groups_append_none, hrun, ← consRun_append]; rfl
  | cons run' runs ih =>
    obtain ⟨hne, hruns⟩ := List.forall_mem_cons.mp h
    obtain ⟨a, run', rfl⟩ := List.exists_cons_of_ne_nil hne
    rw [sheet, groups_append_none, hrun, ih hruns, ← consRun_append]
    · rfl
    · simp

/-- **What is written out is read back.** -/
theorem Text.hasRuns_render {t : Text} (hw : Writable runs) (ht : t.body = render runs) :
    t.HasRuns runs := by
  have hholds := forall₂_render hw.layouts
  rw [← ht] at hholds
  cases runs with
  | nil => exact hasRuns_of_holds hholds
  | cons run runs =>
    obtain ⟨hne, hruns⟩ := List.forall_mem_cons.mp hw.nonempty
    obtain ⟨a, run, rfl⟩ := List.exists_cons_of_ne_nil hne
    have hgroups := hasRuns_of_holds hholds
    rwa [groups_sheet hruns] at hgroups

/-! ## The canonical text -/

theorem map_eq_of_forall₂ {α β γ : Type} {R : α → β → Prop} {f : α → γ} {g : β → γ}
    (hR : ∀ a b, R a b → f a = g b) {l : List α} {m : List β} (h : List.Forall₂ R l m) :
    l.map f = m.map g := by
  induction h with
  | nil => rfl
  | cons h _ ih => rw [List.map_cons, List.map_cons, hR _ _ h, ih]

/-- The runs of layouts in canonical form. -/
def canonicalRuns (runs : List (List Layout)) : List (List Layout) :=
  runs.map (List.map Layout.canonical)

theorem canonicalRuns_cons (run : List Layout) (runs : List (List Layout)) :
    canonicalRuns (run :: runs) = run.map Layout.canonical :: canonicalRuns runs := rfl

theorem Writable.canonical (h : Writable runs) : Writable (canonicalRuns runs) := by
  constructor
  · intro run hrun
    obtain ⟨run, hmem, rfl⟩ := List.mem_map.mp hrun
    simpa using h.nonempty run hmem
  · intro run hrun a ha
    obtain ⟨run, hmem, rfl⟩ := List.mem_map.mp hrun
    obtain ⟨a, ha', rfl⟩ := List.mem_map.mp ha
    obtain ⟨hv, hu⟩ := h.layouts run hmem a ha'
    exact ⟨Layout.valid_canonical hv, Layout.unbroken_canonical hu⟩

theorem canonicalRuns_canonicalRuns (runs : List (List Layout)) :
    canonicalRuns (canonicalRuns runs) = canonicalRuns runs := by
  simp [canonicalRuns, Layout.canonical_canonical]

theorem Line.HasLayout.canonical {source : Text} {l : Line} {a : Layout}
    (h : l.HasLayout source a) : l.canonical source = a.canonical.text := by
  obtain ⟨start, rfl, hslice⟩ := h.placed
  exact Layout.canonical_line h.valid hslice

/-- **The canonical text is the canonical layouts written out**, behind the byte order mark. -/
theorem canonicalText_eq {t : Text} (h : t.HasRuns runs) :
    canonicalText t = t.mark ++ render (canonicalRuns runs) := by
  have hleading : (Document.parse t).leading.flatMap Token.value = t.mark := by
    rw [Document.leading_parse]
    rcases t.mark_eq_or with hm | hm <;> rw [hm] <;> rfl
  have hline : ∀ (l : Line) (a : Layout), l.HasLayout t a →
      l.canonical t ++ [0x0A] = a.canonical.text ++ [0x0A] := fun l a ha => by rw [ha.canonical]
  have hrun : ∀ (ls : List Line) (run : List Layout), List.Forall₂ (Line.HasLayout t) ls run →
      (ls.flatMap fun l => l.canonical t ++ [0x0A]) = renderRun (run.map Layout.canonical) := by
    intro ls run hrun
    rw [renderRun, List.flatMap_map, List.flatMap_def, List.flatMap_def,
      map_eq_of_forall₂ hline hrun]
  have hrecords : (Document.parse t).records.map (Record.canonical t) =
      (canonicalRuns runs).map renderRun := by
    have hmap := map_eq_of_forall₂ hrun h
    rw [List.map_map] at hmap
    rw [canonicalRuns, List.map_map]
    exact hmap
  have hwhole : canonicalText t = (Document.parse t).leading.flatMap Token.value ++
      [0x0A].intercalate ((Document.parse t).records.map (Record.canonical t)) := rfl
  rw [hwhole, hleading, hrecords, render]

end RobotsTxt
