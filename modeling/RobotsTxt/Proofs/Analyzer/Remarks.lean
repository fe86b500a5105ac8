import RobotsTxt.Proofs.Analyzer.Relocation

/-!
# What is said of each line

The builtin analyzers say something of a line on its own, of a line that needs an agent and comes
too early, and of a line that names an agent again.

* `Analyzer.Movable`: an analyzer that says the same of a line that has moved.
* `Line.ownRemarks`, `Line.earlyRemarks`, `Line.repeatRemarks`: the three sorts of remarks.
* `Sticky`: remarks that stay with their line.
* **`mem_analyze_builtin`**: the diagnostics of a whole document, line by line.
-/

namespace RobotsTxt

/-! ## Lines that have moved -/

namespace Line

variable (l : Line) (δ : Int)

@[simp] theorem kind_shift : (l.shift δ).kind = l.kind := rfl

@[simp] theorem span_shift : (l.shift δ).span = l.span.shift δ := rfl

@[simp] theorem name?_shift : (l.shift δ).name? = l.name?.map (·.shift δ) := rfl

@[simp] theorem valueText_shift : (l.shift δ).valueText = l.valueText :=
  l.valueText_relocate (·.shift δ)

theorem valueSpan_shift : Analyzer.valueSpan (l.shift δ) = (Analyzer.valueSpan l).shift δ :=
  Analyzer.valueSpan_relocate (·.shift δ) l

end Line

/-- **An analyzer that says the same of a line that has moved.** -/
def Analyzer.Movable (a : Analyzer) : Prop :=
  ∀ (l : Line) (δ : Int), a.look (.line (l.shift δ)) = (a.look (.line l)).map (·.shift δ)

namespace Analyzer

theorem movable_builtin : ∀ a ∈ builtin, a.Movable := fun a ha l δ =>
  relocatable_builtin a ha (.line l) (·.shift δ)

theorem Movable.diagnostics_shift {a : Analyzer} (h : a.Movable) (l : Line) (δ : Int) :
    (Call.mk a (.line (l.shift δ))).diagnostics =
      (Call.mk a (.line l)).diagnostics.map (·.shift δ) := by
  simp only [Call.diagnostics, Call.outcome, h l δ]
  cases a.look (.line l) with
  | reported ds => simp [Outcome.map, Diagnostic.attributed, Diagnostic.shift]
  | failed ds e => rfl
  | broken e => rfl

end Analyzer

/-! ## Three sorts of remarks -/

namespace Line

variable (l : Line)

/-- What is said of a line on its own. -/
def ownRemarks : List Diagnostic := remarks Analyzer.builtin (.line l)

/-- What is said of a line that needs an agent and comes too early. -/
def earlyRemarks : List Diagnostic :=
  (l.name?.map fun k =>
    (Analyzer.earlyDiagnostic l k).attributed Analyzer.recordStart.name).toList

/-- What is said of a line that names an agent again. -/
def repeatRemarks : List Diagnostic :=
  [{ span := Analyzer.valueSpan l, severity := .warning
     message := utf8 "user agent " ++ l.valueText.quote ++
       utf8 " is already matched by an earlier group"
     code := Analyzer.duplicateUserAgent.name
     source := Diagnostic.defaultSource }]

end Line

/-- **Remarks that stay with their line.** -/
structure Sticky (say : Line → List Diagnostic) : Prop where
  owns : ∀ l, ∀ d ∈ say l, l.Owns d.span
  shift : ∀ l δ, say (l.shift δ) = (say l).map (·.shift δ)

theorem exists_code_of_mem_remarks {n : Node} {d : Diagnostic}
    (h : d ∈ remarks Analyzer.builtin n) :
    ∃ a ∈ Analyzer.builtin, d ∈ (Call.mk a n).diagnostics ∧ d.code = a.name ∧
      ∃ l ∈ n.lines, l.Owns d.span := by
  obtain ⟨a, ha, hn, hd⟩ := mem_remarks.mp h
  have hown : d ∈ remarks [a] n := mem_remarks.mpr ⟨a, List.mem_singleton_self a, hn, hd⟩
  refine ⟨a, ha, hd, (Analyzer.pinned_builtin a ha).code_eq hown, ?_⟩
  obtain ⟨ds, hds, e, he, rfl⟩ := mem_diagnostics.mp hd
  exact (Analyzer.pinned_builtin a ha n hn ds hds e he).2

theorem sticky_ownRemarks : Sticky Line.ownRemarks where
  owns l d hd := by
    obtain ⟨-, -, -, -, m, hm, hown⟩ := exists_code_of_mem_remarks hd
    obtain rfl := List.mem_singleton.mp hm
    exact hown
  shift l δ := by
    simp only [Line.ownRemarks, remarks, List.map_flatMap]
    refine List.flatMap_congr fun a ha => ?_
    exact (Analyzer.movable_builtin a (List.mem_filter.mp ha).1).diagnostics_shift l δ

theorem sticky_earlyRemarks : Sticky Line.earlyRemarks where
  owns l d hd := by
    rw [Line.earlyRemarks, Option.mem_toList, Option.map_eq_some_iff] at hd
    obtain ⟨k, -, rfl⟩ := hd
    exact .inl rfl
  shift l δ := by
    unfold Line.earlyRemarks
    rw [Line.name?_shift]
    cases l.name? <;> rfl

theorem sticky_repeatRemarks : Sticky Line.repeatRemarks where
  owns l d hd := by
    rw [List.mem_singleton.mp hd]
    exact l.owns_valueSpan
  shift l δ := by
    simp only [Line.repeatRemarks, Line.valueSpan_shift, Line.valueText_shift]
    rfl

theorem code_of_mem_ownRemarks {l : Line} {d : Diagnostic} (h : d ∈ l.ownRemarks) :
    d.code ≠ Analyzer.recordStart.name ∧ d.code ≠ Analyzer.duplicateUserAgent.name := by
  obtain ⟨a, ha, hd, hcode, -⟩ := exists_code_of_mem_remarks h
  rw [hcode]
  simp only [Analyzer.builtin, List.mem_cons, List.not_mem_nil, or_false] at ha
  rcases ha with rfl | rfl | rfl | rfl | rfl | rfl | rfl | rfl
  iterate 6 decide
  -- the analyzers of whole documents say nothing of a single line
  · exact absurd hd (List.not_mem_nil)
  · exact absurd hd (List.not_mem_nil)

theorem code_of_mem_earlyRemarks {l : Line} {d : Diagnostic} (h : d ∈ l.earlyRemarks) :
    d.code = Analyzer.recordStart.name := by
  rw [Line.earlyRemarks, Option.mem_toList, Option.map_eq_some_iff] at h
  obtain ⟨k, -, rfl⟩ := h
  rfl

theorem code_of_mem_repeatRemarks {l : Line} {d : Diagnostic} (h : d ∈ l.repeatRemarks) :
    d.code = Analyzer.duplicateUserAgent.name := by
  rw [List.mem_singleton.mp h]

/-! ## Whole documents -/

/-- The lines of a document that name an agent again. -/
def Document.repeats (d : Document) : List Line :=
  Analyzer.repeatedAgents [] (Analyzer.agentLines d)

theorem exists_name_of_early {t : Text} {l : Line}
    (h : l ∈ Analyzer.earlyLines (Document.parse t)) : ∃ k, l.name? = some k := by
  have hneeds := (Analyzer.mem_earlyLines.mp h).1
  cases Document.shaped_of_mem_lines (Analyzer.mem_lines_of_early h) with
  | comment kind => exact absurd hneeds (by simp [Analyzer.needsAgent, kind])
  | @directive k _ _ name => exact ⟨k, name⟩

theorem mapM_eq_filterMap {α β : Type} {f : α → Option β} {xs : List α}
    (h : ∀ x ∈ xs, ∃ y, f x = some y) : xs.mapM f = some (xs.filterMap f) := by
  rw [Analyzer.mapM_eq_some_iff, List.map_filterMap]
  induction xs with
  | nil => rfl
  | cons x xs ih =>
    obtain ⟨y, hy⟩ := h x List.mem_cons_self
    rw [List.map_cons, List.filterMap_cons, hy, ih fun z hz => h z (List.mem_cons_of_mem _ hz)]
    rfl

theorem look_recordStart (t : Text) : Analyzer.recordStart.look (.document (Document.parse t)) =
    .reported ((Analyzer.earlyLines (Document.parse t)).filterMap
      fun l => l.name?.map (Analyzer.earlyDiagnostic l)) := by
  simp only [Analyzer.recordStart, Analyzer.ofDocuments]
  rw [mapM_eq_filterMap fun l hl => ?_]
  obtain ⟨k, hk⟩ := exists_name_of_early hl
  exact ⟨_, by rw [hk]; rfl⟩

theorem mem_diagnostics_recordStart {t : Text} {d : Diagnostic} :
    d ∈ (Call.mk Analyzer.recordStart (.document (Document.parse t))).diagnostics ↔
      ∃ l ∈ Analyzer.earlyLines (Document.parse t), d ∈ l.earlyRemarks := by
  simp only [Call.diagnostics, Call.outcome, look_recordStart, List.map_filterMap,
    List.mem_filterMap, Option.map_map, Line.earlyRemarks, Option.mem_toList]
  rfl

theorem mem_diagnostics_duplicateUserAgent {doc : Document} {d : Diagnostic} :
    d ∈ (Call.mk Analyzer.duplicateUserAgent (.document doc)).diagnostics ↔
      ∃ l ∈ doc.repeats, d ∈ l.repeatRemarks := by
  simp only [Call.diagnostics, Call.outcome, Analyzer.duplicateUserAgent, Analyzer.ofDocuments,
    List.map_map, List.mem_map, Line.repeatRemarks, List.mem_singleton, eq_comm (a := d)]
  rfl

/-- **The diagnostics of a whole document, line by line.** -/
theorem mem_analyze_builtin {t : Text} {d : Diagnostic} :
    d ∈ (Dispatcher.mk Analyzer.builtin).analyze (Document.parse t) ⟨0, t.length⟩ ↔
      (∃ l ∈ (Document.parse t).lines, d ∈ l.ownRemarks) ∨
        (∃ l ∈ Analyzer.earlyLines (Document.parse t), d ∈ l.earlyRemarks) ∨
        ∃ l ∈ (Document.parse t).repeats, d ∈ l.repeatRemarks := by
  have hdocument : remarks Analyzer.builtin (.document (Document.parse t)) =
      (Call.mk Analyzer.recordStart (.document (Document.parse t))).diagnostics ++
        ((Call.mk Analyzer.duplicateUserAgent (.document (Document.parse t))).diagnostics ++ []) :=
    rfl
  have hrecord : ∀ r : Record, remarks Analyzer.builtin (.record r) = [] := fun _ => rfl
  rw [Dispatcher.analyze_full, Node.descendants_document, List.flatMap_cons, hdocument,
    List.append_nil, List.mem_append, List.mem_append, mem_diagnostics_recordStart,
    mem_diagnostics_duplicateUserAgent, or_comm]
  simp only [List.flatMap_assoc, List.flatMap_cons, hrecord, List.nil_append, List.flatMap_map,
    List.mem_flatMap, Document.lines, Line.ownRemarks]
  grind

end RobotsTxt
