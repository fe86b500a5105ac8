import RobotsTxt.Proofs.Analyzer.Builtin
import RobotsTxt.Proofs.Document.Relocation

/-!
# Remarks elsewhere

The builtin analyzers hand on the spans of what they remark on, and look at them in no other way. So
they say the same of a document that has other spans, at these.

* `Analyzer.Relocatable`: an analyzer that says the same at other places.
* `Analyzer.early_relocate`, `Analyzer.repeatedAgents_relocate`: the lines that the two analyzers of
  whole documents remark on.
* **`Analyzer.relocatable_builtin`**: all builtin analyzers are so.
* `flatMap_remarks_relocate`: what they say of all nodes of a document.
-/

namespace RobotsTxt

/-- A diagnostic with another span. -/
def Diagnostic.relocate (d : Diagnostic) (f : Span → Span) : Diagnostic :=
  { d with span := f d.span }

/-- **An analyzer that says the same at other places.** -/
def Analyzer.Relocatable (a : Analyzer) : Prop :=
  ∀ (n : Node) (f : Span → Span), a.look (n.relocate f) = (a.look n).map (·.relocate f)

namespace Analyzer

variable (f : Span → Span)

/-! ## Lines -/

theorem relocatable_ofLines {name : String} {kind : Kind} {look : Line → Outcome}
    (h : ∀ l f, look (l.relocate f) = (look l).map (·.relocate f)) :
    (ofLines name kind look).Relocatable := by
  intro n f
  cases n with
  | document d => rfl
  | record r => rfl
  | line l => exact h l f

theorem valueSpan_relocate (l : Line) : valueSpan (l.relocate f) = f (valueSpan l) := by
  unfold valueSpan Line.relocate
  cases l.value? <;> rfl

theorem ifDelimited_relocate (l : Line) (check : List Diagnostic) :
    ifDelimited (l.relocate f) (check.map (·.relocate f)) =
      (ifDelimited l check).map (·.relocate f) := by
  unfold ifDelimited Line.relocate
  cases l.delimiter? with
  | none => rfl
  | some k =>
    show (if k.missing then _ else _) = Outcome.map _ (if k.missing then _ else _)
    split <;> rfl

theorem relocatable_missingToken : missingToken.Relocatable := by
  intro n f
  have hmissing : ∀ k : Token, missingDiagnostic? (k.relocate f) =
      (missingDiagnostic? k).map (·.relocate f) := by
    intro k
    unfold missingDiagnostic?
    show (if k.missing then _ else _) = Option.map _ (if k.missing then _ else _)
    split <;> rfl
  show Outcome.reported ((n.relocate f).tokens.filterMap missingDiagnostic?) = .reported _
  rw [Node.tokens_relocate, List.filterMap_map, List.map_filterMap]
  exact congrArg Outcome.reported (List.filterMap_congr fun k _ => hmissing k)

theorem relocatable_unknownDirective : unknownDirective.Relocatable := by
  refine relocatable_ofLines fun l f => ?_
  simp only [Line.relocate]
  cases l.name? with
  | none => rfl
  | some k =>
    cases l.delimiter? with
    | none =>
      show (if k.missing then _ else _) = Outcome.map _ (if k.missing then _ else _)
      split <;> rfl
    | some m =>
      show (if k.missing || m.missing || (Directive.lookup? k.value).isSome then _ else _) =
        Outcome.map _
          (if k.missing || m.missing || (Directive.lookup? k.value).isSome then _ else _)
      split <;> rfl

theorem relocatable_emptyUserAgent : emptyUserAgent.Relocatable := by
  refine relocatable_ofLines fun l f => ?_
  simp only [Line.valueText_relocate]
  split
  · rfl
  · rw [← ifDelimited_relocate]
    rfl

theorem relocatable_rulePath : rulePath.Relocatable := by
  refine relocatable_ofLines fun l f => ?_
  simp only [Line.valueText_relocate]
  split
  · rfl
  · unfold Line.relocate
    cases l.value? <;> rfl

theorem relocatable_sitemapUrl : sitemapUrl.Relocatable := by
  refine relocatable_ofLines fun l f => ?_
  simp only [Line.valueText_relocate, valueSpan_relocate]
  rw [← ifDelimited_relocate]
  split <;> rfl

theorem relocatable_crawlDelay : crawlDelay.Relocatable := by
  refine relocatable_ofLines fun l f => ?_
  simp only [Line.valueText_relocate, valueSpan_relocate]
  rw [← ifDelimited_relocate]
  split <;> rfl

/-! ## Documents -/

theorem relocatable_ofDocuments {name : String} {look : Document → Outcome}
    (h : ∀ d f, look (d.relocate f) = (look d).map (·.relocate f)) :
    (ofDocuments name look).Relocatable := by
  intro n f
  cases n with
  | document d => exact h d f
  | record r => rfl
  | line l => rfl

theorem namesAgent_relocate (r : Record) : namesAgent (r.relocate f) = namesAgent r := by
  simp only [namesAgent, Record.directives_relocate, List.any_map]
  rfl

theorem upToAgent_relocate (rs : List Record) :
    upToAgent (rs.map (·.relocate f)) = (upToAgent rs).map (·.relocate f) := by
  induction rs with
  | nil => rfl
  | cons r rs ih =>
    rw [List.map_cons, upToAgent, upToAgent, namesAgent_relocate, ih, List.map_cons]
    split <;> rfl

theorem early_relocate (rs : List Record) :
    ((upToAgent (rs.map (·.relocate f))).filterMap fun r => r.directives.head?).filter needsAgent =
      (((upToAgent rs).filterMap fun r => r.directives.head?).filter needsAgent).map
        (·.relocate f) := by
  have hhead : ∀ r : Record,
      (r.relocate f).directives.head? = r.directives.head?.map (·.relocate f) := by
    intro r
    rw [Record.directives_relocate, List.head?_map]
  simp only [upToAgent_relocate, List.filterMap_map, Function.comp_def, hhead,
    ← List.map_filterMap, List.filter_map]
  rfl

theorem mapM_map {α β : Type} {look : α → Option β} {g : α → α} {h : β → β}
    (hlook : ∀ x, look (g x) = (look x).map h) (xs : List α) :
    (xs.map g).mapM look = (xs.mapM look).map (List.map h) := by
  induction xs with
  | nil => rfl
  | cons x xs ih =>
    rw [List.map_cons, List.mapM_cons, List.mapM_cons, hlook, ih]
    cases look x with
    | none => rfl
    | some y => cases xs.mapM look <;> rfl

theorem relocatable_recordStart : recordStart.Relocatable := by
  refine relocatable_ofDocuments fun d f => ?_
  have hname : ∀ l : Line, (l.relocate f).name?.map (earlyDiagnostic (l.relocate f)) =
      (l.name?.map (earlyDiagnostic l)).map (·.relocate f) := by
    intro l
    simp only [Line.relocate]
    cases l.name? <;> rfl
  have hearly : earlyLines (d.relocate f) = (earlyLines d).map (·.relocate f) :=
    early_relocate f d.records
  rw [hearly, mapM_map hname]
  cases (earlyLines d).mapM fun l => l.name?.map (earlyDiagnostic l) <;> rfl

theorem naming_relocate (ls : List Line) :
    (ls.map (·.relocate f)).filter (fun l => l.kind == .userAgent && !l.valueText.isEmpty) =
      (ls.filter fun l => l.kind == .userAgent && !l.valueText.isEmpty).map (·.relocate f) := by
  rw [List.filter_map]
  congr 1
  refine List.filter_congr fun l _ => ?_
  simp

theorem repeatedAgents_relocate (seen : List Text) (ls : List Line) :
    repeatedAgents seen (ls.map (·.relocate f)) = (repeatedAgents seen ls).map (·.relocate f) := by
  induction ls generalizing seen with
  | nil => rfl
  | cons l ls ih =>
    simp only [List.map_cons, repeatedAgents, Line.valueText_relocate, ih]
    split <;> rfl

theorem relocatable_duplicateUserAgent : duplicateUserAgent.Relocatable := by
  refine relocatable_ofDocuments fun d f => ?_
  have hagents : agentLines (d.relocate f) = (agentLines d).map (·.relocate f) := by
    rw [agentLines, Document.lines_relocate]
    exact naming_relocate f d.lines
  rw [hagents, repeatedAgents_relocate, Outcome.map, List.map_map, List.map_map]
  refine congrArg Outcome.reported (List.map_congr_left fun l _ => ?_)
  simp only [Function.comp_apply, valueSpan_relocate, Line.valueText_relocate]
  rfl

/-- **All builtin analyzers say the same at other places.** -/
theorem relocatable_builtin : ∀ a ∈ builtin, a.Relocatable := by
  simp only [builtin, List.forall_mem_cons, List.not_mem_nil, false_implies, implies_true, and_true]
  exact ⟨relocatable_missingToken, relocatable_unknownDirective, relocatable_emptyUserAgent,
    relocatable_rulePath, relocatable_sitemapUrl, relocatable_crawlDelay, relocatable_recordStart,
    relocatable_duplicateUserAgent⟩

/-! ## Remarks on nodes -/

theorem Relocatable.diagnostics_relocate {a : Analyzer} (h : a.Relocatable) (n : Node) :
    (Call.mk a (n.relocate f)).diagnostics = (Call.mk a n).diagnostics.map (·.relocate f) := by
  simp only [Call.diagnostics, Call.outcome, h n f]
  cases a.look n with
  | reported ds =>
    simp only [Outcome.map, List.map_map]
    rfl
  | failed ds e => rfl
  | broken e => rfl

theorem remarks_relocate {as : List Analyzer} (h : ∀ a ∈ as, a.Relocatable) (n : Node) :
    remarks as (n.relocate f) = (remarks as n).map (·.relocate f) := by
  simp only [remarks, Node.kind_relocate, List.map_flatMap]
  refine List.flatMap_congr fun a ha => ?_
  exact (h a (List.mem_filter.mp ha).1).diagnostics_relocate f n

theorem flatMap_remarks_relocate {as : List Analyzer} (h : ∀ a ∈ as, a.Relocatable)
    (d : Document) :
    (Node.document (d.relocate f)).descendants.flatMap (remarks as) =
      ((Node.document d).descendants.flatMap (remarks as)).map (·.relocate f) := by
  simp only [Node.descendants_relocate, List.flatMap_map, List.map_flatMap,
    remarks_relocate f h]

end Analyzer

end RobotsTxt
