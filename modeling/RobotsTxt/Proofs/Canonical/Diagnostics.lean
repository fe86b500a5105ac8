import RobotsTxt.Proofs.Analyzer.Builtin
import RobotsTxt.Proofs.Canonical.Document

/-!
# The diagnostics of canonical texts

What the builtin analyzers find depends on what a document says and not on how it is written, so the
canonical text of a document has the same problems, in the same order. Only where they are and how
they are worded may change.

* `Diagnostic.label`, `Outcome.labels`: the code and the severity of a diagnostic.
* `Node.Agrees`: two nodes that say the same.
* `Analyzer.Impartial`: an analyzer that finds the same in nodes that say the same.
* `Analyzer.impartial_builtin`: all builtin analyzers do.
* **`analyze_canonicalText`**: the canonical text has the same problems.
-/

namespace RobotsTxt

/-! ## Labels -/

/-- The code and the severity of a diagnostic. -/
def Diagnostic.label (d : Diagnostic) : Text × Severity := (d.code, d.severity)

/-- The labels of what an analyzer found, before it is attributed. -/
def Outcome.labels : Outcome → List (Text × Severity)
  | .reported ds => ds.map Diagnostic.label
  | .failed _ _ => []
  | .broken _ => []

theorem Call.map_label_diagnostics (c : Call) : c.diagnostics.map Diagnostic.label =
    c.outcome.labels.map fun p => (if p.1.isEmpty then c.analyzer.name else p.1, p.2) := by
  unfold Call.diagnostics
  cases c.outcome with
  | reported ds =>
    simp only [Outcome.labels, List.map_map]
    rfl
  | failed ds e => rfl
  | broken e => rfl

/-! ## Nodes that say the same -/

/-- Two nodes that say the same. -/
inductive Node.Agrees : Node → Node → Prop
  | document {d e : Document} (records : List.Forall₂ Record.Agrees d.records e.records) :
    Agrees (.document d) (.document e)
  | record {r s : Record} (lines : r.Agrees s) : Agrees (.record r) (.record s)
  | line {l m : Line} (line : l.Agrees m) : Agrees (.line l) (.line m)

theorem Node.Agrees.kind_eq {n m : Node} (h : n.Agrees m) : n.kind = m.kind := by
  cases h with
  | document => rfl
  | record => rfl
  | line h => exact h.kind

theorem Node.forall₂_descendants {d e : Document}
    (h : List.Forall₂ Record.Agrees d.records e.records) :
    List.Forall₂ Agrees (Node.document d).descendants (Node.document e).descendants := by
  refine .cons (.document h) (List.rel_flatMap h fun r s hrs => ?_)
  exact .cons (.record hrs) (List.rel_map (fun _ _ hlm => .line hlm) hrs)

/-- **An analyzer that finds the same in nodes that say the same.** -/
def Analyzer.Impartial (a : Analyzer) : Prop :=
  ∀ n m, n.Agrees m → a.handles n.kind → (a.look n).labels = (a.look m).labels

theorem Analyzer.map_label_remarks {as : List Analyzer} (has : ∀ a ∈ as, a.Impartial) {n m : Node}
    (h : n.Agrees m) :
    (remarks as n).map Diagnostic.label = (remarks as m).map Diagnostic.label := by
  simp only [remarks, List.map_flatMap, ← h.kind_eq]
  refine List.flatMap_congr fun a ha => ?_
  obtain ⟨ha, hhandles⟩ := List.mem_filter.mp ha
  simp only [Call.map_label_diagnostics, Call.outcome, has a ha n m h hhandles]

/-! ## Lines -/

theorem Token.cases_of_missing_eq {k? j? : Option Token}
    (h : k?.map Token.missing = j?.map Token.missing) :
    (k? = none ∧ j? = none) ∨ ∃ k j, k? = some k ∧ j? = some j ∧ k.missing = j.missing := by
  cases k? with
  | none => exact .inl ⟨rfl, Option.map_eq_none_iff.mp h.symm⟩
  | some k =>
    obtain ⟨j, hj, hmissing⟩ := Option.map_eq_some_iff.mp h.symm
    exact .inr ⟨k, j, rfl, hj, hmissing.symm⟩

namespace Line.Agrees

theorem map_missing_tokens {l m : Line} (h : l.Agrees m) :
    l.tokens.map Token.missing = m.tokens.map Token.missing := by
  simp only [tokens, ← List.reduceOption_map, List.map_cons, List.map_nil, h.name?, h.delimiter?,
    h.value?, h.comment?]

variable {ls ms : List Line}

theorem map_eq {β : Type} {f : Line → β} (hf : ∀ l m : Line, l.Agrees m → f l = f m)
    (h : List.Forall₂ Line.Agrees ls ms) : ls.map f = ms.map f := by
  rw [← List.forall₂_eq_eq_eq]
  exact List.rel_map hf h

theorem filter {p : Line → Bool} (hp : ∀ l m : Line, l.Agrees m → p l = p m)
    (h : List.Forall₂ Line.Agrees ls ms) :
    List.Forall₂ Line.Agrees (ls.filter p) (ms.filter p) :=
  List.rel_filter (fun l m hlm => Bool.eq_iff_iff.mp (hp l m hlm)) h

end Line.Agrees

namespace Analyzer

theorem labels_ifDelimited (l : Line) (check : List Diagnostic) :
    (ifDelimited l check).labels =
      if l.delimiter?.map Token.missing = some false then check.map Diagnostic.label else [] := by
  unfold ifDelimited
  cases l.delimiter? with
  | none => rfl
  | some k =>
    cases hk : k.missing with
    | true => simp [hk, Outcome.labels]
    | false => simp [hk, Outcome.labels]

theorem impartial_ofLines {name : String} {kind : Kind} {look : Line → Outcome}
    (h : ∀ l m : Line, l.Agrees m → (look l).labels = (look m).labels) :
    (ofLines name kind look).Impartial := by
  intro n m hnm _
  cases hnm with
  | document => rfl
  | record => rfl
  | line hlm => exact h _ _ hlm

theorem impartial_ofDocuments {name : String} {look : Document → Outcome}
    (h : ∀ d e : Document, List.Forall₂ Record.Agrees d.records e.records →
      (look d).labels = (look e).labels) : (ofDocuments name look).Impartial := by
  intro n m hnm _
  cases hnm with
  | document hde => exact h _ _ hde
  | record => rfl
  | line => rfl

theorem impartial_missingToken : missingToken.Impartial := by
  have hlabels : ∀ ks : List Token, (ks.filterMap missingDiagnostic?).map Diagnostic.label =
      (ks.map Token.missing).filterMap fun missing =>
        if missing then some ([], Severity.error) else none := by
    intro ks
    rw [List.map_filterMap, List.filterMap_map]
    refine List.filterMap_congr fun k _ => ?_
    unfold missingDiagnostic?
    simp only [Function.comp_apply]
    split <;> rfl
  intro n m hnm hhandles
  cases hnm with
  | document => exact absurd hhandles (show ¬ missingToken.handles .document from by decide)
  | record => exact absurd hhandles (show ¬ missingToken.handles .record from by decide)
  | line hlm =>
    simp only [missingToken, Outcome.labels, Node.tokens, hlabels, hlm.map_missing_tokens]

theorem impartial_unknownDirective : unknownDirective.Impartial := by
  refine impartial_ofLines fun l m h => ?_
  obtain ⟨hl, hm⟩ | ⟨n, n', hl, hm, hname⟩ := Token.cases_of_missing_eq h.name?
  · rw [hl, hm]
  · obtain ⟨hl', hm'⟩ | ⟨d, d', hl', hm', hdelimiter⟩ := Token.cases_of_missing_eq h.delimiter?
    · rw [hl, hm, hl', hm']
      simp only [hname]
    · -- the two names may differ in case, which is not looked at when they are looked up
      have hlower : n.value.lower = n'.value.lower := by
        simpa [Line.directiveName, hl, hm] using h.directiveName
      rw [hl, hm, hl', hm']
      simp only [hname, hdelimiter, Directive.lookup?_congr hlower]
      split <;> rfl

theorem impartial_emptyUserAgent : emptyUserAgent.Impartial := by
  refine impartial_ofLines fun l m h => ?_
  simp only [h.valueText]
  split
  · rfl
  · rw [labels_ifDelimited, labels_ifDelimited, h.delimiter?]
    rfl

theorem impartial_rulePath : rulePath.Impartial := by
  refine impartial_ofLines fun l m h => ?_
  simp only [h.valueText]
  split
  · rfl
  · obtain ⟨hl, hm⟩ | ⟨v, v', hl, hm, -⟩ := Token.cases_of_missing_eq h.value? <;> rw [hl, hm]
    rfl

theorem impartial_sitemapUrl : sitemapUrl.Impartial := by
  refine impartial_ofLines fun l m h => ?_
  rw [labels_ifDelimited, labels_ifDelimited, h.delimiter?, h.valueText]
  congr 1
  split <;> rfl

theorem impartial_crawlDelay : crawlDelay.Impartial := by
  refine impartial_ofLines fun l m h => ?_
  rw [labels_ifDelimited, labels_ifDelimited, h.delimiter?, h.valueText]
  congr 1
  split <;> rfl

/-! ## Documents -/

theorem forall₂_directives {r s : Record} (h : r.Agrees s) :
    List.Forall₂ Line.Agrees r.directives s.directives := by
  refine Line.Agrees.filter (fun l m hlm => ?_) h
  rw [Line.isDirective, Line.isDirective, hlm.kind]

theorem namesAgent_eq {r s : Record} (h : r.Agrees s) : namesAgent r = namesAgent s := by
  have hkinds : r.directives.map Line.kind = s.directives.map Line.kind :=
    Line.Agrees.map_eq (fun _ _ hlm => hlm.kind) (forall₂_directives h)
  have hany : ∀ q : Record, namesAgent q = (q.directives.map Line.kind).any (· == .userAgent) := by
    intro q
    rw [List.any_map]
    rfl
  rw [hany, hany, hkinds]

theorem forall₂_upToAgent {rs ss : List Record} (h : List.Forall₂ Record.Agrees rs ss) :
    List.Forall₂ Record.Agrees (upToAgent rs) (upToAgent ss) := by
  induction h with
  | nil => exact .nil
  | cons hrs _ ih =>
    rw [upToAgent, upToAgent, namesAgent_eq hrs]
    refine .cons hrs ?_
    split
    · exact .nil
    · exact ih

theorem forall₂_earlyLines {d e : Document} (h : List.Forall₂ Record.Agrees d.records e.records) :
    List.Forall₂ Line.Agrees (earlyLines d) (earlyLines e) := by
  refine Line.Agrees.filter (fun l m hlm => ?_)
    (List.rel_filterMap (fun r s hrs => ?_) (forall₂_upToAgent h))
  · rw [needsAgent, needsAgent, hlm.kind]
  · have hdirectives := forall₂_directives hrs
    generalize r.directives = ls at hdirectives ⊢
    generalize s.directives = ms at hdirectives ⊢
    cases hdirectives with
    | nil => exact .none
    | cons hlm _ => exact .some hlm

/-- The diagnostics of lines that come too early, if all of them have a name. -/
def earlyDiagnostics? (ls : List Line) : Option (List Diagnostic) :=
  ls.mapM fun l => l.name?.map (earlyDiagnostic l)

theorem earlyDiagnostics?_cons (l : Line) (ls : List Line) : earlyDiagnostics? (l :: ls) =
    (l.name?.map (earlyDiagnostic l)).bind fun x => (earlyDiagnostics? ls).map (x :: ·) := by
  simp only [earlyDiagnostics?, List.mapM_cons, Option.map_eq_bind]
  rfl

theorem map_label_early {ls ms : List Line} (h : List.Forall₂ Line.Agrees ls ms) :
    (earlyDiagnostics? ls).map (List.map Diagnostic.label) =
      (earlyDiagnostics? ms).map (List.map Diagnostic.label) := by
  induction h with
  | nil => rfl
  | cons hlm _ ih =>
    rw [earlyDiagnostics?_cons, earlyDiagnostics?_cons]
    obtain ⟨hl, hm⟩ | ⟨n, n', hl, hm, -⟩ := Token.cases_of_missing_eq hlm.name? <;> rw [hl, hm]
    · rfl
    · have hcons := congrArg (Option.map (([], Severity.error) :: ·)) ih
      rw [Option.map_map, Option.map_map] at hcons
      simp only [Option.map_some, Option.bind_some, Option.map_map]
      exact hcons

theorem labels_recordStart (d : Document) : (recordStart.look (.document d)).labels =
    ((earlyDiagnostics? (earlyLines d)).map (List.map Diagnostic.label)).getD [] := by
  simp only [recordStart, ofDocuments, earlyDiagnostics?]
  split
  · next found hfound =>
    rw [hfound]
    rfl
  · next hnone =>
    rw [hnone]
    rfl

theorem impartial_recordStart : recordStart.Impartial := by
  refine impartial_ofDocuments fun d e h => ?_
  have hlabels := labels_recordStart d
  rw [map_label_early (forall₂_earlyLines h), ← labels_recordStart e] at hlabels
  exact hlabels

theorem forall₂_repeatedAgents {ls ms : List Line} (h : List.Forall₂ Line.Agrees ls ms)
    (seen : List Text) :
    List.Forall₂ Line.Agrees (repeatedAgents seen ls) (repeatedAgents seen ms) := by
  induction h generalizing seen with
  | nil => exact .nil
  | cons hlm _ ih =>
    simp only [repeatedAgents, hlm.valueText]
    split
    · exact .cons hlm (ih seen)
    · exact ih _

theorem forall₂_agentLines {d e : Document} (h : List.Forall₂ Record.Agrees d.records e.records) :
    List.Forall₂ Line.Agrees (agentLines d) (agentLines e) := by
  have hlines : List.Forall₂ Line.Agrees d.lines e.lines := List.rel_flatMap h fun _ _ hrs => hrs
  refine Line.Agrees.filter (fun l m hlm => ?_) hlines
  rw [hlm.kind, hlm.valueText]

theorem impartial_duplicateUserAgent : duplicateUserAgent.Impartial := by
  refine impartial_ofDocuments fun d e h => ?_
  simp only [Outcome.labels, List.map_map]
  exact Line.Agrees.map_eq (fun _ _ _ => rfl) (forall₂_repeatedAgents (forall₂_agentLines h) [])

theorem impartial_builtin : ∀ a ∈ builtin, a.Impartial := by
  simp only [builtin, List.forall_mem_cons, List.not_mem_nil, false_implies, implies_true, and_true]
  exact ⟨impartial_missingToken, impartial_unknownDirective, impartial_emptyUserAgent,
    impartial_rulePath, impartial_sitemapUrl, impartial_crawlDelay, impartial_recordStart,
    impartial_duplicateUserAgent⟩

end Analyzer

/-! ## Canonical texts -/

/-- Impartial analyzers find the same in documents that say the same. -/
theorem Dispatcher.map_label_analyze {d : Dispatcher} (hd : ∀ a ∈ d.analyzers, a.Impartial)
    {t u : Text}
    (h : List.Forall₂ Record.Agrees (Document.parse t).records (Document.parse u).records) :
    (d.analyze (Document.parse t) ⟨0, t.length⟩).map Diagnostic.label =
      (d.analyze (Document.parse u) ⟨0, u.length⟩).map Diagnostic.label := by
  rw [Dispatcher.analyze_full, Dispatcher.analyze_full, List.map_flatMap, List.map_flatMap,
    ← List.forall₂_eq_eq_eq]
  refine List.rel_flatMap (Node.forall₂_descendants h) fun n m hnm => ?_
  rw [List.forall₂_eq_eq_eq]
  exact Analyzer.map_label_remarks hd hnm

/-- **The canonical text has the same problems**, in the same order and equally serious, unless the
first line starts with the bytes of a byte order mark that the text itself does not start with. -/
theorem analyze_canonicalText {t : Text} (h : byteOrderMark <+: t ∨
    ∀ l ∈ (Document.parse t).firstLine?,
      ¬ byteOrderMark <+: t.slice l.span.start.toNat l.span.stop.toNat) :
    let d : Dispatcher := ⟨Analyzer.builtin⟩
    let doc := Document.parse t
    let canonical := Document.parse (canonicalText t)
    (d.analyze canonical canonical.span).map (fun x => (x.code, x.severity)) =
      (d.analyze doc doc.span).map fun x => (x.code, x.severity) := by
  intro d doc canonical
  obtain ⟨runs, hruns, hw⟩ := t.exists_runs
  have hagrees : List.Forall₂ Record.Agrees doc.records canonical.records :=
    forall₂_records hruns (hasRuns_canonicalText hruns hw (mark_canonicalText h))
  rw [Document.span_parse, Document.span_parse]
  exact (Dispatcher.map_label_analyze Analyzer.impartial_builtin hagrees).symm

/-- A text with six problems, and its canonical text. -/
theorem analyze_canonicalText_respelled :
    let d : Dispatcher := ⟨Analyzer.builtin⟩
    let t := utf8 "\tALLOW :y#\r\r\nUser-agent: \n uSer-agent:a\nUser-agent:  A\nfoo"
    let u := utf8 "Allow: y #\n\nUser-agent:\nUser-agent: a\nUser-agent: A\nfoo\n"
    canonicalText t = u ∧
      (d.analyze (Document.parse u) (Document.parse u).span).map (fun x => (x.code, x.severity)) =
        [(utf8 "record-start", .error), (utf8 "duplicate-user-agent", .warning),
          (utf8 "rule-path", .warning), (utf8 "empty-user-agent", .error),
          (utf8 "missing-token", .error), (utf8 "missing-token", .error)] := by
  intro d t u
  have hcanonical : canonicalText t = u := by decide
  refine ⟨hcanonical, ?_⟩
  rw [← hcanonical]
  exact (analyze_canonicalText (t := t) (.inr (by decide))).trans (by decide)

end RobotsTxt
