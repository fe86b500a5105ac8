import RobotsTxt.Editor.Marker
import RobotsTxt.Proofs.Analyzer.Dispatch
import RobotsTxt.Settings.Basic

/-!
# The reach of the builtin analyzers

Six of the builtin analyzers look at one line at a time, and two at the whole document. Whatever one
of them remarks on, under whatever configuration, is a line or a token of a line.

* `remarks`: what analyzers say about one node; `Dispatcher.analyze_full`.
* `Analyzer.Pinned`: an analyzer that remarks on lines and their tokens only.
* **`Dispatcher.Pinned.exists_markers`**: every remark of pinned analyzers has a range.
-/

namespace RobotsTxt

/-- A diagnostic moved by a distance. -/
def Diagnostic.shift (d : Diagnostic) (δ : Int) : Diagnostic := { d with span := d.span.shift δ }

/-! ## Remarks on one node -/

/-- What some analyzers say about a node. -/
def remarks (as : List Analyzer) (n : Node) : List Diagnostic :=
  (as.filter fun a => a.handles n.kind).flatMap fun a => (Call.mk a n).diagnostics

/-- The lines at or below a node. -/
def Node.lines : Node → List Line
  | .document d => d.lines
  | .record r => r.lines
  | .line l => [l]

theorem mem_remarks {as : List Analyzer} {n : Node} {d : Diagnostic} :
    d ∈ remarks as n ↔ ∃ a ∈ as, a.handles n.kind ∧ d ∈ (Call.mk a n).diagnostics := by
  simp only [remarks, List.mem_flatMap, List.mem_filter, and_assoc]

theorem remarks_cons (a : Analyzer) (as : List Analyzer) (n : Node) :
    remarks (a :: as) n = remarks [a] n ++ remarks as n := by
  simp only [remarks, ← List.flatMap_append, ← List.filter_append, List.singleton_append]

theorem mem_diagnostics {a : Analyzer} {n : Node} {d : Diagnostic} :
    d ∈ (Call.mk a n).diagnostics ↔
      ∃ ds, a.look n = .reported ds ∧ ∃ e ∈ ds, e.attributed a.name = d := by
  simp only [Call.diagnostics, Call.outcome]
  cases a.look n with
  | reported ds => simp
  | failed ds e => simp
  | broken e => simp

theorem Node.touches_full {t : Text} {n : Node}
    (h : n ∈ (Node.document (Document.parse t)).descendants) :
    n.span.touches ⟨0, t.length⟩ = true := by
  have hroot : (Document.parse t).span.touches ⟨0, t.length⟩ = true := by
    simp [Document.span_parse, Span.touches]
  rcases Node.mem_descendants_document h with rfl | ⟨r, hr, rfl | ⟨l, hl, rfl⟩⟩
  · exact hroot
  · obtain ⟨hfirst, hne, hlast⟩ := Document.span_of_mem_records hr
    show Span.touches r.span ⟨0, t.length⟩ = true
    simp only [Span.touches, Bool.and_eq_true, decide_eq_true_eq]
    omega
  · obtain ⟨hfirst, hne, hlast⟩ := Document.span_of_mem_records hr
    have hwf := Document.wellFormed_of_mem_records hr
    have hline := (hwf.lines l hl).nonempty
    obtain ⟨hstart, hstop⟩ := hwf.within l hl
    show Span.touches l.span ⟨0, t.length⟩ = true
    simp only [Span.touches, Bool.and_eq_true, decide_eq_true_eq]
    omega

theorem Dispatcher.analyze_nodes (d : Dispatcher) (doc : Document) (range : Span) :
    d.analyze doc range = (touchedNodes doc range).flatMap (remarks d.analyzers) := by
  simp only [Dispatcher.analyze, Dispatcher.calls, List.flatMap_assoc, List.flatMap_map]
  rfl

/-- **The diagnostics of a whole document**, node by node. -/
theorem Dispatcher.analyze_full (d : Dispatcher) (t : Text) :
    d.analyze (Document.parse t) ⟨0, t.length⟩ =
      (Node.document (Document.parse t)).descendants.flatMap (remarks d.analyzers) := by
  have hall : (Node.document (Document.parse t)).descendants.filter
      (fun n => n.span.touches ⟨0, t.length⟩) = (Node.document (Document.parse t)).descendants :=
    List.filter_eq_self.mpr fun n hn => Node.touches_full hn
  rw [Dispatcher.analyze_nodes, touchedNodes_eq, hall]

/-! ## What is remarked on -/

/-- A span of a line: its own, or that of one of its tokens. -/
def Line.Owns (l : Line) (s : Span) : Prop := s = l.span ∨ ∃ k ∈ l.tokens, s = k.span

/-- **An analyzer that remarks on lines and their tokens only**, and leaves it to the dispatcher to
put its name on a remark. -/
def Analyzer.Pinned (a : Analyzer) : Prop :=
  ∀ n, a.handles n.kind → ∀ ds, a.look n = .reported ds →
    ∀ d ∈ ds, d.code = [] ∧ ∃ l ∈ n.lines, l.Owns d.span

theorem Analyzer.Pinned.code_eq {a : Analyzer} (h : a.Pinned) {n : Node} {d : Diagnostic}
    (hd : d ∈ remarks [a] n) : d.code = a.name := by
  obtain ⟨b, hb, hn, hcall⟩ := mem_remarks.mp hd
  obtain rfl := List.mem_singleton.mp hb
  obtain ⟨ds, hds, e, he, rfl⟩ := mem_diagnostics.mp hcall
  simp [Diagnostic.attributed, (h n hn ds hds e he).1]

theorem Line.owns_name {l : Line} {k : Token} (h : l.name? = some k) : l.Owns k.span :=
  .inr ⟨k, by simp [Line.tokens, h], rfl⟩

theorem Line.owns_value {l : Line} {k : Token} (h : l.value? = some k) : l.Owns k.span :=
  .inr ⟨k, by cases hd : l.delimiter? <;> cases hn : l.name? <;> simp [Line.tokens, h, hd, hn], rfl⟩

theorem Line.owns_valueSpan (l : Line) : l.Owns (Analyzer.valueSpan l) := by
  unfold Analyzer.valueSpan
  cases h : l.value? with
  | none => exact .inl rfl
  | some k => exact Line.owns_value h

theorem Line.Owns.within {l : Line} {s : Span} (h : l.Owns s) (hl : l.WellFormed) :
    s.Within l.span := by
  rcases h with rfl | ⟨k, hk, rfl⟩
  · exact ⟨Int.le_refl _, Int.le_refl _⟩
  · exact hl.tokens k hk

theorem Span.le_of_proper {s : Span} (h : s.Proper) : s.start ≤ s.stop := by
  by_contra hlt
  rw [Span.Proper, Span.checked, if_pos (by omega)] at h
  exact absurd h (by simp)

theorem Node.mem_descendants_line {d : Document} {r : Record} {l : Line} (hr : r ∈ d.records)
    (hl : l ∈ r.lines) : .line l ∈ (Node.document d).descendants := by
  refine List.mem_cons_of_mem _ (List.mem_flatMap.mpr ⟨r, hr, ?_⟩)
  exact List.mem_cons_of_mem _ (List.mem_map_of_mem hl)

theorem Line.Owns.bounds {t : Text} {l : Line} {s : Span} (h : l.Owns s)
    (hl : l ∈ (Document.parse t).lines) : 0 ≤ s.start ∧ s.start ≤ s.stop ∧ s.stop ≤ t.length := by
  obtain ⟨r, hr, hlr⟩ := List.mem_flatMap.mp hl
  obtain ⟨hfirst, -, hlast⟩ := Document.span_of_mem_records hr
  have hwf := Document.wellFormed_of_mem_records hr
  obtain ⟨hstart, hstop⟩ := hwf.within l hlr
  have hline := hwf.lines l hlr
  obtain ⟨hstart', hstop'⟩ := h.within hline
  have hproper : s.start ≤ s.stop := by
    rcases h with rfl | ⟨k, hk, rfl⟩
    · exact Int.le_of_lt hline.nonempty
    · have hmem : k ∈ (Document.parse t).allTokens :=
        List.mem_flatMap.mpr ⟨.line l, Node.mem_descendants_line hr hlr, hk⟩
      exact Span.le_of_proper (Document.reads_tokens t k hmem).proper
  omega

namespace Analyzer

theorem pinned_ofLines {name : String} {kind : Kind} {look : Line → Outcome}
    (h : ∀ l ds, look l = .reported ds → ∀ d ∈ ds, d.code = [] ∧ l.Owns d.span) :
    (ofLines name kind look).Pinned := by
  intro n _ ds hds d hd
  cases n with
  | line l => exact ⟨(h l ds hds d hd).1, l, List.mem_singleton_self l, (h l ds hds d hd).2⟩
  | document doc =>
    obtain rfl : ds = [] := by simpa [ofLines] using hds.symm
    simp at hd
  | record r =>
    obtain rfl : ds = [] := by simpa [ofLines] using hds.symm
    simp at hd

theorem pinned_ofDocuments {name : String} {look : Document → Outcome}
    (h : ∀ doc ds, look doc = .reported ds →
      ∀ d ∈ ds, d.code = [] ∧ ∃ l ∈ doc.lines, l.Owns d.span) :
    (ofDocuments name look).Pinned := by
  intro n _ ds hds d hd
  cases n with
  | document doc => exact h doc ds hds d hd
  | record r =>
    obtain rfl : ds = [] := by simpa [ofDocuments] using hds.symm
    simp at hd
  | line l =>
    obtain rfl : ds = [] := by simpa [ofDocuments] using hds.symm
    simp at hd

theorem ifDelimited_reported {l : Line} {check ds : List Diagnostic}
    (h : ifDelimited l check = .reported ds) : ∀ d ∈ ds, d ∈ check := by
  unfold ifDelimited at h
  split at h
  · split at h
    · obtain rfl := Outcome.reported.inj h
      simp
    · obtain rfl := Outcome.reported.inj h
      exact fun d hd => hd
  · exact absurd h (by simp)

theorem pinned_missingToken : missingToken.Pinned := by
  intro n hn ds hds d hd
  obtain rfl := Outcome.reported.inj hds
  obtain ⟨k, hk, hkd⟩ := List.mem_filterMap.mp hd
  cases n with
  | line l =>
    unfold missingDiagnostic? at hkd
    split at hkd
    · rw [← Option.some_inj.mp hkd]
      exact ⟨rfl, l, List.mem_singleton_self l, .inr ⟨k, hk, rfl⟩⟩
    · simp at hkd
  | document doc => exact absurd hn (show ¬ missingToken.handles .document from by decide)
  | record r => exact absurd hn (show ¬ missingToken.handles .record from by decide)

theorem pinned_unknownDirective : unknownDirective.Pinned := by
  refine pinned_ofLines fun l ds hds d hd => ?_
  split at hds
  · next name delimiter hname _ =>
    split at hds
    · obtain rfl := Outcome.reported.inj hds
      simp at hd
    · obtain rfl := Outcome.reported.inj hds
      rw [List.mem_singleton.mp hd]
      exact ⟨rfl, Line.owns_name hname⟩
  · split at hds
    · obtain rfl := Outcome.reported.inj hds
      simp at hd
    · simp at hds
  · simp at hds

theorem pinned_emptyUserAgent : emptyUserAgent.Pinned := by
  refine pinned_ofLines fun l ds hds d hd => ?_
  split at hds
  · obtain rfl := Outcome.reported.inj hds
    simp at hd
  · rw [List.mem_singleton.mp (ifDelimited_reported hds d hd)]
    exact ⟨rfl, .inl rfl⟩

theorem pinned_rulePath : rulePath.Pinned := by
  refine pinned_ofLines fun l ds hds d hd => ?_
  split at hds
  · obtain rfl := Outcome.reported.inj hds
    simp at hd
  · split at hds
    · next value hvalue =>
      obtain rfl := Outcome.reported.inj hds
      rw [List.mem_singleton.mp hd]
      exact ⟨rfl, Line.owns_value hvalue⟩
    · simp at hds

theorem pinned_sitemapUrl : sitemapUrl.Pinned := by
  refine pinned_ofLines fun l ds hds d hd => ?_
  have hmem := ifDelimited_reported hds d hd
  split at hmem
  · simp at hmem
  · rw [List.mem_singleton.mp hmem]
    exact ⟨rfl, l.owns_valueSpan⟩

theorem pinned_crawlDelay : crawlDelay.Pinned := by
  refine pinned_ofLines fun l ds hds d hd => ?_
  have hmem := ifDelimited_reported hds d hd
  split at hmem
  · simp at hmem
  · rw [List.mem_singleton.mp hmem]
    exact ⟨rfl, l.owns_valueSpan⟩

/-! ## Whole documents -/

theorem upToAgent_sublist (rs : List Record) : (upToAgent rs).Sublist rs := by
  induction rs with
  | nil => exact .slnil
  | cons r rs ih =>
    rw [upToAgent]
    split
    · exact (List.nil_sublist rs).cons_cons r
    · exact ih.cons_cons r

theorem mem_earlyLines {d : Document} {l : Line} : l ∈ earlyLines d ↔
    needsAgent l ∧ ∃ r ∈ upToAgent d.records, r.directives.head? = some l := by
  simp only [earlyLines, List.mem_filter, List.mem_filterMap]
  exact and_comm

theorem mem_lines_of_early {d : Document} {l : Line} (h : l ∈ earlyLines d) : l ∈ d.lines := by
  obtain ⟨-, r, hr, hl⟩ := mem_earlyLines.mp h
  have hmem := (List.mem_filter.mp (List.mem_of_mem_head? hl)).1
  exact Document.mem_lines ((upToAgent_sublist d.records).subset hr) hmem

theorem repeatedAgents_sublist (seen : List Text) (ls : List Line) :
    (repeatedAgents seen ls).Sublist ls := by
  induction ls generalizing seen with
  | nil => exact .slnil
  | cons l ls ih =>
    rw [repeatedAgents]
    split
    · exact (ih seen).cons_cons l
    · exact (ih _).cons l

theorem mem_lines_of_repeated {d : Document} {l : Line}
    (h : l ∈ repeatedAgents [] (agentLines d)) : l ∈ d.lines :=
  (List.mem_filter.mp ((repeatedAgents_sublist [] _).subset h)).1

theorem mapM_eq_some_iff {α β : Type} {f : α → Option β} {xs : List α} {ys : List β} :
    xs.mapM f = some ys ↔ xs.map f = ys.map some := by
  induction xs generalizing ys with
  | nil => cases ys <;> simp
  | cons x xs ih =>
    cases ys with
    | nil => simp [Option.bind_eq_some_iff]
    | cons y ys => simp [Option.bind_eq_some_iff, ih]

theorem pinned_recordStart : recordStart.Pinned := by
  refine pinned_ofDocuments fun doc ds hds d hd => ?_
  split at hds
  · next found hfound =>
    obtain rfl := Outcome.reported.inj hds
    have hsome : some d ∈ (earlyLines doc).map fun l => l.name?.map (earlyDiagnostic l) := by
      rw [mapM_eq_some_iff.mp hfound]
      exact List.mem_map_of_mem hd
    obtain ⟨l, hl, hld⟩ := List.mem_map.mp hsome
    obtain ⟨name, -, rfl⟩ := Option.map_eq_some_iff.mp hld
    exact ⟨rfl, l, mem_lines_of_early hl, .inl rfl⟩
  · simp at hds

theorem pinned_duplicateUserAgent : duplicateUserAgent.Pinned := by
  refine pinned_ofDocuments fun doc ds hds d hd => ?_
  obtain rfl := Outcome.reported.inj hds
  obtain ⟨l, hl, rfl⟩ := List.mem_map.mp hd
  exact ⟨rfl, l, mem_lines_of_repeated hl, l.owns_valueSpan⟩

theorem pinned_builtin : ∀ a ∈ builtin, a.Pinned := by
  simp only [builtin, List.forall_mem_cons, List.not_mem_nil, false_implies, implies_true, and_true]
  exact ⟨pinned_missingToken, pinned_unknownDirective, pinned_emptyUserAgent, pinned_rulePath,
    pinned_sitemapUrl, pinned_crawlDelay, pinned_recordStart, pinned_duplicateUserAgent⟩

theorem Pinned.withSeverity {a : Analyzer} (h : a.Pinned) (severity : Severity) :
    (a.withSeverity severity).Pinned := by
  intro n hn ds hds d hd
  simp only [Analyzer.withSeverity] at hds
  cases hlook : a.look n with
  | reported es =>
    rw [hlook] at hds
    obtain rfl := Outcome.reported.inj hds
    obtain ⟨e, he, rfl⟩ := List.mem_map.mp hd
    exact h n hn es hlook e he
  | failed es e => simp [hlook, Outcome.map] at hds
  | broken e => simp [hlook, Outcome.map] at hds

end Analyzer

/-! ## Every remark has a range -/

/-- A dispatcher of pinned analyzers. -/
def Dispatcher.Pinned (d : Dispatcher) : Prop := ∀ a ∈ d.analyzers, a.Pinned

theorem Config.tune_cases {c : Config} {a b : Analyzer} (h : (c.tune a).toOption.bind id = some b) :
    b = a ∨ ∃ s, b = a.withSeverity s := by
  unfold Config.tune at h
  split at h
  · exact .inl (Option.some_inj.mp h).symm
  · split at h
    · exact absurd h (by simp [Except.toOption])
    · split at h
      · exact .inl (Option.some_inj.mp h).symm
      · split at h
        · next s _ => exact .inr ⟨s, (Option.some_inj.mp h).symm⟩
        · exact absurd h (by simp [Except.toOption])

theorem Config.pinned_apply {c : Config} {as bs : List Analyzer} (h : c.apply as = .ok bs)
    (ha : ∀ a ∈ as, a.Pinned) : ∀ b ∈ bs, b.Pinned := by
  unfold Config.apply at h
  split at h
  · obtain rfl := Except.ok.inj h
    intro b hb
    obtain ⟨a, hmem, hb⟩ := List.mem_filterMap.mp hb
    rcases Config.tune_cases hb with rfl | ⟨s, rfl⟩
    · exact ha b hmem
    · exact (ha a hmem).withSeverity s
  · simp at h

theorem Settings.pinned_dispatcher {s : Settings} {disk : Disk} {d : Dispatcher}
    (h : s.dispatcher disk = .ok d) : d.Pinned := by
  unfold Settings.dispatcher at h
  split at h
  · simp at h
  · split at h
    · simp at h
    · next as has =>
      obtain rfl := Except.ok.inj h
      exact Config.pinned_apply has Analyzer.pinned_builtin

theorem Dispatcher.Pinned.exists_line {d : Dispatcher} (h : d.Pinned) {n : Node} {x : Diagnostic}
    (hx : x ∈ remarks d.analyzers n) : ∃ l ∈ n.lines, l.Owns x.span := by
  obtain ⟨a, ha, hn, hx⟩ := mem_remarks.mp hx
  obtain ⟨ds, hds, e, he, rfl⟩ := mem_diagnostics.mp hx
  exact (h a ha n hn ds hds e he).2

theorem Node.lines_subset {doc : Document} {n : Node} (h : n ∈ (Node.document doc).descendants)
    {l : Line} (hl : l ∈ n.lines) : l ∈ doc.lines := by
  rcases Node.mem_descendants_document h with rfl | ⟨r, hr, rfl | ⟨m, hm, rfl⟩⟩
  · exact hl
  · exact Document.mem_lines hr hl
  · obtain rfl := List.mem_singleton.mp hl
    exact Document.mem_lines hr hm

/-- Whatever pinned analyzers remark on in a range is a line of the document, or part of one. -/
theorem Dispatcher.Pinned.exists_owner {d : Dispatcher} (h : d.Pinned) {t : Text} {range : Span}
    {x : Diagnostic} (hx : x ∈ d.analyze (Document.parse t) range) :
    ∃ l ∈ (Document.parse t).lines, l.Owns x.span := by
  rw [Dispatcher.analyze_nodes, touchedNodes_eq] at hx
  obtain ⟨n, hn, hx⟩ := List.mem_flatMap.mp hx
  obtain ⟨l, hl, hown⟩ := h.exists_line hx
  exact ⟨l, Node.lines_subset (List.mem_filter.mp hn).1 hl, hown⟩

/-- **Every remark of pinned analyzers has a range.** -/
theorem Dispatcher.Pinned.exists_markers {d : Dispatcher} (h : d.Pinned) (t : Text)
    (range : Span) : ∃ ms, markers t (d.analyze (Document.parse t) range) = .ok ms := by
  have hall : ∀ x ∈ d.analyze (Document.parse t) range, ∃ m, Marker.ofDiagnostic t x = .ok m := by
    intro x hx
    obtain ⟨l, hl, hown⟩ := h.exists_owner hx
    obtain ⟨h₀, hle, h₁⟩ := hown.bounds hl
    unfold Marker.ofDiagnostic
    rw [Text.rangeOf_eq h₀ hle h₁]
    exact ⟨_, rfl⟩
  unfold markers
  generalize d.analyze (Document.parse t) range = ds at hall
  induction ds with
  | nil => exact ⟨[], rfl⟩
  | cons x xs ih =>
    obtain ⟨m, hm⟩ := hall x List.mem_cons_self
    obtain ⟨ms, hms⟩ := ih fun y hy => hall y (List.mem_cons_of_mem _ hy)
    refine ⟨m :: ms, ?_⟩
    rw [List.mapM_cons, hm, hms]
    rfl

end RobotsTxt
