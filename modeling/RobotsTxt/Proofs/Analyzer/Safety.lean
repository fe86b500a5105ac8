import RobotsTxt.Proofs.Analyzer.Remarks

/-!
# No text makes an analyzer fail

Each builtin analyzer reads tokens that it takes to be there. That they are depends on the kind of
the line, which the grammar sees to: a line is shown to an analyzer of directives only if it has a
name and a delimiter.

* `Analyzer.Succeeds`: an analyzer that ends normally on every node that it is shown.
* `Analyzer.succeeds_builtin`: all builtin analyzers do.
* **`Document.analyze_safe`**: no text makes an analyzer fail, or a diagnostic one without a range.
-/

namespace RobotsTxt

namespace Analyzer

/-- **An analyzer that ends normally** on every node of a document that it is shown. -/
def Succeeds (a : Analyzer) : Prop :=
  ∀ t : Text, ∀ n ∈ (Node.document (Document.parse t)).descendants, a.handles n.kind →
    ∃ ds, a.look n = .reported ds

/-- An analyzer of directives is never shown a comment. -/
theorem succeeds_ofLines {name : String} {kind : Kind} {look : Line → Outcome}
    (hkind : Kind.commentLine.derives kind = false)
    (h : ∀ (l : Line) (n d : Token), l.name? = some n → l.delimiter? = some d →
      ∃ ds, look l = .reported ds) : (ofLines name kind look).Succeeds := by
  intro t n hn hhandles
  cases n with
  | document doc => exact ⟨[], rfl⟩
  | record r => exact ⟨[], rfl⟩
  | line l =>
    cases Document.shaped_of_mem_lines (Node.lines_subset hn (List.mem_singleton_self l)) with
    | comment hcomment =>
      simp [handles, ofLines, Node.kind, hcomment, hkind] at hhandles
    | directive _ hname hdelimiter => exact h l _ _ hname hdelimiter

theorem exists_ifDelimited {l : Line} {d : Token} (h : l.delimiter? = some d)
    (check : List Diagnostic) : ∃ ds, ifDelimited l check = .reported ds := by
  unfold ifDelimited
  rw [h]
  simp only
  split <;> exact ⟨_, rfl⟩

theorem succeeds_missingToken : missingToken.Succeeds := fun _ _ _ _ => ⟨_, rfl⟩

theorem succeeds_unknownDirective : unknownDirective.Succeeds := by
  refine succeeds_ofLines rfl fun l n d hname hdelimiter => ?_
  rw [hname, hdelimiter]
  simp only
  split <;> exact ⟨_, rfl⟩

theorem succeeds_emptyUserAgent : emptyUserAgent.Succeeds := by
  refine succeeds_ofLines rfl fun l n d _ hdelimiter => ?_
  split
  · exact ⟨_, rfl⟩
  · exact exists_ifDelimited hdelimiter _

theorem succeeds_rulePath : rulePath.Succeeds := by
  refine succeeds_ofLines rfl fun l n d _ _ => ?_
  split
  · exact ⟨_, rfl⟩
  · next hpath =>
    -- an empty path starts like one, so the line has a value
    have hvalue : l.valueText ≠ [] := fun hempty => hpath (by rw [hempty]; rfl)
    obtain ⟨v, hv⟩ := Line.exists_value_of_valueText hvalue
    rw [hv]
    exact ⟨_, rfl⟩

theorem succeeds_sitemapUrl : sitemapUrl.Succeeds :=
  succeeds_ofLines rfl fun _ _ _ _ hdelimiter => exists_ifDelimited hdelimiter _

theorem succeeds_crawlDelay : crawlDelay.Succeeds :=
  succeeds_ofLines rfl fun _ _ _ _ hdelimiter => exists_ifDelimited hdelimiter _

theorem succeeds_recordStart : recordStart.Succeeds := by
  intro t n hn _
  rcases Node.mem_descendants_document hn with rfl | ⟨r, hr, rfl | ⟨l, hl, rfl⟩⟩
  · exact ⟨_, look_recordStart t⟩
  · exact ⟨[], rfl⟩
  · exact ⟨[], rfl⟩

theorem succeeds_duplicateUserAgent : duplicateUserAgent.Succeeds := by
  intro t n _ _
  cases n <;> exact ⟨_, rfl⟩

theorem succeeds_builtin : ∀ a ∈ builtin, a.Succeeds := by
  simp only [builtin, List.forall_mem_cons, List.not_mem_nil, false_implies, implies_true, and_true]
  exact ⟨succeeds_missingToken, succeeds_unknownDirective, succeeds_emptyUserAgent,
    succeeds_rulePath, succeeds_sitemapUrl, succeeds_crawlDelay, succeeds_recordStart,
    succeeds_duplicateUserAgent⟩

end Analyzer

theorem Dispatcher.exists_reported {t : Text} {range : Span} {c : Call}
    (h : c ∈ (Dispatcher.mk Analyzer.builtin).calls (Document.parse t) range) :
    ∃ ds, c.outcome = .reported ds := by
  obtain ⟨n, hn, hc⟩ := List.mem_flatMap.mp h
  obtain ⟨a, ha, rfl⟩ := List.mem_map.mp hc
  obtain ⟨ha, hhandles⟩ := List.mem_filter.mp ha
  rw [touchedNodes_eq] at hn
  exact Analyzer.succeeds_builtin a ha t n (List.mem_filter.mp hn).1 hhandles

/-- **No text makes an analyzer fail.** Every look of a builtin analyzer ends normally, so that
there is no failure; every line has the tokens that the analyzers of its kind read; and every
diagnostic lies inside one line, so that all of them have a range. -/
theorem Document.analyze_safe (t : Text) (range : Span) :
    let d : Dispatcher := ⟨Analyzer.builtin⟩
    (∀ c ∈ d.calls (Document.parse t) range, ∃ ds, c.outcome = .reported ds) ∧
      d.failures (Document.parse t) range = [] ∧
      (∀ l ∈ (Document.parse t).lines, l.Shaped) ∧
      (∀ x ∈ d.analyze (Document.parse t) range,
        ∃ l ∈ (Document.parse t).lines, x.span.Within l.span) ∧
      ∃ ms, markers t (d.analyze (Document.parse t) range) = .ok ms := by
  intro d
  have hpinned : d.Pinned := Analyzer.pinned_builtin
  refine ⟨fun c hc => Dispatcher.exists_reported hc, ?_, fun l hl => shaped_of_mem_lines hl, ?_,
    hpinned.exists_markers t range⟩
  · refine List.filterMap_eq_nil_iff.mpr fun c hc => ?_
    obtain ⟨ds, hds⟩ := Dispatcher.exists_reported hc
    rw [Call.failure?, hds]
  · intro x hx
    obtain ⟨l, hl, hown⟩ := hpinned.exists_owner hx
    exact ⟨l, hl, hown.within (wellFormed_of_mem_lines hl)⟩

/-- A comment, a line without a delimiter and one without a name: the middle one is looked at. -/
theorem Document.analyze_safe_malformed :
    let d : Dispatcher := ⟨Analyzer.builtin⟩
    let doc := Document.parse (utf8 "# a\nallow x\n: y")
    doc.lines.map Line.kind = [.commentLine, .extension, .extension] ∧
      (d.calls doc ⟨6, 7⟩).map (fun c => c.node.kind) =
        [.document, .document, .extension, .extension] ∧
      (d.analyze doc ⟨6, 7⟩).map Diagnostic.span = [⟨11, 11⟩, ⟨11, 11⟩] ∧
      (∀ l ∈ doc.lines, l.Shaped) ∧
      (∀ c ∈ d.calls doc ⟨6, 7⟩, ∃ ds, c.outcome = .reported ds) ∧
      ∀ x ∈ d.analyze doc ⟨6, 7⟩, ∃ l ∈ doc.lines, x.span.Within l.span := by
  obtain ⟨hcalls, -, hshaped, hwithin, -⟩ :=
    Document.analyze_safe (utf8 "# a\nallow x\n: y") ⟨6, 7⟩
  exact ⟨by decide, by decide, by decide, hshaped, hcalls, hwithin⟩

end RobotsTxt
