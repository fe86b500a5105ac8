import RobotsTxt.Proofs.Analyzer.Relocation
import RobotsTxt.Proofs.Canonical.Runs
import RobotsTxt.Proofs.Document.Breaks

/-!
# Line breaks do not matter

Two texts whose lines hold the same read alike: they have the same document up to its places, the
same is said of them, and they have the same canonical text. So it does not matter how the line
breaks of a text are written, as long as every line feed is written as the same other break and no
carriage return stands in the text before.

* `Text.ReadsAs`: two texts that read alike.
* **`Text.readsAs_of_contents`**: texts whose lines hold the same.
* **`Text.withBreak_readsAs`**: a text with another break for every line feed.
-/

namespace RobotsTxt

/-- A diagnostic without its place. -/
def Diagnostic.unplaced (d : Diagnostic) : Diagnostic := d.relocate Span.forget

/-- **Two texts that read alike.** They have the same document and the same diagnostics of the
builtin analyzers, both but for the places, and the same canonical text. -/
structure Text.ReadsAs (t u : Text) : Prop where
  document : (Document.parse t).unplaced = (Document.parse u).unplaced
  diagnostics :
    ((Dispatcher.mk Analyzer.builtin).analyze (Document.parse t) (Document.parse t).span).map
        Diagnostic.unplaced =
      ((Dispatcher.mk Analyzer.builtin).analyze (Document.parse u) (Document.parse u).span).map
        Diagnostic.unplaced
  canonical : canonicalText t = canonicalText u

/-! ## Lines that hold the same -/

theorem Dispatcher.analyze_unplaced (t : Text) :
    ((Dispatcher.mk Analyzer.builtin).analyze (Document.parse t) (Document.parse t).span).map
        Diagnostic.unplaced =
      (Node.document (Document.parse t).unplaced).descendants.flatMap
        (remarks Analyzer.builtin) := by
  rw [Document.span_parse, Dispatcher.analyze_full, Document.unplaced,
    Analyzer.flatMap_remarks_relocate Span.forget Analyzer.relocatable_builtin]
  rfl

/-- What a physical line holds does not depend on its break. -/
theorem forall₂_holds_congr {ls ms : List RawLine} {as : List (Option Layout)}
    (hc : ls.map RawLine.content = ms.map RawLine.content)
    (h : List.Forall₂ RawLine.Holds ls as) : List.Forall₂ RawLine.Holds ms as := by
  have hiff : ∀ ls : List RawLine, List.Forall₂ RawLine.Holds ls as ↔
      List.Forall₂ (fun c a? => (RawLine.mk c []).Holds a?) (ls.map RawLine.content) as := by
    intro ls
    rw [List.forall₂_map_left_iff]
    refine iff_of_eq (congrArg (List.Forall₂ · ls as) ?_)
    funext r a?
    cases a? <;> rfl
  rwa [hiff ms, ← hc, ← hiff ls]

theorem canonicalText_congr {t u : Text} (hm : t.mark = u.mark)
    (hc : (splitLines t.body).map RawLine.content = (splitLines u.body).map RawLine.content) :
    canonicalText t = canonicalText u := by
  obtain ⟨as, has⟩ := exists_forall₂_holds fun r hr => noBreak_of_mem_splitLines (t := t.body) hr
  have ht : t.HasRuns (groups as) := Text.hasRuns_of_holds has
  have hu : u.HasRuns (groups as) := Text.hasRuns_of_holds (forall₂_holds_congr hc has)
  rw [canonicalText_eq ht, canonicalText_eq hu, hm]

namespace Text

/-- **Texts whose lines hold the same read alike.** -/
theorem readsAs_of_contents {t u : Text} (hm : t.mark = u.mark)
    (hc : (splitLines t.body).map RawLine.content = (splitLines u.body).map RawLine.content) :
    t.ReadsAs u := by
  have hdocument := Document.unplaced_parse_congr hm hc
  refine ⟨hdocument, ?_, canonicalText_congr hm hc⟩
  rw [Dispatcher.analyze_unplaced, Dispatcher.analyze_unplaced, hdocument]

/-! ## Another break for every line feed -/

/-- **A text reads the same with another break for every line feed**, if it has no carriage returns.
-/
theorem withBreak_readsAs {t e : Text} (ht : 0x0D ∉ t) (he : IsEnding e) :
    (t.withBreak e).ReadsAs t :=
  readsAs_of_contents (mark_withBreak he t) (contents_withBreak ht he)

theorem withBreak_readsAs_paired :
    (utf8 "User-agent: *\nallow /\n\nfoo: #\n").withBreak (utf8 "\r\n") =
        utf8 "User-agent: *\r\nallow /\r\n\r\nfoo: #\r\n" ∧
      (utf8 "User-agent: *\r\nallow /\r\n\r\nfoo: #\r\n").ReadsAs
        (utf8 "User-agent: *\nallow /\n\nfoo: #\n") := by
  have hbreak : (utf8 "User-agent: *\nallow /\n\nfoo: #\n").withBreak (utf8 "\r\n") =
      utf8 "User-agent: *\r\nallow /\r\n\r\nfoo: #\r\n" := by decide
  refine ⟨hbreak, ?_⟩
  rw [← hbreak]
  exact withBreak_readsAs (by decide) (.inr (.inr rfl))

end Text

end RobotsTxt
