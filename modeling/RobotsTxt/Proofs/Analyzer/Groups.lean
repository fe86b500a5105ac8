import Mathlib.Data.Finset.Card
import RobotsTxt.Proofs.Analyzer.Agents
import RobotsTxt.Proofs.Document.Breaks

/-!
# Groups and the order of lines

Two analyzers look at what comes before a line. One reports rules that come before any user-agent
line, and of each record it looks at the first directive only. The other one reports an agent that
an earlier line has named, in the same record or in another one; how many it reports depends on
which agents the lines name, and not on the order of the records.

* `Line.Before`: a line that starts before another one; `mem_front_iff`: the lines before a line.
* `Document.firstDirectives`, `Document.Ungrouped`: the lines that open the records, and the lines
  that need an agent and have none before them.
* **`Analyzer.recordStart_exact`**: which lines come too early; `Analyzer.recordStart_silent`: not
  all lines that have no agent before them.
* `Document.Permuted`: the same records in another order, at whatever places.
* **`Analyzer.duplicateUserAgent_exact`**: which agents are named again, and how many.
-/

namespace RobotsTxt

/-! ## Lines before a line -/

/-- A line that starts before another one. -/
def Line.Before (e l : Line) : Prop := e.span.start < l.span.start

instance (e l : Line) : Decidable (e.Before l) :=
  inferInstanceAs (Decidable (e.span.start < l.span.start))

variable {ls front back : List Line} {e l : Line}

theorem mem_front_iff (hne : ∀ m ∈ ls, m.span.start < m.span.stop)
    (h : ls.Pairwise fun l m => l.span.stop < m.span.start) (hcut : ls = front ++ l :: back) :
    e ∈ front ↔ e ∈ ls ∧ e.Before l := by
  subst hcut
  obtain ⟨-, hback, hfront⟩ := List.pairwise_append.mp h
  constructor
  · intro he
    have hpos := hne e (List.mem_append_left _ he)
    have hlt := hfront e he l List.mem_cons_self
    exact ⟨List.mem_append_left _ he, Int.lt_trans hpos hlt⟩
  · rintro ⟨hmem, hbefore⟩
    have hl := hne l (by simp)
    unfold Line.Before at hbefore
    rcases List.mem_append.mp hmem with he | he
    · exact he
    · rcases List.mem_cons.mp he with rfl | he
      · omega
      · have hlt := (List.pairwise_cons.mp hback).1 e he
        omega

/-! ## Lines without a group -/

namespace Document

/-- The first directive of each record that has one. -/
def firstDirectives (d : Document) : List Line := d.records.filterMap fun r => r.directives.head?

/-- **A rule or a crawl delay with no user-agent line before it.** -/
structure Ungrouped (d : Document) (l : Line) : Prop where
  mem : l ∈ d.lines
  needs : l.kind = .rule ∨ l.kind = .crawlDelay
  first : ∀ e ∈ d.lines, e.Before l → e.kind ≠ .userAgent

end Document

namespace Analyzer

theorem namesAgent_iff {r : Record} : namesAgent r ↔ ∃ e ∈ r.lines, e.kind = .userAgent := by
  simp only [namesAgent, Record.directives, List.any_filter, List.any_eq_true, Bool.and_eq_true,
    beq_iff_eq]
  refine exists_congr fun e => and_congr_right fun _ => and_iff_right_of_imp fun hkind => ?_
  rw [Line.isDirective, hkind]
  rfl

theorem needsAgent_iff : needsAgent l ↔ l.kind = .rule ∨ l.kind = .crawlDelay := by
  simp [needsAgent]

/-- The records up to the first one that names an agent are those with no such record in front. -/
theorem mem_upToAgent_iff {rs : List Record} {r : Record} : r ∈ upToAgent rs ↔
    ∃ front back, rs = front ++ r :: back ∧ ∀ s ∈ front, ¬ namesAgent s := by
  constructor
  · intro h
    induction rs with
    | nil => simp [upToAgent] at h
    | cons s rs ih =>
      rw [upToAgent] at h
      rcases List.mem_cons.mp h with rfl | h
      · exact ⟨[], rs, rfl, by simp⟩
      · split at h
        · simp at h
        · next hs =>
          obtain ⟨front, back, rfl, hfront⟩ := ih h
          exact ⟨s :: front, back, rfl, List.forall_mem_cons.mpr ⟨hs, hfront⟩⟩
  · rintro ⟨front, back, rfl, hfront⟩
    have hany : ¬ front.any namesAgent := by simpa using hfront
    rw [upToAgent_append, if_neg hany, upToAgent]
    exact List.mem_append_right _ List.mem_cons_self

/-- The lines before the first directive of a record are those of the records in front of it, and
comments. -/
theorem before_first {t : Text} {front back : List Record} {r : Record}
    (hcut : (Document.parse t).records = front ++ r :: back) (hl : r.directives.head? = some l) :
    ∃ comments, (∀ c ∈ comments, c.kind = .commentLine) ∧
      ∀ e, e ∈ (Document.parse t).lines ∧ e.Before l ↔
        e ∈ front.flatMap Record.lines ++ comments := by
  rw [Record.directives, List.head?_filter, List.find?_eq_some_iff_append] at hl
  obtain ⟨-, comments, rest, hlines, hcomments⟩ := hl
  have hsplit : (Document.parse t).lines = (front.flatMap Record.lines ++ comments) ++
      l :: (rest ++ back.flatMap Record.lines) := by
    simp [Document.lines, hcut, hlines]
  exact ⟨comments, fun c hc => by simpa [Line.isDirective] using hcomments c hc, fun e =>
    (mem_front_iff (fun m hm => (Document.wellFormed_of_mem_lines hm).nonempty)
      (Document.pairwise_lines_parse t) hsplit).symm⟩

/-- **Which lines come too early**: the first directives of records that have no group. -/
theorem mem_earlyLines_parse {t : Text} : l ∈ earlyLines (Document.parse t) ↔
    l ∈ (Document.parse t).firstDirectives ∧ (Document.parse t).Ungrouped l := by
  rw [mem_earlyLines, needsAgent_iff, Document.firstDirectives, List.mem_filterMap]
  constructor
  · rintro ⟨hneeds, r, hr, hl⟩
    obtain ⟨front, back, hcut, hfront⟩ := mem_upToAgent_iff.mp hr
    have hmem : r ∈ (Document.parse t).records := (upToAgent_sublist _).subset hr
    have hlr : l ∈ r.lines := (List.mem_filter.mp (List.mem_of_mem_head? hl)).1
    obtain ⟨comments, hcomments, hbefore⟩ := before_first hcut hl
    refine ⟨⟨r, hmem, hl⟩, Document.mem_lines hmem hlr, hneeds, fun e he hel hkind => ?_⟩
    rcases List.mem_append.mp ((hbefore e).mp ⟨he, hel⟩) with he | he
    · obtain ⟨s, hs, hes⟩ := List.mem_flatMap.mp he
      exact hfront s hs (namesAgent_iff.mpr ⟨e, hes, hkind⟩)
    · simp [hcomments e he] at hkind
  · rintro ⟨⟨r, hr, hl⟩, hungrouped⟩
    obtain ⟨front, back, hcut⟩ := List.append_of_mem hr
    obtain ⟨comments, -, hbefore⟩ := before_first hcut hl
    refine ⟨hungrouped.needs, r, ?_, hl⟩
    refine mem_upToAgent_iff.mpr ⟨front, back, hcut, fun s hs hnames => ?_⟩
    obtain ⟨e, he, hkind⟩ := namesAgent_iff.mp hnames
    obtain ⟨hmem, hel⟩ :=
      (hbefore e).mpr (List.mem_append_left _ (List.mem_flatMap.mpr ⟨s, hs, he⟩))
    exact hungrouped.first e hmem hel hkind

theorem firstDirectives_sublist (rs : List Record) :
    (rs.filterMap fun r => r.directives.head?).Sublist (rs.flatMap Record.lines) := by
  induction rs with
  | nil => exact .slnil
  | cons r rs ih =>
    rw [List.filterMap_cons, List.flatMap_cons]
    cases hl : r.directives.head? with
    | none => exact ih.trans (List.sublist_append_right _ _)
    | some l =>
      have hmem : l ∈ r.lines := (List.mem_filter.mp (List.mem_of_mem_head? hl)).1
      exact (List.singleton_sublist.mpr hmem).append ih

theorem earlyLines_sublist (d : Document) : (earlyLines d).Sublist d.lines :=
  List.filter_sublist.trans
    (((upToAgent_sublist d.records).filterMap _).trans (firstDirectives_sublist d.records))

theorem forall₂_filterMap {α β : Type} {R : α → β → Prop} {f : α → Option β} {xs : List α}
    (h : ∀ x ∈ xs, ∃ y, f x = some y ∧ R x y) : List.Forall₂ R xs (xs.filterMap f) := by
  induction xs with
  | nil => exact .nil
  | cons x xs ih =>
    obtain ⟨⟨y, hy, hR⟩, hxs⟩ := List.forall_mem_cons.mp h
    rw [List.filterMap_cons_some hy]
    exact .cons hR (ih hxs)

/-- A report that a line has no group. -/
structure ReportsEarly (l : Line) (x : Diagnostic) : Prop where
  span : x.span = l.span
  severity : x.severity = .error
  message : ∃ k ∈ l.name?, x.message = k.value ++ utf8 " must follow a User-agent line"

/-- **Rules before any group.** There is a diagnostic exactly if the first directive of some record
is a rule or a crawl delay with no user-agent line before it. All such lines are reported, and no
others, in order and each of them once. -/
theorem recordStart_exact (t : Text) :
    ∃ ds lines, recordStart.look (.document (Document.parse t)) = .reported ds ∧
      (ds ≠ [] ↔ ∃ l ∈ (Document.parse t).firstDirectives, (Document.parse t).Ungrouped l) ∧
      List.Forall₂ ReportsEarly lines ds ∧ lines.Sublist (Document.parse t).lines ∧
      ∀ l, l ∈ lines ↔
        l ∈ (Document.parse t).firstDirectives ∧ (Document.parse t).Ungrouped l := by
  have hreports : List.Forall₂ ReportsEarly (earlyLines (Document.parse t))
      ((earlyLines (Document.parse t)).filterMap fun l => l.name?.map (earlyDiagnostic l)) := by
    refine forall₂_filterMap fun l hl => ?_
    obtain ⟨k, hk⟩ := exists_name_of_early hl
    exact ⟨earlyDiagnostic l k, by rw [hk, Option.map_some], rfl, rfl, k, hk, rfl⟩
  refine ⟨_, _, look_recordStart t, ?_, hreports, earlyLines_sublist _,
    fun l => mem_earlyLines_parse⟩
  rw [← List.length_pos_iff, ← hreports.length_eq, List.length_pos_iff_exists_mem]
  simp only [mem_earlyLines_parse]

/-- A rule behind a sitemap in the same record has no user-agent line before it, and nothing is
reported. -/
theorem recordStart_silent :
    let d := Document.parse (utf8 "sitemap: http://a/b\nallow: /")
    recordStart.look (.document d) = .reported [] ∧ ∃ l, d.Ungrouped l := by
  refine ⟨by decide +kernel, _, ⟨List.mem_of_getElem? (i := 1) rfl, .inl (by decide), by decide⟩⟩

end Analyzer

/-! ## Agents that are named again -/

namespace Analyzer

theorem mem_repeatedAgents_of_ordered {ls : List Line}
    (hne : ∀ m ∈ ls, m.span.start < m.span.stop)
    (h : ls.Pairwise fun l m => l.span.stop < m.span.start) :
    l ∈ repeatedAgents [] ls ↔ l ∈ ls ∧ ∃ e ∈ ls, e.Before l ∧ agent e = agent l := by
  have hnodup := nodup_of_ordered hne h
  by_cases hl : l ∈ ls
  · obtain ⟨front, back, rfl⟩ := List.append_of_mem hl
    rw [mem_repeatedAgents_iff hnodup, List.append_nil, List.mem_map, and_iff_right hl]
    simp only [mem_front_iff hne h rfl, and_assoc]
  · exact ⟨fun hr => absurd ((repeatedAgents_sublist _ _).subset hr) hl, fun hr => absurd hr.1 hl⟩

/-- Every line names an agent again, or is the first one to name an agent that was not seen. -/
theorem length_repeatedAgents (seen : List Text) (ls : List Line) :
    (repeatedAgents seen ls).length +
      ((ls.map agent).toFinset \ seen.toFinset).card = ls.length := by
  induction ls generalizing seen with
  | nil => simp [repeatedAgents]
  | cons l ls ih =>
    rw [repeatedAgents_cons, List.map_cons, List.toFinset_cons, List.length_cons]
    by_cases hmem : agent l ∈ seen
    · rw [if_pos hmem, List.length_cons, Finset.insert_sdiff_of_mem _ (List.mem_toFinset.mpr hmem),
        ← ih seen]
      omega
    · have hinsert : insert (agent l) (ls.map agent).toFinset \ seen.toFinset =
          insert (agent l) ((ls.map agent).toFinset \ (agent l :: seen).toFinset) := by
        ext a
        simp only [Finset.mem_sdiff, Finset.mem_insert, List.mem_toFinset, List.mem_cons]
        by_cases ha : a = agent l
        · simp [ha, hmem]
        · simp [ha]
      rw [if_neg hmem, hinsert, Finset.card_insert_of_notMem (by simp), ← ih (agent l :: seen)]
      omega

theorem length_repeats (d : Document) : d.repeats.length +
    ((naming d.lines).map agent).toFinset.card = (naming d.lines).length := by
  have h := length_repeatedAgents [] (naming d.lines)
  rwa [List.toFinset_nil, Finset.sdiff_empty] at h

end Analyzer

/-- **The same records in another order**, at whatever places they are. -/
def Document.Permuted (d e : Document) : Prop := e.unplaced.records.Perm d.unplaced.records

namespace Analyzer

theorem agents_unplaced (d : Document) :
    (naming d.unplaced.lines).map agent = (naming d.lines).map agent := by
  rw [Document.unplaced, Document.lines_relocate, naming, naming_relocate, List.map_map]
  exact List.map_congr_left fun l _ => by
    rw [Function.comp_apply, agent, agent, Line.valueText_relocate]

theorem agents_perm {d e : Document} (h : d.Permuted e) :
    ((naming e.lines).map agent).Perm ((naming d.lines).map agent) := by
  rw [← agents_unplaced d, ← agents_unplaced e]
  exact ((h.flatMap_right Record.lines).filter _).map agent

theorem length_repeats_permuted {d e : Document} (h : d.Permuted e) :
    e.repeats.length = d.repeats.length := by
  have hperm := agents_perm h
  have hlength := hperm.length_eq
  rw [List.length_map, List.length_map] at hlength
  have hd := length_repeats d
  have he := length_repeats e
  rw [List.toFinset_eq_of_perm _ _ hperm, hlength] at he
  omega

/-- A report that a line names an agent again. -/
structure ReportsRepeat (l : Line) (x : Diagnostic) : Prop where
  span : ∃ v ∈ l.value?, x.span = v.span
  severity : x.severity = .warning
  message : x.message =
    utf8 "user agent " ++ l.valueText.quote ++ utf8 " is already matched by an earlier group"

theorem reports_repeats (d : Document) :
    ∃ ds, duplicateUserAgent.look (.document d) = .reported ds ∧
      List.Forall₂ ReportsRepeat d.repeats ds := by
  refine ⟨_, rfl, List.forall₂_map_right_iff.mpr (List.forall₂_same.mpr fun l hl => ?_)⟩
  have hagent := (List.mem_filter.mp ((repeatedAgents_sublist _ _).subset hl)).2
  simp only [Bool.and_eq_true, Bool.not_eq_true', List.isEmpty_eq_false_iff] at hagent
  obtain ⟨v, hv⟩ := Line.exists_value_of_valueText hagent.2
  exact ⟨⟨v, hv, by simp [valueSpan, hv]⟩, rfl, rfl⟩

/-- **Agents that are named again.** Those lines are reported, and no others, that name an agent
which an earlier line has named, up to lower case, in order and each of them once. There are as many
of them as lines that name an agent, less the different agents, so that their number does not depend
on the order of the records. -/
theorem duplicateUserAgent_exact (t : Text) :
    let agents := naming (Document.parse t).lines
    ∃ ds lines, duplicateUserAgent.look (.document (Document.parse t)) = .reported ds ∧
      List.Forall₂ ReportsRepeat lines ds ∧ lines.Sublist (Document.parse t).lines ∧
      (∀ l, l ∈ lines ↔ l ∈ agents ∧ ∃ e ∈ agents, e.Before l ∧ agent e = agent l) ∧
      ds.length + (agents.map agent).toFinset.card = agents.length ∧
      ∀ e : Document, (Document.parse t).Permuted e →
        ∃ xs, duplicateUserAgent.look (.document e) = .reported xs ∧ xs.length = ds.length := by
  intro agents
  obtain ⟨ds, hds, hreports⟩ := reports_repeats (Document.parse t)
  have hsublist : agents.Sublist (Document.parse t).lines := List.filter_sublist
  refine ⟨ds, (Document.parse t).repeats, hds, hreports,
    (repeatedAgents_sublist _ _).trans hsublist, fun l => ?_, ?_, fun e he => ?_⟩
  · refine mem_repeatedAgents_of_ordered (fun m hm => ?_)
      ((Document.pairwise_lines_parse t).sublist hsublist)
    exact (Document.wellFormed_of_mem_lines (hsublist.subset hm)).nonempty
  · rw [← hreports.length_eq]
    exact length_repeats _
  · obtain ⟨xs, hxs, hreports'⟩ := reports_repeats e
    refine ⟨xs, hxs, ?_⟩
    rw [← hreports.length_eq, ← hreports'.length_eq, length_repeats_permuted he]

/-- The same agent in two spellings, and the records turned around: another line is reported. -/
theorem duplicateUserAgent_exact_reversed :
    let t := utf8 "user-agent: é\nallow: /\n\nuser-agent: b\n\nuser-agent: É"
    let u := utf8 "user-agent: É\n\nuser-agent: b\n\nuser-agent: é\nallow: /"
    (Document.parse t).Permuted (Document.parse u) ∧
      ∃ ds xs, duplicateUserAgent.look (.document (Document.parse t)) = .reported ds ∧
        duplicateUserAgent.look (.document (Document.parse u)) = .reported xs ∧
        ds.map Diagnostic.span = [⟨52, 54⟩] ∧ xs.length = ds.length ∧ xs ≠ ds := by
  intro t u
  have hpermuted : (Document.parse t).Permuted (Document.parse u) := by
    unfold Document.Permuted
    decide +kernel
  obtain ⟨ds, lines, hds, -, -, -, -, hlength⟩ := duplicateUserAgent_exact t
  obtain ⟨xs, hxs, hlen⟩ := hlength _ hpermuted
  have hspan : ds.map Diagnostic.span = [⟨52, 54⟩] := by
    obtain rfl := Outcome.reported.inj hds
    decide +kernel
  refine ⟨hpermuted, ds, xs, hds, hxs, hspan, hlen, fun heq => ?_⟩
  have hlook : duplicateUserAgent.look (.document (Document.parse t)) ≠
      duplicateUserAgent.look (.document (Document.parse u)) := by decide +kernel
  exact hlook (by rw [hds, hxs, heq])

end Analyzer

end RobotsTxt
