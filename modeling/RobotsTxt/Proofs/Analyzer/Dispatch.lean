import Mathlib.Data.List.Nodup
import RobotsTxt.Dispatch
import RobotsTxt.Proofs.Document.WellFormed

/-!
# Dispatch, pair by pair

A dispatcher looks below a node only if the node touches the range. Nothing is missed by that, since
the nodes of a document lie inside each other, and so the outcome is put together from the looks of
all analyzers at all nodes that concern them, of which each contributes what it does whatever comes
of the others.

* `Kind.IsA`: what a kind derives from; `Kind.isA_iff`.
* `Dispatcher.pairs`: who should be shown what; `Analyzer.contribution`: what comes of one look.
* `touchedNodes_eq`: no node is missed where the walk turns back.
* `Document.nodup_descendants`: no node is shown twice.
* **`Dispatcher.analyze_exact`**: the diagnostics and the failures, pair by pair.
-/

namespace RobotsTxt

/-! ## Kinds -/

/-- **A kind is another one**, or derives from one that is. -/
inductive Kind.IsA : Kind → Kind → Prop
  | refl (k : Kind) : IsA k k
  | step {k parent base : Kind} (h : k.parent? = some parent) (hp : IsA parent base) : IsA k base

theorem Kind.isA_of_mem_ancestors {k base : Kind} (h : base ∈ k.ancestors) : k.IsA base := by
  rw [Kind.ancestors_eq] at h
  rcases List.mem_cons.mp h with rfl | h
  · exact .refl _
  · cases hp : k.parent? with
    | none => simp [hp] at h
    | some parent =>
      rw [hp] at h
      exact .step hp (isA_of_mem_ancestors h)
termination_by k.ancestors.length
decreasing_by
  rw [Kind.ancestors_eq k, hp]
  exact Nat.lt_succ_self _

theorem Kind.isA_iff {k base : Kind} : k.IsA base ↔ k.derives base := by
  rw [Kind.derives, List.contains_iff_mem]
  refine ⟨fun h => ?_, Kind.isA_of_mem_ancestors⟩
  induction h with
  | refl k =>
    rw [Kind.ancestors_eq]
    exact List.mem_cons_self
  | step h _ ih =>
    rw [Kind.ancestors_eq, h]
    exact List.mem_cons_of_mem _ ih

instance (k base : Kind) : Decidable (k.IsA base) := decidable_of_iff _ Kind.isA_iff.symm

/-! ## What is asked for -/

/-- What comes of one analyzer's look at one node. -/
structure Contribution where
  diagnostics : List Diagnostic
  failures : List Failure
  deriving Repr, DecidableEq

/-- A look that ends normally gives its diagnostics, in which nothing changes but an empty code and
an empty source. Any other look gives one failure and no diagnostic, not even those found before. -/
def Analyzer.contribution (a : Analyzer) (n : Node) : Contribution :=
  match a.look n with
  | .reported ds =>
    { diagnostics := ds.map fun x =>
        { x with
          code := if x.code = [] then a.name else x.code
          source := if x.source = [] then Diagnostic.defaultSource else x.source }
      failures := [] }
  | .failed _ e => ⟨[], [⟨a.name, n.kind, n.span, e⟩]⟩
  | .broken e => ⟨[], [⟨a.name, n.kind, n.span, utf8 "panic: " ++ e⟩]⟩

/-- The same analyzer, but with another outcome for one node. -/
def Analyzer.answering (a : Analyzer) (n : Node) (o : Outcome) : Analyzer :=
  { a with look := fun m => if m = n then o else a.look m }

namespace Dispatcher

variable (d : Dispatcher) (doc : Document) (range : Span)

/-- Every analyzer with every node that touches the range and is of a declared kind: node by node in
depth-first pre-order, and for one node in the order of the analyzers. -/
def pairs : List (Analyzer × Node) :=
  ((Node.document doc).descendants.filter fun n => n.span.touches range).flatMap fun n =>
    (d.analyzers.filter fun a => ∃ k ∈ a.kinds, n.kind.IsA k).map fun a => (a, n)

/-- What comes of each pair. -/
def contributions : List Contribution := (d.pairs doc range).map fun p => p.1.contribution p.2

end Dispatcher

/-! ## Where the walk turns back -/

theorem Span.touches_of_within {s outer range : Span} (h : s.Within outer)
    (ht : s.touches range = true) : outer.touches range = true := by
  obtain ⟨hstart, hstop⟩ := h
  simp only [Span.touches, Bool.and_eq_true, decide_eq_true_eq] at ht ⊢
  omega

section Walk

variable {range : Span}

theorem filter_walkRecord {r : Record} (h : ∀ l ∈ r.lines, l.span.Within r.span) :
    (Node.walkRecord (fun n => n.span.touches range) r).filter (fun n => n.span.touches range) =
      (Node.walkRecord (fun _ => true) r).filter fun n => n.span.touches range := by
  by_cases ht : (Node.record r).span.touches range = true
  · simp only [Node.walkRecord, ht, if_true]
  · have hlines : (r.lines.map Node.line).filter (fun n => n.span.touches range) = [] := by
      refine List.filter_eq_nil_iff.mpr fun n hn hn' => ?_
      obtain ⟨l, hl, rfl⟩ := List.mem_map.mp hn
      exact ht (Span.touches_of_within (h l hl) hn')
    simp only [Node.walkRecord, if_true]
    rw [if_neg ht, List.filter_cons, List.filter_cons, hlines]
    rfl

/-- **No node is missed where the walk turns back.** -/
theorem touchedNodes_eq (t : Text) (range : Span) :
    Dispatcher.touchedNodes (Document.parse t) range =
      (Node.document (Document.parse t)).descendants.filter fun n => n.span.touches range := by
  have hrecords : ∀ r ∈ (Document.parse t).records, ∀ l ∈ r.lines, l.span.Within r.span :=
    fun r hr => (Document.wellFormed_of_mem_records hr).within
  have hroot : ∀ r ∈ (Document.parse t).records, r.span.Within (Document.parse t).span := by
    intro r hr
    obtain ⟨hfirst, -, hlast⟩ := Document.span_of_mem_records hr
    rw [Document.span_parse]
    exact ⟨hfirst, hlast⟩
  by_cases ht : (Node.document (Document.parse t)).span.touches range = true
  · simp only [Dispatcher.touchedNodes, Node.descendants, Node.walk, ht, if_true,
      List.filter_cons_of_pos, List.filter_flatMap]
    congr 1
    exact List.flatMap_congr fun r hr => filter_walkRecord (hrecords r hr)
  · -- Nothing touches the range, so that turning back at the root loses nothing.
    have hnone : ∀ n ∈ (Node.document (Document.parse t)).descendants,
        ¬ n.span.touches range = true := by
      intro n hn hn'
      apply ht
      rcases Node.mem_descendants_document hn with rfl | ⟨r, hr, rfl | ⟨l, hl, rfl⟩⟩
      · exact hn'
      · exact Span.touches_of_within (hroot r hr) hn'
      · exact Span.touches_of_within (hroot r hr) (Span.touches_of_within (hrecords r hr l hl) hn')
    rw [List.filter_eq_nil_iff.mpr hnone, Dispatcher.touchedNodes, Node.walk, if_neg ht]
    exact List.filter_eq_nil_iff.mpr fun n hn => by rwa [List.mem_singleton.mp hn]

end Walk

/-! ## Nodes are shown once -/

theorem nodup_of_ordered {ls : List Line} (hne : ∀ l ∈ ls, l.span.start < l.span.stop)
    (h : ls.Pairwise fun l m => l.span.stop < m.span.start) : ls.Nodup := by
  refine h.imp_of_mem fun {l m} hl _ hlm he => ?_
  subst he
  have := hne l hl
  omega

theorem Document.nodup_lines (t : Text) : (Document.parse t).lines.Nodup :=
  nodup_of_ordered (fun _ hl => (Document.wellFormed_of_mem_lines hl).nonempty)
    (Document.pairwise_lines_parse t)

theorem Node.descendants_document (d : Document) : (Node.document d).descendants =
    .document d :: d.records.flatMap fun r => .record r :: r.lines.map .line := rfl

/-- **No node of a document is there twice.** -/
theorem Document.nodup_descendants (t : Text) :
    (Node.document (Document.parse t)).descendants.Nodup := by
  rw [Node.descendants_document, List.nodup_cons, List.nodup_flatMap]
  refine ⟨by simp, fun r hr => ?_, ?_⟩
  · have hr := Document.wellFormed_of_mem_records hr
    have hlines := nodup_of_ordered (fun l hl => (hr.lines l hl).nonempty) hr.ordered
    rw [List.nodup_cons]
    exact ⟨by simp, hlines.map fun _ _ h => by simpa using h⟩
  · refine (Document.pairwise_records t).imp_of_mem fun {r s} hr hs hrs => ?_
    have hr := Document.wellFormed_of_mem_records hr
    have hs := Document.wellFormed_of_mem_records hs
    intro n hnr hns
    simp only [List.mem_cons, List.mem_map] at hnr hns
    rcases hnr with rfl | ⟨l, hl, rfl⟩ <;> rcases hns with hns | ⟨m, hm, hns⟩
    · obtain rfl : r = s := by simpa using hns
      have := hr.nonempty
      omega
    · simp at hns
    · simp at hns
    · obtain rfl : m = l := by simpa using hns
      have := (hr.within m hl).2
      have := (hs.within m hm).1
      have := (hr.lines m hl).nonempty
      omega

/-! ## Pair by pair -/

theorem Call.contribution_eq (a : Analyzer) (n : Node) :
    a.contribution n = ⟨(Call.mk a n).diagnostics, (Call.mk a n).failure?.toList⟩ := by
  have hfill : (fun x : Diagnostic =>
      { x with
        code := if x.code = [] then a.name else x.code
        source := if x.source = [] then Diagnostic.defaultSource else x.source }) =
      Diagnostic.attributed a.name := by
    funext x
    simp only [Diagnostic.attributed, List.isEmpty_iff]
  unfold Analyzer.contribution Call.diagnostics Call.failure? Call.outcome
  rw [hfill]
  cases a.look n <;> rfl

theorem Analyzer.handles_iff (a : Analyzer) (k : Kind) :
    a.handles k = true ↔ ∃ base ∈ a.kinds, k.IsA base := by
  simp only [Analyzer.handles, List.any_eq_true, Kind.isA_iff]

namespace Dispatcher

variable (d : Dispatcher) (t : Text) (range : Span)

theorem calls_eq : d.calls (Document.parse t) range =
    (d.pairs (Document.parse t) range).map fun p => ⟨p.1, p.2⟩ := by
  have hfor : ∀ n : Node, d.analyzersFor n.kind =
      d.analyzers.filter fun a => ∃ k ∈ a.kinds, n.kind.IsA k := by
    intro n
    refine List.filter_congr fun a _ => ?_
    rw [Bool.eq_iff_iff, a.handles_iff, decide_eq_true_iff]
  simp only [calls, pairs, touchedNodes_eq, List.map_flatMap, List.map_map, hfor]
  rfl

theorem analyze_eq : d.analyze (Document.parse t) range =
    (d.contributions (Document.parse t) range).flatMap Contribution.diagnostics := by
  simp only [analyze, contributions, calls_eq, List.flatMap_map, Call.contribution_eq]

theorem failures_eq : d.failures (Document.parse t) range =
    (d.contributions (Document.parse t) range).flatMap Contribution.failures := by
  simp only [failures, contributions, calls_eq, List.flatMap_map, Call.contribution_eq,
    List.filterMap_eq_flatMap_toList]

end Dispatcher

/-! ## Another outcome for one pair -/

theorem Analyzer.contribution_answering {a : Analyzer} {n m : Node} (o : Outcome) (h : m ≠ n) :
    (a.answering n o).contribution m = a.contribution m := by
  simp only [Analyzer.contribution, Analyzer.answering, if_neg h]

/-- The looks of some analyzers at one node. -/
def looksAt (analyzers : List Analyzer) (n : Node) : List Contribution :=
  (analyzers.filter fun a => ∃ k ∈ a.kinds, n.kind.IsA k).map fun a => a.contribution n

theorem contributions_eq (d : Dispatcher) (doc : Document) (range : Span) :
    d.contributions doc range =
      ((Node.document doc).descendants.filter fun n => n.span.touches range).flatMap
        (looksAt d.analyzers) := by
  simp only [Dispatcher.contributions, Dispatcher.pairs, List.map_flatMap, List.map_map]
  rfl

theorem looksAt_append (as bs : List Analyzer) (n : Node) :
    looksAt (as ++ bs) n = looksAt as n ++ looksAt bs n := by
  simp only [looksAt, List.filter_append, List.map_append]

theorem looksAt_cons (a : Analyzer) (as : List Analyzer) (n : Node) :
    looksAt (a :: as) n =
      (if ∃ k ∈ a.kinds, n.kind.IsA k then [a.contribution n] else []) ++ looksAt as n := by
  by_cases h : ∃ k ∈ a.kinds, n.kind.IsA k
  · rw [if_pos h, looksAt, List.filter_cons_of_pos (by simpa using h)]
    rfl
  · rw [if_neg h, looksAt, List.filter_cons_of_neg (by simpa using h)]
    rfl

section Answering

variable (before after : List Analyzer) (a : Analyzer) {n m : Node} (o : Outcome)

theorem looksAt_answering_ne (h : m ≠ n) :
    looksAt (before ++ a.answering n o :: after) m = looksAt (before ++ a :: after) m := by
  rw [looksAt_append, looksAt_append, looksAt_cons, looksAt_cons, a.contribution_answering o h]
  rfl

theorem flatMap_looksAt_answering {ns : List Node} (h : n ∉ ns) :
    ns.flatMap (looksAt (before ++ a.answering n o :: after)) =
      ns.flatMap (looksAt (before ++ a :: after)) :=
  List.flatMap_congr fun _ hm => looksAt_answering_ne before after a o fun e => h (e ▸ hm)

/-- Another outcome for one pair changes what comes of this pair, at its place, and nothing else. -/
theorem exists_answering {ns : List Node} (h : ns.Nodup) :
    ∃ x y, (ns.flatMap (looksAt (before ++ a :: after)) = x ++ y ∧
        ns.flatMap (looksAt (before ++ a.answering n o :: after)) = x ++ y) ∨
      (ns.flatMap (looksAt (before ++ a :: after)) = x ++ a.contribution n :: y ∧
        ns.flatMap (looksAt (before ++ a.answering n o :: after)) =
          x ++ (a.answering n o).contribution n :: y) := by
  by_cases hn : n ∈ ns
  · obtain ⟨ms, ms', rfl⟩ := List.append_of_mem hn
    have hms : n ∉ ms ∧ n ∉ ms' := by
      rw [List.nodup_append, List.nodup_cons] at h
      exact ⟨fun hm => h.2.2 n hm n (by simp) rfl, h.2.1.1⟩
    simp only [List.flatMap_append, List.flatMap_cons, flatMap_looksAt_answering _ _ _ _ hms.1,
      flatMap_looksAt_answering _ _ _ _ hms.2]
    rw [looksAt_append, looksAt_append, looksAt_cons, looksAt_cons]
    by_cases hk : ∃ k ∈ a.kinds, n.kind.IsA k
    · refine ⟨ms.flatMap (looksAt (before ++ a :: after)) ++ looksAt before n,
        looksAt after n ++ ms'.flatMap (looksAt (before ++ a :: after)), .inr ⟨?_, ?_⟩⟩
      · simp [hk]
      · have hk' : ∃ k ∈ (a.answering n o).kinds, n.kind.IsA k := hk
        simp [hk']
    · refine ⟨ms.flatMap (looksAt (before ++ a :: after)) ++ looksAt before n,
        looksAt after n ++ ms'.flatMap (looksAt (before ++ a :: after)), .inl ⟨?_, ?_⟩⟩
      · simp [hk]
      · have hk' : ¬ ∃ k ∈ (a.answering n o).kinds, n.kind.IsA k := hk
        simp [hk']
  · exact ⟨ns.flatMap (looksAt (before ++ a :: after)), [],
      .inl ⟨by simp, by simp [flatMap_looksAt_answering _ _ _ _ hn]⟩⟩

end Answering

/-- **Dispatch is complete, and failures stay where they are.** The diagnostics and the failures of
a range are those of the pairs, one after another; and if the outcome of one pair becomes another,
then what comes of every other pair stays as it is. -/
theorem Dispatcher.analyze_exact (d : Dispatcher) (t : Text) (range : Span) :
    d.analyze (Document.parse t) range =
        (d.contributions (Document.parse t) range).flatMap Contribution.diagnostics ∧
      d.failures (Document.parse t) range =
        (d.contributions (Document.parse t) range).flatMap Contribution.failures ∧
      ∀ before a after, d.analyzers = before ++ a :: after → ∀ (n : Node) (o : Outcome),
        ∃ x y,
          (d.contributions (Document.parse t) range = x ++ y ∧
            (Dispatcher.mk (before ++ a.answering n o :: after)).contributions
              (Document.parse t) range = x ++ y) ∨
          (d.contributions (Document.parse t) range = x ++ a.contribution n :: y ∧
            (Dispatcher.mk (before ++ a.answering n o :: after)).contributions
              (Document.parse t) range = x ++ (a.answering n o).contribution n :: y) := by
  refine ⟨d.analyze_eq t range, d.failures_eq t range, fun before a after h n o => ?_⟩
  rw [contributions_eq, contributions_eq, h]
  exact exists_answering before after a o ((Document.nodup_descendants t).filter _)

/-- An analyzer that breaks down on every line. -/
def fragile : Analyzer := ⟨utf8 "fragile", [.line], fun _ => .broken (utf8 "boom")⟩

/-- An analyzer that reports every node. -/
def talkative : Analyzer :=
  ⟨utf8 "talkative", [.node], fun n => .reported [⟨n.span, .error, [], [], []⟩]⟩

theorem Dispatcher.analyze_exact_fragile :
    let d : Dispatcher := ⟨[fragile, talkative]⟩
    let doc := Document.parse (utf8 "x")
    let line : Node := .line (.ofHead 0 (utf8 "x") none)
    let mended : Dispatcher := ⟨[fragile.answering line (.reported []), talkative]⟩
    d.analyzers = [] ++ fragile :: [talkative] ∧
      (d.analyze doc ⟨1, 0⟩).map Diagnostic.span = [⟨0, 1⟩, ⟨0, 1⟩, ⟨0, 1⟩] ∧
      d.failures doc ⟨1, 0⟩ = [⟨utf8 "fragile", .extension, ⟨0, 1⟩, utf8 "panic: boom"⟩] ∧
      ∃ x y, (d.contributions doc ⟨1, 0⟩ = x ++ y ∧ mended.contributions doc ⟨1, 0⟩ = x ++ y) ∨
        (d.contributions doc ⟨1, 0⟩ = x ++ fragile.contribution line :: y ∧
          mended.contributions doc ⟨1, 0⟩ =
            x ++ (fragile.answering line (.reported [])).contribution line :: y) := by
  intro d doc line mended
  obtain ⟨hanalyze, hfailures, hother⟩ := d.analyze_exact (utf8 "x") ⟨1, 0⟩
  refine ⟨rfl, ?_, ?_, hother [] fragile [talkative] rfl line (.reported [])⟩
  · rw [hanalyze]
    decide +kernel
  · rw [hfailures]
    decide +kernel

end RobotsTxt
