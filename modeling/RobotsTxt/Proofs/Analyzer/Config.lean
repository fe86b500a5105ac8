import RobotsTxt.Proofs.Analyzer.Builtin

/-!
# Configured analyzers

A configuration takes the remarks of some analyzers away and changes how serious those of others
are. Nothing else about the diagnostics of a document depends on it.

* `Config.disables`, `Config.override?`, `Config.relabel`: what a configuration does to a
  diagnostic, as its code tells.
* `Config.tuned?`, `Config.tune_eq_or`: what becomes of one analyzer.
* `Config.remarks_tuned`: what becomes of the remarks on one node.
* **`Config.apply_relabels`**: when a configuration is refused, and what it does when it is not.
-/

namespace RobotsTxt

namespace Config

variable (c : Config)

/-- Whether a configuration switches an analyzer off. -/
def disables (name : Text) : Bool := (c.tuning? name).any fun t => !t.enabled

/-- The severity that a configuration gives to all remarks of an analyzer. -/
def override? (name : Text) : Option Severity :=
  (c.tuning? name).bind fun t =>
    if t.severity.trimSpace = [] then none else (Severity.parse t.severity).toOption

/-- A diagnostic with the severity that its analyzer is given; everything else stays. -/
def relabel (d : Diagnostic) : Diagnostic :=
  { d with severity := (c.override? d.code).getD d.severity }

/-- The diagnostics that a configuration leaves of some, in their order. -/
def leaves (ds : List Diagnostic) : List Diagnostic :=
  (ds.filter fun d => !c.disables d.code).map c.relabel

/-- What becomes of an analyzer: it is switched off, given a severity, or left as it is. -/
def tuned? (a : Analyzer) : Option Analyzer :=
  if c.disables a.name then none
  else some ((c.override? a.name).elim a fun s => a.withSeverity s)

/-- A severity that cannot be read, given to an analyzer that stays on. -/
def Misjudges (a : Analyzer) : Prop :=
  ∃ t, c.tuning? a.name = some t ∧ t.enabled = true ∧ t.severity.trimSpace ≠ [] ∧
    ∃ e, Severity.parse t.severity = .error e

/-- A configuration that some analyzers can be given: it names no others, and misjudges none. -/
def Applicable (as : List Analyzer) : Prop :=
  (∀ name, (c.tuning? name).isSome → name ∈ as.map Analyzer.name) ∧ ∀ a ∈ as, ¬ c.Misjudges a

variable {c} {c' : Config} {a : Analyzer}

/-! ## What is looked up -/

theorem Applicable.congr {as : List Analyzer} (h : c.Applicable as)
    (heq : ∀ name, c.tuning? name = c'.tuning? name) : c'.Applicable as := by
  simpa only [Applicable, Misjudges, heq] using h

theorem tuned?_congr (heq : ∀ name, c.tuning? name = c'.tuning? name) : c.tuned? = c'.tuned? := by
  funext a
  unfold tuned? disables override?
  rw [heq]

/-! ## One analyzer -/

/-- Nothing but a misjudged severity is an error. -/
theorem tune_eq_or : (c.Misjudges a ∧ ∃ e, c.tune a = .error e) ∨
    (¬ c.Misjudges a ∧ c.tune a = .ok (c.tuned? a)) := by
  unfold Misjudges tune tuned? disables override?
  cases hc : c.tuning? a.name with
  | none => exact .inr ⟨by simp, rfl⟩
  | some t =>
    cases ht : t.enabled with
    | false => exact .inr ⟨by simp [ht], by simp [ht]⟩
    | true =>
      by_cases hb : t.severity.trimSpace = []
      · exact .inr ⟨by simp [hb], by simp [ht, hb]⟩
      · cases hs : Severity.parse t.severity with
        | error e => exact .inl ⟨⟨t, rfl, ht, hb, e, hs⟩, by simp [ht, hb, hs]⟩
        | ok s => exact .inr ⟨by simp [hs], by simp [ht, hb, hs, Except.toOption]⟩

theorem diagnostics_withSeverity (s : Severity) (n : Node) :
    (Call.mk (a.withSeverity s) n).diagnostics =
      (Call.mk a n).diagnostics.map fun d => { d with severity := s } := by
  simp only [Call.diagnostics, Call.outcome, Analyzer.withSeverity]
  cases a.look n with
  | reported ds => simp [Outcome.map, Diagnostic.attributed]
  | failed ds e => rfl
  | broken e => rfl

theorem remarks_withSeverity (s : Severity) (n : Node) : remarks [a.withSeverity s] n =
    (remarks [a] n).map fun d => { d with severity := s } := by
  have hhandles : (a.withSeverity s).handles n.kind = a.handles n.kind := rfl
  simp only [remarks, List.filter_cons, List.filter_nil, hhandles]
  split
  · simp [diagnostics_withSeverity]
  · rfl

theorem remarks_override (hp : a.Pinned) (n : Node) :
    remarks [(c.override? a.name).elim a fun s => a.withSeverity s] n =
      (remarks [a] n).map c.relabel := by
  have hrelabel : ∀ d ∈ remarks [a] n,
      c.relabel d = { d with severity := (c.override? a.name).getD d.severity } := by
    intro d hd
    rw [relabel, hp.code_eq hd]
  rw [List.map_congr_left hrelabel]
  cases c.override? a.name with
  | none => exact (List.map_id' _).symm
  | some s => exact remarks_withSeverity s n

/-! ## All analyzers -/

theorem leaves_append (ds es : List Diagnostic) :
    c.leaves (ds ++ es) = c.leaves ds ++ c.leaves es := by
  simp only [leaves, List.filter_append, List.map_append]

theorem leaves_remarks (hp : a.Pinned) (n : Node) : c.leaves (remarks [a] n) =
    if c.disables a.name then [] else (remarks [a] n).map c.relabel := by
  unfold leaves
  split
  · next h =>
    rw [List.filter_eq_nil_iff.mpr fun d hd => by simp [hp.code_eq hd, h], List.map_nil]
  · next h => rw [List.filter_eq_self.mpr fun d hd => by simp [hp.code_eq hd, h]]

/-- **What a configuration leaves of the remarks on a node.** -/
theorem remarks_tuned {as : List Analyzer} (hp : ∀ a ∈ as, a.Pinned) (n : Node) :
    remarks (as.filterMap c.tuned?) n = c.leaves (remarks as n) := by
  induction as with
  | nil => rfl
  | cons a as ih =>
    rw [List.forall_mem_cons] at hp
    rw [remarks_cons, leaves_append, leaves_remarks hp.1, ← ih hp.2]
    by_cases hd : c.disables a.name
    · have htuned : c.tuned? a = none := if_pos hd
      rw [List.filterMap_cons_none htuned, if_pos hd, List.nil_append]
    · have htuned : c.tuned? a = some _ := if_neg hd
      rw [List.filterMap_cons_some htuned, remarks_cons, remarks_override hp.1, if_neg hd]

theorem leaves_flatMap (f : Node → List Diagnostic) (ns : List Node) :
    c.leaves (ns.flatMap f) = ns.flatMap fun n => c.leaves (f n) := by
  simp only [leaves, List.filter_flatMap, List.map_flatMap]

theorem unknownNames_eq_nil_iff {as : List Analyzer} : c.unknownNames as = [] ↔
    ∀ name ∈ c.tunings.map Prod.fst, name ∈ as.map Analyzer.name := by
  rw [unknownNames, ← List.length_eq_zero_iff, List.length_mergeSort, List.length_eq_zero_iff,
    List.filter_eq_nil_iff]
  simp

theorem faults_eq_nil_iff {as : List Analyzer} : c.faults as = [] ↔
    (∀ name ∈ c.tunings.map Prod.fst, name ∈ as.map Analyzer.name) ∧
      ∀ a ∈ as, ¬ c.Misjudges a := by
  rw [faults, List.append_eq_nil_iff, List.map_eq_nil_iff, unknownNames_eq_nil_iff,
    List.filterMap_eq_nil_iff]
  refine and_congr_right fun _ => forall₂_congr fun a _ => ?_
  obtain ⟨hbad, e, he⟩ | ⟨hgood, he⟩ := tune_eq_or (c := c) (a := a)
  · simp [he, hbad]
  · simp [he, hgood]

/-- **What a configuration leaves of the diagnostics of a document.** -/
theorem analyze_tuned {as : List Analyzer} (hp : ∀ a ∈ as, a.Pinned) (t : Text) (range : Span) :
    (Dispatcher.mk (as.filterMap c.tuned?)).analyze (Document.parse t) range =
      c.leaves ((Dispatcher.mk as).analyze (Document.parse t) range) := by
  rw [Dispatcher.analyze_nodes, Dispatcher.analyze_nodes, leaves_flatMap]
  exact List.flatMap_congr fun n _ => remarks_tuned hp n

theorem apply_eq {as : List Analyzer} (h : c.faults as = []) :
    c.apply as = .ok (as.filterMap c.tuned?) := by
  rw [apply, h]
  refine congrArg Except.ok (List.filterMap_congr fun a ha => ?_)
  obtain ⟨hbad, -⟩ | ⟨-, he⟩ := tune_eq_or (c := c) (a := a)
  · exact absurd hbad ((faults_eq_nil_iff.mp h).2 a ha)
  · rw [he]
    rfl

theorem applicable_iff {as : List Analyzer} : c.Applicable as ↔ c.faults as = [] := by
  have hnames : ∀ name, (c.tuning? name).isSome ↔ name ∈ c.tunings.map Prod.fst := fun name => by
    rw [tuning?, List.lookup_isSome_iff, List.mem_map]
    exact exists_congr fun e => and_congr_right fun _ => beq_iff_eq.trans eq_comm
  simp only [Applicable, faults_eq_nil_iff, hnames]

/-- **What becomes of the analyzers under a configuration that can be applied.** -/
theorem apply_eq_ok_iff {as bs : List Analyzer} :
    c.apply as = .ok bs ↔ c.Applicable as ∧ bs = as.filterMap c.tuned? := by
  rw [applicable_iff]
  cases h : c.faults as with
  | nil => simp [apply_eq h, eq_comm]
  | cons f fs => simp [apply, h]

theorem apply_error_iff {as : List Analyzer} :
    (∃ faults, c.apply as = .error faults) ↔ c.faults as ≠ [] := by
  cases h : c.faults as with
  | nil => simp [apply_eq h]
  | cons f fs => simp [apply, h]

/-- **Configurations filter and relabel.** A configuration of the builtin analyzers is refused if
and only if it names an analyzer that is not there, or gives one that stays on a severity that
cannot be read. Otherwise the diagnostics of every range are those under no configuration, without
those of the analyzers that are switched off, and with other severities where the configuration
gives some. -/
theorem apply_relabels (c : Config) :
    ((∃ faults, c.apply Analyzer.builtin = .error faults) ↔
      (∃ name ∈ c.tunings.map Prod.fst, name ∉ Analyzer.builtin.map Analyzer.name) ∨
        ∃ a ∈ Analyzer.builtin, c.Misjudges a) ∧
    ∀ as, c.apply Analyzer.builtin = .ok as → ∀ (t : Text) (range : Span),
      (Dispatcher.mk as).analyze (Document.parse t) range =
        (((Dispatcher.mk Analyzer.builtin).analyze (Document.parse t) range).filter
          fun d => !c.disables d.code).map c.relabel := by
  constructor
  · rw [apply_error_iff, ne_eq, faults_eq_nil_iff, not_and_or]
    simp only [not_forall, not_not, exists_prop]
  · intro as has t range
    have hnone : c.faults Analyzer.builtin = [] := by
      by_contra hfaults
      obtain ⟨faults, herror⟩ := apply_error_iff.mpr hfaults
      exact absurd (herror.symm.trans has) (by simp)
    obtain rfl := Except.ok.inj ((apply_eq hnone).symm.trans has)
    exact analyze_tuned Analyzer.pinned_builtin t range

/-- A configuration that switches one analyzer off and takes another one less seriously. -/
def lenient : Config where
  tunings? := some [(utf8 "missing-token", { enabled? := some false }),
    (utf8 "record-start", { severity := utf8 "Warn" })]

theorem apply_relabels_lenient : ∃ as, lenient.apply Analyzer.builtin = .ok as ∧
    ((Dispatcher.mk as).analyze (Document.parse (utf8 "allow: x\nall")) ⟨0, 12⟩).map
        (fun d => (d.code, d.severity)) =
      [(utf8 "record-start", .warning), (utf8 "rule-path", .warning)] := by
  have hnone : lenient.faults Analyzer.builtin = [] := by decide +kernel
  refine ⟨_, apply_eq hnone, ?_⟩
  rw [lenient.apply_relabels.2 _ (apply_eq hnone)]
  decide +kernel

end Config

end RobotsTxt
