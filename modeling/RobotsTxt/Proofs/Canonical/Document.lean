import RobotsTxt.Proofs.Canonical.Runs

/-!
# Canonical documents

The canonical text of a document reads as a document that says the same, and it is its own canonical
text. Neither is sure where a line that starts with the bytes of a byte order mark becomes the first
thing in the text: the canonical text then has a mark that the text had not, and the line is read
without it.

* `Document.Agrees`: two documents that say the same.
* **`parse_canonicalText_agrees`**: the canonical text says the same.
* `IsCanonicalLine`: a text that is a line in canonical form.
* **`canonicalText_stable_iff`**: when the canonical text is its own canonical text.
* **`canonicalText_settles`**: the canonical text of a canonical text always is.
-/

namespace RobotsTxt

/-- The first line of a document. -/
def Document.firstLine? (d : Document) : Option Line := d.records.head?.bind fun r => r.lines.head?

/-- Two records that say the same, line by line. -/
def Record.Agrees (r s : Record) : Prop := List.Forall₂ Line.Agrees r.lines s.lines

/-- Two documents that say the same, record by record, and of which both or neither has a byte order
mark. -/
structure Document.Agrees (d e : Document) : Prop where
  leading : d.leading = e.leading
  records : List.Forall₂ Record.Agrees d.records e.records

/-! ## The byte order mark of the canonical text -/

variable {t : Text} {runs : List (List Layout)}

theorem Text.HasRuns.rel_firstLine? (h : t.HasRuns runs) :
    Option.Rel (Line.HasLayout t) (Document.parse t).firstLine? (runs.head?.bind List.head?) := by
  unfold Text.HasRuns at h
  unfold Document.firstLine?
  cases hr : (Document.parse t).records with
  | nil =>
    rw [hr] at h
    cases h
    exact .none
  | cons r rs =>
    rw [hr] at h
    obtain ⟨run, rest, hrun, -, rfl⟩ := List.forall₂_cons_left_iff.mp h
    simp only [List.head?_cons, Option.bind_some]
    generalize r.lines = ls at hrun ⊢
    cases hrun with
    | nil => exact .none
    | cons ha _ => exact .some ha

theorem Text.HasRuns.exists_first_layout (h : t.HasRuns runs) {l : Line}
    (hl : l ∈ (Document.parse t).firstLine?) :
    ∃ a run rest, runs = (a :: run) :: rest ∧ l.HasLayout t a := by
  have hrel := h.rel_firstLine?
  rw [hl] at hrel
  match runs with
  | [] | [] :: _ => cases hrel
  | (a :: run) :: rest =>
    cases hrel with
    | some ha => exact ⟨a, run, rest, rfl, ha⟩

theorem Text.HasRuns.exists_firstLine {a : Layout} {run : List Layout} {rest : List (List Layout)}
    (h : t.HasRuns ((a :: run) :: rest)) :
    ∃ l, (Document.parse t).firstLine? = some l ∧ l.HasLayout t a := by
  have hrel := h.rel_firstLine?
  cases hl : (Document.parse t).firstLine? with
  | none =>
    rw [hl] at hrel
    cases hrel
  | some l =>
    rw [hl] at hrel
    cases hrel with
    | some ha => exact ⟨l, rfl, ha⟩

theorem canonicalText_cons {a : Layout} {run : List Layout} {rest : List (List Layout)}
    (h : t.HasRuns ((a :: run) :: rest)) :
    canonicalText t = t.mark ++
      (a.canonical.text ++ 0x0A :: render (run.map Layout.canonical :: canonicalRuns rest)) := by
  rw [canonicalText_eq h, canonicalRuns_cons, List.map_cons, render_cons]

theorem mark_canonicalText_of_start (h : byteOrderMark <+: t) :
    (canonicalText t).mark = t.mark := by
  obtain ⟨runs, hruns, -⟩ := t.exists_runs
  rw [canonicalText_eq hruns, Text.mark_of_start h, Text.mark_of_append]

/-- A canonical text that starts with the bytes of a byte order mark, and the text does not: they
are those of the first line. -/
theorem exists_marked_line (hruns : t.HasRuns runs) (hw : Writable runs)
    (ht : ¬ byteOrderMark <+: t) (h : byteOrderMark <+: canonicalText t) :
    ∃ a run rest c, runs = (a :: run) :: rest ∧ a.canonical.text = byteOrderMark ++ c := by
  cases runs with
  | nil =>
    rw [canonicalText_eq hruns, Text.mark_of_no_start ht] at h
    exact absurd h (by decide)
  | cons run rest =>
    obtain ⟨a, run, rfl⟩ := List.exists_cons_of_ne_nil (hw.nonempty run List.mem_cons_self)
    rw [canonicalText_cons hruns, Text.mark_of_no_start ht, List.nil_append] at h
    obtain ⟨c, hc⟩ := prefix_of_append_cons (by decide) h
    exact ⟨a, run, rest, c, rfl, hc.symm⟩

/-! ## Reading the canonical text -/

theorem hasRuns_canonicalText (hruns : t.HasRuns runs) (hw : Writable runs)
    (hm : (canonicalText t).mark = t.mark) : (canonicalText t).HasRuns (canonicalRuns runs) := by
  refine Text.hasRuns_render hw.canonical (Text.body_of_append ?_)
  rw [hm]
  exact canonicalText_eq hruns

theorem forall₂_agrees {u : Text} {ls ms : List Line} {run : List Layout}
    (hl : List.Forall₂ (Line.HasLayout t) ls run)
    (hm : List.Forall₂ (Line.HasLayout u) ms (run.map Layout.canonical)) :
    List.Forall₂ Line.Agrees ls ms := by
  induction hl generalizing ms with
  | nil =>
    cases hm
    exact .nil
  | cons ha _ ih =>
    cases hm with
    | cons hb hrest =>
      obtain ⟨start, rfl, -⟩ := ha.placed
      obtain ⟨start', rfl, -⟩ := hb.placed
      exact .cons (Layout.agrees_canonical _ start start') (ih hrest)

theorem forall₂_records {u : Text} {rs ss : List Record}
    (hr : List.Forall₂ (List.Forall₂ (Line.HasLayout t)) (rs.map Record.lines) runs)
    (hs : List.Forall₂ (List.Forall₂ (Line.HasLayout u)) (ss.map Record.lines)
      (canonicalRuns runs)) : List.Forall₂ Record.Agrees rs ss := by
  induction rs generalizing ss runs with
  | nil =>
    cases hr
    obtain rfl := List.map_eq_nil_iff.mp (List.forall₂_nil_right_iff.mp hs)
    exact .nil
  | cons r rs ih =>
    obtain ⟨run, rest, hrun, hrest, rfl⟩ := List.forall₂_cons_left_iff.mp hr
    cases ss with
    | nil => cases hs
    | cons s ss =>
      obtain ⟨hs, hss⟩ := List.forall₂_cons.mp hs
      exact .cons (forall₂_agrees hrun hs) (ih hrest hss)

/-- The byte order mark stays, and none appears, unless the first line starts with the bytes of one.
-/
theorem mark_canonicalText (h : byteOrderMark <+: t ∨
    ∀ l ∈ (Document.parse t).firstLine?,
      ¬ byteOrderMark <+: t.slice l.span.start.toNat l.span.stop.toNat) :
    (canonicalText t).mark = t.mark := by
  by_cases ht : byteOrderMark <+: t
  · exact mark_canonicalText_of_start ht
  rw [Text.mark_of_no_start ht]
  refine Text.mark_of_no_start fun hu => ?_
  obtain ⟨runs, hruns, hw⟩ := t.exists_runs
  obtain ⟨a, run, rest, c, rfl, hc⟩ := exists_marked_line hruns hw ht hu
  obtain ⟨l, hl, ha⟩ := hruns.exists_firstLine
  refine h.resolve_left ht l hl ?_
  rw [ha.slice_span]
  exact Layout.mark_canonical ⟨c, hc.symm⟩

/-- **The canonical text says the same**, unless the first line starts with the bytes of a byte
order mark that the text itself does not start with. -/
theorem parse_canonicalText_agrees (h : byteOrderMark <+: t ∨
    ∀ l ∈ (Document.parse t).firstLine?,
      ¬ byteOrderMark <+: t.slice l.span.start.toNat l.span.stop.toNat) :
    (Document.parse t).Agrees (Document.parse (canonicalText t)) := by
  obtain ⟨runs, hruns, hw⟩ := t.exists_runs
  have hm := mark_canonicalText h
  constructor
  · rw [Document.leading_parse, Document.leading_parse, hm]
  · exact forall₂_records hruns (hasRuns_canonicalText hruns hw hm)

theorem parse_canonicalText_agrees_respelled :
    canonicalText (utf8 "\tuser-AGENT:*#all\r\r\r: /") = utf8 "User-agent: * # all\n\n: /\n" ∧
      (Document.parse (utf8 "\tuser-AGENT:*#all\r\r\r: /")).Agrees
        (Document.parse (utf8 "User-agent: * # all\n\n: /\n")) := by
  have hcanonical : canonicalText (utf8 "\tuser-AGENT:*#all\r\r\r: /") =
      utf8 "User-agent: * # all\n\n: /\n" := by decide
  refine ⟨hcanonical, ?_⟩
  rw [← hcanonical]
  exact parse_canonicalText_agrees (.inr (by decide))

/-! ## Writing the canonical text once more -/

/-- A text that is a line in canonical form. -/
def IsCanonicalLine (c : Text) : Prop := (Line.read? 0 c).map (Line.canonical c) = some c

instance (c : Text) : Decidable (IsCanonicalLine c) :=
  inferInstanceAs (Decidable ((Line.read? 0 c).map (Line.canonical c) = some c))

theorem isCanonicalLine_iff {c : Text} {a? : Option Layout} {e : Text}
    (h : (RawLine.mk c e).Holds a?) :
    IsCanonicalLine c ↔ (a?.map fun a => a.canonical.text) = some c := by
  have hrel := RawLine.rel_read? h [] []
  simp only [List.nil_append, List.append_nil, List.length_nil] at hrel
  unfold IsCanonicalLine
  cases hl : Line.read? 0 c with
  | none =>
    rw [hl] at hrel
    cases hrel
    rfl
  | some l =>
    rw [hl] at hrel
    cases hrel with
    | some ha => rw [Option.map_some, Option.map_some, ha.canonical]

theorem canonicalText_of_mark (hm : (canonicalText t).mark = t.mark) :
    canonicalText (canonicalText t) = canonicalText t := by
  obtain ⟨runs, hruns, hw⟩ := t.exists_runs
  rw [canonicalText_eq (hasRuns_canonicalText hruns hw hm), canonicalRuns_canonicalRuns, hm,
    ← canonicalText_eq hruns]

theorem length_render_consRun_le (run : List Layout) (runs : List (List Layout)) :
    (render (consRun run runs)).length ≤ (render (run :: runs)).length := by
  cases run with
  | cons a run => exact le_refl _
  | nil =>
    by_cases h : runs = []
    · subst h
      exact Nat.zero_le _
    · rw [render_gap [] h]
      simp only [consRun, List.length_append, List.length_cons]
      omega

theorem canonicalRuns_consRun (run : List Layout) (runs : List (List Layout)) :
    canonicalRuns (consRun run runs) = consRun (run.map Layout.canonical) (canonicalRuns runs) := by
  cases run <;> rfl

theorem canonicalText_first_line {c : Text} {run : List Layout} (hc : ∀ b ∈ c, isBreak b = false)
    (hw : ∀ run' ∈ run :: runs, ∀ a ∈ run', a.Valid ∧ a.Unbroken) (hne : ∀ run' ∈ runs, run' ≠ [])
    (hrun : canonicalRuns (run :: runs) = run :: runs)
    (ht : t.body = c ++ 0x0A :: render (run :: runs)) :
    canonicalText t = t ↔ IsCanonicalLine c := by
  obtain ⟨a?, ha⟩ := @RawLine.exists_holds ⟨c, [0x0A]⟩ hc
  have hholds : List.Forall₂ RawLine.Holds (splitLines t.body) (a? :: sheet (run :: runs)) := by
    rw [ht, splitLines_feed hc]
    exact .cons ha (forall₂_render hw)
  have hcancel : ∀ x, t.mark ++ x = t ↔ x = c ++ 0x0A :: render (run :: runs) := by
    intro x
    rw [← ht]
    refine ⟨fun h => List.append_cancel_left (h.trans t.mark_append_body.symm), ?_⟩
    rintro rfl
    exact t.mark_append_body
  rw [canonicalRuns_cons, List.cons.injEq] at hrun
  obtain ⟨hfirst, hrest⟩ := hrun
  rw [isCanonicalLine_iff ha, canonicalText_eq (Text.hasRuns_of_holds hholds), hcancel]
  cases a? with
  | none =>
    -- The line is blank and goes, so the text gets shorter.
    rw [groups_none, groups_sheet hne, canonicalRuns_consRun, hfirst, hrest]
    refine iff_of_false (fun h => ?_) (by simp)
    have hle := length_render_consRun_le run runs
    have hlen := congrArg List.length h
    simp only [List.length_append, List.length_cons] at hlen
    omega
  | some a =>
    have hgroups : groups (some a :: sheet (run :: runs)) = (a :: run) :: runs := by
      rw [← sheet_cons, groups_sheet hne]
      rfl
    have hcanonical : canonicalRuns ((a :: run) :: runs) = (a.canonical :: run) :: runs := by
      rw [canonicalRuns_cons, List.map_cons, hfirst, hrest]
    rw [hgroups, hcanonical, render_cons, List.append_left_inj, Option.map_some, Option.some_inj]

theorem canonicalText_marked_iff {a : Layout} {run : List Layout} {rest : List (List Layout)}
    {c : Text} (hruns : t.HasRuns ((a :: run) :: rest)) (hw : Writable ((a :: run) :: rest))
    (ht : ¬ byteOrderMark <+: t) (hc : a.canonical.text = byteOrderMark ++ c) :
    canonicalText (canonicalText t) = canonicalText t ↔ IsCanonicalLine c := by
  have hu : canonicalText t = byteOrderMark ++
      (c ++ 0x0A :: render (run.map Layout.canonical :: canonicalRuns rest)) := by
    rw [canonicalText_cons hruns, Text.mark_of_no_start ht, hc, List.append_assoc]
    rfl
  have hbody : (canonicalText t).body =
      c ++ 0x0A :: render (run.map Layout.canonical :: canonicalRuns rest) := by
    refine Text.body_of_append ?_
    rw [hu, Text.mark_of_append]
  obtain ⟨hne, hlayouts⟩ := hw.canonical
  rw [canonicalRuns_cons, List.map_cons, List.forall_mem_cons] at hne hlayouts
  rw [List.forall_mem_cons] at hlayouts
  obtain ⟨⟨⟨-, hunbroken⟩, hrun⟩, hrest⟩ := hlayouts
  have hbreak : ∀ b ∈ c, isBreak b = false := by
    intro b hb
    refine hunbroken b ?_
    rw [hc]
    exact List.mem_append_right _ hb
  exact canonicalText_first_line hbreak (List.forall_mem_cons.mpr ⟨hrun, hrest⟩) hne.2
    (canonicalRuns_canonicalRuns (run :: rest)) hbody

/-- **When the canonical text is its own canonical text.** The text starts with a byte order mark,
or what follows the bytes of one at the start of the first line, if they stand there, is a line in
canonical form. -/
theorem canonicalText_stable_iff (t : Text) : canonicalText (canonicalText t) = canonicalText t ↔
    byteOrderMark <+: t ∨ ∀ l ∈ (Document.parse t).firstLine?, ∀ c,
      l.canonical t = byteOrderMark ++ c → IsCanonicalLine c := by
  by_cases ht : byteOrderMark <+: t
  · exact iff_of_true (canonicalText_of_mark (mark_canonicalText_of_start ht)) (.inl ht)
  obtain ⟨runs, hruns, hw⟩ := t.exists_runs
  rw [or_iff_right ht]
  by_cases hu : byteOrderMark <+: canonicalText t
  · obtain ⟨a, run, rest, c, rfl, hc⟩ := exists_marked_line hruns hw ht hu
    obtain ⟨l, hl, ha⟩ := hruns.exists_firstLine
    rw [canonicalText_marked_iff hruns hw ht hc, hl]
    constructor
    · rintro h m ⟨⟩ d hd
      rw [ha.canonical, hc] at hd
      rwa [← List.append_cancel_left hd]
    · intro h
      exact h l rfl c (ha.canonical.trans hc)
  · have hm : (canonicalText t).mark = t.mark := by
      rw [Text.mark_of_no_start ht, Text.mark_of_no_start hu]
    refine iff_of_true (canonicalText_of_mark hm) fun l hl c hc => absurd ?_ hu
    obtain ⟨a, run, rest, rfl, ha⟩ := hruns.exists_first_layout hl
    rw [ha.canonical] at hc
    rw [canonicalText_cons hruns, Text.mark_of_no_start ht, hc, List.append_assoc]
    exact List.prefix_append _ _

/-- A name behind the bytes of a byte order mark on the second line is respelled only when the text
is written once more. -/
theorem canonicalText_unstable :
    canonicalText (utf8 "\n\ufeffuser-agent: *") = utf8 "\ufeffuser-agent: *\n" ∧
      canonicalText (canonicalText (utf8 "\n\ufeffuser-agent: *")) ≠
        canonicalText (utf8 "\n\ufeffuser-agent: *") := by
  decide

/-- **Written twice, every text settles.** -/
theorem canonicalText_settles (t : Text) :
    canonicalText (canonicalText (canonicalText t)) = canonicalText (canonicalText t) := by
  by_cases hu : byteOrderMark <+: canonicalText t
  · exact canonicalText_of_mark (mark_canonicalText_of_start hu)
  · have ht : ¬ byteOrderMark <+: t := fun ht =>
      hu (Text.start_of_mark ((mark_canonicalText_of_start ht).trans (Text.mark_of_start ht)))
    have hm : (canonicalText t).mark = t.mark := by
      rw [Text.mark_of_no_start ht, Text.mark_of_no_start hu]
    rw [canonicalText_of_mark hm, canonicalText_of_mark hm]

end RobotsTxt
