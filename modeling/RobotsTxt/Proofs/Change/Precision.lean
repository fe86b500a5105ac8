import RobotsTxt.Proofs.Change.Alignment

/-!
# What the impact leaves alone

After a single change, the impact keeps clear of every record that has only been moved, and there is
an impact only if the change touches a record.

* `Change.image`: a record moved as far as a change moves its start.
* `Change.image_cases`: a record that the change does not touch stays, or moves with the text behind
  the change.
* `Patch.touches_impact_iff`: which of the new records the impact reaches.
* `impact?_eq_none_iff`: when there is no impact.
* **`impact?_precise`**: both for every replacement.
-/

namespace RobotsTxt

/-! ## Images -/

/-- The image of a record under a change: the record moved as far as its start. -/
def Change.image (c : Change) (r : Record) : Record :=
  r.shift (translatePoint [c] .before r.span.start - r.span.start)

section Images

variable {c : Change} {r : Record}

theorem Change.image_of_before (hr : r.span.start < r.span.stop) (h : r.span.stop < c.old.start) :
    c.image r = r := by
  rw [image, translatePoint_before, if_pos (by omega), Int.sub_self, Record.shift_zero]

theorem Change.image_of_behind (hc : c.Plain) (h : c.old.stop < r.span.start) :
    c.image r = r.shift c.delta := by
  have hle := hc.old
  rw [image, translatePoint_before, if_neg (by omega), if_neg (by omega), Int.add_comm,
    Int.add_sub_cancel]

/-- A record that a change does not touch stays where it is, or moves with the text behind it. -/
theorem Change.image_cases (hc : c.Plain) (hr : r.span.start < r.span.stop)
    (h : ¬ r.span.touches c.old) : (r.span.stop < c.old.start ∧ c.image r = r) ∨
      (c.old.stop < r.span.start ∧ c.image r = r.shift c.delta) := by
  simp only [Span.touches, Bool.and_eq_true, decide_eq_true_eq] at h
  by_cases hleft : r.span.stop < c.old.start
  · exact .inl ⟨hleft, Change.image_of_before hr hleft⟩
  · have hright : c.old.stop < r.span.start := by omega
    exact .inr ⟨hright, Change.image_of_behind hc hright⟩

end Images

/-! ## Records and the impact -/

namespace Patch

variable {p : Patch} {tail : Text} {s : Span} {r r' : Record}

theorem not_touches_impact
    (hs : impact? (Document.parse (before tail [p])) (Document.parse (after tail [p])) [p.change] =
      some s)
    (hr : r ∈ (Document.parse (before tail [p])).records) (hmiss : ¬ r.span.touches p.change.old)
    (hr' : p.change.image r ∈ (Document.parse (after tail [p])).records) :
    ¬ (p.change.image r).span.touches s := by
  have hplain := p.plain_change
  simp only [Span.touches, Bool.and_eq_true, decide_eq_true_eq]
  rcases Change.image_cases hplain (Document.span_of_mem_records hr).2.1 hmiss with
    ⟨hleft, heq⟩ | ⟨hright, heq⟩
  · rw [heq] at hr' ⊢
    have := stop_lt_impact hplain hr hr' hleft s hs
    omega
  · rw [heq] at hr' ⊢
    have := impact_lt_start hplain hr hr' hright s hs
    simp only [Record.shift, Span.shift]
    omega

/-- **The impact reaches a new record only if it is no image** of an old record that the change does
not touch. -/
theorem touches_impact_iff
    (hs : impact? (Document.parse (before tail [p])) (Document.parse (after tail [p])) [p.change] =
      some s) (hr' : r' ∈ (Document.parse (after tail [p])).records) :
    r'.span.touches s ↔
      ¬ ∃ r ∈ (Document.parse (before tail [p])).records, ¬ r.span.touches p.change.old ∧
        p.change.image r = r' := by
  have hspan := Document.span_of_mem_records hr'
  constructor
  · rintro ht ⟨r, hr, hmiss, rfl⟩
    exact not_touches_impact hs hr hmiss hr' ht
  · intro hno
    rcases new_record_cases hr' with ⟨i, hi, hstart, hstop⟩ | ⟨hleft, hr⟩ | ⟨r, hr, hright, rfl⟩
    · obtain rfl : s = i := Option.some_inj.mp (hs.symm.trans hi)
      simp only [Span.touches, Bool.and_eq_true, decide_eq_true_eq]
      omega
    · refine absurd ⟨r', hr, ?_, Change.image_of_before hspan.2.1 hleft⟩ hno
      simp only [Span.touches, Bool.and_eq_true, decide_eq_true_eq]
      omega
    · refine absurd ⟨r, hr, ?_, Change.image_of_behind p.plain_change hright⟩ hno
      simp only [Span.touches, Bool.and_eq_true, decide_eq_true_eq]
      omega

end Patch

theorem Document.touched?_eq_none_iff {d : Document} {s : Span} :
    d.touched? [s] = none ↔ ∀ r ∈ d.records, ¬ r.span.touches s := by
  constructor
  · intro h r hr ht
    have hhit : r ∈ d.hits [s] := Document.mem_hits.mpr ⟨hr, s, List.mem_singleton_self s, ht⟩
    rw [Document.touched?_eq_none h] at hhit
    exact List.not_mem_nil hhit
  · intro h
    cases ht : d.touched? [s] with
    | none => rfl
    | some q =>
      obtain ⟨first, hfirst, -⟩ := Document.exists_ends ht
      obtain ⟨hr, s', hs', hit⟩ := Document.mem_hits.mp hfirst
      rw [List.mem_singleton.mp hs'] at hit
      exact absurd hit (h first hr)

theorem impact?_eq_none_iff {d d' : Document} {c : Change} :
    impact? d d' [c] = none ↔ (∀ r ∈ d.records, ¬ r.span.touches c.old) ∧
      ∀ r ∈ d'.records, ¬ r.span.touches c.new := by
  rw [← Document.touched?_eq_none_iff, ← Document.touched?_eq_none_iff, impact?, List.map_cons,
    List.map_nil, List.map_cons, List.map_nil]
  cases d.touched? [c.old] with
  | none => simp
  | some o => cases d'.touched? [c.new] <;> simp

/-- **The impact is precise.** After a single replacement, the impact shares a position or an edge
with a new record if and only if this record is not the image of an old record that the change does
not touch; and there is no impact if and only if the change touches no old and no new record. -/
theorem impact?_precise (o : Text) (r : Replacement) (h : Replacement.Fit o 0 [r]) :
    let n := Replacement.applyAll o [r]
    let impact := impact? (Document.parse o) (Document.parse n) [r.change]
    (∀ s, impact = some s → ∀ q ∈ (Document.parse n).records,
      (q.span.touches s ↔
        ¬ ∃ p ∈ (Document.parse o).records, ¬ p.span.touches r.change.old ∧
          r.change.image p = q)) ∧
    (impact = none ↔ (∀ p ∈ (Document.parse o).records, ¬ p.span.touches r.change.old) ∧
      ∀ q ∈ (Document.parse n).records, ¬ q.span.touches r.change.new) := by
  obtain ⟨p, tail, ho, hn, hc⟩ := Replacement.exists_patch h
  simp only [hn, ← hc]
  subst ho
  exact ⟨fun s hs q hq => Patch.touches_impact_iff hs hq, impact?_eq_none_iff⟩

/-- A record that an empty line splits. The record before it keeps clear of the impact. The first
part does not, although it is a copy of that record: it is not its image. -/
theorem impact?_precise_split :
    let o := utf8 "a: 1\n\na: 1\nb: 2"
    let r : Replacement := ⟨11, 11, utf8 "\n"⟩
    let n := Replacement.applyAll o [r]
    Replacement.Fit o 0 [r] ∧
      impact? (Document.parse o) (Document.parse n) [r.change] = some ⟨6, 16⟩ ∧
      (Document.parse n).records.map (fun q => (q.span, q.span.touches ⟨6, 16⟩)) =
        [(⟨0, 4⟩, false), (⟨6, 10⟩, true), (⟨12, 16⟩, true)] ∧
      ∀ q ∈ (Document.parse n).records, (q.span.touches ⟨6, 16⟩ ↔
        ¬ ∃ p ∈ (Document.parse o).records, ¬ p.span.touches r.change.old ∧
          r.change.image p = q) := by
  intro o r n
  have hfit : Replacement.Fit o 0 [r] := by decide +kernel
  have himpact : impact? (Document.parse o) (Document.parse n) [r.change] = some ⟨6, 16⟩ := by
    decide +kernel
  exact ⟨hfit, himpact, by decide +kernel, (impact?_precise o r hfit).1 _ himpact⟩

end RobotsTxt
