import Mathlib.Data.List.Sort
import Mathlib.Order.MinMax
import RobotsTxt.Proofs.Change.Impact
import RobotsTxt.Proofs.Document.WellFormed

/-!
# Records around a change

A single change leaves the records before it where they are, and moves the records behind it by one
distance. All others, old and new, lie inside the impact.

* `Change.delta`: the distance; `translatePoint_before`, `translatePoint_after`: offsets carried
  through one change.
* `Change.Aligned`: the records of two documents, cut at the change.
* **`Patch.exists_aligned`**: the records around a change can be cut in this way.
-/

namespace RobotsTxt

/-! ## Offsets and one change -/

/-- How far a change moves what stands behind it. -/
def Change.delta (c : Change) : Int := c.new.stop - c.old.stop

/-- A change that stands at one place in both texts. -/
structure Change.Plain (c : Change) : Prop where
  start : c.new.start = c.old.start
  old : c.old.start ≤ c.old.stop
  new : c.new.start ≤ c.new.stop

section Offsets

variable {c : Change}

theorem translatePoint_before (c : Change) (x : Int) : translatePoint [c] .before x =
    if x ≤ c.old.start then x else if x < c.old.stop then c.new.start else x + c.delta := by
  simp only [translatePoint, Change.sorted, List.mergeSort_singleton, Change.carry, Change.delta]
  split_ifs <;> simp_all <;> omega

theorem translatePoint_after (c : Change) (x : Int) : translatePoint [c] .after x =
    if x < c.old.start then x else if x < c.old.stop then c.new.stop else x + c.delta := by
  simp only [translatePoint, Change.sorted, List.mergeSort_singleton, Change.carry, Change.delta]
  split_ifs <;> simp_all

theorem Change.Plain.translate_mono (h : c.Plain) (tracking : Tracking) {x y : Int} (hxy : x ≤ y) :
    translatePoint [c] tracking x ≤ translatePoint [c] tracking y := by
  obtain ⟨h₁, h₂, h₃⟩ := h
  cases tracking with
  | before =>
    rw [translatePoint_before, translatePoint_before, Change.delta]
    split_ifs <;> omega
  | after =>
    rw [translatePoint_after, translatePoint_after, Change.delta]
    split_ifs <;> omega

theorem Change.Plain.before_le_after (h : c.Plain) {x y : Int} (hxy : x ≤ y) :
    translatePoint [c] .before x ≤ translatePoint [c] .after y := by
  obtain ⟨h₁, h₂, h₃⟩ := h
  rw [translatePoint_before, translatePoint_after, Change.delta]
  split_ifs <;> omega

theorem Change.Plain.translateSpan_eq (h : c.Plain) {s : Span} (hs : s.start ≤ s.stop) :
    translateSpan [c] s =
      ⟨translatePoint [c] .before s.start, translatePoint [c] .after s.stop⟩ := by
  rw [translateSpan, max_eq_right (h.before_le_after hs)]

theorem translateSpan_left {s : Span} (hs : s.start ≤ s.stop) (h : s.stop < c.old.start) :
    translateSpan [c] s = s := by
  rw [translateSpan, translatePoint_before, translatePoint_after, if_pos (by omega), if_pos h,
    max_eq_right hs]

theorem translateSpan_right {s : Span} (hs : s.start ≤ s.stop) (hc : c.old.start ≤ c.old.stop)
    (h : c.old.stop < s.start) : translateSpan [c] s = s.shift c.delta := by
  rw [translateSpan, translatePoint_before, translatePoint_after, if_neg (by omega),
    if_neg (by omega), if_neg (by omega), if_neg (by omega), max_eq_right (by omega)]
  rfl

end Offsets

/-! ## Untouched records -/

namespace Patch

variable {p : Patch} {tail : Text}

/-- The change of a single patch. -/
def change (p : Patch) : Change :=
  ⟨⟨p.kept.length, p.kept.length + p.gone.length⟩, ⟨p.kept.length, p.kept.length + p.come.length⟩⟩

theorem changes_singleton (p : Patch) : changes 0 0 [p] = [p.change] := by
  simp [changes, change]

theorem plain_change (p : Patch) : p.change.Plain := by
  constructor <;> simp only [change] <;> omega

end Patch

/-- The change that a replacement makes. -/
def Replacement.change (r : Replacement) : Change :=
  ⟨⟨r.start, r.stop⟩, ⟨r.start, r.start + r.new.length⟩⟩

theorem Replacement.exists_patch {o : Text} {r : Replacement} (h : Replacement.Fit o 0 [r]) :
    ∃ p tail, o = Patch.before tail [p] ∧ Replacement.applyAll o [r] = Patch.after tail [p] ∧
      p.change = r.change := by
  obtain ⟨ps, tail, ho, hn, hc⟩ := Replacement.exists_patches h
  rw [List.drop_zero] at ho
  have hchanges := hc 0 0 rfl
  match ps, hchanges with
  | [], hchanges => simp [Replacement.changes, Patch.changes] at hchanges
  | [p], hchanges =>
    refine ⟨p, tail, ho, hn, ?_⟩
    rw [Patch.changes_singleton] at hchanges
    simpa [Replacement.changes, Replacement.change] using hchanges.symm
  | p :: q :: ps, hchanges => simp [Replacement.changes, Patch.changes] at hchanges

theorem Token.map_shift_zero (t? : Option Token) : t?.map (·.shift 0) = t? := by
  cases t? <;> simp [Token.shift, Span.shift]

theorem Line.shift_zero (l : Line) : l.shift 0 = l := by
  simp only [Line.shift, Token.map_shift_zero, Span.shift, Int.add_zero]

theorem Record.shift_zero (r : Record) : r.shift 0 = r := by
  simp only [Record.shift, Token.map_shift_zero, Span.shift, Int.add_zero, Line.shift_zero,
    List.map_id']

theorem Change.Follows.cases {c : Change} (hc : c.Plain) {r r' : Record}
    (h : Change.Follows [c] r r') (hr : r.span.start < r.span.stop) :
    (r.span.stop < c.old.start ∧ r' = r) ∨
      (c.old.stop < r.span.start ∧ r' = r.shift c.delta) := by
  obtain ⟨δ, rfl⟩ := h.shift
  have hmiss := h.misses c (List.mem_singleton_self c)
  have hstart := h.start
  have hplain := hc.old
  simp only [Span.touches, Bool.and_eq_true, decide_eq_true_eq] at hmiss
  rw [translatePoint_before, Record.shift, Span.shift] at hstart
  by_cases hleft : r.span.stop < c.old.start
  · rw [if_pos (by omega)] at hstart
    obtain rfl : δ = 0 := by simp only at hstart; omega
    exact .inl ⟨hleft, Record.shift_zero r⟩
  · rw [if_neg (by omega), if_neg (by omega)] at hstart
    obtain rfl : δ = c.delta := by simp only at hstart; omega
    exact .inr ⟨by omega, rfl⟩

/-! ## The ends of the impact -/

theorem impact?_ends {c : Change} (hc : c.Plain) {o n : Text} {i : Span}
    (h : impact? (Document.parse o) (Document.parse n) [c] = some i) :
    ((∃ q ∈ (Document.parse o).hits [c.old], i.start = translatePoint [c] .before q.span.start) ∨
        ∃ q ∈ (Document.parse n).hits [c.new], i.start = q.span.start) ∧
      ((∃ q ∈ (Document.parse o).hits [c.old], i.stop = translatePoint [c] .after q.span.stop) ∨
        ∃ q ∈ (Document.parse n).hits [c.new], i.stop = q.span.stop) := by
  unfold impact? at h
  simp only [List.map_cons, List.map_nil] at h
  cases ho : (Document.parse o).touched? [c.old] with
  | none =>
    rw [ho] at h
    obtain ⟨first, hfirst, last, hlast, rfl, -, -⟩ := Document.exists_ends h
    exact ⟨.inr ⟨first, hfirst, rfl⟩, .inr ⟨last, hlast, rfl⟩⟩
  | some q =>
    have hq := hc.translateSpan_eq (Document.touched?_bounds ho).2.1
    obtain ⟨first, hfirst, last, hlast, rfl, -, -⟩ := Document.exists_ends ho
    rw [ho] at h
    cases hn : (Document.parse n).touched? [c.new] with
    | none =>
      rw [hn, Option.some_inj, hq] at h
      subst h
      exact ⟨.inl ⟨first, hfirst, rfl⟩, .inl ⟨last, hlast, rfl⟩⟩
    | some q' =>
      obtain ⟨first', hfirst', last', hlast', rfl, -, -⟩ := Document.exists_ends hn
      rw [hn, Option.some_inj, hq] at h
      subst h
      constructor
      · rcases min_choice (translatePoint [c] .before first.span.start) first'.span.start with h | h
        · exact .inl ⟨first, hfirst, h⟩
        · exact .inr ⟨first', hfirst', h⟩
      · rcases max_choice (translatePoint [c] .after last.span.stop) last'.span.stop with h | h
        · exact .inl ⟨last, hlast, h⟩
        · exact .inr ⟨last', hlast', h⟩

theorem touches_of_hit {t : Text} {s : Span} {q : Record} (h : q ∈ (Document.parse t).hits [s]) :
    q ∈ (Document.parse t).records ∧ s.start ≤ q.span.stop ∧ q.span.start ≤ s.stop := by
  obtain ⟨hq, s', hs, ht⟩ := Document.mem_hits.mp h
  obtain rfl := List.mem_singleton.mp hs
  simp only [Span.touches, Bool.and_eq_true, decide_eq_true_eq] at ht
  exact ⟨hq, ht⟩

theorem Document.apart {t : Text} {q r : Record} (hq : q ∈ (Document.parse t).records)
    (hr : r ∈ (Document.parse t).records) (hne : q ≠ r) :
    q.span.stop < r.span.start ∨ r.span.stop < q.span.start := by
  let Apart (q r : Record) : Prop := q.span.stop < r.span.start ∨ r.span.stop < q.span.start
  have : Std.Symm Apart := ⟨fun _ _ h => h.symm⟩
  have hapart : (Document.parse t).records.Pairwise Apart :=
    (Document.pairwise_records t).imp Or.inl
  exact hapart.forall hq hr hne

section Ends

variable {c : Change} {o n : Text} {r : Record}

theorem stop_lt_impact (hc : c.Plain) (ho : r ∈ (Document.parse o).records)
    (hn : r ∈ (Document.parse n).records) (hr : r.span.stop < c.old.start) :
    ∀ i ∈ impact? (Document.parse o) (Document.parse n) [c], r.span.stop < i.start := by
  intro i hi
  have hspan := Document.span_of_mem_records ho
  have hdelta : c.delta = c.new.stop - c.old.stop := rfl
  have hends := (impact?_ends hc hi).1
  obtain ⟨h₁, h₂, h₃⟩ := hc
  rcases hends with ⟨q, hq, hstart⟩ | ⟨q, hq, hstart⟩
  · obtain ⟨hq, hfirst, -⟩ := touches_of_hit hq
    have hqspan := Document.span_of_mem_records hq
    rcases Document.apart ho hq (by rintro rfl; omega) with h | h
    · rw [hstart, translatePoint_before]
      split_ifs <;> omega
    · omega
  · obtain ⟨hq, hfirst, -⟩ := touches_of_hit hq
    have hqspan := Document.span_of_mem_records hq
    rcases Document.apart hn hq (by rintro rfl; omega) with h | h <;> omega

theorem impact_lt_start (hc : c.Plain) (ho : r ∈ (Document.parse o).records)
    (hn : r.shift c.delta ∈ (Document.parse n).records) (hr : c.old.stop < r.span.start) :
    ∀ i ∈ impact? (Document.parse o) (Document.parse n) [c], i.stop < r.span.start + c.delta := by
  intro i hi
  have hspan := Document.span_of_mem_records ho
  rcases (impact?_ends hc hi).2 with ⟨q, hq, hstop⟩ | ⟨q, hq, hstop⟩
  · obtain ⟨hq, -, hlast⟩ := touches_of_hit hq
    have hqspan := Document.span_of_mem_records hq
    obtain ⟨h₁, h₂, h₃⟩ := hc
    rcases Document.apart ho hq (by rintro rfl; omega) with h | h
    · omega
    · rw [hstop, translatePoint_after, Change.delta]
      split_ifs <;> omega
  · obtain ⟨hq, -, hlast⟩ := touches_of_hit hq
    have hqspan := Document.span_of_mem_records hq
    have hshift : (r.shift c.delta).span = ⟨r.span.start + c.delta, r.span.stop + c.delta⟩ := rfl
    have hdelta : c.delta = c.new.stop - c.old.stop := rfl
    rcases Document.apart hn hq (by rintro rfl; rw [hshift] at hlast; simp only at hlast; omega)
      with h | h <;> rw [hshift] at h <;> simp only at h <;> omega

end Ends

/-! ## Old and new records -/

namespace Patch

variable {p : Patch} {tail : Text}

theorem new_record_cases {r' : Record} (h : r' ∈ (Document.parse (after tail [p])).records) :
    (∃ i ∈ impact? (Document.parse (before tail [p])) (Document.parse (after tail [p])) [p.change],
        r'.span.Within i) ∨
      (r'.span.stop < p.change.old.start ∧ r' ∈ (Document.parse (before tail [p])).records) ∨
      ∃ r ∈ (Document.parse (before tail [p])).records,
        p.change.old.stop < r.span.start ∧ r' = r.shift p.change.delta := by
  by_cases hmiss : ∀ c ∈ changes 0 0 [p], ¬ r'.span.touches c.new
  · obtain ⟨r, hr, hf | hcov⟩ := exists_follows_or_covers h hmiss
    · rw [changes_singleton] at hf
      rcases hf.cases p.plain_change (Document.span_of_mem_records hr).2.1 with
        ⟨hl, rfl⟩ | ⟨hl, rfl⟩
      · exact .inr (.inl ⟨hl, hr⟩)
      · exact .inr (.inr ⟨r, hr, hl, rfl⟩)
    · rw [← changes_singleton]
      exact .inl (impact?_covers_old hr hcov)
  · push Not at hmiss
    obtain ⟨c, hmem, ht⟩ := hmiss
    rw [← changes_singleton]
    exact .inl (impact?_covers_new
      (Document.mem_hits.mpr ⟨h, c.new, List.mem_map_of_mem hmem, ht⟩))

/-- An old record that a change touches becomes a part of the impact. -/
theorem within_of_touched {r : Record} (h : r ∈ (Document.parse (before tail [p])).records)
    (ht : r.span.touches p.change.old) :
    ∃ i ∈ impact? (Document.parse (before tail [p])) (Document.parse (after tail [p])) [p.change],
      (translateSpan [p.change] r.span).Within i := by
  have hspan := Document.span_of_mem_records h
  obtain ⟨q, hq, hstart, hstop⟩ := Document.cover_touched
    (Document.mem_hits.mpr ⟨h, _, List.mem_singleton_self _, ht⟩)
  have hbounds := Document.touched?_bounds hq
  have h₁ := p.plain_change.translate_mono .before hstart
  have h₂ := p.plain_change.translate_mono .after hstop
  rw [p.plain_change.translateSpan_eq (Int.le_of_lt hspan.2.1)]
  unfold impact?
  simp only [List.map_cons, List.map_nil, hq]
  cases (Document.parse (after tail [p])).touched? [p.change.new] with
  | none =>
    refine ⟨_, rfl, ?_⟩
    rw [p.plain_change.translateSpan_eq hbounds.2.1]
    exact ⟨h₁, h₂⟩
  | some s =>
    refine ⟨_, rfl, ?_⟩
    rw [p.plain_change.translateSpan_eq hbounds.2.1]
    simp only [Span.cover]
    constructor
    · exact Int.le_trans (min_le_left _ _) h₁
    · exact Int.le_trans h₂ (le_max_left _ _)

/-- What a new record covers that the change touches becomes a part of the new record. -/
theorem within_of_covered {r r' : Record} (hr : r.span.start < r.span.stop)
    (ht : ¬ r.span.touches p.change.old) (h : Change.Covers [p.change.swap] r' r) :
    (translateSpan [p.change] r.span).Within r'.span := by
  obtain ⟨c, hc, hit⟩ := h.touched
  rw [List.mem_singleton] at hc
  subst hc
  obtain ⟨h₁, h₂, h₃⟩ := p.plain_change
  have hstart := h.start
  have hstop := h.stop
  rw [translatePoint_before] at hstart
  rw [translatePoint_after] at hstop
  simp only [Span.touches, Bool.and_eq_true, decide_eq_true_eq, Change.swap, Change.delta]
    at ht hit hstart hstop
  by_cases hleft : r.span.stop < p.change.old.start
  · rw [translateSpan_left (Int.le_of_lt hr) hleft]
    split_ifs at hstart <;> exact ⟨by omega, by omega⟩
  · rw [translateSpan_right (Int.le_of_lt hr) h₂ (by omega)]
    simp only [Span.shift, Change.delta]
    split_ifs at hstop <;> exact ⟨by simp only; omega, by simp only; omega⟩

theorem old_record_cases {r : Record} (h : r ∈ (Document.parse (before tail [p])).records) :
    (∃ i ∈ impact? (Document.parse (before tail [p])) (Document.parse (after tail [p])) [p.change],
        (translateSpan [p.change] r.span).Within i) ∨
      (r.span.stop < p.change.old.start ∧ r ∈ (Document.parse (after tail [p])).records) ∨
      (p.change.old.stop < r.span.start ∧
        r.shift p.change.delta ∈ (Document.parse (after tail [p])).records) := by
  by_cases ht : r.span.touches p.change.old
  · exact .inl (within_of_touched h ht)
  have hspan := Document.span_of_mem_records h
  -- seen from the new text, the old record is a new one
  have hold : r ∈ (Document.parse (after tail [p.swap])).records := by
    rw [show after tail [p.swap] = before tail [p] from after_swap tail [p]]
    exact h
  have hmiss : ∀ c ∈ changes 0 0 [p.swap], ¬ r.span.touches c.new := by
    intro c hc
    rw [changes_singleton, List.mem_singleton] at hc
    subst hc
    exact ht
  obtain ⟨r', hr', hcases⟩ := exists_follows_or_covers hold hmiss
  rw [show before tail [p.swap] = after tail [p] from before_swap tail [p]] at hr'
  rw [changes_singleton] at hcases
  rcases hcases with hf | hcov
  · obtain ⟨h₁, -, -⟩ := p.plain_change
    have hdelta : p.swap.change.delta = - p.change.delta := by
      simp only [Change.delta, change, swap]
      omega
    rcases hf.cases p.swap.plain_change (Document.span_of_mem_records hr').2.1 with
      ⟨hl, rfl⟩ | ⟨hl, rfl⟩
    · exact .inr (.inl ⟨by rw [← h₁]; exact hl, hr'⟩)
    · rw [hdelta, Record.shift_shift, Int.add_left_neg, Record.shift_zero]
      refine .inr (.inr ⟨?_, hr'⟩)
      have hnew : p.swap.change.old.stop = p.change.new.stop := rfl
      simp only [Change.delta, Record.shift, Span.shift]
      omega
  · have hwithin := within_of_covered hspan.2.1 ht hcov
    obtain ⟨c, hc, hit⟩ := hcov.touched
    rw [List.mem_singleton] at hc
    subst hc
    have hmem : r' ∈ (Document.parse (after tail [p])).hits ((changes 0 0 [p]).map Change.new) :=
      Document.mem_hits.mpr ⟨hr', p.change.new, by simp [changes_singleton], hit⟩
    obtain ⟨i, hi, hfirst, hlast⟩ := impact?_covers_new hmem
    rw [changes_singleton] at hi
    exact .inl ⟨i, hi, Int.le_trans hfirst hwithin.1, Int.le_trans hwithin.2 hlast⟩

end Patch

/-! ## The cut -/

namespace Change

/-- A record that stands before a change and before the impact. -/
def Before (c : Change) (impact : Option Span) (r : Record) : Prop :=
  r.span.stop < c.old.start ∧ ∀ i ∈ impact, r.span.stop < i.start

/-- An old record that stands behind a change and, when it has moved, behind the impact. -/
def Behind (c : Change) (impact : Option Span) (r : Record) : Prop :=
  c.old.stop < r.span.start ∧ ∀ i ∈ impact, i.stop < r.span.start + c.delta

/-- **The records of two documents, cut at a change**: those before it, which stay, those behind it,
which move, and those in between, which lie inside the impact. -/
structure Aligned (c : Change) (impact : Option Span) (old new front gone come back : List Record) :
    Prop where
  old_eq : old = front ++ gone ++ back
  new_eq : new = front ++ come ++ back.map (·.shift c.delta)
  front : ∀ r ∈ front, c.Before impact r
  gone : ∀ r ∈ gone, ∃ i ∈ impact, (translateSpan [c] r.span).Within i
  come : ∀ r ∈ come, ∃ i ∈ impact, r.span.Within i
  back : ∀ r ∈ back, c.Behind impact r

end Change

theorem exists_cut {α : Type} {R : α → α → Prop} (left right : α → Prop) {xs : List α}
    (h : xs.Pairwise R) (hleft : ∀ x y, R x y → left y → left x)
    (hright : ∀ x y, R x y → right x → right y) (hno : ∀ x ∈ xs, left x → ¬ right x) :
    ∃ front mid back, xs = front ++ mid ++ back ∧ (∀ x, x ∈ front ↔ x ∈ xs ∧ left x) ∧
      (∀ x, x ∈ back ↔ x ∈ xs ∧ right x) ∧ ∀ x ∈ mid, x ∈ xs ∧ ¬ left x ∧ ¬ right x := by
  induction xs with
  | nil => exact ⟨[], [], [], rfl, by simp, by simp, by simp⟩
  | cons x xs ih =>
    obtain ⟨hx, hxs⟩ := List.pairwise_cons.mp h
    obtain ⟨front, mid, back, rfl, hfront, hback, hmid⟩ :=
      ih hxs fun y hy => hno y (List.mem_cons_of_mem _ hy)
    by_cases hl : left x
    · have hr := hno x List.mem_cons_self hl
      refine ⟨x :: front, mid, back, by simp, fun y => ?_, fun y => ?_, fun y hy => ?_⟩
      · rw [List.mem_cons, hfront, List.mem_cons]
        grind
      · rw [hback, List.mem_cons]
        grind
      · have := hmid y hy
        exact ⟨List.mem_cons_of_mem _ this.1, this.2⟩
    · -- nothing behind `x` is on the left either
      obtain rfl : front = [] := List.eq_nil_iff_forall_not_mem.mpr fun y hy =>
        hl (hleft x y (hx y (by simp [hy])) ((hfront y).mp hy).2)
      by_cases hr : right x
      · obtain rfl : mid = [] := List.eq_nil_iff_forall_not_mem.mpr fun y hy =>
          (hmid y hy).2.2 (hright x y (hx y (by simp [hy])) hr)
        refine ⟨[], [], x :: back, by simp, fun y => ?_, fun y => ?_, by simp⟩
        · have := hfront y
          grind
        · have := hback y
          grind
      · refine ⟨[], x :: mid, back, by simp, fun y => ?_, fun y => ?_, fun y hy => ?_⟩
        · have := hfront y
          grind
        · have := hback y
          grind
        · have := hmid y
          grind

/-- A record that has a span and stops before another one starts. -/
def Record.Clears (r s : Record) : Prop :=
  r.span.start < r.span.stop ∧ r.span.stop < s.span.start ∧ s.span.start < s.span.stop

theorem Document.pairwise_clears (t : Text) :
    (Document.parse t).records.Pairwise Record.Clears := by
  refine (Document.pairwise_records t).imp_of_mem fun {r s} hr hs h => ?_
  exact ⟨(Document.span_of_mem_records hr).2.1, h, (Document.span_of_mem_records hs).2.1⟩

theorem Record.eq_of_mem_iff {rs ss : List Record} (hr : rs.Pairwise Record.Clears)
    (hs : ss.Pairwise Record.Clears) (h : ∀ r, r ∈ rs ↔ r ∈ ss) : rs = ss := by
  have hirrefl : Std.Irrefl Record.Clears := ⟨fun r h => by obtain ⟨h₁, h₂, -⟩ := h; omega⟩
  have hanti : Std.Antisymm Record.Clears :=
    ⟨fun r s h h' => by obtain ⟨h₁, h₂, h₃⟩ := h; obtain ⟨-, h₄, -⟩ := h'; omega⟩
  exact hr.eq_of_mem_iff hs h

theorem Record.pairwise_shift {rs : List Record} (h : rs.Pairwise Record.Clears) (δ : Int) :
    (rs.map (·.shift δ)).Pairwise Record.Clears := by
  refine List.pairwise_map.mpr (h.imp fun {r s} h => ?_)
  obtain ⟨h₁, h₂, h₃⟩ := h
  simp only [Record.Clears, Record.shift, Span.shift]
  omega

section Cut

variable {c : Change} {impact : Option Span} {old new : List Record} {r : Record}

theorem Change.Before.not_within (h : c.Before impact r) (hr : r.span.start < r.span.stop) :
    ¬ ∃ i ∈ impact, r.span.Within i := by
  rintro ⟨i, hi, hstart, -⟩
  have := h.2 i hi
  omega

theorem Change.Before.not_within_old (h : c.Before impact r) (hr : r.span.start < r.span.stop) :
    ¬ ∃ i ∈ impact, (translateSpan [c] r.span).Within i := by
  rw [translateSpan_left (Int.le_of_lt hr) h.1]
  exact h.not_within hr

theorem Change.Behind.not_within (h : c.Behind impact r) (hr : r.span.start < r.span.stop) :
    ¬ ∃ i ∈ impact, (r.shift c.delta).span.Within i := by
  rintro ⟨i, hi, -, hstop⟩
  have := h.2 i hi
  simp only [Record.shift, Span.shift] at hstop
  omega

theorem Change.Behind.not_within_old (h : c.Behind impact r) (hc : c.Plain)
    (hr : r.span.start < r.span.stop) :
    ¬ ∃ i ∈ impact, (translateSpan [c] r.span).Within i := by
  rw [translateSpan_right (Int.le_of_lt hr) hc.old h.1]
  exact h.not_within hr

theorem Change.Before.not_behind (h : c.Before impact r) (hc : c.Plain)
    (hr : r.span.start < r.span.stop) : ¬ c.Behind impact r := by
  intro h'
  have h₁ := h.1
  have h₂ := h'.1
  have h₃ := hc.old
  omega

theorem Change.Before.not_moved (h : c.Before impact r) (hc : c.Plain)
    (hr : r.span.start < r.span.stop) : ¬ c.Behind impact (r.shift (-c.delta)) := by
  intro h'
  have h₁ := h.1
  have h₂ := h'.1
  obtain ⟨h₃, h₄, h₅⟩ := hc
  simp only [Record.shift, Span.shift, Change.delta] at h₂
  omega

theorem Line.shift_injective (δ : Int) : Function.Injective (Line.shift · δ) := by
  intro l m h
  have hback : (l.shift δ).shift (-δ) = (m.shift δ).shift (-δ) := congrArg (Line.shift · (-δ)) h
  rwa [Line.shift_shift, Line.shift_shift, Int.add_right_neg, Line.shift_zero,
    Line.shift_zero] at hback

theorem Record.shift_unshift (q : Record) (δ : Int) : (q.shift δ).shift (-δ) = q := by
  rw [Record.shift_shift, Int.add_right_neg, Record.shift_zero]

section Cases

variable (hc : c.Plain) (hspans : ∀ r, r ∈ old ∨ r ∈ new → r.span.start < r.span.stop)
  (hold : ∀ r ∈ old, (∃ i ∈ impact, (translateSpan [c] r.span).Within i) ∨
    (c.Before impact r ∧ r ∈ new) ∨ (c.Behind impact r ∧ r.shift c.delta ∈ new))
  (hnew : ∀ r ∈ new, (∃ i ∈ impact, r.span.Within i) ∨ (c.Before impact r ∧ r ∈ old) ∨
    ∃ q ∈ old, c.Behind impact q ∧ r = q.shift c.delta)

include hc hspans hold hnew

theorem before_iff : r ∈ new ∧ c.Before impact r ↔ r ∈ old ∧ c.Before impact r := by
  constructor
  · rintro ⟨hr, hb⟩
    rcases hnew r hr with hw | ⟨-, hr'⟩ | ⟨q, -, hq, rfl⟩
    · exact absurd hw (hb.not_within (hspans r (.inr hr)))
    · exact ⟨hr', hb⟩
    · rw [← q.shift_unshift c.delta] at hq
      exact absurd hq (hb.not_moved hc (hspans _ (.inr hr)))
  · rintro ⟨hr, hb⟩
    rcases hold r hr with hw | ⟨-, hr'⟩ | ⟨hq, -⟩
    · exact absurd hw (hb.not_within_old (hspans r (.inl hr)))
    · exact ⟨hr', hb⟩
    · exact absurd hq (hb.not_behind hc (hspans r (.inl hr)))

theorem behind_iff : r ∈ new ∧ c.Behind impact (r.shift (-c.delta)) ↔
    ∃ q, (q ∈ old ∧ c.Behind impact q) ∧ q.shift c.delta = r := by
  constructor
  · rintro ⟨hr, hb⟩
    rcases hnew r hr with ⟨i, hi, -, hstop⟩ | ⟨hr', -⟩ | ⟨q, hq, hq', rfl⟩
    · have hne := hspans r (.inr hr)
      have hlt := hb.2 i hi
      simp only [Record.shift, Span.shift] at hlt
      omega
    · exact absurd hb (hr'.not_moved hc (hspans r (.inr hr)))
    · exact ⟨q, ⟨hq, hq'⟩, rfl⟩
  · rintro ⟨q, ⟨hq, hb⟩, rfl⟩
    rw [Record.shift_unshift]
    rcases hold q hq with hw | ⟨hq', -⟩ | ⟨-, hq'⟩
    · exact absurd hw (hb.not_within_old hc (hspans q (.inl hq)))
    · exact absurd hb (hq'.not_behind hc (hspans q (.inl hq)))
    · exact ⟨hq', hb⟩

theorem exists_aligned_of_cases (ho : old.Pairwise Record.Clears)
    (hn : new.Pairwise Record.Clears) :
    ∃ front gone come back, c.Aligned impact old new front gone come back := by
  have hbefore : ∀ r s : Record, r.Clears s → c.Before impact s → c.Before impact r := by
    rintro r s ⟨-, h₂, h₃⟩ ⟨h₄, h₅⟩
    exact ⟨by omega, fun i hi => by have := h₅ i hi; omega⟩
  have hbehind : ∀ (δ : Int) (r s : Record), r.Clears s → c.Behind impact (r.shift δ) →
      c.Behind impact (s.shift δ) := by
    rintro δ r s ⟨h₁, h₂, -⟩ ⟨h₄, h₅⟩
    simp only [Record.shift, Span.shift] at h₄ h₅
    simp only [Change.Behind, Record.shift, Span.shift]
    exact ⟨by omega, fun i hi => by have := h₅ i hi; omega⟩
  obtain ⟨front, gone, back, hO, hfront, hback, hgone⟩ := exists_cut (c.Before impact)
    (fun r => c.Behind impact (r.shift 0)) ho hbefore (hbehind 0) fun r hr h =>
      by rw [Record.shift_zero]; exact h.not_behind hc (hspans r (.inl hr))
  obtain ⟨front', come, back', hN, hfront', hback', hcome⟩ := exists_cut (c.Before impact)
    (fun r => c.Behind impact (r.shift (-c.delta))) hn hbefore (hbehind _) fun r hr h =>
      h.not_moved hc (hspans r (.inr hr))
  simp only [Record.shift_zero] at hback hgone
  obtain rfl : front' = front := by
    refine Record.eq_of_mem_iff (hn.sublist (by rw [hN]; simp)) (ho.sublist (by rw [hO]; simp)) ?_
    intro r
    rw [hfront, hfront']
    exact before_iff hc hspans hold hnew
  obtain rfl : back' = back.map (·.shift c.delta) := by
    refine Record.eq_of_mem_iff (hn.sublist (by rw [hN]; simp))
      (Record.pairwise_shift (ho.sublist (by rw [hO]; simp)) _) ?_
    intro r
    simp only [hback', List.mem_map, hback]
    exact behind_iff hc hspans hold hnew
  refine ⟨front', gone, come, back, hO, hN, fun r hr => ((hfront r).mp hr).2, fun r hr => ?_,
    fun r hr => ?_, fun r hr => ((hback r).mp hr).2⟩
  · obtain ⟨hr, hl, hb⟩ := hgone r hr
    rcases hold r hr with hw | ⟨h, -⟩ | ⟨h, -⟩
    · exact hw
    · exact absurd h hl
    · exact absurd h hb
  · obtain ⟨hr, hl, hb⟩ := hcome r hr
    rcases hnew r hr with hw | ⟨h, -⟩ | ⟨q, -, h, rfl⟩
    · exact hw
    · exact absurd h hl
    · rw [← q.shift_unshift c.delta] at h
      exact absurd h hb

end Cases

end Cut

namespace Patch

/-- **The records around a change can be cut at it.** -/
theorem exists_aligned (p : Patch) (tail : Text) : ∃ front gone come back,
    Change.Aligned p.change
      (impact? (Document.parse (before tail [p])) (Document.parse (after tail [p])) [p.change])
      (Document.parse (before tail [p])).records (Document.parse (after tail [p])).records
      front gone come back := by
  have hplain := p.plain_change
  refine exists_aligned_of_cases hplain (fun r hr => ?_) (fun r hr => ?_) (fun r hr => ?_)
    (Document.pairwise_clears _) (Document.pairwise_clears _)
  · rcases hr with hr | hr
    · exact (Document.span_of_mem_records hr).2.1
    · exact (Document.span_of_mem_records hr).2.1
  · rcases old_record_cases hr with hw | ⟨hl, hr'⟩ | ⟨hl, hr'⟩
    · exact .inl hw
    · exact .inr (.inl ⟨⟨hl, stop_lt_impact hplain hr hr' hl⟩, hr'⟩)
    · exact .inr (.inr ⟨⟨hl, impact_lt_start hplain hr hr' hl⟩, hr'⟩)
  · rcases new_record_cases hr with hw | ⟨hl, hr'⟩ | ⟨q, hq, hl, rfl⟩
    · exact .inl hw
    · exact .inr (.inl ⟨⟨hl, stop_lt_impact hplain hr' hr hl⟩, hr'⟩)
    · exact .inr (.inr ⟨q, hq, ⟨hl, impact_lt_start hplain hq hr hl⟩, rfl⟩)

end Patch

end RobotsTxt
