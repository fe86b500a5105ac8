import RobotsTxt.Proofs.Analyzer.Remarks
import RobotsTxt.Proofs.Change.Alignment

/-!
# Remarks carried by a change

Remarks that stay with their line stay in place before a change and move along behind it. Those on
lines in between lie inside the impact, before as after.

* `Change.moved`: a diagnostic moved along with the text; `Outside`: away from the impact.
* `Change.Carries`: outside the impact, the new remarks are the old ones.
* **`Change.Aligned.carries_iff`**: remarks on some lines are carried if and only if the same lines
  behind the change are remarked on.
-/

namespace RobotsTxt

/-- A diagnostic moved along with the text. -/
def Change.moved (c : Change) (d : Diagnostic) : Diagnostic :=
  { d with span := translateSpan [c] d.span }

/-- A span that does not touch the impact. -/
def Outside (impact : Option Span) (s : Span) : Prop := ∀ i ∈ impact, ¬ s.touches i

/-! ## Lines around a change -/

section Lines

variable {c : Change} {impact : Option Span} {o n : Text} {front gone come back : List Record}
  {l m : Line} {s : Span}

theorem not_touches_of_lt {s i : Span} (h : s.stop < i.start ∨ i.stop < s.start) :
    ¬ s.touches i := by
  simp only [Span.touches, Bool.and_eq_true, decide_eq_true_eq]
  omega

theorem not_outside_of_within {i : Span} (hi : i ∈ impact) (h : s.Within i)
    (hs : s.start ≤ s.stop) :
    ¬ Outside impact s := by
  intro hout
  apply hout i hi
  obtain ⟨h₁, h₂⟩ := h
  simp only [Span.touches, Bool.and_eq_true, decide_eq_true_eq]
  omega

theorem Line.Owns.within_record {t : Text} {r : Record} (h : l.Owns s)
    (hr : r ∈ (Document.parse t).records) (hl : l ∈ r.lines) : s.Within r.span := by
  have hwf := Document.wellFormed_of_mem_records hr
  obtain ⟨h₁, h₂⟩ := hwf.within l hl
  obtain ⟨h₃, h₄⟩ := h.within (hwf.lines l hl)
  exact ⟨Int.le_trans h₁ h₃, Int.le_trans h₄ h₂⟩

theorem Line.Owns.le {t : Text} (h : l.Owns s) (hl : l ∈ (Document.parse t).lines) :
    s.start ≤ s.stop := (h.bounds hl).2.1

theorem Document.apart_lines {t : Text} (hl : l ∈ (Document.parse t).lines)
    (hm : m ∈ (Document.parse t).lines) (hne : l ≠ m) :
    l.span.stop < m.span.start ∨ m.span.stop < l.span.start := by
  obtain ⟨r, hr, hlr⟩ := List.mem_flatMap.mp hl
  obtain ⟨q, hq, hmq⟩ := List.mem_flatMap.mp hm
  have hwf := Document.wellFormed_of_mem_records hr
  by_cases he : r = q
  · subst he
    let Apart (l m : Line) : Prop := l.span.stop < m.span.start ∨ m.span.stop < l.span.start
    have : Std.Symm Apart := ⟨fun _ _ h => h.symm⟩
    have hapart : r.lines.Pairwise Apart := hwf.ordered.imp Or.inl
    exact hapart.forall hlr hmq hne
  · obtain ⟨h₁, h₁'⟩ := hwf.within l hlr
    obtain ⟨h₂, h₂'⟩ := (Document.wellFormed_of_mem_records hq).within m hmq
    rcases Document.apart hr hq he with h | h
    · exact .inl (by omega)
    · exact .inr (by omega)

theorem Line.Owns.unique {t : Text} (h : l.Owns s) (h' : m.Owns s)
    (hl : l ∈ (Document.parse t).lines) (hm : m ∈ (Document.parse t).lines) : l = m := by
  by_contra hne
  have hle := h.le hl
  obtain ⟨h₁, h₂⟩ := h.within (Document.wellFormed_of_mem_lines hl)
  obtain ⟨h₃, h₄⟩ := h'.within (Document.wellFormed_of_mem_lines hm)
  rcases Document.apart_lines hl hm hne with h | h <;> omega

end Lines

namespace Change.Aligned

variable {c : Change} {impact : Option Span} {o n : Text} {front gone come back : List Record}
  {l : Line} {s : Span}

theorem lines_old (h : c.Aligned impact (Document.parse o).records (Document.parse n).records front
    gone come back) : (Document.parse o).lines =
      front.flatMap Record.lines ++ gone.flatMap Record.lines ++ back.flatMap Record.lines := by
  rw [Document.lines, h.old_eq, List.flatMap_append, List.flatMap_append]

theorem flatMap_lines_shift (rs : List Record) (δ : Int) :
    (rs.map (·.shift δ)).flatMap Record.lines =
      (rs.flatMap Record.lines).map (·.shift δ) := by
  rw [List.flatMap_map, List.map_flatMap]
  rfl

theorem lines_new (h : c.Aligned impact (Document.parse o).records (Document.parse n).records front
    gone come back) : (Document.parse n).lines =
      front.flatMap Record.lines ++ come.flatMap Record.lines ++
        (back.flatMap Record.lines).map (·.shift c.delta) := by
  rw [Document.lines, h.new_eq, List.flatMap_append, List.flatMap_append, flatMap_lines_shift]

variable (h : c.Aligned impact (Document.parse o).records (Document.parse n).records front gone come
  back)

include h

theorem span_front (hl : l ∈ front.flatMap Record.lines) (hs : l.Owns s) :
    translateSpan [c] s = s ∧ Outside impact s := by
  obtain ⟨r, hr, hlr⟩ := List.mem_flatMap.mp hl
  have hmem : r ∈ (Document.parse o).records := by rw [h.old_eq]; simp [hr]
  have hle := hs.le (Document.mem_lines hmem hlr)
  obtain ⟨-, hstop⟩ := hs.within_record hmem hlr
  obtain ⟨hleft, himpact⟩ := h.front r hr
  refine ⟨translateSpan_left hle (by omega), fun i hi => not_touches_of_lt (.inl ?_)⟩
  have := himpact i hi
  omega

theorem span_back (hc : c.Plain) (hl : l ∈ back.flatMap Record.lines) (hs : l.Owns s) :
    translateSpan [c] s = s.shift c.delta ∧ Outside impact (s.shift c.delta) := by
  obtain ⟨r, hr, hlr⟩ := List.mem_flatMap.mp hl
  have hmem : r ∈ (Document.parse o).records := by rw [h.old_eq]; simp [hr]
  have hle := hs.le (Document.mem_lines hmem hlr)
  obtain ⟨hstart, -⟩ := hs.within_record hmem hlr
  obtain ⟨hright, himpact⟩ := h.back r hr
  refine ⟨translateSpan_right hle hc.old (by omega), fun i hi => not_touches_of_lt (.inr ?_)⟩
  have := himpact i hi
  simp only [Span.shift]
  omega

theorem span_come (hl : l ∈ come.flatMap Record.lines) (hs : l.Owns s) : ¬ Outside impact s := by
  obtain ⟨r, hr, hlr⟩ := List.mem_flatMap.mp hl
  have hmem : r ∈ (Document.parse n).records := by rw [h.new_eq]; simp [hr]
  obtain ⟨h₁, h₂⟩ := hs.within_record hmem hlr
  obtain ⟨i, hi, h₃, h₄⟩ := h.come r hr
  exact not_outside_of_within hi ⟨Int.le_trans h₃ h₁, Int.le_trans h₂ h₄⟩
    (hs.le (Document.mem_lines hmem hlr))

theorem span_gone (hc : c.Plain) (hl : l ∈ gone.flatMap Record.lines) (hs : l.Owns s) :
    ¬ Outside impact (translateSpan [c] s) := by
  obtain ⟨r, hr, hlr⟩ := List.mem_flatMap.mp hl
  have hmem : r ∈ (Document.parse o).records := by rw [h.old_eq]; simp [hr]
  have hle := hs.le (Document.mem_lines hmem hlr)
  obtain ⟨h₁, h₂⟩ := hs.within_record hmem hlr
  obtain ⟨i, hi, h₃, h₄⟩ := h.gone r hr
  rw [hc.translateSpan_eq (by omega)] at h₃ h₄
  rw [hc.translateSpan_eq hle]
  refine not_outside_of_within hi ⟨?_, ?_⟩ (hc.before_le_after hle)
  · exact Int.le_trans h₃ (hc.translate_mono .before h₁)
  · exact Int.le_trans (hc.translate_mono .after h₂) h₄

theorem front_ne_back (hc : c.Plain) {m : Line} (hl : l ∈ front.flatMap Record.lines)
    (hm : m ∈ back.flatMap Record.lines) : l ≠ m.shift c.delta := by
  rintro rfl
  obtain ⟨r, hr, hlr⟩ := List.mem_flatMap.mp hl
  obtain ⟨q, hq, hmq⟩ := List.mem_flatMap.mp hm
  have hr' : r ∈ (Document.parse o).records := by rw [h.old_eq]; simp [hr]
  have hq' : q ∈ (Document.parse o).records := by rw [h.old_eq]; simp [hq]
  have hwf := Document.wellFormed_of_mem_records hq'
  have h₁ := ((Document.wellFormed_of_mem_records hr').within _ hlr).2
  have h₂ := (hwf.within _ hmq).1
  have h₃ := (hwf.lines _ hmq).nonempty
  have h₄ := (h.front r hr).1
  have h₅ := (h.back q hq).1
  obtain ⟨h₆, h₇, h₈⟩ := hc
  simp only [Line.span_shift, Span.shift, Change.delta] at h₁
  omega

/-! ## Remarks on some of the lines -/

variable {say : Line → List Diagnostic} {d : Diagnostic}

theorem moved_front (hsay : Sticky say) (hl : l ∈ front.flatMap Record.lines) (hd : d ∈ say l) :
    c.moved d = d ∧ Outside impact d.span := by
  obtain ⟨hspan, hout⟩ := h.span_front hl (hsay.owns l d hd)
  exact ⟨by rw [Change.moved, hspan], hout⟩

theorem moved_back (hc : c.Plain) (hsay : Sticky say) (hl : l ∈ back.flatMap Record.lines)
    (hd : d ∈ say l) : c.moved d = d.shift c.delta ∧ d.shift c.delta ∈ say (l.shift c.delta) ∧
      Outside impact (d.shift c.delta).span := by
  obtain ⟨hspan, hout⟩ := h.span_back hc hl (hsay.owns l d hd)
  refine ⟨by rw [Change.moved, hspan]; rfl, ?_, hout⟩
  rw [hsay.shift]
  exact List.mem_map_of_mem hd

end Change.Aligned

/-- **Remarks on some lines are carried by a change**: outside the impact, the new ones are the old
ones, moved along. -/
def Change.Carries (c : Change) (impact : Option Span) (say : Line → List Diagnostic)
    (old new : Line → Prop) : Prop :=
  ∀ d, Outside impact d.span →
    ((∃ l, new l ∧ d ∈ say l) ↔ ∃ e, (∃ l, old l ∧ e ∈ say l) ∧ c.moved e = d)

/-- A carried remark reaches the line that the old line has become. -/
theorem Change.Carries.target {c : Change} {impact : Option Span} {n : Text}
    {say : Line → List Diagnostic} {old new : Line → Prop} (h : c.Carries impact say old new)
    (hsay : Sticky say) (hnew : ∀ l, new l → l ∈ (Document.parse n).lines) {l l' : Line}
    {d d' : Diagnostic} (hl : old l) (hd : d ∈ say l) (hmoved : c.moved d = d') (hd' : d' ∈ say l')
    (hout : Outside impact d'.span) (hl' : l' ∈ (Document.parse n).lines) : new l' := by
  obtain ⟨m, hm, hsaid⟩ := (h d' hout).mpr ⟨d, ⟨l, hl, hd⟩, hmoved⟩
  rwa [(hsay.owns l' _ hd').unique (hsay.owns m _ hsaid) hl' (hnew m hm)]

namespace Change.Aligned

variable {c : Change} {impact : Option Span} {o n : Text} {front gone come back : List Record}
  {say : Line → List Diagnostic} {old new : Line → Prop}

variable (h : c.Aligned impact (Document.parse o).records (Document.parse n).records front gone come
  back) (hc : c.Plain) (hsay : Sticky say)
  (hold : ∀ l, old l → l ∈ (Document.parse o).lines)
  (hnew : ∀ l, new l → l ∈ (Document.parse n).lines)

include h hc hsay hold hnew

theorem carries_of_iff (hfront : ∀ l ∈ front.flatMap Record.lines, new l ↔ old l)
    (hback : ∀ l ∈ back.flatMap Record.lines, new (l.shift c.delta) ↔ old l) :
    c.Carries impact say old new := by
  intro d hout
  constructor
  · rintro ⟨l, hl, hd⟩
    have hmem := hnew l hl
    rw [h.lines_new, List.mem_append, List.mem_append] at hmem
    rcases hmem with (hF | hC) | hB
    · exact ⟨d, ⟨l, (hfront l hF).mp hl, hd⟩, (h.moved_front hsay hF hd).1⟩
    · exact absurd hout (h.span_come hC (hsay.owns l d hd))
    · obtain ⟨m, hm, rfl⟩ := List.mem_map.mp hB
      rw [hsay.shift] at hd
      obtain ⟨e, he, rfl⟩ := List.mem_map.mp hd
      exact ⟨e, ⟨m, (hback m hm).mp hl, he⟩, (h.moved_back hc hsay hm he).1⟩
  · rintro ⟨e, ⟨l, hl, he⟩, rfl⟩
    have hmem := hold l hl
    rw [h.lines_old, List.mem_append, List.mem_append] at hmem
    rcases hmem with (hF | hG) | hB
    · rw [(h.moved_front hsay hF he).1]
      exact ⟨l, (hfront l hF).mpr hl, he⟩
    · exact absurd hout (h.span_gone hc hG (hsay.owns l e he))
    · obtain ⟨hmoved, hsaid, -⟩ := h.moved_back hc hsay hB he
      rw [hmoved]
      exact ⟨_, (hback l hB).mpr hl, hsaid⟩

/-- A remark that was carried to a line comes from the line that has become this one. -/
theorem exists_source (hcar : c.Carries impact say old new) {l' : Line} (hl' : new l')
    {d : Diagnostic} (hd : d ∈ say l') (hout : Outside impact d.span) :
    (l' ∈ front.flatMap Record.lines ∧ old l') ∨
      ∃ l ∈ back.flatMap Record.lines, old l ∧ l' = l.shift c.delta := by
  obtain ⟨e, ⟨l, hl, he⟩, rfl⟩ := (hcar d hout).mp ⟨l', hl', hd⟩
  have hmem := hold l hl
  rw [h.lines_old, List.mem_append, List.mem_append] at hmem
  rcases hmem with (hF | hG) | hB
  · rw [(h.moved_front hsay hF he).1] at hd
    obtain rfl : l' = l := (hsay.owns l' e hd).unique (hsay.owns l e he) (hnew l' hl')
      (by rw [h.lines_new]; simp [hF])
    exact .inl ⟨hF, hl⟩
  · exact absurd hout (h.span_gone hc hG (hsay.owns l e he))
  · obtain ⟨hmoved, hsaid, -⟩ := h.moved_back hc hsay hB he
    rw [hmoved] at hd
    refine .inr ⟨l, hB, hl, ?_⟩
    exact (hsay.owns l' _ hd).unique (hsay.owns _ _ hsaid) (hnew l' hl')
      (by rw [h.lines_new]; exact List.mem_append_right _ (List.mem_map_of_mem hB))

theorem iff_of_carries (hcar : c.Carries impact say old new)
    (hne : ∀ l, old l ∨ new l → say l ≠ []) :
    (∀ l ∈ front.flatMap Record.lines, new l ↔ old l) ∧
      ∀ l ∈ back.flatMap Record.lines, new (l.shift c.delta) ↔ old l := by
  constructor
  · intro l hF
    have hmem : l ∈ (Document.parse n).lines := by rw [h.lines_new]; simp [hF]
    constructor
    · intro hl
      obtain ⟨d, hd⟩ := List.exists_mem_of_ne_nil _ (hne l (.inr hl))
      rcases h.exists_source hc hsay hold hnew hcar hl hd
        (h.moved_front hsay hF hd).2 with ⟨-, hl⟩ | ⟨m, hB, -, hm⟩
      · exact hl
      · exact absurd hm (h.front_ne_back hc hF hB)
    · intro hl
      obtain ⟨d, hd⟩ := List.exists_mem_of_ne_nil _ (hne l (.inl hl))
      obtain ⟨hmoved, hout⟩ := h.moved_front hsay hF hd
      exact hcar.target hsay hnew hl hd hmoved hd hout hmem
  · intro l hB
    have hmem : l.shift c.delta ∈ (Document.parse n).lines := by
      rw [h.lines_new]
      exact List.mem_append_right _ (List.mem_map_of_mem hB)
    constructor
    · intro hl
      obtain ⟨d, hd⟩ := List.exists_mem_of_ne_nil _ (hne _ (.inr hl))
      have hd' := hd
      rw [hsay.shift] at hd'
      obtain ⟨e, he, rfl⟩ := List.mem_map.mp hd'
      rcases h.exists_source hc hsay hold hnew hcar hl hd
        (h.moved_back hc hsay hB he).2.2 with ⟨hF, -⟩ | ⟨m, -, hm, heq⟩
      · exact absurd rfl (h.front_ne_back hc hF hB)
      · rwa [Line.shift_injective c.delta heq]
    · intro hl
      obtain ⟨d, hd⟩ := List.exists_mem_of_ne_nil _ (hne l (.inl hl))
      obtain ⟨hmoved, hsaid, hout⟩ := h.moved_back hc hsay hB hd
      exact hcar.target hsay hnew hl hd hmoved hsaid hout hmem

/-- Remarks are carried if the lines behind the change are still remarked on, and no others. -/
theorem carries_iff (hne : ∀ l, old l ∨ new l → say l ≠ [])
    (hfront : ∀ l ∈ front.flatMap Record.lines, new l ↔ old l) :
    c.Carries impact say old new ↔
      ∀ l ∈ back.flatMap Record.lines, new (l.shift c.delta) ↔ old l :=
  ⟨fun hcar => (h.iff_of_carries hc hsay hold hnew hcar hne).2,
    h.carries_of_iff hc hsay hold hnew hfront⟩

end Change.Aligned

end RobotsTxt
