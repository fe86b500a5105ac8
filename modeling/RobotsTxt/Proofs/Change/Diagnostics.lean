import RobotsTxt.Proofs.Analyzer.Agents
import RobotsTxt.Proofs.Change.Carrying

/-!
# Diagnostics after a change

Whoever asks again for the diagnostics of the impact only, and moves all others along with the text,
ends up with the diagnostics of the new text, as far as these are about single lines. What is said
of a rule before the first agent, and of an agent that is named again, depends on lines anywhere
before, also on those that the change removes or brings.

* `agentsIn`: the agents that some records name.
* `Change.Aligned.carries_early_iff`, `Change.Aligned.carries_repeats_iff`: when the two sorts of
  remarks on whole documents are carried.
* `Change.Sound`: a diagnostic outside the impact is there if and only if it was there before.
* **`Change.sound_iff`**: when all diagnostics outside the impact are sound.
-/

namespace RobotsTxt

/-! ## Early lines and repeated agents -/

/-- The agents that some records name, in order. -/
def agentsIn (rs : List Record) : List Text :=
  (Analyzer.naming (rs.flatMap Record.lines)).map Analyzer.agent

theorem agentsIn_append (rs ss : List Record) :
    agentsIn (rs ++ ss) = agentsIn rs ++ agentsIn ss := by
  rw [agentsIn, List.flatMap_append, Analyzer.naming_append, List.map_append]
  rfl

section Parts

variable {front gone back : List Record} {l : Line}

theorem mem_earlyIn_front (hg : l ∉ gone.flatMap Record.lines)
    (hb : l ∉ back.flatMap Record.lines) :
    l ∈ Analyzer.earlyIn (front ++ gone ++ back) ↔ l ∈ Analyzer.earlyIn front := by
  have hg' := mt Analyzer.mem_lines_of_earlyIn hg
  have hb' := mt Analyzer.mem_lines_of_earlyIn hb
  simp only [Analyzer.earlyIn_append, List.mem_append]
  grind

theorem mem_earlyIn_back (hf : l ∉ front.flatMap Record.lines)
    (hg : l ∉ gone.flatMap Record.lines) :
    l ∈ Analyzer.earlyIn (front ++ gone ++ back) ↔
      ¬ front.any Analyzer.namesAgent ∧ ¬ gone.any Analyzer.namesAgent ∧
        l ∈ Analyzer.earlyIn back := by
  have hf' := mt Analyzer.mem_lines_of_earlyIn hf
  have hg' := mt Analyzer.mem_lines_of_earlyIn hg
  simp only [Analyzer.earlyIn_append, List.mem_append, List.any_append]
  grind

theorem mem_repeats_front {front gone back : List Line} (hg : l ∉ gone) (hb : l ∉ back) :
    l ∈ Analyzer.repeatedAgents [] (Analyzer.naming (front ++ gone ++ back)) ↔
      l ∈ Analyzer.repeatedAgents [] (Analyzer.naming front) := by
  have hno : ∀ {seen : List Text} {ls : List Line}, l ∉ ls →
      l ∉ Analyzer.repeatedAgents seen (Analyzer.naming ls) := fun hl h =>
    hl (List.mem_of_mem_filter ((Analyzer.repeatedAgents_sublist _ _).subset h))
  simp only [Analyzer.naming_append, Analyzer.repeatedAgents_append, List.mem_append, hno hg,
    hno hb, or_false]

theorem mem_repeats_back {front gone back : List Line} (hf : l ∉ front) (hg : l ∉ gone) :
    l ∈ Analyzer.repeatedAgents [] (Analyzer.naming (front ++ gone ++ back)) ↔
      l ∈ Analyzer.repeatedAgents ((Analyzer.naming (front ++ gone)).map Analyzer.agent)
        (Analyzer.naming back) := by
  have hno : ∀ {seen : List Text}, l ∉ Analyzer.repeatedAgents seen
      (Analyzer.naming (front ++ gone)) := fun h =>
    (List.mem_append.mp (List.mem_of_mem_filter
      ((Analyzer.repeatedAgents_sublist _ _).subset h))).elim hf hg
  rw [Analyzer.naming_append, Analyzer.repeatedAgents_append, List.mem_append, List.append_nil]
  exact or_iff_right hno

theorem nodup_parts {α : Type} {xs ys zs : List α} (h : (xs ++ ys ++ zs).Nodup) :
    (∀ x ∈ xs, x ∉ ys ∧ x ∉ zs) ∧ ∀ z ∈ zs, z ∉ xs ∧ z ∉ ys := by
  simp only [List.nodup_append, List.mem_append] at h
  grind

end Parts

namespace Change.Aligned

variable {c : Change} {impact : Option Span} {o n : Text} {front gone come back : List Record}

variable (h : c.Aligned impact (Document.parse o).records (Document.parse n).records front gone come
  back) (hc : c.Plain)

include h

theorem parts_old :
    (∀ l ∈ front.flatMap Record.lines,
      l ∉ gone.flatMap Record.lines ∧ l ∉ back.flatMap Record.lines) ∧
    ∀ l ∈ back.flatMap Record.lines,
      l ∉ front.flatMap Record.lines ∧ l ∉ gone.flatMap Record.lines :=
  nodup_parts (h.lines_old ▸ Document.nodup_lines o)

theorem parts_new :
    (∀ l ∈ front.flatMap Record.lines, l ∉ come.flatMap Record.lines ∧
      l ∉ (back.map (·.shift c.delta)).flatMap Record.lines) ∧
    ∀ l ∈ back.flatMap Record.lines, l.shift c.delta ∉ front.flatMap Record.lines ∧
      l.shift c.delta ∉ come.flatMap Record.lines := by
  obtain ⟨hfront, hrest⟩ := nodup_parts (h.lines_new ▸ Document.nodup_lines n)
  exact ⟨(flatMap_lines_shift back c.delta) ▸ hfront, fun l hl => hrest _ (List.mem_map_of_mem hl)⟩

theorem early_front_iff : ∀ l ∈ front.flatMap Record.lines,
    l ∈ Analyzer.earlyLines (Document.parse n) ↔ l ∈ Analyzer.earlyLines (Document.parse o) := by
  intro l hl
  rw [Analyzer.earlyLines_eq, Analyzer.earlyLines_eq, h.old_eq, h.new_eq,
    mem_earlyIn_front (h.parts_old.1 l hl).1 (h.parts_old.1 l hl).2,
    mem_earlyIn_front (h.parts_new.1 l hl).1 (h.parts_new.1 l hl).2]

theorem early_back_iff {l : Line} (hl : l ∈ back.flatMap Record.lines) :
    (l.shift c.delta ∈ Analyzer.earlyLines (Document.parse n) ↔
        l ∈ Analyzer.earlyLines (Document.parse o)) ↔
      (¬ front.any Analyzer.namesAgent → l ∈ Analyzer.earlyIn back →
        (gone.any Analyzer.namesAgent ↔ come.any Analyzer.namesAgent)) := by
  rw [Analyzer.earlyLines_eq, Analyzer.earlyLines_eq, h.old_eq, h.new_eq,
    mem_earlyIn_back (h.parts_old.2 l hl).1 (h.parts_old.2 l hl).2,
    mem_earlyIn_back (h.parts_new.2 l hl).1 (h.parts_new.2 l hl).2, Analyzer.earlyIn_shift,
    List.mem_map_of_injective (Line.shift_injective c.delta)]
  grind

theorem repeats_front_iff : ∀ l ∈ front.flatMap Record.lines,
    l ∈ (Document.parse n).repeats ↔ l ∈ (Document.parse o).repeats := by
  intro l hl
  have hnew := (h.parts_new.1 l hl).2
  rw [flatMap_lines_shift] at hnew
  rw [Analyzer.repeats_eq, Analyzer.repeats_eq, h.lines_old, h.lines_new,
    mem_repeats_front (h.parts_old.1 l hl).1 (h.parts_old.1 l hl).2,
    mem_repeats_front (h.parts_new.1 l hl).1 hnew]

theorem repeats_back_iff {l : Line} (hl : l ∈ back.flatMap Record.lines) :
    (l.shift c.delta ∈ (Document.parse n).repeats ↔ l ∈ (Document.parse o).repeats) ↔
      (l ∈ Analyzer.repeatedAgents (agentsIn (front ++ come))
          (Analyzer.naming (back.flatMap Record.lines)) ↔
        l ∈ Analyzer.repeatedAgents (agentsIn (front ++ gone))
          (Analyzer.naming (back.flatMap Record.lines))) := by
  rw [Analyzer.repeats_eq, Analyzer.repeats_eq, h.lines_old, h.lines_new,
    mem_repeats_back (h.parts_old.2 l hl).1 (h.parts_old.2 l hl).2,
    mem_repeats_back (h.parts_new.2 l hl).1 (h.parts_new.2 l hl).2, Analyzer.naming_shift,
    Analyzer.repeatedAgents_shift, List.mem_map_of_injective (Line.shift_injective c.delta),
    agentsIn, agentsIn, List.flatMap_append, List.flatMap_append]

include hc

/-- **Remarks on early lines are carried** unless a rule behind the change gains or loses the only
agents before it. -/
theorem carries_early_iff :
    c.Carries impact Line.earlyRemarks (· ∈ Analyzer.earlyLines (Document.parse o))
        (· ∈ Analyzer.earlyLines (Document.parse n)) ↔
      front.any Analyzer.namesAgent ∨ Analyzer.earlyIn back = [] ∨
        (gone.any Analyzer.namesAgent ↔ come.any Analyzer.namesAgent) := by
  have hsaid : ∀ {t : Text} {l : Line}, l ∈ Analyzer.earlyLines (Document.parse t) →
      l.earlyRemarks ≠ [] := by
    intro t l hl
    obtain ⟨k, hk⟩ := exists_name_of_early hl
    simp [Line.earlyRemarks, hk]
  rw [h.carries_iff hc sticky_earlyRemarks (fun l => Analyzer.mem_lines_of_early)
    (fun l => Analyzer.mem_lines_of_early) (fun l hl => hl.elim hsaid hsaid) h.early_front_iff]
  constructor
  · intro hall
    by_cases hf : front.any Analyzer.namesAgent
    · exact .inl hf
    · cases hearly : Analyzer.earlyIn back with
      | nil => exact .inr (.inl rfl)
      | cons l ls =>
        have hl : l ∈ Analyzer.earlyIn back := by simp [hearly]
        have hmem := Analyzer.mem_lines_of_earlyIn hl
        exact .inr (.inr ((h.early_back_iff hmem).mp (hall l hmem) hf hl))
  · intro hcond l hl
    rw [h.early_back_iff hl]
    intro hf hearly
    rcases hcond with hf' | hnil | hiff
    · exact absurd hf' hf
    · simp [hnil] at hearly
    · exact hiff

/-- **Remarks on repeated agents are carried** unless an agent behind the change gains or loses the
only lines before that name it. -/
theorem carries_repeats_iff :
    c.Carries impact Line.repeatRemarks (· ∈ (Document.parse o).repeats)
        (· ∈ (Document.parse n).repeats) ↔
      ∀ a ∈ agentsIn back, a ∈ agentsIn front ∨ (a ∈ agentsIn gone ↔ a ∈ agentsIn come) := by
  have hlines : ∀ {t : Text} {l : Line}, l ∈ (Document.parse t).repeats →
      l ∈ (Document.parse t).lines := Analyzer.mem_lines_of_repeated
  rw [h.carries_iff hc sticky_repeatRemarks (fun l => hlines) (fun l => hlines)
    (fun l _ => List.cons_ne_nil _ _) h.repeats_front_iff]
  have hnodup : (Analyzer.naming (back.flatMap Record.lines)).Nodup := by
    have hlines := Document.nodup_lines o
    rw [h.lines_old] at hlines
    exact (List.nodup_append.mp hlines).2.1.filter _
  have hagents :
      (∀ a ∈ agentsIn back, a ∈ agentsIn front ∨ (a ∈ agentsIn gone ↔ a ∈ agentsIn come)) ↔
      ∀ a ∈ agentsIn back, a ∈ agentsIn (front ++ come) ↔ a ∈ agentsIn (front ++ gone) := by
    refine forall₂_congr fun a _ => ?_
    rw [agentsIn_append, agentsIn_append, List.mem_append, List.mem_append]
    grind
  rw [hagents, agentsIn, ← Analyzer.repeatedAgents_iff hnodup]
  constructor
  · intro hall l hl
    have hmem := List.mem_of_mem_filter hl
    exact (h.repeats_back_iff hmem).mp (hall l hmem)
  · intro hall l hl
    rw [h.repeats_back_iff hl]
    by_cases hmem : l ∈ Analyzer.naming (back.flatMap Record.lines)
    · exact hall l hmem
    · have hno : ∀ seen, l ∉ Analyzer.repeatedAgents seen
          (Analyzer.naming (back.flatMap Record.lines)) := fun seen hl =>
        hmem ((Analyzer.repeatedAgents_sublist _ _).subset hl)
      simp only [hno]

end Change.Aligned

/-! ## All diagnostics -/

/-- **A diagnostic outside the impact is sound** if it is there exactly when it was there before. -/
def Change.Sound (c : Change) (impact : Option Span) (old new : List Diagnostic) (d : Diagnostic) :
    Prop :=
  Outside impact d.span → (d ∈ new ↔ ∃ e ∈ old, c.moved e = d)

section Sorts

variable {c : Change} {impact : Option Span} {o n : Text}

/-- The diagnostics of a text. -/
def diagnosticsOf (t : Text) : List Diagnostic :=
  (Dispatcher.mk Analyzer.builtin).analyze (Document.parse t) ⟨0, t.length⟩

theorem sound_iff_sorts (d : Diagnostic) : c.Sound impact (diagnosticsOf o) (diagnosticsOf n) d ↔
    (Outside impact d.span → ((∃ l, l ∈ (Document.parse n).lines ∧ d ∈ l.ownRemarks) ↔
      ∃ e, (∃ l, l ∈ (Document.parse o).lines ∧ e ∈ l.ownRemarks) ∧ c.moved e = d)) ∧
    (Outside impact d.span → ((∃ l, l ∈ Analyzer.earlyLines (Document.parse n) ∧
        d ∈ l.earlyRemarks) ↔
      ∃ e, (∃ l, l ∈ Analyzer.earlyLines (Document.parse o) ∧ e ∈ l.earlyRemarks) ∧
        c.moved e = d)) ∧
    (Outside impact d.span → ((∃ l, l ∈ (Document.parse n).repeats ∧ d ∈ l.repeatRemarks) ↔
      ∃ e, (∃ l, l ∈ (Document.parse o).repeats ∧ e ∈ l.repeatRemarks) ∧ c.moved e = d)) := by
  have hcode : ∀ e, (c.moved e).code = e.code := fun _ => rfl
  have hown := fun (l : Line) (e : Diagnostic) (h : e ∈ l.ownRemarks) => code_of_mem_ownRemarks h
  have hearly := fun (l : Line) (e : Diagnostic) (h : e ∈ l.earlyRemarks) =>
    code_of_mem_earlyRemarks h
  have hrepeat := fun (l : Line) (e : Diagnostic) (h : e ∈ l.repeatRemarks) =>
    code_of_mem_repeatRemarks h
  have hne : Analyzer.recordStart.name ≠ Analyzer.duplicateUserAgent.name := by decide
  unfold Change.Sound diagnosticsOf
  simp only [mem_analyze_builtin]
  grind

end Sorts

theorem Change.Aligned.carries_own {c : Change} {impact : Option Span} {o n : Text}
    {front gone come back : List Record} (hc : c.Plain)
    (h : c.Aligned impact (Document.parse o).records (Document.parse n).records front gone come
      back) :
    c.Carries impact Line.ownRemarks (· ∈ (Document.parse o).lines)
      (· ∈ (Document.parse n).lines) := by
  refine h.carries_of_iff hc sticky_ownRemarks (fun _ hl => hl) (fun _ hl => hl)
    (fun l hl => ?_) (fun l hl => ?_)
  · rw [h.lines_old, h.lines_new]
    simp [hl]
  · have hnew : l.shift c.delta ∈ (Document.parse n).lines := by
      rw [h.lines_new]
      exact List.mem_append_right _ (List.mem_map_of_mem hl)
    have hold : l ∈ (Document.parse o).lines := by
      rw [h.lines_old]
      exact List.mem_append_right _ hl
    exact iff_of_true hnew hold

/-- **What can be kept after a change.** The records can be cut at the change, such that every
diagnostic is sound that is about a single line; and all of them are sound if and only if the
records in between do not give or take the first agent from a rule behind them, nor the first
mention of an agent that is named behind them. -/
theorem Change.sound_iff (o : Text) (r : Replacement) (h : Replacement.Fit o 0 [r]) :
    let n := Replacement.applyAll o [r]
    let impact := impact? (Document.parse o) (Document.parse n) [r.change]
    let Sound := r.change.Sound impact (diagnosticsOf o) (diagnosticsOf n)
    ∃ front gone come back,
      r.change.Aligned impact (Document.parse o).records (Document.parse n).records front gone come
        back ∧
      (∀ d : Diagnostic, d.code ≠ Analyzer.recordStart.name →
        d.code ≠ Analyzer.duplicateUserAgent.name → Sound d) ∧
      ((∀ d, Sound d) ↔
        (front.any Analyzer.namesAgent ∨ Analyzer.earlyIn back = [] ∨
          (gone.any Analyzer.namesAgent ↔ come.any Analyzer.namesAgent)) ∧
        ∀ a ∈ agentsIn back,
          a ∈ agentsIn front ∨ (a ∈ agentsIn gone ↔ a ∈ agentsIn come)) := by
  obtain ⟨p, tail, ho, hn, hc⟩ := Replacement.exists_patch h
  have hplain : r.change.Plain := hc ▸ p.plain_change
  obtain ⟨front, gone, come, back, haligned⟩ := Patch.exists_aligned p tail
  rw [← ho, ← hn, hc] at haligned
  refine ⟨front, gone, come, back, haligned, fun d hstart hrepeat => ?_, ?_⟩
  · refine (sound_iff_sorts d).mpr ⟨haligned.carries_own hplain d, fun _ => ?_, fun _ => ?_⟩
    · refine iff_of_false (fun ⟨l, _, hd⟩ => ?_) fun ⟨e, ⟨l, _, he⟩, hmoved⟩ => ?_
      · exact hstart (code_of_mem_earlyRemarks hd)
      · subst hmoved
        have hcode := code_of_mem_earlyRemarks he
        exact hstart hcode
    · refine iff_of_false (fun ⟨l, _, hd⟩ => ?_) fun ⟨e, ⟨l, _, he⟩, hmoved⟩ => ?_
      · exact hrepeat (code_of_mem_repeatRemarks hd)
      · subst hmoved
        have hcode := code_of_mem_repeatRemarks he
        exact hrepeat hcode
  · rw [← haligned.carries_early_iff hplain, ← haligned.carries_repeats_iff hplain]
    constructor
    · intro hall
      exact ⟨fun d => ((sound_iff_sorts d).mp (hall d)).2.1,
        fun d => ((sound_iff_sorts d).mp (hall d)).2.2⟩
    · rintro ⟨hearly, hrepeat⟩ d
      exact (sound_iff_sorts d).mpr ⟨haligned.carries_own hplain d, hearly d, hrepeat d⟩

/-- A path that is corrected in the first of two records. -/
theorem Change.sound_iff_corrected :
    let o := utf8 "user-agent: *\nallow: x\n\nallow: y"
    let r : Replacement := ⟨21, 22, utf8 "/"⟩
    let n := Replacement.applyAll o [r]
    let impact := impact? (Document.parse o) (Document.parse n) [r.change]
    Replacement.Fit o 0 [r] ∧ impact = some ⟨0, 22⟩ ∧
      ∀ d : Diagnostic, d.code ≠ Analyzer.recordStart.name →
        d.code ≠ Analyzer.duplicateUserAgent.name →
        r.change.Sound impact (diagnosticsOf o) (diagnosticsOf n) d := by
  refine ⟨by decide +kernel, by decide +kernel, ?_⟩
  obtain ⟨-, -, -, -, -, hsound, -⟩ := Change.sound_iff
    (utf8 "user-agent: *\nallow: x\n\nallow: y") ⟨21, 22, utf8 "/"⟩ (by decide +kernel)
  exact hsound

/-- Without the only agent, a rule far behind the impact comes too early. -/
theorem Change.unsound_removed :
    let o := utf8 "user-agent: *\n\nallow: /"
    let r : Replacement := ⟨0, 13, []⟩
    let n := Replacement.applyAll o [r]
    let impact := impact? (Document.parse o) (Document.parse n) [r.change]
    Replacement.Fit o 0 [r] ∧ impact = some ⟨0, 0⟩ ∧
      ∃ d ∈ diagnosticsOf n, d.span = ⟨2, 10⟩ ∧
        ¬ r.change.Sound impact (diagnosticsOf o) (diagnosticsOf n) d := by
  have hold : diagnosticsOf (utf8 "user-agent: *\n\nallow: /") = [] := by decide +kernel
  have himpact : impact? (Document.parse (utf8 "user-agent: *\n\nallow: /"))
      (Document.parse (Replacement.applyAll (utf8 "user-agent: *\n\nallow: /") [⟨0, 13, []⟩]))
      [(⟨0, 13, []⟩ : Replacement).change] = some ⟨0, 0⟩ := by decide +kernel
  obtain ⟨d, hd, hspan⟩ : ∃ d ∈ diagnosticsOf
      (Replacement.applyAll (utf8 "user-agent: *\n\nallow: /") [⟨0, 13, []⟩]),
      d.span = ⟨2, 10⟩ := by decide +kernel
  refine ⟨by decide +kernel, himpact, d, hd, hspan, fun hsound => ?_⟩
  have hout : Outside (some ⟨0, 0⟩) d.span := by
    intro i hi
    rw [← Option.some_inj.mp hi, hspan]
    decide
  rw [himpact, hold] at hsound
  obtain ⟨e, he, -⟩ := (hsound hout).mp hd
  exact absurd he List.not_mem_nil

end RobotsTxt
