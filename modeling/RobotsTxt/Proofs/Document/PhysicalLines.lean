import Mathlib.Data.List.Basic
import RobotsTxt.Document.Grammar

/-!
# Physical lines

How a text is cut into lines, and how the lines of two texts make the lines of their concatenation.
The break between two texts is lost only where the first ends with a carriage return and the second
starts with a line feed.

* `joinLines`: the text of some lines; `joinLines_splitLines`: nothing is lost.
* `splitLines_line`: the lines of a text that begins with a line.
* **`splitLines_append`**: the lines of a concatenation.
* **`splitLines_cut`**: a text whose lines fall into two parts falls into two parts itself.
-/

namespace RobotsTxt

/-- The text of some lines. -/
def joinLines (ls : List RawLine) : Text := ls.flatMap fun l => l.content ++ l.ending

@[simp] theorem joinLines_nil : joinLines [] = [] := rfl

@[simp] theorem joinLines_cons (l : RawLine) (ls : List RawLine) :
    joinLines (l :: ls) = l.content ++ l.ending ++ joinLines ls := rfl

@[simp] theorem joinLines_append (ls ms : List RawLine) :
    joinLines (ls ++ ms) = joinLines ls ++ joinLines ms := List.flatMap_append

/-- A carriage return at the end of `a` and a line feed at the start of `b`. -/
def Straddles (a b : Text) : Prop := a.getLast? = some 0x0D ∧ b.head? = some 0x0A

/-- A line break. -/
def IsEnding (e : Text) : Prop := e = [0x0A] ∨ e = [0x0D] ∨ e = [0x0D, 0x0A]

theorem IsEnding.ne_nil {e : Text} (h : IsEnding e) : e ≠ [] := by
  rcases h with rfl | rfl | rfl <;> simp

/-! ## One byte at a time -/

variable {b : UInt8} {t : Text}

theorem splitLines_crlf (t : Text) :
    splitLines (0x0D :: 0x0A :: t) = ⟨[], [0x0D, 0x0A]⟩ :: splitLines t := by
  rw [splitLines]

theorem splitLines_break (hb : isBreak b) (h : ¬ Straddles [b] t) :
    splitLines (b :: t) = ⟨[], [b]⟩ :: splitLines t := by
  rw [splitLines]
  · rw [if_pos hb]
  · rintro t' rfl rfl
    exact h ⟨rfl, rfl⟩

theorem splitLines_push (hb : isBreak b = false) :
    splitLines (b :: t) = RawLine.push b (splitLines t) := by
  rw [splitLines]
  · rw [if_neg (by simp [hb])]
  · rintro t' rfl rfl
    exact absurd hb (by decide)

theorem splitLines_ne_nil (t : Text) : splitLines t ≠ [] := by
  fun_cases splitLines t with
  | case1 => simp
  | case2 => simp
  | case3 => simp
  | case4 b t => cases splitLines t <;> simp [RawLine.push]

theorem exists_cons_splitLines (t : Text) : ∃ c e ls, splitLines t = ⟨c, e⟩ :: ls := by
  obtain ⟨l, ls, h⟩ := List.exists_cons_of_ne_nil (splitLines_ne_nil t)
  exact ⟨l.content, l.ending, ls, h⟩

theorem joinLines_push (b : UInt8) (ls : List RawLine) :
    joinLines (RawLine.push b ls) = b :: joinLines ls := by
  cases ls <;> rfl

theorem joinLines_splitLines (t : Text) : joinLines (splitLines t) = t := by
  fun_induction splitLines t with
  | case1 => rfl
  | case2 t ih => rw [joinLines_cons, ih]; rfl
  | case3 b t _ _ ih => rw [joinLines_cons, ih]; rfl
  | case4 b t _ _ ih => rw [joinLines_push, ih]

theorem noBreak_of_mem_splitLines {l : RawLine} (h : l ∈ splitLines t) :
    ∀ b ∈ l.content, isBreak b = false := by
  fun_induction splitLines t generalizing l with
  | case1 => simp_all
  | case2 t ih =>
    rcases List.mem_cons.mp h with rfl | h
    · simp
    · exact ih h
  | case3 b t _ _ ih =>
    rcases List.mem_cons.mp h with rfl | h
    · simp
    · exact ih h
  | case4 b t _ hb ih =>
    obtain ⟨c, e, ls, hs⟩ := exists_cons_splitLines t
    rw [hs] at ih h
    rcases List.mem_cons.mp h with rfl | h
    · intro a ha
      rcases List.mem_cons.mp ha with rfl | ha
      · simpa using hb
      · exact ih List.mem_cons_self a ha
    · exact ih (List.mem_cons_of_mem _ h)

theorem isBreak_of_mem_ending {l : RawLine} (h : l ∈ splitLines t) :
    ∀ b ∈ l.ending, isBreak b := by
  fun_induction splitLines t generalizing l with
  | case1 => simp_all
  | case2 t ih =>
    rcases List.mem_cons.mp h with rfl | h
    · simp [isBreak]
    · exact ih h
  | case3 b t _ hb ih =>
    rcases List.mem_cons.mp h with rfl | h
    · simpa using hb
    · exact ih h
  | case4 b t _ hb ih =>
    obtain ⟨c, e, ls, hs⟩ := exists_cons_splitLines t
    rw [hs] at ih h
    rcases List.mem_cons.mp h with rfl | h
    · exact ih (l := ⟨c, e⟩) List.mem_cons_self
    · exact ih (List.mem_cons_of_mem _ h)

/-! ## One line at a time -/

theorem splitLines_content {c : Text} (hc : ∀ b ∈ c, isBreak b = false) {d e : Text}
    {ls : List RawLine} (ht : splitLines t = ⟨d, e⟩ :: ls) :
    splitLines (c ++ t) = ⟨c ++ d, e⟩ :: ls := by
  induction c with
  | nil => exact ht
  | cons b c ih =>
    rw [List.cons_append, splitLines_push (hc b List.mem_cons_self),
      ih fun a ha => hc a (List.mem_cons_of_mem _ ha)]
    rfl

theorem splitLines_ending {e : Text} (he : IsEnding e) (h : ¬ Straddles e t) :
    splitLines (e ++ t) = ⟨[], e⟩ :: splitLines t := by
  rcases he with rfl | rfl | rfl
  · exact splitLines_break rfl h
  · exact splitLines_break rfl h
  · exact splitLines_crlf t

theorem splitLines_line {c e : Text} (hc : ∀ b ∈ c, isBreak b = false) (he : IsEnding e)
    (h : ¬ Straddles e t) : splitLines (c ++ e ++ t) = ⟨c, e⟩ :: splitLines t := by
  rw [List.append_assoc, splitLines_content hc (splitLines_ending he h), List.append_nil]

theorem splitLines_of_noBreak {c : Text} (hc : ∀ b ∈ c, isBreak b = false) :
    splitLines c = [⟨c, []⟩] := by
  simpa using splitLines_content (t := []) hc rfl

theorem exists_line {l : RawLine} {ls : List RawLine} (h : splitLines t = l :: ls) (hne : ls ≠ []) :
    ∃ s, t = l.content ++ l.ending ++ s ∧ splitLines s = ls ∧ IsEnding l.ending ∧
      ¬ Straddles l.ending s := by
  fun_induction splitLines t generalizing l with
  | case1 => simp_all
  | case2 t ih =>
    obtain ⟨rfl, rfl⟩ := List.cons.inj h
    exact ⟨t, rfl, rfl, .inr (.inr rfl), by simp [Straddles]⟩
  | case3 b t hcr hb ih =>
    obtain ⟨rfl, rfl⟩ := List.cons.inj h
    refine ⟨t, rfl, rfl, ?_, ?_⟩
    · rcases Bool.or_eq_true .. ▸ hb with hb | hb
      · exact .inl (by rw [beq_iff_eq.mp hb])
      · exact .inr (.inl (by rw [beq_iff_eq.mp hb]))
    · rintro ⟨h₁, h₂⟩
      cases t with
      | nil => simp at h₂
      | cons a t => exact hcr t (by simpa using h₁) (by simp_all)
  | case4 b t _ hb ih =>
    obtain ⟨c, e, ms, hs⟩ := exists_cons_splitLines t
    rw [hs] at ih h
    obtain ⟨rfl, rfl⟩ := List.cons.inj h
    obtain ⟨s, rfl, hs', he, hstr⟩ := ih rfl
    exact ⟨s, rfl, hs', he, hstr⟩

theorem exists_concat_splitLines (t : Text) : ∃ ls c, splitLines t = ls ++ [⟨c, []⟩] := by
  fun_induction splitLines t with
  | case1 => exact ⟨[], [], rfl⟩
  | case2 t ih =>
    obtain ⟨ls, c, hs⟩ := ih
    exact ⟨⟨[], [0x0D, 0x0A]⟩ :: ls, c, by rw [hs]; rfl⟩
  | case3 b t _ _ ih =>
    obtain ⟨ls, c, hs⟩ := ih
    exact ⟨⟨[], [b]⟩ :: ls, c, by rw [hs]; rfl⟩
  | case4 b t _ _ ih =>
    obtain ⟨ls, c, hs⟩ := ih
    cases ls with
    | nil => exact ⟨[], b :: c, by rw [hs]; rfl⟩
    | cons l ls => exact ⟨⟨b :: l.content, l.ending⟩ :: ls, c, by rw [hs]; rfl⟩

/-! ## Concatenations -/

theorem not_straddles_append_left {a s : Text} (h : ¬ Straddles (a ++ s) t) (hs : s ≠ []) :
    ¬ Straddles s t := fun hst =>
  h ⟨by rw [List.getLast?_append_of_ne_nil _ hs]; exact hst.1, hst.2⟩

/-- **The lines of a concatenation**: the last line of the first text goes on with the first line of
the second one. -/
theorem splitLines_append {s : Text} {ls ms : List RawLine} {c d e : Text}
    (hs : splitLines s = ls ++ [⟨c, []⟩]) (ht : splitLines t = ⟨d, e⟩ :: ms)
    (h : ¬ Straddles s t) : splitLines (s ++ t) = ls ++ ⟨c ++ d, e⟩ :: ms := by
  induction ls generalizing s with
  | nil =>
    have hc : s = c := by rw [← joinLines_splitLines s, hs]; simp
    subst hc
    exact splitLines_content (noBreak_of_mem_splitLines (by rw [hs]; exact List.mem_cons_self)) ht
  | cons l ls ih =>
    obtain ⟨r, rfl, hr, he, hstr⟩ := exists_line hs (by simp)
    have hl := noBreak_of_mem_splitLines (l := l) (by rw [hs]; exact List.mem_cons_self)
    have hrt : ¬ Straddles l.ending (r ++ t) := by
      cases r with
      | nil => exact not_straddles_append_left (by simpa using h) he.ne_nil
      | cons a r => exact fun hst => hstr ⟨hst.1, hst.2⟩
    have hr' : ¬ Straddles r t := by
      cases r with
      | nil => simp [Straddles]
      | cons a r => exact not_straddles_append_left h (List.cons_ne_nil a r)
    rw [List.append_assoc _ r, splitLines_line hl he hrt, ih hr hr', List.cons_append]

/-- **A text whose lines fall into two parts falls into two parts itself.** -/
theorem splitLines_cut {ls ms : List RawLine} (h : splitLines t = ls ++ ms) (hm : ms ≠ []) :
    t = joinLines ls ++ joinLines ms ∧ splitLines (joinLines ls) = ls ++ [⟨[], []⟩] ∧
      splitLines (joinLines ms) = ms ∧ ¬ Straddles (joinLines ls) (joinLines ms) := by
  induction ls generalizing t with
  | nil =>
    have ht : joinLines ms = t := by rw [← joinLines_splitLines t, h]; rfl
    exact ⟨by simp [ht], rfl, by rw [ht, h]; rfl, by simp [Straddles]⟩
  | cons l ls ih =>
    obtain ⟨s, rfl, hs, he, hstr⟩ := exists_line h (by simp [hm])
    have hl := noBreak_of_mem_splitLines (l := l) (by rw [h]; exact List.mem_cons_self)
    obtain ⟨rfl, h₁, h₂, h₃⟩ := ih hs
    refine ⟨by simp, ?_, h₂, ?_⟩
    · have : ¬ Straddles l.ending (joinLines ls) := fun hst => hstr ⟨hst.1, by
        have := hst.2
        cases hj : joinLines ls with
        | nil => simp [hj] at this
        | cons a r => simpa [hj] using this⟩
      rw [joinLines_cons, splitLines_line hl he this, h₁, List.cons_append]
    · cases hj : joinLines ls with
      | nil =>
        rintro ⟨h₄, h₅⟩
        rw [hj] at hstr
        refine hstr ⟨?_, h₅⟩
        rwa [joinLines_cons, hj, List.append_nil, List.getLast?_append_of_ne_nil _ he.ne_nil] at h₄
      | cons a r =>
        rintro ⟨h₄, h₅⟩
        refine h₃ ⟨?_, h₅⟩
        rwa [joinLines_cons, List.getLast?_append_of_ne_nil _ (by simp [hj])] at h₄

end RobotsTxt
