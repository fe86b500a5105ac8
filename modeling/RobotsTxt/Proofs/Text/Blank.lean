import Mathlib.Data.List.DropRight
import RobotsTxt.Text.Bytes

/-!
# Blanks at the ends of a text

A text is blank when it has blanks only, and trimmed when it neither starts nor ends with one.

* `Text.IsBlank`, `Text.Trimmed`: the two notions.
* `Text.exists_trimmed`: every text is a trimmed one between blanks.
* `Text.trimEnd_append_blank`, `Text.trimBlanks_pad`: what trimming takes away.
-/

namespace RobotsTxt.Text

variable {t g : Text}

/-- A text of blanks only. -/
def IsBlank (t : Text) : Prop := ∀ b ∈ t, isBlank b

/-- A text that neither starts nor ends with a blank. -/
structure Trimmed (t : Text) : Prop where
  first : ∀ b ∈ t.head?, isBlank b = false
  last : ∀ b ∈ t.getLast?, isBlank b = false

instance (t : Text) : Decidable t.IsBlank := inferInstanceAs (Decidable (∀ b ∈ t, isBlank b))

@[simp] theorem isBlank_nil : IsBlank [] := by simp [IsBlank]

theorem isBlank_append {s : Text} : IsBlank (s ++ t) ↔ s.IsBlank ∧ t.IsBlank := by
  simp only [IsBlank, List.mem_append]
  exact ⟨fun h => ⟨fun b hb => h b (.inl hb), fun b hb => h b (.inr hb)⟩,
    fun h b hb => hb.elim (h.1 b) (h.2 b)⟩

theorem isBlank_takeWhile (t : Text) : IsBlank (t.takeWhile isBlank) :=
  fun _ hb => List.mem_takeWhile_imp hb

theorem not_isBlank_of_head {b : UInt8} (hb : isBlank b = false) : ¬ IsBlank (b :: t) := fun h => by
  have := h b List.mem_cons_self
  rw [hb] at this
  exact Bool.noConfusion this

/-! ## The blanks in front -/

theorem head?_dropWhile_blank (t : Text) :
    ∀ b ∈ (t.dropWhile isBlank).head?, isBlank b = false := by
  intro b hb
  have := List.head?_dropWhile_not isBlank t
  rw [hb] at this
  exact this

theorem dropWhile_of_first (h : ∀ b ∈ t.head?, isBlank b = false) : t.dropWhile isBlank = t := by
  cases t with
  | nil => rfl
  | cons b t => exact List.dropWhile_cons_of_neg (by simp [h b rfl])

theorem takeWhile_of_first (h : ∀ b ∈ t.head?, isBlank b = false) : t.takeWhile isBlank = [] := by
  cases t with
  | nil => rfl
  | cons b t => exact List.takeWhile_cons_of_neg (by simp [h b rfl])

/-! ## The blanks at the end -/

theorem trimEnd_eq_rdropWhile (t : Text) : t.trimEnd = t.rdropWhile isBlank := rfl

theorem trimEnd_append_blank (hg : g.IsBlank) : (t ++ g).trimEnd = t.trimEnd := by
  unfold trimEnd
  rw [List.reverse_append, List.dropWhile_append_of_pos fun b hb => hg b (List.mem_reverse.mp hb)]

theorem trimEnd_of_last (h : ∀ b ∈ t.getLast?, isBlank b = false) : t.trimEnd = t := by
  rw [trimEnd_eq_rdropWhile, List.rdropWhile_eq_self_iff]
  intro ht
  rw [h _ (List.getLast?_eq_getLast_of_ne_nil ht)]
  exact Bool.false_ne_true

theorem last_trimEnd (t : Text) : ∀ b ∈ t.trimEnd.getLast?, isBlank b = false := by
  intro b hb
  unfold trimEnd at hb
  rw [List.getLast?_reverse] at hb
  exact head?_dropWhile_blank _ b hb

theorem exists_trimEnd (t : Text) : ∃ g : Text, g.IsBlank ∧ t = t.trimEnd ++ g :=
  ⟨t.rtakeWhile isBlank, fun _ hb => List.mem_rtakeWhile_imp hb,
    List.rdropWhile_append_rtakeWhile.symm⟩

theorem trimEnd_eq_nil_iff : t.trimEnd = [] ↔ t.IsBlank := List.rdropWhile_eq_nil_iff

theorem head?_trimEnd (h : ∀ b ∈ t.head?, isBlank b = false) : t.trimEnd.head? = t.head? := by
  obtain ⟨g, hg, ht⟩ := exists_trimEnd t
  cases hs : t.trimEnd with
  | nil =>
    have hb := trimEnd_eq_nil_iff.mp hs
    cases t with
    | nil => rfl
    | cons b t => exact absurd hb (not_isBlank_of_head (h b rfl))
  | cons b s =>
    rw [hs] at ht
    rw [ht]
    rfl

theorem trimmed_trimEnd (h : ∀ b ∈ t.head?, isBlank b = false) : Trimmed t.trimEnd :=
  ⟨by rwa [head?_trimEnd h], last_trimEnd t⟩

/-! ## Both ends -/

theorem exists_trimmed (t : Text) :
    ∃ lead s trail : Text, t = lead ++ s ++ trail ∧ lead.IsBlank ∧ trail.IsBlank ∧ s.Trimmed := by
  obtain ⟨g, hg, ht⟩ := exists_trimEnd (t.dropWhile isBlank)
  refine ⟨t.takeWhile isBlank, trimEnd (t.dropWhile isBlank), g, ?_, isBlank_takeWhile t, hg,
    trimmed_trimEnd (head?_dropWhile_blank t)⟩
  rw [List.append_assoc, ← ht, List.takeWhile_append_dropWhile]

theorem trimBlanks_pad {lead trail : Text} (hl : lead.IsBlank) (ht : trail.IsBlank)
    (h : t.Trimmed) : (lead ++ t ++ trail).trimBlanks = t := by
  unfold trimBlanks
  rw [List.append_assoc, List.dropWhile_append_of_pos hl]
  cases t with
  | nil =>
    rw [List.nil_append, List.dropWhile_eq_nil_iff.mpr ht]
    rfl
  | cons b t =>
    rw [dropWhile_of_first (by simpa using h.first b rfl), trimEnd_append_blank ht,
      trimEnd_of_last h.last]

theorem takeWhile_pad {lead : Text} (hl : lead.IsBlank) (h : ∀ b ∈ t.head?, isBlank b = false) :
    (lead ++ t).takeWhile isBlank = lead := by
  rw [List.takeWhile_append_of_pos hl, takeWhile_of_first h, List.append_nil]

theorem dropWhile_pad {lead : Text} (hl : lead.IsBlank) (h : ∀ b ∈ t.head?, isBlank b = false) :
    (lead ++ t).dropWhile isBlank = t := by
  rw [List.dropWhile_append_of_pos hl, dropWhile_of_first h]

end RobotsTxt.Text
