import RobotsTxt.Document.Grammar
import RobotsTxt.Proofs.Text.Space

/-!
# Cuts between characters

A text that is cut in two may lose a character at the cut, which then is read as stray bytes. No
character is lost where an ASCII byte stands on one side of the cut.

* `Text.Seam`: a cut that goes through no character.
* **`Text.seam_of_ascii`**: a cut beside an ASCII byte.
* `units16_append`: the UTF-16 units on the two sides of a seam.
* `units16_le_length`, `units16_pos`: how many units a text has.
-/

namespace RobotsTxt

variable {a : UInt8} {s t u : Text}

/-! ## Reading across a cut -/

theorem isTail_of_isSecond {b : UInt8} (h : Rune.isSecond a b = true) : Rune.isTail b = true := by
  simp only [Rune.isSecond, Rune.isTail, Bool.and_eq_true, decide_eq_true_iff] at h ⊢
  refine ⟨UInt8.le_trans ?_ h.1, UInt8.le_trans h.2 ?_⟩
  · split_ifs <;> decide
  · split_ifs <;> decide

theorem Rune.isTail_of_mem_read (a : UInt8) (t : Text) :
    ∀ b ∈ (Rune.read a t).bytes.tail, Rune.isTail b = true := by
  unfold Rune.read
  split
  · split_ifs with h
    · simpa using isTail_of_isSecond h
    · simp
  · split_ifs with h
    · obtain ⟨h₁, h₂⟩ := Bool.and_eq_true .. ▸ h
      simpa using ⟨isTail_of_isSecond h₁, h₂⟩
    · simp
  · split_ifs with h
    · obtain ⟨h₁₂, h₃⟩ := Bool.and_eq_true .. ▸ h
      obtain ⟨h₁, h₂⟩ := Bool.and_eq_true .. ▸ h₁₂
      simpa using ⟨isTail_of_isSecond h₁, h₂, h₃⟩
    · simp
  · split_ifs <;> simp

/-- A character does not go on behind a byte that continues none. -/
theorem Rune.read_append (a : UInt8) (s : Text) (h : ∀ b ∈ t.head?, Rune.isTail b = false) :
    Rune.read a (s ++ t) = Rune.read a s := by
  by_cases hle : lengthAt a - 1 ≤ s.length
  · rw [← read_take a (s ++ t), List.take_append_of_le_length hle, read_take]
  · rw [read_short (t := s) (by omega) (by omega)]
    rcases bytes_read a (s ++ t) with hr | ⟨hbytes, hlen⟩
    · exact hr
    · exfalso
      cases t with
      | nil =>
        rw [List.append_nil] at hlen
        exact hle hlen
      | cons b t =>
        have hmem : b ∈ (Rune.read a (s ++ b :: t)).bytes.tail := by
          rw [hbytes, List.tail_cons, List.take_append]
          have hpos : lengthAt a - 1 - s.length = (lengthAt a - 1 - s.length - 1) + 1 := by omega
          rw [hpos, List.take_succ_cons]
          simp
        exact absurd (isTail_of_mem_read a _ b hmem) (by simp [h b rfl])

theorem runes_ascii (h : a < 0x80) (t : Text) : runes (a :: t) = ⟨a.toNat, [a]⟩ :: runes t := by
  have hread : Rune.read a ([] ++ t) = ⟨a.toNat, [a]⟩ := by
    unfold Rune.read
    rw [lengthAt_of_ascii h]
    exact if_pos h
  have hr := runes_of_bytes (a := a) (x := []) (y := t) (by rw [hread])
  rwa [hread, List.nil_append] at hr

theorem not_isTail_of_ascii (h : a < 0x80) : Rune.isTail a = false := by
  have hle : ¬ 0x80 ≤ a := UInt8.not_le.mpr h
  simp [Rune.isTail, hle]

/-! ## ASCII characters -/

theorem Rune.lengthAt_bounds (a : UInt8) :
    (Rune.lengthAt a = 2 → 0xC2 ≤ a.toNat ∧ a.toNat ≤ 0xDF) ∧
    (Rune.lengthAt a = 3 → 0xE0 ≤ a.toNat ∧ a.toNat ≤ 0xEF) ∧
    (Rune.lengthAt a = 4 → 0xF0 ≤ a.toNat ∧ a.toNat ≤ 0xF4) := by
  simp only [Rune.lengthAt, Bool.and_eq_true, decide_eq_true_iff, UInt8.le_iff_toNat_le]
  split_ifs with h₂ h₃ h₄
  · exact ⟨fun _ => h₂, by simp, by simp⟩
  · exact ⟨by simp, fun _ => h₃, by simp⟩
  · exact ⟨by simp, by simp, fun _ => h₄⟩
  · simp

theorem Rune.isSecond_bounds {b : UInt8} (h : Rune.isSecond a b = true) : b.toNat ≤ 0xBF ∧
    (a.toNat = 0xE0 → 0xA0 ≤ b.toNat) ∧ (a.toNat = 0xF0 → 0x90 ≤ b.toNat) := by
  have htail := isTail_of_isSecond h
  simp only [Rune.isTail, Rune.isSecond, Bool.and_eq_true, decide_eq_true_iff,
    UInt8.le_iff_toNat_le] at h htail
  refine ⟨htail.2, fun ha => ?_, fun ha => ?_⟩
  · obtain rfl : a = 0xE0 := UInt8.toNat_inj.mp ha
    exact h.1
  · obtain rfl : a = 0xF0 := UInt8.toNat_inj.mp ha
    exact h.1

theorem Rune.read_of_ascii (h : (Rune.read a t).code < 0x80) :
    Rune.read a t = ⟨a.toNat, [a]⟩ := by
  have hstray : ¬ (⟨replacement, [a]⟩ : Rune).code < 0x80 := by simp [replacement]
  unfold Rune.read at h ⊢
  split at h
  · next hl =>
    split_ifs at h with hs
    · have := (lengthAt_bounds a).1 hl
      simp only [tailBits] at h
      omega
    · exact absurd h hstray
  · next hl =>
    split_ifs at h with hs
    · have := (lengthAt_bounds a).2.1 hl
      have := isSecond_bounds (Bool.and_eq_true .. ▸ hs).1
      simp only [tailBits] at h
      omega
    · exact absurd h hstray
  · next hl =>
    split_ifs at h with hs
    · have := (lengthAt_bounds a).2.2 hl
      have := isSecond_bounds (Bool.and_eq_true .. ▸ (Bool.and_eq_true .. ▸ hs).1).1
      simp only [tailBits] at h
      omega
    · exact absurd h hstray
  · split_ifs at h ⊢ with ha
    · rfl
    · exact absurd h hstray

/-! ## Seams -/

namespace Text

/-- **A cut that goes through no character.** -/
def Seam (s t : Text) : Prop := runes (s ++ t) = runes s ++ runes t

instance (s t : Text) : Decidable (Seam s t) := inferInstanceAs (Decidable (_ = _))

theorem seam_nil_left (t : Text) : Seam [] t := rfl

theorem seam_nil_right (s : Text) : Seam s [] := by
  rw [Seam, runes_nil, List.append_nil, List.append_nil]

theorem seam_of_head (h : ∀ b ∈ t.head?, Rune.isTail b = false) : Seam s t := by
  induction hn : s.length using Nat.strong_induction_on generalizing s with
  | _ n ih =>
    subst hn
    cases s with
    | nil => rfl
    | cons a s =>
      obtain ⟨x, y, rfl, hbytes, -, hr⟩ := runes_cons a s
      have hread : Rune.read a (x ++ (y ++ t)) = Rune.read a (x ++ y) := by
        rw [← List.append_assoc]
        exact Rune.read_append a (x ++ y) h
      have hy : Seam y t := by
        refine ih y.length ?_ rfl
        rw [List.length_cons, List.length_append]
        omega
      unfold Seam at hy ⊢
      rw [List.cons_append, List.append_assoc, runes_of_bytes (by rw [hread, hbytes]), hread, hr,
        hy, List.cons_append]

theorem seam_of_last (h : ∀ b ∈ s.getLast?, b < 0x80) : Seam s t := by
  rcases List.eq_nil_or_concat s with rfl | ⟨init, a, rfl⟩
  · rfl
  have ha : a < 0x80 := h a (by simp)
  have hcut : ∀ w : Text, Seam init (a :: w) := fun w =>
    seam_of_head (by simpa using not_isTail_of_ascii ha)
  have hall := hcut t
  have hinit := hcut []
  unfold Seam at hall hinit ⊢
  rw [List.concat_eq_append, List.append_assoc, List.singleton_append, hall, hinit, runes_ascii ha,
    runes_ascii ha, runes_nil, List.append_assoc]
  rfl

/-- **A cut beside an ASCII byte** goes through no character. -/
theorem seam_of_ascii (h : (∀ b ∈ s.getLast?, b < 0x80) ∨ ∀ b ∈ t.head?, b < 0x80) : Seam s t := by
  rcases h with h | h
  · exact seam_of_last h
  · exact seam_of_head fun b hb => not_isTail_of_ascii (h b hb)

theorem seam_mark (t : Text) : Seam byteOrderMark t := rfl

/-- What stands in front of an ASCII byte has no part in a seam behind it. -/
theorem Seam.of_append (h : Seam (u ++ s) t) (hu : ∀ b ∈ u.getLast?, b < 0x80) : Seam s t := by
  have hs : Seam u s := seam_of_last hu
  have hst : Seam u (s ++ t) := seam_of_last hu
  unfold Seam at h hs hst ⊢
  rw [List.append_assoc, hst, hs, List.append_assoc] at h
  exact List.append_cancel_left h

end Text

/-! ## UTF-16 units -/

/-- The number of UTF-16 units of some characters. -/
def unitsOf : List Rune → Nat
  | [] => 0
  | r :: rs => r.units + unitsOf rs

theorem unitsOf_append (rs ss : List Rune) : unitsOf (rs ++ ss) = unitsOf rs + unitsOf ss := by
  induction rs with
  | nil => exact (Nat.zero_add _).symm
  | cons r rs ih => rw [List.cons_append, unitsOf, unitsOf, ih, Nat.add_assoc]

theorem units16_eq (t : Text) : units16 t = unitsOf (runes t) := by
  have hfold : ∀ (rs : List Rune) (n : Nat),
      rs.foldl (fun n r => n + r.units) n = n + unitsOf rs := by
    intro rs
    induction rs with
    | nil => exact fun n => rfl
    | cons r rs ih =>
      intro n
      rw [List.foldl_cons, ih, unitsOf, Nat.add_assoc]
  rw [units16, hfold, Nat.zero_add]

theorem units16_append (h : s.Seam t) : units16 (s ++ t) = units16 s + units16 t := by
  rw [units16_eq, units16_eq, units16_eq, h, unitsOf_append]

theorem Rune.units_pos (r : Rune) : 0 < r.units := by
  unfold Rune.units
  split <;> omega

theorem units16_pos (h : t ≠ []) : 0 < units16 t := by
  obtain ⟨a, t, rfl⟩ := List.exists_cons_of_ne_nil h
  obtain ⟨x, y, -, -, -, hr⟩ := runes_cons a t
  have hpos := (Rune.read a t).units_pos
  rw [units16_eq, hr, unitsOf]
  omega

theorem Rune.units_le_length (a : UInt8) (t : Text) :
    (Rune.read a t).units ≤ (Rune.read a t).bytes.length := by
  have hunits : ∀ r : Rune, r.units ≤ 2 := fun r => by
    unfold Rune.units
    split <;> omega
  have hbyte := a.toNat_lt
  unfold Rune.read
  split
  · split_ifs
    · exact hunits _
    · exact Nat.le_refl 1
  · split_ifs
    · exact (hunits _).trans (by simp)
    · exact Nat.le_refl 1
  · split_ifs
    · exact (hunits _).trans (by simp)
    · exact Nat.le_refl 1
  · split_ifs
    · simp only [Rune.units, List.length_singleton]
      rw [if_neg (by omega)]
    · exact Nat.le_refl 1

theorem units16_le_length (t : Text) : units16 t ≤ t.length := by
  induction hn : t.length using Nat.strong_induction_on generalizing t with
  | _ n ih =>
    subst hn
    cases t with
    | nil => exact Nat.le_refl 0
    | cons a t =>
      obtain ⟨x, y, rfl, hbytes, -, hr⟩ := runes_cons a t
      have hfirst := Rune.units_le_length a (x ++ y)
      have hrest : units16 y ≤ y.length :=
        ih y.length (by rw [List.length_cons, List.length_append]; omega) y rfl
      rw [hbytes, List.length_cons] at hfirst
      rw [units16_eq] at hrest
      rw [units16_eq, hr, unitsOf, List.length_cons, List.length_append]
      omega

end RobotsTxt
