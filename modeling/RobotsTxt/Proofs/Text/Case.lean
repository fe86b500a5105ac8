import RobotsTxt.Text.Case

/-!
# Lower case and folding

Where the lower case of a character is an ASCII character, its folding is the same one, but for
U+0130. Where the folding is an ASCII character, the lower case is the same one, but for U+017F.

* `CaseRun.image_ascii`: the few code points that a table takes to ASCII characters.
* `lowerRune_ascii`, `foldRune_ascii`: the characters that one of the two takes to ASCII.
* `Text.lowerKey`: the code points of a text in lower case; **`Text.lowerKey_of_ascii`**: they are
  told by the text in lower case, if that is ASCII.
* `Text.dots`, `Text.HasLongS`: where a text has U+0130, and whether it has U+017F.
* **`Text.foldKey_of_lowerKey`**, **`Text.lowerKey_of_foldKey`**: from the one key to the other.
-/

namespace RobotsTxt

variable {c : Nat} {cs : List Nat} {t w : Text}

/-! ## Characters -/

theorem CaseRun.image_cases (runs : List CaseRun) (c : Nat) : image runs c = c ∨
    ∃ r ∈ runs, r.first ≤ c ∧ c ≤ r.last ∧ image runs c = (c + r.shift).toNat := by
  unfold image
  cases h : runs.find? (·.covers c) with
  | none => exact .inl rfl
  | some r =>
    have hcovers := List.find?_some h
    simp only [covers, Bool.and_eq_true, decide_eq_true_eq] at hcovers
    exact .inr ⟨r, List.mem_of_find?_eq_some h, hcovers.1.1, hcovers.1.2, rfl⟩

/-- A table takes few code points to ASCII characters if each of its runs stays among the ASCII
characters, stays clear of them, or is one of these code points. -/
theorem CaseRun.image_ascii {runs : List CaseRun} {few : List Nat}
    (hruns : ∀ r ∈ runs, r.last < 0x80 ∨ 0x80 ≤ r.first + r.shift ∨
      r.first = r.last ∧ r.first ∈ few)
    (hc : 0x80 ≤ c) (h : image runs c < 0x80) : c ∈ few := by
  rcases image_cases runs c with heq | ⟨r, hr, hfirst, hlast, heq⟩
  · omega
  · rcases hruns r hr with hlow | hhigh | ⟨hsingle, hfew⟩
    · omega
    · omega
    · obtain rfl : c = r.first := by omega
      exact hfew

theorem lowerRune_of_ascii (h : c < 0x80) :
    lowerRune c = if 0x41 ≤ c && c ≤ 0x5A then c + 0x20 else c := if_pos h

theorem foldRune_of_ascii (h : c < 0x80) : foldRune c = lowerRune c := by
  rw [lowerRune_of_ascii h, foldRune, if_pos h]

theorem lowerRune_lt_of_ascii (h : c < 0x80) : lowerRune c < 0x80 := by
  rw [lowerRune_of_ascii h]
  split
  · next hletter =>
    simp only [Bool.and_eq_true, decide_eq_true_eq] at hletter
    omega
  · exact h

theorem lowerRune_ascii (h : lowerRune c < 0x80) : c < 0x80 ∨ c = 0x130 ∨ c = 0x212A := by
  by_cases hc : c < 0x80
  · exact .inl hc
  · rw [lowerRune, if_neg hc] at h
    have hfew : c ∈ [0x130, 0x212A] :=
      CaseRun.image_ascii (by decide +kernel) (by omega) h
    simpa using Or.inr hfew

theorem foldRune_ascii (h : foldRune c < 0x80) : c < 0x80 ∨ c = 0x17F ∨ c = 0x212A := by
  by_cases hc : c < 0x80
  · exact .inl hc
  · rw [foldRune, if_neg hc] at h
    have hfew : c ∈ [0x17F, 0x212A] :=
      CaseRun.image_ascii (by decide +kernel) (by omega) h
    simpa using Or.inr hfew

theorem foldRune_eq_dotted_iff : foldRune c = 0x130 ↔ c = 0x130 := by
  constructor
  · intro h
    by_cases hc : c < 0x80
    · have := lowerRune_lt_of_ascii hc
      rw [foldRune_of_ascii hc] at h
      omega
    · rw [foldRune, if_neg hc] at h
      rcases CaseRun.image_cases foldRuns c with heq | ⟨r, hr, hfirst, hlast, heq⟩
      · omega
      · have hruns : ∀ r ∈ foldRuns, r.last + r.shift < 0x130 ∨ 0x130 < r.first + r.shift := by
          decide +kernel
        have := hruns r hr
        omega
  · rintro rfl
    decide +kernel

theorem foldRune_of_lowerRune (h : lowerRune c < 0x80) :
    foldRune c = if c = 0x130 then 0x130 else lowerRune c := by
  rcases lowerRune_ascii h with hc | rfl | rfl
  · rw [foldRune_of_ascii hc, if_neg (by omega)]
  · decide +kernel
  · decide +kernel

theorem lowerRune_of_foldRune (h : foldRune c < 0x80 ∨ foldRune c = 0x130) (hs : c ≠ 0x17F) :
    lowerRune c = if foldRune c = 0x130 then 0x69 else foldRune c := by
  rcases h with h | h
  · rw [if_neg (by omega)]
    rcases foldRune_ascii h with hc | rfl | rfl
    · exact (foldRune_of_ascii hc).symm
    · exact absurd rfl hs
    · decide +kernel
  · rw [if_pos h, foldRune_eq_dotted_iff.mp h]
    decide +kernel

/-! ## Bytes -/

theorem encodeRune_high (h : 0x80 ≤ c) : ∃ b u, encodeRune c = b :: u ∧ 0x80 ≤ b := by
  have hhigh : ∀ n, 0x80 ≤ n → n < 0x100 → 0x80 ≤ UInt8.ofNat n := fun n h₁ h₂ => by
    rw [UInt8.le_iff_toNat_le, UInt8.toNat_ofNat_of_lt' h₂]
    exact h₁
  simp only [encodeRune, if_neg (Nat.not_lt.mpr h)]
  split
  · exact ⟨_, _, rfl, hhigh _ (by omega) (by omega)⟩
  · split
    · exact ⟨_, _, rfl, by decide⟩
    · next hrange =>
      simp only [Bool.or_eq_true, Bool.and_eq_true, decide_eq_true_eq] at hrange
      split <;> exact ⟨_, _, rfl, hhigh _ (by omega) (by omega)⟩

theorem eq_of_flatMap_encodeRune (hw : ∀ b ∈ w, b < 0x80) (h : cs.flatMap encodeRune = w) :
    cs = w.map UInt8.toNat := by
  induction cs generalizing w with
  | nil => rw [← h]; rfl
  | cons c cs ih =>
    rw [List.flatMap_cons] at h
    by_cases hc : c < 0x80
    · rw [encodeRune, if_pos hc] at h
      subst h
      rw [List.singleton_append, List.map_cons, ← ih (fun b hb => hw b (by simp [hb])) rfl,
        UInt8.toNat_ofNat_of_lt' (by show c < 256; omega)]
    · obtain ⟨b, u, hb, hhigh⟩ := encodeRune_high (c := c) (by omega)
      have hlow := hw b (by rw [← h, hb]; simp)
      exact absurd hhigh (UInt8.not_le.mpr hlow)

/-! ## Texts -/

namespace Text

/-- The code points of a text. -/
def codes (t : Text) : List Nat := (runes t).map Rune.code

/-- The code points of a text, each in lower case. -/
def lowerKey (t : Text) : List Nat := t.codes.map lowerRune

/-- For each character of a text, whether it is U+0130. -/
def dots (t : Text) : List Bool := t.codes.map fun c => c == 0x130

/-- A text with U+017F, the long `s`. -/
def HasLongS (t : Text) : Prop := 0x17F ∈ t.codes

instance (t : Text) : Decidable t.HasLongS := inferInstanceAs (Decidable (0x17F ∈ t.codes))

theorem foldKey_eq (t : Text) : t.foldKey = t.codes.map foldRune := by
  rw [foldKey, codes, List.map_map]
  rfl

theorem lower_eq (t : Text) : t.lower = t.lowerKey.flatMap encodeRune := by
  rw [lower, lowerKey, codes, List.map_map, List.flatMap_map]
  rfl

theorem lowerKey_of_ascii (hw : ∀ b ∈ w, b < 0x80) (h : t.lower = w) :
    t.lowerKey = w.map UInt8.toNat :=
  eq_of_flatMap_encodeRune hw ((lower_eq t).symm.trans h)

theorem dots_eq (t : Text) : t.dots = t.foldKey.map fun c => c == 0x130 := by
  rw [foldKey_eq, dots, List.map_map]
  refine List.map_congr_left fun c _ => ?_
  rw [Function.comp_apply, Bool.eq_iff_iff, beq_iff_eq, beq_iff_eq, foldRune_eq_dotted_iff]

/-- **The folded code points**, of the ones in lower case and the places of U+0130. -/
theorem foldKey_of_lowerKey (h : ∀ a ∈ t.lowerKey, a < 0x80) :
    t.foldKey = t.lowerKey.zipWith (fun a dot => if dot then 0x130 else a) t.dots := by
  rw [foldKey_eq, lowerKey, dots, List.zipWith_map, List.zipWith_self]
  refine List.map_congr_left fun c hc => ?_
  simpa using foldRune_of_lowerRune (h _ (List.mem_map_of_mem hc))

theorem foldKey_ascii (h : ∀ a ∈ t.lowerKey, a < 0x80) : ∀ a ∈ t.foldKey, a < 0x80 ∨ a = 0x130 := by
  intro a ha
  rw [foldKey_eq] at ha
  obtain ⟨c, hc, rfl⟩ := List.mem_map.mp ha
  have hlow := h _ (List.mem_map_of_mem hc)
  rw [foldRune_of_lowerRune hlow]
  split
  · exact .inr rfl
  · exact .inl hlow

/-- **The code points in lower case**, of the folded ones, without U+017F. -/
theorem lowerKey_of_foldKey (h : ∀ a ∈ t.foldKey, a < 0x80 ∨ a = 0x130) (hs : ¬ t.HasLongS) :
    t.lowerKey = t.foldKey.map fun a => if a = 0x130 then 0x69 else a := by
  rw [foldKey_eq] at h ⊢
  rw [lowerKey, List.map_map]
  refine List.map_congr_left fun c hc => ?_
  refine lowerRune_of_foldRune (h _ (List.mem_map_of_mem hc)) ?_
  rintro rfl
  exact hs hc

end Text

end RobotsTxt
