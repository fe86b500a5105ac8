import Mathlib.Data.List.DropRight
import RobotsTxt.Proofs.Text.Blank
import RobotsTxt.Text.Space

/-!
# Characters and the white space around them

The characters of a text hold the whole of it, and a text that is cut between two characters falls
into the characters in front of the cut and those behind it. White space is taken away in whole
characters, so it is taken away once and for all.

* `runes_cons`: the first character of a text and those after it.
* **`runes_append`**: the characters of a text that is cut between two of them.
* **`Text.trimSpace_trimSpace`**: a text without white space around it has none to take away.
* `Text.last_trimSpace`: such a text does not end with a blank.
-/

namespace RobotsTxt

variable {a : UInt8} {t s : Text} {rs ss : List Rune}

/-! ## Single characters -/

theorem lengthAt_cases (a : UInt8) : Rune.lengthAt a = 1 ∨ Rune.lengthAt a = 2 ∨
    Rune.lengthAt a = 3 ∨ Rune.lengthAt a = 4 := by
  unfold Rune.lengthAt
  split_ifs <;> simp

theorem lengthAt_of_ascii (h : a < 0x80) : Rune.lengthAt a = 1 := by
  have hle : ∀ c : UInt8, 0x80 ≤ c → ¬ c ≤ a := fun c hc hca => by
    rw [UInt8.lt_iff_toNat_lt] at h
    rw [UInt8.le_iff_toNat_le] at hc hca
    omega
  simp [Rune.lengthAt, hle 0xC2 (by decide), hle 0xE0 (by decide), hle 0xF0 (by decide)]

theorem Rune.read_short (h : Rune.lengthAt a ≠ 1) (ht : t.length + 1 < Rune.lengthAt a) :
    Rune.read a t = ⟨replacement, [a]⟩ := by
  have ha : ¬ a < 0x80 := fun ha => h (lengthAt_of_ascii ha)
  unfold Rune.read
  split
  · next h' => rw [h', List.length_cons] at ht; omega
  · next h' => rw [h', List.length_cons, List.length_cons] at ht; omega
  · next h' => rw [h', List.length_cons, List.length_cons, List.length_cons] at ht; omega
  · rw [if_neg ha]

theorem Rune.read_take (a : UInt8) (t : Text) :
    Rune.read a (t.take (Rune.lengthAt a - 1)) = Rune.read a t := by
  rcases lengthAt_cases a with h | h | h | h
  · simp only [Rune.read, h]
  · cases t with
    | nil => simp [h]
    | cons b t => simp [Rune.read, h]
  · match t with
    | [] | [b] => simp [h]
    | b :: c :: t => simp [Rune.read, h]
  · match t with
    | [] | [b] | [b, c] => simp [h]
    | b :: c :: d :: t => simp [Rune.read, h]

/-- A byte starts a sequence of the length that it announces, or it stands alone. -/
theorem Rune.bytes_read (a : UInt8) (t : Text) : Rune.read a t = ⟨replacement, [a]⟩ ∨
    (Rune.read a t).bytes = a :: t.take (Rune.lengthAt a - 1) ∧ Rune.lengthAt a - 1 ≤ t.length := by
  unfold Rune.read
  split
  · next h =>
    split
    · exact .inr ⟨by simp [h], by simp [h]⟩
    · exact .inl rfl
  · next h =>
    split
    · exact .inr ⟨by simp [h], by simp [h]⟩
    · exact .inl rfl
  · next h =>
    split
    · exact .inr ⟨by simp [h], by simp [h]⟩
    · exact .inl rfl
  · split
    · next ha => exact .inr ⟨by simp [lengthAt_of_ascii ha], by simp [lengthAt_of_ascii ha]⟩
    · exact .inl rfl

theorem Rune.exists_read (a : UInt8) (t : Text) : ∃ x y, t = x ++ y ∧
    (Rune.read a t).bytes = a :: x ∧
      ∀ y' : Text, y' <+: y → Rune.read a (x ++ y') = Rune.read a t := by
  have htake : ∀ y z : Text, lengthAt a - 1 ≤ y.length → read a y = read a (y ++ z) := by
    intro y z hle
    rw [← read_take a (y ++ z), List.take_append_of_le_length hle, read_take]
  rcases bytes_read a t with h | ⟨h, hle⟩
  · refine ⟨[], t, rfl, by rw [h], ?_⟩
    rintro y ⟨z, rfl⟩
    by_cases hy : lengthAt a - 1 ≤ y.length
    · exact htake y z hy
    · rw [h, List.nil_append]
      exact read_short (by omega) (by omega)
  · have hlen : (t.take (lengthAt a - 1)).length = lengthAt a - 1 := by simp [hle]
    refine ⟨t.take (lengthAt a - 1), t.drop (lengthAt a - 1), by simp, h, fun y _ => ?_⟩
    rw [← htake _ y (by omega), read_take]

/-! ## All characters -/

theorem runesFrom_eq (k : Nat) (t : Text) : runesFrom k t = runes (t.drop k) := by
  induction t generalizing k with
  | nil => simp [runesFrom, runes]
  | cons a t ih =>
    cases k with
    | zero => rfl
    | succ k => rw [runesFrom, ih, List.drop_succ_cons]

theorem runes_nil : runes [] = [] := rfl

theorem runes_of_bytes {x y : Text} (h : (Rune.read a (x ++ y)).bytes = a :: x) :
    runes (a :: (x ++ y)) = Rune.read a (x ++ y) :: runes y := by
  rw [runes, runesFrom, runesFrom_eq, h]
  simp

theorem runes_cons (a : UInt8) (t : Text) : ∃ x y, t = x ++ y ∧ (Rune.read a t).bytes = a :: x ∧
    (∀ y' : Text, y' <+: y → Rune.read a (x ++ y') = Rune.read a t) ∧
    runes (a :: t) = Rune.read a t :: runes y := by
  obtain ⟨x, y, rfl, hbytes, hread⟩ := Rune.exists_read a t
  exact ⟨x, y, rfl, hbytes, hread, runes_of_bytes hbytes⟩

theorem flatMap_runes (t : Text) : (runes t).flatMap Rune.bytes = t := by
  induction h : t.length using Nat.strong_induction_on generalizing t with
  | _ n ih =>
    subst h
    cases t with
    | nil => rfl
    | cons a t =>
      obtain ⟨x, y, rfl, hbytes, -, hr⟩ := runes_cons a t
      have hlt : y.length < (a :: (x ++ y)).length := by
        rw [List.length_cons, List.length_append]
        omega
      rw [hr, List.flatMap_cons, hbytes, ih y.length hlt y rfl]
      rfl

/-- **The characters of a text that is cut between two of them.** -/
theorem runes_append (h : runes t = rs ++ ss) :
    runes (rs.flatMap Rune.bytes) = rs ∧ runes (ss.flatMap Rune.bytes) = ss := by
  induction rs generalizing t with
  | nil =>
    refine ⟨rfl, ?_⟩
    rw [← List.nil_append ss, ← h, flatMap_runes]
  | cons r rs ih =>
    cases t with
    | nil => simp [runes_nil] at h
    | cons a t =>
      obtain ⟨x, y, rfl, hbytes, hread, hr⟩ := runes_cons a t
      rw [hr, List.cons_append, List.cons.injEq] at h
      obtain ⟨rfl, htail⟩ := h
      obtain ⟨h₁, h₂⟩ := ih htail
      have hy : y = rs.flatMap Rune.bytes ++ ss.flatMap Rune.bytes := by
        rw [← List.flatMap_append, ← htail, flatMap_runes]
      have hsame := hread (rs.flatMap Rune.bytes) ⟨_, hy.symm⟩
      refine ⟨?_, h₂⟩
      rw [List.flatMap_cons, hbytes, List.cons_append, runes_of_bytes (hsame ▸ hbytes), hsame, h₁]

theorem exists_read_of_mem_runes {r : Rune} (h : r ∈ runes t) : ∃ a s, r = Rune.read a s := by
  have hfrom : ∀ k, r ∈ runesFrom k t → ∃ a s, r = Rune.read a s := by
    clear h
    induction t with
    | nil => simp [runesFrom]
    | cons a t ih =>
      intro k hk
      cases k with
      | zero =>
        rw [runesFrom, List.mem_cons] at hk
        rcases hk with rfl | hk
        · exact ⟨a, t, rfl⟩
        · exact ih _ hk
      | succ k => exact ih k hk
  exact hfrom 0 h

/-! ## White space -/

theorem not_isBlank_of_high (h : 0x80 ≤ a) : isBlank a = false := by
  have hne : ∀ c : UInt8, c < 0x80 → a ≠ c := fun c hc e => by
    rw [UInt8.le_iff_toNat_le] at h
    rw [UInt8.lt_iff_toNat_lt, ← e] at hc
    omega
  simp [isBlank, hne 0x20 (by decide), hne 0x09 (by decide), hne 0x0B (by decide),
    hne 0x0C (by decide)]

theorem not_isBlank_of_isTail (h : Rune.isTail a) : isBlank a = false := by
  rw [Rune.isTail, Bool.and_eq_true, decide_eq_true_iff] at h
  exact not_isBlank_of_high h.1

theorem not_isBlank_of_isSecond {b : UInt8} (h : Rune.isSecond a b) : isBlank b = false := by
  rw [Rune.isSecond, Bool.and_eq_true, decide_eq_true_iff] at h
  refine not_isBlank_of_high (UInt8.le_trans ?_ h.1)
  split_ifs <;> decide

theorem isSpace_of_isBlank {b : UInt8} (h : isBlank b) : isSpace b.toNat := by
  simp only [isBlank, Bool.or_eq_true, beq_iff_eq] at h
  rcases h with ((rfl | rfl) | rfl) | rfl <;> rfl

theorem Rune.last_read (a : UInt8) (t : Text) : Rune.read a t = ⟨a.toNat, [a]⟩ ∨
    ∀ b ∈ (Rune.read a t).bytes.getLast?, isBlank b = false := by
  have halone : ¬ a < 0x80 → isBlank a = false := fun ha => not_isBlank_of_high (UInt8.not_lt.mp ha)
  have hlead : lengthAt a ≠ 1 → isBlank a = false := fun hl => halone (mt lengthAt_of_ascii hl)
  unfold Rune.read
  split
  · split_ifs with h
    · exact .inr (by simpa using not_isBlank_of_isSecond h)
    · exact .inr (by simpa using hlead (by omega))
  · split_ifs with h
    · exact .inr (by simpa using not_isBlank_of_isTail (Bool.and_eq_true .. ▸ h).2)
    · exact .inr (by simpa using hlead (by omega))
  · split_ifs with h
    · exact .inr (by simpa using not_isBlank_of_isTail (Bool.and_eq_true .. ▸ h).2)
    · exact .inr (by simpa using hlead (by omega))
  · split_ifs with h
    · exact .inl rfl
    · exact .inr (by simpa using halone h)

namespace Text

/-- The characters of a text between the white space at its two ends. -/
def inner (t : Text) : List Rune :=
  ((runes t).dropWhile fun r => isSpace r.code).rdropWhile fun r => isSpace r.code

theorem trimSpace_eq (t : Text) : t.trimSpace = t.inner.flatMap Rune.bytes := rfl

theorem exists_inner (t : Text) : ∃ lead trail, runes t = lead ++ (t.inner ++ trail) ∧
    (∀ r ∈ lead, isSpace r.code) ∧ ∀ r ∈ trail, isSpace r.code := by
  let space (r : Rune) : Bool := isSpace r.code
  refine ⟨(runes t).takeWhile space, ((runes t).dropWhile space).rtakeWhile space, ?_,
    fun r hr => List.mem_takeWhile_imp (p := space) hr,
    fun r hr => List.mem_rtakeWhile_imp (p := space) hr⟩
  rw [inner, List.rdropWhile_append_rtakeWhile, List.takeWhile_append_dropWhile]

theorem runes_trimSpace (t : Text) : runes t.trimSpace = t.inner := by
  obtain ⟨lead, trail, h, -, -⟩ := exists_inner t
  obtain ⟨-, h⟩ := runes_append h
  exact (runes_append (h.trans rfl)).1

theorem first_inner (t : Text) : ∀ r ∈ t.inner.head?, isSpace r.code = false := by
  intro r hr
  obtain ⟨rs, h⟩ := List.head?_eq_some_iff.mp hr
  have hpre : t.inner <+: (runes t).dropWhile fun r => isSpace r.code :=
    List.rdropWhile_prefix _ _
  obtain ⟨ss, hs⟩ := hpre
  have hfirst := List.head?_dropWhile_not (fun r => isSpace r.code) (runes t)
  rw [← hs, h] at hfirst
  simpa using hfirst

theorem last_inner (t : Text) : ∀ r ∈ t.inner.getLast?, isSpace r.code = false := by
  intro r hr
  have hne : t.inner ≠ [] := fun h => by simp [h] at hr
  rw [List.getLast?_eq_getLast_of_ne_nil hne, Option.mem_some_iff] at hr
  rw [← hr]
  exact Bool.eq_false_iff.mpr (List.rdropWhile_last_not _ _ hne)

theorem inner_trimSpace (t : Text) : t.trimSpace.inner = t.inner := by
  have hfirst : t.inner.dropWhile (fun r => isSpace r.code) = t.inner := by
    cases h : t.inner with
    | nil => rfl
    | cons r rs => exact List.dropWhile_cons_of_neg (by simp [t.first_inner r (by simp [h])])
  rw [inner, runes_trimSpace, hfirst, inner, List.rdropWhile_idempotent]

/-- **A text without white space around it has none to take away.** -/
theorem trimSpace_trimSpace (t : Text) : t.trimSpace.trimSpace = t.trimSpace := by
  rw [trimSpace_eq, inner_trimSpace, ← trimSpace_eq]

theorem trimSpace_space (t : Text) : trimSpace (0x20 :: t) = t.trimSpace := by
  have h : runes (0x20 :: t) = ⟨0x20, [0x20]⟩ :: runes t := rfl
  rw [trimSpace_eq, trimSpace_eq, inner, inner, h, List.dropWhile_cons_of_pos rfl]

theorem mem_of_mem_trimSpace {b : UInt8} (h : b ∈ t.trimSpace) : b ∈ t := by
  obtain ⟨lead, trail, hr, -, -⟩ := exists_inner t
  rw [← flatMap_runes t, hr, List.flatMap_append, List.flatMap_append]
  simp only [List.mem_append]
  exact .inr (.inl h)

theorem last_trimSpace (t : Text) : ∀ b ∈ t.trimSpace.getLast?, isBlank b = false := by
  intro b hb
  rw [trimSpace_eq] at hb
  by_cases hne : t.inner = []
  · simp [hne] at hb
  · have hlast := t.last_inner _ (List.getLast?_eq_getLast_of_ne_nil hne)
    have hmem : t.inner.getLast hne ∈ runes t.trimSpace := by
      rw [runes_trimSpace]
      exact List.getLast_mem hne
    obtain ⟨a, s, hr⟩ := exists_read_of_mem_runes hmem
    obtain ⟨x, -, -, hbytes, -⟩ := Rune.exists_read a s
    rw [← List.dropLast_append_getLast hne, hr, List.flatMap_append, List.flatMap_singleton,
      List.getLast?_append_of_ne_nil _ (by simp [hbytes])] at hb
    rcases Rune.last_read a s with hrune | hlast'
    · rw [hr, hrune] at hlast
      obtain rfl : a = b := by simpa [hrune] using hb
      exact Bool.eq_false_iff.mpr fun h => by simp [isSpace_of_isBlank h] at hlast
    · exact hlast' b hb

end Text

end RobotsTxt
