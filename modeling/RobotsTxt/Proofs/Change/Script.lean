import Mathlib.Data.List.Basic
import RobotsTxt.Change
import RobotsTxt.Editor.TextEdit

/-!
# Edit scripts

An edit script replaces some stretches of a text, one after another. Seen from both texts at once it
is a list of patches: what is kept, then what goes and what comes in its place.

* `Replacement.Fit`, `Replacement.changes`: valid scripts, and the changes that they make.
* `Patch`: one replacement with the text kept in front of it; `Replacement.exists_patches`: every
  valid script is a list of patches.
* `Patch.Kept`: a stretch of both texts that no patch touches.
* **`Patch.exists_kept`**: whatever no change touches in the new text was there before.
* **`Patch.carry_mono`**: changes carry offsets of the old text in order.
-/

namespace RobotsTxt

/-- A change in the other direction. -/
def Change.swap (c : Change) : Change := ⟨c.new, c.old⟩

namespace Replacement

/-- Replacements in order, without overlaps, and inside the text from an offset on. -/
def Fit (t : Text) : (offset : Nat) → List Replacement → Prop
  | offset, [] => offset ≤ t.length
  | offset, r :: rs => offset ≤ r.start ∧ r.start ≤ r.stop ∧ Fit t r.stop rs

instance decidableFit (t : Text) :
    (offset : Nat) → (rs : List Replacement) → Decidable (Fit t offset rs)
  | _, [] => inferInstanceAs (Decidable (_ ≤ _))
  | _, r :: rs =>
    have := decidableFit t r.stop rs
    inferInstanceAs (Decidable (_ ∧ _ ∧ _))

/-- The changes that some replacements make, where `shift` is how far the replacements before them
have moved the text. -/
def changes : (shift : Int) → List Replacement → List Change
  | _, [] => []
  | shift, r :: rs =>
    ⟨⟨r.start, r.stop⟩, ⟨r.start + shift, r.start + shift + r.new.length⟩⟩ ::
      changes (r.start + shift + r.new.length - r.stop) rs

end Replacement

/-- A replacement with the text kept in front of it. -/
structure Patch where
  kept : Text
  gone : Text
  come : Text

namespace Patch

variable {a b : Nat} {p : Patch} {ps : List Patch} {tail : Text} {tracking : Tracking}

/-- The text before some patches, which ends with `tail`. -/
def before (tail : Text) : List Patch → Text
  | [] => tail
  | p :: ps => p.kept ++ p.gone ++ before tail ps

/-- The text after some patches, which ends with `tail`. -/
def after (tail : Text) : List Patch → Text
  | [] => tail
  | p :: ps => p.kept ++ p.come ++ after tail ps

/-- A patch in the other direction. -/
def swap (p : Patch) : Patch := ⟨p.kept, p.come, p.gone⟩

/-- The changes of some patches, where the text before them stands at `a` and the text after them at
`b`. -/
def changes : (a b : Nat) → List Patch → List Change
  | _, _, [] => []
  | a, b, p :: ps =>
    ⟨⟨(a + p.kept.length : Nat), (a + p.kept.length + p.gone.length : Nat)⟩,
      ⟨(b + p.kept.length : Nat), (b + p.kept.length + p.come.length : Nat)⟩⟩ ::
      changes (a + p.kept.length + p.gone.length) (b + p.kept.length + p.come.length) ps

theorem before_swap (tail : Text) (ps : List Patch) :
    before tail (ps.map swap) = after tail ps := by
  induction ps with
  | nil => rfl
  | cons p ps ih => rw [List.map_cons, before, after, ih]; rfl

theorem after_swap (tail : Text) (ps : List Patch) : after tail (ps.map swap) = before tail ps := by
  induction ps with
  | nil => rfl
  | cons p ps ih => rw [List.map_cons, before, after, ih]; rfl

theorem changes_swap (a b : Nat) (ps : List Patch) :
    changes b a (ps.map swap) = (changes a b ps).map Change.swap := by
  induction ps generalizing a b with
  | nil => rfl
  | cons p ps ih =>
    rw [List.map_cons, changes, changes, List.map_cons, ← ih]
    rfl

theorem le_of_mem_changes {c : Change} (h : c ∈ changes a b ps) :
    a ≤ c.old.start ∧ c.old.start ≤ c.old.stop ∧ b ≤ c.new.start ∧ c.new.start ≤ c.new.stop := by
  induction ps generalizing a b with
  | nil => simp [changes] at h
  | cons p ps ih =>
    rcases List.mem_cons.mp h with rfl | h
    · simp only
      omega
    · have := ih h
      omega

theorem sorted_changes (a b : Nat) (ps : List Patch) :
    Change.sorted (changes a b ps) = changes a b ps := by
  refine List.mergeSort_of_pairwise ?_
  induction ps generalizing a b with
  | nil => exact List.Pairwise.nil
  | cons p ps ih =>
    refine List.Pairwise.cons (fun c hc => ?_) (ih _ _)
    have := (le_of_mem_changes hc).1
    simp only [decide_eq_true_eq]
    omega

/-! ## Carrying offsets -/

theorem le_carry {x : Int} (h : a ≤ x) :
    b ≤ Change.carry tracking x (b - a) (changes a b ps) := by
  induction ps generalizing a b with
  | nil =>
    simp only [changes, Change.carry]
    omega
  | cons p ps ih =>
    simp only [changes, Change.carry]
    split_ifs with h₁ h₂
    · omega
    · cases tracking <;> simp only <;> omega
    · have := ih (a := a + p.kept.length + p.gone.length) (b := b + p.kept.length + p.come.length)
        (by omega)
      omega

/-- **Changes carry offsets of the old text in order.** -/
theorem carry_mono {x y : Int} (h : a ≤ x) (hxy : x ≤ y) :
    Change.carry tracking x (b - a) (changes a b ps) ≤
      Change.carry tracking y (b - a) (changes a b ps) := by
  induction ps generalizing a b with
  | nil =>
    simp only [changes, Change.carry]
    omega
  | cons p ps ih =>
    have hlow := @le_carry (a + p.kept.length + p.gone.length) (b + p.kept.length + p.come.length)
      ps tracking y
    have hrec := ih (a := a + p.kept.length + p.gone.length)
      (b := b + p.kept.length + p.come.length)
    simp only [changes, Change.carry]
    cases tracking <;> simp only [reduceCtorEq, and_true, and_false, or_false] <;> split_ifs <;>
      omega

theorem carry_past {x : Int} (h : (a + p.kept.length + p.gone.length : Nat) < x) :
    Change.carry tracking x (b - a) (changes a b (p :: ps)) =
      Change.carry tracking x ((b + p.kept.length + p.come.length : Nat) -
        (a + p.kept.length + p.gone.length : Nat))
        (changes (a + p.kept.length + p.gone.length) (b + p.kept.length + p.come.length) ps) := by
  simp only [changes, Change.carry]
  rw [if_neg (by omega), if_neg (by omega)]

theorem carry_le {x : Int} (hx : x ≤ (a + (before tail ps).length : Nat)) :
    Change.carry tracking x (b - a) (changes a b ps) ≤ (b + (after tail ps).length : Nat) := by
  induction ps generalizing a b with
  | nil =>
    simp only [changes, Change.carry, before, after] at hx ⊢
    omega
  | cons p ps ih =>
    have hrec := ih (a := a + p.kept.length + p.gone.length)
      (b := b + p.kept.length + p.come.length)
    simp only [changes, Change.carry, before, after, List.length_append] at hx ⊢
    cases tracking <;> simp only [reduceCtorEq, and_true, and_false, or_false] <;> split_ifs <;>
      omega

/-! ## What is kept -/

/-- A stretch `mid` of both texts that no patch touches, with what stands before and after it. Up to
the nearest patch on either side, which does not adjoin the stretch, both texts agree. -/
structure Kept (a b : Nat) (ps : List Patch) (pre pre' mid post post' : Text) : Prop where
  left : ∃ front front' gap, pre = front ++ gap ∧ pre' = front' ++ gap ∧
    (front = [] ∧ front' = [] ∨
      gap ≠ [] ∧ ∃ c ∈ changes a b ps, c.old.stop = (a + front.length : Nat))
  right : ∃ gap back back', post = gap ++ back ∧ post' = gap ++ back' ∧
    (back = [] ∧ back' = [] ∨
      gap ≠ [] ∧ ∃ c ∈ changes a b ps,
        c.old.start = (a + pre.length + mid.length + gap.length : Nat))
  misses : ∀ c ∈ changes a b ps,
    ¬ Span.touches ⟨(a + pre.length : Nat), (a + pre.length + mid.length : Nat)⟩ c.old
  start : Change.carry .before (a + pre.length : Nat) (b - a) (changes a b ps) =
    (b + pre'.length : Nat)
  stop : Change.carry .after (a + pre.length + mid.length : Nat) (b - a) (changes a b ps) =
    (b + pre'.length + mid.length : Nat)

theorem Kept.nil (a b : Nat) (pre mid post : Text) : Kept a b [] pre pre mid post post where
  left := ⟨[], [], pre, rfl, rfl, .inl ⟨rfl, rfl⟩⟩
  right := ⟨post, [], [], by simp, by simp, .inl ⟨rfl, rfl⟩⟩
  misses := by simp [changes]
  start := by
    simp only [changes, Change.carry]
    omega
  stop := by
    simp only [changes, Change.carry]
    omega

theorem Kept.here (a b : Nat) {pre mid gap : Text} (h : p.kept = pre ++ mid ++ gap)
    (hg : gap ≠ []) :
    Kept a b (p :: ps) pre pre mid (gap ++ p.gone ++ before tail ps)
      (gap ++ p.come ++ after tail ps) := by
  have hlen := congrArg List.length h
  have hpos := List.length_pos_of_ne_nil hg
  simp only [List.length_append] at hlen
  refine ⟨⟨[], [], pre, rfl, rfl, .inl ⟨rfl, rfl⟩⟩,
    ⟨gap, _, _, List.append_assoc .., List.append_assoc .., .inr ⟨hg, _, List.mem_cons_self, ?_⟩⟩,
    fun c hc => ?_, ?_, ?_⟩
  · simp only
    omega
  · have : (a + pre.length + mid.length : Nat) < c.old.start := by
      rcases List.mem_cons.mp hc with rfl | hc
      · simp only
        omega
      · have := (le_of_mem_changes hc).1
        omega
    simp only [Span.touches, Bool.and_eq_true, decide_eq_true_eq]
    omega
  · rw [changes, Change.carry, if_pos (.inl (by simp only; omega))]
    omega
  · rw [changes, Change.carry, if_pos (.inl (by simp only; omega))]
    omega

theorem Kept.there {pre pre' mid post post' : Text}
    (h : Kept (a + p.kept.length + p.gone.length) (b + p.kept.length + p.come.length) ps pre pre'
      mid post post') (hne : pre' ≠ []) :
    Kept a b (p :: ps) (p.kept ++ p.gone ++ pre) (p.kept ++ p.come ++ pre') mid post post' := by
  obtain ⟨front, front', gap, rfl, rfl, hleft⟩ := h.left
  have hgap : gap ≠ [] := by
    rcases hleft with ⟨-, rfl⟩ | ⟨hg, -⟩
    · simpa using hne
    · exact hg
  have hpos := List.length_pos_of_ne_nil hgap
  refine ⟨⟨p.kept ++ p.gone ++ front, p.kept ++ p.come ++ front', gap, by simp, by simp,
    .inr ⟨hgap, ?_⟩⟩, ?_, fun c hc => ?_, ?_, ?_⟩
  · rcases hleft with ⟨rfl, -⟩ | ⟨-, c, hc, hstop⟩
    · refine ⟨_, List.mem_cons_self, ?_⟩
      simp only [List.length_append, List.length_nil]
      omega
    · refine ⟨c, List.mem_cons_of_mem _ hc, ?_⟩
      rw [hstop]
      simp only [List.length_append]
      omega
  · obtain ⟨gap', back, back', hp, hp', hright⟩ := h.right
    refine ⟨gap', back, back', hp, hp', hright.imp_right ?_⟩
    rintro ⟨hg, c, hc, hstart⟩
    refine ⟨hg, c, List.mem_cons_of_mem _ hc, ?_⟩
    rw [hstart]
    simp only [List.length_append]
    omega
  · rcases List.mem_cons.mp hc with rfl | hc
    · simp only [Span.touches, Bool.and_eq_true, decide_eq_true_eq, List.length_append]
      omega
    · have := h.misses c hc
      simp only [Span.touches, Bool.and_eq_true, decide_eq_true_eq, List.length_append] at this ⊢
      omega
  · have hpre : a + (p.kept ++ p.gone ++ (front ++ gap)).length =
        a + p.kept.length + p.gone.length + (front ++ gap).length := by
      simp only [List.length_append]
      omega
    rw [hpre, carry_past (by simp only [List.length_append]; omega), h.start]
    simp only [List.length_append]
    omega
  · have hpre : a + (p.kept ++ p.gone ++ (front ++ gap)).length =
        a + p.kept.length + p.gone.length + (front ++ gap).length := by
      simp only [List.length_append]
      omega
    rw [hpre, carry_past (by simp only [List.length_append]; omega), h.stop]
    simp only [List.length_append]
    omega

/-- **Whatever no change touches in the new text was there before.** -/
theorem exists_kept {pre' mid post' : Text} (h : after tail ps = pre' ++ mid ++ post')
    (hc : ∀ c ∈ changes a b ps,
      ¬ Span.touches ⟨(b + pre'.length : Nat), (b + pre'.length + mid.length : Nat)⟩ c.new) :
    ∃ pre post, before tail ps = pre ++ mid ++ post ∧ Kept a b ps pre pre' mid post post' := by
  induction ps generalizing a b pre' with
  | nil => exact ⟨pre', post', h, Kept.nil a b pre' mid post'⟩
  | cons p ps ih =>
    have hp := hc _ List.mem_cons_self
    simp only [Span.touches, Bool.and_eq_true, decide_eq_true_eq] at hp
    rw [after] at h
    by_cases hfirst : pre'.length + mid.length < p.kept.length
    · obtain ⟨gap, hgap, hpost⟩ : ∃ gap, p.kept = pre' ++ mid ++ gap ∧
          post' = gap ++ p.come ++ after tail ps := by
        rw [List.append_assoc p.kept] at h
        rcases List.append_eq_append_iff.mp h with ⟨gap, hg, hpost⟩ | ⟨gap, hg, hpost⟩
        · have := congrArg List.length hg
          simp only [List.length_append] at this
          omega
        · exact ⟨gap, hg, by rw [hpost, List.append_assoc]⟩
      have hne : gap ≠ [] := by
        rintro rfl
        simp [hgap] at hfirst
      refine ⟨pre', gap ++ p.gone ++ before tail ps, by simp [before, hgap], ?_⟩
      rw [hpost]
      exact Kept.here a b hgap hne
    · obtain ⟨rest, rfl, hrest⟩ : ∃ rest, pre' = p.kept ++ p.come ++ rest ∧
          after tail ps = rest ++ mid ++ post' := by
        rw [List.append_assoc pre'] at h
        rcases List.append_eq_append_iff.mp h with ⟨rest, hr, hpost⟩ | ⟨rest, hr, hpost⟩
        · exact ⟨rest, hr, by rw [hpost, List.append_assoc]⟩
        · have := congrArg List.length hr
          simp only [List.length_append] at this
          omega
      have hne : rest ≠ [] := by
        rintro rfl
        simp only [List.append_nil, List.length_append] at hp hfirst
        omega
      have hlen : b + (p.kept ++ p.come ++ rest).length =
          b + p.kept.length + p.come.length + rest.length := by
        simp only [List.length_append]
        omega
      rw [hlen] at hc
      obtain ⟨pre, post, hold, hkept⟩ := ih hrest fun c hmem => hc c (List.mem_cons_of_mem _ hmem)
      exact ⟨p.kept ++ p.gone ++ pre, post, by simp [before, hold], hkept.there hne⟩

end Patch

/-! ## Scripts as patches -/

theorem Replacement.Fit.le_length {t : Text} {offset : Nat} {rs : List Replacement}
    (h : Replacement.Fit t offset rs) : offset ≤ t.length := by
  induction rs generalizing offset with
  | nil => exact h
  | cons r rs ih =>
    obtain ⟨h₁, h₂, h₃⟩ := h
    have := ih h₃
    omega

theorem Text.drop_eq_slice (t : Text) {i j : Nat} (h : i ≤ j) :
    t.drop i = t.slice i j ++ t.drop j := by
  have := (List.take_append_drop (j - i) (t.drop i)).symm
  rwa [List.drop_drop, Nat.add_sub_cancel' h] at this

theorem Text.length_slice {t : Text} {i j : Nat} (h : j ≤ t.length) :
    (t.slice i j).length = j - i := by
  rw [Text.slice, List.length_take, List.length_drop]
  omega

theorem Replacement.exists_patches {t : Text} {offset : Nat} {rs : List Replacement}
    (h : Replacement.Fit t offset rs) : ∃ ps tail, t.drop offset = Patch.before tail ps ∧
      Replacement.applyFrom t offset rs = Patch.after tail ps ∧
      ∀ (shift : Int) (b : Nat), offset + shift = b →
        Replacement.changes shift rs = Patch.changes offset b ps := by
  induction rs generalizing offset with
  | nil => exact ⟨[], t.drop offset, rfl, rfl, fun _ _ _ => rfl⟩
  | cons r rs ih =>
    obtain ⟨h₁, h₂, h₃⟩ := h
    obtain ⟨ps, tail, hb, ha, hc⟩ := ih h₃
    have hstop := h₃.le_length
    have hkept : (t.slice offset r.start).length = r.start - offset :=
      Text.length_slice (by omega)
    have hgone : (t.slice r.start r.stop).length = r.stop - r.start := Text.length_slice hstop
    refine ⟨⟨t.slice offset r.start, t.slice r.start r.stop, r.new⟩ :: ps, tail, ?_, ?_, ?_⟩
    · rw [Patch.before, ← hb, t.drop_eq_slice h₁, t.drop_eq_slice h₂, List.append_assoc]
    · rw [Replacement.applyFrom, Patch.after, ha]
    · intro shift b hshift
      have hold : offset + (r.start - offset) + (r.stop - r.start) = r.stop := by omega
      have hstart : offset + (r.start - offset) = r.start := by omega
      rw [Replacement.changes, Patch.changes, hkept, hgone, hold, hstart,
        hc _ (b + (r.start - offset) + r.new.length) (by omega)]
      simp only [List.cons.injEq, Change.mk.injEq, Span.mk.injEq, true_and, and_true]
      omega

end RobotsTxt
