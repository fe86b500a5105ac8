import RobotsTxt.Proofs.Change.Impact

/-!
# Offsets carried by changes

The changes of a script carry every offset of the old text to an offset of the new one, in whatever
order they are listed.

* `Change.Lists`: the same changes in another order, those at one place in the order of the text.
* `Change.Lists.sorted_eq`: they are sorted back into the order of the text.
* `Patch.exists_carry_after`: a byte that is kept is found where its offset is carried to.
* `Patch.carry_inside`: an offset inside replaced text goes to an end of the replacement.
* `Change.Conveys`: changes that carry the offsets of one text to another.
* **`Change.Lists.conveys`**: the changes of a script do, and their order does not matter.
-/

namespace RobotsTxt

/-! ## Listings -/

/-- The same changes in another order. Changes that start at one place of the old text keep their
order. -/
structure Change.Lists (cs ds : List Change) : Prop where
  perm : cs.Perm ds
  ties : ∀ start : Int, cs.filter (·.old.start = start) = ds.filter (·.old.start = start)

theorem Change.sorted_perm (cs : List Change) : (Change.sorted cs).Perm cs :=
  List.mergeSort_perm cs _

theorem Change.pairwise_sorted (cs : List Change) :
    (Change.sorted cs).Pairwise fun c d => c.old.start ≤ d.old.start := by
  have h : (Change.sorted cs).Pairwise fun c d => decide (c.old.start ≤ d.old.start) = true :=
    List.pairwise_mergeSort (fun a b c => by simpa using Int.le_trans)
      (fun a b => by simpa using Int.le_total _ _) cs
  exact h.imp (by simp)

theorem Change.filter_sorted (cs : List Change) (start : Int) :
    (Change.sorted cs).filter (·.old.start = start) = cs.filter (·.old.start = start) := by
  have hsorted : (cs.filter (·.old.start = start)).Pairwise
      fun c d => decide (c.old.start ≤ d.old.start) = true := by
    refine List.pairwise_of_forall_mem_list fun c hc d hd => ?_
    have h₁ := (List.mem_filter.mp hc).2
    have h₂ := (List.mem_filter.mp hd).2
    simp only [decide_eq_true_eq] at h₁ h₂ ⊢
    omega
  have hsub : (cs.filter (·.old.start = start)).Sublist (Change.sorted cs) :=
    List.sublist_mergeSort (fun a b c => by simpa using Int.le_trans)
      (fun a b => by simpa using Int.le_total _ _) hsorted List.filter_sublist
  have hfilter := hsub.filter (·.old.start = start)
  rw [List.filter_filter] at hfilter
  simp only [Bool.and_self] at hfilter
  exact (hfilter.eq_of_length
    ((Change.sorted_perm cs).filter (·.old.start = start)).length_eq.symm).symm

/-- Changes in the order of their places are known by those at each place. -/
theorem Change.eq_of_filter {cs ds : List Change}
    (hc : cs.Pairwise fun c d => c.old.start ≤ d.old.start)
    (hd : ds.Pairwise fun c d => c.old.start ≤ d.old.start)
    (h : ∀ start : Int, cs.filter (·.old.start = start) = ds.filter (·.old.start = start)) :
    cs = ds := by
  have hmem : ∀ {xs ys : List Change} {x : Change}, x ∈ xs →
      xs.filter (·.old.start = x.old.start) = ys.filter (·.old.start = x.old.start) → x ∈ ys := by
    intro xs ys x hx heq
    have : x ∈ xs.filter (·.old.start = x.old.start) := List.mem_filter.mpr ⟨hx, by simp⟩
    exact List.mem_of_mem_filter (heq ▸ this)
  induction cs generalizing ds with
  | nil =>
    refine (List.eq_nil_iff_forall_not_mem.mpr fun d hd' => ?_).symm
    exact List.not_mem_nil (hmem hd' (h d.old.start).symm)
  | cons c cs ih =>
    cases ds with
    | nil => exact absurd (hmem List.mem_cons_self (h c.old.start)) List.not_mem_nil
    | cons d ds =>
      obtain ⟨hc₁, hc₂⟩ := List.pairwise_cons.mp hc
      obtain ⟨hd₁, hd₂⟩ := List.pairwise_cons.mp hd
      -- both first changes stand at the least place
      have hle : c.old.start ≤ d.old.start := by
        rcases List.mem_cons.mp (hmem List.mem_cons_self (h d.old.start).symm) with rfl | hmem'
        · exact Int.le_refl _
        · exact hc₁ d hmem'
      have hge : d.old.start ≤ c.old.start := by
        rcases List.mem_cons.mp (hmem List.mem_cons_self (h c.old.start)) with rfl | hmem'
        · exact Int.le_refl _
        · exact hd₁ c hmem'
      have hfirst := h c.old.start
      rw [List.filter_cons_of_pos (by simp), List.filter_cons_of_pos (by simp; omega)] at hfirst
      obtain rfl : c = d := (List.cons.inj hfirst).1
      rw [ih hc₂ hd₂ fun start => ?_]
      have hstart := h start
      by_cases heq : c.old.start = start
      · rw [List.filter_cons_of_pos (by simpa), List.filter_cons_of_pos (by simpa)] at hstart
        exact (List.cons.inj hstart).2
      · rwa [List.filter_cons_of_neg (by simpa), List.filter_cons_of_neg (by simpa)] at hstart

/-- **However the changes are listed, they are sorted into the same order.** -/
theorem Change.Lists.sorted_eq {cs ds : List Change} (h : Change.Lists cs ds) :
    Change.sorted cs = Change.sorted ds := by
  refine Change.eq_of_filter (Change.pairwise_sorted cs) (Change.pairwise_sorted ds) fun start => ?_
  rw [Change.filter_sorted, Change.filter_sorted, h.ties]

theorem Change.Lists.translatePoint_eq {cs ds : List Change} (h : Change.Lists cs ds) :
    translatePoint cs = translatePoint ds := by
  funext tracking pos
  rw [translatePoint, translatePoint, h.sorted_eq]

/-! ## Where offsets go -/

namespace Patch

variable {a b : Nat} {ps : List Patch} {tracking : Tracking}

theorem carry_of_lt {x shift : Int} (h : x < a) :
    Change.carry tracking x shift (changes a b ps) = x + shift := by
  cases ps with
  | nil => rfl
  | cons p ps =>
    simp only [changes, Change.carry]
    rw [if_pos (.inl (by omega))]

/-- **A byte that is kept is found where its offset is carried to.** -/
theorem exists_carry_after (tail : Text) {i : Nat}
    (h : ∀ c ∈ changes a b ps, ¬ c.old.contains (a + i : Nat)) :
    ∃ q : Nat, Change.carry .after (a + i : Nat) (b - a) (changes a b ps) = (b + q : Nat) ∧
      (after tail ps)[q]? = (before tail ps)[i]? := by
  induction ps generalizing a b i with
  | nil =>
    refine ⟨i, ?_, rfl⟩
    simp only [changes, Change.carry]
    omega
  | cons p ps ih =>
    by_cases hkept : i < p.kept.length
    · refine ⟨i, ?_, ?_⟩
      · rw [changes, Change.carry, if_pos (.inl (by simp only; omega))]
        omega
      · simp only [before, after, List.append_assoc, List.getElem?_append_left hkept]
    · have hfirst := h _ List.mem_cons_self
      simp only [Span.contains_iff] at hfirst
      -- the offset is not among those that go, so it stands behind the first patch
      obtain ⟨j, rfl⟩ : ∃ j, i = p.kept.length + p.gone.length + j :=
        ⟨i - (p.kept.length + p.gone.length), by omega⟩
      have hpos : a + (p.kept.length + p.gone.length + j) =
          a + p.kept.length + p.gone.length + j := by omega
      rw [hpos] at h ⊢
      obtain ⟨q, hq, hbyte⟩ := ih (b := b + p.kept.length + p.come.length)
        fun c hc => h c (List.mem_cons_of_mem _ hc)
      refine ⟨p.kept.length + p.come.length + q, ?_, ?_⟩
      · simp only [changes, Change.carry, reduceCtorEq, and_false, or_false]
        rw [if_neg (by omega), if_neg (by omega), hq]
        omega
      · rw [before, after, ← List.length_append, ← List.length_append,
          List.getElem?_append_right (Nat.le_add_right _ _),
          List.getElem?_append_right (Nat.le_add_right _ _), Nat.add_sub_cancel_left,
          Nat.add_sub_cancel_left, hbyte]

/-- **An offset inside replaced text goes to an end of the replacement.** -/
theorem carry_inside {c : Change} {x : Int} (hc : c ∈ changes a b ps) (hstart : c.old.start < x)
    (hstop : x < c.old.stop) :
    Change.carry .before x (b - a) (changes a b ps) = c.new.start ∧
      Change.carry .after x (b - a) (changes a b ps) = c.new.stop := by
  induction ps generalizing a b with
  | nil => simp [changes] at hc
  | cons p ps ih =>
    rcases List.mem_cons.mp hc with rfl | hc
    · simp only at hstart hstop
      simp only [changes, Change.carry]
      rw [if_neg (by omega), if_pos hstop, if_neg (by omega), if_pos hstop]
      exact ⟨rfl, rfl⟩
    · have hle := (le_of_mem_changes hc).1
      rw [carry_past (by omega), carry_past (by omega)]
      exact ih hc

theorem carry_before_le_after {x : Int} (h : a ≤ x) :
    Change.carry .before x (b - a) (changes a b ps) ≤
      Change.carry .after x (b - a) (changes a b ps) := by
  induction ps generalizing a b with
  | nil => exact Int.le_refl _
  | cons p ps ih =>
    have hlow := @le_carry (a + p.kept.length + p.gone.length) (b + p.kept.length + p.come.length)
      ps .after x
    have hrec := ih (a := a + p.kept.length + p.gone.length)
      (b := b + p.kept.length + p.come.length)
    simp only [changes, Change.carry, reduceCtorEq, and_true, and_false, or_false]
    split_ifs <;> omega

theorem translatePoint_of_neg {x : Int} (h : x < 0) :
    translatePoint (changes 0 0 ps) tracking x = x := by
  rw [translatePoint_changes, carry_of_lt (by simpa using h)]
  simp

theorem translatePoint_le (ps : List Patch) (tracking : Tracking) {x y : Int} (hxy : x ≤ y) :
    translatePoint (changes 0 0 ps) tracking x ≤ translatePoint (changes 0 0 ps) tracking y := by
  by_cases hx : 0 ≤ x
  · exact translatePoint_mono hx hxy
  · rw [translatePoint_of_neg (Int.not_le.mp hx)]
    by_cases hy : 0 ≤ y
    · have := @le_carry 0 0 ps tracking y (by simpa using hy)
      rw [translatePoint_changes]
      omega
    · rwa [translatePoint_of_neg (Int.not_le.mp hy)]

theorem translatePoint_before_le_after (ps : List Patch) (x : Int) :
    translatePoint (changes 0 0 ps) .before x ≤ translatePoint (changes 0 0 ps) .after x := by
  by_cases hx : 0 ≤ x
  · rw [translatePoint_changes, translatePoint_changes]
    exact carry_before_le_after (by simpa using hx)
  · have hneg : x < 0 := Int.not_le.mp hx
    exact Int.le_of_eq (by rw [translatePoint_of_neg hneg, translatePoint_of_neg hneg])

end Patch

/-! ## The changes of a script -/

/-- **Changes that carry the offsets of one text to another.** -/
structure Change.Conveys (o n : Text) (cs : List Change) : Prop where
  /-- A byte that no change removes is found where its offset goes. -/
  byte : ∀ p < o.length, (∀ c ∈ cs, ¬ c.old.contains p) →
    ∃ q : Nat, translatePoint cs .after p = q ∧ n[q]? = o[p]?
  /-- An offset inside replaced text goes to the start or to the end of the replacement. -/
  inside : ∀ c ∈ cs, ∀ p, c.old.start < p → p < c.old.stop →
    translatePoint cs .before p = c.new.start ∧ translatePoint cs .after p = c.new.stop
  monotone : ∀ tracking p q, p ≤ q → translatePoint cs tracking p ≤ translatePoint cs tracking q
  ordered : ∀ p, translatePoint cs .before p ≤ translatePoint cs .after p
  /-- Offsets of the old text go to offsets of the new text. -/
  within : ∀ tracking (p : Int), 0 ≤ p → p ≤ o.length →
    0 ≤ translatePoint cs tracking p ∧ translatePoint cs tracking p ≤ n.length
  /-- A span goes where its two ends go, which are never reversed. -/
  span : ∀ s : Span, s.start ≤ s.stop →
    translatePoint cs .before s.start ≤ translatePoint cs .after s.stop ∧
      translateSpan cs s = ⟨translatePoint cs .before s.start, translatePoint cs .after s.stop⟩

theorem Patch.conveys_changes (tail : Text) (ps : List Patch) :
    Change.Conveys (before tail ps) (after tail ps) (changes 0 0 ps) where
  byte p _ hkept := by
    have hkept' : ∀ c ∈ changes 0 0 ps, ¬ c.old.contains (0 + p : Nat) := by simpa using hkept
    obtain ⟨q, hq, hbyte⟩ := exists_carry_after tail hkept'
    refine ⟨q, ?_, hbyte⟩
    rw [translatePoint_changes]
    simpa using hq
  inside c hc p hstart hstop := by
    rw [translatePoint_changes, translatePoint_changes]
    exact carry_inside hc hstart hstop
  monotone tracking _ _ := translatePoint_le ps tracking
  ordered := translatePoint_before_le_after ps
  within _ _ := translatePoint_bounds
  span s hs := by
    have hle := Int.le_trans (translatePoint_before_le_after ps s.start)
      (translatePoint_le ps .after hs)
    refine ⟨hle, ?_⟩
    rw [translateSpan, Int.max_eq_right hle]

/-- **Offsets follow the text.** In whatever order the changes of a script are listed, as long as
changes at one place keep their order, they carry the offsets of the old text to the new text, and
every offset goes to the same place. -/
theorem Change.Lists.conveys (o : Text) (rs : List Replacement) (cs : List Change)
    (h : Replacement.Fit o 0 rs) (hl : Change.Lists cs (Replacement.changes 0 rs)) :
    Change.Conveys o (Replacement.applyAll o rs) cs ∧
      ∀ tracking p,
        translatePoint cs tracking p = translatePoint (Replacement.changes 0 rs) tracking p := by
  obtain ⟨ps, tail, ho, hn, hc⟩ := Replacement.exists_patches h
  have hconveys := Patch.conveys_changes tail ps
  rw [← hc 0 0 rfl, ← ho, ← hn, List.drop_zero] at hconveys
  have hpoint := hl.translatePoint_eq
  have hspan : translateSpan cs = translateSpan (Replacement.changes 0 rs) := by
    funext s
    rw [translateSpan, translateSpan, hpoint]
  refine ⟨⟨?_, ?_, ?_, ?_, ?_, ?_⟩, fun tracking p => by rw [hpoint]⟩
  · intro p hp hkept
    rw [hpoint]
    exact hconveys.byte p hp fun c hc => hkept c (hl.perm.mem_iff.mpr hc)
  · intro c hc
    rw [hpoint]
    exact hconveys.inside c (hl.perm.mem_iff.mp hc)
  · rw [hpoint]
    exact hconveys.monotone
  · rw [hpoint]
    exact hconveys.ordered
  · rw [hpoint]
    exact hconveys.within
  · rw [hpoint, hspan]
    exact hconveys.span

/-- Two insertions at one place, listed behind a replacement that comes later in the text. -/
theorem Change.Lists.conveys_unsorted :
    let o := utf8 "allow: /a"
    let rs : List Replacement := [⟨0, 0, utf8 "d"⟩, ⟨0, 0, utf8 "is"⟩, ⟨7, 9, utf8 "/b/c"⟩]
    let n := utf8 "disallow: /b/c"
    let cs : List Change := [⟨⟨7, 9⟩, ⟨10, 14⟩⟩, ⟨⟨0, 0⟩, ⟨0, 1⟩⟩, ⟨⟨0, 0⟩, ⟨1, 3⟩⟩]
    Replacement.Fit o 0 rs ∧ Replacement.applyAll o rs = n ∧
      Change.Lists cs (Replacement.changes 0 rs) ∧ Change.Conveys o n cs ∧
      translatePoint cs .before 8 = 10 ∧ translatePoint cs .after 8 = 14 := by
  intro o rs n cs
  have hfit : Replacement.Fit o 0 rs := by decide +kernel
  have hn : Replacement.applyAll o rs = n := by decide +kernel
  have hchanges : Replacement.changes 0 rs =
      [⟨⟨0, 0⟩, ⟨0, 1⟩⟩, ⟨⟨0, 0⟩, ⟨1, 3⟩⟩, ⟨⟨7, 9⟩, ⟨10, 14⟩⟩] := by decide +kernel
  have hlists : Change.Lists cs (Replacement.changes 0 rs) := by
    refine ⟨by decide +kernel, fun start => ?_⟩
    rw [hchanges]
    by_cases h₀ : 0 = start
    · subst h₀
      rfl
    · simp [cs, List.filter_cons, h₀]
  have hconveys := (Change.Lists.conveys o rs cs hfit hlists).1
  rw [hn] at hconveys
  exact ⟨hfit, hn, hlists, hconveys,
    hconveys.inside ⟨⟨7, 9⟩, ⟨10, 14⟩⟩ (by decide +kernel) 8 (by decide) (by decide)⟩

end RobotsTxt
