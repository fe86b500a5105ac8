import RobotsTxt.Proofs.Document.Edges

/-!
# Ranges and back

The range of a span leads back to the span, unless one of its ends is inside a character or just
after a carriage return at the end of a line. No part of a document has such an end.

* **`Text.spanOf_rangeOf`**: where the range of a span leads back to.
* `Text.spanOf_rangeOf_iff`: when that is the span.
* **`Document.spanOf_rangeOf_part`**: the range of a part of a document leads back to its span.
* `Range.Within`, `Range.Before`: ranges in their order.
* **`Text.CleanSpan.within_rangeAt`**, **`Text.CleanSpan.before_rangeAt`**: ranges lie as the spans
  do.
-/

namespace RobotsTxt

variable {t : Text} {s : Span}

namespace Text

/-- **The range of a span between characters leads back to the span**, with both ends moved back in
front of a carriage return at the end of a line. -/
theorem spanOf_rangeOf (ht : isUtf8 t = true) (h₀ : 0 ≤ s.start) (h : s.start ≤ s.stop)
    (h₁ : s.stop ≤ t.length) (hstart : t.SeamAt s.start.toNat) (hstop : t.SeamAt s.stop.toNat) :
    ∃ range, t.rangeOf s = .ok range ∧
      t.spanOf range = .ok ⟨t.retreat s.start.toNat, t.retreat s.stop.toNat⟩ := by
  have hle : s.start.toNat ≤ s.stop.toNat := by omega
  have hmono := t.retreat_mono hle
  refine ⟨_, rangeOf_eq h₀ h h₁, ?_⟩
  unfold spanOf offsetsOf
  simp only [offsetAt_positionAt ht (by omega) hstart, offsetAt_positionAt ht (by omega) hstop]
  rw [if_neg (by omega)]
  rfl

theorem retreat_eq_iff {o : Nat} (ho : o ≤ t.length) : t.retreat o = o ↔ ¬ t.ReturnAt o := by
  refine ⟨fun h hreturn => ?_, retreat_of_not_returnAt⟩
  obtain ⟨hpos, -⟩ := hreturn.exists_byte ho
  rw [retreat_of_returnAt hreturn] at h
  omega

/-- When the range of a span between characters leads back to the span. -/
theorem spanOf_rangeOf_iff (ht : isUtf8 t = true) (h₀ : 0 ≤ s.start) (h : s.start ≤ s.stop)
    (h₁ : s.stop ≤ t.length) (hstart : t.SeamAt s.start.toNat) (hstop : t.SeamAt s.stop.toNat) :
    (∃ range, t.rangeOf s = .ok range ∧ t.spanOf range = .ok s) ↔
      ¬ t.ReturnAt s.start.toNat ∧ ¬ t.ReturnAt s.stop.toNat := by
  obtain ⟨range, hrange, hspan⟩ := spanOf_rangeOf ht h₀ h h₁ hstart hstop
  have hback : (∃ range, t.rangeOf s = .ok range ∧ t.spanOf range = .ok s) ↔
      (⟨t.retreat s.start.toNat, t.retreat s.stop.toNat⟩ : Span) = s := by
    simp only [hrange, Except.ok.injEq, exists_eq_left', hspan]
  rw [hback, ← retreat_eq_iff (by omega), ← retreat_eq_iff (by omega)]
  constructor
  · intro heq
    have hfirst := congrArg Span.start heq
    have hlast := congrArg Span.stop heq
    simp only at hfirst hlast
    omega
  · rintro ⟨hfirst, hlast⟩
    rw [hfirst, hlast, Int.toNat_of_nonneg h₀, Int.toNat_of_nonneg (Int.le_trans h₀ h)]

theorem CleanSpan.spanOf_rangeOf (h : t.CleanSpan s) (ht : isUtf8 t = true) :
    ∃ range, t.rangeOf s = .ok range ∧ t.spanOf range = .ok s :=
  (spanOf_rangeOf_iff ht h.first h.proper h.last h.clean_start.seam h.clean_stop.seam).mpr
    ⟨h.clean_start.noReturn, h.clean_stop.noReturn⟩

end Text

namespace Document

/-- **The range of a part of a document leads back to its span.** -/
theorem spanOf_rangeOf_part (ht : isUtf8 t = true) (h : (parse t).Part s) :
    ∃ range, t.rangeOf s = .ok range ∧ t.spanOf range = .ok s :=
  (cleanSpan_part h).spanOf_rangeOf ht

/-- A missing value behind a character of two units, between carriage returns that end lines of the
document but no lines of the editor. -/
theorem spanOf_rangeOf_part_standIn :
    isUtf8 (utf8 "\r𝄞é\r\r\n") = true ∧ (parse (utf8 "\r𝄞é\r\r\n")).Part ⟨7, 7⟩ ∧
      ∃ range, (utf8 "\r𝄞é\r\r\n").rangeOf ⟨7, 7⟩ = .ok range ∧
        (utf8 "\r𝄞é\r\r\n").spanOf range = .ok ⟨7, 7⟩ := by
  have hutf : isUtf8 (utf8 "\r𝄞é\r\r\n") = true := by decide +kernel
  have hpart : (parse (utf8 "\r𝄞é\r\r\n")).Part ⟨7, 7⟩ :=
    .token (k := .missingAt .value 7) (by decide +kernel)
  exact ⟨hutf, hpart, spanOf_rangeOf_part hutf hpart⟩

end Document

/-! ## Ranges in order -/

namespace Range

/-- A range that lies in another one, and is not reversed. -/
structure Within (r outer : Range) : Prop where
  start : outer.start ≤ r.start
  proper : r.start ≤ r.stop
  stop : r.stop ≤ outer.stop

/-- A range that stops before another one starts. -/
def Before (r s : Range) : Prop := r.stop < s.start

theorem within_iff {r outer : Range} :
    r.Within outer ↔ outer.start ≤ r.start ∧ r.start ≤ r.stop ∧ r.stop ≤ outer.stop :=
  ⟨fun h => ⟨h.start, h.proper, h.stop⟩, fun h => ⟨h.1, h.2.1, h.2.2⟩⟩

instance (r outer : Range) : Decidable (r.Within outer) := decidable_of_iff _ within_iff.symm

instance (r s : Range) : Decidable (r.Before s) := inferInstanceAs (Decidable (r.stop < s.start))

end Range

namespace Text

/-- The range of a span of offsets of the text. -/
def rangeAt (t : Text) (s : Span) : Range :=
  ⟨t.positionAt s.start.toNat, t.positionAt s.stop.toNat⟩

namespace CleanSpan

variable {o : Span}

theorem rangeOf_eq (h : t.CleanSpan s) : t.rangeOf s = .ok (t.rangeAt s) :=
  Text.rangeOf_eq h.first h.proper h.last

theorem within_rangeAt (hs : t.CleanSpan s) (ho : t.CleanSpan o) (h : s.Within o) :
    (t.rangeAt s).Within (t.rangeAt o) := by
  obtain ⟨hstart, hstop⟩ := h
  have hs₀ := hs.first
  have hs₁ := hs.proper
  exact ⟨ho.clean_start.positionAt_le hs.clean_start (by omega),
    hs.clean_start.positionAt_le hs.clean_stop (by omega),
    hs.clean_stop.positionAt_le ho.clean_stop (by omega)⟩

theorem before_rangeAt (hs : t.CleanSpan s) (ho : t.CleanSpan o) (h : s.stop < o.start) :
    (t.rangeAt s).Before (t.rangeAt o) := by
  have hs₀ := hs.first
  have hs₁ := hs.proper
  have ho₁ := ho.proper
  have ho₂ := ho.last
  exact hs.clean_stop.positionAt_lt ho.clean_start (by omega) (by omega)

end CleanSpan

end Text

end RobotsTxt
