import RobotsTxt.Proofs.Canonical.Runs
import RobotsTxt.Proofs.Text.Position
import RobotsTxt.Server.Query

/-!
# Formatting edits

An edit by positions does not always come back as the edit by offsets that it was made of: an edge
just after a carriage return at the end of a line is moved in front of it. The canonical text has no
carriage return, so each of them has to go, and this is what the edits may fail to do.

* `Replacement.retreat`: a replacement after it has gone through positions.
* `TextEdit.exists_edits`: edits between characters come back as their retreats.
* `Replacement.applyAll_retreat_iff`: when retreats lead to the same text.
* `Replacement.Between`, `replacements_between`: replacements that turn one text into another.
* **`formattingEdits_canonical_iff`**, **`TextEdit.applyAll_canonical_iff`**: when edits by
  positions bring a text into canonical form; `answer_formatting_iff`: when the answers of the
  server do.
-/

namespace RobotsTxt

variable {t : Text} {o : Nat} {r : Replacement} {rs : List Replacement}

/-! ## There and back -/

/-- A replacement whose edges are moved in front of a carriage return at the end of a line. -/
def Replacement.retreat (t : Text) (r : Replacement) : Replacement :=
  ⟨t.retreat r.start, t.retreat r.stop, r.new⟩

theorem Replacement.Fit.retreat (h : Replacement.Fit t o rs) :
    Replacement.Fit t (t.retreat o) (rs.map (Replacement.retreat t)) := by
  induction rs generalizing o with
  | nil => exact (t.retreat_bounds o).2.trans h
  | cons r rs ih =>
    obtain ⟨hstart, hstop, hrest⟩ := h
    exact ⟨Text.retreat_mono hstart, Text.retreat_mono hstop, ih hrest⟩

theorem Replacement.Fit.bounds (h : Replacement.Fit t o rs) :
    ∀ r ∈ rs, o ≤ r.start ∧ r.start ≤ r.stop ∧ r.stop ≤ t.length := by
  induction rs generalizing o with
  | nil => simp
  | cons r rs ih =>
    obtain ⟨hstart, hstop, hrest⟩ := h
    refine List.forall_mem_cons.mpr ⟨⟨hstart, hstop, hrest.le_length⟩, fun q hq => ?_⟩
    have := ih hrest q hq
    omega

theorem TextEdit.toReplacement_ofReplacement (ht : isUtf8 t = true) (hle : r.start ≤ r.stop)
    (hlen : r.stop ≤ t.length) (hstart : t.SeamAt r.start) (hstop : t.SeamAt r.stop) :
    ∃ e, TextEdit.ofReplacement t r = .ok e ∧ e.toReplacement t = .ok (r.retreat t) := by
  refine ⟨⟨⟨t.positionAt r.start, t.positionAt r.stop⟩, r.new⟩, ?_, ?_⟩
  · unfold TextEdit.ofReplacement Text.rangeOf
    rw [if_neg (by simpa using hle), if_neg (by simp; omega), if_neg (by simpa using hlen)]
    rfl
  · unfold TextEdit.toReplacement Text.offsetsOf
    have hnot : ¬ t.retreat r.stop < t.retreat r.start := Nat.not_lt.mpr (Text.retreat_mono hle)
    simp only [Text.offsetAt_positionAt ht (hle.trans hlen) hstart,
      Text.offsetAt_positionAt ht hlen hstop, if_neg hnot]
    rfl

/-- **Edits between characters come back as their retreats.** -/
theorem TextEdit.exists_edits (ht : isUtf8 t = true)
    (h : ∀ r ∈ rs, r.start ≤ r.stop ∧ r.stop ≤ t.length ∧ t.SeamAt r.start ∧ t.SeamAt r.stop) :
    ∃ es, rs.mapM (TextEdit.ofReplacement t) = .ok es ∧
      es.mapM (TextEdit.toReplacement t) = .ok (rs.map (Replacement.retreat t)) := by
  induction rs with
  | nil => exact ⟨[], rfl, rfl⟩
  | cons r rs ih =>
    obtain ⟨⟨hle, hlen, hstart, hstop⟩, hrest⟩ := List.forall_mem_cons.mp h
    obtain ⟨e, he, hback⟩ := TextEdit.toReplacement_ofReplacement ht hle hlen hstart hstop
    obtain ⟨es, hes, hbacks⟩ := ih hrest
    refine ⟨e :: es, ?_, ?_⟩
    · rw [List.mapM_cons, he, hes]
      rfl
    · rw [List.mapM_cons, hback, hbacks]
      rfl

/-- **What edits by positions do to a text**: they lead where their retreats lead. -/
theorem TextEdit.exists_applyAll (ht : isUtf8 t = true) (hfit : Replacement.Fit t 0 rs)
    (hseam : ∀ r ∈ rs, t.SeamAt r.start ∧ t.SeamAt r.stop) :
    ∃ es, rs.mapM (TextEdit.ofReplacement t) = .ok es ∧
      TextEdit.applyAll t es = .ok (Replacement.applyAll t (rs.map (Replacement.retreat t))) := by
  obtain ⟨es, hes, hback⟩ := TextEdit.exists_edits ht fun r hr =>
    ⟨(hfit.bounds r hr).2.1, (hfit.bounds r hr).2.2, hseam r hr⟩
  refine ⟨es, hes, ?_⟩
  rw [TextEdit.applyAll, hback]
  rfl

/-! ## What is left -/

theorem Replacement.mem_applyFrom {i : Nat} {b : UInt8} (h : Replacement.Fit t o rs)
    (hb : t[i]? = some b) (hi : o ≤ i) (hout : ∀ r ∈ rs, ¬ (r.start ≤ i ∧ i < r.stop)) :
    b ∈ Replacement.applyFrom t o rs := by
  induction rs generalizing o with
  | nil =>
    rw [Replacement.applyFrom, List.mem_iff_getElem?]
    exact ⟨i - o, by rw [List.getElem?_drop, Nat.add_sub_cancel' hi, hb]⟩
  | cons r rs ih =>
    obtain ⟨hstart, hstop, hrest⟩ := h
    obtain ⟨hr, hrs⟩ := List.forall_mem_cons.mp hout
    rw [Replacement.applyFrom]
    by_cases hlt : i < r.start
    · refine List.mem_append_left _ (List.mem_append_left _ ?_)
      rw [List.mem_iff_getElem?]
      exact ⟨i - o, by
        rw [Text.slice, List.getElem?_take_of_lt (by omega), List.getElem?_drop,
          Nat.add_sub_cancel' hi, hb]⟩
    · exact List.mem_append_right _ (ih hrest (by omega) hrs)

/-- Where every carriage return at the end of a line goes, kept stretches stay as they are. -/
theorem Replacement.applyFrom_retreat (h : Replacement.Fit t o rs)
    (hreturn : 0x0D ∉ Replacement.applyFrom t o rs)
    (hcovered : ∀ p, o ≤ p → p ≤ t.length → t.ReturnAt p → ∃ r ∈ rs, r.start ≤ p ∧ p < r.stop) :
    Replacement.applyFrom t (t.retreat o) (rs.map (Replacement.retreat t)) =
      Replacement.applyFrom t o rs := by
  induction rs generalizing o with
  | nil =>
    have ho : ¬ t.ReturnAt o := fun hr => by
      obtain ⟨r, hr, -⟩ := hcovered o (Nat.le_refl o) h hr
      exact absurd hr List.not_mem_nil
    rw [Text.retreat_of_not_returnAt ho]
    rfl
  | cons r rs ih =>
    obtain ⟨hstart, hstop, hrest⟩ := h
    have hlen := hrest.le_length
    rw [Replacement.applyFrom, List.mem_append, List.mem_append, not_or, not_or] at hreturn
    have hslice : t.slice (t.retreat o) (t.retreat r.start) = t.slice o r.start := by
      by_cases hsame : o = r.start
      · rw [← hsame, Text.slice, Text.slice, Nat.sub_self, Nat.sub_self, List.take_zero,
          List.take_zero]
      · -- An edge after a carriage return would keep it, or leave it to a replacement in front.
        have ho : ¬ t.ReturnAt o := fun hr => by
          obtain ⟨q, hq, hqo, -⟩ := hcovered o (Nat.le_refl o) (by omega) hr
          rcases List.mem_cons.mp hq with rfl | hq
          · omega
          · have := hrest.bounds q hq
            omega
        have hr : ¬ t.ReturnAt r.start := fun hr => by
          obtain ⟨-, hbyte⟩ := hr.exists_byte (by omega)
          refine hreturn.1.1 (List.mem_iff_getElem?.mpr ⟨r.start - 1 - o, ?_⟩)
          rw [Text.slice, List.getElem?_take_of_lt (by omega), List.getElem?_drop,
            Nat.add_sub_cancel' (by omega), hbyte]
        rw [Text.retreat_of_not_returnAt ho, Text.retreat_of_not_returnAt hr]
    have hcovered' : ∀ p, r.stop ≤ p → p ≤ t.length → t.ReturnAt p →
        ∃ q ∈ rs, q.start ≤ p ∧ p < q.stop := by
      intro p hp hpl hpr
      obtain ⟨q, hq, hqp⟩ := hcovered p (by omega) hpl hpr
      rcases List.mem_cons.mp hq with rfl | hq
      · omega
      · exact ⟨q, hq, hqp⟩
    have htail := ih hrest hreturn.2 hcovered'
    rw [List.map_cons, Replacement.applyFrom, Replacement.applyFrom, ← htail, ← hslice]
    rfl

/-- **Retreats lead to a text without carriage returns** if for each of them at the end of a line a
replacement starts no later than just after it and goes on behind it. -/
theorem Replacement.applyAll_retreat_iff (h : Replacement.Fit t 0 rs)
    (hreturn : 0x0D ∉ Replacement.applyAll t rs) :
    Replacement.applyAll t (rs.map (Replacement.retreat t)) = Replacement.applyAll t rs ↔
      ∀ p ≤ t.length, t.ReturnAt p → ∃ r ∈ rs, r.start ≤ p ∧ p < r.stop := by
  have hzero := t.retreat_zero
  constructor
  · intro heq p hp hpr
    by_contra hnone
    obtain ⟨hpos, hbyte⟩ := hpr.exists_byte hp
    have hretreat := Text.retreat_of_returnAt hpr
    have hfit := h.retreat
    rw [hzero] at hfit
    refine hreturn (heq ▸ Replacement.mem_applyFrom hfit hbyte (Nat.zero_le _) ?_)
    intro q hq
    obtain ⟨r, hr, rfl⟩ := List.mem_map.mp hq
    rintro ⟨hstart, hstop⟩
    refine hnone ⟨r, hr, ?_, ?_⟩
    · have : r.start - 1 ≤ t.retreat r.start := (t.retreat_bounds r.start).1
      change t.retreat r.start ≤ p - 1 at hstart
      omega
    · change p - 1 < t.retreat r.stop at hstop
      by_contra hle
      have := Text.retreat_mono (t := t) (Nat.not_lt.mp hle)
      omega
  · intro hcovered
    have heq := Replacement.applyFrom_retreat h hreturn fun p _ => hcovered p
    rwa [hzero] at heq

/-! ## The canonical text -/

theorem noReturn_renderRun {run : List Layout} (h : ∀ a ∈ run, a.Unbroken) :
    0x0D ∉ renderRun run := by
  intro hmem
  obtain ⟨a, ha, hb⟩ := List.mem_flatMap.mp hmem
  rcases List.mem_append.mp hb with hb | hb
  · exact absurd (h a ha _ hb) (by decide)
  · exact absurd (List.mem_singleton.mp hb) (by decide)

theorem noReturn_render {runs : List (List Layout)} (h : ∀ run ∈ runs, ∀ a ∈ run, a.Unbroken) :
    0x0D ∉ render runs := by
  induction runs with
  | nil => exact List.not_mem_nil
  | cons run runs ih =>
    obtain ⟨hrun, hruns⟩ := List.forall_mem_cons.mp h
    by_cases hne : runs = []
    · rw [hne, render_singleton]
      exact noReturn_renderRun hrun
    · rw [render_gap run hne, List.mem_append, List.mem_cons, not_or, not_or]
      exact ⟨noReturn_renderRun hrun, by decide, ih hruns⟩

theorem noReturn_canonicalText (t : Text) : 0x0D ∉ canonicalText t := by
  obtain ⟨runs, hruns, hw⟩ := t.exists_runs
  rw [canonicalText_eq hruns, List.mem_append, not_or]
  refine ⟨?_, noReturn_render fun run hrun a ha => (hw.canonical.layouts run hrun a ha).2⟩
  rcases t.mark_eq_or with hm | hm <;> rw [hm] <;> decide

/-! ## The edits of a document -/

section Common

variable {α : Type} [BEq α] [LawfulBEq α]

theorem commonLength_cases (s t : List α) :
    ∃ f u v, s = f ++ u ∧ t = f ++ v ∧ f.length = commonLength s t := by
  fun_induction commonLength s t with
  | case1 a s b t hab ih =>
    obtain ⟨f, u, v, hs, ht, hlen⟩ := ih
    refine ⟨a :: f, u, v, by rw [hs, List.cons_append], ?_, by rw [List.length_cons, hlen]⟩
    rw [ht, ← eq_of_beq hab, List.cons_append]
  | case2 a s b t _ => exact ⟨[], a :: s, b :: t, rfl, rfl, rfl⟩
  | case3 s t _ => exact ⟨[], s, t, rfl, rfl, rfl⟩

theorem commonLength_reverse_cases (s t : List α) :
    ∃ b u v, s = u ++ b ∧ t = v ++ b ∧ b.length = commonLength s.reverse t.reverse := by
  obtain ⟨f, u, v, hs, ht, hlen⟩ := commonLength_cases s.reverse t.reverse
  refine ⟨f.reverse, u.reverse, v.reverse, ?_, ?_, by rw [List.length_reverse, hlen]⟩
  · rw [← List.reverse_append, ← hs, List.reverse_reverse]
  · rw [← List.reverse_append, ← ht, List.reverse_reverse]

end Common

theorem replacements_eq {s t : Text} (h : s ≠ t) :
    ∃ f g c b : List Rune, runes s = f ++ g ++ b ∧ runes t = f ++ c ++ b ∧
      replacements s t =
        [⟨(bytesOf f).length, (bytesOf f).length + (bytesOf g).length, bytesOf c⟩] := by
  obtain ⟨f, u, v, hs, ht, hf⟩ := commonLength_cases (runes s) (runes t)
  obtain ⟨b, g, c, hu, hv, hb⟩ := commonLength_reverse_cases u v
  subst hu hv
  refine ⟨f, g, c, b, by rw [hs, List.append_assoc], by rw [ht, List.append_assoc], ?_⟩
  have hgone : ∀ x : List Rune, (f ++ (x ++ b)).length - f.length - b.length = x.length := by
    intro x
    simp only [List.length_append]
    omega
  unfold replacements
  rw [if_neg (by simpa using h)]
  simp only [← hf]
  rw [hs, ht]
  simp only [List.take_left, List.drop_left, ← hb, hgone]

theorem bytesOf_runes (t : Text) : bytesOf (runes t) = t := flatMap_runes t

theorem bytesOf_append (xs ys : List Rune) : bytesOf (xs ++ ys) = bytesOf xs ++ bytesOf ys :=
  List.flatMap_append

theorem seamAt_bytesOf {t : Text} {xs ys : List Rune} (h : runes t = xs ++ ys) :
    t.SeamAt (bytesOf xs).length := by
  have ht : t = bytesOf xs ++ bytesOf ys := by rw [← bytesOf_append, ← h, bytesOf_runes]
  obtain ⟨hx, hy⟩ := runes_append h
  have hcut : runes (bytesOf xs ++ bytesOf ys) = runes (bytesOf xs) ++ runes (bytesOf ys) := by
    rw [← ht, h]
    exact congrArg₂ _ hx.symm hy.symm
  rw [Text.SeamAt, ht, List.take_left, List.drop_left]
  exact hcut

/-- **Replacements that turn one text into another**: in order, without overlaps, and between
characters. -/
structure Replacement.Between (s t : Text) (rs : List Replacement) : Prop where
  fit : Replacement.Fit s 0 rs
  result : Replacement.applyAll s rs = t
  seams : ∀ r ∈ rs, s.SeamAt r.start ∧ s.SeamAt r.stop

theorem replacements_between (s t : Text) : Replacement.Between s t (replacements s t) := by
  by_cases h : s = t
  · subst h
    constructor <;>
      simp [replacements, Replacement.Fit, Replacement.applyAll, Replacement.applyFrom]
  · obtain ⟨f, g, c, b, hs, ht, heq⟩ := replacements_eq h
    have hs' : s = bytesOf f ++ bytesOf g ++ bytesOf b := by
      rw [← bytesOf_append, ← bytesOf_append, ← hs, bytesOf_runes]
    have ht' : t = bytesOf f ++ bytesOf c ++ bytesOf b := by
      rw [← bytesOf_append, ← bytesOf_append, ← ht, bytesOf_runes]
    rw [heq]
    refine ⟨⟨Nat.zero_le _, Nat.le_add_right _ _, ?_⟩, ?_, ?_⟩
    · simp only [Replacement.Fit, hs', List.length_append]
      omega
    · have htake : s.take (bytesOf f).length = bytesOf f := by
        rw [hs', List.append_assoc, List.take_left]
      have hdrop : s.drop ((bytesOf f).length + (bytesOf g).length) = bytesOf b := by
        rw [hs', ← List.length_append, List.drop_left]
      simp only [Replacement.applyAll, Replacement.applyFrom, Text.slice, List.drop_zero,
        Nat.sub_zero, htake, hdrop, ht']
    · intro r hr
      obtain rfl := List.mem_singleton.mp hr
      have hstop := seamAt_bytesOf hs
      rw [bytesOf_append, List.length_append] at hstop
      rw [List.append_assoc] at hs
      exact ⟨seamAt_bytesOf hs, hstop⟩

/-- Retreats lead to the canonical text if they do away with every carriage return. -/
theorem applyAll_retreat_canonical_iff (hfit : Replacement.Fit t 0 rs)
    (hto : Replacement.applyAll t rs = canonicalText t) :
    Replacement.applyAll t (rs.map (Replacement.retreat t)) = canonicalText t ↔
      ∀ o ≤ t.length, t.ReturnAt o → ∃ r ∈ rs, r.start ≤ o ∧ o < r.stop := by
  have hreturn : 0x0D ∉ Replacement.applyAll t rs := hto ▸ noReturn_canonicalText t
  rw [← hto]
  exact Replacement.applyAll_retreat_iff hfit hreturn

/-- **When the edits of a document bring it into canonical form**, however the replacements between
two texts are found. -/
theorem formattingEdits_canonical_iff {diff : Text → Text → List Replacement}
    (hdiff : ∀ s t, Replacement.Between s t (diff s t)) (x : Snapshot) (hx : isUtf8 x.text = true) :
    ∃ es u, formattingEdits diff (Tree.parse x) = .ok es ∧ TextEdit.applyAll x.text es = .ok u ∧
      (u = canonicalText x.text ↔ ∀ o ≤ x.text.length, x.text.ReturnAt o →
        ∃ r ∈ diff x.text (canonicalText x.text), r.start ≤ o ∧ o < r.stop) := by
  obtain ⟨hfit, hto, hseam⟩ := hdiff x.text (canonicalText x.text)
  obtain ⟨es, hes, happly⟩ := TextEdit.exists_applyAll hx hfit hseam
  exact ⟨es, _, hes, happly, applyAll_retreat_canonical_iff hfit hto⟩

/-- When the answer to a request for formatting brings a document into canonical form. -/
theorem answer_formatting_iff (dispatcher : Dispatcher) (resultId : Text) (x : Snapshot)
    (hx : isUtf8 x.text = true) :
    ∃ es u, Query.formatting.answer dispatcher resultId x.text (Tree.parse x) = .ok (.edits es) ∧
      TextEdit.applyAll x.text es = .ok u ∧
      (u = canonicalText x.text ↔ ∀ o ≤ x.text.length, x.text.ReturnAt o →
        ∃ r ∈ replacements x.text (canonicalText x.text), r.start ≤ o ∧ o < r.stop) := by
  obtain ⟨es, u, hes, hrest⟩ := formattingEdits_canonical_iff replacements_between x hx
  refine ⟨es, u, ?_, hrest⟩
  simp only [Query.answer, hes]
  rfl

/-- **When edits by positions bring a text into canonical form.** Let some ordered replacements of
whole characters turn a text into its canonical text. They can be written as edits by positions and
these can be applied. They lead to the canonical text if and only if for each carriage return at the
end of a line one of the replacements starts no later than just after it and goes on behind it.

So nothing is wrong without such carriage returns, and a replacement that ends just after one leaves
it where it is, unless the next replacement starts there. -/
theorem TextEdit.applyAll_canonical_iff (ht : isUtf8 t = true) (hfit : Replacement.Fit t 0 rs)
    (hto : Replacement.applyAll t rs = canonicalText t)
    (hseam : ∀ r ∈ rs, t.SeamAt r.start ∧ t.SeamAt r.stop) :
    ∃ es u, rs.mapM (TextEdit.ofReplacement t) = .ok es ∧ TextEdit.applyAll t es = .ok u ∧
      (u = canonicalText t ↔
        ∀ o ≤ t.length, t.ReturnAt o → ∃ r ∈ rs, r.start ≤ o ∧ o < r.stop) := by
  obtain ⟨es, hes, happly⟩ := TextEdit.exists_applyAll ht hfit hseam
  exact ⟨es, _, hes, happly, applyAll_retreat_canonical_iff hfit hto⟩

/-- Two lines with carriage returns. -/
def returnedLines : Text := utf8 "allow:é\r\n#\r\n"

/-- The carriage returns go together with what follows them. -/
theorem TextEdit.applyAll_canonical_returned :
    let rs := [⟨0, 5, utf8 "Allow"⟩, ⟨6, 6, utf8 " "⟩, ⟨8, 10, utf8 "\n"⟩, ⟨11, 13, utf8 "\n"⟩]
    isUtf8 returnedLines ∧ Replacement.Fit returnedLines 0 rs ∧
    Replacement.applyAll returnedLines rs = canonicalText returnedLines ∧
    (∀ r ∈ rs, returnedLines.SeamAt r.start ∧ returnedLines.SeamAt r.stop) ∧
    ∃ es, rs.mapM (TextEdit.ofReplacement returnedLines) = .ok es ∧
      TextEdit.applyAll returnedLines es = .ok (utf8 "Allow: é\n#\n") := by
  intro rs
  have hutf : isUtf8 returnedLines = true := by decide +kernel
  have hfit : Replacement.Fit returnedLines 0 rs := by decide +kernel
  have hto : Replacement.applyAll returnedLines rs = canonicalText returnedLines := by
    decide +kernel
  have hseam : ∀ r ∈ rs, returnedLines.SeamAt r.start ∧ returnedLines.SeamAt r.stop := by
    decide +kernel
  obtain ⟨es, u, hes, happly, hiff⟩ := TextEdit.applyAll_canonical_iff hutf hfit hto hseam
  refine ⟨hutf, hfit, hto, hseam, es, hes, happly.trans ?_⟩
  rw [hiff.mpr (by decide +kernel)]
  decide +kernel

/-- A line in canonical form, but for the carriage return at its end. -/
def returnedLine : Text := utf8 "User-agent: *\r\n"

/-- The edit of the line ends just after the carriage return, and becomes empty. -/
theorem TextEdit.applyAll_not_canonical :
    isUtf8 returnedLine ∧ Replacement.Fit returnedLine 0 [⟨13, 14, []⟩] ∧
    Replacement.applyAll returnedLine [⟨13, 14, []⟩] = canonicalText returnedLine ∧
    replacements returnedLine (canonicalText returnedLine) = [⟨13, 14, []⟩] ∧
    formattingEdits replacements (Tree.parse ⟨0, returnedLine⟩) = .ok [⟨⟨⟨0, 13⟩, ⟨0, 13⟩⟩, []⟩] ∧
    TextEdit.applyAll returnedLine [⟨⟨⟨0, 13⟩, ⟨0, 13⟩⟩, []⟩] = .ok returnedLine ∧
    returnedLine ≠ canonicalText returnedLine := by
  decide +kernel

end RobotsTxt
