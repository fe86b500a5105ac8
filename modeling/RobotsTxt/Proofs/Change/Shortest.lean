import RobotsTxt.Proofs.Change.Content
import RobotsTxt.Proofs.Document.WellFormed

/-!
# The shortest replacement

One text becomes another by many single replacements. Whatever a replacement keeps in front and
behind is common to both texts, so none replaces less than the one that keeps the longest common
front and, of what is left, the longest common back.

* `Change.Turns`: a change that turns one text into another.
* `length_le_commonLength`: no common front is longer.
* `kept_le_commonLengths`: no common front and back together are longer, even if they overlap in one
  of the texts.
* **`textChange_shortest`**: the change between two texts turns one into the other, and every
  replacement that does so removes and inserts at least as much.
-/

namespace RobotsTxt

/-- **A change that turns one text into another**: its spans are in order, lie in the texts and
start at the same place, and the new one holds what has to be put in place of the old one. -/
structure Change.Turns (c : Change) (before after : Text) : Prop where
  old : c.old.Proper ∧ c.old.Within ⟨0, before.length⟩
  new : c.new.Proper ∧ c.new.Within ⟨0, after.length⟩
  start : c.old.start = c.new.start
  result : before.splice c.old.start.toNat c.old.stop.toNat
    (after.slice c.new.start.toNat c.new.stop.toNat) = after

theorem Text.take_append_slice (t : Text) {a b : Nat} (h : a ≤ b) :
    t.take a ++ t.slice a b = t.take b := by
  have htake : t.take b = t.take a ++ (t.drop a).take (b - a) := by
    rw [← List.take_add, Nat.add_sub_cancel' h]
  rw [Text.slice, htake]

theorem Change.Fits.turns {c : Change} {before after : Text} (h : c.Fits before after) :
    c.Turns before after := by
  obtain ⟨hstart, ⟨hold, hold', hbefore⟩, ⟨-, hnew, hafter⟩, hfront, hback⟩ := h
  refine ⟨⟨Span.proper_of_le hold', hold, hbefore⟩,
    ⟨Span.proper_of_le hnew, hstart ▸ hold, hafter⟩, hstart, ?_⟩
  rw [Text.splice, ← hfront, ← hback, Text.take_append_slice after (by omega),
    List.take_append_drop]

/-! ## What a replacement keeps -/

section Common

variable {α : Type} [BEq α] [LawfulBEq α] {s t f b : List α}

theorem length_le_commonLength (hs : f <+: s) (ht : f <+: t) : f.length ≤ commonLength s t := by
  obtain ⟨u, rfl⟩ := hs
  obtain ⟨v, rfl⟩ := ht
  induction f with
  | nil => exact Nat.zero_le _
  | cons a f ih =>
    simp only [List.cons_append, commonLength, beq_self_eq_true, if_true, List.length_cons]
    exact Nat.succ_le_succ ih

theorem commonLength_le (s t : List α) :
    commonLength s t ≤ s.length ∧ commonLength s t ≤ t.length := by
  obtain ⟨f, u, v, rfl, rfl, hf⟩ := commonLength_cases s t
  simp only [← hf, List.length_append]
  omega

/-- **No common front and back together are longer than those that are found.** They must not
overlap in either text. -/
theorem kept_le_commonLengths (hs : f <+: s) (ht : f <+: t) (hs' : b <:+ s) (ht' : b <:+ t)
    (hlen : f.length + b.length ≤ s.length) (hlen' : f.length + b.length ≤ t.length) :
    let start := commonLength s t
    f.length + b.length ≤ start + commonLength (s.drop start).reverse (t.drop start).reverse := by
  intro start
  obtain ⟨hstart, hstart'⟩ : start ≤ s.length ∧ start ≤ t.length := commonLength_le s t
  have hfront : f.length ≤ start := length_le_commonLength hs ht
  -- The longest front may reach into the back; what is left of the back behind it is common still.
  let m := min b.length (min (s.length - start) (t.length - start))
  have hrest : b.drop (b.length - m) <:+ b := List.drop_suffix _ _
  have hrestlen : (b.drop (b.length - m)).length = m := by
    rw [List.length_drop]
    omega
  have hleft : b.drop (b.length - m) <:+ s.drop start :=
    List.suffix_of_suffix_length_le (hrest.trans hs') (List.drop_suffix _ _)
      (by rw [hrestlen, List.length_drop]; omega)
  have hright : b.drop (b.length - m) <:+ t.drop start :=
    List.suffix_of_suffix_length_le (hrest.trans ht') (List.drop_suffix _ _)
      (by rw [hrestlen, List.length_drop]; omega)
  have hback : m ≤ commonLength (s.drop start).reverse (t.drop start).reverse := by
    have := length_le_commonLength (List.reverse_prefix.mpr hleft) (List.reverse_prefix.mpr hright)
    rwa [List.length_reverse, hrestlen] at this
  omega

end Common

/-! ## The change between two texts -/

/-- **The change between two texts is the shortest.** It turns one text into the other, and every
replacement of the bytes between two offsets that does so removes at least as many bytes and inserts
at least as many. -/
theorem textChange_shortest (before after : Text) :
    (textChange before after).Turns before after ∧
    ∀ start stop new, start ≤ stop → stop ≤ before.length → before.splice start stop new = after →
      (textChange before after).old.length ≤ (stop : Int) - start ∧
      (textChange before after).new.length ≤ new.length := by
  refine ⟨(textChange_describes before after).fits.turns, fun start stop new hle hlen h => ?_⟩
  have hafter : after.length = start + new.length + (before.length - stop) := by
    rw [← h, Text.splice, List.length_append, List.length_append, List.length_take,
      List.length_drop]
    omega
  have hfront : before.take start <+: after :=
    ⟨new ++ before.drop stop, by rw [← h, Text.splice, List.append_assoc]⟩
  have hback : before.drop stop <:+ after := ⟨before.take start ++ new, h⟩
  have hkept := kept_le_commonLengths (List.take_prefix start before) hfront
    (List.drop_suffix stop before) hback
    (by rw [List.length_take, List.length_drop]; omega)
    (by rw [List.length_take, List.length_drop]; omega)
  simp only [List.length_take, List.length_drop] at hkept
  simp only [textChange, Span.length]
  omega

/-- One more of the same byte: the front and the back that are common overlap. -/
theorem textChange_shortest_repeated :
    let before := utf8 "aaa"
    let after := utf8 "aaaa"
    textChange before after = ⟨⟨3, 3⟩, ⟨3, 4⟩⟩ ∧ before.splice 0 1 (utf8 "aa") = after ∧
      Change.Turns ⟨⟨3, 3⟩, ⟨3, 4⟩⟩ before after ∧ Span.length ⟨3, 3⟩ ≤ 1 ∧
      Span.length ⟨3, 4⟩ ≤ 2 := by
  intro before after
  have hchange : textChange before after = ⟨⟨3, 3⟩, ⟨3, 4⟩⟩ := by decide +kernel
  have hsplice : before.splice 0 1 (utf8 "aa") = after := by decide +kernel
  obtain ⟨hturns, hleast⟩ := textChange_shortest before after
  have h := hleast 0 1 (utf8 "aa") (by decide) (by decide +kernel) hsplice
  rw [hchange] at hturns h
  exact ⟨hchange, hsplice, hturns, h⟩

end RobotsTxt
