import RobotsTxt.ContentChange
import RobotsTxt.Proofs.Change.Script
import RobotsTxt.Proofs.Editor.Formatting

/-!
# Content changes

Whatever an editor reports, the single change that describes it replaces a piece of the old text by
a piece of the new one and keeps everything before and after it.

* `Text.offsetAt_le`, `Text.offsetsOf_le`: offsets of positions and ranges lie in the text.
* `Change.Describes`: a change that replaces a piece of one text by a piece of another.
* `changedText_describes`: the change that is reported is such a one.
* `ContentChange.Makes`, `ContentChange.Leads`: what a change, and a list of changes one after
  another, make of a text.
* `Range.Broken`: a range that cannot be replaced; `ContentChange.applyAll_fails_iff`: it is what
  stops a list of changes.
* **`changedText_exact`**: when changes fail, and what they give otherwise.
-/

namespace RobotsTxt

/-! ## Offsets of positions -/

theorem lineFrom_length {line o : Nat} {t rest : Text} (h : lineFrom line t = some (o, rest)) :
    o + rest.length = t.length := by
  induction t generalizing line o with
  | nil =>
    cases line with
    | zero =>
      obtain ⟨rfl, rfl⟩ := Prod.mk.inj (Option.some_inj.mp h)
      rfl
    | succ n => simp [lineFrom] at h
  | cons b t ih =>
    cases line with
    | zero =>
      obtain ⟨rfl, rfl⟩ := Prod.mk.inj (Option.some_inj.mp h)
      exact Nat.zero_add _
    | succ n =>
      obtain ⟨⟨o', rest'⟩, hr, heq⟩ := Option.map_eq_some_iff.mp h
      obtain ⟨rfl, rfl⟩ := Prod.mk.inj heq
      have := ih hr
      rw [List.length_cons]
      omega

theorem bytesOfUnits_le {units k : Nat} {rs : List Rune} (h : bytesOfUnits units rs = .ok k) :
    k ≤ (rs.flatMap Rune.bytes).length := by
  induction rs generalizing units k with
  | nil =>
    cases units with
    | zero =>
      obtain rfl := Except.ok.inj h
      exact Nat.zero_le _
    | succ n => simp [bytesOfUnits] at h
  | cons r rs ih =>
    have hnext : ∀ {m : Nat}, (bytesOfUnits m rs).map (· + r.bytes.length) = .ok k →
        k ≤ ((r :: rs).flatMap Rune.bytes).length := by
      intro m hm
      cases hb : bytesOfUnits m rs with
      | error e => simp [hb, Except.map] at hm
      | ok j =>
        have := ih hb
        simp only [hb, Except.map, Except.ok.injEq] at hm
        rw [List.flatMap_cons, List.length_append]
        omega
    cases units with
    | zero =>
      obtain rfl := Except.ok.inj h
      exact Nat.zero_le _
    | succ n =>
      unfold bytesOfUnits at h
      split_ifs at h
      · obtain rfl := Except.ok.inj h
        exact Nat.zero_le _
      · exact hnext h
      · exact hnext h

namespace Text

variable {t : Text}

theorem offsetAt_le {p : Position} {o : Nat} (h : t.offsetAt p = .ok o) : o ≤ t.length := by
  unfold offsetAt at h
  split at h
  · simp at h
  split at h
  · next start rest hl =>
    have hlen := lineFrom_length hl
    cases hb : bytesOfUnits p.character (runes rest) with
    | error e => simp [hb, Except.map] at h
    | ok k =>
      have hk := bytesOfUnits_le hb
      rw [flatMap_runes] at hk
      simp only [hb, Except.map, Except.ok.injEq] at h
      omega
  · split at h
    · rw [← Except.ok.inj h]
    · simp at h

theorem offsetsOf_le {r : Range} {a b : Nat} (h : t.offsetsOf r = .ok (a, b)) :
    a ≤ b ∧ b ≤ t.length := by
  unfold offsetsOf at h
  cases hstart : t.offsetAt r.start with
  | error e => simp [hstart] at h
  | ok start =>
    simp only [hstart] at h
    cases hstop : t.offsetAt r.stop with
    | error e => simp [hstop] at h
    | ok stop =>
      simp only [hstop] at h
      split_ifs at h with hlt
      obtain ⟨rfl, rfl⟩ := Prod.mk.inj (Except.ok.inj h)
      exact ⟨Nat.not_lt.mp hlt, offsetAt_le hstop⟩

end Text

/-! ## What a change describes -/

/-- A change that replaces a piece of one text by a piece of another, where both pieces stand
between the same texts. -/
def Change.Describes (c : Change) (before after : Text) : Prop :=
  ∃ (p : Patch) (tail : Text), before = Patch.before tail [p] ∧ after = Patch.after tail [p] ∧
    [c] = Patch.changes 0 0 [p]

theorem Text.splice_describes {t : Text} {start stop : Nat} (hle : start ≤ stop)
    (hlen : stop ≤ t.length) (new : Text) :
    Change.Describes ⟨⟨start, stop⟩, ⟨start, (start : Int) + new.length⟩⟩ t
      (t.splice start stop new) := by
  refine ⟨⟨t.take start, (t.take stop).drop start, new⟩, t.drop stop, ?_, rfl, ?_⟩
  · have hfront : t.take start ++ (t.take stop).drop start = t.take stop := by
      have htake := List.take_append_drop start (t.take stop)
      rwa [List.take_take, Nat.min_eq_left hle] at htake
    simp only [Patch.before, hfront, List.take_append_drop]
  · have hlen' : min start t.length = start := by omega
    have hlen'' : min stop t.length = stop := by omega
    simp only [Patch.changes, List.length_take, List.length_drop, hlen', hlen'', Nat.zero_add,
      Nat.add_sub_cancel' hle, Int.natCast_add]

theorem textChange_describes (before after : Text) :
    (textChange before after).Describes before after := by
  obtain ⟨f, u, v, rfl, rfl, hf⟩ := commonLength_cases before after
  obtain ⟨b, x, y, rfl, rfl, hb⟩ := commonLength_reverse_cases u v
  refine ⟨⟨f, x, y⟩, b, by simp [Patch.before], by simp [Patch.after], ?_⟩
  unfold textChange
  simp only [← hf, List.drop_left, ← hb, Patch.changes, List.length_append, Nat.zero_add]
  congr 3
  all_goals omega

/-- **The change that is reported describes what has happened to the text.** -/
theorem changedText_describes {base text : Text} {changes : List ContentChange} {change : Change}
    (h : changedText base changes = .ok (text, change)) : change.Describes base text := by
  unfold changedText at h
  split at h
  · simp at h
  · next r new =>
    cases ho : base.offsetsOf r with
    | error e => simp [ho] at h
    | ok o =>
      obtain ⟨start, stop⟩ := o
      obtain ⟨hle, hlen⟩ := Text.offsetsOf_le ho
      simp only [ho, Except.ok.injEq, Prod.mk.injEq] at h
      obtain ⟨rfl, rfl⟩ := h
      exact Text.splice_describes hle hlen new
  · cases ha : ContentChange.applyAll base changes with
    | error e => simp [ha] at h
    | ok t =>
      simp only [ha, Except.ok.injEq, Prod.mk.injEq] at h
      obtain ⟨rfl, rfl⟩ := h
      exact textChange_describes base t

/-! ## Changes one after another -/

/-- A range that starts behind `front`, covers `gone` and leaves `back`. -/
structure Range.Marks (r : Range) (front gone back : Text) : Prop where
  start : (front ++ gone ++ back).offsetAt r.start = .ok front.length
  stop : (front ++ gone ++ back).offsetAt r.stop = .ok (front ++ gone).length

/-- A range that cannot be replaced in a text: one of its ends has no offset, or the end comes
before the start. -/
def Range.Broken (r : Range) (t : Text) : Prop :=
  (∃ e, t.offsetAt r.start = .error e) ∨ (∃ e, t.offsetAt r.stop = .error e) ∨
    ∃ start stop, t.offsetAt r.start = .ok start ∧ t.offsetAt r.stop = .ok stop ∧ stop < start

namespace ContentChange

/-- **What a change makes of a text**: it replaces the whole of it, or what its range covers. -/
inductive Makes : ContentChange → Text → Text → Prop
  | whole (t new : Text) : Makes ⟨none, new⟩ t new
  | part {r : Range} {front gone back : Text} (new : Text) (h : r.Marks front gone back) :
    Makes ⟨some r, new⟩ (front ++ gone ++ back) (front ++ new ++ back)

/-- **What a list of changes makes of a text**, each of what the ones before it have made. -/
inductive Leads : Text → List ContentChange → Text → Prop
  | nil (t : Text) : Leads t [] t
  | cons {t t' t'' : Text} {c : ContentChange} {cs : List ContentChange} (h : c.Makes t t')
    (hs : Leads t' cs t'') : Leads t (c :: cs) t''

end ContentChange

section Ranges

variable {t t' : Text} {r : Range} {c : ContentChange} {cs : List ContentChange}

theorem Text.offsetsOf_eq_ok_iff {a b : Nat} : t.offsetsOf r = .ok (a, b) ↔
    t.offsetAt r.start = .ok a ∧ t.offsetAt r.stop = .ok b ∧ a ≤ b := by
  unfold Text.offsetsOf
  cases hstart : t.offsetAt r.start with
  | error e => simp
  | ok start =>
    cases hstop : t.offsetAt r.stop with
    | error e => simp
    | ok stop =>
      simp only [Except.ok.injEq]
      split_ifs with hlt
      · simp only [false_iff]
        omega
      · simp only [Except.ok.injEq, Prod.mk.injEq]
        omega

theorem Range.broken_iff : r.Broken t ↔ ∃ e, t.offsetsOf r = .error e := by
  unfold Range.Broken Text.offsetsOf
  cases t.offsetAt r.start with
  | error e => simp
  | ok start =>
    cases t.offsetAt r.stop with
    | error e => simp
    | ok stop => by_cases h : stop < start <;> simp [h]

/-- A range with two offsets in order marks what stands between them. -/
theorem Range.marks_of_offsets {a b : Nat} (h : t.offsetsOf r = .ok (a, b)) :
    ∃ front gone back, t = front ++ gone ++ back ∧ r.Marks front gone back ∧ front.length = a ∧
      (front ++ gone).length = b := by
  obtain ⟨hle, hlen⟩ := Text.offsetsOf_le h
  obtain ⟨hstart, hstop, -⟩ := Text.offsetsOf_eq_ok_iff.mp h
  have hfront : t.take a ++ (t.take b).drop a = t.take b := by
    have htake := List.take_append_drop a (t.take b)
    rwa [List.take_take, Nat.min_eq_left hle] at htake
  have htext : t.take a ++ (t.take b).drop a ++ t.drop b = t := by
    rw [hfront, List.take_append_drop]
  have hlen₁ : (t.take a).length = a := by rw [List.length_take]; omega
  have hlen₂ : (t.take a ++ (t.take b).drop a).length = b := by
    rw [hfront, List.length_take]
    omega
  refine ⟨t.take a, (t.take b).drop a, t.drop b, htext.symm, ⟨?_, ?_⟩, hlen₁, hlen₂⟩
  · rw [htext, hlen₁, hstart]
  · rw [htext, hlen₂, hstop]

theorem Range.Marks.offsetsOf_eq {front gone back : Text} (h : r.Marks front gone back) :
    (front ++ gone ++ back).offsetsOf r = .ok (front.length, (front ++ gone).length) :=
  Text.offsetsOf_eq_ok_iff.mpr ⟨h.start, h.stop, by rw [List.length_append]; omega⟩

theorem Text.splice_append (front gone back new : Text) :
    (front ++ gone ++ back).splice front.length (front ++ gone).length new =
      front ++ new ++ back := by
  rw [Text.splice, List.drop_left, List.append_assoc front gone, List.take_left]

namespace ContentChange

theorem apply_eq_ok_iff : c.apply t = .ok t' ↔ c.Makes t t' := by
  constructor
  · intro h
    obtain ⟨r?, new⟩ := c
    cases r? with
    | none =>
      obtain rfl := Except.ok.inj h
      exact .whole t new
    | some r =>
      cases ho : t.offsetsOf r with
      | error e => simp [apply, ho] at h
      | ok o =>
        obtain ⟨front, gone, back, rfl, hmarks, hfront, hgone⟩ := Range.marks_of_offsets ho
        simp only [apply, ho, Except.ok.injEq] at h
        rw [← h, ← hfront, ← hgone, Text.splice_append]
        exact .part new hmarks
  · intro h
    cases h with
    | whole t new => rfl
    | part new hmarks => simp only [apply, hmarks.offsetsOf_eq, Text.splice_append]

theorem apply_fails_iff : (∃ e, c.apply t = .error e) ↔ ∃ r, c.range? = some r ∧ r.Broken t := by
  obtain ⟨r?, new⟩ := c
  cases r? with
  | none => simp [apply]
  | some r =>
    simp only [Range.broken_iff, apply, Option.some.injEq, exists_eq_left']
    cases t.offsetsOf r <;> simp

theorem applyAll_eq_ok_iff : applyAll t cs = .ok t' ↔ Leads t cs t' := by
  induction cs generalizing t with
  | nil =>
    constructor
    · intro h
      rw [← Except.ok.inj h]
      exact .nil t
    · rintro ⟨⟩
      rfl
  | cons c cs ih =>
    rw [applyAll]
    constructor
    · intro h
      cases hc : c.apply t with
      | error e => simp [hc] at h
      | ok u =>
        rw [hc] at h
        exact .cons (apply_eq_ok_iff.mp hc) (ih.mp h)
    · rintro (_ | ⟨hc, hcs⟩)
      rw [apply_eq_ok_iff.mpr hc]
      exact ih.mpr hcs

/-- **A list of changes fails at a broken range**: it is broken in the text that the changes before
it have made. -/
theorem applyAll_fails_iff : (∃ e, applyAll t cs = .error e) ↔
    ∃ front c back r t', cs = front ++ c :: back ∧ Leads t front t' ∧ c.range? = some r ∧
      r.Broken t' := by
  induction cs generalizing t with
  | nil => simp [applyAll]
  | cons c cs ih =>
    constructor
    · rintro ⟨e, h⟩
      rw [applyAll] at h
      cases hc : c.apply t with
      | error e =>
        obtain ⟨r, hr, hbroken⟩ := apply_fails_iff.mp ⟨e, hc⟩
        exact ⟨[], c, cs, r, t, rfl, .nil t, hr, hbroken⟩
      | ok u =>
        rw [hc] at h
        obtain ⟨front, d, back, r, t', rfl, hleads, hr, hbroken⟩ := ih.mp ⟨e, h⟩
        exact ⟨c :: front, d, back, r, t', rfl, .cons (apply_eq_ok_iff.mp hc) hleads, hr, hbroken⟩
    · rintro ⟨front, d, back, r, t', heq, hleads, hr, hbroken⟩
      rw [applyAll]
      cases hleads with
      | nil t =>
        obtain ⟨rfl, rfl⟩ := List.cons.inj heq
        obtain ⟨e, he⟩ := apply_fails_iff.mpr ⟨r, hr, hbroken⟩
        exact ⟨e, by rw [he]⟩
      | cons hc hcs =>
        obtain ⟨rfl, rfl⟩ := List.cons.inj heq
        rw [apply_eq_ok_iff.mpr hc]
        exact ih.mpr ⟨_, d, back, r, t', rfl, hcs, hr, hbroken⟩

end ContentChange

end Ranges

/-! ## The text and its description -/

/-- Changes with a description are those that can be applied one after another. -/
theorem changedText_eq (base : Text) (changes : List ContentChange) :
    (changedText base changes).toOption.map Prod.fst =
      if changes.isEmpty then none else (ContentChange.applyAll base changes).toOption := by
  unfold changedText
  split
  · rfl
  · next r new =>
    simp only [List.isEmpty_cons, ContentChange.applyAll, ContentChange.apply]
    cases base.offsetsOf r <;> rfl
  · next hne _ =>
    have hcons : changes.isEmpty = false := by
      cases changes with
      | nil => exact absurd rfl hne
      | cons c cs => rfl
    rw [hcons]
    cases ContentChange.applyAll base changes <;> rfl

theorem changedText_fails_iff {base : Text} {changes : List ContentChange} :
    (∃ e, changedText base changes = .error e) ↔
      changes = [] ∨ ∃ e, ContentChange.applyAll base changes = .error e := by
  have heq := changedText_eq base changes
  cases changes with
  | nil => simp [changedText]
  | cons c cs =>
    rw [List.isEmpty_cons, if_neg Bool.false_ne_true] at heq
    cases h : changedText base (c :: cs) <;>
      cases h' : ContentChange.applyAll base (c :: cs) <;>
        simp [h, h', Except.toOption] at heq ⊢

theorem exists_changedText_iff {base text : Text} {changes : List ContentChange} :
    (∃ c, changedText base changes = .ok (text, c)) ↔
      changes ≠ [] ∧ ContentChange.applyAll base changes = .ok text := by
  have heq := changedText_eq base changes
  cases changes with
  | nil => simp [changedText]
  | cons c cs =>
    rw [List.isEmpty_cons, if_neg Bool.false_ne_true] at heq
    cases h : changedText base (c :: cs) with
    | error e =>
      cases h' : ContentChange.applyAll base (c :: cs) <;> simp [h, h', Except.toOption] at heq ⊢
    | ok result =>
      obtain ⟨text', c'⟩ := result
      cases h' : ContentChange.applyAll base (c :: cs) with
      | error e => simp [h, h', Except.toOption] at heq
      | ok u =>
        obtain rfl : text' = u := by simpa [h, h', Except.toOption] using heq
        simp

/-- **A change that fits two texts**: it starts at the same place in both and lies inside them, and
before and behind it they agree. -/
structure Change.Fits (c : Change) (before after : Text) : Prop where
  start : c.old.start = c.new.start
  old : 0 ≤ c.old.start ∧ c.old.start ≤ c.old.stop ∧ c.old.stop ≤ before.length
  new : 0 ≤ c.new.start ∧ c.new.start ≤ c.new.stop ∧ c.new.stop ≤ after.length
  front : after.take c.new.start.toNat = before.take c.old.start.toNat
  back : after.drop c.new.stop.toNat = before.drop c.old.stop.toNat

theorem Change.Describes.fits {c : Change} {before after : Text} (h : c.Describes before after) :
    c.Fits before after := by
  obtain ⟨p, tail, rfl, rfl, hc⟩ := h
  obtain ⟨rfl, -⟩ := List.cons.inj hc
  have hold : p.kept.length + p.gone.length = (p.kept ++ p.gone).length := by simp
  have hnew : p.kept.length + p.come.length = (p.kept ++ p.come).length := by simp
  constructor
  · rfl
  · simp only [Patch.before, List.length_append]
    omega
  · simp only [Patch.after, List.length_append]
    omega
  · simp only [Patch.before, Patch.after, Nat.zero_add, Int.toNat_natCast, List.append_assoc,
      List.take_left]
  · simp only [Patch.before, Patch.after, Nat.zero_add, Int.toNat_natCast, hold, hnew,
      List.drop_left]

/-- **Changes are applied one after another and described as a whole.** They fail if and only if
there are none, or one of them has a range that is broken in the text that the changes before it
have made; otherwise the text is what they lead to, and the change that is reported fits it. -/
theorem changedText_exact (base : Text) (changes : List ContentChange) :
    ((∃ e, changedText base changes = .error e) ↔ changes = [] ∨
      ∃ front c back r t, changes = front ++ c :: back ∧ ContentChange.Leads base front t ∧
        c.range? = some r ∧ r.Broken t) ∧
    (∀ text, (∃ c, changedText base changes = .ok (text, c)) ↔
      changes ≠ [] ∧ ContentChange.Leads base changes text) ∧
    ∀ text c, changedText base changes = .ok (text, c) → c.Fits base text := by
  refine ⟨?_, fun text => ?_, fun text c h => (changedText_describes h).fits⟩
  · rw [changedText_fails_iff, ContentChange.applyAll_fails_iff]
  · rw [exists_changedText_iff, ContentChange.applyAll_eq_ok_iff]

/-- A change of a range, one of the whole text, and one of a range that only the whole has made. -/
theorem changedText_exact_replaced :
    let base := utf8 "allow: /a"
    let changes : List ContentChange :=
      [⟨some ⟨⟨0, 0⟩, ⟨0, 5⟩⟩, utf8 "disallow"⟩, ⟨none, utf8 "\nallow: /a/b"⟩,
        ⟨some ⟨⟨0, 0⟩, ⟨1, 0⟩⟩, []⟩]
    let text := utf8 "allow: /a/b"
    changedText base changes = .ok (text, ⟨⟨9, 9⟩, ⟨9, 11⟩⟩) ∧
      ContentChange.Leads base changes text ∧ Change.Fits ⟨⟨9, 9⟩, ⟨9, 11⟩⟩ base text := by
  intro base changes text
  have hok : changedText base changes = .ok (text, ⟨⟨9, 9⟩, ⟨9, 11⟩⟩) := by decide +kernel
  obtain ⟨-, hleads, hfits⟩ := changedText_exact base changes
  exact ⟨hok, ((hleads text).mp ⟨_, hok⟩).2, hfits text _ hok⟩

end RobotsTxt
