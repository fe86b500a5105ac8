import RobotsTxt.Proofs.Document.Order

/-!
# Other line breaks

The line feeds of a text can be written as other line breaks. If the text has no carriage returns,
its lines hold the same then, and its document is the same up to the places of things.

* `Document.unplaced`: a document without its places.
* **`Document.unplaced_parse_congr`**: texts whose lines hold the same have the same document.
* `Text.withBreak`: another break for every line feed.
* **`splitLines_withBreak`**: the lines of a text with other breaks.
* `Text.mark_withBreak`, `Text.body_withBreak`: it starts with a byte order mark if it did before.
-/

namespace RobotsTxt

/-! ## No places -/

/-- Forgets where a span is. -/
def Span.forget : Span → Span := fun _ => .empty 0

/-- **A document without its places**: its records, its lines and their kinds, and the kinds, values
and flags of its tokens. -/
def Document.unplaced (d : Document) : Document := d.relocate Span.forget

theorem Line.forget_shift (l : Line) (δ : Int) :
    (l.shift δ).relocate Span.forget = l.relocate Span.forget := by
  rw [Line.shift_eq_relocate, Line.relocate_relocate]
  rfl

theorem Line.forget_read? (start : Nat) (content : Text) :
    (Line.read? start content).map (·.relocate Span.forget) =
      (Line.read? 0 content).map (·.relocate Span.forget) := by
  have hadd := Line.read?_add 0 start content
  rw [Nat.zero_add] at hadd
  rw [hadd, Option.map_map]
  congr 1
  funext l
  exact l.forget_shift start

theorem forget_readLines (start : Nat) (ls : List RawLine) :
    (readLines start ls).map (Option.map (·.relocate Span.forget)) =
      (ls.map RawLine.content).map fun c => (Line.read? 0 c).map (·.relocate Span.forget) := by
  induction ls generalizing start with
  | nil => rfl
  | cons l ls ih =>
    rw [readLines, List.map_cons, List.map_cons, List.map_cons, Line.forget_read?, ih]

theorem Record.forget_readAll (start : Nat) (t : Text) :
    (Record.readAll start t).map (·.relocate Span.forget) =
      (groups (((splitLines t).map RawLine.content).map fun c =>
        (Line.read? 0 c).map (·.relocate Span.forget))).filterMap Record.ofLines? := by
  rw [← forget_readLines start, groups_map, List.filterMap_map, Record.readAll,
    List.map_filterMap]
  refine List.filterMap_congr fun ls _ => ?_
  exact (Record.ofLines?_relocate Span.forget (fun _ _ _ _ => rfl) fun _ _ => rfl).symm

/-- **Texts whose lines hold the same** have the same document, up to its places. -/
theorem Document.unplaced_parse_congr {t u : Text} (hm : t.mark = u.mark)
    (hc : (splitLines t.body).map RawLine.content = (splitLines u.body).map RawLine.content) :
    (Document.parse t).unplaced = (Document.parse u).unplaced := by
  simp only [Document.unplaced, Document.relocate, Document.leading_parse, Document.records_parse,
    Record.forget_readAll, hm, hc]
  rfl

/-! ## Another break for every line feed -/

/-- **The text with another break for every line feed.** -/
def Text.withBreak (t e : Text) : Text := t.flatMap fun b => if b = 0x0A then e else [b]

/-- The line with another break. -/
def RawLine.withBreak (l : RawLine) (e : Text) : RawLine :=
  { l with ending := l.ending.withBreak e }

theorem IsEnding.exists_cons {e : Text} (he : IsEnding e) : ∃ a r, e = a :: r ∧ isBreak a := by
  rcases he with rfl | rfl | rfl
  · exact ⟨_, _, rfl, rfl⟩
  · exact ⟨_, _, rfl, rfl⟩
  · exact ⟨_, _, rfl, rfl⟩

namespace Text

variable {b : UInt8} {e s t : Text}

theorem withBreak_feed (t e : Text) : withBreak (0x0A :: t) e = e ++ t.withBreak e := rfl

theorem withBreak_cons (hb : b ≠ 0x0A) : withBreak (b :: t) e = b :: t.withBreak e := by
  unfold withBreak
  rw [List.flatMap_cons, if_neg hb]
  rfl

theorem withBreak_append (s t e : Text) :
    (s ++ t).withBreak e = s.withBreak e ++ t.withBreak e := List.flatMap_append

/-- No carriage return of a break is followed by a line feed that does not belong to it. -/
theorem not_straddles_withBreak (he : IsEnding e) (t : Text) :
    ¬ Straddles e (t.withBreak e) := by
  rintro ⟨hlast, hhead⟩
  rcases he with rfl | rfl | rfl
  · exact absurd hlast (by decide)
  · cases t with
    | nil => exact absurd hhead (by decide)
    | cons b t =>
      by_cases hb : b = 0x0A
      · rw [hb, withBreak_feed] at hhead
        exact absurd hhead (by simp)
      · rw [withBreak_cons hb] at hhead
        exact hb (Option.some_inj.mp hhead)
  · exact absurd hlast (by decide)

theorem prefix_withBreak_iff (hs : ∀ b ∈ s, isBreak b = false) (he : IsEnding e) :
    s <+: t.withBreak e ↔ s <+: t := by
  induction s generalizing t with
  | nil => exact iff_of_true (List.nil_prefix) (List.nil_prefix)
  | cons a s ih =>
    obtain ⟨ha, hs⟩ := List.forall_mem_cons.mp hs
    cases t with
    | nil => exact Iff.rfl
    | cons b t =>
      by_cases hb : b = 0x0A
      · -- a break stands where the text should go on
        obtain ⟨c, r, rfl, hc⟩ := he.exists_cons
        rw [hb, withBreak_feed, List.cons_append, List.cons_prefix_cons, List.cons_prefix_cons]
        refine iff_of_false ?_ ?_
        · rintro ⟨rfl, -⟩
          exact absurd hc (by simp [ha])
        · rintro ⟨rfl, -⟩
          exact absurd ha (by decide)
      · rw [withBreak_cons hb, List.cons_prefix_cons, List.cons_prefix_cons, ih hs]

theorem mark_withBreak (he : IsEnding e) (t : Text) : (t.withBreak e).mark = t.mark := by
  have hiff : byteOrderMark <+: t.withBreak e ↔ byteOrderMark <+: t :=
    prefix_withBreak_iff noBreak_byteOrderMark he
  by_cases h : byteOrderMark <+: t
  · rw [mark_of_start h, mark_of_start (hiff.mpr h)]
  · rw [mark_of_no_start h, mark_of_no_start (mt hiff.mp h)]

theorem body_withBreak (he : IsEnding e) (t : Text) :
    (t.withBreak e).body = t.body.withBreak e := by
  have hmark : t.mark.withBreak e = t.mark := by
    rcases t.mark_eq_or with h | h <;> rw [h] <;> rfl
  refine body_of_append ?_
  rw [mark_withBreak he]
  conv_lhs => rw [← t.mark_append_body, withBreak_append, hmark]

end Text

/-- **The lines of a text with other breaks** are its lines, with other breaks. -/
theorem splitLines_withBreak {t e : Text} (ht : 0x0D ∉ t) (he : IsEnding e) :
    splitLines (t.withBreak e) = (splitLines t).map (·.withBreak e) := by
  induction t with
  | nil => rfl
  | cons b t ih =>
    obtain ⟨hb, ht⟩ := not_or.mp (mt List.mem_cons.mpr ht)
    have hrest := ih ht
    by_cases hfeed : b = 0x0A
    · have hline : RawLine.withBreak ⟨[], [0x0A]⟩ e = ⟨[], e⟩ := by
        simp [RawLine.withBreak, Text.withBreak]
      rw [hfeed, Text.withBreak_feed, splitLines_ending he (Text.not_straddles_withBreak he t),
        splitLines_break rfl (by simp [Straddles]), List.map_cons, hline, hrest]
    · have hbreak : isBreak b = false := by
        simpa [isBreak, hfeed] using Ne.symm hb
      obtain ⟨c, d, ls, hs⟩ := exists_cons_splitLines t
      rw [Text.withBreak_cons hfeed, splitLines_push hbreak, splitLines_push hbreak, hrest, hs]
      rfl

theorem contents_withBreak {t e : Text} (ht : 0x0D ∉ t) (he : IsEnding e) :
    (splitLines (t.withBreak e).body).map RawLine.content =
      (splitLines t.body).map RawLine.content := by
  have hbody : 0x0D ∉ t.body := fun h => ht (by
    rw [← t.mark_append_body]
    exact List.mem_append_right _ h)
  rw [Text.body_withBreak he, splitLines_withBreak hbody he, List.map_map]
  rfl

end RobotsTxt
