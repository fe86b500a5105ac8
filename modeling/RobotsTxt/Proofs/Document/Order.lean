import Mathlib.Data.List.Pairwise
import RobotsTxt.Proofs.Document.Places

/-!
# The records of a document in order

The records of a document stand one after another, behind its byte order mark if it has one.

* `Text.mark`, `Text.body`: the byte order mark of a text, and the text behind it.
* **`Document.ordered_records`**: each record stops before the next one starts.
* **`Document.exists_place`**, **`Document.exists_record`**: the records of a document and the solid
  stretches of its body.
-/

namespace RobotsTxt

/-! ## Order -/

/-- One record ends before the other starts. -/
def Record.Precedes (r s : Record) : Prop := r.span.stop ≤ s.span.start

/-- One line ends before the other starts. -/
def Line.Precedes (l m : Line) : Prop := l.span.stop ≤ m.span.start

theorem span_of_mem_readLines {start : Nat} {ls : List RawLine} {l : Line}
    (h : l ∈ (readLines start ls).reduceOption) :
    (start : Int) ≤ l.span.start ∧ l.span.start < l.span.stop := by
  induction ls generalizing start with
  | nil => simp [readLines] at h
  | cons r ls ih =>
    rw [readLines] at h
    cases hr : Line.read? start r.content with
    | none =>
      rw [hr, List.reduceOption_cons_of_none] at h
      have := ih h
      omega
    | some m =>
      rw [hr, List.reduceOption_cons_of_some, List.mem_cons] at h
      rcases h with rfl | h
      · obtain ⟨lead, m, trail, -, -, -, hm, -, hspan⟩ := Line.exists_span_of_read? hr
        have := List.length_pos_of_ne_nil hm
        rw [hspan]
        simp only
        omega
      · have := ih h
        omega

theorem pairwise_readLines (start : Nat) (ls : List RawLine) :
    (readLines start ls).reduceOption.Pairwise Line.Precedes := by
  induction ls generalizing start with
  | nil => simp [readLines]
  | cons r ls ih =>
    rw [readLines]
    cases hr : Line.read? start r.content with
    | none =>
      rw [List.reduceOption_cons_of_none]
      exact ih _
    | some m =>
      rw [List.reduceOption_cons_of_some, List.pairwise_cons]
      refine ⟨fun l hl => ?_, ih _⟩
      obtain ⟨lead, c, trail, hc, -, -, -, -, hspan⟩ := Line.exists_span_of_read? hr
      have hlen := congrArg List.length hc
      have := (span_of_mem_readLines hl).1
      simp only [List.length_append] at hlen
      rw [Line.Precedes, hspan]
      simp only
      omega

theorem Record.exists_ends {ls : List Line} {r : Record} (h : Record.ofLines? ls = some r) :
    ∃ first ∈ ls, ∃ last ∈ ls, r.span = ⟨first.span.start, last.span.stop⟩ := by
  rcases List.eq_nil_or_concat ls with rfl | ⟨init, last, hls⟩
  · simp [Record.ofLines?] at h
  obtain ⟨first, rest, hrest⟩ := List.exists_cons_of_ne_nil (show ls ≠ [] by simp [hls])
  have hf : ls.head? = some first := by rw [hrest]; rfl
  have hl : ls.getLast? = some last := by rw [hls]; simp
  rw [Record.ofLines?_eq hf hl, Option.some_inj] at h
  exact ⟨first, List.mem_of_mem_head? hf, last, List.mem_of_mem_getLast? hl, by rw [← h]⟩

theorem Record.lines_ofLines? {ls : List Line} (h : ls ≠ []) :
    (Record.ofLines? ls).map Record.lines = some ls := by
  obtain ⟨last, hl⟩ : ∃ last, ls.getLast? = some last := ⟨_, List.getLast?_eq_getLast_of_ne_nil h⟩
  obtain ⟨first, rest, rfl⟩ := List.exists_cons_of_ne_nil h
  rw [Record.ofLines?_eq rfl hl]
  rfl

theorem Record.map_lines_readAll (start : Nat) (t : Text) :
    (Record.readAll start t).map Record.lines = groups (readLines start (splitLines t)) := by
  unfold Record.readAll
  rw [List.map_filterMap]
  refine (List.filterMap_congr fun run hrun => ?_).trans List.filterMap_some
  exact Record.lines_ofLines? (exists_around_of_mem_groups hrun).1

theorem Record.pairwise_readAll (start : Nat) (t : Text) :
    (Record.readAll start t).Pairwise Record.Precedes := by
  have hlines := pairwise_readLines start (splitLines t)
  rw [← flatten_groups, List.pairwise_flatten] at hlines
  refine hlines.2.filterMap _ ?_
  intro run run' hrun r hr r' hr'
  obtain ⟨_, -, last, hlast, hspan⟩ := Record.exists_ends hr
  obtain ⟨first, hfirst, _, -, hspan'⟩ := Record.exists_ends hr'
  rw [Record.Precedes, hspan, hspan']
  exact hrun last hlast first hfirst

theorem Record.span_of_mem_readAll {start : Nat} {t : Text} {r : Record}
    (h : r ∈ Record.readAll start t) : (start : Int) ≤ r.span.start ∧
      r.span.start < r.span.stop ∧ r.span.stop ≤ (start + t.length : Nat) := by
  obtain ⟨pre, mid, post, rfl, -, hs, -, hr⟩ := Record.exists_place h
  obtain ⟨r', hr', hspan⟩ := hs.exists_record (start + pre.length)
  obtain rfl : r' = r := by simpa [hr] using hr'.symm
  have := List.length_pos_of_ne_nil hs.ne_nil
  rw [hspan]
  simp only [List.length_append]
  omega

/-! ## The byte order mark -/

theorem isInk_of_mem_byteOrderMark : ∀ b ∈ byteOrderMark, isInk b :=
  List.all_eq_true.mp (by decide)

theorem noBreak_byteOrderMark : ∀ b ∈ byteOrderMark, isBreak b = false := fun b hb =>
  isBreak_of_isInk (isInk_of_mem_byteOrderMark b hb)

namespace Text

/-- The byte order mark of a text, if it starts with one. -/
def mark (t : Text) : Text := if byteOrderMark.isPrefixOf t then byteOrderMark else []

/-- A text without its byte order mark. -/
def body (t : Text) : Text := t.drop t.mark.length

theorem mark_append_body (t : Text) : t.mark ++ t.body = t := by
  unfold body mark
  split
  · next h =>
    obtain ⟨s, rfl⟩ := List.isPrefixOf_iff_prefix.mp h
    rw [List.drop_left]
  · rfl

theorem mark_eq_or (t : Text) : t.mark = byteOrderMark ∨ t.mark = [] := by
  unfold mark
  split <;> simp

theorem mark_of_append (t : Text) : mark (byteOrderMark ++ t) = byteOrderMark := by
  rw [mark, if_pos (by simp)]

variable {t : Text}

theorem mark_of_start (h : byteOrderMark <+: t) : t.mark = byteOrderMark := by
  obtain ⟨s, rfl⟩ := h
  exact mark_of_append s

theorem start_of_mark (h : t.mark = byteOrderMark) : byteOrderMark <+: t :=
  ⟨t.body, h ▸ t.mark_append_body⟩

theorem mark_of_no_start (h : ¬ byteOrderMark <+: t) : t.mark = [] :=
  t.mark_eq_or.resolve_left (mt start_of_mark h)

theorem body_of_append {s : Text} (h : t = t.mark ++ s) : t.body = s :=
  List.append_cancel_left (t.mark_append_body.trans h)

end Text

theorem Document.leading_parse (t : Text) : (Document.parse t).leading =
    if t.mark.isEmpty then [] else [.at .other 0 byteOrderMark] := by
  unfold Document.parse Text.mark
  split <;> rfl

theorem Document.records_parse (t : Text) :
    (Document.parse t).records = Record.readAll t.mark.length t.body := by
  unfold Document.parse Text.body Text.mark
  split <;> rfl

/-- **Each record of a document stops before the next one starts.** -/
theorem Document.ordered_records (t : Text) :
    (Document.parse t).records.Pairwise Record.Precedes := by
  rw [Document.records_parse]
  exact Record.pairwise_readAll _ _

theorem Document.span_of_mem_records {t : Text} {r : Record}
    (h : r ∈ (Document.parse t).records) :
    0 ≤ r.span.start ∧ r.span.start < r.span.stop ∧ r.span.stop ≤ t.length := by
  rw [Document.records_parse] at h
  have hspan := Record.span_of_mem_readAll h
  have hlen := congrArg List.length t.mark_append_body
  rw [List.length_append] at hlen
  omega

/-- **Every record of a document is made by a solid stretch of its body.** -/
theorem Document.exists_place {t : Text} {r : Record} (h : r ∈ (Document.parse t).records) :
    ∃ pre mid post, t.body = pre ++ mid ++ post ∧ pre.Opens ∧ mid.Solid ∧ post.Closes ∧
      Record.readAll (t.mark.length + pre.length) mid = [r] := by
  rw [Document.records_parse] at h
  exact Record.exists_place h

/-- **Every solid stretch of the body makes a record of the document.** -/
theorem Document.exists_record {t pre mid post : Text} (h : t.body = pre ++ mid ++ post)
    (ho : pre.Opens) (hs : mid.Solid) (hc : post.Closes) :
    ∃ r ∈ (Document.parse t).records, Record.readAll (t.mark.length + pre.length) mid = [r] ∧
      r.span = ⟨(t.mark.length + pre.length : Nat),
        (t.mark.length + pre.length + mid.length : Nat)⟩ := by
  obtain ⟨r, hr, hspan⟩ := hs.exists_record (t.mark.length + pre.length)
  refine ⟨r, ?_, hr, hspan⟩
  rw [Document.records_parse, h, Record.readAll_around _ ho hs hc, hr]
  simp

end RobotsTxt
