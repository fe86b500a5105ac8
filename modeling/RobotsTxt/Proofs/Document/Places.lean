import RobotsTxt.Proofs.Document.PhysicalLines
import RobotsTxt.Proofs.Document.Shift

/-!
# Where records stand

A record is a stretch of text without blank lines, with a blank line or an end of the text on either
side. Its reading depends on that stretch alone.

* `Text.Opens`, `Text.Solid`, `Text.Closes`: the text before a record, of a record and after it.
* **`Record.readAll_around`**: the records of a text are those before a solid stretch, the one that
  the stretch makes, and those after it.
* **`Record.exists_place`**: every record is made by such a stretch.
* **`Text.Solid.exists_cover`**: every solid stretch is part of one that makes a record.
-/

namespace RobotsTxt

/-- A byte that is neither a blank nor part of a break. -/
def isInk (b : UInt8) : Bool := !isBlank b && !isBreak b

namespace Text

/-- A record may start after the text: its last two lines, or its only one, are blank. -/
def Opens (t : Text) : Prop := ∀ l ∈ (splitLines t).reverse.take 2, l.content.IsBlank

/-- A record may end before the text: its first two lines, or its only one, are blank. -/
def Closes (t : Text) : Prop := ∀ l ∈ (splitLines t).take 2, l.content.IsBlank

/-- A stretch of text from ink to ink without blank lines. -/
structure Solid (t : Text) : Prop where
  ne_nil : t ≠ []
  first : ∀ b ∈ t.head?, isInk b
  last : ∀ b ∈ t.getLast?, isInk b
  lines : ∀ l ∈ splitLines t, ¬ l.content.IsBlank

end Text

theorem isBlank_of_isInk {b : UInt8} (h : isInk b) : isBlank b = false := by
  simp only [isInk, Bool.and_eq_true, Bool.not_eq_true'] at h
  exact h.1

theorem isBreak_of_isInk {b : UInt8} (h : isInk b) : isBreak b = false := by
  simp only [isInk, Bool.and_eq_true, Bool.not_eq_true'] at h
  exact h.2

theorem isInk_iff {b : UInt8} : isInk b ↔ isBlank b = false ∧ isBreak b = false := by
  simp [isInk]

theorem isBreak_of_isBlank {b : UInt8} (h : isBlank b) : isBreak b = false := by
  simp only [isBlank, Bool.or_eq_true, beq_iff_eq] at h
  rcases h with ((rfl | rfl) | rfl) | rfl <;> decide

theorem Text.IsBlank.noBreak {t : Text} (h : t.IsBlank) : ∀ b ∈ t, isBreak b = false :=
  fun b hb => isBreak_of_isBlank (h b hb)

theorem not_straddles_of_first {a t : Text} (h : ∀ b ∈ t.head?, isBreak b = false) :
    ¬ Straddles a t := fun hst => absurd (h _ hst.2) (by decide)

theorem not_straddles_of_last {a t : Text} (h : ∀ b ∈ a.getLast?, isBreak b = false) :
    ¬ Straddles a t := fun hst => absurd (h _ hst.1) (by decide)

namespace Text.Solid

variable {m t : Text}

theorem not_straddles_left (h : m.Solid) : ¬ Straddles t m :=
  not_straddles_of_first fun b hb => isBreak_of_isInk (h.first b hb)

end Text.Solid

/-! ## Blanks around a line -/

theorem Line.read?_lead (start : Nat) {lead : Text} (hl : lead.IsBlank) (c : Text) :
    Line.read? start (lead ++ c) = Line.read? (start + lead.length) c := by
  by_cases h : c.IsBlank
  · rw [Line.read?_blank _ h, Line.read?_blank _ (Text.isBlank_append.mpr ⟨hl, h⟩)]
  · obtain ⟨lead', l, trail, hv, hl', ht, rfl⟩ := Line.exists_layout h
    rw [Line.read?_pad _ hv hl' ht, ← List.append_assoc, ← List.append_assoc,
      Line.read?_pad _ hv (Text.isBlank_append.mpr ⟨hl, hl'⟩) ht, List.length_append, Nat.add_assoc]

theorem Line.read?_trail (start : Nat) {trail : Text} (ht : trail.IsBlank) (c : Text) :
    Line.read? start (c ++ trail) = Line.read? start c := by
  by_cases h : c.IsBlank
  · rw [Line.read?_blank _ h, Line.read?_blank _ (Text.isBlank_append.mpr ⟨h, ht⟩)]
  · obtain ⟨lead, l, trail', hv, hl, ht', rfl⟩ := Line.exists_layout h
    rw [Line.read?_pad _ hv hl ht', List.append_assoc _ trail',
      Line.read?_pad _ hv hl (Text.isBlank_append.mpr ⟨ht', ht⟩)]

theorem Line.exists_span_of_read? {start : Nat} {c : Text} {l : Line}
    (h : Line.read? start c = some l) :
    ∃ lead m trail : Text, c = lead ++ m ++ trail ∧ lead.IsBlank ∧ trail.IsBlank ∧ m ≠ [] ∧
      m.Trimmed ∧
        l.span = ⟨(start + lead.length : Nat), (start + lead.length + m.length : Nat)⟩ := by
  obtain ⟨lead, layout, trail, hv, hl, ht, rfl, rfl⟩ := Line.exists_layout_of_read? h
  refine ⟨lead, layout.text, trail, rfl, hl, ht, Layout.text_ne_nil hv, Layout.trimmed_text hv, ?_⟩
  rw [Layout.span_line _ hv]
  simp

/-! ## Reading several lines -/

theorem readLines_append (start : Nat) (ls ms : List RawLine) :
    readLines start (ls ++ ms) =
      readLines start ls ++ readLines (start + (joinLines ls).length) ms := by
  induction ls generalizing start with
  | nil => rfl
  | cons l ls ih =>
    rw [List.cons_append, readLines, readLines, ih, List.cons_append, joinLines_cons]
    simp only [List.length_append, Nat.add_assoc]

theorem readLines_eq_append {start : Nat} {ls : List RawLine} {xs ys : List (Option Line)}
    (h : readLines start ls = xs ++ ys) :
    ∃ as bs, ls = as ++ bs ∧ readLines start as = xs ∧
      readLines (start + (joinLines as).length) bs = ys := by
  induction xs generalizing start ls with
  | nil => exact ⟨[], ls, rfl, rfl, h⟩
  | cons x xs ih =>
    cases ls with
    | nil => simp [readLines] at h
    | cons l ls =>
      rw [readLines, List.cons_append, List.cons.injEq] at h
      obtain ⟨as, bs, rfl, has, hbs⟩ := ih h.2
      refine ⟨l :: as, bs, rfl, by rw [readLines, h.1, has], ?_⟩
      rw [← hbs, joinLines_cons]
      simp only [List.length_append, Nat.add_assoc]

theorem readLines_isSome (start : Nat) {ls : List RawLine} (h : ∀ l ∈ ls, ¬ l.content.IsBlank) :
    ∃ run : List Line, readLines start ls = run.map some := by
  induction ls generalizing start with
  | nil => exact ⟨[], rfl⟩
  | cons l ls ih =>
    obtain ⟨run, hrun⟩ := ih (start + l.content.length + l.ending.length)
      fun m hm => h m (List.mem_cons_of_mem _ hm)
    obtain ⟨x, hx⟩ := Option.ne_none_iff_exists'.mp
      (mt Line.read?_eq_none_iff.mp (h l List.mem_cons_self) : Line.read? start l.content ≠ none)
    exact ⟨x :: run, by rw [readLines, hx, hrun, List.map_cons]⟩

theorem readLines_ne_nil {start : Nat} {ls : List RawLine} (h : ls ≠ []) :
    readLines start ls ≠ [] := by
  cases ls with
  | nil => exact absurd rfl h
  | cons l ls => simp [readLines]

theorem blank_of_read_getLast {start : Nat} {ls : List RawLine}
    (h : ∀ x ∈ (readLines start ls).getLast?, x = none) : ∀ l ∈ ls.getLast?, l.content.IsBlank := by
  intro l hl
  rcases List.eq_nil_or_concat ls with rfl | ⟨init, l', rfl⟩
  · simp at hl
  · rw [List.concat_eq_append, List.getLast?_concat, Option.mem_some_iff] at hl
    subst hl
    rw [List.concat_eq_append, readLines_append] at h
    exact Line.read?_eq_none_iff.mp (h _ (by rw [readLines, readLines, List.getLast?_concat]; rfl))

theorem blank_of_read_head {start : Nat} {ls : List RawLine}
    (h : ∀ x ∈ (readLines start ls).head?, x = none) : ∀ l ∈ ls.head?, l.content.IsBlank := by
  intro l hl
  cases ls with
  | nil => simp at hl
  | cons l' ls =>
    obtain rfl : l' = l := by simpa using hl
    exact Line.read?_eq_none_iff.mp (h _ (by rw [readLines, List.head?_cons]; rfl))

theorem nonblank_of_read_some {start : Nat} {ls : List RawLine} {run : List Line}
    (h : readLines start ls = run.map some) : ∀ l ∈ ls, ¬ l.content.IsBlank := by
  induction ls generalizing start run with
  | nil => simp
  | cons l ls ih =>
    cases run with
    | nil => simp [readLines] at h
    | cons x run =>
      rw [readLines, List.map_cons, List.cons.injEq] at h
      intro m hm hb
      rcases List.mem_cons.mp hm with rfl | hm
      · exact Line.not_isBlank_of_read? h.1 hb
      · exact ih h.2 m hm hb

/-! ## A stretch between blank lines -/

section Around

variable {pre mid post : Text} (start : Nat)

theorem readLines_pre (ho : pre.Opens) (hm : ∀ b ∈ mid.head?, isBreak b = false) :
    ∃ ls c, splitLines pre = ls ++ [⟨c, []⟩] ∧ c.IsBlank ∧ (∀ l ∈ ls.getLast?, l.content.IsBlank) ∧
      readLines start (splitLines (pre ++ mid)) =
        readLines start ls ++ readLines (start + pre.length) (splitLines mid) := by
  obtain ⟨ls, c, hpre⟩ := exists_concat_splitLines pre
  obtain ⟨d, e, ms, hmid⟩ := exists_cons_splitLines mid
  have hrev : (splitLines pre).reverse = ⟨c, []⟩ :: ls.reverse := by rw [hpre]; simp
  have hc : c.IsBlank := ho ⟨c, []⟩ (by rw [hrev]; simp)
  have hls : ∀ l ∈ ls.getLast?, l.content.IsBlank := fun l hl => by
    refine ho l ?_
    rw [hrev]
    rw [← List.head?_reverse] at hl
    cases hr : ls.reverse with
    | nil => simp [hr] at hl
    | cons m r => simp_all
  refine ⟨ls, c, hpre, hc, hls, ?_⟩
  have hlen : pre.length = (joinLines ls).length + c.length := by
    rw [← joinLines_splitLines pre, hpre]
    simp
  rw [splitLines_append hpre hmid (not_straddles_of_first hm), readLines_append, hmid, readLines,
    readLines, Line.read?_lead _ hc, hlen]
  simp only [List.length_append, Nat.add_assoc]

theorem readLines_post (hc : post.Closes) (hm : ∀ b ∈ mid.getLast?, isBreak b = false) :
    ∃ q e ls, splitLines post = ⟨q, e⟩ :: ls ∧ q.IsBlank ∧ (∀ l ∈ ls.head?, l.content.IsBlank) ∧
      readLines start (splitLines (mid ++ post)) = readLines start (splitLines mid) ++
        readLines (start + mid.length + q.length + e.length) ls := by
  obtain ⟨ms, c, hmid⟩ := exists_concat_splitLines mid
  obtain ⟨q, e, ls, hpost⟩ := exists_cons_splitLines post
  have hq : q.IsBlank := hc ⟨q, e⟩ (by rw [hpost]; simp)
  have hls : ∀ l ∈ ls.head?, l.content.IsBlank := fun l hl => by
    refine hc l ?_
    rw [hpost]
    cases ls with
    | nil => simp at hl
    | cons m ls => simp_all
  refine ⟨q, e, ls, hpost, hq, hls, ?_⟩
  have hlen : mid.length = (joinLines ms).length + c.length := by
    rw [← joinLines_splitLines mid, hmid]
    simp
  rw [splitLines_append hmid hpost (not_straddles_of_last hm), readLines_append, hmid,
    readLines_append, readLines, readLines, Line.read?_trail _ hq, hlen]
  simp [readLines, Nat.add_assoc]

theorem getLast_readLines {ls : List RawLine} (h : ∀ l ∈ ls.getLast?, l.content.IsBlank) :
    ∀ x ∈ (readLines start ls).getLast?, x = none := by
  intro x hx
  rcases List.eq_nil_or_concat ls with rfl | ⟨init, l, rfl⟩
  · simp [readLines] at hx
  · rw [List.concat_eq_append, readLines_append, readLines, readLines, List.getLast?_concat,
      Option.mem_some_iff] at hx
    rw [← hx]
    exact Line.read?_blank _ (h l (by simp))

theorem head_readLines {ls : List RawLine} (h : ∀ l ∈ ls.head?, l.content.IsBlank) :
    ∀ x ∈ (readLines start ls).head?, x = none := by
  intro x hx
  cases ls with
  | nil => simp [readLines] at hx
  | cons l ls =>
    rw [readLines, List.head?_cons, Option.mem_some_iff] at hx
    rw [← hx]
    exact Line.read?_blank _ (h l rfl)

theorem groups_concat_none {α : Type} (l : List (Option α)) : groups (l ++ [none]) = groups l := by
  rw [groups_append_none]
  simp [groups_eq, splitRuns, consRun]

/-- **The records of a text around a solid stretch.** -/
theorem Record.readAll_around (ho : pre.Opens) (hs : mid.Solid) (hc : post.Closes) :
    Record.readAll start (pre ++ mid ++ post) = Record.readAll start pre ++
      Record.readAll (start + pre.length) mid ++
        Record.readAll (start + pre.length + mid.length) post := by
  have hfirst : ∀ b ∈ (mid ++ post).head?, isBreak b = false := fun b hb =>
    isBreak_of_isInk (hs.first b (by rwa [List.head?_append_of_ne_nil _ hs.ne_nil] at hb))
  obtain ⟨ls, c, hpre, hcb, hls, h₁⟩ := readLines_pre start ho hfirst
  have hlast : ∀ b ∈ mid.getLast?, isBreak b = false := fun b hb => isBreak_of_isInk (hs.last b hb)
  obtain ⟨q, e, ms, hpost, hq, hms, h₂⟩ := readLines_post (start + pre.length) hc hlast
  obtain ⟨run, hrun⟩ := readLines_isSome (start + pre.length) hs.lines
  have hne : run ≠ [] := by
    rintro rfl
    exact readLines_ne_nil (splitLines_ne_nil mid) hrun
  have hpre' : groups (readLines start (splitLines pre)) = groups (readLines start ls) := by
    rw [hpre, readLines_append, readLines, readLines, Line.read?_blank _ hcb, groups_concat_none]
  have hpost' : groups (readLines (start + pre.length + mid.length) (splitLines post)) =
      groups (readLines (start + pre.length + mid.length + q.length + e.length) ms) := by
    rw [hpost, readLines, Line.read?_blank _ hq, groups_none]
  unfold Record.readAll
  rw [List.append_assoc pre, h₁, h₂, hrun, ← List.append_assoc,
    groups_around hne (getLast_readLines _ hls) (head_readLines _ hms), groups_map_some hne, hpre',
    hpost', List.filterMap_append, List.filterMap_append]

end Around

theorem Line.start_of_read? {start : Nat} {c : Text} {l : Line} (h : Line.read? start c = some l)
    (hf : ∀ b ∈ c.head?, isBlank b = false) : l.span.start = start := by
  obtain ⟨lead, m, trail, rfl, hl, -, -, -, hspan⟩ := Line.exists_span_of_read? h
  cases lead with
  | nil => rw [hspan]; rfl
  | cons b lead => exact absurd hl (Text.not_isBlank_of_head (hf b rfl))

theorem Line.stop_of_read? {start : Nat} {c : Text} {l : Line} (h : Line.read? start c = some l)
    (hlast : ∀ b ∈ c.getLast?, isBlank b = false) : l.span.stop = (start + c.length : Nat) := by
  obtain ⟨lead, m, trail, rfl, -, ht, -, -, hspan⟩ := Line.exists_span_of_read? h
  rcases List.eq_nil_or_concat trail with rfl | ⟨init, b, rfl⟩
  · rw [hspan]
    simp [Nat.add_assoc]
  · have hb := hlast b (by simp)
    rw [ht b (by simp)] at hb
    exact absurd hb (by decide)

/-- A solid stretch makes one record, which spans it. -/
theorem Text.Solid.exists_record {m : Text} (hs : m.Solid) (start : Nat) :
    ∃ r, Record.readAll start m = [r] ∧ r.span = ⟨start, (start + m.length : Nat)⟩ := by
  obtain ⟨run, hrun⟩ := readLines_isSome start hs.lines
  have hne : run ≠ [] := by
    rintro rfl
    exact readLines_ne_nil (splitLines_ne_nil m) hrun
  obtain ⟨d, e, ms, hm⟩ := exists_cons_splitLines m
  obtain ⟨ls, c, hm'⟩ := exists_concat_splitLines m
  obtain ⟨first, rest, rfl⟩ := List.exists_cons_of_ne_nil hne
  have hfirst : first.span.start = start := by
    refine Line.start_of_read? (c := d) ?_ fun b hb => isBlank_of_isInk (hs.first b ?_)
    · rw [hm, readLines, List.map_cons, List.cons.injEq] at hrun
      exact hrun.1
    · rw [← joinLines_splitLines m, hm, joinLines_cons, List.append_assoc]
      cases d with
      | nil => simp at hb
      | cons a d => exact hb
  have hlast : ((first :: rest).getLast hne).span.stop = (start + m.length : Nat) := by
    have hlen : m.length = (joinLines ls).length + c.length := by
      rw [← joinLines_splitLines m, hm']
      simp
    rw [hlen, ← Nat.add_assoc]
    refine Line.stop_of_read? (c := c) ?_ fun b hb => isBlank_of_isInk (hs.last b ?_)
    · have := congrArg List.getLast? hrun
      rw [hm', readLines_append, readLines, readLines, List.getLast?_concat, List.getLast?_map,
        List.getLast?_eq_getLast_of_ne_nil hne, Option.map_some] at this
      exact Option.some_inj.mp this
    · rw [← joinLines_splitLines m, hm', joinLines_append]
      rcases List.eq_nil_or_concat c with rfl | ⟨init, a, rfl⟩
      · simp at hb
      · simpa using hb
  have hr := Record.ofLines?_eq (List.head?_cons) (List.getLast?_eq_getLast_of_ne_nil hne)
  rw [hfirst, hlast] at hr
  have hall : Record.readAll start m = (Record.ofLines? (first :: rest)).toList := by
    unfold Record.readAll
    rw [hrun, groups_map_some hne, List.filterMap_cons, hr, List.filterMap_nil, Option.toList_some]
  rw [hall, hr]
  exact ⟨_, rfl, rfl⟩

/-! ## Finding the stretch -/

theorem splitLines_strip {x t c e : Text} {ls : List RawLine} (hx : ∀ b ∈ x, isBreak b = false)
    (h : splitLines (x ++ t) = ⟨x ++ c, e⟩ :: ls) : splitLines t = ⟨c, e⟩ :: ls := by
  obtain ⟨d, f, ms, ht⟩ := exists_cons_splitLines t
  rw [splitLines_content hx ht, List.cons.injEq, RawLine.mk.injEq, List.append_cancel_left_eq] at h
  rw [ht, h.1.1, h.1.2, h.2]

theorem Text.opens_of_concat {t c e : Text} {ls : List RawLine} (h : splitLines t = ls ++ [⟨c, e⟩])
    (hc : c.IsBlank) (hls : ∀ l ∈ ls.getLast?, l.content.IsBlank) : t.Opens := by
  intro l hl
  rw [h, List.reverse_append, List.reverse_singleton, List.singleton_append, List.take_succ_cons,
    List.mem_cons] at hl
  rcases hl with rfl | hl
  · exact hc
  · refine hls l ?_
    rw [← List.head?_reverse]
    cases hr : ls.reverse with
    | nil => simp [hr] at hl
    | cons m r => simp_all

theorem Text.closes_of_cons {t c e : Text} {ls : List RawLine} (h : splitLines t = ⟨c, e⟩ :: ls)
    (hc : c.IsBlank) (hls : ∀ l ∈ ls.head?, l.content.IsBlank) : t.Closes := by
  intro l hl
  rw [h, List.take_succ_cons, List.mem_cons] at hl
  rcases hl with rfl | hl
  · exact hc
  · refine hls l ?_
    cases ls with
    | nil => simp at hl
    | cons m r => simp_all

theorem exists_lead {t d e : Text} {ls : List RawLine} (h : splitLines t = ⟨d, e⟩ :: ls) :
    ∃ lead c s : Text, d = lead ++ c ∧ lead.IsBlank ∧ (∀ b ∈ c.head?, isBlank b = false) ∧
      t = lead ++ s ∧ splitLines s = ⟨c, e⟩ :: ls := by
  have hd : d.takeWhile isBlank ++ d.dropWhile isBlank = d := List.takeWhile_append_dropWhile
  have ht : t = d.takeWhile isBlank ++ (d.dropWhile isBlank ++ e ++ joinLines ls) := by
    rw [← joinLines_splitLines t, h, joinLines_cons, ← List.append_assoc, ← List.append_assoc, hd]
  refine ⟨d.takeWhile isBlank, d.dropWhile isBlank, _, hd.symm, Text.isBlank_takeWhile d,
    Text.head?_dropWhile_blank d, ht, ?_⟩
  exact splitLines_strip (Text.isBlank_takeWhile d).noBreak (by rw [← ht, h, hd])

theorem exists_trail {t c e : Text} {zs qs : List RawLine} (h : splitLines t = zs ++ ⟨c, e⟩ :: qs) :
    ∃ d trail : Text, c = d ++ trail ∧ trail.IsBlank ∧ (∀ b ∈ d.getLast?, isBlank b = false) ∧
      t = (joinLines zs ++ d) ++ (trail ++ e ++ joinLines qs) ∧
      splitLines (joinLines zs ++ d) = zs ++ [⟨d, []⟩] ∧
      splitLines (trail ++ e ++ joinLines qs) = ⟨trail, e⟩ :: qs := by
  obtain ⟨trail, ht, hc⟩ := Text.exists_trimEnd c
  obtain ⟨htext, hzs, hqs, -⟩ := splitLines_cut h (List.cons_ne_nil _ _)
  have hcb : ∀ b ∈ c, isBreak b = false :=
    noBreak_of_mem_splitLines (l := ⟨c, e⟩) (by rw [h]; simp)
  have hdb : ∀ b ∈ c.trimEnd, isBreak b = false := fun b hb =>
    hcb b (by rw [hc]; exact List.mem_append_left _ hb)
  have hjoin : joinLines (⟨c, e⟩ :: qs) = c.trimEnd ++ (trail ++ e ++ joinLines qs) := by
    rw [joinLines_cons, ← List.append_assoc, ← List.append_assoc, ← hc]
  refine ⟨c.trimEnd, trail, hc, ht, Text.last_trimEnd c, ?_, ?_, ?_⟩
  · rw [htext, hjoin, ← List.append_assoc]
  · have := splitLines_append hzs (splitLines_of_noBreak hdb)
      (not_straddles_of_first fun b hb => hdb b (List.mem_of_mem_head? hb))
    simpa using this
  · refine splitLines_strip hdb ?_
    rw [← hjoin, hqs, ← hc]

theorem exists_solid_of_block {t : Text} {ps ys qs : List RawLine}
    (h : splitLines t = ps ++ (ys ++ qs)) (hne : ys ≠ []) (hy : ∀ l ∈ ys, ¬ l.content.IsBlank)
    (hp : ∀ l ∈ ps.getLast?, l.content.IsBlank) (hq : ∀ l ∈ qs.head?, l.content.IsBlank) :
    ∃ lead mid trail : Text, lead.IsBlank ∧ trail.IsBlank ∧
      t = (joinLines ps ++ lead) ++ mid ++ (trail ++ (ys.getLast hne).ending ++ joinLines qs) ∧
      (joinLines ps ++ lead).Opens ∧ mid.Solid ∧
      (trail ++ (ys.getLast hne).ending ++ joinLines qs).Closes ∧
      ∀ start, readLines start ys = readLines (start + lead.length) (splitLines mid) := by
  obtain ⟨htext, hps, hys, -⟩ := splitLines_cut h (by simp [hne])
  obtain ⟨⟨d, e⟩, ys, rfl⟩ := List.exists_cons_of_ne_nil hne
  obtain ⟨lead, c, s, rfl, hlead, hc, hs, hlines⟩ := exists_lead hys
  have hcb : ¬ c.IsBlank := fun hb =>
    hy _ List.mem_cons_self (Text.isBlank_append.mpr ⟨hlead, hb⟩)
  -- the last line of the block, with the lead of the first one cut off
  obtain ⟨zs, c', f, hzs, hf⟩ : ∃ (zs : List RawLine) (c' f : Text),
      ⟨c, e⟩ :: ys = zs ++ [⟨c', f⟩] ∧
        ((⟨lead ++ c, e⟩ :: ys : List RawLine).getLast hne).ending = f := by
    rcases List.eq_nil_or_concat ys with rfl | ⟨init, l, rfl⟩
    · exact ⟨[], c, e, rfl, rfl⟩
    · exact ⟨⟨c, e⟩ :: init, l.content, l.ending, by simp, by simp⟩
  have hnb : ∀ l ∈ zs ++ [⟨c', f⟩], ¬ l.content.IsBlank := by
    rw [← hzs]
    intro l hl
    rcases List.mem_cons.mp hl with rfl | hl
    · exact hcb
    · exact hy l (List.mem_cons_of_mem _ hl)
  have hs' : splitLines s = zs ++ ⟨c', f⟩ :: qs := by
    rw [show splitLines s = (⟨c, e⟩ :: ys) ++ qs from hlines, hzs]
    simp
  obtain ⟨d, trail, rfl, htrail, hd, hst, hmid, hpost⟩ := exists_trail hs'
  have hdb : ¬ d.IsBlank := fun hb =>
    hnb ⟨d ++ trail, f⟩ (by simp) (Text.isBlank_append.mpr ⟨hb, htrail⟩)
  have hdne : d ≠ [] := by
    rintro rfl
    exact hdb Text.isBlank_nil
  have hdbr : ∀ b ∈ d, isBreak b = false :=
    noBreak_of_mem_splitLines (t := joinLines zs ++ d) (l := ⟨d, []⟩) (by rw [hmid]; simp)
  have hmne : joinLines zs ++ d ≠ [] := by simp [hdne]
  rw [hf]
  refine ⟨lead, joinLines zs ++ d, trail, hlead, htrail, ?_, ?_, ⟨hmne, ?_, ?_, ?_⟩, ?_, ?_⟩
  · rw [htext, hs, hst]
    simp
  · have hpre : splitLines (joinLines ps ++ lead) = ps ++ [⟨lead, []⟩] := by
      simpa using splitLines_append hps (splitLines_of_noBreak hlead.noBreak)
        (not_straddles_of_first fun b hb => hlead.noBreak b (List.mem_of_mem_head? hb))
    exact Text.opens_of_concat hpre hlead hp
  · intro b hb
    have hbc : b ∈ c.head? := by
      rw [← List.head?_append_of_ne_nil _ hmne, ← hst, ← joinLines_splitLines s, hlines,
        joinLines_cons, List.append_assoc] at hb
      cases c with
      | nil => exact absurd Text.isBlank_nil hcb
      | cons a c => exact hb
    refine isInk_iff.mpr ⟨hc b hbc, ?_⟩
    exact noBreak_of_mem_splitLines (l := ⟨c, e⟩) (by rw [hlines]; exact List.mem_cons_self) b
      (List.mem_of_mem_head? hbc)
  · intro b hb
    rw [List.getLast?_append_of_ne_nil _ hdne] at hb
    exact isInk_iff.mpr ⟨hd b hb, hdbr b (List.mem_of_mem_getLast? hb)⟩
  · rw [hmid]
    intro l hl
    rcases List.mem_append.mp hl with hl | hl
    · exact hnb l (List.mem_append_left _ hl)
    · rw [List.mem_singleton.mp hl]
      exact hdb
  · exact Text.closes_of_cons hpost htrail hq
  · intro start
    have h₁ : readLines start (⟨lead ++ c, e⟩ :: ys) =
        readLines (start + lead.length) (⟨c, e⟩ :: ys) := by
      rw [readLines, readLines, Line.read?_lead _ hlead]
      simp only [List.length_append, Nat.add_assoc]
    rw [h₁, hzs, hmid, readLines_append, readLines_append, readLines, readLines,
      Line.read?_trail _ htrail]
    rfl

/-- **Every record is made by a solid stretch.** -/
theorem Record.exists_place {start : Nat} {t : Text} {r : Record} (h : r ∈ Record.readAll start t) :
    ∃ pre mid post, t = pre ++ mid ++ post ∧ pre.Opens ∧ mid.Solid ∧ post.Closes ∧
      Record.readAll (start + pre.length) mid = [r] := by
  obtain ⟨run, hrun, hr⟩ := List.mem_filterMap.mp h
  obtain ⟨hne, before, after, hl, hb, ha⟩ := exists_around_of_mem_groups hrun
  rw [List.append_assoc] at hl
  obtain ⟨ps, rest, hps, hbefore, hrest⟩ := readLines_eq_append hl
  obtain ⟨ys, qs, rfl, hys, hqs⟩ := readLines_eq_append hrest
  have hyne : ys ≠ [] := by
    rintro rfl
    exact hne (List.map_eq_nil_iff.mp hys.symm)
  subst hbefore hqs
  obtain ⟨lead, mid, trail, -, -, ht, ho, hs, hc, hread⟩ := exists_solid_of_block hps hyne
    (nonblank_of_read_some hys) (blank_of_read_getLast hb) (blank_of_read_head ha)
  refine ⟨_, mid, _, ht, ho, hs, hc, ?_⟩
  unfold Record.readAll
  rw [List.length_append, ← Nat.add_assoc, ← hread, hys, groups_map_some hne,
    List.filterMap_cons, hr, List.filterMap_nil]

/-! ## Growing a stretch -/

theorem exists_suffix_nonblank (ls : List RawLine) :
    ∃ as bs, ls = as ++ bs ∧ (∀ l ∈ as.getLast?, l.content.IsBlank) ∧
      ∀ l ∈ bs, ¬ l.content.IsBlank := by
  induction ls using List.reverseRecOn with
  | nil => exact ⟨[], [], rfl, by simp, by simp⟩
  | append_singleton ls l ih =>
    by_cases h : l.content.IsBlank
    · exact ⟨ls ++ [l], [], by simp, by simpa using h, by simp⟩
    · obtain ⟨as, bs, rfl, ha, hb⟩ := ih
      refine ⟨as, bs ++ [l], by simp, ha, fun m hm => ?_⟩
      rcases List.mem_append.mp hm with hm | hm
      · exact hb m hm
      · rwa [List.mem_singleton.mp hm]

theorem exists_front_nonblank (ls : List RawLine) :
    ∃ as bs, ls = as ++ bs ∧ (∀ l ∈ as, ¬ l.content.IsBlank) ∧
      ∀ l ∈ bs.head?, l.content.IsBlank := by
  induction ls with
  | nil => exact ⟨[], [], rfl, by simp, by simp⟩
  | cons l ls ih =>
    by_cases h : l.content.IsBlank
    · exact ⟨[], l :: ls, rfl, by simp, by simpa using h⟩
    · obtain ⟨as, bs, rfl, ha, hb⟩ := ih
      refine ⟨l :: as, bs, rfl, fun m hm => ?_, hb⟩
      rcases List.mem_cons.mp hm with rfl | hm
      · exact h
      · exact ha m hm

theorem Text.Solid.exists_lines {pre mid post q e : Text} {c : Text} {ls ms : List RawLine}
    (hs : mid.Solid) (hpre : splitLines pre = ls ++ [⟨c, []⟩])
    (hpost : splitLines post = ⟨q, e⟩ :: ms) :
    ∃ ys : List RawLine, ys ≠ [] ∧ (∀ l ∈ ys, ¬ l.content.IsBlank) ∧
      splitLines (pre ++ mid ++ post) = ls ++ (ys ++ ms) := by
  obtain ⟨d, f, ns, hmid⟩ := exists_cons_splitLines mid
  have hleft := splitLines_append hpre hmid hs.not_straddles_left
  have hd : ∀ l ∈ (⟨c ++ d, f⟩ :: ns : List RawLine), ¬ l.content.IsBlank := by
    have hlines := hs.lines
    rw [hmid] at hlines
    intro l hl
    rcases List.mem_cons.mp hl with rfl | hl
    · exact fun hb => hlines ⟨d, f⟩ List.mem_cons_self (Text.isBlank_append.mp hb).2
    · exact hlines l (List.mem_cons_of_mem _ hl)
  obtain ⟨zs, g, hzs⟩ : ∃ zs g, (⟨c ++ d, f⟩ :: ns : List RawLine) = zs ++ [⟨g, []⟩] := by
    obtain ⟨init, g, hinit⟩ := exists_concat_splitLines mid
    rw [hmid] at hinit
    cases init with
    | nil =>
      obtain ⟨⟨rfl, rfl⟩, rfl⟩ : (d = g ∧ f = []) ∧ ns = [] := by simpa using hinit
      exact ⟨[], c ++ d, rfl⟩
    | cons l init =>
      obtain ⟨rfl, rfl⟩ : ⟨d, f⟩ = l ∧ ns = init ++ [⟨g, []⟩] := by simpa using hinit
      exact ⟨⟨c ++ d, f⟩ :: init, g, rfl⟩
  rw [hzs] at hleft hd
  refine ⟨zs ++ [⟨g ++ q, e⟩], by simp, fun l hl => ?_, ?_⟩
  · rcases List.mem_append.mp hl with hl | hl
    · exact hd l (List.mem_append_left _ hl)
    · rw [List.mem_singleton.mp hl]
      exact fun hb => hd ⟨g, []⟩ (by simp) (Text.isBlank_append.mp hb).1
  · have hstr : ¬ Straddles (pre ++ mid) post := by
      refine not_straddles_of_last fun b hb => isBreak_of_isInk (hs.last b ?_)
      rwa [List.getLast?_append_of_ne_nil _ hs.ne_nil] at hb
    rw [← List.append_assoc] at hleft
    rw [splitLines_append hleft hpost hstr]
    simp

theorem cut_after_lead {α : Type} {pre s front lead r : List α}
    (h : pre ++ s = front ++ lead ++ r) (hle : front.length ≤ pre.length)
    (hs : ∀ b ∈ s.head?, b ∉ lead) :
    ∃ v, pre = front ++ lead ++ v ∧ r = v ++ s := by
  rw [List.append_assoc] at h
  obtain ⟨k, rfl, hk⟩ : ∃ k, pre = front ++ k ∧ lead ++ r = k ++ s := by
    rcases List.append_eq_append_iff.mp h with ⟨k, rfl, hk⟩ | ⟨k, rfl, hk⟩
    · obtain rfl : k = [] := List.eq_nil_of_length_eq_zero (by
        rw [List.length_append] at hle
        omega)
      exact ⟨[], by simp, by simpa using hk.symm⟩
    · exact ⟨k, rfl, hk⟩
  rcases List.append_eq_append_iff.mp hk with ⟨v, rfl, hv⟩ | ⟨v, rfl, rfl⟩
  · exact ⟨v, by simp, hv⟩
  · cases v with
    | nil => exact ⟨[], by simp, by simp⟩
    | cons b v => exact absurd (by simp) (hs b rfl)

theorem cut_before_trail {α : Type} {post s back trail r : List α}
    (h : s ++ post = r ++ trail ++ back) (hle : back.length ≤ post.length)
    (hs : ∀ b ∈ s.getLast?, b ∉ trail) :
    ∃ w, post = w ++ trail ++ back ∧ r = s ++ w := by
  have hrev : post.reverse ++ s.reverse = back.reverse ++ trail.reverse ++ r.reverse := by
    simpa using congrArg List.reverse h
  obtain ⟨v, hv, hr⟩ := cut_after_lead hrev (by simpa) (by simpa using hs)
  refine ⟨v.reverse, ?_, ?_⟩
  · simpa using congrArg List.reverse hv
  · simpa using congrArg List.reverse hr

/-- **Every solid stretch is part of one that makes a record.** -/
theorem Text.Solid.exists_cover {mid : Text} (hs : mid.Solid) (pre post : Text) :
    ∃ x v w z : Text,
      pre = x ++ v ∧ post = w ++ z ∧ x.Opens ∧ (v ++ mid ++ w).Solid ∧ z.Closes := by
  obtain ⟨ls, c, hpre⟩ := exists_concat_splitLines pre
  obtain ⟨q, e, ms, hpost⟩ := exists_cons_splitLines post
  obtain ⟨ys, hyne, hy, hys⟩ := hs.exists_lines hpre hpost
  obtain ⟨as, bs, rfl, ha, hb⟩ := exists_suffix_nonblank ls
  obtain ⟨cs, ds, rfl, hc, hd⟩ := exists_front_nonblank ms
  have hlines : splitLines (pre ++ mid ++ post) = as ++ ((bs ++ ys ++ cs) ++ ds) := by
    rw [hys]
    simp
  obtain ⟨lead, y, trail, hlead, htrail, ht, ho, hsolid, hclose, -⟩ :=
    exists_solid_of_block hlines (by simp [hyne]) (by
      intro l hl
      rcases List.mem_append.mp hl with hl | hl
      · rcases List.mem_append.mp hl with hl | hl
        · exact hb l hl
        · exact hy l hl
      · exact hc l hl) ha hd
  have hpost' :
      post.length = q.length + e.length + (joinLines cs).length + (joinLines ds).length := by
    rw [← joinLines_splitLines post, hpost]
    simp [Nat.add_assoc]
  have hpre' : pre.length = (joinLines as).length + (joinLines bs).length + c.length := by
    rw [← joinLines_splitLines pre, hpre]
    simp [Nat.add_assoc]
  have hbreak : ∀ b ∈ ((bs ++ ys ++ cs).getLast (by simp [hyne])).ending, isBreak b := by
    refine isBreak_of_mem_ending (t := pre ++ mid ++ post) ?_
    rw [hlines]
    exact List.mem_append_right _ (List.mem_append_left _ (List.getLast_mem _))
  generalize ((bs ++ ys ++ cs).getLast (by simp [hyne])).ending = f at ht hclose hbreak
  -- no blank and no break reaches into the stretch, since it starts and ends with ink
  have hleft :
      pre ++ (mid ++ post) = joinLines as ++ lead ++ (y ++ (trail ++ f ++ joinLines ds)) := by
    rw [← List.append_assoc, ht, List.append_assoc]
  obtain ⟨v, rfl, -⟩ := cut_after_lead hleft (by omega) fun b hb hmem => by
    rw [List.head?_append_of_ne_nil _ hs.ne_nil] at hb
    exact absurd (hlead b hmem) (by simp [isBlank_of_isInk (hs.first b hb)])
  have hright : joinLines as ++ lead ++ v ++ mid ++ post =
      joinLines as ++ lead ++ y ++ (trail ++ f) ++ joinLines ds := by
    rw [ht, ← List.append_assoc]
  obtain ⟨w, rfl, hw⟩ := cut_before_trail hright (by omega) fun b hb hmem => by
    rw [List.getLast?_append_of_ne_nil _ hs.ne_nil] at hb
    have hink := isInk_iff.mp (hs.last b hb)
    rcases List.mem_append.mp hmem with hmem | hmem
    · exact absurd (htrail b hmem) (by simp [hink.1])
    · exact absurd (hbreak b hmem) (by simp [hink.2])
  obtain rfl : y = v ++ mid ++ w := by simpa using hw
  exact ⟨_, v, w, trail ++ f ++ joinLines ds, rfl, by simp, ho, hsolid, hclose⟩

/-! ## Places inside a stretch -/

theorem not_isBlank_of_first {t : Text} (hne : t ≠ []) (h : ∀ b ∈ t.head?, isInk b) :
    ¬ t.IsBlank := by
  obtain ⟨b, t, rfl⟩ := List.exists_cons_of_ne_nil hne
  exact Text.not_isBlank_of_head (isBlank_of_isInk (h b rfl))

theorem not_isBlank_of_last {t : Text} (hne : t ≠ []) (h : ∀ b ∈ t.getLast?, isInk b) :
    ¬ t.IsBlank := by
  intro hb
  have hl := List.getLast?_eq_getLast_of_ne_nil hne
  exact absurd (hb _ (List.getLast_mem hne)) (by simp [isBlank_of_isInk (h _ hl)])

theorem Text.Opens.blank {t : Text} (h : t.Opens) {ls ms : List RawLine} {l : RawLine}
    (hs : splitLines t = ls ++ l :: ms) (hms : ms.length ≤ 1) : l.content.IsBlank := by
  refine h l ?_
  rw [hs, List.reverse_append, List.reverse_cons]
  cases ms with
  | nil => simp
  | cons m ms =>
    obtain rfl : ms = [] := List.eq_nil_of_length_eq_zero (by simpa using hms)
    simp

theorem Text.Closes.blank {t : Text} (h : t.Closes) {ls ms : List RawLine} {l : RawLine}
    (hs : splitLines t = ls ++ l :: ms) (hls : ls.length ≤ 1) : l.content.IsBlank := by
  refine h l ?_
  rw [hs]
  cases ls with
  | nil => simp
  | cons m ls =>
    obtain rfl : ls = [] := List.eq_nil_of_length_eq_zero (by simpa using hls)
    simp

theorem Text.Solid.not_opens {s u m : Text} (h : (u ++ m).Solid) (hu : u ≠ [])
    (hm : ∀ b ∈ m.head?, isBreak b = false) : ¬ (s ++ u).Opens := by
  intro ho
  have hfirst : ∀ b ∈ u.head?, isInk b := fun b hb =>
    h.first b (by rwa [List.head?_append_of_ne_nil _ hu])
  have hstr : ¬ Straddles s u := not_straddles_of_first fun b hb => isBreak_of_isInk (hfirst b hb)
  obtain ⟨ls, c, hs⟩ := exists_concat_splitLines s
  obtain ⟨xs, g, hg⟩ := exists_concat_splitLines u
  obtain ⟨d, e, ms, hd⟩ := exists_cons_splitLines m
  rcases List.eq_nil_or_concat xs with rfl | ⟨xs, k, rfl⟩
  · have hgu : u = g := by simpa [hg] using (joinLines_splitLines u).symm
    subst hgu
    refine not_isBlank_of_first hu hfirst ?_
    exact (Text.isBlank_append.mp (ho.blank (splitLines_append hs hg hstr) (by simp))).2
  · rw [List.concat_eq_append] at hg
    have hk : ¬ k.content.IsBlank := by
      refine h.lines k ?_
      rw [splitLines_append hg hd (not_straddles_of_first hm)]
      simp
    cases xs with
    | nil =>
      have hlines := splitLines_append (d := k.content) (e := k.ending) hs hg hstr
      exact hk (Text.isBlank_append.mp (ho.blank hlines (by simp))).2
    | cons x xs =>
      have hlines := splitLines_append (d := x.content) (e := x.ending) hs hg hstr
      have hlast : splitLines (s ++ u) =
          (ls ++ ⟨c ++ x.content, x.ending⟩ :: xs) ++ k :: [⟨g, []⟩] := by
        rw [hlines]
        simp
      exact hk (ho.blank hlast (by simp))

theorem Text.Solid.not_closes {m w s : Text} (h : (m ++ w).Solid) (hw : w ≠ [])
    (hm : ∀ b ∈ m.getLast?, isBreak b = false) : ¬ (w ++ s).Closes := by
  intro hc
  have hlast : ∀ b ∈ w.getLast?, isInk b := fun b hb =>
    h.last b (by rwa [List.getLast?_append_of_ne_nil _ hw])
  have hstr : ¬ Straddles w s := not_straddles_of_last fun b hb => isBreak_of_isInk (hlast b hb)
  obtain ⟨d, e, ls, hs⟩ := exists_cons_splitLines s
  obtain ⟨ms, c, hm'⟩ := exists_concat_splitLines m
  obtain ⟨xs, g, hg⟩ := exists_concat_splitLines w
  have hws := splitLines_append hg hs hstr
  match xs, hg, hws with
  | [], hg, hws =>
    have hgw : w = g := by simpa [hg] using (joinLines_splitLines w).symm
    subst hgw
    exact not_isBlank_of_last hw hlast (Text.isBlank_append.mp (hc.blank hws (by simp))).1
  | [x], hg, hws =>
    have hlines := splitLines_append (d := x.content) (e := x.ending) hm' hg
      (not_straddles_of_last hm)
    refine h.lines ⟨g, []⟩ (by rw [hlines]; simp) ?_
    exact (Text.isBlank_append.mp (hc.blank hws (by simp))).1
  | x :: y :: xs, hg, hws =>
    have hlines := splitLines_append (d := x.content) (e := x.ending) hm' hg
      (not_straddles_of_last hm)
    have hfirst : splitLines (w ++ s) = [x] ++ y :: (xs ++ ⟨g ++ d, e⟩ :: ls) := hws
    exact h.lines y (by rw [hlines]; simp) (hc.blank hfirst (by simp))

end RobotsTxt
