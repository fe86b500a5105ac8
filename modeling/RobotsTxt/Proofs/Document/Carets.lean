import RobotsTxt.Proofs.Document.Edges

/-!
# Lines and rows under a caret

A caret between two bytes of a text is in one row, and it reaches one line at most, which is then
the line of that row. It reaches none in a blank row, and beside the ink of any other row.

* `Document.lineAt?_eq_some_iff`: the line that a caret reaches.
* `Document.Shuffled`: records and lines in another order; **`Document.lineAt?_finds_only`**: only
  one line can be found, in any order.
* `Text.RowAt`: the row that a caret is in; **`Text.existsUnique_rowAt`**: there is always one.
* **`Document.lineAt?_eq_some_iff_written`**: the line that a caret reaches is that of its row.
-/

namespace RobotsTxt

/-! ## The line under a caret -/

namespace Document

variable {t : Text} {l : Line} {c : Int}

theorem mem_of_lineAt? {d : Document} (h : d.lineAt? c = some l) :
    l ∈ d.lines ∧ l.span.reaches c := by
  obtain ⟨r, hr, hfind⟩ := List.exists_of_findSome?_eq_some h
  split at hfind
  · exact ⟨mem_lines hr (List.mem_of_find?_eq_some hfind), by simpa using List.find?_some hfind⟩
  · cases hfind

/-- A document in which the line at a caret does not depend on the order of the search: a record
reaches as far as its lines, and no two lines reach the caret. -/
structure ClearAt (d : Document) (c : Int) : Prop where
  reaches : ∀ r ∈ d.records, ∀ l ∈ r.lines, l.span.reaches c → r.span.reaches c
  unique : ∀ l ∈ d.lines, ∀ m ∈ d.lines, l.span.reaches c → m.span.reaches c → l = m

theorem ClearAt.lineAt?_eq_some_iff {d : Document} (h : d.ClearAt c) :
    d.lineAt? c = some l ↔ l ∈ d.lines ∧ l.span.reaches c := by
  refine ⟨mem_of_lineAt?, fun ⟨hl, hc⟩ => ?_⟩
  obtain ⟨r, hr, hlr⟩ := List.mem_flatMap.mp hl
  have hsome : (d.lineAt? c).isSome := by
    refine List.findSome?_isSome_iff.mpr ⟨r, hr, ?_⟩
    rw [if_pos (h.reaches r hr l hlr hc)]
    exact List.find?_isSome.mpr ⟨l, hlr, hc⟩
  obtain ⟨m, hm⟩ := Option.isSome_iff_exists.mp hsome
  obtain ⟨hmem, hmc⟩ := mem_of_lineAt? hm
  rw [hm, h.unique m hmem l hl hmc hc]

theorem reaches_of_mem_lines {r : Record} (hr : r ∈ (parse t).records) (hl : l ∈ r.lines)
    (hc : l.span.reaches c) : r.span.reaches c := by
  obtain ⟨h₁, h₂⟩ := (wellFormed_of_mem_records hr).within l hl
  obtain ⟨h₃, h₄⟩ := Span.reaches_iff.mp hc
  exact Span.reaches_iff.mpr ⟨Int.le_trans h₁ h₃, Int.le_trans h₄ h₂⟩

theorem clearAt_parse (t : Text) (c : Int) : (parse t).ClearAt c where
  reaches := fun _ hr _ hl hc => reaches_of_mem_lines hr hl hc
  unique := fun _ hl _ hm hlc hmc => Span.eq_of_reaches (pairwise_lines_parse t) hl hm hlc hmc

/-- **The line at a caret is the one that it reaches.** No record hides it, since a record reaches
as far as its lines. -/
theorem lineAt?_eq_some_iff :
    (parse t).lineAt? c = some l ↔ l ∈ (parse t).lines ∧ l.span.reaches c :=
  (clearAt_parse t c).lineAt?_eq_some_iff

/-! ## Searching in another order -/

/-- **The same records and lines in another order**: the records may change places, and so may the
lines of each of them. -/
def Shuffled (d e : Document) : Prop :=
  ∃ rs, rs.Perm d.records ∧
    List.Forall₂ (fun r s => s.span = r.span ∧ s.lines.Perm r.lines) rs e.records

theorem Shuffled.lines {d e : Document} (h : d.Shuffled e) : e.lines.Perm d.lines := by
  obtain ⟨rs, hperm, hforall⟩ := h
  refine List.Perm.trans ?_ (hperm.flatMap_right Record.lines)
  unfold Document.lines
  generalize e.records = ss at hforall
  clear hperm
  induction hforall with
  | nil => exact .nil
  | cons hr _ ih => exact hr.2.append ih

theorem exists_of_mem_forall₂ {α β : Type} {R : α → β → Prop} {xs : List α} {ys : List β}
    (h : List.Forall₂ R xs ys) {y : β} (hy : y ∈ ys) : ∃ x ∈ xs, R x y := by
  induction h with
  | nil => cases hy
  | cons hR _ ih =>
    rcases List.mem_cons.mp hy with rfl | hy
    · exact ⟨_, List.mem_cons_self, hR⟩
    · obtain ⟨x, hx, hR⟩ := ih hy
      exact ⟨x, List.mem_cons_of_mem _ hx, hR⟩

theorem Shuffled.clearAt {d e : Document} (h : d.Shuffled e) (hd : d.ClearAt c) : e.ClearAt c where
  reaches := by
    obtain ⟨rs, hperm, hforall⟩ := h
    intro s hs l hl hc
    obtain ⟨r, hr, hspan, hlines⟩ := exists_of_mem_forall₂ hforall hs
    rw [hspan]
    exact hd.reaches r (hperm.mem_iff.mp hr) l (hlines.mem_iff.mp hl) hc
  unique := fun l hl m hm =>
    hd.unique l (h.lines.mem_iff.mp hl) m (h.lines.mem_iff.mp hm)

theorem Shuffled.lineAt?_eq {d e : Document} (h : d.Shuffled e) (hd : d.ClearAt c) :
    e.lineAt? c = d.lineAt? c := by
  refine Option.ext fun l => ?_
  rw [(h.clearAt hd).lineAt?_eq_some_iff, hd.lineAt?_eq_some_iff, h.lines.mem_iff]

/-- The lines that a caret reaches are the line at the caret, if there is one. -/
theorem filter_reaches_lines (t : Text) (c : Int) :
    (parse t).lines.filter (·.span.reaches c) = ((parse t).lineAt? c).toList := by
  have hmem : ∀ l, l ∈ (parse t).lines.filter (·.span.reaches c) ↔
      (parse t).lineAt? c = some l := by
    intro l
    rw [List.mem_filter, lineAt?_eq_some_iff]
  have hreaches : ∀ l ∈ (parse t).lines.filter (·.span.reaches c), l.span.reaches c :=
    fun l hl => (List.mem_filter.mp hl).2
  have hpair := (pairwise_lines_parse t).sublist
    (List.filter_sublist (p := fun l : Line => l.span.reaches c))
  generalize (parse t).lines.filter (·.span.reaches c) = found at hmem hreaches hpair ⊢
  match found with
  | [] =>
    have hnone : (parse t).lineAt? c = none :=
      Option.eq_none_iff_forall_ne_some.mpr fun l hl => by simpa using (hmem l).mpr hl
    rw [hnone]
    rfl
  | [l] =>
    rw [(hmem l).mp List.mem_cons_self]
    rfl
  | l :: m :: ls =>
    -- the first of two lines would have to end before the other one starts
    have hl := Span.reaches_iff.mp (hreaches l (by simp))
    have hm := Span.reaches_iff.mp (hreaches m (by simp))
    have hlt := (List.pairwise_cons.mp hpair).1 m List.mem_cons_self
    omega

/-- **One line at most is under a caret**, and it is found in whatever order the records and their
lines are searched. -/
theorem lineAt?_finds_only (t : Text) (c : Int) :
    (parse t).lines.filter (·.span.reaches c) = ((parse t).lineAt? c).toList ∧
      (∀ r ∈ (parse t).records, ∀ l ∈ r.lines, l.span.reaches c → r.span.reaches c) ∧
      ∀ e, (parse t).Shuffled e → e.lineAt? c = (parse t).lineAt? c :=
  ⟨filter_reaches_lines t c, (clearAt_parse t c).reaches,
    fun _ he => he.lineAt?_eq (clearAt_parse t c)⟩

/-- Between two lines, with everything turned around. -/
theorem lineAt?_finds_only_reversed :
    let d := parse (utf8 "a: b\nc: d\n\ne: f")
    let e := { d with
      records := d.records.reverse.map fun r => { r with lines := r.lines.reverse } }
    e ≠ d ∧ (d.lineAt? 4).map (·.span) = some ⟨0, 4⟩ ∧ e.lineAt? 4 = d.lineAt? 4 := by
  refine ⟨by decide, by decide, (lineAt?_finds_only _ 4).2.2 _ ⟨_, List.reverse_perm _, ?_⟩⟩
  exact List.forall₂_map_right_iff.mpr
    (List.forall₂_same.mpr fun r _ => ⟨rfl, List.reverse_perm r.lines⟩)

end Document

/-! ## The row under a caret -/

/-- **The row that an offset is in**: the last one that starts there or before. An offset in the
byte order mark is in the first row. -/
def Text.RowAt (t : Text) (offset : Nat) (r : Row) : Prop :=
  ∃ pre post, rows t.mark.length (splitLines t.body) = pre ++ r :: post ∧
    (pre = [] ∨ r.start ≤ offset) ∧ ∀ s ∈ post, offset < s.start

theorem pairwise_rows_lt (start : Nat) {ls : List RawLine} (h : ∀ l ∈ ls.dropLast, l.ending ≠ []) :
    (rows start ls).Pairwise fun r s => r.start + r.content.length < s.start := by
  induction ls generalizing start with
  | nil => exact .nil
  | cons l ls ih =>
    cases ls with
    | nil => exact List.pairwise_singleton _ _
    | cons m ls =>
      rw [List.dropLast_cons_cons] at h
      obtain ⟨hl, hrest⟩ := List.forall_mem_cons.mp h
      refine List.pairwise_cons.mpr ⟨fun r hr => ?_, ih _ hrest⟩
      have hstart := start_le_of_mem_rows hr
      have hpos := List.length_pos_of_ne_nil hl
      simp only
      omega

theorem exists_last_start {rs : List Row} (hne : rs ≠ [])
    (hrs : rs.Pairwise fun r s => r.start + r.content.length < s.start) (offset : Nat) :
    ∃ pre r post, rs = pre ++ r :: post ∧ (pre = [] ∨ r.start ≤ offset) ∧
      ∀ s ∈ post, offset < s.start := by
  induction rs with
  | nil => exact absurd rfl hne
  | cons r rs ih =>
    obtain ⟨hr, hrest⟩ := List.pairwise_cons.mp hrs
    cases rs with
    | nil => exact ⟨[], r, [], rfl, .inl rfl, by simp⟩
    | cons s rs =>
      by_cases hs : s.start ≤ offset
      · obtain ⟨pre, q, post, heq, hq, hpost⟩ := ih (by simp) hrest
        refine ⟨r :: pre, q, post, by rw [heq]; rfl, .inr (hq.elim (fun hnil => ?_) id), hpost⟩
        rw [hnil, List.nil_append, List.cons.injEq] at heq
        rwa [← heq.1]
      · refine ⟨[], r, s :: rs, rfl, .inl rfl, List.forall_mem_cons.mpr ⟨by omega, fun q hq => ?_⟩⟩
        have := (List.pairwise_cons.mp hrest).1 q hq
        omega

namespace Text

variable {t : Text} {offset : Nat} {r s : Row}

theorem pairwise_rows_parse (t : Text) : (rows t.mark.length (splitLines t.body)).Pairwise
    fun r s => r.start + r.content.length < s.start :=
  pairwise_rows_lt _ (ending_ne_nil _)

theorem RowAt.unique (hr : t.RowAt offset r) (hs : t.RowAt offset s) : r = s := by
  -- the one that comes first would have the other one behind it, which starts too late
  have hlater : ∀ {r s : Row} {pre mid post : List Row}, (pre ++ r :: mid = [] ∨ s.start ≤ offset) →
      (∀ q ∈ mid ++ s :: post, offset < q.start) → r = s := by
    intro r s pre mid post hs hpost
    rcases hs with hs | hs
    · simp at hs
    · have := hpost s (by simp)
      omega
  obtain ⟨pre, post, heq, hstart, hpost⟩ := hr
  obtain ⟨pre', post', heq', hstart', hpost'⟩ := hs
  rcases List.append_eq_append_iff.mp (heq.symm.trans heq') with ⟨mid, rfl, hmid⟩ | ⟨mid, rfl, hmid⟩
  · cases mid with
    | nil => exact (List.cons.inj hmid).1
    | cons q mid =>
      obtain ⟨rfl, rfl⟩ := List.cons.inj hmid
      exact hlater hstart' hpost
  · cases mid with
    | nil => exact (List.cons.inj hmid).1.symm
    | cons q mid =>
      obtain ⟨rfl, rfl⟩ := List.cons.inj hmid
      exact (hlater hstart hpost').symm

/-- **Every offset is in one row.** -/
theorem existsUnique_rowAt (t : Text) (offset : Nat) : ∃! r, t.RowAt offset r := by
  have hne : rows t.mark.length (splitLines t.body) ≠ [] := by
    obtain ⟨c, e, ls, hs⟩ := exists_cons_splitLines t.body
    simp [hs, rows]
  obtain ⟨pre, r, post, hrows, hr, hpost⟩ :=
    exists_last_start hne (pairwise_rows_parse t) offset
  have hat : t.RowAt offset r := ⟨pre, post, hrows, hr, hpost⟩
  exact ⟨r, hat, fun s hs => hs.unique hat⟩

theorem RowAt.mem (h : t.RowAt offset r) : r ∈ rows t.mark.length (splitLines t.body) := by
  obtain ⟨pre, post, hrows, -, -⟩ := h
  simp [hrows]

theorem rowAt_of_between (hr : r ∈ rows t.mark.length (splitLines t.body))
    (hfirst : r.start ≤ offset) (hlast : offset ≤ r.start + r.content.length) :
    t.RowAt offset r := by
  obtain ⟨pre, post, hrows⟩ := List.append_of_mem hr
  have hpair := t.pairwise_rows_parse
  rw [hrows, List.pairwise_append, List.pairwise_cons] at hpair
  refine ⟨pre, post, hrows, .inr hfirst, fun s hs => ?_⟩
  have := hpair.2.1.1 s hs
  omega

end Text

namespace Document

variable {t : Text} {offset : Nat} {r : Row} {l : Line}

theorem mem_lines_of_written (hr : r ∈ rows t.mark.length (splitLines t.body))
    (hl : l.Written r.start r.content) : l ∈ (parse t).lines := by
  rw [lines_parse, readLines_eq_map, List.reduceOption_mem_iff, List.mem_map]
  exact ⟨r, hr, Line.written_iff.mp hl⟩

/-- **The line that a caret reaches is the line of its row.** -/
theorem lineAt?_eq_some_iff_written (hr : t.RowAt offset r) :
    (parse t).lineAt? offset = some l ↔ l.Written r.start r.content ∧ l.span.reaches offset := by
  rw [lineAt?_eq_some_iff]
  refine and_congr_left fun hc => ⟨fun hl => ?_, mem_lines_of_written hr.mem⟩
  obtain ⟨s, hs, hl⟩ := exists_row hl
  obtain ⟨hfirst, -, hlast⟩ := hl.bounds
  obtain ⟨h₁, h₂⟩ := Span.reaches_iff.mp hc
  rwa [hr.unique (Text.rowAt_of_between hs (by omega) (by omega))]

end Document

end RobotsTxt
