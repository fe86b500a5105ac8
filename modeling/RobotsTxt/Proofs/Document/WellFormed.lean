import RobotsTxt.Proofs.Document.Tokens

/-!
# Well-formed documents

Every text makes a document whose spans are nested and in order.

* `Line.WellFormed`, `Record.WellFormed`, `Document.WellFormed`: what holds of each layer.
* `pairwise_lines`: a line break separates two lines.
* `Line.Shaped`, `Document.shaped_of_mem_lines`: which tokens a line has.
* **`Document.wellFormed_parse`**: every document that is read from a text is well formed.
-/

namespace RobotsTxt

/-! ## What is well formed -/

/-- A span that is not reversed. -/
def Span.Proper (s : Span) : Prop := Span.checked s.start s.stop = .ok s

/-- A span that lies inside another one. -/
def Span.Within (s outer : Span) : Prop := outer.start ≤ s.start ∧ s.stop ≤ outer.stop

theorem Span.proper_of_le {s : Span} (h : s.start ≤ s.stop) : s.Proper := by
  rw [Span.Proper, Span.checked, if_neg (by omega)]

theorem Span.reaches_iff {s : Span} {pos : Int} :
    s.reaches pos ↔ s.start ≤ pos ∧ pos ≤ s.stop := by
  simp [Span.reaches]

theorem Span.eq_of_reaches {α : Type} {span : α → Span} {xs : List α} {x y : α} {pos : Int}
    (h : xs.Pairwise fun x y => (span x).stop < (span y).start) (hx : x ∈ xs) (hy : y ∈ xs)
    (hxp : (span x).reaches pos) (hyp : (span y).reaches pos) : x = y := by
  let Apart (x y : α) : Prop := (span x).stop < (span y).start ∨ (span y).stop < (span x).start
  have : Std.Symm Apart := ⟨fun _ _ h => h.symm⟩
  have hapart : xs.Pairwise Apart := h.imp Or.inl
  rw [Span.reaches_iff] at hxp hyp
  by_contra hne
  rcases hapart.forall hx hy hne with h | h <;> omega

/-- A line is not empty, and its tokens lie inside it. -/
structure Line.WellFormed (l : Line) : Prop where
  nonempty : l.span.start < l.span.stop
  tokens : ∀ k ∈ l.tokens, k.span.Within l.span

/-- A record starts with its first line and stops with its last one. No two lines touch. -/
structure Record.WellFormed (r : Record) : Prop where
  nonempty : r.span.start < r.span.stop
  lines : ∀ l ∈ r.lines, l.WellFormed
  ordered : r.lines.Pairwise fun l m => l.span.stop < m.span.start
  first : r.lines.head?.map (fun l => l.span.start) = some r.span.start
  last : r.lines.getLast?.map (fun l => l.span.stop) = some r.span.stop

/-- **A document is well formed** when it spans its text, its records lie inside it and do not touch
each other, its tokens are in order and hold all the ink of the text, and no span is reversed. -/
structure Document.WellFormed (source : Text) (d : Document) : Prop where
  span : d.span = ⟨0, source.length⟩
  records : ∀ r ∈ d.records, r.WellFormed ∧ r.span.Within d.span
  ordered : d.records.Pairwise fun r s => r.span.stop < s.span.start
  tokens : ∀ k ∈ d.allTokens, k.Reads source
  sorted : d.allTokens.Pairwise fun k m => k.span.stop ≤ m.span.start
  covers : ∀ (p : Nat) (b : UInt8), source[p]? = some b → isInk b →
    ∃ k ∈ d.allTokens, k.missing = false ∧ k.span.contains p
  names : ∀ r ∈ d.records, ∃ k, r.nameToken? = some k ∧ k.Reads source ∧ k.span.Proper
  nodeSpans : ∀ n ∈ (Node.document d).descendants, n.span.Proper
  tokenSpans : ∀ k ∈ d.allTokens, k.span.Proper

theorem Token.Reads.proper {source : Text} {k : Token} (h : k.Reads source) : k.span.Proper := by
  refine Span.proper_of_le ?_
  cases hm : k.missing with
  | false => exact Int.le_of_lt (h.present hm).1
  | true => exact Int.le_of_eq (h.absent hm).1

/-! ## Lines -/

theorem ending_ne_nil (t : Text) : ∀ r ∈ (splitLines t).dropLast, r.ending ≠ [] := by
  fun_induction splitLines t with
  | case1 => simp
  | case2 t ih =>
    rw [List.dropLast_cons_of_ne_nil (splitLines_ne_nil t)]
    exact List.forall_mem_cons.mpr ⟨by simp, ih⟩
  | case3 b t _ _ ih =>
    rw [List.dropLast_cons_of_ne_nil (splitLines_ne_nil t)]
    exact List.forall_mem_cons.mpr ⟨by simp, ih⟩
  | case4 b t _ _ ih =>
    obtain ⟨c, e, ls, hs⟩ := exists_cons_splitLines t
    rw [hs] at ih ⊢
    cases ls with
    | nil => simp [RawLine.push]
    | cons l ls =>
      simp only [RawLine.push, List.dropLast_cons_cons] at ih ⊢
      obtain ⟨he, hrest⟩ := List.forall_mem_cons.mp ih
      exact List.forall_mem_cons.mpr ⟨he, hrest⟩

/-- **A line break separates two lines.** -/
theorem pairwise_lines (start : Nat) {ls : List RawLine} (he : ∀ r ∈ ls.dropLast, r.ending ≠ []) :
    (readLines start ls).reduceOption.Pairwise fun l m => l.span.stop < m.span.start := by
  induction ls generalizing start with
  | nil => simp [readLines]
  | cons r ls ih =>
    have htail : ∀ s ∈ ls.dropLast, s.ending ≠ [] := fun s hs => he s (by
      cases ls with
      | nil => simp at hs
      | cons l ls => exact List.mem_cons_of_mem _ hs)
    rw [readLines]
    cases hr : Line.read? start r.content with
    | none =>
      rw [List.reduceOption_cons_of_none]
      exact ih _ htail
    | some l =>
      rw [List.reduceOption_cons_of_some, List.pairwise_cons]
      refine ⟨fun m hm => ?_, ih _ htail⟩
      have hne : ls ≠ [] := by
        rintro rfl
        simp [readLines] at hm
      have hend : r.ending ≠ [] := he r (by
        rw [List.dropLast_cons_of_ne_nil hne]
        exact List.mem_cons_self)
      obtain ⟨lead, c, trail, hc, -, -, -, -, hspan⟩ := Line.exists_span_of_read? hr
      have hlen := congrArg List.length hc
      have hpos := List.length_pos_of_ne_nil hend
      have hstart := (span_of_mem_readLines hm).1
      simp only [List.length_append] at hlen
      rw [hspan]
      simp only
      omega

theorem exists_read?_of_mem {start : Nat} {ls : List RawLine} {l : Line}
    (h : l ∈ (readLines start ls).reduceOption) :
    ∃ r ∈ ls, ∃ pos, Line.read? pos r.content = some l := by
  induction ls generalizing start with
  | nil => simp [readLines] at h
  | cons r ls ih =>
    rw [readLines] at h
    cases hr : Line.read? start r.content with
    | none =>
      rw [hr, List.reduceOption_cons_of_none] at h
      obtain ⟨s, hs, hl⟩ := ih h
      exact ⟨s, List.mem_cons_of_mem _ hs, hl⟩
    | some m =>
      rw [hr, List.reduceOption_cons_of_some, List.mem_cons] at h
      rcases h with rfl | h
      · exact ⟨r, List.mem_cons_self, start, hr⟩
      · obtain ⟨s, hs, hl⟩ := ih h
        exact ⟨s, List.mem_cons_of_mem _ hs, hl⟩

theorem Document.wellFormed_of_mem_lines {t : Text} {l : Line}
    (h : l ∈ (Document.parse t).lines) : l.WellFormed := by
  rw [Document.lines_parse] at h
  obtain ⟨r, hr, pos, hl⟩ := exists_read?_of_mem h
  obtain ⟨lead, m, trail, -, -, -, hm, hf, hspan⟩ :=
    Line.exists_fills hl (noBreak_of_mem_splitLines hr)
  have hpos := List.length_pos_of_ne_nil hm
  refine ⟨?_, fun k hk => ?_⟩
  · rw [hspan]
    simp only
    omega
  · obtain ⟨hfirst, -, hlast⟩ := hf.inside k hk
    rw [hspan]
    exact ⟨hfirst, hlast⟩

theorem Document.pairwise_lines_parse (t : Text) :
    (Document.parse t).lines.Pairwise fun l m => l.span.stop < m.span.start := by
  rw [Document.lines_parse]
  exact pairwise_lines _ (ending_ne_nil _)

/-- **Which tokens a line has.** A comment stands alone, and every other line has a name and a
delimiter, though they may be missing ones. -/
inductive Line.Shaped (l : Line) : Prop
  | comment {c : Token} (kind : l.kind = .commentLine) (name : l.name? = none)
      (delimiter : l.delimiter? = none) (value : l.value? = none) (comment : l.comment? = some c)
  | directive {n d : Token} (kind : l.kind.derives .directive) (name : l.name? = some n)
      (delimiter : l.delimiter? = some d) (unnamed : n.missing → l.kind = .extension)
      (value : l.valueText ≠ [] → ∃ v, l.value? = some v)

theorem Directive.derives_kindOf (name : Text) : (kindOf name).derives .directive := by
  have hknown : ∀ d ∈ known, d.kind.derives .directive := by decide
  unfold kindOf
  cases h : lookup? name with
  | none => decide
  | some d => exact hknown d (List.mem_of_find?_eq_some h)

theorem Line.exists_value_of_valueText {l : Line} (h : l.valueText ≠ []) :
    ∃ v, l.value? = some v := by
  cases hv : l.value? with
  | none => simp [Line.valueText, hv] at h
  | some v => exact ⟨v, rfl⟩

theorem Line.shaped_ofTokens (start : Nat) (name delimiter : Token)
    (value? comment? : Option Token) :
    (Line.ofTokens start name delimiter value? comment?).Shaped := by
  refine .directive ?_ rfl rfl (fun hmissing => if_pos hmissing) Line.exists_value_of_valueText
  unfold Line.ofTokens
  split
  · rfl
  · exact Directive.derives_kindOf _

theorem Layout.shaped_line (a : Layout) (start : Nat) : (a.line start).Shaped := by
  cases a with
  | comment c => exact .comment rfl rfl rfl rfl rfl
  | directive head gap c => cases head <;> exact Line.shaped_ofTokens ..

theorem Document.exists_layout {t : Text} {l : Line} (h : l ∈ (Document.parse t).lines) :
    ∃ (a : Layout) (start : Nat), l = a.line start := by
  rw [Document.lines_parse] at h
  obtain ⟨r, -, pos, hl⟩ := exists_read?_of_mem h
  obtain ⟨lead, a, -, -, -, -, -, rfl⟩ := Line.exists_layout_of_read? hl
  exact ⟨a, _, rfl⟩

theorem Document.shaped_of_mem_lines {t : Text} {l : Line}
    (h : l ∈ (Document.parse t).lines) : l.Shaped := by
  obtain ⟨a, start, rfl⟩ := Document.exists_layout h
  exact a.shaped_line start

/-! ## Records -/

theorem Record.exists_run {start : Nat} {t : Text} {r : Record} (h : r ∈ Record.readAll start t) :
    r.lines ∈ groups (readLines start (splitLines t)) := by
  rw [← Record.map_lines_readAll]
  exact List.mem_map_of_mem h

theorem Record.ofLines?_lines {start : Nat} {t : Text} {r : Record}
    (h : r ∈ Record.readAll start t) : Record.ofLines? r.lines = some r := by
  obtain ⟨run, hrun, hr⟩ := List.mem_filterMap.mp h
  have hlines := Record.lines_ofLines? (exists_around_of_mem_groups hrun).1
  rw [hr, Option.map_some, Option.some_inj] at hlines
  rwa [hlines]

theorem Record.exists_first_last {r : Record} (h : Record.ofLines? r.lines = some r) :
    ∃ first last, r.lines.head? = some first ∧ r.lines.getLast? = some last ∧
      r.span = ⟨first.span.start, last.span.stop⟩ := by
  cases hf : r.lines.head? with
  | none => simp [Record.ofLines?, hf] at h
  | some first =>
    cases hl : r.lines.getLast? with
    | none => simp [Record.ofLines?, hl] at h
    | some last =>
      rw [Record.ofLines?_eq hf hl, Option.some_inj] at h
      exact ⟨first, last, rfl, rfl, by rw [← h]⟩

theorem Document.mem_lines {d : Document} {r : Record} {l : Line} (hr : r ∈ d.records)
    (hl : l ∈ r.lines) : l ∈ d.lines := List.mem_flatMap.mpr ⟨r, hr, hl⟩

theorem Document.wellFormed_of_mem_records {t : Text} {r : Record}
    (h : r ∈ (Document.parse t).records) : r.WellFormed := by
  have hlines : ∀ l ∈ r.lines, l.WellFormed := fun l hl =>
    Document.wellFormed_of_mem_lines (Document.mem_lines h hl)
  have hbounds := Document.span_of_mem_records h
  rw [Document.records_parse] at h
  have hall := pairwise_lines t.mark.length (ending_ne_nil t.body)
  rw [← flatten_groups, List.pairwise_flatten] at hall
  obtain ⟨first, last, hf, hl, hspan⟩ := Record.exists_first_last (Record.ofLines?_lines h)
  refine ⟨hbounds.2.1, hlines, hall.1 _ (Record.exists_run h), ?_, ?_⟩
  · rw [hf, hspan, Option.map_some]
  · rw [hl, hspan, Option.map_some]

theorem Document.pairwise_records (t : Text) :
    (Document.parse t).records.Pairwise fun r s => r.span.stop < s.span.start := by
  have hall := pairwise_lines t.mark.length (ending_ne_nil t.body)
  rw [← flatten_groups, List.pairwise_flatten, ← Record.map_lines_readAll,
    List.pairwise_map] at hall
  rw [Document.records_parse]
  refine hall.2.imp_of_mem fun {r s} hr hs hrs => ?_
  obtain ⟨_, last, -, hlast, hr'⟩ := Record.exists_first_last (Record.ofLines?_lines hr)
  obtain ⟨first, _, hfirst, -, hs'⟩ := Record.exists_first_last (Record.ofLines?_lines hs)
  rw [hr', hs']
  exact hrs last (List.mem_of_mem_getLast? hlast) first (List.mem_of_mem_head? hfirst)

theorem Record.WellFormed.within {r : Record} (h : r.WellFormed) :
    ∀ l ∈ r.lines, l.span.Within r.span := by
  intro l hl
  have hfirst := h.first
  have hlast := h.last
  have hord := h.ordered
  constructor
  · obtain ⟨f, rest, hlines⟩ := List.exists_cons_of_ne_nil (List.ne_nil_of_mem hl)
    rw [hlines, List.head?_cons, Option.map_some, Option.some_inj] at hfirst
    rw [hlines, List.pairwise_cons] at hord
    have hf := (h.lines f (by rw [hlines]; exact List.mem_cons_self)).nonempty
    rw [hlines] at hl
    rcases List.mem_cons.mp hl with rfl | hl
    · omega
    · have := hord.1 l hl
      omega
  · obtain ⟨init, e, hlines⟩ := (List.eq_nil_or_concat r.lines).resolve_left (List.ne_nil_of_mem hl)
    rw [List.concat_eq_append] at hlines
    rw [hlines, List.getLast?_concat, Option.map_some, Option.some_inj] at hlast
    rw [hlines, List.pairwise_append] at hord
    have he := (h.lines e (by rw [hlines]; simp)).nonempty
    rw [hlines] at hl
    rcases List.mem_append.mp hl with hl | hl
    · have := hord.2.2 l hl e (by simp)
      omega
    · obtain rfl : l = e := by simpa using hl
      omega

/-- The name of a record is a token of one of its lines, or stands for nothing at its start. -/
theorem Document.exists_name {t : Text} {r : Record} (h : r ∈ (Document.parse t).records) :
    ∃ k, r.nameToken? = some k ∧ ((∃ l ∈ r.lines, k ∈ l.tokens) ∨
      k = .missingAt .name r.span.start.toNat) := by
  rw [Document.records_parse] at h
  have hr := Record.ofLines?_lines h
  obtain ⟨first, last, hf, hl, hspan⟩ := Record.exists_first_last hr
  rw [Record.ofLines?_eq hf hl, Option.some_inj] at hr
  rw [← hr]
  refine ⟨_, rfl, ?_⟩
  cases hfind : r.lines.find? Line.isDirective with
  | none => exact .inr rfl
  | some l =>
    cases hname : l.name? with
    | none => exact .inr (by simp [hname])
    | some k =>
      refine .inl ⟨l, List.mem_of_find?_eq_some hfind, ?_⟩
      simp [Line.tokens, hname]

/-! ## Documents -/

theorem Document.reads_tokens (t : Text) : ∀ k ∈ (Document.parse t).allTokens, k.Reads t := by
  have h := Fills.reads [] [] (Document.fills t)
  simpa using h

theorem Document.exists_token {t : Text} {p : Nat} {b : UInt8} (hb : t[p]? = some b)
    (hi : isInk b) : ∃ k ∈ (Document.parse t).allTokens, k.missing = false ∧ k.span.contains p := by
  have hone := (Document.fills t).countP_eq_one hb hi
  rw [Nat.zero_add] at hone
  obtain ⟨k, hk, hp⟩ := List.countP_pos_iff.mp (hone ▸ Nat.one_pos)
  rw [Bool.and_eq_true, Bool.not_eq_true'] at hp
  exact ⟨k, hk, hp⟩

theorem Document.reads_of_mem_line {t : Text} {l : Line} {k : Token}
    (hl : l ∈ (Document.parse t).lines) (hk : k ∈ l.tokens) : k.Reads t := by
  refine Document.reads_tokens t k ?_
  rw [Document.allTokens_eq]
  exact List.mem_append_right _ (List.mem_flatMap.mpr ⟨l, hl, hk⟩)

theorem Document.reads_name {t : Text} {r : Record} (h : r ∈ (Document.parse t).records) :
    ∃ k, r.nameToken? = some k ∧ k.Reads t := by
  obtain ⟨k, hk, ⟨l, hl, hkl⟩ | rfl⟩ := Document.exists_name h
  · exact ⟨k, hk, Document.reads_of_mem_line (Document.mem_lines h hl) hkl⟩
  · have hbounds := Document.span_of_mem_records h
    refine ⟨_, hk, ?_, ?_, fun hm => absurd hm (by simp [Token.missingAt]), fun _ => ⟨rfl, rfl⟩⟩
    · exact Int.natCast_nonneg _
    · simp only [Token.missingAt, Span.empty]
      omega

theorem Document.span_parse (t : Text) : (Document.parse t).span = ⟨0, t.length⟩ := by
  unfold Document.parse
  split <;> rfl

theorem Node.mem_descendants_document {d : Document} {n : Node}
    (h : n ∈ (Node.document d).descendants) : n = .document d ∨
      ∃ r ∈ d.records, n = .record r ∨ ∃ l ∈ r.lines, n = .line l := by
  simp only [Node.descendants, Node.walk, if_true, List.mem_cons, List.mem_flatMap,
    Node.walkRecord, List.mem_map] at h
  rcases h with rfl | ⟨r, hr, rfl | ⟨l, hl, rfl⟩⟩
  · exact .inl rfl
  · exact .inr ⟨r, hr, .inl rfl⟩
  · exact .inr ⟨r, hr, .inr ⟨l, hl, rfl⟩⟩

theorem Document.proper_nodes (t : Text) :
    ∀ n ∈ (Node.document (Document.parse t)).descendants, n.span.Proper := by
  intro n hn
  refine Span.proper_of_le ?_
  rcases Node.mem_descendants_document hn with rfl | ⟨r, hr, rfl | ⟨l, hl, rfl⟩⟩
  · rw [Node.span, Document.span_parse]
    exact Int.natCast_nonneg _
  · exact Int.le_of_lt (Document.wellFormed_of_mem_records hr).nonempty
  · exact Int.le_of_lt (Document.wellFormed_of_mem_lines (Document.mem_lines hr hl)).nonempty

/-- **Every document that is read from a text is well formed.** -/
theorem Document.wellFormed_parse (t : Text) : (Document.parse t).WellFormed t where
  span := Document.span_parse t
  records := fun r hr => by
    refine ⟨Document.wellFormed_of_mem_records hr, ?_⟩
    obtain ⟨hfirst, -, hlast⟩ := Document.span_of_mem_records hr
    rw [Document.span_parse]
    exact ⟨hfirst, hlast⟩
  ordered := Document.pairwise_records t
  tokens := Document.reads_tokens t
  sorted := (Document.fills t).ordered
  covers := fun _ _ hb hi => Document.exists_token hb hi
  names := fun r hr => by
    obtain ⟨k, hk, hreads⟩ := Document.reads_name hr
    exact ⟨k, hk, hreads, hreads.proper⟩
  nodeSpans := Document.proper_nodes t
  tokenSpans := fun k hk => (Document.reads_tokens t k hk).proper

end RobotsTxt
