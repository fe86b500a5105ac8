import RobotsTxt.Proofs.Document.Grammar
import RobotsTxt.Proofs.Text.Position

/-!
# The edges of tokens

A token of a line begins and ends beside an ASCII byte, or at an end of its physical line. So it
cuts no character in two, also in a text that is no UTF-8, and it does not end after a carriage
return. The same holds of everything else in a document that has a span.

* `Token.Around`: a token in its physical line.
* `Line.Written.around`: every token of a line is there in this way.
* `PhysicalLines.exists_around`: a physical line in its text.
* **`Document.clean_token`**: both ends of a token are clean offsets of the text.
* `Text.CleanSpan`: a span whose ends are clean offsets.
* `Line.Written.exists_edge`: a missing token stands at an edge of one that is there.
* **`Document.cleanSpan_part`**: the records, the lines and the tokens of a document have such
  spans.
-/

namespace RobotsTxt

variable {b : UInt8} {g r t u : Text}

/-! ## ASCII bytes -/

theorem ascii_of_isBlank (h : isBlank b = true) : b < 0x80 := by
  simp only [isBlank, Bool.or_eq_true, beq_iff_eq] at h
  rcases h with ((rfl | rfl) | rfl) | rfl <;> decide

theorem ascii_of_isBreak (h : isBreak b = true) : b < 0x80 := by
  simp only [isBreak, Bool.or_eq_true, beq_iff_eq] at h
  rcases h with rfl | rfl <;> decide

theorem ascii_head_append (hg : g.IsBlank) (hr : ∀ b ∈ r.head?, b < 0x80) :
    ∀ b ∈ (g ++ r).head?, b < 0x80 := by
  intro b hb
  cases g with
  | nil => exact hr b hb
  | cons a g =>
    obtain rfl : a = b := by simpa using hb
    exact ascii_of_isBlank (hg a List.mem_cons_self)

theorem ascii_last_append (hg : g.IsBlank) (hu : ∀ b ∈ u.getLast?, b < 0x80) :
    ∀ b ∈ (u ++ g).getLast?, b < 0x80 := by
  intro b hb
  rcases List.eq_nil_or_concat g with rfl | ⟨init, a, rfl⟩
  · rw [List.append_nil] at hb
    exact hu b hb
  · obtain rfl : a = b := by simpa using hb
    exact ascii_of_isBlank (hg a (by simp))

theorem ascii_last (hg : g.IsBlank) : ∀ b ∈ g.getLast?, b < 0x80 := fun b hb =>
  ascii_of_isBlank (hg b (List.mem_of_mem_getLast? hb))

/-! ## A token in its physical line -/

/-- A token that stands in a physical line, and there is an ASCII byte or an end of the line at each
of its edges, inside or outside. -/
def Token.Around (start : Nat) (content : Text) (k : Token) : Prop :=
  ∃ u w : Text, content = u ++ k.value ++ w ∧ k.value ≠ [] ∧
    k.span = ⟨(start + u.length : Nat), (start + u.length + k.value.length : Nat)⟩ ∧
    ((∀ b ∈ u.getLast?, b < 0x80) ∨ ∀ b ∈ k.value.head?, b < 0x80) ∧
    ((∀ b ∈ k.value.getLast?, b < 0x80) ∨ ∀ b ∈ w.head?, b < 0x80)

theorem Piece.exists_around {kind : TokenKind} {start : Nat} {absent : Option Token} {k : Token}
    (h : Piece kind start absent t (some k)) (habsent : ∀ m ∈ absent, m.missing = true)
    (hk : k.missing = false) :
    ∃ lead trail : Text, t = lead ++ k.value ++ trail ∧ lead.IsBlank ∧ trail.IsBlank ∧
      k.value ≠ [] ∧
      k.span = ⟨(start + lead.length : Nat), (start + lead.length + k.value.length : Nat)⟩ := by
  cases h with
  | blank _ =>
    rw [habsent k rfl] at hk
    exact Bool.noConfusion hk
  | between hl _ hne ht => exact ⟨_, _, rfl, hl, ht, hne, rfl⟩

theorem Line.Written.around {start : Nat} {content : Text} {l : Line}
    (h : l.Written start content) :
    ∀ k ∈ l.tokens, k.missing = false → k.Around start content := by
  intro k hmem hk
  obtain ⟨front, rest, rfl, -, hrest, hfront, -, hcomment⟩ := h.parts
  have hhash : ∀ b ∈ rest.head?, b < 0x80 := fun b hb => hrest b hb ▸ by decide
  rw [Line.tokens, List.reduceOption_mem_iff] at hmem
  simp only [List.mem_cons, List.not_mem_nil, or_false] at hmem
  have hmissing : ∀ (kind : TokenKind) (pos : Nat), some k ≠ some (Token.missingAt kind pos) := by
    intro kind pos e
    rw [Option.some_inj.mp e] at hk
    exact Bool.noConfusion hk
  rcases hmem with hname | hdelimiter | hvalue | hlast
  · cases hfront with
    | blank _ _ name => exact absurd (hname.trans name) (by simp)
    | @bare lead n trail hl _ hne ht _ _ name =>
      obtain rfl := Option.some_inj.mp (hname.trans name)
      exact ⟨lead, trail ++ rest, by simp [Token.at], hne, rfl,
        .inl (ascii_last hl), .inr (ascii_head_append ht hhash)⟩
    | @pair before after _ _ name =>
      rw [← hname] at name
      obtain ⟨lead, trail, rfl, hl, ht, hne, hspan⟩ := name.exists_around
        (by rintro m ⟨⟩; rfl) hk
      exact ⟨lead, trail ++ (0x3A :: after ++ rest), by simp, hne, hspan,
        .inl (ascii_last hl), .inr (ascii_head_append ht (by simp))⟩
  · cases hfront with
    | blank _ _ _ delimiter => exact absurd (hdelimiter.trans delimiter) (by simp)
    | bare _ _ _ _ _ _ _ delimiter => exact absurd (hdelimiter.trans delimiter) (hmissing _ _)
    | @pair before after _ _ _ delimiter =>
      obtain rfl := Option.some_inj.mp (hdelimiter.trans delimiter)
      exact ⟨before, after ++ rest, by simp [Token.at], by simp [Token.at], rfl,
        .inr (by simp [Token.at]), .inl (by simp [Token.at])⟩
  · cases hfront with
    | blank _ _ _ _ value => exact absurd (hvalue.trans value) (by simp)
    | bare _ _ _ _ _ _ _ _ value => exact absurd (hvalue.trans value) (hmissing _ _)
    | @pair before after _ _ _ _ value =>
      rw [← hvalue] at value
      obtain ⟨lead, trail, rfl, hl, ht, hne, hspan⟩ := value.exists_around (by simp) hk
      refine ⟨before ++ [0x3A] ++ lead, trail ++ rest, by simp, hne, ?_,
        .inl (ascii_last_append hl (by simp)), .inr (ascii_head_append ht hhash)⟩
      rw [hspan]
      simp only [List.length_append, List.length_singleton, Span.mk.injEq]
      omega
  · rw [← hlast] at hcomment
    obtain ⟨lead, trail, rfl, hl, ht, hne, hspan⟩ := hcomment.exists_around (by simp) hk
    refine ⟨front ++ lead, trail, by simp, hne, ?_, ?_, .inr ?_⟩
    · rw [hspan]
      simp only [List.length_append, Span.mk.injEq]
      omega
    · rcases List.eq_nil_or_concat lead with rfl | ⟨init, a, rfl⟩
      · exact .inr fun b hb => hhash b (by simpa [List.head?_append_of_ne_nil _ hne] using hb)
      · refine .inl fun b hb => ?_
        obtain rfl : a = b := by simpa using hb
        exact ascii_of_isBlank (hl a (by simp))
    · simpa using ascii_head_append (r := []) ht (by simp)

/-! ## A physical line in its text -/

theorem PhysicalLines.exists_around {start : Nat} {ls : List RawLine} (h : PhysicalLines t ls) :
    ∀ r ∈ rows start ls, (∀ b ∈ r.content, isBreak b = false) ∧
      ∃ pre post : Text, t = pre ++ r.content ++ post ∧ start + pre.length = r.start ∧
        (∀ b ∈ pre.getLast?, isBreak b = true) ∧ ∀ b ∈ post.head?, isBreak b = true := by
  induction h generalizing start with
  | @last c hc =>
    intro r hr
    obtain rfl : r = ⟨start, c⟩ := by simpa [rows] using hr
    exact ⟨hc, [], [], by simp, rfl, by simp, by simp⟩
  | @line c e t ls hc he _ _ ih =>
    have hbreak : ∀ b ∈ e, isBreak b = true := by
      rcases he with rfl | rfl | rfl <;> simp [isBreak]
    intro r hr
    rcases List.mem_cons.mp hr with rfl | hr
    · refine ⟨hc, [], e ++ t, by simp, rfl, by simp, fun b hb => hbreak b ?_⟩
      rw [List.head?_append_of_ne_nil _ he.ne_nil] at hb
      exact List.mem_of_mem_head? hb
    · obtain ⟨hcontent, pre, post, rfl, hstart, hpre, hpost⟩ := ih r hr
      refine ⟨hcontent, c ++ e ++ pre, post, by simp, ?_, fun b hb => ?_, hpost⟩
      · rw [← hstart]
        simp only [List.length_append, Nat.add_assoc]
      · by_cases hne : pre = []
        · rw [hne, List.append_nil, List.getLast?_append_of_ne_nil _ he.ne_nil] at hb
          exact hbreak b (List.mem_of_mem_getLast? hb)
        · rw [List.getLast?_append_of_ne_nil _ hne] at hb
          exact hpre b hb

/-! ## Tokens of a document -/

theorem Text.clean_cut {s w : Text} (hs : Text.Seam s w) (hr : Text.endsInReturn s w = false) :
    Text.Clean (s ++ w) s.length := by
  constructor
  · rwa [Text.SeamAt, List.take_left, List.drop_left]
  · rw [Text.ReturnAt, List.take_left, List.drop_left, hr]
    exact Bool.false_ne_true

theorem Text.clean_front {s v w : Text} (hs : Text.Seam s (v ++ w)) (hne : v ≠ [])
    (hv : ∀ b ∈ v, isBreak b = false) : Text.Clean (s ++ (v ++ w)) s.length := by
  refine Text.clean_cut hs ?_
  obtain ⟨a, v, rfl⟩ := List.exists_cons_of_ne_nil hne
  have ha : a ≠ 0x0A := fun e => absurd (hv a List.mem_cons_self) (by simp [e, isBreak])
  simp [Text.endsInReturn, ha]

theorem Text.clean_back {s v w : Text} (hs : Text.Seam (s ++ v) w) (hne : v ≠ [])
    (hv : ∀ b ∈ v, isBreak b = false) : Text.Clean (s ++ v ++ w) (s ++ v).length := by
  refine Text.clean_cut hs ?_
  have ha : (s ++ v).getLast? ≠ some 0x0D := fun e => by
    rw [List.getLast?_append_of_ne_nil _ hne] at e
    exact absurd (hv _ (List.mem_of_mem_getLast? e)) (by simp [isBreak])
  rw [Text.endsInReturn, beq_eq_false_iff_ne.mpr ha, Bool.false_and]

theorem Document.exists_row {l : Line} (h : l ∈ (Document.parse t).lines) :
    ∃ r ∈ rows t.mark.length (splitLines t.body), l.Written r.start r.content := by
  rw [Document.lines_parse, readLines_eq_map, List.reduceOption_mem_iff, List.mem_map] at h
  obtain ⟨r, hr, hl⟩ := h
  exact ⟨r, hr, Line.written_iff.mpr hl⟩

/-- In front of a token there is an ASCII byte, the byte order mark or nothing. -/
theorem seam_front {pre v w : Text} (hpre : ∀ b ∈ pre.getLast?, isBreak b = true) (hne : v ≠ [])
    (h : (∀ b ∈ u.getLast?, b < 0x80) ∨ ∀ b ∈ v.head?, b < 0x80) :
    Text.Seam (t.mark ++ pre ++ u) (v ++ w) := by
  rcases h with hu | hv
  · by_cases hu' : u = []
    · by_cases hpre' : pre = []
      · subst hu' hpre'
        rw [List.append_nil, List.append_nil]
        rcases t.mark_eq_or with hm | hm
        · exact hm ▸ Text.seam_mark _
        · exact hm ▸ Text.seam_nil_left _
      · refine Text.seam_of_last fun b hb => ascii_of_isBreak (hpre b ?_)
        rwa [hu', List.append_nil, List.getLast?_append_of_ne_nil _ hpre'] at hb
    · refine Text.seam_of_last fun b hb => hu b ?_
      rwa [List.getLast?_append_of_ne_nil _ hu'] at hb
  · refine Text.seam_of_ascii (.inr fun b hb => hv b ?_)
    rwa [List.head?_append_of_ne_nil _ hne] at hb

/-- Behind a token there is an ASCII byte or nothing, or it ends with one. -/
theorem seam_back {post v w : Text} (hpost : ∀ b ∈ post.head?, isBreak b = true) (hne : v ≠ [])
    (h : (∀ b ∈ v.getLast?, b < 0x80) ∨ ∀ b ∈ w.head?, b < 0x80) :
    Text.Seam (u ++ v) (w ++ post) := by
  rcases h with hv | hw
  · refine Text.seam_of_last fun b hb => hv b ?_
    rwa [List.getLast?_append_of_ne_nil _ hne] at hb
  · refine Text.seam_of_ascii (.inr fun b hb => ?_)
    cases w with
    | nil => exact ascii_of_isBreak (hpost b hb)
    | cons a w => exact hw b hb

/-- **A span of a text whose ends are clean offsets.** -/
structure Text.CleanSpan (t : Text) (s : Span) : Prop where
  first : 0 ≤ s.start
  proper : s.start ≤ s.stop
  last : s.stop ≤ t.length
  clean_start : t.Clean s.start.toNat
  clean_stop : t.Clean s.stop.toNat

/-- A stretch of a physical line, with an ASCII byte or an end of the line at each of its edges,
inside or outside. -/
theorem Document.cleanSpan_stretch {r : Row} {v w : Text}
    (hr : r ∈ rows t.mark.length (splitLines t.body)) (hc : r.content = u ++ v ++ w) (hne : v ≠ [])
    (hfirst : (∀ b ∈ u.getLast?, b < 0x80) ∨ ∀ b ∈ v.head?, b < 0x80)
    (hlast : (∀ b ∈ v.getLast?, b < 0x80) ∨ ∀ b ∈ w.head?, b < 0x80) :
    t.CleanSpan ⟨(r.start + u.length : Nat), (r.start + u.length + v.length : Nat)⟩ := by
  obtain ⟨hbreak, pre, post, hbody, hstart, hpre, hpost⟩ :=
    (physicalLines_splitLines t.body).exists_around r hr
  have hvalue : ∀ b ∈ v, isBreak b = false := fun b hb => hbreak b (by simp [hc, hb])
  have htext : t = (t.mark ++ pre ++ u) ++ (v ++ (w ++ post)) := by
    conv_lhs => rw [← t.mark_append_body, hbody, hc]
    simp
  have hstart' : r.start + u.length = (t.mark ++ pre ++ u).length := by
    simp only [List.length_append]
    omega
  have hstop' : r.start + u.length + v.length = (t.mark ++ pre ++ u ++ v).length := by
    simp only [List.length_append] at hstart' ⊢
    omega
  have hfront := Text.clean_front (seam_front (t := t) (w := w ++ post) hpre hne hfirst) hne hvalue
  have hback := Text.clean_back (seam_back (u := t.mark ++ pre ++ u) hpost hne hlast) hne hvalue
  have hlen := congrArg List.length htext
  rw [List.append_assoc _ v, ← htext, ← hstop'] at hback
  rw [← htext, ← hstart'] at hfront
  rw [← List.append_assoc, List.length_append, ← hstop'] at hlen
  exact ⟨by simp only; omega, by simp only; omega, by simp only; omega, hfront, hback⟩

theorem Document.cleanSpan_present {l : Line} {k : Token} (hl : l ∈ (Document.parse t).lines)
    (hk : k ∈ l.tokens) (hm : k.missing = false) : t.CleanSpan k.span := by
  obtain ⟨r, hr, hw⟩ := Document.exists_row hl
  obtain ⟨u, w, hc, hne, hspan, hfirst, hlast⟩ := hw.around k hk hm
  rw [hspan]
  exact Document.cleanSpan_stretch hr hc hne hfirst hlast

/-- **Both ends of a token are clean offsets.** -/
theorem Document.clean_token {l : Line} {k : Token} (hl : l ∈ (Document.parse t).lines)
    (hk : k ∈ l.tokens) (hm : k.missing = false) :
    t.Clean k.span.start.toNat ∧ t.Clean k.span.stop.toNat :=
  have h := Document.cleanSpan_present hl hk hm
  ⟨h.clean_start, h.clean_stop⟩

/-! ## Missing tokens -/

theorem Text.CleanSpan.empty_start {s : Span} (h : t.CleanSpan s) : t.CleanSpan (.empty s.start) :=
  ⟨h.first, Int.le_refl _, Int.le_trans h.proper h.last, h.clean_start, h.clean_start⟩

theorem Text.CleanSpan.empty_stop {s : Span} (h : t.CleanSpan s) : t.CleanSpan (.empty s.stop) :=
  ⟨Int.le_trans h.first h.proper, Int.le_refl _, h.last, h.clean_stop, h.clean_stop⟩

theorem Piece.eq_absent {kind : TokenKind} {start : Nat} {absent : Option Token} {k : Token}
    (h : Piece kind start absent t (some k)) (hk : k.missing = true) : absent = some k := by
  cases h with
  | blank _ => rfl
  | between _ _ _ _ => exact Bool.noConfusion hk

/-- **A missing token stands at an edge of one that is there.** -/
theorem Line.Written.exists_edge {start : Nat} {content : Text} {l : Line}
    (h : l.Written start content) {k : Token} (hmem : k ∈ l.tokens) (hk : k.missing = true) :
    ∃ m ∈ l.tokens, m.missing = false ∧
      (k.span = .empty m.span.start ∨ k.span = .empty m.span.stop) := by
  obtain ⟨front, rest, rfl, -, -, hfront, -, hcomment⟩ := h.parts
  rw [Line.tokens, List.reduceOption_mem_iff] at hmem
  simp only [List.mem_cons, List.not_mem_nil, or_false] at hmem
  have hpresent : ∀ (kind : TokenKind) (pos : Nat) (value : Text),
      some k ≠ some (Token.at kind pos value) := by
    intro kind pos value e
    rw [Option.some_inj.mp e] at hk
    exact Bool.noConfusion hk
  have hlast : some k ≠ l.comment? := by
    intro hlast
    rw [← hlast] at hcomment
    exact absurd (hcomment.eq_absent hk) (by simp)
  cases hfront with
  | blank _ _ name delimiter value =>
    rw [name, delimiter, value] at hmem
    simp [hlast] at hmem
  | @bare lead n trail _ _ _ _ _ _ name delimiter value =>
    have hedge : k.span = .empty ((start + lead.length + n.length : Nat) : Int) := by
      rcases hmem with hname | hdelimiter | hvalue | hcomment
      · exact absurd (hname.trans name) (hpresent _ _ _)
      · rw [Option.some_inj.mp (hdelimiter.trans delimiter)]
        rfl
      · rw [Option.some_inj.mp (hvalue.trans value)]
        rfl
      · exact absurd hcomment hlast
    refine ⟨.at .name (start + lead.length) n, ?_, rfl, .inr (hedge.trans (by simp [Token.at]))⟩
    rw [Line.tokens, List.reduceOption_mem_iff, name]
    exact List.mem_cons_self
  | @pair before after _ _ name delimiter value =>
    have hedge : k.span = .empty ((start + before.length : Nat) : Int) := by
      rcases hmem with hname | hdelimiter | hvalue | hcomment
      · rw [← hname] at name
        rw [← Option.some_inj.mp (name.eq_absent hk)]
        rfl
      · exact absurd (hdelimiter.trans delimiter) (hpresent _ _ _)
      · rw [← hvalue] at value
        exact absurd (value.eq_absent hk) (by simp)
      · exact absurd hcomment hlast
    refine ⟨.at .delimiter (start + before.length) [0x3A], ?_, rfl, .inl hedge⟩
    rw [Line.tokens, List.reduceOption_mem_iff, delimiter]
    simp

/-! ## Everything that has a span -/

namespace Document

variable {l : Line} {r : Record} {k : Token}

theorem cleanSpan_token (hl : l ∈ (parse t).lines) (hk : k ∈ l.tokens) : t.CleanSpan k.span := by
  cases hmissing : k.missing with
  | false => exact cleanSpan_present hl hk hmissing
  | true =>
    obtain ⟨r, -, hw⟩ := exists_row hl
    obtain ⟨m, hm, hpresent, hspan⟩ := hw.exists_edge hk hmissing
    have hclean := cleanSpan_present hl hm hpresent
    rcases hspan with hspan | hspan
    · exact hspan ▸ hclean.empty_start
    · exact hspan ▸ hclean.empty_stop

theorem cleanSpan_line (hl : l ∈ (parse t).lines) : t.CleanSpan l.span := by
  obtain ⟨r, hr, hw⟩ := exists_row hl
  obtain ⟨lead, v, trail, hc, hlead, htrail, -, hne, hspan⟩ := hw.span
  have hlast := ascii_head_append (r := []) htrail (by simp)
  rw [List.append_nil] at hlast
  rw [hspan]
  exact cleanSpan_stretch hr hc hne (.inl (ascii_last hlead)) (.inr hlast)

theorem cleanSpan_record (hr : r ∈ (parse t).records) : t.CleanSpan r.span := by
  have hline : ∀ l ∈ r.lines, t.CleanSpan l.span := fun l hl => cleanSpan_line (mem_lines hr hl)
  obtain ⟨hfirst, hproper, hlast⟩ := span_of_mem_records hr
  have hlines := hr
  rw [records_parse] at hlines
  obtain ⟨first, last, hf, hl, hspan⟩ := Record.exists_first_last (Record.ofLines?_lines hlines)
  refine ⟨by omega, by omega, hlast, ?_, ?_⟩
  · rw [hspan]
    exact (hline first (List.mem_of_mem_head? hf)).clean_start
  · rw [hspan]
    exact (hline last (List.mem_of_mem_getLast? hl)).clean_stop

theorem cleanSpan_name (hr : r ∈ (parse t).records) (hk : r.nameToken? = some k) :
    t.CleanSpan k.span := by
  obtain ⟨m, hm, hname⟩ := exists_name hr
  obtain rfl := Option.some_inj.mp (hk.symm.trans hm)
  have hrecord := cleanSpan_record hr
  rcases hname with ⟨l, hl, hkl⟩ | rfl
  · exact cleanSpan_token (mem_lines hr hl) hkl
  · have hstart : ((r.span.start.toNat : Nat) : Int) = r.span.start :=
      Int.toNat_of_nonneg hrecord.first
    rw [Token.missingAt, hstart]
    exact hrecord.empty_start

theorem cleanSpan_leading (hk : k ∈ (parse t).leading) : t.CleanSpan k.span := by
  rw [leading_parse] at hk
  rcases t.mark_eq_or with hm | hm
  · rw [hm] at hk
    obtain rfl := List.mem_singleton.mp hk
    have htext : byteOrderMark ++ t.body = t := by rw [← hm, t.mark_append_body]
    have hfront : t.Clean 0 := htext ▸
      Text.clean_front (Text.seam_nil_left (byteOrderMark ++ t.body)) (by decide)
        noBreak_byteOrderMark
    have hback : t.Clean 3 := htext ▸
      Text.clean_back (s := []) (v := byteOrderMark) (Text.seam_mark t.body) (by decide)
        noBreak_byteOrderMark
    have hlen : byteOrderMark.length ≤ t.length := by
      rw [← htext, List.length_append]
      exact Nat.le_add_right _ _
    exact ⟨Int.le_refl 0, by decide, by simpa [Token.at] using hlen, hfront, hback⟩
  · rw [hm] at hk
    cases hk

/-- The span of a part of a document: a record or its name, a line, or a token. -/
inductive Part (d : Document) : Span → Prop
  | record {r : Record} (hr : r ∈ d.records) : d.Part r.span
  | name {r : Record} {k : Token} (hr : r ∈ d.records) (hk : r.nameToken? = some k) : d.Part k.span
  | line {l : Line} (hl : l ∈ d.lines) : d.Part l.span
  | token {k : Token} (hk : k ∈ d.allTokens) : d.Part k.span

/-- **The span of every part of a document is clean.** -/
theorem cleanSpan_part {s : Span} (h : (parse t).Part s) : t.CleanSpan s := by
  cases h with
  | record hr => exact cleanSpan_record hr
  | name hr hk => exact cleanSpan_name hr hk
  | line hl => exact cleanSpan_line hl
  | token hk =>
    rw [allTokens_eq] at hk
    rcases List.mem_append.mp hk with hk | hk
    · exact cleanSpan_leading hk
    · obtain ⟨l, hl, hk⟩ := List.mem_flatMap.mp hk
      exact cleanSpan_token hl hk

end Document

end RobotsTxt
