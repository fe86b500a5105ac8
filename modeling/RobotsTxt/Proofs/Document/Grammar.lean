import RobotsTxt.Proofs.Canonical.Line
import RobotsTxt.Proofs.Document.WellFormed

/-!
# The grammar of documents as a relation

What a document should be is said here without reading: how a text falls into physical lines, which
line node a physical line stands for, and where one record ends. Reading a text gives exactly that.

* `PhysicalLines`: the physical lines of a text; **`physicalLines_iff`**: there is one way to cut
  it.
* `Piece`, `Line.Front`, `Line.Written`: the line node of a physical line, piece by piece.
* **`Line.written_iff`**: it is the one that is read, and `Line.Written.shift` where the line moves.
* `Row`: a physical line where it stands; `rows`: those of a text.
* **`Document.parse_grammar`**: the line nodes are those of the rows that are not blank, and only a
  blank row separates two records.
-/

namespace RobotsTxt

/-! ## Physical lines -/

/-- **The physical lines of a text.** Every line but the last one ends with a break, and a carriage
return is a break of its own only if no line feed follows it. -/
inductive PhysicalLines : Text → List RawLine → Prop
  | last {c : Text} (hc : ∀ b ∈ c, isBreak b = false) : PhysicalLines c [⟨c, []⟩]
  | line {c e t : Text} {ls : List RawLine} (hc : ∀ b ∈ c, isBreak b = false) (he : IsEnding e)
      (hs : ¬ Straddles e t) (h : PhysicalLines t ls) : PhysicalLines (c ++ e ++ t) (⟨c, e⟩ :: ls)

theorem physicalLines_splitLines (t : Text) : PhysicalLines t (splitLines t) := by
  generalize h : splitLines t = ls
  induction ls generalizing t with
  | nil => exact absurd h (splitLines_ne_nil t)
  | cons l ls ih =>
    have hl : ∀ b ∈ l.content, isBreak b = false :=
      noBreak_of_mem_splitLines (t := t) (by rw [h]; exact List.mem_cons_self)
    by_cases hne : ls = []
    · subst hne
      obtain ⟨init, c, hlast⟩ := exists_concat_splitLines t
      have hc : l = ⟨c, []⟩ := by
        have := congrArg List.getLast? (h.symm.trans hlast)
        simpa using this
      have ht : t = c := by
        rw [← joinLines_splitLines t, h, hc]
        simp
      subst hc ht
      exact .last hl
    · obtain ⟨s, rfl, hs, he, hstr⟩ := exists_line h hne
      exact .line hl he hstr (ih s hs)

/-- **A text is cut into physical lines in one way.** -/
theorem physicalLines_iff {t : Text} {ls : List RawLine} :
    PhysicalLines t ls ↔ ls = splitLines t := by
  refine ⟨fun h => ?_, fun h => h ▸ physicalLines_splitLines t⟩
  induction h with
  | last hc => exact (splitLines_of_noBreak hc).symm
  | line hc he hs _ ih => rw [splitLines_line hc he hs, ih]

/-! ## The pieces of a line -/

/-- The token of what stands in a part of a line between blanks. If there is nothing, `absent` takes
its place. -/
inductive Piece (kind : TokenKind) (start : Nat) (absent : Option Token) :
    Text → Option Token → Prop
  | blank {t : Text} (ht : t.IsBlank) : Piece kind start absent t absent
  | between {lead v trail : Text} (hl : lead.IsBlank) (hv : v.Trimmed) (hne : v ≠ [])
      (ht : trail.IsBlank) :
      Piece kind start absent (lead ++ v ++ trail) (some (.at kind (start + lead.length) v))

/-- What the part of a line in front of its first `#` says about the line node: nothing, a name
alone, or a name and a value on the two sides of the first `:`. -/
inductive Line.Front (start : Nat) (l : Line) : Text → Prop
  | blank {t : Text} (ht : t.IsBlank) (kind : l.kind = .commentLine) (name : l.name? = none)
      (delimiter : l.delimiter? = none) (value : l.value? = none) : Front start l t
  | bare {lead n trail : Text} (hl : lead.IsBlank) (hn : n.Trimmed) (hne : n ≠ [])
      (ht : trail.IsBlank) (hc : 0x3A ∉ n) (kind : l.kind = Directive.kindOf n)
      (name : l.name? = some (.at .name (start + lead.length) n))
      (delimiter : l.delimiter? = some (.missingAt .delimiter (start + lead.length + n.length)))
      (value : l.value? = some (.missingAt .value (start + lead.length + n.length))) :
      Front start l (lead ++ n ++ trail)
  | pair {before after : Text} (hc : 0x3A ∉ before)
      (kind : ∀ n ∈ l.name?, l.kind = if n.missing then .extension else Directive.kindOf n.value)
      (name : Piece .name start (some (.missingAt .name (start + before.length))) before l.name?)
      (delimiter : l.delimiter? = some (.at .delimiter (start + before.length) [0x3A]))
      (value : Piece .value (start + before.length + 1) none after l.value?) :
      Front start l (before ++ 0x3A :: after)

/-- **The line node of a physical line** that stands at `start`. It reaches from the first byte that
is not blank to the last one. Its comment is what follows the first `#`, and it is the node of a
comment alone exactly if the part in front of that is blank. -/
structure Line.Written (start : Nat) (content : Text) (l : Line) : Prop where
  span : ∃ lead v trail : Text, content = lead ++ v ++ trail ∧ lead.IsBlank ∧ trail.IsBlank ∧
    v.Trimmed ∧ v ≠ [] ∧
    l.span = ⟨(start + lead.length : Nat), (start + lead.length + v.length : Nat)⟩
  parts : ∃ front rest : Text, content = front ++ rest ∧ 0x23 ∉ front ∧
    (∀ b ∈ rest.head?, b = 0x23) ∧ l.Front start front ∧
    (l.kind = .commentLine ↔ front.IsBlank) ∧
    Piece .comment (start + front.length) none rest l.comment?

/-! ## One node for each line -/

namespace Text

variable {lead lead' v v' trail trail' : Text}

theorem not_isBlank_between (hv : v.Trimmed) (hne : v ≠ []) : ¬ IsBlank (lead ++ v ++ trail) := by
  obtain ⟨b, v, rfl⟩ := List.exists_cons_of_ne_nil hne
  intro h
  exact not_isBlank_of_head (hv.first b rfl) (isBlank_append.mp (isBlank_append.mp h).1).2

theorem between_unique (h : lead ++ v ++ trail = lead' ++ v' ++ trail') (hl : lead.IsBlank)
    (hl' : lead'.IsBlank) (hv : v.Trimmed) (hv' : v'.Trimmed) (hne : v ≠ []) (hne' : v' ≠ [])
    (ht : trail.IsBlank) (ht' : trail'.IsBlank) : lead = lead' ∧ v = v' := by
  have hlead : ∀ {l w r : Text}, l.IsBlank → w.Trimmed → w ≠ [] →
      (l ++ w ++ r).takeWhile isBlank = l := fun {l w r} hl hw hne => by
    rw [List.append_assoc]
    refine takeWhile_pad hl fun b hb => hw.first b ?_
    rwa [List.head?_append_of_ne_nil _ hne] at hb
  constructor
  · rw [← hlead hl hv hne, h, hlead hl' hv' hne']
  · rw [← trimBlanks_pad hl ht hv, h, trimBlanks_pad hl' ht' hv']

end Text

theorem Piece.unique {kind : TokenKind} {start : Nat} {absent x y : Option Token} {t : Text}
    (hx : Piece kind start absent t x) (hy : Piece kind start absent t y) : x = y := by
  generalize ht : t = u at hy
  cases hx with
  | blank hb =>
    cases hy with
    | blank _ => rfl
    | between _ hv hne _ => exact absurd (ht ▸ hb) (Text.not_isBlank_between hv hne)
  | between hl hv hne htrail =>
    cases hy with
    | blank hb => exact absurd (ht ▸ hb) (Text.not_isBlank_between hv hne)
    | between hl' hv' hne' htrail' =>
      obtain ⟨rfl, rfl⟩ := Text.between_unique ht hl hl' hv hv' hne hne' htrail htrail'
      rfl

theorem Text.notMem_between {b : UInt8} (hb : isBlank b = false) {lead v trail : Text}
    (hl : lead.IsBlank) (ht : trail.IsBlank) (hv : b ∉ v) : b ∉ lead ++ v ++ trail := by
  simp [hl.notMem hb, ht.notMem hb, hv]

/-- The part in front of the first `#` settles everything but the comment. -/
theorem Line.Front.unique {start : Nat} {l m : Line} {t : Text} (hl : l.Front start t)
    (hm : m.Front start t) : l.kind = m.kind ∧ l.name? = m.name? ∧
      l.delimiter? = m.delimiter? ∧ l.value? = m.value? := by
  have hcolon : ∀ before after : Text, ¬ Text.IsBlank (before ++ 0x3A :: after) := by
    intro before after h
    exact absurd (h 0x3A (by simp)) (by decide)
  have hbare : ∀ {lead n trail before after : Text}, lead.IsBlank → trail.IsBlank → 0x3A ∉ n →
      lead ++ n ++ trail ≠ before ++ 0x3A :: after := by
    intro lead n trail before after hlead htrail hc h
    exact absurd (h ▸ by simp) (Text.notMem_between (by decide) hlead htrail hc)
  generalize ht : t = u at hm
  cases hl with
  | blank hb kind name delimiter value =>
    cases hm with
    | blank _ kind' name' delimiter' value' =>
      exact ⟨kind.trans kind'.symm, name.trans name'.symm, delimiter.trans delimiter'.symm,
        value.trans value'.symm⟩
    | bare _ hn hne _ => exact absurd (ht ▸ hb) (Text.not_isBlank_between hn hne)
    | pair => exact absurd (ht ▸ hb) (hcolon _ _)
  | bare hlead hn hne htrail hc kind name delimiter value =>
    cases hm with
    | blank hb => exact absurd (ht ▸ hb) (Text.not_isBlank_between hn hne)
    | bare hlead' hn' hne' htrail' _ kind' name' delimiter' value' =>
      obtain ⟨rfl, rfl⟩ := Text.between_unique ht hlead hlead' hn hn' hne hne' htrail htrail'
      exact ⟨kind.trans kind'.symm, name.trans name'.symm, delimiter.trans delimiter'.symm,
        value.trans value'.symm⟩
    | pair => exact absurd ht (hbare hlead htrail hc)
  | pair hc kind name delimiter value =>
    cases hm with
    | blank hb => exact absurd (ht ▸ hb) (hcolon _ _)
    | bare hlead' _ _ htrail' hc' => exact absurd ht.symm (hbare hlead' htrail' hc')
    | pair hc' kind' name' delimiter' value' =>
      have hcut := (Text.cut_append hc).symm.trans (ht ▸ Text.cut_append hc')
      obtain ⟨rfl, rfl⟩ := by simpa using hcut
      have hname := name.unique name'
      refine ⟨?_, hname, delimiter.trans delimiter'.symm, value.unique value'⟩
      cases hn : l.name? with
      | none =>
        rw [hn] at name
        cases name
      | some n => rw [kind n hn, kind' n (hname ▸ hn)]

/-- **A physical line stands for one line node.** -/
theorem Line.Written.unique {start : Nat} {content : Text} {l m : Line}
    (hl : l.Written start content) (hm : m.Written start content) : l = m := by
  obtain ⟨lead, v, trail, hv, hlead, htrail, htrim, hne, hspan⟩ := hl.span
  obtain ⟨lead', v', trail', hv', hlead', htrail', htrim', hne', hspan'⟩ := hm.span
  obtain ⟨rfl, rfl⟩ := Text.between_unique (hv.symm.trans hv') hlead hlead' htrim htrim' hne hne'
    htrail htrail'
  obtain ⟨front, rest, hcut, hf, hr, hfront, -, hcomment⟩ := hl.parts
  obtain ⟨front', rest', hcut', hf', hr', hfront', -, hcomment'⟩ := hm.parts
  have hhash := (Text.span_hash hf hr).symm.trans
    ((hcut.symm.trans hcut') ▸ Text.span_hash hf' hr')
  obtain ⟨rfl, rfl⟩ := Prod.mk.inj hhash
  obtain ⟨hkind, hname, hdelimiter, hvalue⟩ := hfront.unique hfront'
  have hspans := hspan.trans hspan'.symm
  have hcomments := hcomment.unique hcomment'
  cases l
  cases m
  simp_all

/-! ## The node that is read -/

theorem Piece.optional (kind : TokenKind) (start : Nat) {lead v trail : Text} (hl : lead.IsBlank)
    (hv : v.Trimmed) (ht : trail.IsBlank) :
    Piece kind start none (lead ++ v ++ trail) (Token.optional kind (start + lead.length) v) := by
  cases v with
  | nil => exact .blank (by simpa using Text.isBlank_append.mpr ⟨hl, ht⟩)
  | cons b v => exact .between hl hv (List.cons_ne_nil b v) ht

theorem Piece.optional_start (kind : TokenKind) (start : Nat) {v trail : Text} (hv : v.Trimmed)
    (ht : trail.IsBlank) : Piece kind start none (v ++ trail) (Token.optional kind start v) := by
  have h := Piece.optional kind start Text.isBlank_nil hv ht
  exact h

theorem Piece.required {start : Nat} {lead n trail : Text} (hl : lead.IsBlank) (hn : n.Trimmed)
    (ht : trail.IsBlank) (hne : n = [] → trail = []) :
    Piece .name start (some (.missingAt .name (start + (lead ++ n ++ trail).length)))
      (lead ++ n ++ trail) (some (Token.required (start + lead.length) n)) := by
  cases n with
  | nil =>
    obtain rfl := hne rfl
    rw [List.append_nil, List.append_nil]
    exact .blank hl
  | cons b n => exact .between hl hn (List.cons_ne_nil b n) ht

theorem Line.kind_ofTokens (start : Nat) (name delimiter : Token) (value? comment? : Option Token) :
    ∀ n ∈ (Line.ofTokens start name delimiter value? comment?).name?,
      (Line.ofTokens start name delimiter value? comment?).kind =
        if n.missing then .extension else Directive.kindOf n.value := by
  rintro n ⟨⟩
  rfl

theorem Head.front_line (start : Nat) {h : Head} {lead gap : Text} (comment? : Option Token)
    (hv : h.Valid) (hl : lead.IsBlank) (hg : gap.IsBlank) :
    (h.line (start + lead.length) comment?).Front start (lead ++ h.text ++ gap) := by
  cases h with
  | bare n => exact .bare hl hv.1.trimmed hv.2 hg hv.1.noColon rfl rfl rfl rfl
  | pair n gap₁ gap₂ v =>
    obtain ⟨hn, ⟨h₁, hgap⟩, ⟨h₂, -⟩, htrim, -⟩ := hv
    have htext : lead ++ (Head.pair n gap₁ gap₂ v).text ++ gap =
        (lead ++ n ++ gap₁) ++ 0x3A :: (gap₂ ++ v ++ gap) := by simp [Head.text]
    have hcolon : start + lead.length + (n ++ gap₁).length =
        start + (lead ++ n ++ gap₁).length := by
      simp only [List.length_append]
      omega
    rw [htext]
    refine .pair (Text.notMem_between (by decide) hl h₁ hn.noColon)
      (Line.kind_ofTokens _ _ _ _ _) (Piece.required hl hn.trimmed h₁ hgap) ?_ ?_
    · rw [← hcolon]
      rfl
    · rw [← hcolon]
      exact Piece.optional _ _ h₂ htrim hg

theorem Layout.comment?_line (start : Nat) (head : Head) (gap c : Text) :
    ((directive head gap c).line start).comment? =
      Token.optional .comment (start + (head.text ++ gap).length) c := by
  cases head <;> rfl

theorem Layout.written_line (start : Nat) {l : Layout} {lead trail : Text} (hv : l.Valid)
    (hl : lead.IsBlank) (ht : trail.IsBlank) :
    (l.line (start + lead.length)).Written start (lead ++ l.text ++ trail) := by
  refine ⟨⟨lead, l.text, trail, rfl, hl, ht, trimmed_text hv, text_ne_nil hv, ?_⟩, ?_⟩
  · rw [span_line _ hv]
    simp
  · cases l with
    | comment c =>
      have hc : IsComment c := hv
      refine ⟨lead, c ++ trail, by simp [text], hl.notMem (by decide), ?_,
        .blank hl rfl rfl rfl rfl, iff_of_true rfl hl, ?_⟩
      · simp [List.head?_append_of_ne_nil _ hc.ne_nil, hc.first]
      · obtain ⟨b, c, rfl⟩ := List.exists_cons_of_ne_nil hc.ne_nil
        exact Piece.optional_start _ _ ⟨hc.blank_first, hc.last⟩ ht
    | directive head gap c =>
      obtain ⟨hh, hg, hc⟩ := hv
      have hkind : ((directive head gap c).line (start + lead.length)).kind ≠ .commentLine :=
        bne_iff_ne.mp (isDirective_line _ head gap c)
      have hfront : ∀ g : Text, ¬ Text.IsBlank (lead ++ head.text ++ g) := fun g =>
        Text.not_isBlank_between ⟨Head.first_text hh, Head.last_text hh⟩ (Head.text_ne_nil hh)
      have hhash : ∀ g : Text, g.IsBlank → 0x23 ∉ lead ++ head.text ++ g := fun g hg =>
        Text.notMem_between (by decide) hl hg (Head.noHash_text hh)
      rcases hc with ⟨rfl, rfl⟩ | hc
      · refine ⟨lead ++ head.text ++ trail, [], by simp [text], hhash _ ht, by simp,
          Head.front_line start _ hh hl ht, iff_of_false hkind (hfront _), ?_⟩
        rw [comment?_line]
        exact .blank Text.isBlank_nil
      · refine ⟨lead ++ head.text ++ gap, c ++ trail, by simp [text], hhash _ hg, ?_,
          Head.front_line start _ hh hl hg, iff_of_false hkind (hfront _), ?_⟩
        · simp [List.head?_append_of_ne_nil _ hc.ne_nil, hc.first]
        · have hpos : start + (lead ++ head.text ++ gap).length =
              start + lead.length + (head.text ++ gap).length := by
            simp only [List.length_append]
            omega
          rw [hpos, comment?_line]
          exact Piece.optional_start _ _ ⟨hc.blank_first, hc.last⟩ ht

/-- **The node of a physical line is the one that is read.** -/
theorem Line.written_iff {start : Nat} {content : Text} {l : Line} :
    l.Written start content ↔ Line.read? start content = some l := by
  have hread : ∀ m, Line.read? start content = some m → m.Written start content := by
    intro m h
    obtain ⟨lead, layout, trail, hv, hlead, htrail, rfl, rfl⟩ := Line.exists_layout_of_read? h
    exact layout.written_line start hv hlead htrail
  refine ⟨fun h => ?_, hread l⟩
  cases hm : Line.read? start content with
  | none =>
    obtain ⟨lead, v, trail, hc, -, -, hv, hne, -⟩ := h.span
    exact absurd (hc ▸ Line.read?_eq_none_iff.mp hm) (Text.not_isBlank_between hv hne)
  | some m => rw [h.unique (hread m hm)]

theorem Line.Written.shift {start start' : Nat} {content : Text} {l m : Line}
    (hl : l.Written start content) (hm : m.Written start' content) :
    m = l.shift (start' - start) := by
  have hread : ∀ (k : Nat) (x : Line), x.Written k content →
      (Line.read? 0 content).map (·.shift k) = some x := by
    intro k x hx
    rw [← Line.read?_add, Nat.zero_add]
    exact Line.written_iff.mp hx
  obtain ⟨x, hx, rfl⟩ := Option.map_eq_some_iff.mp (hread start l hl)
  obtain ⟨y, hy, rfl⟩ := Option.map_eq_some_iff.mp (hread start' m hm)
  obtain rfl : x = y := Option.some_inj.mp (hx.symm.trans hy)
  rw [Line.shift_shift]
  congr 1
  omega

/-! ## Rows -/

/-- A physical line where it stands. -/
structure Row where
  start : Nat
  content : Text
  deriving Repr, DecidableEq

/-- Physical lines that follow each other from an offset on. -/
def rows : (start : Nat) → List RawLine → List Row
  | _, [] => []
  | start, l :: ls => ⟨start, l.content⟩ :: rows (start + l.content.length + l.ending.length) ls

/-- A row lies between two lines. -/
def Row.Between (l m : Line) (r : Row) : Prop :=
  l.span.stop ≤ r.start ∧ (r.start + r.content.length : Nat) ≤ m.span.start

instance (l m : Line) (r : Row) : Decidable (r.Between l m) :=
  inferInstanceAs (Decidable (_ ∧ _))

/-- Two lines of one record. -/
def Document.SameRecord (d : Document) (l m : Line) : Prop :=
  ∃ r ∈ d.records, l ∈ r.lines ∧ m ∈ r.lines

theorem readLines_eq_map (start : Nat) (ls : List RawLine) :
    readLines start ls = (rows start ls).map fun r => Line.read? r.start r.content := by
  induction ls generalizing start with
  | nil => rfl
  | cons l ls ih => rw [readLines, rows, List.map_cons, ih]

theorem start_le_of_mem_rows {start : Nat} {ls : List RawLine} {r : Row}
    (h : r ∈ rows start ls) : start ≤ r.start := by
  induction ls generalizing start with
  | nil => simp [rows] at h
  | cons l ls ih =>
    rcases List.mem_cons.mp h with rfl | h
    · exact Nat.le_refl start
    · have := ih h
      omega

theorem pairwise_rows (start : Nat) (ls : List RawLine) :
    (rows start ls).Pairwise fun r s => r.start + r.content.length ≤ s.start := by
  induction ls generalizing start with
  | nil => exact .nil
  | cons l ls ih =>
    refine List.pairwise_cons.mpr ⟨fun r hr => ?_, ih _⟩
    have := start_le_of_mem_rows hr
    simp only
    omega

theorem forall₂_written (rs : List Row) :
    List.Forall₂ (fun r l => Line.Written r.start r.content l)
      (rs.filter fun r => ¬ r.content.IsBlank)
      (rs.map fun r => Line.read? r.start r.content).reduceOption := by
  induction rs with
  | nil => exact .nil
  | cons r rs ih =>
    rw [List.map_cons]
    cases h : Line.read? r.start r.content with
    | none =>
      have hb := Line.read?_eq_none_iff.mp h
      rw [List.filter_cons_of_neg (by simpa using hb), List.reduceOption_cons_of_none]
      exact ih
    | some l =>
      have hb := Line.not_isBlank_of_read? h
      rw [List.filter_cons_of_pos (by simpa using hb), List.reduceOption_cons_of_some]
      exact .cons (Line.written_iff.mpr h) ih

theorem Line.Written.bounds {r : Row} {l : Line} (h : l.Written r.start r.content) :
    (r.start : Int) ≤ l.span.start ∧ l.span.start < l.span.stop ∧
      l.span.stop ≤ (r.start + r.content.length : Nat) := by
  obtain ⟨lead, v, trail, hc, -, -, -, hne, hspan⟩ := h.span
  have hlen := congrArg List.length hc
  have hpos := List.length_pos_of_ne_nil hne
  simp only [List.length_append] at hlen
  rw [hspan]
  simp only
  omega

/-! ## Where records end -/

theorem exists_gap_of_reduceOption_cons {α : Type} {xs : List (Option α)} {b : α} {post : List α}
    (h : xs.reduceOption = b :: post) :
    ∃ n cs, xs = List.replicate n none ++ some b :: cs := by
  induction xs with
  | nil => simp at h
  | cons x xs ih =>
    cases x with
    | none =>
      rw [List.reduceOption_cons_of_none] at h
      obtain ⟨n, cs, rfl⟩ := ih h
      exact ⟨n + 1, cs, rfl⟩
    | some a =>
      rw [List.reduceOption_cons_of_some, List.cons.injEq] at h
      obtain ⟨rfl, -⟩ := h
      exact ⟨0, xs, rfl⟩

/-- Two present elements that follow each other have nothing but gaps between them. -/
theorem exists_gap_of_reduceOption {α : Type} {xs : List (Option α)} {pre post : List α} {a b : α}
    (h : xs.reduceOption = pre ++ a :: b :: post) :
    ∃ as n cs, xs = as ++ some a :: (List.replicate n none ++ some b :: cs) := by
  induction xs generalizing pre with
  | nil => simp at h
  | cons x xs ih =>
    cases x with
    | none =>
      rw [List.reduceOption_cons_of_none] at h
      obtain ⟨as, n, cs, rfl⟩ := ih h
      exact ⟨none :: as, n, cs, rfl⟩
    | some y =>
      rw [List.reduceOption_cons_of_some] at h
      cases pre with
      | nil =>
        rw [List.nil_append, List.cons.injEq] at h
        obtain ⟨rfl, hrest⟩ := h
        obtain ⟨n, cs, rfl⟩ := exists_gap_of_reduceOption_cons hrest
        exact ⟨[], n, cs, rfl⟩
      | cons p pre =>
        rw [List.cons_append, List.cons.injEq] at h
        obtain ⟨as, n, cs, rfl⟩ := ih h.2
        exact ⟨some y :: as, n, cs, rfl⟩

theorem exists_run_of_adjacent {α : Type} (as cs : List (Option α)) (a b : α) :
    ∃ run ∈ groups (as ++ some a :: some b :: cs), a ∈ run ∧ b ∈ run := by
  induction as with
  | nil => exact ⟨a :: b :: (splitRuns cs).1, List.mem_cons_self, by simp, by simp⟩
  | cons x as ih =>
    obtain ⟨run, hrun, ha, hb⟩ := ih
    cases x with
    | none => exact ⟨run, hrun, ha, hb⟩
    | some y =>
      rw [groups_eq, mem_consRun] at hrun
      rw [List.cons_append, groups_eq, splitRuns_some]
      rcases hrun with ⟨rfl, -⟩ | hrun
      · exact ⟨_, mem_consRun.mpr (.inl ⟨rfl, by simp⟩), List.mem_cons_of_mem _ ha,
          List.mem_cons_of_mem _ hb⟩
      · exact ⟨run, mem_consRun.mpr (.inr hrun), ha, hb⟩

theorem mem_run_of_gap {α : Type} {as cs : List (Option α)} {run : List α}
    (h : run ∈ groups (as ++ none :: cs)) :
    (∀ a ∈ run, a ∈ as.reduceOption) ∨ ∀ a ∈ run, a ∈ cs.reduceOption := by
  rw [groups_append_none, List.mem_append] at h
  refine h.imp (fun h a ha => ?_) fun h a ha => ?_
  · rw [← flatten_groups]
    exact List.mem_flatten.mpr ⟨run, h, ha⟩
  · rw [← flatten_groups]
    exact List.mem_flatten.mpr ⟨run, h, ha⟩

theorem Document.sameRecord_iff {t : Text} {l m : Line} :
    (Document.parse t).SameRecord l m ↔
      ∃ run ∈ groups (readLines t.mark.length (splitLines t.body)), l ∈ run ∧ m ∈ run := by
  rw [← Record.map_lines_readAll, ← Document.records_parse]
  simp [SameRecord]

/-- **Two lines that follow each other are in one record exactly if no blank row is between them.**
-/
theorem Document.sameRecord_iff_no_blank {t : Text} {pre post : List Line} {l m : Line}
    (h : (Document.parse t).lines = pre ++ l :: m :: post) :
    (Document.parse t).SameRecord l m ↔
      ∀ r ∈ rows t.mark.length (splitLines t.body), r.content.IsBlank → ¬ r.Between l m := by
  have hlines := pairwise_lines t.mark.length (ending_ne_nil t.body)
  have hrows := pairwise_rows t.mark.length (splitLines t.body)
  rw [Document.lines_parse] at h
  obtain ⟨as, n, cs, hxs⟩ := exists_gap_of_reduceOption h
  rw [Document.sameRecord_iff, hxs]
  rw [hxs] at hlines
  rw [readLines_eq_map] at hxs
  obtain ⟨before, rest, hr, -, hrest⟩ := List.map_eq_append_iff.mp hxs
  obtain ⟨a, rest, rfl, ha, hrest⟩ := List.map_eq_cons_iff.mp hrest
  obtain ⟨gap, rest, rfl, hgap, hrest⟩ := List.map_eq_append_iff.mp hrest
  obtain ⟨b, after, rfl, hb, -⟩ := List.map_eq_cons_iff.mp hrest
  have hl := (Line.written_iff.mpr ha).bounds
  have hm := (Line.written_iff.mpr hb).bounds
  rw [hr] at hrows ⊢
  cases n with
  | zero =>
    obtain rfl : gap = [] := List.map_eq_nil_iff.mp hgap
    refine iff_of_true (exists_run_of_adjacent as cs l m) fun r hmem hblank hbetween => ?_
    obtain ⟨hstart, hstop⟩ := hbetween
    simp only [List.nil_append, List.pairwise_append, List.pairwise_cons] at hrows
    obtain ⟨-, ⟨-, hafter, -⟩, hbefore⟩ := hrows
    simp only [List.nil_append, List.mem_append, List.mem_cons] at hmem
    rcases hmem with hmem | rfl | rfl | hmem
    · have := hbefore r hmem a (by simp)
      omega
    · omega
    · omega
    · have := hafter r hmem
      omega
  | succ n =>
    obtain ⟨g, gap, rfl, hg, -⟩ := List.map_eq_cons_iff.mp hgap
    refine iff_of_false ?_ fun hnone => ?_
    · rintro ⟨run, hrun, hlrun, hmrun⟩
      have hsplit : as ++ some l :: (List.replicate (n + 1) none ++ some m :: cs) =
          (as ++ [some l]) ++ none :: (List.replicate n none ++ some m :: cs) := by
        simp [List.replicate_succ]
      rw [hsplit] at hrun hlines
      rw [List.reduceOption_append, List.reduceOption_cons_of_none, List.pairwise_append] at hlines
      rcases mem_run_of_gap hrun with hfirst | hlast
      · have := hlines.2.2 m (hfirst m hmrun) m (by simp [List.reduceOption_append])
        omega
      · have := hlines.2.2 l (by simp [List.reduceOption_append]) l (hlast l hlrun)
        omega
    · simp only [List.cons_append, List.pairwise_append, List.pairwise_cons] at hrows
      obtain ⟨-, ⟨hag, hgb, -⟩, -⟩ := hrows
      have hag := hag g (by simp)
      have hgb := hgb b (by simp)
      refine hnone g (by simp) (Line.read?_eq_none_iff.mp hg) ⟨?_, ?_⟩
      · omega
      · omega

/-! ## Documents -/

/-- **Reading implements the grammar.** The text behind the byte order mark falls into physical
lines in one way. The line nodes are, one for one and in order, the nodes of those that are not
blank; what such a node is depends on the bytes of its physical line alone, up to the shift of its
start; and two nodes that follow each other are in one record exactly if no blank line lies between
them. -/
theorem Document.parse_grammar (t : Text) :
    ∃ ls, (∀ ms, PhysicalLines t.body ms ↔ ms = ls) ∧
      List.Forall₂ (fun r l => Line.Written r.start r.content l)
        ((rows t.mark.length ls).filter fun r => ¬ r.content.IsBlank) (Document.parse t).lines ∧
      (∀ (start start' : Nat) (content : Text) (l m : Line), l.Written start content →
        m.Written start' content → m = l.shift (start' - start)) ∧
      ∀ pre l m post, (Document.parse t).lines = pre ++ l :: m :: post →
        ((Document.parse t).SameRecord l m ↔
          ∀ r ∈ rows t.mark.length ls, r.content.IsBlank → ¬ r.Between l m) := by
  refine ⟨splitLines t.body, fun _ => physicalLines_iff, ?_, fun _ _ _ _ _ => Line.Written.shift,
    fun _ _ _ _ => Document.sameRecord_iff_no_blank⟩
  rw [Document.lines_parse, readLines_eq_map]
  exact forall₂_written _

/-- Two comments, one after the other, and a third one behind a blank line. -/
def threeComments : Text := utf8 "#\n#\r\n \n#"

theorem Document.parse_grammar_comments :
    let d := Document.parse threeComments
    let c (start : Nat) := Line.ofComment (.at .comment start [0x23])
    d.lines = [c 0, c 2, c 7] ∧ c 7 = (c 0).shift 7 ∧
      d.SameRecord (c 0) (c 2) ∧ ¬ d.SameRecord (c 2) (c 7) := by
  intro d c
  obtain ⟨ls, hcut, -, hshift, hsame⟩ := Document.parse_grammar threeComments
  obtain rfl := (hcut _).mp (physicalLines_splitLines _)
  have hlines : d.lines = [c 0, c 2, c 7] := by decide +kernel
  refine ⟨hlines, ?_, ?_, ?_⟩
  · exact hshift 0 7 [0x23] _ _ (Line.written_iff.mpr (by decide))
      (Line.written_iff.mpr (by decide))
  · exact (hsame [] _ _ [c 7] hlines).mpr (by decide +kernel)
  · exact fun h => absurd ((hsame [c 0] _ _ [] hlines).mp h) (by decide +kernel)

end RobotsTxt
