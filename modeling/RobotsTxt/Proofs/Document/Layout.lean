import Mathlib.Data.List.ReduceOption
import Mathlib.Data.List.TakeDrop
import RobotsTxt.Document.Grammar
import RobotsTxt.Proofs.Text.Blank

/-!
# The layout of a line

A line that is not blank is a comment, or a head with a comment that may follow it, between blanks.
A head is a name alone, or a name and a value with a delimiter between them. Layouts are written and
lines are read, and the two are inverse to each other.

* `Head`, `Layout`: the pieces of a line, `Layout.text` their text, `Layout.line` the line node.
* **`Line.read?_pad`**: a layout between blanks reads as its line.
* **`Line.exists_layout`**: what is not blank is a layout between blanks.
* `Layout.span_line`: where the line of a layout stands.
-/

namespace RobotsTxt

/-! ## Cutting a text at a byte -/

namespace Text

theorem cut_of_notMem {b : UInt8} {t : Text} (h : b ∉ t) : t.cut b = (t, none) := by
  have hp : ∀ a ∈ t, (a != b) = true := fun a ha => bne_iff_ne.mpr fun e => h (e ▸ ha)
  unfold cut
  rw [List.span_eq_takeWhile_dropWhile, List.takeWhile_eq_self_iff.mpr hp,
    List.dropWhile_eq_nil_iff.mpr hp]

theorem cut_append {b : UInt8} {s t : Text} (h : b ∉ s) : (s ++ b :: t).cut b = (s, some t) := by
  have hp : ∀ a ∈ s, (a != b) = true := fun a ha => bne_iff_ne.mpr fun e => h (e ▸ ha)
  unfold cut
  rw [List.span_eq_takeWhile_dropWhile, List.takeWhile_append_of_pos hp,
    List.dropWhile_append_of_pos hp, List.takeWhile_cons_of_neg (by simp),
    List.dropWhile_cons_of_neg (by simp), List.append_nil]

theorem exists_cut {b : UInt8} {t : Text} (h : b ∈ t) : ∃ s r : Text, t = s ++ b :: r ∧ b ∉ s :=
  List.eq_append_cons_of_mem h

theorem span_hash {h c : Text} (hh : 0x23 ∉ h) (hc : ∀ b ∈ c.head?, b = 0x23) :
    (h ++ c).span (· != 0x23) = (h, c) := by
  have hp : ∀ a ∈ h, (a != 0x23) = true := fun a ha => bne_iff_ne.mpr fun e => hh (e ▸ ha)
  rw [List.span_eq_takeWhile_dropWhile, List.takeWhile_append_of_pos hp,
    List.dropWhile_append_of_pos hp]
  cases c with
  | nil => simp
  | cons b c =>
    obtain rfl := hc b rfl
    rw [List.takeWhile_cons_of_neg (by simp), List.dropWhile_cons_of_neg (by simp), List.append_nil]

theorem IsBlank.notMem {b : UInt8} {g : Text} (hg : g.IsBlank) (hb : isBlank b = false) : b ∉ g :=
  fun h => Bool.noConfusion ((hg b h).symm.trans hb)

end Text

/-! ## The pieces of a line -/

/-- A comment starts with `#` and does not end with a blank. -/
structure IsComment (c : Text) : Prop where
  first : c.head? = some 0x23
  last : ∀ b ∈ c.getLast?, isBlank b = false

theorem IsComment.ne_nil {c : Text} (h : IsComment c) : c ≠ [] := fun e => by
  simpa [e] using h.first

theorem IsComment.blank_first {c : Text} (h : IsComment c) : ∀ b ∈ c.head?, isBlank b = false := by
  rw [h.first]
  rintro b ⟨⟩
  rfl

/-- A name is trimmed and has neither `#` nor `:`. It may be empty. -/
structure IsName (n : Text) : Prop where
  trimmed : n.Trimmed
  noHash : 0x23 ∉ n
  noColon : 0x3A ∉ n

/-- What stands in front of the comment of a line. A name or a value that is absent is empty. -/
inductive Head where
  | bare (name : Text)
  | pair (name gap₁ gap₂ value : Text)
  deriving Repr, DecidableEq

/-- What stands between the outer blanks of a line. A comment that is absent is empty. -/
inductive Layout where
  | comment (comment : Text)
  | directive (head : Head) (gap comment : Text)
  deriving Repr, DecidableEq

/-- The token of a text that stands at an offset, if the text is not empty. -/
def Token.optional (kind : TokenKind) (start : Nat) (value : Text) : Option Token :=
  if value.isEmpty then none else some (.at kind start value)

/-- The token of a name that stands at an offset, a missing one if the name is empty. -/
def Token.required (start : Nat) (name : Text) : Token :=
  if name.isEmpty then .missingAt .name start else .at .name start name

namespace Head

/-- The text of a head. -/
def text : Head → Text
  | .bare name => name
  | .pair name gap₁ gap₂ value => name ++ gap₁ ++ 0x3A :: (gap₂ ++ value)

/-- The gaps are blank, and there is none next to a part that is absent. -/
def Valid : Head → Prop
  | .bare name => IsName name ∧ name ≠ []
  | .pair name gap₁ gap₂ value =>
    IsName name ∧ (gap₁.IsBlank ∧ (name = [] → gap₁ = [])) ∧
      (gap₂.IsBlank ∧ (value = [] → gap₂ = [])) ∧ value.Trimmed ∧ 0x23 ∉ value

/-- The line of a head that stands at an offset. -/
def line (start : Nat) (comment? : Option Token) : Head → Line
  | .bare name =>
    .ofTokens start (.at .name start name) (.missingAt .delimiter (start + name.length))
      (some (.missingAt .value (start + name.length))) comment?
  | .pair name gap₁ gap₂ value =>
    let colon := start + (name ++ gap₁).length
    .ofTokens start (.required start name) (.at .delimiter colon [0x3A])
      (Token.optional .value (colon + 1 + gap₂.length) value) comment?

variable {h : Head}

theorem text_ne_nil (hv : h.Valid) : h.text ≠ [] := by
  cases h with
  | bare name => exact hv.2
  | pair name gap₁ gap₂ value => simp [text]

theorem noHash_text (hv : h.Valid) : 0x23 ∉ h.text := by
  cases h with
  | bare name => exact hv.1.noHash
  | pair name gap₁ gap₂ value =>
    obtain ⟨hn, ⟨h₁, -⟩, ⟨h₂, -⟩, -, hv⟩ := hv
    have e₁ := h₁.notMem (b := 0x23) (by decide)
    have e₂ := h₂.notMem (b := 0x23) (by decide)
    simp [text, hn.noHash, e₁, e₂, hv]

theorem first_text (hv : h.Valid) : ∀ b ∈ h.text.head?, isBlank b = false := by
  cases h with
  | bare name => exact hv.1.trimmed.first
  | pair name gap₁ gap₂ value =>
    obtain ⟨hn, ⟨-, h₁⟩, -⟩ := hv
    cases name with
    | nil =>
      rw [h₁ rfl]
      intro b hb
      simp only [text, List.nil_append, List.head?_cons, Option.mem_some_iff] at hb
      exact hb ▸ rfl
    | cons a name => simpa [text] using hn.trimmed.first a rfl

theorem last_text (hv : h.Valid) : ∀ b ∈ h.text.getLast?, isBlank b = false := by
  cases h with
  | bare name => exact hv.1.trimmed.last
  | pair name gap₁ gap₂ value =>
    obtain ⟨-, -, ⟨-, h₂⟩, ht, -⟩ := hv
    intro b hb
    cases value with
    | nil =>
      rw [h₂ rfl] at hb
      simp only [text, List.append_nil, List.getLast?_concat, Option.mem_some_iff] at hb
      exact hb ▸ rfl
    | cons a value =>
      refine ht.last b ?_
      simpa only [text, ← List.cons_append, ← List.append_assoc,
        List.getLast?_append_of_ne_nil _ (List.cons_ne_nil a value)] using hb

theorem ofHead_pad (start : Nat) (comment? : Option Token) {gap : Text} (hv : h.Valid)
    (hg : gap.IsBlank) : Line.ofHead start (h.text ++ gap) comment? = h.line start comment? := by
  cases h with
  | bare name =>
    have hc : 0x3A ∉ name ++ gap := by simp [hv.1.noColon, hg.notMem (b := 0x3A) (by decide)]
    simp only [Line.ofHead, text, Text.cut_of_notMem hc, Text.trimEnd_append_blank hg,
      Text.trimEnd_of_last hv.1.trimmed.last, line]
  | pair name gap₁ gap₂ value =>
    obtain ⟨hn, ⟨h₁, -⟩, ⟨h₂, hne⟩, ht, -⟩ := hv
    have hc : 0x3A ∉ name ++ gap₁ := by simp [hn.noColon, h₁.notMem (b := 0x3A) (by decide)]
    have ha : text (.pair name gap₁ gap₂ value) ++ gap =
        (name ++ gap₁) ++ 0x3A :: (gap₂ ++ value ++ gap) := by simp [text]
    have hname : Text.trimEnd (name ++ gap₁) = name := by
      rw [Text.trimEnd_append_blank h₁, Text.trimEnd_of_last hn.trimmed.last]
    have hval : Text.trimBlanks (gap₂ ++ value ++ gap) = value := Text.trimBlanks_pad h₂ hg ht
    rw [ha]
    simp only [Line.ofHead, Text.cut_append hc, hname, hval, line, Token.required, Token.optional]
    cases value with
    | nil => rfl
    | cons a value =>
      rw [List.append_assoc gap₂, Text.takeWhile_pad h₂ (by simpa using ht.first a rfl)]

end Head

/-- A text in front of the first `#` of a line is a head with blanks after it. -/
theorem exists_head {t : Text} (hne : t ≠ []) (hf : ∀ b ∈ t.head?, isBlank b = false)
    (hh : 0x23 ∉ t) : ∃ (h : Head) (gap : Text), h.Valid ∧ gap.IsBlank ∧ t = h.text ++ gap := by
  by_cases hc : 0x3A ∈ t
  · obtain ⟨n, r, rfl, hn⟩ := Text.exists_cut hc
    obtain ⟨gap₁, h₁, hn₁⟩ := Text.exists_trimEnd n
    obtain ⟨lead, v, trail, rfl, hl, htr, hv⟩ := Text.exists_trimmed r
    have hnf : ∀ b ∈ n.head?, isBlank b = false := fun b hb => hf b (by
      cases n with
      | nil => simp at hb
      | cons a n => simpa using hb)
    have hsub : ∀ b ∈ n.trimEnd, b ∈ n := fun b hb => by rw [hn₁]; exact List.mem_append_left _ hb
    have hname : IsName n.trimEnd := ⟨Text.trimmed_trimEnd hnf,
      fun h => hh (List.mem_append_left _ (hsub _ h)), fun h => hn (hsub _ h)⟩
    have hgap : n.trimEnd = [] → gap₁ = [] := fun e => by
      cases n with
      | nil => simpa [e] using hn₁.symm
      | cons a n =>
        exact absurd (Text.trimEnd_eq_nil_iff.mp e) (Text.not_isBlank_of_head (hnf a rfl))
    have hhv : 0x23 ∉ v := fun h => hh (by simp [h])
    by_cases hve : v = []
    · subst hve
      refine ⟨.pair n.trimEnd gap₁ [] [], lead ++ trail, ⟨hname, ⟨h₁, hgap⟩, ⟨by simp, by simp⟩, hv,
        hhv⟩, Text.isBlank_append.mpr ⟨hl, htr⟩, ?_⟩
      simp only [Head.text, ← hn₁]
      simp
    · refine ⟨.pair n.trimEnd gap₁ lead v, trail, ⟨hname, ⟨h₁, hgap⟩, ⟨hl, fun e => absurd e hve⟩,
        hv, hhv⟩, htr, ?_⟩
      simp only [Head.text, ← hn₁]
      simp
  · obtain ⟨gap, hg, ht⟩ := Text.exists_trimEnd t
    have hsub : ∀ b ∈ t.trimEnd, b ∈ t := fun b hb => by rw [ht]; exact List.mem_append_left _ hb
    refine ⟨.bare t.trimEnd, gap, ⟨⟨Text.trimmed_trimEnd hf, fun h => hh (hsub _ h),
      fun h => hc (hsub _ h)⟩, fun e => ?_⟩, hg, ht⟩
    cases t with
    | nil => exact hne rfl
    | cons a t => exact Text.not_isBlank_of_head (hf a rfl) (Text.trimEnd_eq_nil_iff.mp e)

/-! ## Lines -/

namespace Layout

/-- The text of a layout. -/
def text : Layout → Text
  | .comment c => c
  | .directive head gap c => head.text ++ gap ++ c

/-- The pieces are what they should be, and there is no gap in front of an absent comment. -/
def Valid : Layout → Prop
  | .comment c => IsComment c
  | .directive head gap c => head.Valid ∧ gap.IsBlank ∧ (c = [] ∧ gap = [] ∨ IsComment c)

/-- The line of a layout that stands at an offset. -/
def line (start : Nat) : Layout → Line
  | .comment c => .ofComment (.at .comment start c)
  | .directive head gap c =>
    head.line start (Token.optional .comment (start + (head.text ++ gap).length) c)

variable {l : Layout}

theorem text_ne_nil (hv : l.Valid) : l.text ≠ [] := by
  cases l with
  | comment c => exact hv.ne_nil
  | directive head gap c => simp [text, Head.text_ne_nil hv.1]

theorem trimmed_text (hv : l.Valid) : l.text.Trimmed := by
  cases l with
  | comment c => exact ⟨fun b hb => hv.blank_first b hb, hv.last⟩
  | directive head gap c =>
    obtain ⟨hh, hg, hc⟩ := hv
    refine ⟨fun b hb => Head.first_text hh b ?_, ?_⟩
    · rwa [text, List.append_assoc, List.head?_append_of_ne_nil _ (Head.text_ne_nil hh)] at hb
    · rcases hc with ⟨rfl, rfl⟩ | hc
      · simpa [text] using Head.last_text hh
      · rw [text, List.getLast?_append_of_ne_nil _ hc.ne_nil]
        exact hc.last

theorem stop_ofTokens (start : Nat) (name delimiter : Token) (value? comment? : Option Token) :
    (Line.ofTokens start name delimiter value? comment?).span.stop =
      [value?, comment?].reduceOption.foldl (fun stop t => max stop t.span.stop)
        (max name.span.stop delimiter.span.stop) := rfl

theorem span_line (start : Nat) (hv : l.Valid) :
    (l.line start).span = ⟨start, start + l.text.length⟩ := by
  cases l with
  | comment c => rfl
  | directive head gap c =>
    obtain ⟨hh, -, hc⟩ := hv
    have hstart : ((directive head gap c).line start).span.start = start := by cases head <;> rfl
    have hstop : ((directive head gap c).line start).span.stop =
        start + (directive head gap c).text.length := by
      cases head with
      | bare name =>
        rw [line, Head.line, stop_ofTokens]
        rcases hc with ⟨rfl, rfl⟩ | hc
        · simp [Token.optional, text, Head.text, Token.at, Token.missingAt, Span.empty]
        · simp [Token.optional, text, Head.text, Token.at, Token.missingAt, Span.empty, hc.ne_nil]
          omega
      | pair name gap₁ gap₂ value =>
        obtain ⟨-, -, ⟨-, h₂⟩, -⟩ := hh
        have hname : (Token.required start name).span.stop = start + name.length := by
          cases name <;> simp [Token.required, Token.at, Token.missingAt, Span.empty]
        rw [line, Head.line, stop_ofTokens, hname]
        by_cases hve : value = []
        · rcases hc with ⟨rfl, rfl⟩ | hc
          · simp [Token.optional, text, Head.text, Token.at, hve, h₂ hve]
            omega
          · simp [Token.optional, text, Head.text, Token.at, hve, h₂ hve, hc.ne_nil]
            omega
        · rcases hc with ⟨rfl, rfl⟩ | hc
          · simp [Token.optional, text, Head.text, Token.at, hve]
            omega
          · simp [Token.optional, text, Head.text, Token.at, hve, hc.ne_nil]
            omega
    exact congrArg₂ Span.mk hstart hstop

end Layout

namespace Line

/-- What is read from the part in front of the first `#` and the part from there on. -/
theorem read?_of_span (start : Nat) {content head tail : Text}
    (h : (content.dropWhile isBlank).span (· != 0x23) = (head, tail)) :
    read? start content =
      if head = [] then
        if tail = [] then none
        else
          some (ofComment (.at .comment (start + (content.takeWhile isBlank).length) tail.trimEnd))
      else some (ofHead (start + (content.takeWhile isBlank).length) head
        (if tail = [] then none
          else some (.at .comment (start + (content.takeWhile isBlank).length + head.length)
            tail.trimEnd))) := by
  unfold read?
  rw [h]
  cases head <;> cases tail <;> simp

/-- **A layout between blanks reads as its line.** -/
theorem read?_pad (start : Nat) {l : Layout} {lead trail : Text} (hv : l.Valid) (hl : lead.IsBlank)
    (ht : trail.IsBlank) :
    read? start (lead ++ l.text ++ trail) = some (l.line (start + lead.length)) := by
  have hne := Layout.text_ne_nil hv
  have hf : ∀ b ∈ (l.text ++ trail).head?, isBlank b = false := fun b hb =>
    (Layout.trimmed_text hv).first b (by rwa [List.head?_append_of_ne_nil _ hne] at hb)
  have hd : (lead ++ l.text ++ trail).dropWhile isBlank = l.text ++ trail := by
    rw [List.append_assoc, Text.dropWhile_pad hl hf]
  have htw : (lead ++ l.text ++ trail).takeWhile isBlank = lead := by
    rw [List.append_assoc, Text.takeWhile_pad hl hf]
  cases l with
  | comment c =>
    have hc : IsComment c := hv
    have hspan : ((lead ++ c ++ trail).dropWhile isBlank).span (· != 0x23) = ([], c ++ trail) := by
      rw [show (lead ++ c ++ trail).dropWhile isBlank = c ++ trail from hd]
      exact Text.span_hash (h := []) (by simp)
        (by simp [List.head?_append_of_ne_nil _ hc.ne_nil, hc.first])
    rw [Layout.text] at htw ⊢
    rw [read?_of_span start hspan, htw, if_pos rfl, if_neg (by simp [hc.ne_nil]),
      Text.trimEnd_append_blank ht, Text.trimEnd_of_last hc.last]
    rfl
  | directive head gap c =>
    obtain ⟨hh, hg, hc⟩ := hv
    have hhash : 0x23 ∉ head.text ++ gap := by
      simp [Head.noHash_text hh, hg.notMem (b := 0x23) (by decide)]
    rcases hc with ⟨rfl, rfl⟩ | hc
    · have hspan : ((Layout.directive head [] []).text ++ trail).span (· != 0x23) =
          (head.text ++ trail, []) := by
        have := Text.span_hash (h := head.text ++ trail) (c := [])
          (by simp [Head.noHash_text hh, ht.notMem (b := 0x23) (by decide)]) (by simp)
        simpa [Layout.text] using this
      rw [read?_of_span start (hd ▸ hspan), htw, if_neg (by simp [Head.text_ne_nil hh]), if_pos rfl,
        Head.ofHead_pad _ _ hh ht]
      rfl
    · have hspan : ((Layout.directive head gap c).text ++ trail).span (· != 0x23) =
          (head.text ++ gap, c ++ trail) := by
        rw [Layout.text, List.append_assoc]
        exact Text.span_hash hhash (by simp [List.head?_append_of_ne_nil _ hc.ne_nil, hc.first])
      rw [read?_of_span start (hd ▸ hspan), htw, if_neg (by simp [Head.text_ne_nil hh]),
        if_neg (by simp [hc.ne_nil]), Head.ofHead_pad _ _ hh hg, Text.trimEnd_append_blank ht,
        Text.trimEnd_of_last hc.last, Layout.line, Token.optional, if_neg (by simp [hc.ne_nil])]

/-- **What is not blank is a layout between blanks.** -/
theorem exists_layout {content : Text} (h : ¬ content.IsBlank) :
    ∃ (lead : Text) (l : Layout) (trail : Text),
      l.Valid ∧ lead.IsBlank ∧ trail.IsBlank ∧ content = lead ++ l.text ++ trail := by
  obtain ⟨lead, s, trail, rfl, hl, ht, hs⟩ := Text.exists_trimmed content
  have hne : s ≠ [] := by
    rintro rfl
    exact h (by simpa using Text.isBlank_append.mpr ⟨hl, ht⟩)
  by_cases hh : 0x23 ∈ s
  · obtain ⟨n, r, rfl, hn⟩ := Text.exists_cut hh
    have hc : IsComment (0x23 :: r) := ⟨rfl, fun b hb => hs.last b (by
      rwa [List.getLast?_append_of_ne_nil _ (List.cons_ne_nil 0x23 r)])⟩
    by_cases hn₀ : n = []
    · subst hn₀
      exact ⟨lead, .comment (0x23 :: r), trail, hc, hl, ht, rfl⟩
    · obtain ⟨head, gap, hv, hg, rfl⟩ := exists_head hn₀ (fun b hb => hs.first b (by
        rwa [List.head?_append_of_ne_nil _ hn₀])) hn
      exact ⟨lead, .directive head gap (0x23 :: r), trail, ⟨hv, hg, .inr hc⟩, hl, ht, rfl⟩
  · obtain ⟨head, gap, hv, hg, rfl⟩ := exists_head hne hs.first hh
    refine ⟨lead, .directive head [] [], gap ++ trail, ⟨hv, by simp, .inl ⟨rfl, rfl⟩⟩, hl,
      Text.isBlank_append.mpr ⟨hg, ht⟩, ?_⟩
    simp [Layout.text]

theorem read?_blank (start : Nat) {content : Text} (h : content.IsBlank) :
    read? start content = none := by
  have hd : (content.dropWhile isBlank).span (· != 0x23) = ([], []) := by
    rw [List.dropWhile_eq_nil_iff.mpr h]
    rfl
  rw [read?_of_span start hd, if_pos rfl, if_pos rfl]

theorem read?_eq_none_iff {start : Nat} {content : Text} :
    read? start content = none ↔ content.IsBlank := by
  refine ⟨fun h => ?_, read?_blank start⟩
  by_contra hb
  obtain ⟨lead, l, trail, hv, hl, ht, rfl⟩ := exists_layout hb
  rw [read?_pad start hv hl ht] at h
  exact absurd h (Option.some_ne_none _)

theorem not_isBlank_of_read? {start : Nat} {content : Text} {l : Line}
    (h : read? start content = some l) : ¬ content.IsBlank := fun hb => by
  rw [read?_blank start hb] at h
  cases h

/-- A line that is read is the line of a layout between blanks. -/
theorem exists_layout_of_read? {start : Nat} {content : Text} {l : Line}
    (h : read? start content = some l) : ∃ (lead : Text) (a : Layout) (trail : Text), a.Valid ∧
      lead.IsBlank ∧ trail.IsBlank ∧ content = lead ++ a.text ++ trail ∧
      l = a.line (start + lead.length) := by
  obtain ⟨lead, a, trail, hv, hl, ht, rfl⟩ := exists_layout (not_isBlank_of_read? h)
  rw [read?_pad start hv hl ht, Option.some_inj] at h
  exact ⟨lead, a, trail, hv, hl, ht, rfl, h.symm⟩

end Line

end RobotsTxt
