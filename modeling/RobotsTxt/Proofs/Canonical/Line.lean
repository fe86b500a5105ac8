import RobotsTxt.Canonical
import RobotsTxt.Proofs.Document.Layout
import RobotsTxt.Proofs.Text.Space

/-!
# Canonical lines

A line in canonical form is the text of a layout again, with a canonical name, one space in front of
the value and of the comment, and no white space around the body of the comment. A head without a
name or without a delimiter stays as it is, comment included.

* `Layout.canonical`: the canonical form of a layout.
* **`Layout.canonical_line`**: the line of a layout is written as the canonical form.
* `Layout.valid_canonical`, `Layout.unbroken_canonical`: the canonical form is a layout of one line.
* **`Layout.canonical_canonical`**: it is its own canonical form.
* **`Layout.agrees_canonical`**: it says the same.
-/

namespace RobotsTxt

/-! ## Names -/

namespace Directive

theorem known_all : ∀ d ∈ known, d.name ≠ [] ∧ d.name.all fun b =>
    !isBlank b && !isBreak b && b != 0x23 && b != 0x3A && b != 0xEF := by decide

theorem known_plain {d : Directive} (hd : d ∈ known) {b : UInt8} (hb : b ∈ d.name) :
    isBlank b = false ∧ isBreak b = false ∧ b ≠ 0x23 ∧ b ≠ 0x3A ∧ b ≠ 0xEF := by
  have h := List.all_eq_true.mp (known_all d hd).2 b hb
  simpa [and_assoc] using h

theorem known_isDirective : ∀ d ∈ known, d.kind ≠ .commentLine := by decide

variable {m n : Text}

theorem lookup?_congr (h : m.lower = n.lower) : lookup? m = lookup? n := by
  unfold lookup?
  rw [h]

theorem kindOf_ne_commentLine (n : Text) : kindOf n ≠ .commentLine := by
  unfold kindOf
  cases h : lookup? n with
  | none => decide
  | some d => exact known_isDirective d (List.mem_of_find?_eq_some h)

theorem canonicalName_cases (n : Text) :
    (∃ d ∈ known, canonicalName n = d.name) ∨ canonicalName n = n := by
  unfold canonicalName
  cases h : lookup? n with
  | none => exact .inr rfl
  | some d => exact .inl ⟨d, List.mem_of_find?_eq_some h, rfl⟩

theorem lower_canonicalName (n : Text) : (canonicalName n).lower = n.lower := by
  unfold canonicalName
  cases h : lookup? n with
  | none => rfl
  | some d =>
    have hd := List.find?_some h
    exact beq_iff_eq.mp hd

theorem canonicalName_canonicalName (n : Text) :
    canonicalName (canonicalName n) = canonicalName n := by
  have h : lookup? (canonicalName n) = lookup? n := lookup?_congr (lower_canonicalName n)
  unfold canonicalName at h ⊢
  rw [h]
  cases lookup? n <;> rfl

theorem canonicalName_ne_nil (h : n ≠ []) : canonicalName n ≠ [] := by
  rcases canonicalName_cases n with ⟨d, hd, e⟩ | e
  · rw [e]
    exact (known_all d hd).1
  · rwa [e]

theorem isName_canonicalName (h : IsName n) : IsName (canonicalName n) := by
  rcases canonicalName_cases n with ⟨d, hd, e⟩ | e
  · rw [e]
    exact ⟨⟨fun b hb => (known_plain hd (List.mem_of_mem_head? hb)).1,
      fun b hb => (known_plain hd (List.mem_of_mem_getLast? hb)).1⟩,
      fun hb => (known_plain hd hb).2.2.1 rfl, fun hb => (known_plain hd hb).2.2.2.1 rfl⟩
  · rwa [e]

theorem noBreak_canonicalName (h : ∀ b ∈ n, isBreak b = false) :
    ∀ b ∈ canonicalName n, isBreak b = false := by
  rcases canonicalName_cases n with ⟨d, hd, e⟩ | e
  · rw [e]
    exact fun b hb => (known_plain hd hb).2.1
  · rwa [e]

theorem mark_canonicalName (h : byteOrderMark <+: canonicalName n) : byteOrderMark <+: n := by
  rcases canonicalName_cases n with ⟨d, hd, e⟩ | e
  · rw [e] at h
    exact absurd rfl (known_plain hd (h.subset (List.mem_cons_self (a := 0xEF)))).2.2.2.2
  · rwa [e] at h

end Directive

/-! ## Comments -/

theorem commentBody_hash (t : Text) : commentBody (0x23 :: t) = t.trimSpace := rfl

theorem canonicalComment_eq (c : Text) :
    canonicalComment c = 0x23 :: spaced (commentBody c) := by
  unfold canonicalComment
  cases commentBody c <;> rfl

theorem trimSpace_spaced (t : Text) : (spaced t).trimSpace = t.trimSpace := by
  cases t with
  | nil => rfl
  | cons b t => exact Text.trimSpace_space (b :: t)

theorem trimSpace_commentBody (c : Text) : (commentBody c).trimSpace = commentBody c := by
  unfold commentBody
  split <;> exact Text.trimSpace_trimSpace _

theorem commentBody_canonicalComment (c : Text) :
    commentBody (canonicalComment c) = commentBody c := by
  rw [canonicalComment_eq, commentBody_hash, trimSpace_spaced, trimSpace_commentBody]

theorem canonicalComment_canonicalComment (c : Text) :
    canonicalComment (canonicalComment c) = canonicalComment c := by
  rw [canonicalComment_eq, commentBody_canonicalComment, ← canonicalComment_eq]

theorem last_commentBody (c : Text) : ∀ b ∈ (commentBody c).getLast?, isBlank b = false := by
  rw [← trimSpace_commentBody]
  exact Text.last_trimSpace _

theorem isComment_canonicalComment (c : Text) : IsComment (canonicalComment c) := by
  rw [canonicalComment_eq]
  refine ⟨rfl, ?_⟩
  have hlast := last_commentBody c
  cases h : commentBody c with
  | nil =>
    rintro b ⟨⟩
    rfl
  | cons b t =>
    rw [h] at hlast
    exact hlast

theorem mem_of_mem_commentBody {b : UInt8} {c : Text} (h : b ∈ commentBody c) : b ∈ c := by
  unfold commentBody at h
  split at h
  · exact List.mem_cons_of_mem _ (Text.mem_of_mem_trimSpace h)
  · exact Text.mem_of_mem_trimSpace h

theorem noBreak_spaced {t : Text} (h : ∀ b ∈ t, isBreak b = false) :
    ∀ b ∈ spaced t, isBreak b = false := by
  cases t with
  | nil => exact h
  | cons a t =>
    intro b hb
    rcases List.mem_cons.mp hb with rfl | hb
    · rfl
    · exact h b hb

theorem noBreak_canonicalComment {c : Text} (h : ∀ b ∈ c, isBreak b = false) :
    ∀ b ∈ canonicalComment c, isBreak b = false := by
  rw [canonicalComment_eq]
  intro b hb
  rcases List.mem_cons.mp hb with rfl | hb
  · rfl
  · exact noBreak_spaced (fun b hb => h b (mem_of_mem_commentBody hb)) b hb

/-! ## Lines -/

theorem prefix_of_append_cons {α : Type} {p s t : List α} {a : α} (ha : a ∉ p)
    (h : p <+: s ++ a :: t) : p <+: s := by
  induction p generalizing s with
  | nil => exact List.nil_prefix
  | cons b p ih =>
    cases s with
    | nil => exact absurd (List.cons_prefix_cons.mp h).1 (List.ne_of_not_mem_cons ha).symm
    | cons c s =>
      obtain ⟨rfl, htail⟩ := List.cons_prefix_cons.mp h
      exact List.cons_prefix_cons.mpr ⟨rfl, ih (List.not_mem_of_not_mem_cons ha) htail⟩

/-- The gap in front of a part of a line: one space, and none if the part is absent. -/
def gapBefore (t : Text) : Text := if t.isEmpty then [] else [0x20]

/-- The comment of a line in canonical form; an absent one stays absent. -/
def canonicalTail (c : Text) : Text := if c.isEmpty then [] else canonicalComment c

theorem gapBefore_append (t : Text) : gapBefore t ++ t = spaced t := by
  cases t <;> rfl

theorem isBlank_gapBefore (t : Text) : (gapBefore t).IsBlank := by
  unfold gapBefore
  split
  · exact Text.isBlank_nil
  · intro b hb
    rw [List.mem_singleton.mp hb]
    rfl

theorem canonicalTail_isEmpty (c : Text) : (canonicalTail c).isEmpty = c.isEmpty := by
  cases c with
  | nil => rfl
  | cons b c => simp [canonicalTail, canonicalComment_eq]

theorem gapBefore_canonicalTail (c : Text) : gapBefore (canonicalTail c) = gapBefore c := by
  rw [gapBefore, gapBefore, canonicalTail_isEmpty]

theorem canonicalTail_canonicalTail (c : Text) :
    canonicalTail (canonicalTail c) = canonicalTail c := by
  cases c with
  | nil => rfl
  | cons b c =>
    rw [canonicalTail, canonicalTail_isEmpty]
    exact canonicalComment_canonicalComment (b :: c)

namespace Layout

/-- The canonical form of a layout. -/
def canonical : Layout → Layout
  | .comment c => .comment (canonicalComment c)
  | .directive (.bare n) gap c => .directive (.bare n) gap c
  | .directive (.pair n gap₁ gap₂ v) gap c =>
    if n.isEmpty then .directive (.pair n gap₁ gap₂ v) gap c
    else .directive (.pair (Directive.canonicalName n) [] (gapBefore v) v) (gapBefore c)
      (canonicalTail c)

/-- A layout that stays on one line. -/
def Unbroken (l : Layout) : Prop := ∀ b ∈ l.text, isBreak b = false

variable {l : Layout}

theorem canonical_pair {n : Text} (hn : n ≠ []) (gap₁ gap₂ v gap c : Text) :
    canonical (.directive (.pair n gap₁ gap₂ v) gap c) =
      .directive (.pair (Directive.canonicalName n) [] (gapBefore v) v) (gapBefore c)
        (canonicalTail c) := by
  rw [canonical, if_neg (by simpa using hn)]

theorem valid_canonical (hv : l.Valid) : l.canonical.Valid := by
  cases l with
  | comment c => exact isComment_canonicalComment c
  | directive head gap c =>
    cases head with
    | bare n => exact hv
    | pair n gap₁ gap₂ v =>
      by_cases hn : n = []
      · subst hn
        exact hv
      · obtain ⟨⟨hname, -, -, ht, hh⟩, -, hc⟩ := hv
        rw [canonical_pair hn]
        refine ⟨⟨Directive.isName_canonicalName hname, ⟨by simp, fun _ => rfl⟩,
          ⟨isBlank_gapBefore v, fun e => by rw [e]; rfl⟩, ht, hh⟩, isBlank_gapBefore c, ?_⟩
        by_cases he : c = []
        · subst he
          exact .inl ⟨rfl, rfl⟩
        · rw [canonicalTail, if_neg (by simpa using he)]
          exact .inr (isComment_canonicalComment c)

theorem text_canonical_pair {n : Text} (hn : n ≠ []) (gap₁ gap₂ v gap c : Text) :
    (canonical (.directive (.pair n gap₁ gap₂ v) gap c)).text =
      Directive.canonicalName n ++ [0x3A] ++ spaced v ++ spaced (canonicalTail c) := by
  rw [canonical_pair hn, text, Head.text, ← gapBefore_canonicalTail c,
    List.append_assoc _ (gapBefore _), gapBefore_append, gapBefore_append]
  simp

theorem unbroken_canonical (hu : l.Unbroken) : l.canonical.Unbroken := by
  cases l with
  | comment c => exact noBreak_canonicalComment hu
  | directive head gap c =>
    cases head with
    | bare n => exact hu
    | pair n gap₁ gap₂ v =>
      by_cases hn : n = []
      · subst hn
        exact hu
      · have hname : ∀ b ∈ n, isBreak b = false := fun b hb => hu b (by simp [text, Head.text, hb])
        have hvalue : ∀ b ∈ v, isBreak b = false := fun b hb => hu b (by simp [text, Head.text, hb])
        have htail : ∀ b ∈ canonicalTail c, isBreak b = false := by
          unfold canonicalTail
          split
          · simp
          · exact noBreak_canonicalComment fun b hb => hu b (by simp [text, hb])
        intro b hb
        rw [text_canonical_pair hn] at hb
        simp only [List.mem_append, List.mem_singleton] at hb
        rcases hb with ((hb | rfl) | hb) | hb
        · exact Directive.noBreak_canonicalName hname b hb
        · rfl
        · exact noBreak_spaced hvalue b hb
        · exact noBreak_spaced htail b hb

/-- **A canonical form is its own canonical form.** -/
theorem canonical_canonical (l : Layout) : l.canonical.canonical = l.canonical := by
  cases l with
  | comment c => exact congrArg comment (canonicalComment_canonicalComment c)
  | directive head gap c =>
    cases head with
    | bare n => rfl
    | pair n gap₁ gap₂ v =>
      by_cases hn : n = []
      · subst hn
        rfl
      · rw [canonical_pair hn, canonical_pair (Directive.canonicalName_ne_nil hn),
          Directive.canonicalName_canonicalName, canonicalTail_canonicalTail,
          gapBefore_canonicalTail]

/-- A canonical form starts with a byte order mark only where the layout does. -/
theorem mark_canonical (h : byteOrderMark <+: l.canonical.text) : byteOrderMark <+: l.text := by
  cases l with
  | comment c =>
    rw [canonical, text, canonicalComment_eq] at h
    exact absurd (List.cons_prefix_cons.mp h).1 (by decide)
  | directive head gap c =>
    cases head with
    | bare n => exact h
    | pair n gap₁ gap₂ v =>
      by_cases hn : n = []
      · subst hn
        exact h
      · rw [text_canonical_pair hn, List.append_assoc, List.append_assoc] at h
        have hname := Directive.mark_canonicalName (prefix_of_append_cons (by decide) h)
        simp only [text, Head.text, List.append_assoc]
        exact hname.trans (List.prefix_append _ _)

theorem isDirective_line (start : Nat) (head : Head) (gap c : Text) :
    ((directive head gap c).line start).isDirective := by
  have hkind : ∀ name delimiter value? comment?,
      (Line.ofTokens start name delimiter value? comment?).isDirective := by
    intro name delimiter value? comment?
    unfold Line.ofTokens Line.isDirective
    split
    · rfl
    · exact bne_iff_ne.mpr (Directive.kindOf_ne_commentLine _)
  cases head <;> exact hkind _ _ _ _

/-- **The line of a layout is written as the canonical form of the layout.** -/
theorem canonical_line {source : Text} {start : Nat} (hv : l.Valid)
    (hs : source.slice start (start + l.text.length) = l.text) :
    (l.line start).canonical source = l.canonical.text := by
  have hraw : source.slice (l.line start).span.start.toNat (l.line start).span.stop.toNat =
      l.text := by
    rw [span_line start hv]
    exact hs
  cases l with
  | comment c => rfl
  | directive head gap c =>
    have hdir := isDirective_line start head gap c
    unfold Line.canonical
    rw [hraw, if_pos hdir]
    cases head with
    | bare n => rfl
    | pair n gap₁ gap₂ v =>
      by_cases hn : n = []
      · subst hn
        rfl
      · rw [text_canonical_pair hn]
        obtain ⟨a, n, rfl⟩ := List.exists_cons_of_ne_nil hn
        cases v <;> cases c <;> rfl

end Layout

/-- Two lines that say the same, wherever they stand and however they are spaced. -/
structure Line.Agrees (l m : Line) : Prop where
  kind : l.kind = m.kind
  directiveName : l.directiveName = m.directiveName
  valueText : l.valueText = m.valueText
  name? : l.name?.map Token.missing = m.name?.map Token.missing
  delimiter? : l.delimiter?.map Token.missing = m.delimiter?.map Token.missing
  value? : l.value?.map Token.missing = m.value?.map Token.missing
  comment? : l.comment?.map Token.missing = m.comment?.map Token.missing
  body : (l.comment?.map fun c => commentBody c.value) = m.comment?.map fun c => commentBody c.value

theorem Token.map_missing_optional (kind : TokenKind) (start : Nat) (v : Text) :
    (Token.optional kind start v).map Token.missing = if v.isEmpty then none else some false := by
  cases v <;> rfl

theorem Token.map_commentBody_optional (start : Nat) (c : Text) :
    ((Token.optional .comment start c).map fun t => commentBody t.value) =
      if c.isEmpty then none else some (commentBody c) := by
  cases c <;> rfl

namespace Layout

theorem agrees_bare (start start' : Nat) (n gap c : Text) :
    ((directive (.bare n) gap c).line start).Agrees ((directive (.bare n) gap c).line start') := by
  refine ⟨rfl, rfl, rfl, rfl, rfl, rfl, ?_, ?_⟩
  · exact (Token.map_missing_optional ..).trans (Token.map_missing_optional ..).symm
  · exact (Token.map_commentBody_optional ..).trans (Token.map_commentBody_optional ..).symm

theorem agrees_pair (start start' : Nat) {n m c d : Text} (gap₁ gap₂ gap gap₁' gap₂' gap' v : Text)
    (hname : m.isEmpty = n.isEmpty) (hlower : m.lower = n.lower)
    (hcomment : d.isEmpty = c.isEmpty) (hbody : commentBody d = commentBody c) :
    ((directive (.pair n gap₁ gap₂ v) gap c).line start).Agrees
      ((directive (.pair m gap₁' gap₂' v) gap' d).line start') := by
  have hmissing : ∀ (pos : Nat) (n : Text), (Token.required pos n).missing = n.isEmpty := by
    intro pos n
    cases n <;> rfl
  have hvalue : ∀ (pos : Nat) (n : Text), (Token.required pos n).value = n := by
    intro pos n
    cases n <;> rfl
  refine ⟨?_, ?_, ?_, ?_, rfl, ?_, ?_, ?_⟩
  · simp only [line, Head.line, Line.ofTokens, hmissing, hvalue, hname, Directive.kindOf,
      Directive.lookup?_congr hlower]
  · simp only [line, Head.line, Line.ofTokens, Line.directiveName, Option.map_some, hvalue, hlower]
  · cases v <;> rfl
  · simp only [line, Head.line, Line.ofTokens, Option.map_some, hmissing, hname]
  · exact (Token.map_missing_optional ..).trans (Token.map_missing_optional ..).symm
  · refine (Token.map_missing_optional ..).trans (.trans ?_ (Token.map_missing_optional ..).symm)
    rw [hcomment]
  · refine (Token.map_commentBody_optional ..).trans
      (.trans ?_ (Token.map_commentBody_optional ..).symm)
    rw [hcomment, hbody]

/-- **The canonical form of a layout says the same as the layout.** -/
theorem agrees_canonical (l : Layout) (start start' : Nat) :
    (l.line start).Agrees (l.canonical.line start') := by
  cases l with
  | comment c =>
    exact ⟨rfl, rfl, rfl, rfl, rfl, rfl, rfl, congrArg some (commentBody_canonicalComment c).symm⟩
  | directive head gap c =>
    cases head with
    | bare n => exact agrees_bare start start' n gap c
    | pair n gap₁ gap₂ v =>
      by_cases hn : n = []
      · subst hn
        exact agrees_pair start start' _ _ _ _ _ _ _ rfl rfl rfl rfl
      · rw [canonical_pair hn]
        have hname : (Directive.canonicalName n).isEmpty = n.isEmpty := by
          rw [List.isEmpty_eq_false_iff.mpr hn,
            List.isEmpty_eq_false_iff.mpr (Directive.canonicalName_ne_nil hn)]
        refine agrees_pair start start' _ _ _ _ _ _ _ hname (Directive.lower_canonicalName n)
          (canonicalTail_isEmpty c) ?_
        cases c with
        | nil => rfl
        | cons b c => exact commentBody_canonicalComment (b :: c)

end Layout

end RobotsTxt
