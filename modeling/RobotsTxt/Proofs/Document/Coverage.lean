import RobotsTxt.Category
import RobotsTxt.Proofs.Document.WellFormed

/-!
# What is displayed

Reading a text and classifying its tokens lose nothing and count nothing twice.

* `Layout.kind_ne_other`: every token of a line has a category.
* `Token.classify?_document`: which tokens of a document are displayed.
* **`Document.classify_exact`**: ink lies in exactly one classified span, and the spans are disjoint
  and in order.
-/

namespace RobotsTxt

/-! ## Categories of tokens -/

theorem Token.kind_required (start : Nat) (name : Text) :
    (Token.required start name).kind = .name := by
  unfold Token.required
  split <;> rfl

theorem Token.kind_optional {kind : TokenKind} {start : Nat} {value : Text} {k : Token}
    (h : k ∈ (Token.optional kind start value).toList) : k.kind = kind := by
  unfold Token.optional at h
  split at h
  · simp at h
  · obtain rfl : k = .at kind start value := by simpa using h
    rfl

theorem Head.kind_ne_other (start : Nat) {comment? : Option Token}
    (hc : ∀ k ∈ comment?.toList, k.kind ≠ .other) (h : Head) :
    ∀ k ∈ (h.line start comment?).tokens, k.kind ≠ .other := by
  intro k hk
  cases h with
  | bare name =>
    rw [Head.line, tokens_ofTokens] at hk
    simp only [List.mem_append, List.mem_singleton, Option.toList_some] at hk
    rcases hk with rfl | rfl | rfl | hk
    · exact TokenKind.noConfusion
    · exact TokenKind.noConfusion
    · exact TokenKind.noConfusion
    · exact hc k hk
  | pair name gap₁ gap₂ value =>
    rw [Head.line, tokens_ofTokens] at hk
    simp only [List.mem_append, List.mem_singleton] at hk
    rcases hk with rfl | rfl | hk | hk
    · rw [Token.kind_required]
      exact TokenKind.noConfusion
    · exact TokenKind.noConfusion
    · rw [Token.kind_optional hk]
      exact TokenKind.noConfusion
    · exact hc k hk

theorem Layout.kind_ne_other (start : Nat) (l : Layout) :
    ∀ k ∈ (l.line start).tokens, k.kind ≠ .other := by
  cases l with
  | comment c =>
    intro k hk
    obtain rfl : k = .at .comment start c := by
      simpa [Layout.line, Line.ofComment, Line.tokens] using hk
    exact TokenKind.noConfusion
  | directive head gap c =>
    refine head.kind_ne_other start fun k hk => ?_
    rw [Token.kind_optional hk]
    exact TokenKind.noConfusion

theorem Document.kind_ne_other {t : Text} {l : Line} (h : l ∈ (Document.parse t).lines) :
    ∀ k ∈ l.tokens, k.kind ≠ .other := by
  obtain ⟨a, start, rfl⟩ := Document.exists_layout h
  exact a.kind_ne_other start

theorem Category.exists_ofToken? {kind : TokenKind} (h : kind ≠ .other) :
    ∃ c, Category.ofToken? kind = some c := by
  cases kind with
  | other => exact absurd rfl h
  | comment | delimiter | name | value => exact ⟨_, rfl⟩

/-! ## Classified spans -/

variable {t : Text} {k : Token}

theorem Token.Reads.touches (h : k.Reads t) : k.span.touches (Document.parse t).span := by
  have hfirst := h.first
  have hlast := h.last
  have hproper : k.span.start ≤ k.span.stop := by
    cases hm : k.missing with
    | false => exact Int.le_of_lt (h.present hm).1
    | true => exact Int.le_of_eq (h.absent hm).1
  rw [Document.span_parse]
  simp only [Span.touches, Bool.and_eq_true, decide_eq_true_eq]
  omega

theorem Token.classify?_some {range : Span} {c : Classification}
    (h : k.classify? range = some c) : k.missing = false ∧ c.span = k.span := by
  unfold Token.classify? at h
  split at h
  · exact absurd h (by simp)
  · next hm =>
    obtain ⟨_, -, rfl⟩ := Option.map_eq_some_iff.mp h
    refine ⟨?_, rfl⟩
    cases hk : k.missing with
    | false => rfl
    | true => exact absurd (by simp [hk]) hm

/-- A token of a document is displayed at an offset behind the byte order mark if it is really there
and holds the offset. -/
theorem Token.classify?_document (hk : k ∈ (Document.parse t).allTokens) {p : Nat}
    (hp : ∀ m ∈ (Document.parse t).leading, m.span.contains p = false) :
    ((k.classify? (Document.parse t).span).map fun c => c.span.contains p).getD false =
      (!k.missing && k.span.contains p) := by
  have htouches := (Document.reads_tokens t k hk).touches
  unfold Token.classify?
  cases hm : k.missing with
  | true => simp
  | false =>
    rw [Document.allTokens_eq] at hk
    rcases List.mem_append.mp hk with hk | hk
    · rw [hp k hk]
      cases Category.ofToken? k.kind <;> simp [hp k hk, htouches]
    · obtain ⟨l, hl, hkl⟩ := List.mem_flatMap.mp hk
      obtain ⟨c, hc⟩ := Category.exists_ofToken? (Document.kind_ne_other hl k hkl)
      simp [hc, htouches]

theorem Document.countP_classify {p : Nat} {b : UInt8} (hb : t[p]? = some b) (hi : isInk b)
    (hp : ∀ m ∈ (Document.parse t).leading, m.span.contains p = false) :
    ((Document.parse t).classify (Document.parse t).span).countP
      (fun c => c.span.contains p) = 1 := by
  have hone := (Document.fills t).countP_eq_one hb hi
  rw [Nat.zero_add] at hone
  rw [Document.classify, List.countP_filterMap, ← hone]
  refine List.countP_congr fun k hk => ?_
  rw [Token.classify?_document hk hp]

theorem Document.pairwise_classify (t : Text) {range : Span} :
    ((Document.parse t).classify range).Pairwise fun c e =>
      c.span.start < e.span.start ∧ c.span.stop ≤ e.span.start := by
  have hsorted : (Document.parse t).allTokens.Pairwise fun k m =>
      k.span.stop ≤ m.span.start ∧ (k.missing = false → k.span.start < k.span.stop) :=
    (Document.fills t).ordered.imp_of_mem fun hk _ hle =>
      ⟨hle, fun hm => ((Document.reads_tokens t _ hk).present hm).1⟩
  refine hsorted.filterMap _ fun k m hkm c hc e he => ?_
  obtain ⟨hmissing, hcspan⟩ := Token.classify?_some hc
  obtain ⟨-, hespan⟩ := Token.classify?_some he
  have hpos := hkm.2 hmissing
  rw [hcspan, hespan]
  exact ⟨Int.lt_of_lt_of_le hpos hkm.1, hkm.1⟩

/-- **Nothing is lost and nothing is counted twice.** What lies in no token is a blank or a line
break; no token has a line break in it, and none starts or ends with a blank. Behind the byte order
mark every other byte lies in exactly one classified span, and the classified spans are disjoint and
in order. -/
theorem Document.classify_exact (t : Text) :
    let d := Document.parse t
    (∀ (p : Nat) (b : UInt8), t[p]? = some b →
      (∀ k ∈ d.allTokens, k.missing = false → k.span.contains p = false) →
        isBlank b ∨ isBreak b) ∧
    (∀ k ∈ d.allTokens, (∀ b ∈ k.value, isBreak b = false) ∧ k.value.Trimmed) ∧
    (∀ (p : Nat) (b : UInt8), t[p]? = some b → isBlank b = false → isBreak b = false →
      (∀ k ∈ d.leading, k.span.contains p = false) →
        (d.classify d.span).countP (fun c => c.span.contains p) = 1) ∧
    (d.classify d.span).Pairwise fun c e =>
      c.span.start < e.span.start ∧ c.span.stop ≤ e.span.start := by
  intro d
  refine ⟨fun p b hb hnone => ?_, fun k hk => ?_, fun p b hb hblank hbreak hp => ?_,
    Document.pairwise_classify t⟩
  · by_contra hink
    rw [not_or, Bool.not_eq_true, Bool.not_eq_true] at hink
    obtain ⟨k, hk, hm, hc⟩ := Document.exists_token hb (isInk_iff.mpr hink)
    rw [hnone k hk hm] at hc
    exact Bool.noConfusion hc
  · exact ((Document.fills t).trimmed k hk).symm
  · exact Document.countP_classify hb (isInk_iff.mpr ⟨hblank, hbreak⟩) hp

/-- A byte order mark, a name without a value, and a comment in front of a carriage return. -/
def commentedName : Text := byteOrderMark ++ utf8 "allow: # x\r"

theorem Document.classify_exact_commented :
    let d := Document.parse commentedName
    (commentedName[9]? = some 0x20 ∧ (isBlank 0x20 ∨ isBreak 0x20)) ∧
      commentedName[10]? = some 0x23 ∧
      (d.classify d.span).countP (fun c => c.span.contains (10 : Nat)) = 1 := by
  intro d
  obtain ⟨houtside, -, hink, -⟩ := Document.classify_exact commentedName
  exact ⟨⟨by decide, houtside 9 0x20 (by decide) (by decide +kernel)⟩, by decide,
    hink 10 0x23 (by decide) (by decide) (by decide) (by decide +kernel)⟩

end RobotsTxt
