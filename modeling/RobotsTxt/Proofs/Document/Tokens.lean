import RobotsTxt.Proofs.Document.Order

/-!
# Tokens in their text

The tokens of a document are pieces of its text. Between two of them there are blanks and line
breaks only, and a stand-in for a missing token takes no room.

* `Fills`: tokens that fill a text, piece by piece.
* `Fills.append`: two texts that are filled one after the other.
* `Layout.fills`, `fills_readLines`: the tokens of a line, and of several lines.
* **`Document.fills`**: the tokens of a document fill its text.
* `Fills.inside`, `Fills.ordered`, `Fills.reads`, **`Fills.countP_eq_one`**: what follows for each
  token, and for each byte.
-/

namespace RobotsTxt

/-- **Tokens that fill a text**, which stands at an offset: every piece of the text that a token
holds starts and ends with ink and has no line break in it, and there is no ink beside the pieces.
-/
inductive Fills : Nat → Text → List Token → Prop
  | nil (start : Nat) : Fills start [] []
  | skip {start : Nat} {b : UInt8} {t : Text} {ks : List Token} (hb : isInk b = false)
      (h : Fills (start + 1) t ks) : Fills start (b :: t) ks
  | piece {start : Nat} {v t : Text} {ks : List Token} (kind : TokenKind) (hv : v ≠ [])
      (ht : v.Trimmed) (hu : ∀ b ∈ v, isBreak b = false) (h : Fills (start + v.length) t ks) :
      Fills start (v ++ t) (.at kind start v :: ks)
  | standIn {start : Nat} {t : Text} {ks : List Token} (kind : TokenKind) (h : Fills start t ks) :
      Fills start t (.missingAt kind start :: ks)

/-- A token of a text: it holds what stands in its span, or stands for nothing in an empty span. -/
structure Token.Reads (source : Text) (k : Token) : Prop where
  first : 0 ≤ k.span.start
  last : k.span.stop ≤ source.length
  present : k.missing = false → k.span.start < k.span.stop ∧
    k.value = source.slice k.span.start.toNat k.span.stop.toNat
  absent : k.missing = true → k.span.start = k.span.stop ∧ k.value = []

namespace Fills

variable {start : Nat} {s t : Text} {ks ms : List Token} {k : Token}

/-! ## Putting texts together -/

theorem append (h : Fills start s ks) (h' : Fills (start + s.length) t ms) :
    Fills start (s ++ t) (ks ++ ms) := by
  induction h with
  | nil start => exact h'
  | @skip start b s ks hb _ ih =>
    refine .skip hb (ih ?_)
    rwa [List.length_cons, Nat.add_comm s.length, ← Nat.add_assoc] at h'
  | @piece start v s ks kind hv ht hu _ ih =>
    rw [List.append_assoc]
    refine .piece kind hv ht hu (ih ?_)
    rwa [List.length_append, ← Nat.add_assoc] at h'
  | standIn kind _ ih => exact .standIn kind (ih h')

theorem gap (start : Nat) (h : ∀ b ∈ t, isInk b = false) : Fills start t [] := by
  induction t generalizing start with
  | nil => exact .nil start
  | cons b t ih =>
    exact .skip (h b List.mem_cons_self) (ih _ fun a ha => h a (List.mem_cons_of_mem _ ha))

theorem blank (start : Nat) (h : t.IsBlank) : Fills start t [] :=
  gap start fun b hb => by simp [isInk, h b hb]

theorem after_blank (hs : s.IsBlank) (h : Fills (start + s.length) t ks) :
    Fills start (s ++ t) ks :=
  (blank start hs).append h

theorem single (kind : TokenKind) (start : Nat) (hne : t ≠ []) (ht : t.Trimmed)
    (hu : ∀ b ∈ t, isBreak b = false) : Fills start t [.at kind start t] := by
  have h := Fills.piece kind hne ht hu (.nil (start + t.length))
  rwa [List.append_nil] at h

theorem solid (kind : TokenKind) (start : Nat) (hne : t ≠ [])
    (h : t.all fun b => !isBlank b && !isBreak b) : Fills start t [.at kind start t] := by
  have hall : ∀ b ∈ t, isBlank b = false ∧ isBreak b = false := by simpa using h
  refine single kind start hne ⟨fun b hb => ?_, fun b hb => ?_⟩ fun b hb => (hall b hb).2
  · exact (hall b (List.mem_of_mem_head? hb)).1
  · exact (hall b (List.mem_of_mem_getLast? hb)).1

theorem optional (kind : TokenKind) (start : Nat) (ht : t.Trimmed)
    (hu : ∀ b ∈ t, isBreak b = false) : Fills start t (Token.optional kind start t).toList := by
  cases t with
  | nil => exact .nil start
  | cons b t => exact .single kind start (List.cons_ne_nil b t) ht hu

theorem required (start : Nat) (ht : t.Trimmed) (hu : ∀ b ∈ t, isBreak b = false) :
    Fills start t [Token.required start t] := by
  cases t with
  | nil => exact .standIn .name (.nil start)
  | cons b t => exact .single .name start (List.cons_ne_nil b t) ht hu

/-! ## What follows for each token -/

theorem inside (h : Fills start t ks) : ∀ k ∈ ks, (start : Int) ≤ k.span.start ∧
    k.span.start ≤ k.span.stop ∧ k.span.stop ≤ (start + t.length : Nat) := by
  induction h with
  | nil start => simp
  | @skip start b t ks hb _ ih =>
    intro k hk
    have := ih k hk
    rw [List.length_cons]
    omega
  | @piece start v t ks kind hv ht hu _ ih =>
    intro k hk
    rw [List.length_append]
    rcases List.mem_cons.mp hk with rfl | hk
    · simp only [Token.at]
      omega
    · have := ih k hk
      omega
  | @standIn start t ks kind _ ih =>
    intro k hk
    rcases List.mem_cons.mp hk with rfl | hk
    · simp only [Token.missingAt, Span.empty]
      omega
    · exact ih k hk

theorem ordered (h : Fills start t ks) : ks.Pairwise fun k m => k.span.stop ≤ m.span.start := by
  induction h with
  | nil start => exact .nil
  | skip _ _ ih => exact ih
  | @piece start v t ks kind hv ht hu h ih =>
    refine List.pairwise_cons.mpr ⟨fun m hm => ?_, ih⟩
    have := (h.inside m hm).1
    simp only [Token.at]
    omega
  | standIn kind h ih => exact List.pairwise_cons.mpr ⟨fun m hm => (h.inside m hm).1, ih⟩

theorem trimmed (h : Fills start t ks) :
    ∀ k ∈ ks, k.value.Trimmed ∧ ∀ b ∈ k.value, isBreak b = false := by
  induction h with
  | nil start => simp
  | skip _ _ ih => exact ih
  | piece kind hv ht hu _ ih => exact List.forall_mem_cons.mpr ⟨⟨ht, hu⟩, ih⟩
  | standIn kind _ ih =>
    exact List.forall_mem_cons.mpr ⟨⟨⟨by simp [Token.missingAt], by simp [Token.missingAt]⟩,
      by simp [Token.missingAt]⟩, ih⟩

theorem reads (pre post : Text) (h : Fills pre.length t ks) :
    ∀ k ∈ ks, k.Reads (pre ++ t ++ post) := by
  -- The text in front grows with every piece, so that the source stays as it is.
  generalize hs : pre.length = start at h
  induction h generalizing pre with
  | nil start => simp
  | @skip start b t ks hb _ ih =>
    have hsource : pre ++ b :: t ++ post = (pre ++ [b]) ++ t ++ post := by simp
    rw [hsource]
    exact ih _ (by simp [hs])
  | @piece start v t ks kind hv ht hu h ih =>
    refine List.forall_mem_cons.mpr ⟨⟨?_, ?_, fun _ => ⟨?_, ?_⟩, fun hm => ?_⟩, ?_⟩
    · simp [Token.at]
    · simp only [Token.at, List.length_append]
      omega
    · have := List.length_pos_of_ne_nil hv
      simp only [Token.at]
      omega
    · have hstop : ((pre.length : Int) + (v.length : Int)).toNat = pre.length + v.length := by omega
      have hslice : (pre ++ v ++ (t ++ post)).slice pre.length (pre.length + v.length) = v := by
        simp [Text.slice]
      simp only [Token.at, ← hs, Int.toNat_natCast, hstop]
      simpa using hslice.symm
    · exact absurd hm (by simp [Token.at])
    · rw [← List.append_assoc pre]
      exact ih _ (by simp [hs])
  | @standIn start t ks kind h ih =>
    refine List.forall_mem_cons.mpr ⟨⟨?_, ?_, fun hm => ?_, fun _ => ⟨rfl, rfl⟩⟩, ih pre hs⟩
    · simp [Token.missingAt, Span.empty]
    · simp only [Token.missingAt, Span.empty, List.length_append]
      omega
    · exact absurd hm (by simp [Token.missingAt])

/-! ## What follows for each byte -/

theorem countP_eq_zero {p : Nat} (h : Fills start t ks) (hp : p < start) :
    ks.countP (fun k => !k.missing && k.span.contains p) = 0 := by
  refine List.countP_eq_zero.mpr fun k hk => ?_
  have := (h.inside k hk).1
  rw [Bool.and_eq_true, Span.contains_iff]
  omega

/-- **Every byte of ink lies in exactly one token that is not missing.** -/
theorem countP_eq_one {p : Nat} {b : UInt8} (h : Fills start t ks) (hb : t[p]? = some b)
    (hi : isInk b) : ks.countP (fun k => !k.missing && k.span.contains (start + p : Nat)) = 1 := by
  induction h generalizing p with
  | nil start => simp at hb
  | @skip start a t ks ha _ ih =>
    cases p with
    | zero =>
      obtain rfl : a = b := by simpa using hb
      exact absurd hi (by simp [ha])
    | succ p =>
      have hrest := ih (p := p) (by simpa using hb)
      rwa [Nat.add_assoc, Nat.add_comm 1 p] at hrest
  | @piece start v t ks kind hv ht hu h ih =>
    rw [List.countP_cons]
    by_cases hp : p < v.length
    · rw [h.countP_eq_zero (by omega), if_pos]
      simp only [Token.at, Bool.not_false, Bool.true_and, Span.contains_iff]
      omega
    · have hrest := ih (p := p - v.length) (by
        rwa [List.getElem?_append_right (by omega)] at hb)
      rw [show start + v.length + (p - v.length) = start + p by omega] at hrest
      rw [hrest, if_neg]
      simp only [Token.at, Bool.not_false, Bool.true_and, Span.contains_iff]
      omega
  | standIn kind _ ih =>
    rw [List.countP_cons_of_neg (by simp [Token.missingAt])]
    exact ih hb

end Fills

/-! ## Lines -/

theorem tokens_ofTokens (start : Nat) (name delimiter : Token) (value? comment? : Option Token) :
    (Line.ofTokens start name delimiter value? comment?).tokens =
      [name] ++ ([delimiter] ++ (value?.toList ++ comment?.toList)) := by
  cases value? <;> cases comment? <;> rfl

theorem noBreak_left {s t : Text} (h : ∀ b ∈ s ++ t, isBreak b = false) :
    ∀ b ∈ s, isBreak b = false := fun b hb => h b (List.mem_append_left t hb)

theorem noBreak_right {s t : Text} (h : ∀ b ∈ s ++ t, isBreak b = false) :
    ∀ b ∈ t, isBreak b = false := fun b hb => h b (List.mem_append_right s hb)

/-- The tokens of a head, with those that follow it after a gap. -/
theorem Head.fills (start : Nat) {h : Head} {gap c : Text} {comment? : Option Token} (hv : h.Valid)
    (hg : gap.IsBlank) (hu : ∀ b ∈ h.text, isBreak b = false)
    (hc : Fills (start + (h.text ++ gap).length) c comment?.toList) :
    Fills start (h.text ++ gap ++ c) (h.line start comment?).tokens := by
  have hgap : Fills (start + h.text.length) (gap ++ c) comment?.toList := by
    refine .after_blank hg ?_
    rwa [List.length_append, ← Nat.add_assoc] at hc
  rw [List.append_assoc]
  cases h with
  | bare name =>
    rw [Head.line, tokens_ofTokens]
    refine (Fills.single .name start hv.2 hv.1.trimmed hu).append ?_
    exact .standIn .delimiter (.standIn .value hgap)
  | pair name gap₁ gap₂ value =>
    obtain ⟨hn, ⟨h₁, -⟩, ⟨h₂, -⟩, hval, -⟩ := hv
    have hname := noBreak_left (noBreak_left hu)
    have hvalue : ∀ b ∈ value, isBreak b = false := fun b hb => hu b (by simp [Head.text, hb])
    have htext : (Head.pair name gap₁ gap₂ value).text ++ (gap ++ c) =
        name ++ (gap₁ ++ ([0x3A] ++ (gap₂ ++ (value ++ (gap ++ c))))) := by simp [Head.text]
    have hlen : start + (Head.pair name gap₁ gap₂ value).text.length =
        start + (name ++ gap₁).length + 1 + gap₂.length + value.length := by
      simp [Head.text]
      omega
    rw [htext, Head.line, tokens_ofTokens]
    rw [hlen] at hgap
    refine (Fills.required start hn.trimmed hname).append ?_
    refine .after_blank h₁ ?_
    rw [Nat.add_assoc start, ← List.length_append]
    refine (Fills.solid .delimiter _ (by simp) (by decide)).append ?_
    exact .after_blank h₂ ((Fills.optional .value _ hval hvalue).append hgap)

theorem Layout.fills (start : Nat) {l : Layout} (hv : l.Valid)
    (hu : ∀ b ∈ l.text, isBreak b = false) : Fills start l.text (l.line start).tokens := by
  cases l with
  | comment c => exact .single .comment start hv.ne_nil ⟨hv.blank_first, hv.last⟩ hu
  | directive head gap c =>
    obtain ⟨hh, hg, hc⟩ := hv
    have htrim : c.Trimmed := by
      rcases hc with ⟨rfl, -⟩ | hc
      · exact ⟨by simp, by simp⟩
      · exact ⟨hc.blank_first, hc.last⟩
    exact Head.fills start hh hg (noBreak_left (noBreak_left hu))
      (.optional .comment _ htrim (noBreak_right hu))

/-- The tokens of a line fill the stretch that it spans, and there is no ink around the stretch. -/
theorem Line.exists_fills {start : Nat} {c : Text} {l : Line} (h : Line.read? start c = some l)
    (hu : ∀ b ∈ c, isBreak b = false) : ∃ lead m trail : Text, c = lead ++ m ++ trail ∧
      lead.IsBlank ∧ trail.IsBlank ∧ m ≠ [] ∧ Fills (start + lead.length) m l.tokens ∧
      l.span = ⟨(start + lead.length : Nat), (start + lead.length + m.length : Nat)⟩ := by
  obtain ⟨lead, layout, trail, hv, hl, ht, rfl, rfl⟩ := Line.exists_layout_of_read? h
  refine ⟨lead, layout.text, trail, rfl, hl, ht, Layout.text_ne_nil hv,
    Layout.fills _ hv (noBreak_right (noBreak_left hu)), ?_⟩
  rw [Layout.span_line _ hv]
  simp

theorem Line.fills_read? (start : Nat) {c : Text} (hu : ∀ b ∈ c, isBreak b = false) :
    Fills start c ((Line.read? start c).toList.flatMap Line.tokens) := by
  cases h : Line.read? start c with
  | none => exact .blank start (Line.read?_eq_none_iff.mp h)
  | some l =>
    obtain ⟨lead, m, trail, rfl, hl, ht, -, hf, -⟩ := Line.exists_fills h hu
    have hm := Fills.after_blank hl hf
    simpa using hm.append (.blank _ ht)

theorem fills_readLines (start : Nat) {ls : List RawLine}
    (hc : ∀ r ∈ ls, ∀ b ∈ r.content, isBreak b = false) (he : ∀ r ∈ ls, ∀ b ∈ r.ending, isBreak b) :
    Fills start (joinLines ls) ((readLines start ls).reduceOption.flatMap Line.tokens) := by
  induction ls generalizing start with
  | nil => exact .nil start
  | cons r ls ih =>
    have hline := Line.fills_read? start (hc r List.mem_cons_self)
    have hend : Fills (start + r.content.length) r.ending [] :=
      .gap _ fun b hb => by simp [isInk, he r List.mem_cons_self b hb]
    have hrest := ih (start + (r.content ++ r.ending).length)
      (fun s hs => hc s (List.mem_cons_of_mem _ hs)) (fun s hs => he s (List.mem_cons_of_mem _ hs))
    have hall := (hline.append hend).append hrest
    rw [joinLines_cons, readLines]
    cases hr : Line.read? start r.content with
    | none =>
      simpa [hr, Nat.add_assoc, List.reduceOption_cons_of_none] using hall
    | some l =>
      simpa [hr, Nat.add_assoc, List.reduceOption_cons_of_some] using hall

/-! ## Documents -/

theorem Document.lines_parse (t : Text) :
    (Document.parse t).lines = (readLines t.mark.length (splitLines t.body)).reduceOption := by
  rw [Document.lines, Document.records_parse, ← flatten_groups, ← Record.map_lines_readAll,
    List.flatMap_def]

theorem Document.allTokens_eq (d : Document) :
    d.allTokens = d.leading ++ d.lines.flatMap Line.tokens := by
  have hrecord : ∀ r : Record, (Node.walkRecord (fun _ => true) r).flatMap Node.tokens =
      r.lines.flatMap Line.tokens := fun r => by
    simp [Node.walkRecord, Node.tokens, List.flatMap_map]
  simp only [Document.allTokens, Node.allTokens, Node.descendants, Node.walk, List.flatMap_cons,
    if_true, List.flatMap_assoc, hrecord, Document.lines]
  rfl

theorem Document.fills_body (t : Text) :
    Fills t.mark.length t.body ((Document.parse t).lines.flatMap Line.tokens) := by
  have h := fills_readLines t.mark.length
    (fun _ hr => noBreak_of_mem_splitLines (t := t.body) hr) (fun _ hr => isBreak_of_mem_ending hr)
  rwa [joinLines_splitLines, ← Document.lines_parse] at h

theorem Document.fills_mark (t : Text) : Fills 0 t.mark (Document.parse t).leading := by
  rw [Document.leading_parse]
  rcases t.mark_eq_or with h | h
  · rw [h]
    exact .solid .other 0 (by decide) (by decide)
  · rw [h]
    exact .nil 0

/-- **The tokens of a document fill its text.** -/
theorem Document.fills (t : Text) : Fills 0 t (Document.parse t).allTokens := by
  have hbody : Fills (0 + t.mark.length) t.body ((Document.parse t).lines.flatMap Line.tokens) := by
    rw [Nat.zero_add]
    exact Document.fills_body t
  have h := (Document.fills_mark t).append hbody
  rwa [t.mark_append_body, ← Document.allTokens_eq] at h

end RobotsTxt
