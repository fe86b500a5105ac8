import RobotsTxt.Editor.SemanticTokens
import RobotsTxt.Proofs.Document.Coverage
import RobotsTxt.Proofs.Document.Edges

/-!
# Reading semantic tokens

What an editor reads out of the numbers of semantic tokens. It adds in `ℕ`, where nothing wraps
around, so a difference that had wrapped around would lead it to another place.

* `decodeTokens`: the tokens that an editor reads.
* `encodeTokensFrom_decode`: spans in order are read back, whatever the token before them.
* **`Document.encodeTokens_exact`**: the tokens of a document are read back.
-/

namespace RobotsTxt

/-! ## What an editor reads -/

/-- A token as an editor displays it: where it starts, its length in UTF-16 units and its category.
-/
structure TokenPlace where
  line : Nat
  character : Nat
  length : Nat
  category : Category
  deriving Repr, DecidableEq

/-- One token ends before or where the other starts. -/
def TokenPlace.Before (p q : TokenPlace) : Prop :=
  p.line < q.line ∨ p.line = q.line ∧ p.character + p.length ≤ q.character

/-- The tokens in some numbers that come after a token at a given place. The first number leads down
from its line. The second one leads right from its character on the same line, and else from the
start of the line. -/
def decodeTokensFrom : (line character : Nat) → List UInt32 → Option (List TokenPlace)
  | _, _, [] => some []
  | line, character, down :: right :: length :: code :: _ :: rest => do
    let line' := line + down.toNat
    let character' := if down = 0 then character + right.toNat else right.toNat
    let category ← Category.all[code.toNat]?
    let places ← decodeTokensFrom line' character' rest
    return ⟨line', character', length.toNat, category⟩ :: places
  | _, _, _ => none

/-- The tokens in some numbers. -/
def decodeTokens (data : List UInt32) : Option (List TokenPlace) := decodeTokensFrom 0 0 data

/-- Where a classified span of a text is, and how long. -/
def Classification.place (t : Text) (c : Classification) : TokenPlace :=
  let start := t.positionAt c.span.start.toNat
  let length := units16 (t.slice c.span.start.toNat c.span.stop.toNat)
  ⟨start.line, start.character, length, c.category⟩

/-- None of the differences that are written for some spans wraps around. -/
def NoneWraps (t : Text) : (line character : UInt32) → List Classification → Prop
  | _, _, [] => True
  | line, character, c :: cs =>
    let start := t.positionAt c.span.start.toNat
    let stop := t.positionAt c.span.stop.toNat
    let line' := UInt32.ofNat start.line
    let character' := UInt32.ofNat start.character
    line ≤ line' ∧ (line' - line = 0 → character ≤ character') ∧
      character' ≤ UInt32.ofNat stop.character ∧ NoneWraps t line' character' cs

/-! ## Numbers -/

theorem ofNat_le_ofNat {a b : Nat} (h : a ≤ b) (hb : b < UInt32.size) :
    UInt32.ofNat a ≤ UInt32.ofNat b := by
  rw [UInt32.le_iff_toNat_le, UInt32.toNat_ofNat_of_lt' hb,
    UInt32.toNat_ofNat_of_lt' (Nat.lt_of_le_of_lt h hb)]
  exact h

theorem toNat_ofNat_sub {a b : Nat} (h : a ≤ b) (hb : b < UInt32.size) :
    (UInt32.ofNat b - UInt32.ofNat a).toNat = b - a := by
  rw [UInt32.toNat_sub_of_le _ _ (ofNat_le_ofNat h hb), UInt32.toNat_ofNat_of_lt' hb,
    UInt32.toNat_ofNat_of_lt' (Nat.lt_of_le_of_lt h hb)]

theorem ofNat_sub_eq_zero {a b : Nat} (h : a ≤ b) (hb : b < UInt32.size) :
    UInt32.ofNat b - UInt32.ofNat a = 0 ↔ a = b := by
  have hsub := toNat_ofNat_sub h hb
  rw [← UInt32.toNat_inj, hsub]
  show b - a = 0 ↔ a = b
  omega

theorem Category.all_code (c : Category) : all[(UInt32.ofNat c.code).toNat]? = some c := by
  cases c <;> rfl

/-! ## One token -/

/-- A span that is not empty and lies in a single line of a text, which has places for it. -/
structure Classification.Placed (t : Text) (c : Classification) : Prop where
  first : 0 ≤ c.span.start
  nonempty : c.span.start < c.span.stop
  last : c.span.stop ≤ t.length
  stop : t.positionAt c.span.stop.toNat =
    ⟨(c.place t).line, (c.place t).character + (c.place t).length⟩

namespace Classification

variable {t : Text} {c e : Classification} {cs : List Classification}

theorem Placed.rangeOf (h : c.Placed t) :
    t.rangeOf c.span = .ok ⟨t.positionAt c.span.start.toNat, t.positionAt c.span.stop.toNat⟩ :=
  Text.rangeOf_eq h.first (Int.le_of_lt h.nonempty) h.last

theorem Placed.length_pos (h : c.Placed t) : 0 < (c.place t).length := by
  refine units16_pos fun hnil => ?_
  obtain ⟨hfirst, hnonempty, hlast, -⟩ := h
  have hlen := Text.length_slice (t := t) (i := c.span.start.toNat) (j := c.span.stop.toNat)
    (by omega)
  rw [hnil, List.length_nil] at hlen
  omega

end Classification

/-- The numbers of a token after one at a given place. -/
def TokenPlace.numbers (line character : UInt32) (p : TokenPlace) : List UInt32 :=
  let line' := UInt32.ofNat p.line
  let character' := UInt32.ofNat p.character
  [line' - line, if line' - line = 0 then character' - character else character',
    UInt32.ofNat (p.character + p.length) - character', UInt32.ofNat p.category.code, 0]

section Run

variable {t : Text} {c : Classification} {cs : List Classification}

/-- **What is written for one token.** -/
theorem encodeTokensFrom_cons (h : c.Placed t) (line character : UInt32) :
    encodeTokensFrom t line character (c :: cs) =
      (encodeTokensFrom t (UInt32.ofNat (c.place t).line) (UInt32.ofNat (c.place t).character)
        cs).map ((c.place t).numbers line character ++ ·) := by
  have hempty : ¬ c.span.isEmpty = true := fun he =>
    Int.ne_of_lt h.nonempty (beq_iff_eq.mp he)
  have hline : ¬ (t.positionAt c.span.start.toNat).line ≠ (c.place t).line := not_not.mpr rfl
  rw [encodeTokensFrom, if_neg hempty, h.rangeOf]
  simp only [h.stop]
  rw [if_neg hline]
  rfl

/-- **What is read for one token.** -/
theorem decodeTokensFrom_numbers {line character : Nat} {p : TokenPlace}
    (hline : p.line < UInt32.size) (hstop : p.character + p.length < UInt32.size)
    (hdown : line ≤ p.line) (hright : line = p.line → character ≤ p.character)
    (rest : List UInt32) :
    decodeTokensFrom line character
        (p.numbers (UInt32.ofNat line) (UInt32.ofNat character) ++ rest) =
      (decodeTokensFrom p.line p.character rest).map (p :: ·) := by
  have hstart : p.character < UInt32.size := by omega
  have hline' : line + (UInt32.ofNat p.line - UInt32.ofNat line).toNat = p.line := by
    rw [toNat_ofNat_sub hdown hline]
    omega
  have hlength : (UInt32.ofNat (p.character + p.length) - UInt32.ofNat p.character).toNat =
      p.length := by
    rw [toNat_ofNat_sub (Nat.le_add_right _ _) hstop, Nat.add_sub_cancel_left]
  simp only [TokenPlace.numbers, List.cons_append, List.nil_append, decodeTokensFrom, hline',
    hlength, Category.all_code, ofNat_sub_eq_zero hdown hline]
  by_cases hsame : line = p.line
  · have hcharacter : character + (UInt32.ofNat p.character - UInt32.ofNat character).toNat =
        p.character := by
      rw [toNat_ofNat_sub (hright hsame) hstart]
      have := hright hsame
      omega
    simp only [if_pos hsame, hcharacter]
    cases decodeTokensFrom p.line p.character rest <;> rfl
  · simp only [if_neg hsame, UInt32.toNat_ofNat_of_lt' hstart]
    cases decodeTokensFrom p.line p.character rest <;> rfl

/-! ## All tokens -/

/-- **Spans in order are read back**, and no difference wraps around. -/
theorem encodeTokensFrom_decode (ht : t.length < UInt32.size) (hplaced : ∀ c ∈ cs, c.Placed t)
    (hsorted : cs.Pairwise fun c e => (c.place t).Before (e.place t)) (line character : Nat)
    (hafter : ∀ c ∈ cs, line < (c.place t).line ∨
      line = (c.place t).line ∧ character ≤ (c.place t).character) :
    NoneWraps t (UInt32.ofNat line) (UInt32.ofNat character) cs ∧
    ∃ data, encodeTokensFrom t (UInt32.ofNat line) (UInt32.ofNat character) cs = .ok data ∧
      decodeTokensFrom line character data = some (cs.map (Classification.place t)) := by
  -- What carries the induction is that the place of the last token is in front of all the others.
  induction cs generalizing line character with
  | nil => exact ⟨trivial, [], rfl, rfl⟩
  | cons c cs ih =>
    obtain ⟨hc, hcs⟩ := List.forall_mem_cons.mp hplaced
    obtain ⟨hfirst, hrest⟩ := List.pairwise_cons.mp hsorted
    have hlines : line ≤ (c.place t).line := by
      rcases hafter c List.mem_cons_self with h | h <;> omega
    have hsame : line = (c.place t).line → character ≤ (c.place t).character := fun e => by
      rcases hafter c List.mem_cons_self with h | h <;> omega
    have hline : (c.place t).line < UInt32.size := (Text.positionAt_lt ht).1
    have hstart : (c.place t).character < UInt32.size := (Text.positionAt_lt ht).2
    have hstop : (c.place t).character + (c.place t).length < UInt32.size := by
      have h := (Text.positionAt_lt (o := c.span.stop.toNat) ht).2
      rwa [hc.stop] at h
    have hdown := ofNat_sub_eq_zero hlines hline
    have hbehind : ∀ e ∈ cs, (c.place t).line < (e.place t).line ∨
        (c.place t).line = (e.place t).line ∧ (c.place t).character ≤ (e.place t).character := by
      intro e he
      rcases hfirst e he with h | h
      · exact .inl h
      · exact .inr ⟨h.1, by omega⟩
    obtain ⟨hwraps, data, hdata, hread⟩ := ih hcs hrest _ _ hbehind
    refine ⟨⟨ofNat_le_ofNat hlines hline, fun e => ?_, ?_, hwraps⟩, ?_⟩
    · exact ofNat_le_ofNat (hsame (hdown.mp e)) hstart
    · rw [hc.stop]
      exact ofNat_le_ofNat (Nat.le_add_right _ _) hstop
    · refine ⟨(c.place t).numbers (UInt32.ofNat line) (UInt32.ofNat character) ++ data, ?_, ?_⟩
      · rw [encodeTokensFrom_cons hc, hdata]
        rfl
      · rw [decodeTokensFrom_numbers hline hstop hlines hsame, hread]
        rfl

end Run

/-! ## Tokens of a document -/

variable {t : Text} {range : Span} {c e : Classification}

theorem Document.exists_token_of_classify (h : c ∈ (Document.parse t).classify range) :
    ∃ k, c.span = k.span ∧ k.missing = false ∧ k ∈ (Document.parse t).allTokens ∧
      ∃ l ∈ (Document.parse t).lines, k ∈ l.tokens := by
  obtain ⟨k, hk, hc⟩ := List.mem_filterMap.mp h
  obtain ⟨hm, hspan⟩ := Token.classify?_some hc
  refine ⟨k, hspan, hm, hk, ?_⟩
  rw [Document.allTokens_eq] at hk
  rcases List.mem_append.mp hk with hk | hk
  · -- The byte order mark has no category.
    exfalso
    rw [Document.leading_parse] at hk
    split at hk
    · exact absurd hk List.not_mem_nil
    · obtain rfl := List.mem_singleton.mp hk
      simp [Token.classify?, Token.at, Category.ofToken?] at hc
  · exact List.mem_flatMap.mp hk

theorem Document.clean_classify (h : c ∈ (Document.parse t).classify range) :
    t.Clean c.span.start.toNat ∧ t.Clean c.span.stop.toNat := by
  obtain ⟨k, hspan, hm, -, l, hl, hk⟩ := Document.exists_token_of_classify h
  rw [hspan]
  exact Document.clean_token hl hk hm

theorem Document.placed_classify (h : c ∈ (Document.parse t).classify range) : c.Placed t := by
  obtain ⟨k, hspan, hm, hk, -⟩ := Document.exists_token_of_classify h
  obtain ⟨hfirst, hlast, hpresent, -⟩ := Document.reads_tokens t k hk
  obtain ⟨hpos, hvalue⟩ := hpresent hm
  obtain ⟨hstart, hstop⟩ := Document.clean_classify h
  rw [← hspan] at hfirst hlast hpos hvalue
  have hfeed : 0x0A ∉ t.slice c.span.start.toNat c.span.stop.toNat := fun hmem => by
    rw [← hvalue] at hmem
    exact absurd (((Document.fills t).trimmed k hk).2 _ hmem) (by decide)
  exact ⟨hfirst, hpos, hlast, Text.positionAt_between (by omega) hstart hstop hfeed⟩

theorem Document.before_of_le (hc : c ∈ (Document.parse t).classify range)
    (he : e ∈ (Document.parse t).classify range) (h : c.span.stop ≤ e.span.start) :
    (c.place t).Before (e.place t) := by
  have hle := (Document.clean_classify hc).2.positionAt_le (Document.clean_classify he).1
    (show c.span.stop.toNat ≤ e.span.start.toNat by omega)
  rw [(Document.placed_classify hc).stop] at hle
  exact hle

/-- **An editor reads exactly the classified spans.** For every text of less than 2 ^ 32 bytes and
every range, the classified spans are written without a fault and no difference wraps around. What
an editor reads in the numbers is the place, the length and the category of each span, in order.
Every length is positive and leads to the end of its span, and no token overlaps the one behind it.
-/
theorem Document.encodeTokens_exact (t : Text) (ht : t.length < UInt32.size) (range : Span) :
    let cs := (Document.parse t).classify range
    NoneWraps t 0 0 cs ∧
    (∃ data, encodeTokens t cs = .ok data ∧
      decodeTokens data = some (cs.map (Classification.place t))) ∧
    (∀ c ∈ cs, 0 < (c.place t).length ∧ t.positionAt c.span.stop.toNat =
      ⟨(c.place t).line, (c.place t).character + (c.place t).length⟩) ∧
    cs.Pairwise fun c e => (c.place t).Before (e.place t) := by
  intro cs
  have hplaced : ∀ c ∈ cs, c.Placed t := fun c hc => Document.placed_classify hc
  have hsorted : cs.Pairwise fun c e => (c.place t).Before (e.place t) :=
    (Document.pairwise_classify t).imp_of_mem fun hc he h => Document.before_of_le hc he h.2
  obtain ⟨hwraps, hread⟩ := encodeTokensFrom_decode ht hplaced hsorted 0 0 fun c _ => by omega
  exact ⟨hwraps, hread, fun c hc => ⟨(hplaced c hc).length_pos, (hplaced c hc).stop⟩, hsorted⟩

/-- A byte order mark, and three lines of which an editor counts the first two as one. -/
def clef : Text := byteOrderMark ++ utf8 "a: 𝄞\r#é\r\nb"

theorem Document.encodeTokens_exact_clef :
    clef.length < UInt32.size ∧
    ∃ data, encodeTokens clef ((Document.parse clef).classify ⟨0, 17⟩) = .ok data ∧
      decodeTokens data = some [⟨0, 1, 1, .propertyName⟩, ⟨0, 2, 1, .delimiter⟩,
        ⟨0, 4, 2, .propertyValue⟩, ⟨0, 7, 2, .comment⟩, ⟨1, 0, 1, .propertyName⟩] := by
  have hlen : clef.length < UInt32.size := by decide +kernel
  obtain ⟨-, ⟨data, hdata, hread⟩, -⟩ := Document.encodeTokens_exact clef hlen ⟨0, 17⟩
  refine ⟨hlen, data, hdata, hread.trans ?_⟩
  decide +kernel

end RobotsTxt
