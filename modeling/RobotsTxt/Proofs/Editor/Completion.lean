import RobotsTxt.Editor.Completion
import RobotsTxt.Proofs.Change.Content
import RobotsTxt.Proofs.Document.Carets

/-!
# Where names are offered

The name of a directive can go into a blank row, and where the name of a line is. Names are offered
there, but also beside the ink of a row that is not blank, where the caret reaches no line, and
everywhere on a line without a name.

* `Row.Fits`: where a name can go; `Row.Offers`: where names are offered.
* **`Document.exists_completionsAt`**: names are offered where `Row.Offers` says so.
* `Document.fits_of_offers_iff`: where this is right.
* **`Document.completions_fit_iff`**: both for the position of a caret;
  `Document.completions_indented`: a caret in the indentation.
-/

namespace RobotsTxt

/-! ## Where a name can go -/

/-- **A name can go** to an offset of a row if the row is blank, or if the offset is in the name of
its line or at an end of it. A name that is missing is at one offset only. -/
def Row.Fits (offset : Nat) (r : Row) : Prop :=
  r.content.IsBlank ∨
    ∃ (l : Line) (n : Token),
      l.Written r.start r.content ∧ l.name? = some n ∧ n.span.reaches offset

/-- **Names are offered** at an offset of a row unless it reaches a line there. On a line that it
reaches, the name has to be missing, or the offset has to be in it and a directive has to start with
what stands in front of the offset. -/
def Row.Offers (t : Text) (offset : Nat) (r : Row) : Prop :=
  ∀ l : Line, l.Written r.start r.content → l.span.reaches offset → ∃ n, l.name? = some n ∧
    (n.missing ∨ n.span.reaches offset ∧
      ∃ d ∈ Directive.known, (t.slice n.span.start.toNat offset).lower <+: d.name.lower)

namespace Row

variable {t : Text} {offset : Nat} {r : Row} {l : Line} {n : Token}

theorem exists_written (h : ¬ r.content.IsBlank) : ∃ l : Line, l.Written r.start r.content := by
  cases hl : Line.read? r.start r.content with
  | none => exact absurd (Line.read?_eq_none_iff.mp hl) h
  | some l => exact ⟨l, Line.written_iff.mpr hl⟩

theorem fits_iff_of_written (hl : l.Written r.start r.content) :
    r.Fits offset ↔ ∃ n, l.name? = some n ∧ n.span.reaches offset := by
  constructor
  · rintro (hb | ⟨m, n, hm, hn, hreaches⟩)
    · exact absurd hb (Line.not_isBlank_of_read? (Line.written_iff.mp hl))
    · exact ⟨n, hl.unique hm ▸ hn, hreaches⟩
  · rintro ⟨n, hn, hreaches⟩
    exact .inr ⟨l, n, hl, hn, hreaches⟩

theorem fits_iff : r.Fits offset ↔ r.content.IsBlank ∨
    ((Line.read? r.start r.content).bind Line.name?).any fun n => n.span.reaches offset := by
  refine or_congr_right ⟨?_, fun h => ?_⟩
  · rintro ⟨l, n, hl, hn, hc⟩
    rw [Line.written_iff.mp hl, Option.bind_some, hn]
    exact hc
  · obtain ⟨n, hn, hc⟩ := (Option.any_eq_true _ _).mp h
    obtain ⟨l, hl, hn⟩ := Option.bind_eq_some_iff.mp hn
    exact ⟨l, n, Line.written_iff.mpr hl, hn, hc⟩

instance (offset : Nat) (r : Row) : Decidable (r.Fits offset) := decidable_of_iff' _ fits_iff

theorem offers_iff_of_written (hl : l.Written r.start r.content) (hc : l.span.reaches offset) :
    r.Offers t offset ↔ ∃ n, l.name? = some n ∧ (n.missing ∨ n.span.reaches offset ∧
      ∃ d ∈ Directive.known, (t.slice n.span.start.toNat offset).lower <+: d.name.lower) :=
  ⟨fun h => h l hl hc, fun h _ hm _ => hl.unique hm ▸ h⟩

end Row

/-! ## The names that are offered -/

theorem CompletionSite.items_ne_nil_iff (site : CompletionSite) (range : Range) :
    site.items range ≠ [] ↔ ∃ d ∈ Directive.known, site.start <+: d.name.lower := by
  have hrank : ∀ d, d ∈ Directive.known ↔ ∃ rank, (d, rank) ∈ Directive.known.zipIdx := by
    simp [List.mem_iff_getElem?]
  rw [items, Ne, List.filterMap_eq_nil_iff]
  simp [hrank]

namespace Document

variable {t : Text} {offset : Nat} {r : Row} {l : Line} {n : Token}

theorem kind_of_name (hl : l ∈ (parse t).lines) (hn : l.name? = some n) :
    l.kind ≠ .commentLine := by
  cases shaped_of_mem_lines hl with
  | comment _ name => exact absurd (hn.symm.trans name) (by simp)
  | directive kind =>
    intro hkind
    rw [hkind] at kind
    exact absurd kind (by decide)

theorem completionSite?_of_name (h : (parse t).lineAt? offset = some l) (hn : l.name? = some n) :
    ∃ delimited, (parse t).completionSite? t offset =
      if n.missing then some ⟨.empty offset, [], delimited⟩
      else if n.span.reaches offset then
        some ⟨n.span, (t.slice n.span.start.toNat offset).lower, delimited⟩
      else none := by
  have hkind := kind_of_name (lineAt?_eq_some_iff.mp h).1 hn
  refine ⟨l.delimiter?.all Token.missing, ?_⟩
  rw [completionSite?, h]
  simp only [hn, if_neg hkind]
  cases n.span.reaches offset <;> rfl

theorem completionsAt_of_site {site : CompletionSite}
    (h : (parse t).completionSite? t offset = some site) (h₀ : 0 ≤ site.span.start)
    (hle : site.span.start ≤ site.span.stop) (h₁ : site.span.stop ≤ t.length) :
    ∃ items, (parse t).completionsAt t offset = .ok items ∧
      (items ≠ [] ↔ ∃ d ∈ Directive.known, site.start <+: d.name.lower) := by
  refine ⟨site.items ⟨t.positionAt site.span.start.toNat, t.positionAt site.span.stop.toNat⟩, ?_,
    site.items_ne_nil_iff _⟩
  rw [completionsAt, h]
  simp only [Text.rangeOf_eq h₀ hle h₁]
  rfl

theorem completionsAt_of_empty {delimited : Bool}
    (h : (parse t).completionSite? t offset = some ⟨.empty offset, [], delimited⟩)
    (ho : offset ≤ t.length) :
    ∃ items, (parse t).completionsAt t offset = .ok items ∧ items ≠ [] := by
  obtain ⟨items, hitems, hiff⟩ :=
    completionsAt_of_site h (Int.natCast_nonneg _) (Int.le_refl _) (Int.ofNat_le.mpr ho)
  exact ⟨items, hitems, hiff.mpr ⟨_, List.mem_cons_self, List.nil_prefix⟩⟩

theorem completionsAt_of_no_site (h : (parse t).completionSite? t offset = none) :
    (parse t).completionsAt t offset = .ok [] := by
  rw [completionsAt, h]

/-- **Completion never fails, and names are offered exactly where `Row.Offers` says so.** -/
theorem exists_completionsAt (hr : t.RowAt offset r) (ho : offset ≤ t.length) :
    ∃ items, (parse t).completionsAt t offset = .ok items ∧ (items ≠ [] ↔ r.Offers t offset) := by
  cases hline : (parse t).lineAt? offset with
  | none =>
    have hsite : (parse t).completionSite? t offset = some ⟨.empty offset, [], true⟩ := by
      rw [completionSite?, hline]
    obtain ⟨items, hitems, hne⟩ := completionsAt_of_empty hsite ho
    refine ⟨items, hitems, iff_of_true hne fun l hl hc => ?_⟩
    rw [(lineAt?_eq_some_iff_written hr).mpr ⟨hl, hc⟩] at hline
    cases hline
  | some l =>
    obtain ⟨hl, hc⟩ := (lineAt?_eq_some_iff_written hr).mp hline
    rw [Row.offers_iff_of_written hl hc]
    cases hname : l.name? with
    | none =>
      have hsite : (parse t).completionSite? t offset = none := by
        rw [completionSite?, hline]
        simp only [hname]
      exact ⟨[], completionsAt_of_no_site hsite, by simp⟩
    | some n =>
      obtain ⟨delimited, hsite⟩ := completionSite?_of_name hline hname
      cases hm : n.missing with
      | true =>
        rw [if_pos hm] at hsite
        obtain ⟨items, hitems, hne⟩ := completionsAt_of_empty hsite ho
        exact ⟨items, hitems, iff_of_true hne ⟨n, rfl, .inl hm⟩⟩
      | false =>
        rw [if_neg (by simp [hm])] at hsite
        by_cases hreach : n.span.reaches offset
        · rw [if_pos hreach] at hsite
          have hreads := reads_of_mem_line (mem_lines_of_written hr.mem hl)
            (k := n) (by simp [Line.tokens, hname])
          obtain ⟨items, hitems, hiff⟩ := completionsAt_of_site hsite hreads.first
            (Int.le_of_lt (hreads.present hm).1) hreads.last
          exact ⟨items, hitems, hiff.trans (by simp [hm, hreach])⟩
        · rw [if_neg hreach] at hsite
          exact ⟨[], completionsAt_of_no_site hsite, by simp [hm, hreach]⟩

end Document

/-! ## Where this is right -/

namespace Document

variable {t : Text} {offset : Nat} {r : Row} {l : Line} {n : Token}

theorem reaches_line_of_name (hl : l ∈ (parse t).lines) (hn : l.name? = some n)
    (h : n.span.reaches offset) : l.span.reaches offset := by
  obtain ⟨hfirst, hlast⟩ := (wellFormed_of_mem_lines hl).tokens n (by simp [Line.tokens, hn])
  rw [Span.reaches_iff] at h ⊢
  omega

theorem reaches_missing_iff (hl : l ∈ (parse t).lines) (hn : l.name? = some n)
    (hm : n.missing = true) : n.span.reaches offset ↔ n.span.start = offset := by
  obtain ⟨hempty, -⟩ := (reads_of_mem_line hl (k := n) (by simp [Line.tokens, hn])).absent hm
  rw [Span.reaches_iff]
  omega

/-- **Names are offered in the right places only** unless the caret is beside the ink of a row that
is not blank, or on a line without a name, but not where its name would be. -/
theorem fits_of_offers_iff (hr : t.RowAt offset r) :
    (r.Offers t offset → r.Fits offset) ↔ ∀ l : Line, l.Written r.start r.content →
      l.span.reaches offset ∧ ∀ n ∈ l.name?, n.missing → n.span.start = offset := by
  constructor
  · intro h l hl
    have hmem := mem_lines_of_written hr.mem hl
    have hreach : l.span.reaches offset := by
      by_contra hc
      have hoffers : r.Offers t offset := fun m hm hmc => absurd (hl.unique hm ▸ hmc) hc
      obtain ⟨n, hn, hnc⟩ := (Row.fits_iff_of_written hl).mp (h hoffers)
      exact hc (reaches_line_of_name hmem hn hnc)
    refine ⟨hreach, fun n hn hm => (reaches_missing_iff hmem hn hm).mp ?_⟩
    have hoffers := (Row.offers_iff_of_written (t := t) hl hreach).mpr ⟨n, hn, .inl hm⟩
    obtain ⟨m, hm, hmc⟩ := (Row.fits_iff_of_written hl).mp (h hoffers)
    rwa [← Option.some_inj.mp (hm.symm.trans hn)]
  · intro h hoffers
    by_cases hb : r.content.IsBlank
    · exact .inl hb
    · obtain ⟨l, hl⟩ := Row.exists_written hb
      obtain ⟨hreach, hmissing⟩ := h l hl
      refine (Row.fits_iff_of_written hl).mpr ?_
      obtain ⟨n, hn, hm | ⟨hnc, -⟩⟩ := hoffers l hl hreach
      · exact ⟨n, hn, (reaches_missing_iff (mem_lines_of_written hr.mem hl) hn hm).mpr
          (hmissing n hn hm)⟩
      · exact ⟨n, hn, hnc⟩

/-- **Where names are offered, and where they should be.** A caret is in one row. There completion
never fails, and it offers names as `Row.Offers` says. It offers them only where a name can go,
unless the row has a line that the caret does not reach, being in the indentation, in the blanks at
the end, inside the line break or before the byte order mark, or a line whose name is missing
elsewhere. -/
theorem completions_fit_iff (t : Text) {p : Position} {offset : Nat}
    (hp : t.offsetAt p = .ok offset) :
    ∃ r, (∀ s, t.RowAt offset s ↔ s = r) ∧
      ∃ items, (parse t).completionsAt t offset = .ok items ∧
        (items ≠ [] ↔ r.Offers t offset) ∧
        ((items ≠ [] → r.Fits offset) ↔ ∀ l : Line, l.Written r.start r.content →
          l.span.reaches offset ∧ ∀ n ∈ l.name?, n.missing → n.span.start = offset) := by
  obtain ⟨r, hr, hunique⟩ := t.existsUnique_rowAt offset
  obtain ⟨items, hitems, hiff⟩ := exists_completionsAt hr (Text.offsetAt_le hp)
  refine ⟨r, fun s => ⟨hunique s, fun hs => hs ▸ hr⟩, items, hitems, hiff, ?_⟩
  rw [hiff]
  exact fits_of_offers_iff hr

/-- A line without a name, and its node. -/
def namelessText : Text := utf8 ": /x # why"

def namelessLine : Line :=
  { kind := .extension, span := ⟨0, 10⟩, name? := some (.missingAt .name 0)
    delimiter? := some (.at .delimiter 0 [0x3A]), value? := some (.at .value 2 (utf8 "/x"))
    comment? := some (.at .comment 5 (utf8 "# why")) }

/-- Names are offered in the comment of a line without a name. -/
theorem completions_fit_iff_nameless :
    namelessText.offsetAt ⟨0, 8⟩ = .ok 8 ∧ namelessText.RowAt 8 ⟨0, namelessText⟩ ∧
      ¬ Row.Fits 8 ⟨0, namelessText⟩ ∧
      ∃ items, (parse namelessText).completionsAt namelessText 8 = .ok items ∧ items ≠ [] := by
  have hp : namelessText.offsetAt ⟨0, 8⟩ = .ok 8 := by decide +kernel
  have hrow : namelessText.RowAt 8 ⟨0, namelessText⟩ :=
    ⟨[], [], by decide +kernel, by decide, by simp⟩
  have hline : namelessLine.Written 0 namelessText := Line.written_iff.mpr (by decide +kernel)
  obtain ⟨r, hr, items, hitems, hoffers, hfits⟩ := completions_fit_iff namelessText hp
  obtain rfl := (hr _).mp hrow
  have hne : items ≠ [] := hoffers.mpr fun l hl _ => by
    obtain rfl := hline.unique hl
    exact ⟨_, rfl, .inl rfl⟩
  refine ⟨hp, hrow, fun h => ?_, items, hitems, hne⟩
  exact absurd ((hfits.mp fun _ => h) _ hline).2 (by decide)

/-- A line with an indentation, where the caret is put. -/
def indentedText : Text := utf8 "user-agent: *\n  allow: /\n"

/-- Names are offered in the indentation of a line that is not blank and has its name elsewhere. -/
theorem completions_indented :
    let row : Row := ⟨14, utf8 "  allow: /"⟩
    indentedText.offsetAt ⟨1, 0⟩ = .ok 14 ∧ indentedText.RowAt 14 row ∧ ¬ row.Fits 14 ∧
      ((parse indentedText).completionsAt indentedText 14).map List.length = .ok 10 := by
  intro row
  refine ⟨by decide +kernel, ⟨[⟨0, utf8 "user-agent: *"⟩], [⟨25, []⟩], ?_, ?_, ?_⟩, ?_, ?_⟩ <;>
    decide +kernel

end Document

end RobotsTxt
