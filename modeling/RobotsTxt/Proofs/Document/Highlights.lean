import RobotsTxt.Highlight
import RobotsTxt.Proofs.Document.WellFormed

/-!
# Highlights of record names

The names of a document's records stand apart from each other, and a caret is on one of them at
most. So the names fall into classes of equal ones, and a caret on a name highlights its class.

* `Document.names`: the names that are there; `Document.pairwise_names`: they stand apart.
* `Document.sameName`: the names of one class.
* **`Document.highlightsAt_of_mem_names`**, `Document.highlightsAt_eq_nil`: what is highlighted on a
  name, and elsewhere.
* **`Document.highlights_partition`**: the highlights of all carets are the classes of the names.
-/

namespace RobotsTxt

/-! ## Equality up to case -/

namespace Text

variable {s t : Text}

theorem eqFold_iff : s.eqFold t = true ↔ s.foldKey = t.foldKey := beq_iff_eq

theorem eqFold_refl (t : Text) : t.eqFold t = true := eqFold_iff.mpr rfl

theorem eqFold_comm : s.eqFold t ↔ t.eqFold s := by rw [eqFold_iff, eqFold_iff, eq_comm]

theorem eqFold_congr (h : s.eqFold t = true) (u : Text) : u.eqFold s = u.eqFold t := by
  rw [eqFold, eqFold, eqFold_iff.mp h]

end Text

/-! ## The names of a document -/

namespace Document

/-- The names of the records that have one. -/
def names (d : Document) : List Token :=
  d.records.filterMap fun r => r.nameToken?.filter fun k => !k.missing

/-- The spans of the names that are equal to a given one. -/
def sameName (d : Document) (name : Text) : List Span :=
  (d.names.filter fun k => k.value.eqFold name).map Token.span

variable {t : Text} {r : Record} {k m : Token}

theorem mem_names {d : Document} :
    k ∈ d.names ↔ ∃ r ∈ d.records, r.nameToken? = some k ∧ k.missing = false := by
  simp [names, List.mem_filterMap, Option.filter_eq_some_iff]

theorem within_of_name (hr : r ∈ (parse t).records) (hk : r.nameToken? = some k)
    (hm : k.missing = false) : k.span.Within r.span := by
  have hwf := wellFormed_of_mem_records hr
  obtain ⟨k', hk', ⟨l, hl, hkl⟩ | rfl⟩ := exists_name hr
  · obtain rfl : k = k' := Option.some_inj.mp (hk.symm.trans hk')
    obtain ⟨h₁, h₂⟩ := hwf.within l hl
    obtain ⟨h₃, h₄⟩ := (hwf.lines l hl).tokens k hkl
    exact ⟨Int.le_trans h₁ h₃, Int.le_trans h₄ h₂⟩
  · obtain rfl := Option.some_inj.mp (hk.symm.trans hk')
    simp [Token.missingAt] at hm

theorem reads_of_mem_names (hk : k ∈ (parse t).names) :
    k.span.start < k.span.stop ∧ k.value = t.slice k.span.start.toNat k.span.stop.toNat ∧
      k.value ≠ [] := by
  obtain ⟨r, hr, hname, hm⟩ := mem_names.mp hk
  obtain ⟨k', hk', hreads⟩ := reads_name hr
  obtain rfl : k = k' := Option.some_inj.mp (hname.symm.trans hk')
  obtain ⟨hlt, hvalue⟩ := hreads.present hm
  refine ⟨hlt, hvalue, fun hnil => ?_⟩
  have hlen := congrArg List.length (hvalue.symm.trans hnil)
  have := hreads.first
  have := hreads.last
  simp only [Text.slice, List.length_take, List.length_drop, List.length_nil] at hlen
  omega

/-- **The names of a document stand apart, in order.** -/
theorem pairwise_names (t : Text) :
    (parse t).names.Pairwise fun k m => k.span.stop < m.span.start := by
  have hrecords : (parse t).records.Pairwise fun r s => r ∈ (parse t).records ∧
      s ∈ (parse t).records ∧ r.span.stop < s.span.start :=
    (pairwise_records t).imp_of_mem fun hr hs h => ⟨hr, hs, h⟩
  refine List.Pairwise.filterMap _ (fun r s hrs k hk m hm => ?_) hrecords
  obtain ⟨hr, hs, hlt⟩ := hrs
  obtain ⟨hk, hkm⟩ := Option.filter_eq_some_iff.mp hk
  obtain ⟨hm, hmm⟩ := Option.filter_eq_some_iff.mp hm
  have h₁ := (within_of_name hr hk (by simpa using hkm)).2
  have h₂ := (within_of_name hs hm (by simpa using hmm)).1
  omega

theorem eq_of_contains {c : Int} (hk : k ∈ (parse t).names) (hm : m ∈ (parse t).names)
    (hkc : k.span.contains c) (hmc : m.span.contains c) : k = m := by
  rw [Span.contains_iff] at hkc hmc
  exact Span.eq_of_reaches (pairwise_names t) hk hm
    (Span.reaches_iff.mpr ⟨hkc.1, Int.le_of_lt hkc.2⟩)
    (Span.reaches_iff.mpr ⟨hmc.1, Int.le_of_lt hmc.2⟩)

theorem eq_of_span (hk : k ∈ (parse t).names) (hm : m ∈ (parse t).names) (h : k.span = m.span) :
    k = m := by
  have hstart : k.span.contains k.span.start :=
    (Span.contains_iff _).mpr ⟨Int.le_refl _, (reads_of_mem_names hk).1⟩
  exact eq_of_contains hk hm hstart (h ▸ hstart)

/-! ## What is highlighted -/

/-- A record has a name exactly if its name token is there, and the name is the token's text. -/
theorem record_name (hr : r ∈ (parse t).records) :
    r.name = [] ∧ (∀ k ∈ r.nameToken?, k.missing) ∨
      ∃ k ∈ (parse t).names, r.nameToken? = some k ∧ r.name = k.value ∧ k.value ≠ [] := by
  obtain ⟨k, hk, -⟩ := reads_name hr
  cases hm : k.missing with
  | true => exact .inl ⟨by simp [Record.name, hk, hm], by simp [hk, hm]⟩
  | false =>
    have hmem : k ∈ (parse t).names := mem_names.mpr ⟨r, hr, hk, hm⟩
    exact .inr ⟨k, hmem, hk, by simp [Record.name, hk, hm], (reads_of_mem_names hmem).2.2⟩

theorem namesLike_eq (t : Text) (name : Text) :
    (parse t).namesLike name = (parse t).sameName name := by
  rw [namesLike, sameName, names, List.filter_filterMap, List.map_filterMap]
  refine List.filterMap_congr fun r hr => ?_
  rcases record_name hr with ⟨hnil, hmissing⟩ | ⟨k, hk, hname, hvalue, hne⟩
  · cases hname : r.nameToken? with
    | none => simp [hnil]
    | some k => simp [hnil, Option.filter_some, hmissing k hname]
  · obtain ⟨-, -, -, hm⟩ := mem_names.mp hk
    cases heq : k.value.eqFold name <;> simp [hname, hvalue, hne, Option.filter_some, hm, heq]

/-- A caret is on the name of a record exactly if it is in the name token. -/
theorem namedAt_iff {c : Int} (hr : r ∈ (parse t).records) :
    r.namedAt c ↔ ∃ k ∈ (parse t).names, r.nameToken? = some k ∧ r.name = k.value ∧
      k.span.contains c := by
  rcases record_name hr with ⟨hnil, hmissing⟩ | ⟨k, hk, hname, hvalue, hne⟩
  · simp only [Record.namedAt, hnil, List.isEmpty_nil, Bool.not_true, Bool.false_and,
      Bool.false_eq_true, false_iff]
    rintro ⟨k, hk, hname, -, -⟩
    obtain ⟨-, -, -, hm⟩ := mem_names.mp hk
    simp [hmissing k hname] at hm
  · simp [Record.namedAt, hname, hvalue, hne, hk]

/-- **A caret on a name highlights the names that are equal to it.** -/
theorem highlightsAt_of_mem_names {c : Int} (hk : k ∈ (parse t).names) (hc : k.span.contains c) :
    (parse t).highlightsAt c = (parse t).sameName k.value := by
  obtain ⟨r, hr, hname, hm⟩ := mem_names.mp hk
  have hnamed : r.namedAt c := by
    refine (namedAt_iff hr).mpr ⟨k, hk, hname, ?_, hc⟩
    simp [Record.name, hname, hm]
  obtain ⟨r', hr'⟩ := Option.isSome_iff_exists.mp (List.find?_isSome.mpr ⟨r, hr, hnamed⟩)
  obtain ⟨k', hk', -, hvalue, hc'⟩ :=
    (namedAt_iff (List.mem_of_find?_eq_some hr')).mp (List.find?_some hr')
  rw [highlightsAt, recordAt?, hr']
  simp only
  rw [hvalue, eq_of_contains hk' hk hc' hc, namesLike_eq]

theorem highlightsAt_eq_nil {c : Int} (h : ∀ k ∈ (parse t).names, ¬ k.span.contains c) :
    (parse t).highlightsAt c = [] := by
  have hnone : (parse t).recordAt? c = none := by
    refine List.find?_eq_none.mpr fun r hr hnamed => ?_
    obtain ⟨k, hk, -, -, hc⟩ := (namedAt_iff hr).mp hnamed
    exact h k hk hc
  rw [highlightsAt, hnone]

theorem mem_sameName {d : Document} {name : Text} {s : Span} :
    s ∈ d.sameName name ↔ ∃ k ∈ d.names, k.value.eqFold name ∧ k.span = s := by
  simp [sameName, and_assoc]

theorem sameName_congr (d : Document) {m n : Text} (h : m.eqFold n) :
    d.sameName m = d.sameName n := by
  rw [sameName, sameName]
  simp only [Text.eqFold_congr h]

theorem pairwise_sameName (t name : Text) :
    ((parse t).sameName name).Pairwise fun s u => s.stop < u.start := by
  rw [sameName, List.pairwise_map]
  exact (pairwise_names t).filter _

theorem mem_highlightsAt {c : Int} (hk : k ∈ (parse t).names) (hc : k.span.contains c) :
    k.span ∈ (parse t).highlightsAt c := by
  rw [highlightsAt_of_mem_names hk hc]
  exact mem_sameName.mpr ⟨k, hk, Text.eqFold_refl _, rfl⟩

/-- Every highlighted span is the span of a name, and a caret in it highlights the same names. -/
theorem exists_name_of_mem_highlightsAt {c : Int} {s : Span} (hs : s ∈ (parse t).highlightsAt c) :
    ∃ k ∈ (parse t).names, k.span = s ∧
      (parse t).sameName k.value = (parse t).highlightsAt c := by
  by_cases hc : ∃ n ∈ (parse t).names, n.span.contains c
  · obtain ⟨n, hn, hnc⟩ := hc
    rw [highlightsAt_of_mem_names hn hnc] at hs ⊢
    obtain ⟨k, hk, heq, hspan⟩ := mem_sameName.mp hs
    exact ⟨k, hk, hspan, sameName_congr _ heq⟩
  · push Not at hc
    rw [highlightsAt_eq_nil (by simpa using hc)] at hs
    simp at hs

/-! ## The partition -/

/-- **The highlights of all carets are the classes of the names of the records.** A caret highlights
something exactly if it is in a name that is there. It then highlights that name and the names equal
to it, which are not empty and stand apart, in order. Every position in one of them highlights the
same, so the highlights of two carets are equal or have nothing in common. -/
theorem highlights_partition (t : Text) :
    (∀ c : Int, (parse t).highlightsAt c ≠ [] ↔ ∃ k ∈ (parse t).names, k.span.contains c) ∧
    (∀ c : Int, ∀ k ∈ (parse t).names, k.span.contains c →
      k.span ∈ (parse t).highlightsAt c ∧ ∀ s, s ∈ (parse t).highlightsAt c ↔
        ∃ m ∈ (parse t).names, m.value.eqFold k.value ∧ m.span = s) ∧
    (∀ c : Int, (∀ s ∈ (parse t).highlightsAt c, s.start < s.stop) ∧
      ((parse t).highlightsAt c).Pairwise fun s u => s.stop < u.start) ∧
    (∀ c p : Int, ∀ s ∈ (parse t).highlightsAt c, s.contains p →
      (parse t).highlightsAt p = (parse t).highlightsAt c) ∧
    ∀ c c' : Int, (parse t).highlightsAt c = (parse t).highlightsAt c' ∨
      ((parse t).highlightsAt c).Disjoint ((parse t).highlightsAt c') := by
  refine ⟨fun c => ⟨fun hne => ?_, ?_⟩, ?_, fun c => ⟨fun s hs => ?_, ?_⟩, ?_, fun c c' => ?_⟩
  · by_contra hc
    exact hne (highlightsAt_eq_nil fun k hk hkc => hc ⟨k, hk, hkc⟩)
  · rintro ⟨k, hk, hc⟩
    exact List.ne_nil_of_mem (mem_highlightsAt hk hc)
  · intro c k hk hc
    refine ⟨mem_highlightsAt hk hc, fun s => ?_⟩
    rw [highlightsAt_of_mem_names hk hc, mem_sameName]
  · obtain ⟨k, hk, rfl, -⟩ := exists_name_of_mem_highlightsAt hs
    exact (reads_of_mem_names hk).1
  · by_cases hc : ∃ k ∈ (parse t).names, k.span.contains c
    · obtain ⟨k, hk, hkc⟩ := hc
      rw [highlightsAt_of_mem_names hk hkc]
      exact pairwise_sameName t _
    · rw [highlightsAt_eq_nil fun k hk hkc => hc ⟨k, hk, hkc⟩]
      exact .nil
  · intro c p s hs hp
    obtain ⟨k, hk, rfl, hclass⟩ := exists_name_of_mem_highlightsAt hs
    rw [highlightsAt_of_mem_names hk hp, hclass]
  · -- A span in both highlights is the span of one name, and both are the class of that name.
    refine or_iff_not_imp_right.mpr fun hcommon => ?_
    obtain ⟨s, hs, hs'⟩ : ∃ s, s ∈ (parse t).highlightsAt c ∧ s ∈ (parse t).highlightsAt c' := by
      simpa [List.Disjoint] using hcommon
    obtain ⟨k, hk, hspan, hclass⟩ := exists_name_of_mem_highlightsAt hs
    obtain ⟨k', hk', hspan', hclass'⟩ := exists_name_of_mem_highlightsAt hs'
    obtain rfl : k = k' := eq_of_span hk hk' (hspan.trans hspan'.symm)
    rw [← hclass, ← hclass']

/-- A long `s` folds to a plain one, so two names of different lengths are equal. -/
def longNames : Text := utf8 "ſitemap: a\n\nSITEMAP: b\n\nallow: c"

theorem highlights_partition_longNames :
    let d := parse longNames
    d.highlightsAt 1 = [⟨0, 8⟩, ⟨13, 20⟩] ∧ d.highlightsAt 19 = d.highlightsAt 1 ∧
      d.highlightsAt 25 ≠ [] ∧ (d.highlightsAt 1).Disjoint (d.highlightsAt 25) ∧
      d.highlightsAt 20 = [] := by
  intro d
  obtain ⟨hiff, hclass, -, hsame, hapart⟩ := highlights_partition longNames
  have hlist : d.highlightsAt 1 = [⟨0, 8⟩, ⟨13, 20⟩] := by decide +kernel
  have hnames : d.names = [.at .name 0 (utf8 "ſitemap"), .at .name 13 (utf8 "SITEMAP"),
      .at .name 25 (utf8 "allow")] := by decide +kernel
  have hallow : Token.at .name 25 (utf8 "allow") ∈ d.names := by simp [hnames]
  have hmem := (hclass 25 _ hallow (by decide)).1
  refine ⟨hlist, hsame 1 19 ⟨13, 20⟩ (by simp [d, hlist]) (by decide),
    (hiff 25).mpr ⟨_, hallow, by decide⟩, (hapart 1 25).resolve_left fun h => ?_, ?_⟩
  · rw [← h, hlist] at hmem
    revert hmem
    decide
  · have hoff : ¬ ∃ k ∈ d.names, k.span.contains 20 := by
      rw [hnames]
      decide
    exact not_not.mp fun h => hoff ((hiff 20).mp h)

end Document

end RobotsTxt
