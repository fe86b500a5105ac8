import RobotsTxt.Proofs.Canonical.Line
import RobotsTxt.Proofs.Document.Highlights
import RobotsTxt.Proofs.Text.Case

/-!
# Two notions of the same name

A directive is looked up by its name in lower case, and the names of records are highlighted up to
folding. On the names of known directives the two agree, but for two characters: U+0130 is taken for
an `i` by the first one only, and U+017F for an `s` by the second one only.

* `Directive.lowerKey_of_lookup?`: the characters of a known name.
* **`Directive.eqFold_iff_dots`**: when two names of one directive are equal up to folding.
* **`Directive.lookup?_eq_iff`**: when two names that are equal up to folding are one directive's.
* **`Document.sameName_iff`**: when looking up and highlighting agree on the names of a document.
-/

namespace RobotsTxt

/-! ## Names of directives -/

namespace Directive

variable {m n : Text} {d : Directive}

theorem known_ascii : ∀ d ∈ known, ∀ b ∈ d.name.lower, b < 0x80 := by decide +kernel

theorem lowerKey_of_lookup? (h : lookup? n = some d) :
    n.lowerKey = d.name.lower.map UInt8.toNat ∧ ∀ a ∈ n.lowerKey, a < 0x80 := by
  have hascii := known_ascii d (List.mem_of_find?_eq_some h)
  have hfound := List.find?_some h
  have hkey := Text.lowerKey_of_ascii hascii (beq_iff_eq.mp hfound).symm
  refine ⟨hkey, fun a ha => ?_⟩
  rw [hkey] at ha
  obtain ⟨b, hb, rfl⟩ := List.mem_map.mp ha
  exact UInt8.lt_iff_toNat_lt.mp (hascii b hb)

/-- **Two names of one directive** are equal up to folding exactly if they have U+0130 at the same
places. -/
theorem eqFold_iff_dots (hm : lookup? m = some d) (hn : lookup? n = some d) :
    m.eqFold n ↔ m.dots = n.dots := by
  obtain ⟨hmkey, hmascii⟩ := lowerKey_of_lookup? hm
  obtain ⟨hnkey, hnascii⟩ := lowerKey_of_lookup? hn
  rw [Text.eqFold_iff]
  constructor
  · intro h
    rw [Text.dots_eq, Text.dots_eq, h]
  · intro h
    rw [Text.foldKey_of_lowerKey hmascii, Text.foldKey_of_lowerKey hnascii, hmkey, hnkey, h]

theorem lookup?_eq_none_of_longS (h : n.HasLongS) : lookup? n = none := by
  cases hn : lookup? n with
  | none => rfl
  | some d =>
    have hlong : lowerRune 0x17F = 0x17F := by decide +kernel
    have hmem := (lowerKey_of_lookup? hn).2 _ (List.mem_map_of_mem h)
    omega

theorem lookup?_of_eqFold (hm : lookup? m = some d) (h : m.eqFold n) (hn : ¬ n.HasLongS) :
    lookup? n = some d := by
  obtain ⟨-, hascii⟩ := lowerKey_of_lookup? hm
  have hfold : m.foldKey = n.foldKey := Text.eqFold_iff.mp h
  have hlong : ¬ m.HasLongS := fun h => by simp [lookup?_eq_none_of_longS h] at hm
  have hkeys := Text.foldKey_ascii hascii
  have hkey : m.lowerKey = n.lowerKey := by
    rw [Text.lowerKey_of_foldKey hkeys hlong, Text.lowerKey_of_foldKey (hfold ▸ hkeys) hn, hfold]
  rw [← hm]
  exact lookup?_congr (by rw [Text.lower_eq, Text.lower_eq, hkey])

/-- **Two names that are equal up to folding** are looked up with the same outcome, unless one of
them is known and the other one has U+017F. -/
theorem lookup?_eq_iff (h : m.eqFold n) : lookup? m = lookup? n ↔
    (n.HasLongS → lookup? m = none) ∧ (m.HasLongS → lookup? n = none) := by
  constructor
  · intro heq
    exact ⟨fun hn => heq.trans (lookup?_eq_none_of_longS hn),
      fun hm => heq.symm.trans (lookup?_eq_none_of_longS hm)⟩
  · rintro ⟨hn, hm⟩
    cases hd : lookup? m with
    | some d =>
      have hlong : ¬ n.HasLongS := fun hs => by simp [hn hs] at hd
      exact (lookup?_of_eqFold hd h hlong).symm
    | none =>
      cases hd' : lookup? n with
      | none => rfl
      | some d =>
        have hlong : ¬ m.HasLongS := fun hs => by simp [hm hs] at hd'
        rw [← hd]
        exact lookup?_of_eqFold hd' (Text.eqFold_comm.mp h) hlong

end Directive

/-! ## Names of a document -/

namespace Document

theorem span_mem_highlightsAt {t : Text} {k m : Token} {c : Int} (hk : k ∈ (parse t).names)
    (hm : m ∈ (parse t).names) (hc : k.span.contains c) :
    m.span ∈ (parse t).highlightsAt c ↔ m.value.eqFold k.value := by
  rw [highlightsAt_of_mem_names hk hc, mem_sameName]
  constructor
  · rintro ⟨n, hn, heq, hspan⟩
    rwa [eq_of_span hm hn hspan.symm]
  · exact fun heq => ⟨m, hm, heq, rfl⟩

/-- **When looking up and highlighting agree on the names of a document.** Two names of one
directive highlight each other exactly if they have U+0130 at the same places. Two names that
highlight each other are of the same directive, or both unknown, unless one is known and the other
one has U+017F. -/
theorem sameName_iff {t : Text} {k m : Token} {c : Int} (hk : k ∈ (parse t).names)
    (hm : m ∈ (parse t).names) (hc : k.span.contains c) :
    (∀ d, Directive.lookup? k.value = some d → Directive.lookup? m.value = some d →
      (m.span ∈ (parse t).highlightsAt c ↔ k.value.dots = m.value.dots)) ∧
    (m.span ∈ (parse t).highlightsAt c →
      (Directive.lookup? k.value = Directive.lookup? m.value ↔
        (m.value.HasLongS → Directive.lookup? k.value = none) ∧
        (k.value.HasLongS → Directive.lookup? m.value = none))) := by
  rw [span_mem_highlightsAt hk hm hc]
  refine ⟨fun d hkd hmd => ?_, fun heq => ?_⟩
  · rw [Directive.eqFold_iff_dots hmd hkd, eq_comm]
  · exact Directive.lookup?_eq_iff (Text.eqFold_comm.mp heq)

/-- One name in three spellings: a plain one, one with U+0130 and one with U+017F. -/
def threeSitemaps : Text := utf8 "sitemap: a\n\nsİtemap: b\n\nſitemap: c"

theorem sameName_iff_dotted :
    let k := Token.at .name 0 (utf8 "sitemap")
    let m := Token.at .name 12 (utf8 "sİtemap")
    k ∈ (parse threeSitemaps).names ∧ m ∈ (parse threeSitemaps).names ∧ k.span.contains 3 ∧
      m.span ∉ (parse threeSitemaps).highlightsAt 3 := by
  intro k m
  have hk : k ∈ (parse threeSitemaps).names := by decide +kernel
  have hm : m ∈ (parse threeSitemaps).names := by decide +kernel
  obtain ⟨d, hkd, hmd⟩ : ∃ d, Directive.lookup? k.value = some d ∧
      Directive.lookup? m.value = some d := ⟨_, rfl, rfl⟩
  have hdots : k.value.dots ≠ m.value.dots := by decide +kernel
  exact ⟨hk, hm, by decide, fun h => hdots (((sameName_iff hk hm (by decide)).1 d hkd hmd).mp h)⟩

/-- Two names of one directive that do not highlight each other, and two names that do, of which one
is unknown. -/
theorem sameName_differs : ∃ k ∈ (parse threeSitemaps).names, ∃ m ∈ (parse threeSitemaps).names,
    ∃ n ∈ (parse threeSitemaps).names, k.span.contains 3 ∧
      (∃ d, Directive.lookup? k.value = some d ∧ Directive.lookup? m.value = some d) ∧
      m.span ∉ (parse threeSitemaps).highlightsAt 3 ∧
      n.span ∈ (parse threeSitemaps).highlightsAt 3 ∧
      Directive.lookup? k.value ≠ Directive.lookup? n.value := by
  refine ⟨.at .name 0 (utf8 "sitemap"), by decide +kernel, .at .name 12 (utf8 "sİtemap"),
    by decide +kernel, .at .name 25 (utf8 "ſitemap"), by decide +kernel, by decide,
    ⟨_, rfl, rfl⟩, by decide +kernel, by decide +kernel, by decide +kernel⟩

end Document

end RobotsTxt
