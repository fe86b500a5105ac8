import RobotsTxt.Proofs.Editor.Outline
import RobotsTxt.Proofs.Server.Reports
import RobotsTxt.Proofs.Analyzer.Builtin
import RobotsTxt.Proofs.Change.Carrying

/-!
# Links and faults of sitemaps

The address of a sitemap is tested in two places: a good one is a link, a bad one has a diagnostic.
The two go through the lines in different ways and treat a missing value differently, but they share
out the sitemaps with a delimiter among them.

* `Line.SitemapShown`: the links and the faults that a sitemap should have.
* `Document.SitemapsShown`: where the links and the faults of a whole document should lie.
* `filter_flatMap_eq`: what each element of a list contributes can be told apart.
* **`Document.sitemapsShown_parse`**: the links and the diagnostics of a document.
* **`Server.sitemapsShown_current`**: what a server answers about the current text.
-/

namespace RobotsTxt

/-! ## What should be shown -/

/-- Whether the delimiter of a line is there. -/
def Line.isDelimited (l : Line) : Bool := l.delimiter?.any fun k => !k.missing

/-- The marker of a sitemap whose value is no address of the Web. -/
def Line.sitemapFault (l : Line) (range : Range) : Marker :=
  { range, severity := .error, code := utf8 "sitemap-url", source := utf8 "robotsls"
    message := utf8 "sitemap " ++ l.valueText.quote ++ utf8 " is not an absolute http(s) URL" }

/-- **The links and the faults that a sitemap should have.** -/
inductive Line.SitemapShown (t : Text) (l : Line) : List Link → List Marker → Prop
  /-- One link, from its value to the address that the value is. -/
  | linked {v : Token} {range : Range} (delimited : l.isDelimited) (value : l.value? = some v)
      (web : Url.isWebText v.value) (place : t.rangeOf v.span = .ok range) :
      SitemapShown t l [⟨range, v.value⟩] []
  /-- One fault, at the value if there is one. -/
  | faulted {range : Range} (delimited : l.isDelimited) (bad : ¬ Url.isWebText l.valueText)
      (place : t.rangeOf (Analyzer.valueSpan l) = .ok range) :
      SitemapShown t l [] [l.sitemapFault range]
  /-- Neither, without a delimiter. -/
  | undelimited (h : ¬ l.isDelimited) : SitemapShown t l [] []

/-- A range in the range of a sitemap of a document. -/
def Document.InSitemap (t : Text) (d : Document) (r : Range) : Prop :=
  ∃ l ∈ d.lines, l.kind = .sitemap ∧ ∃ range, t.rangeOf l.span = .ok range ∧ r.Within range

/-- **Links and markers in which every sitemap has its own**, and that have no others. -/
structure Document.SitemapsShown (t : Text) (d : Document) (links : List Link)
    (items : List Marker) : Prop where
  line : ∀ l ∈ d.lines, l.kind = .sitemap → ∃ range, t.rangeOf l.span = .ok range ∧
    l.SitemapShown t (links.filter fun k => k.range.Within range)
      (items.filter fun m => m.code = utf8 "sitemap-url" ∧ m.range.Within range)
  link : ∀ k ∈ links, d.InSitemap t k.range
  fault : ∀ m ∈ items, m.code = utf8 "sitemap-url" → d.InSitemap t m.range

/-! ## Contributions that can be told apart -/

/-- What an element contributes, where a test tells it from what the others do. -/
theorem filter_flatMap_eq {α β : Type} {xs : List α} {f : α → List β} {p : β → Bool} {x : α}
    (hnodup : xs.Nodup) (hx : x ∈ xs) (hothers : ∀ y ∈ xs, y ≠ x → ∀ b ∈ f y, p b = false) :
    (xs.flatMap f).filter p = (f x).filter p := by
  obtain ⟨front, back, rfl⟩ := List.append_of_mem hx
  rw [List.nodup_middle, List.nodup_cons, List.mem_append, not_or] at hnodup
  have hnone : ∀ ys ⊆ front ++ x :: back, x ∉ ys → (ys.flatMap f).filter p = [] := by
    intro ys hsub hnot
    refine List.filter_eq_nil_iff.mpr fun b hb => ?_
    obtain ⟨y, hy, hb⟩ := List.mem_flatMap.mp hb
    simp [hothers y (hsub hy) (fun h => hnot (h ▸ hy)) b hb]
  rw [List.flatMap_append, List.flatMap_cons, List.filter_append, List.filter_append,
    hnone front (by simp) hnodup.1.1, hnone back (by simp) hnodup.1.2, List.nil_append,
    List.append_nil]

variable {t : Text} {l m : Line} {s : Span} {v : Token}

theorem Range.Within.not_before {r o : Range} (h : r.Within o) : ¬ r.Before o ∧ ¬ o.Before r := by
  obtain ⟨hstart, hproper, hstop⟩ := h
  simp only [Range.Before, Position.lt_iff, Position.le_iff] at *
  omega

namespace Document

theorem cleanSpan_owned (hl : l ∈ (parse t).lines) (h : l.Owns s) : t.CleanSpan s := by
  rcases h with rfl | ⟨k, hk, rfl⟩
  · exact cleanSpan_line hl
  · exact cleanSpan_token hl hk

theorem within_line (hl : l ∈ (parse t).lines) (h : l.Owns s) :
    (t.rangeAt s).Within (t.rangeAt l.span) :=
  (cleanSpan_owned hl h).within_rangeAt (cleanSpan_line hl) (h.within (wellFormed_of_mem_lines hl))

theorem not_within_other (hl : l ∈ (parse t).lines) (hm : m ∈ (parse t).lines) (hne : m ≠ l)
    (h : m.Owns s) : ¬ (t.rangeAt s).Within (t.rangeAt l.span) := by
  intro hin
  have hs := cleanSpan_owned hm h
  obtain ⟨hstart, hstop⟩ := h.within (wellFormed_of_mem_lines hm)
  rcases apart_lines hm hl hne with hlt | hlt
  · exact hin.not_before.1 (hs.before_rangeAt (cleanSpan_line hl) (by omega))
  · exact hin.not_before.2 ((cleanSpan_line hl).before_rangeAt hs (by omega))

end Document

/-! ## The links -/

/-- The links of a line. -/
def Line.linksAt (t : Text) (l : Line) : List Link :=
  l.linkToken?.toList.map fun v => ⟨t.rangeAt v.span, v.value⟩

theorem not_isWebText_nil : Url.isWebText [] = false := by decide +kernel

theorem Line.linkToken?_eq_some_iff : l.linkToken? = some v ↔
    l.kind = .sitemap ∧ Url.isWebText l.valueText ∧ l.value? = some v := by
  unfold Line.linkToken?
  by_cases hempty : l.valueText = []
  · simp [hempty, not_isWebText_nil]
  · simp [hempty, and_assoc]

namespace Document

theorem links_parse (t : Text) :
    (parse t).links t = .ok ((parse t).lines.flatMap (Line.linksAt t)) := by
  have hmap : (parse t).lines.flatMap (Line.linksAt t) =
      ((parse t).lines.filterMap Line.linkToken?).map fun v => ⟨t.rangeAt v.span, v.value⟩ := by
    rw [List.filterMap_eq_flatMap_toList, List.map_flatMap]
    rfl
  rw [hmap]
  refine mapM_eq_ok fun v hv => ?_
  obtain ⟨l, hl, hv⟩ := List.mem_filterMap.mp hv
  rw [(cleanSpan_owned hl (Line.owns_value (Line.linkToken?_eq_some_iff.mp hv).2.2)).rangeOf_eq]
  rfl

theorem owns_of_mem_linksAt {k : Link} (hk : k ∈ l.linksAt t) :
    l.kind = .sitemap ∧ ∃ s, l.Owns s ∧ k.range = t.rangeAt s := by
  obtain ⟨v, hv, rfl⟩ := List.mem_map.mp hk
  obtain ⟨hkind, -, hvalue⟩ := Line.linkToken?_eq_some_iff.mp (Option.mem_toList.mp hv)
  exact ⟨hkind, v.span, Line.owns_value hvalue, rfl⟩

theorem filter_links (hl : l ∈ (parse t).lines) :
    ((parse t).lines.flatMap (Line.linksAt t)).filter
      (fun k => k.range.Within (t.rangeAt l.span)) = l.linksAt t := by
  rw [filter_flatMap_eq (nodup_lines t) hl fun m hm hne k hk => ?_]
  · refine List.filter_eq_self.mpr fun k hk => ?_
    obtain ⟨-, s, hs, hrange⟩ := owns_of_mem_linksAt hk
    simpa [hrange] using within_line hl hs
  · obtain ⟨-, s, hs, hrange⟩ := owns_of_mem_linksAt hk
    simpa [hrange] using not_within_other hl hm hne hs

end Document

/-! ## The faults -/

/-- The marker of a diagnostic of a text. -/
def Diagnostic.markerAt (t : Text) (x : Diagnostic) : Marker :=
  { range := t.rangeAt x.span, severity := x.severity, code := x.code, source := x.source
    message := x.message }

theorem Dispatcher.Pinned.markers_eq {d : Dispatcher} (h : d.Pinned) (t : Text) (range : Span) :
    markers t (d.analyze (Document.parse t) range) =
      .ok ((d.analyze (Document.parse t) range).map (Diagnostic.markerAt t)) := by
  refine mapM_eq_ok fun x hx => ?_
  obtain ⟨l, hl, hown⟩ := h.exists_owner hx
  rw [Marker.ofDiagnostic, (Document.cleanSpan_owned hl hown).rangeOf_eq]
  rfl

theorem filter_remarks {as : List Analyzer} (h : ∀ a ∈ as, a.Pinned) (code : Text) (n : Node) :
    (remarks as n).filter (fun x => x.code = code) =
      remarks (as.filter fun a => a.name = code) n := by
  induction as with
  | nil => rfl
  | cons a as ih =>
    obtain ⟨ha, has⟩ := List.forall_mem_cons.mp h
    rw [remarks_cons, List.filter_append, ih has]
    by_cases hname : a.name = code
    · have hall : (remarks [a] n).filter (fun x => x.code = code) = remarks [a] n :=
        List.filter_eq_self.mpr fun x hx => by simpa using (ha.code_eq hx).trans hname
      rw [List.filter_cons_of_pos (by simpa using hname), remarks_cons a (as.filter _), hall]
    · have hnone : (remarks [a] n).filter (fun x => x.code = code) = [] :=
        List.filter_eq_nil_iff.mpr fun x hx => by simpa [ha.code_eq hx] using hname
      rw [List.filter_cons_of_neg (by simpa using hname), hnone, List.nil_append]

/-- What the analyzer of sitemaps says about a line. -/
def Line.sitemapRemarks (l : Line) : List Diagnostic := remarks [Analyzer.sitemapUrl] (.line l)

/-- The remark on a sitemap whose value is no address of the Web. -/
def Line.sitemapRemark (l : Line) : Diagnostic :=
  { span := Analyzer.valueSpan l, severity := .error, code := utf8 "sitemap-url"
    source := utf8 "robotsls"
    message := utf8 "sitemap " ++ l.valueText.quote ++ utf8 " is not an absolute http(s) URL" }

theorem Analyzer.handles_sitemapUrl {k : Kind} : sitemapUrl.handles k ↔ k = .sitemap := by
  cases k with
  | unassigned code => simp [handles, sitemapUrl, ofLines, Kind.derives, Kind.ancestors_eq,
      Kind.parent?]
  | _ => decide

theorem Line.sitemapRemarks_eq (hkind : l.kind = .sitemap) (hdelimiter : l.delimiter? = some v) :
    l.sitemapRemarks =
      if v.missing = false ∧ Url.isWebText l.valueText = false then [l.sitemapRemark] else [] := by
  have hfilter : ([Analyzer.sitemapUrl].filter fun a => a.handles (Node.line l).kind) =
      [Analyzer.sitemapUrl] := List.filter_cons_of_pos (Analyzer.handles_sitemapUrl.mpr hkind)
  rw [sitemapRemarks, remarks, hfilter, List.flatMap_singleton, Call.diagnostics, Call.outcome]
  simp only [Analyzer.sitemapUrl, Analyzer.ofLines, Analyzer.ifDelimited, hdelimiter]
  cases v.missing <;> cases Url.isWebText l.valueText <;> rfl

namespace Document

theorem filter_analyze (t : Text) :
    ((Dispatcher.mk Analyzer.builtin).analyze (parse t) ⟨0, t.length⟩).filter
      (fun x => x.code = utf8 "sitemap-url") = (parse t).lines.flatMap Line.sitemapRemarks := by
  have hname : (Analyzer.builtin.filter fun a => a.name = utf8 "sitemap-url") =
      [Analyzer.sitemapUrl] := rfl
  have hdocument : remarks [Analyzer.sitemapUrl] (.document (parse t)) = [] := rfl
  have hrecord : ∀ r : Record, remarks [Analyzer.sitemapUrl] (.record r) = [] := fun _ => rfl
  rw [Dispatcher.analyze_full, List.filter_flatMap]
  simp only [filter_remarks Analyzer.pinned_builtin, hname, Node.descendants_document,
    List.flatMap_cons, hdocument, hrecord, List.flatMap_assoc, List.flatMap_map, List.nil_append,
    lines]
  rfl

theorem owns_of_mem_sitemapRemarks {x : Diagnostic} (hx : x ∈ l.sitemapRemarks) :
    l.kind = .sitemap ∧ l.Owns x.span := by
  obtain ⟨a, ha, hhandles, hcall⟩ := mem_remarks.mp hx
  obtain rfl := List.mem_singleton.mp ha
  obtain ⟨ds, hds, e, he, rfl⟩ := mem_diagnostics.mp hcall
  obtain ⟨-, m, hm, hown⟩ := Analyzer.pinned_sitemapUrl _ hhandles ds hds e he
  obtain rfl := List.mem_singleton.mp hm
  exact ⟨Analyzer.handles_sitemapUrl.mp hhandles, hown⟩

theorem filter_items (hl : l ∈ (parse t).lines) :
    (((Dispatcher.mk Analyzer.builtin).analyze (parse t) ⟨0, t.length⟩).map
        (Diagnostic.markerAt t)).filter
      (fun m => m.code = utf8 "sitemap-url" ∧ m.range.Within (t.rangeAt l.span)) =
      l.sitemapRemarks.map (Diagnostic.markerAt t) := by
  have hsplit : ((fun m : Marker => decide (m.code = utf8 "sitemap-url" ∧
      m.range.Within (t.rangeAt l.span))) ∘ Diagnostic.markerAt t) =
      fun x => decide ((t.rangeAt x.span).Within (t.rangeAt l.span)) &&
        decide (x.code = utf8 "sitemap-url") := by
    funext x
    rw [Function.comp_apply, Bool.and_comm, Bool.decide_and]
    rfl
  rw [List.filter_map, hsplit, ← List.filter_filter, filter_analyze,
    filter_flatMap_eq (nodup_lines t) hl fun m hm hne x hx => ?_]
  · congr 1
    refine List.filter_eq_self.mpr fun x hx => ?_
    simpa using within_line hl (owns_of_mem_sitemapRemarks hx).2
  · simpa using not_within_other hl hm hne (owns_of_mem_sitemapRemarks hx).2

/-! ## The lines of a document -/

theorem delimited_of_sitemap (hl : l ∈ (parse t).lines) (hkind : l.kind = .sitemap) :
    ∃ d, l.delimiter? = some d ∧ ((d.missing = false ∧ ∀ v ∈ l.value?, v.missing = false) ∨
      (d.missing ∧ l.valueText = [])) := by
  obtain ⟨r, -, hw⟩ := exists_row hl
  obtain ⟨front, rest, -, -, -, hfront, -, -⟩ := hw.parts
  cases hfront with
  | blank ht kind => exact absurd (kind.symm.trans hkind) (by decide)
  | bare hlead hn hne ht hc kind name delimiter value =>
    exact ⟨_, delimiter, .inr ⟨rfl, by rw [Line.valueText, value]; rfl⟩⟩
  | pair hc kind name delimiter value =>
    refine ⟨_, delimiter, .inl ⟨rfl, fun v hv => ?_⟩⟩
    generalize l.value? = x at hv value
    cases value with
    | blank => simp at hv
    | between =>
      obtain rfl := Option.some_inj.mp hv
      rfl

/-- **A sitemap has the links and the faults that it should have.** -/
theorem sitemapShown_line (hl : l ∈ (parse t).lines) (hkind : l.kind = .sitemap) :
    l.SitemapShown t (l.linksAt t) (l.sitemapRemarks.map (Diagnostic.markerAt t)) := by
  obtain ⟨d, hd, ⟨hpresent, hvalue⟩ | ⟨hmissing, hvalue⟩⟩ := delimited_of_sitemap hl hkind
  · have hdelimited : l.isDelimited := by simp [Line.isDelimited, hd, hpresent]
    rw [Line.sitemapRemarks_eq hkind hd]
    cases hweb : Url.isWebText l.valueText with
    | true =>
      have hne : l.valueText ≠ [] := fun h => by simp [h, not_isWebText_nil] at hweb
      obtain ⟨v, hv⟩ := Line.exists_value_of_valueText hne
      have htext : l.valueText = v.value := by simp [Line.valueText, hv, hvalue v hv]
      have hlink := Line.linkToken?_eq_some_iff.mpr ⟨hkind, hweb, hv⟩
      rw [Line.linksAt, hlink, if_neg (by simp)]
      exact .linked hdelimited hv (htext ▸ hweb)
        (cleanSpan_owned hl (Line.owns_value hv)).rangeOf_eq
    | false =>
      have hlink : l.linkToken? = none := by simp [Line.linkToken?, hweb]
      rw [Line.linksAt, hlink, if_pos ⟨hpresent, rfl⟩]
      exact .faulted hdelimited (by simp [hweb]) (cleanSpan_owned hl l.owns_valueSpan).rangeOf_eq
  · have hlink : l.linkToken? = none := by simp [Line.linkToken?, hvalue]
    rw [Line.sitemapRemarks_eq hkind hd, Line.linksAt, hlink, if_neg (by simp [hmissing])]
    exact .undelimited (by simp [Line.isDelimited, hd, hmissing])

/-- **The links and the diagnostics of a document** share out its sitemaps. -/
theorem sitemapsShown_parse (t : Text) : ∃ links items, (parse t).links t = .ok links ∧
    markers t ((Dispatcher.mk Analyzer.builtin).analyze (parse t) ⟨0, t.length⟩) = .ok items ∧
    (parse t).SitemapsShown t links items := by
  have hinside : ∀ {l s}, l ∈ (parse t).lines → l.kind = .sitemap → l.Owns s →
      (parse t).InSitemap t (t.rangeAt s) := fun hl hkind hs =>
    ⟨_, hl, hkind, _, (cleanSpan_line hl).rangeOf_eq, within_line hl hs⟩
  have hpinned : (Dispatcher.mk Analyzer.builtin).Pinned := Analyzer.pinned_builtin
  refine ⟨_, _, links_parse t, hpinned.markers_eq t _,
    fun l hl hkind => ?_, fun k hk => ?_, fun m hm hcode => ?_⟩
  · refine ⟨_, (cleanSpan_line hl).rangeOf_eq, ?_⟩
    rw [filter_links hl, filter_items hl]
    exact sitemapShown_line hl hkind
  · obtain ⟨l, hl, hk⟩ := List.mem_flatMap.mp hk
    obtain ⟨hkind, s, hs, hrange⟩ := owns_of_mem_linksAt hk
    exact hrange ▸ hinside hl hkind hs
  · obtain ⟨x, hx, rfl⟩ := List.mem_map.mp hm
    have hx : x ∈ (parse t).lines.flatMap Line.sitemapRemarks := by
      rw [← filter_analyze]
      exact List.mem_filter.mpr ⟨hx, decide_eq_true hcode⟩
    obtain ⟨l, hl, hx⟩ := List.mem_flatMap.mp hx
    obtain ⟨hkind, hown⟩ := owns_of_mem_sitemapRemarks hx
    exact hinside hl hkind hown

end Document

/-! ## The answers of a server -/

namespace Server

/-- **Links and diagnostics of sitemaps are complementary.** After any events that leave a server
with the builtin analyzers, the links and the diagnostics that it answers share out the sitemaps of
the current text: each one with a delimiter has either a link or a fault, and each one without has
neither. -/
theorem sitemapsShown_current (identity : Text) (notifies : Bool) (logLevel : LogLevel)
    (es : List ServerEvent) (disk : Disk) {uri : Text} {x : Snapshot}
    (hx : Desk.run (fun _ => none) es uri = some x) :
    let s := ({ identity, notifies, logLevel } : Server).run es
    s.dispatcher = ⟨Analyzer.builtin⟩ →
    ∃ links id items, (s.handle disk (.documentLink uri)).reply = .ok (.links links) ∧
      (s.handle disk (.diagnostic uri [])).reply = .ok (.report id items) ∧
      (Document.parse x.text).SitemapsShown x.text links items := by
  intro s hbuiltin
  have h₀ := coherent_fresh identity notifies logLevel
  have hs : s.Coherent := h₀.run es
  have hshown : s.shown uri = some x := by
    rw [h₀.shown_run es]
    exact hx
  obtain ⟨links, items, hlinks, hitems, hsitemaps⟩ := Document.sitemapsShown_parse x.text
  refine ⟨links, s.resultId x.version, items, ?_, ?_, hsitemaps⟩
  · refine (hs.ask_eq uri fun _ => .ok .links).trans ?_
    rw [hshown]
    show (((Document.parse x.text).links x.text).mapError Fault.span).map Reply.links = _
    rw [hlinks]
    rfl
  · refine (hs.pull_nil uri).trans (freshAnswer_diagnostics_iff.mpr ⟨x, hshown, rfl, ?_⟩)
    rw [hbuiltin]
    exact hitems

/-- Sitemaps with a good address, without a delimiter, with a bad address and without a value. -/
def fourSitemaps : String := "SITEMAP : http://é/𝄞 # a\r\nsitemap\n\nsitemap: ftp://b\rsitemap:"

theorem sitemapsShown_current_four :
    let s := briefServer.run [openFirst "u" fourSitemaps]
    Desk.run (fun _ => none) [openFirst "u" fourSitemaps] (utf8 "u") =
        some ⟨1, utf8 fourSitemaps⟩ ∧ s.dispatcher = ⟨Analyzer.builtin⟩ ∧
      ∃ links id items,
        (s.handle emptyDisk (.documentLink (utf8 "u"))).reply = .ok (.links links) ∧
        (s.handle emptyDisk (.diagnostic (utf8 "u") [])).reply = .ok (.report id items) ∧
        (Document.parse (utf8 fourSitemaps)).SitemapsShown (utf8 fourSitemaps) links items ∧
        links = [⟨⟨⟨0, 10⟩, ⟨0, 21⟩⟩, utf8 "http://é/𝄞"⟩] := by
  intro s
  have hdesk : Desk.run (fun _ => none) [openFirst "u" fourSitemaps] (utf8 "u") =
      some ⟨1, utf8 fourSitemaps⟩ := by decide +kernel
  obtain ⟨links, id, items, hlinks, hitems, hshown⟩ :=
    sitemapsShown_current (utf8 "a") true .info [openFirst "u" fourSitemaps] emptyDisk hdesk rfl
  have hanswer : (s.handle emptyDisk (.documentLink (utf8 "u"))).reply =
      .ok (.links [⟨⟨⟨0, 10⟩, ⟨0, 21⟩⟩, utf8 "http://é/𝄞"⟩]) := rfl
  obtain rfl := Reply.links.inj (Except.ok.inj (hlinks.symm.trans hanswer))
  exact ⟨hdesk, rfl, _, id, items, hlinks, hitems, hshown, rfl⟩

end Server

end RobotsTxt
