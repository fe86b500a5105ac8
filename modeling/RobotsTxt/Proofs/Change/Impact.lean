import Mathlib.Data.List.Forall2
import RobotsTxt.Proofs.Change.Script
import RobotsTxt.Proofs.Document.Order

/-!
# The impact of changes

After an edit only the records inside the impact have to be looked at again.

* `Change.Follows`: an old record and the new record that it has become, untouched and moved.
* **`Patch.exists_follows_or_covers`**: a new record that no change touches was an old one, or it is
  part of what an old record has become that a change touches.
* **`Document.cover_touched`**: the span of the touched records covers each of them.
-/

namespace RobotsTxt

/-! ## The ends of a record -/

theorem Text.solid_singleton {b : UInt8} (hb : isInk b) : Text.Solid [b] where
  ne_nil := by simp
  first := by simpa using hb
  last := by simpa using hb
  lines := by
    rw [splitLines_of_noBreak (by simpa using isBreak_of_isInk hb)]
    simpa using Text.not_isBlank_of_head (isBlank_of_isInk hb)

theorem Text.Opens.last {t : Text} (h : t.Opens) : ∀ b ∈ t.getLast?, isInk b = false := by
  intro b hb
  obtain ⟨s, rfl⟩ := List.getLast?_eq_some_iff.mp hb
  by_contra hink
  exact (Text.solid_singleton (by simpa using hink)).not_opens (m := []) (by simp) (by simp) h

theorem Text.Closes.first {t : Text} (h : t.Closes) : ∀ b ∈ t.head?, isInk b = false := by
  intro b hb
  obtain ⟨s, rfl⟩ := List.head?_eq_some_iff.mp hb
  by_contra hink
  exact (Text.solid_singleton (by simpa using hink)).not_closes (m := []) (by simp) (by simp) h

theorem getLast_of_byteOrderMark {s k : Text} (h : byteOrderMark = s ++ k) (hk : k ≠ []) :
    (0xBF : UInt8) ∉ s := by
  have hnodup : (s ++ k).Nodup := by rw [← h]; decide
  have hlast : k.getLast? = some 0xBF := by
    rw [← List.getLast?_append_of_ne_nil s hk, ← h]
    rfl
  exact fun hs => (List.nodup_append.mp hnodup).2.2 _ hs _ (List.mem_of_mem_getLast? hlast) rfl

namespace Patch

theorem last_mark_append {t pre : Text} {b : UInt8} (hpre : pre.Opens)
    (h : (t.mark ++ pre).getLast? = some b) (hb : b ∈ byteOrderMark) : b = 0xBF := by
  rcases List.eq_nil_or_concat pre with rfl | ⟨pre, d, rfl⟩
  · rcases t.mark_eq_or with hm | hm
    · rw [hm] at h
      simpa [byteOrderMark] using h.symm
    · simp [hm] at h
  · obtain rfl : d = b := by simpa using h
    have := hpre.last d (by simp)
    rw [isInk_of_mem_byteOrderMark d hb] at this
    exact absurd this (by decide)

theorem byteOrderMark_of_shared {mid gap back back' rest : Text}
    (h : byteOrderMark ++ rest = mid ++ (gap ++ back)) (hgap : gap = [] → back = [])
    (hc : (gap ++ back').Closes) : byteOrderMark <+: mid ++ (gap ++ back') := by
  rcases List.append_eq_append_iff.mp h with ⟨m, rfl, -⟩ | ⟨m, hm, hrest⟩
  · exact ⟨m ++ (gap ++ back'), by simp⟩
  cases gap with
  | nil =>
    obtain rfl : m = [] := by simp_all
    exact ⟨back', by simp [hm]⟩
  | cons d gap =>
    cases m with
    | nil => exact ⟨d :: gap ++ back', by simp [hm]⟩
    | cons e m =>
      obtain rfl : d = e := by simp_all
      have hd := isInk_of_mem_byteOrderMark d (by rw [hm]; simp)
      rw [hc.first d rfl] at hd
      exact absurd hd (by decide)

theorem Kept.mark_le {o n P P' mid post post' pre' : Text} {ps : List Patch}
    (ho : o = P ++ mid ++ post) (hn : n = P' ++ mid ++ post') (hP' : P' = n.mark ++ pre')
    (hk : Kept 0 0 ps P P' mid post post') (hpre : pre'.Opens) (hpost : post'.Closes) :
    ∃ Q, P = o.mark ++ Q := by
  rcases o.mark_eq_or with hmark | hmark
  swap
  · exact ⟨P, by rw [hmark, List.nil_append]⟩
  have hcut : byteOrderMark ++ o.body = P ++ (mid ++ post) := by
    rw [← hmark, o.mark_append_body, ho, List.append_assoc]
  rw [hmark]
  rcases List.append_eq_append_iff.mp hcut with ⟨Q, hQ, -⟩ | ⟨k, hbom, hrest⟩
  · exact ⟨Q, hQ⟩
  by_cases hkne : k = []
  · exact ⟨[], by rw [hbom, hkne]; simp⟩
  exfalso
  obtain ⟨front, front', gap, rfl, rfl, hleft⟩ := hk.left
  rcases List.eq_nil_or_concat gap with rfl | ⟨gap, b, rfl⟩
  · obtain ⟨rfl, rfl⟩ : front = [] ∧ front' = [] := hleft.resolve_right fun h => h.1 rfl
    have hnmark : n.mark = [] := (List.append_eq_nil_iff.mp hP'.symm).1
    obtain ⟨gap, back, back', rfl, rfl, hright⟩ := hk.right
    have hcut' : byteOrderMark ++ o.body = mid ++ (gap ++ back) := by simpa using hcut
    have hno := byteOrderMark_of_shared hcut'
      (fun hgap => (hright.resolve_right fun h => h.1 hgap).1) hpost
    rw [Text.mark, if_pos (by rw [hn]; simpa using hno)] at hnmark
    exact absurd hnmark (by decide)
  · refine getLast_of_byteOrderMark hbom hkne ?_
    have hb : b ∈ byteOrderMark := by rw [hbom]; simp
    rw [← last_mark_append hpre (by rw [← hP']; simp) hb]
    simp

theorem Kept.start_le_change {o n P P' mid post post' pre' x v : Text} {ps : List Patch}
    (ho : o = P ++ mid ++ post) (hP : P = o.mark ++ x ++ v) (hP' : P' = n.mark ++ pre')
    (hk : Kept 0 0 ps P P' mid post post') (hpre : pre'.Opens) (hx : x.Opens)
    (hv : ∀ s : Text, ¬ (s ++ v).Opens) :
    ∃ c ∈ changes 0 0 ps,
      (o.mark.length + x.length : Nat) ≤ c.old.stop ∧ c.old.stop ≤ P.length := by
  obtain ⟨front, front', gap, hfront, hfront', hleft⟩ := hk.left
  by_cases hle : o.mark.length + x.length ≤ front.length ∧ ¬ (front = [] ∧ front' = [])
  · obtain ⟨c, hc, hstop⟩ := (hleft.resolve_left hle.2).2
    refine ⟨c, hc, ?_⟩
    have hlen := congrArg List.length hfront
    simp only [List.length_append] at hlen
    omega
  exfalso
  -- otherwise the text kept in front of the stretch holds the start of the old record
  obtain ⟨g, hg, rfl⟩ : ∃ g, o.mark ++ x = front ++ g ∧ gap = g ++ v := by
    rcases List.append_eq_append_iff.mp (hP.symm.trans hfront) with ⟨g, hg, hv⟩ | ⟨g, hg, hgap⟩
    · obtain ⟨rfl, rfl⟩ : front = [] ∧ front' = [] := by
        by_contra hne
        exact hle ⟨by simp [hg], hne⟩
      obtain ⟨hnil, rfl⟩ := List.append_eq_nil_iff.mp hg.symm
      exact ⟨[], by simpa using hnil, by simpa using hv.symm⟩
    · exact ⟨g, hg, hgap⟩
  rw [hP'] at hfront'
  rw [← List.append_assoc] at hfront'
  rcases List.append_eq_append_iff.mp hfront' with ⟨s, -, hs⟩ | ⟨s, hs, rfl⟩
  · exact hv s (hs ▸ hpre)
  have hsne : s ≠ [] := by
    rintro rfl
    exact hv [] hpre
  have hmark : n.mark = byteOrderMark := n.mark_eq_or.resolve_right fun h => by simp_all
  rw [hmark] at hs
  rcases List.eq_nil_or_concat g with rfl | ⟨g, b, rfl⟩
  · have hlen := congrArg List.length hg
    simp only [List.length_append, List.append_nil] at hlen
    obtain ⟨rfl, rfl⟩ : front = [] ∧ front' = [] := by
      by_contra hne
      exact hle ⟨by omega, hne⟩
    have hnil : o.mark = [] ∧ x = [] := by simpa using hg
    have ho' : o = byteOrderMark ++ (pre' ++ mid ++ post) := by
      rw [ho, hP, hnil.1, hnil.2, hs]
      simp
    have hmark' := Text.mark_of_append (pre' ++ mid ++ post)
    rw [← ho', hnil.1] at hmark'
    exact absurd hmark' (by decide)
  · refine getLast_of_byteOrderMark hs hsne ?_
    have hb : b ∈ byteOrderMark := by rw [hs]; simp
    rw [← last_mark_append hx (by rw [hg]; simp) hb]
    simp

theorem Kept.change_le_stop {P P' mid post post' v z : Text} {ps : List Patch}
    (hpost : post = v ++ z) (hk : Kept 0 0 ps P P' mid post post') (hpost' : post'.Closes)
    (hv : ∀ s : Text, ¬ (v ++ s).Closes) :
    ∃ c ∈ changes 0 0 ps, (P.length + mid.length : Nat) ≤ c.old.start ∧
      c.old.start ≤ (P.length + mid.length + v.length : Nat) := by
  obtain ⟨gap, back, back', hgap, rfl, hright⟩ := hk.right
  rcases List.append_eq_append_iff.mp (hpost.symm.trans hgap) with ⟨k, rfl, -⟩ | ⟨k, rfl, hback⟩
  · exact absurd hpost' (by rw [List.append_assoc]; exact hv _)
  rcases hright with ⟨rfl, rfl⟩ | ⟨-, c, hc, hstart⟩
  · obtain ⟨rfl, -⟩ := List.append_eq_nil_iff.mp hback.symm
    exact absurd hpost' (by simpa using hv [])
  · refine ⟨c, hc, ?_⟩
    rw [hstart, List.length_append]
    omega

end Patch

/-- An old record that no change touches and the new record that it has become. -/
structure Change.Follows (changes : List Change) (r r' : Record) : Prop where
  misses : ∀ c ∈ changes, ¬ r.span.touches c.old
  start : translatePoint changes .before r.span.start = r'.span.start
  shift : ∃ δ, r' = r.shift δ

/-- An old record that a change touches, and that becomes a span with the new record in it. -/
structure Change.Covers (changes : List Change) (r r' : Record) : Prop where
  touched : ∃ c ∈ changes, r.span.touches c.old
  start : translatePoint changes .before r.span.start ≤ r'.span.start
  stop : r'.span.stop ≤ translatePoint changes .after r.span.stop

namespace Patch

variable {ps : List Patch} {tail : Text} {tracking : Tracking}

theorem translatePoint_changes (tracking : Tracking) (x : Int) (ps : List Patch) :
    translatePoint (changes 0 0 ps) tracking x =
      Change.carry tracking x ((0 : Nat) - (0 : Nat)) (changes 0 0 ps) := by
  rw [translatePoint, sorted_changes]
  rfl

theorem translatePoint_mono {x y : Int} (hx : 0 ≤ x) (h : x ≤ y) :
    translatePoint (changes 0 0 ps) tracking x ≤ translatePoint (changes 0 0 ps) tracking y := by
  rw [translatePoint_changes, translatePoint_changes]
  exact carry_mono (a := 0) (by simpa using hx) h

theorem Kept.translate_start {pre pre' mid post post' : Text}
    (h : Kept 0 0 ps pre pre' mid post post') :
    translatePoint (changes 0 0 ps) .before pre.length = pre'.length := by
  rw [translatePoint_changes]
  simpa using h.start

theorem Kept.translate_stop {pre pre' mid post post' : Text}
    (h : Kept 0 0 ps pre pre' mid post post') :
    translatePoint (changes 0 0 ps) .after (pre.length + mid.length : Nat) =
      (pre'.length + mid.length : Nat) := by
  rw [translatePoint_changes]
  simpa using h.stop

theorem shift_of_readAll {start start' : Nat} {mid : Text} {r r' : Record}
    (h : Record.readAll start mid = [r]) (h' : Record.readAll start' mid = [r']) :
    ∃ δ, r' = r.shift δ := by
  rw [← Nat.zero_add start, Record.readAll_add] at h
  rw [← Nat.zero_add start', Record.readAll_add] at h'
  obtain ⟨r₀, hr₀, rfl⟩ : ∃ r₀, Record.readAll 0 mid = [r₀] ∧ r₀.shift start = r := by
    simpa [List.map_eq_singleton_iff] using h
  rw [hr₀, List.map_singleton, List.singleton_inj] at h'
  refine ⟨start' - start, ?_⟩
  rw [Record.shift_shift, ← h']
  congr 1
  omega

/-- **A new record that no change touches** was an old one, or it is part of what an old record has
become that a change touches. -/
theorem exists_follows_or_covers {r' : Record} (hr' : r' ∈ (Document.parse (after tail ps)).records)
    (hmiss : ∀ c ∈ changes 0 0 ps, ¬ r'.span.touches c.new) :
    ∃ r ∈ (Document.parse (before tail ps)).records,
      Change.Follows (changes 0 0 ps) r r' ∨ Change.Covers (changes 0 0 ps) r r' := by
  obtain ⟨pre', mid, post', hbody, hpre, hmid, hpost, hread⟩ := Document.exists_place hr'
  obtain ⟨_, hread', hspan'⟩ := hmid.exists_record ((after tail ps).mark.length + pre'.length)
  obtain rfl := List.singleton_inj.mp (hread'.symm.trans hread)
  have hn : after tail ps = (after tail ps).mark ++ pre' ++ mid ++ post' := by
    conv_lhs => rw [← (after tail ps).mark_append_body, hbody]
    simp
  obtain ⟨P, post, ho, hk⟩ := exists_kept (a := 0) (b := 0) hn fun c hc => by
    have := hmiss c hc
    rw [hspan'] at this
    simpa using this
  obtain ⟨Q, rfl⟩ := hk.mark_le ho hn rfl hpre hpost
  obtain ⟨x, v, w, z, rfl, rfl, hx, hy, hz⟩ := hmid.exists_cover Q post
  have hbody' : (before tail ps).body = x ++ (v ++ mid ++ w) ++ z := by
    have hcut : (before tail ps).mark ++ (before tail ps).body =
        (before tail ps).mark ++ (x ++ (v ++ mid ++ w) ++ z) := by
      rw [Text.mark_append_body]
      conv_lhs => rw [ho]
      simp
    exact List.append_cancel_left hcut
  obtain ⟨r, hr, hreadr, hspan⟩ := Document.exists_record hbody' hx hy hz
  refine ⟨r, hr, ?_⟩
  by_cases hsame : v = [] ∧ w = []
  · obtain ⟨rfl, rfl⟩ := hsame
    rw [List.append_nil, List.nil_append] at hreadr hspan
    rw [List.append_nil] at hk
    refine .inl ⟨fun c hc => ?_, ?_, shift_of_readAll hreadr hread⟩
    · rw [hspan]
      simpa using hk.misses c hc
    · have := hk.translate_start
      rw [List.length_append, List.length_append] at this
      rw [hspan, hspan', this]
  · refine .inr ⟨?_, ?_, ?_⟩
    · by_cases hv : v = []
      · have hw : w ≠ [] := fun h => hsame ⟨hv, h⟩
        obtain ⟨c, hc, hle⟩ := hk.change_le_stop rfl hpost fun s =>
          hy.not_closes hw fun b hb => isBreak_of_isInk (hmid.last b (by simpa [hv] using hb))
        have := le_of_mem_changes hc
        refine ⟨c, hc, ?_⟩
        rw [hspan]
        simp only [Span.touches, Bool.and_eq_true, decide_eq_true_eq, List.length_append] at hle ⊢
        omega
      · obtain ⟨c, hc, hle⟩ := hk.start_le_change (v := v) ho (by simp) rfl hpre hx fun s => by
          rw [List.append_assoc] at hy
          refine hy.not_opens hv fun b hb => isBreak_of_isInk (hmid.first b ?_)
          rwa [List.head?_append_of_ne_nil _ hmid.ne_nil] at hb
        have := le_of_mem_changes hc
        refine ⟨c, hc, ?_⟩
        rw [hspan]
        simp only [Span.touches, Bool.and_eq_true, decide_eq_true_eq, List.length_append] at hle ⊢
        omega
    · rw [hspan', ← List.length_append, ← hk.translate_start, hspan]
      refine translatePoint_mono (by simp only; omega) ?_
      simp only [List.length_append]
      omega
    · rw [hspan', ← List.length_append, ← hk.translate_stop, hspan]
      refine translatePoint_mono (by omega) ?_
      simp only [List.length_append]
      omega

end Patch

/-! ## Touched records -/

namespace Document

variable {t : Text} {places : List Span} {r : Record} {s : Span}

/-- The records of a document that touch one of some places. -/
def hits (d : Document) (places : List Span) : List Record :=
  d.records.filter fun r => places.any fun s => r.span.touches s

theorem mem_hits {d : Document} : r ∈ d.hits places ↔
    r ∈ d.records ∧ ∃ s ∈ places, r.span.touches s := by
  simp [hits]

theorem touched?_eq (d : Document) (places : List Span) : d.touched? places =
    (d.hits places).head?.bind fun first => (d.hits places).getLast?.map fun last =>
      ⟨first.span.start, last.span.stop⟩ := by
  simp only [touched?, hits]
  cases (d.records.filter fun r => places.any fun s => r.span.touches s).head? with
  | none => rfl
  | some first =>
    cases (d.records.filter fun r => places.any fun s => r.span.touches s).getLast? <;> rfl

theorem touched?_eq_none {d : Document} (h : d.touched? places = none) : d.hits places = [] := by
  rw [touched?_eq] at h
  rcases List.eq_nil_or_concat (d.hits places) with hnil | ⟨init, last, hlast⟩
  · exact hnil
  · obtain ⟨first, rest, hfirst⟩ := List.exists_cons_of_ne_nil
      (show d.hits places ≠ [] by simp [hlast])
    rw [show (d.hits places).getLast? = some last by simp [hlast], hfirst] at h
    exact absurd h (by simp)

theorem exists_ends {d : Document} (h : d.touched? places = some s) :
    ∃ first ∈ d.hits places, ∃ last ∈ d.hits places, s = ⟨first.span.start, last.span.stop⟩ ∧
      (d.hits places).head? = some first ∧ (d.hits places).getLast? = some last := by
  rw [touched?_eq, Option.bind_eq_some_iff] at h
  obtain ⟨first, hfirst, h⟩ := h
  obtain ⟨last, hlast, rfl⟩ := Option.map_eq_some_iff.mp h
  exact ⟨first, List.mem_of_mem_head? hfirst, last, List.mem_of_mem_getLast? hlast, rfl, hfirst,
    hlast⟩

theorem head_le {rs : List Record} (hp : rs.Pairwise Record.Precedes)
    (hs : ∀ r ∈ rs, r.span.start < r.span.stop) {first : Record} (hf : rs.head? = some first)
    (hr : r ∈ rs) : first.span.start ≤ r.span.start := by
  obtain ⟨rest, rfl⟩ := List.head?_eq_some_iff.mp hf
  rcases List.mem_cons.mp hr with rfl | hr'
  · exact Int.le_refl _
  · have := (List.pairwise_cons.mp hp).1 r hr'
    have := hs first List.mem_cons_self
    unfold Record.Precedes at *
    omega

theorem le_last {rs : List Record} (hp : rs.Pairwise Record.Precedes)
    (hs : ∀ r ∈ rs, r.span.start < r.span.stop) {last : Record} (hl : rs.getLast? = some last)
    (hr : r ∈ rs) : r.span.stop ≤ last.span.stop := by
  obtain ⟨init, rfl⟩ := List.getLast?_eq_some_iff.mp hl
  rcases List.mem_append.mp hr with hr' | hr'
  · have := (List.pairwise_append.mp hp).2.2 r hr' last (by simp)
    have := hs last (by simp)
    unfold Record.Precedes at *
    omega
  · obtain rfl := List.mem_singleton.mp hr'
    exact Int.le_refl _

/-- **The span of the touched records covers each of them.** -/
theorem cover_touched (hr : r ∈ (Document.parse t).hits places) :
    ∃ s, (Document.parse t).touched? places = some s ∧ s.start ≤ r.span.start ∧
      r.span.stop ≤ s.stop := by
  cases h : (Document.parse t).touched? places with
  | none => simp [touched?_eq_none h] at hr
  | some s =>
    obtain ⟨first, -, last, -, rfl, hf, hl⟩ := exists_ends h
    have hp := (Document.ordered_records t).filter fun r => places.any fun s => r.span.touches s
    have hs : ∀ r ∈ (Document.parse t).hits places, r.span.start < r.span.stop := fun r hr =>
      (Document.span_of_mem_records (mem_hits.mp hr).1).2.1
    exact ⟨_, rfl, head_le hp hs hf hr, le_last hp hs hl hr⟩

theorem touched?_bounds (h : (Document.parse t).touched? places = some s) :
    0 ≤ s.start ∧ s.start ≤ s.stop ∧ s.stop ≤ t.length := by
  obtain ⟨first, hfirst, last, hlast, rfl, -, -⟩ := exists_ends h
  obtain ⟨s', hs', -, hle⟩ := cover_touched hfirst
  obtain rfl : _ = s' := Option.some_inj.mp (h.symm.trans hs')
  have h₁ := Document.span_of_mem_records (mem_hits.mp hfirst).1
  have h₂ := Document.span_of_mem_records (mem_hits.mp hlast).1
  simp only at hle ⊢
  omega

end Document

/-! ## Old and new records side by side -/

/-- Partners that are found in order for all of one list make up a part of the other list. -/
theorem exists_sublist_forall₂ {α β : Type} {P : α → α → Prop} {Q : β → β → Prop}
    {R : α → β → Prop} {as : List α} {bs : List β} (ha : as.Pairwise P) (hb : bs.Pairwise Q)
    (hR : ∀ b ∈ bs, ∃ a ∈ as, R a b)
    (hlt : ∀ a ∈ as, ∀ a' ∈ as, ∀ b b', R a b → R a' b' → Q b b' → ¬ P a' a ∧ a' ≠ a) :
    ∃ as', as'.Sublist as ∧ List.Forall₂ R as' bs := by
  induction bs generalizing as with
  | nil => exact ⟨[], List.nil_sublist _, .nil⟩
  | cons b bs ih =>
    obtain ⟨hbb, hbs⟩ := List.pairwise_cons.mp hb
    obtain ⟨a, hmem, hab⟩ := hR b List.mem_cons_self
    obtain ⟨front, back, rfl⟩ := List.append_of_mem hmem
    have hback : ∀ x ∈ back, x ∈ front ++ a :: back := fun x hx => by simp [hx]
    obtain ⟨_, hcons, hfront⟩ := List.pairwise_append.mp ha
    obtain ⟨as', hsub, hall⟩ := ih (List.pairwise_cons.mp hcons).2 hbs (fun b' hb' => by
      obtain ⟨a', ha', hab'⟩ := hR b' (List.mem_cons_of_mem _ hb')
      have hne := hlt a hmem a' ha' b b' hab hab' (hbb b' hb')
      rcases List.mem_append.mp ha' with hf | hf
      · exact absurd (hfront a' hf a List.mem_cons_self) hne.1
      · exact ⟨a', (List.mem_cons.mp hf).resolve_left hne.2, hab'⟩)
      fun x hx x' hx' => hlt x (hback x hx) x' (hback x' hx')
    exact ⟨a :: as', (hsub.cons_cons a).trans (List.sublist_append_right _ _), .cons hab hall⟩

namespace Patch

variable {ps : List Patch} {tail : Text}

theorem exists_follows
    (ho : (Document.parse (before tail ps)).hits ((changes 0 0 ps).map Change.old) = [])
    (hn : (Document.parse (after tail ps)).hits ((changes 0 0 ps).map Change.new) = []) :
    ∀ r' ∈ (Document.parse (after tail ps)).records,
      ∃ r ∈ (Document.parse (before tail ps)).records, Change.Follows (changes 0 0 ps) r r' := by
  intro r' hr'
  have hmiss : ∀ c ∈ changes 0 0 ps, ¬ r'.span.touches c.new := fun c hc ht =>
    List.not_mem_nil (hn ▸ Document.mem_hits.mpr ⟨hr', c.new, List.mem_map_of_mem hc, ht⟩)
  obtain ⟨r, hr, hf | hc⟩ := exists_follows_or_covers hr' hmiss
  · exact ⟨r, hr, hf⟩
  · obtain ⟨c, hc, ht⟩ := hc.touched
    exact absurd (Document.mem_hits.mpr ⟨hr, c.old, List.mem_map_of_mem hc, ht⟩) (by simp [ho])

theorem exists_sublist_follows
    (ho : (Document.parse (before tail ps)).hits ((changes 0 0 ps).map Change.old) = [])
    (hn : (Document.parse (after tail ps)).hits ((changes 0 0 ps).map Change.new) = []) :
    ∃ rs, rs.Sublist (Document.parse (before tail ps)).records ∧
      List.Forall₂ (Change.Follows (changes 0 0 ps)) rs
        (Document.parse (after tail ps)).records := by
  refine exists_sublist_forall₂ (Document.ordered_records _) (Document.ordered_records _)
    (exists_follows ho hn) ?_
  intro a ha a' ha' b b' hab hab' hbb'
  have hspan := Document.span_of_mem_records ha
  have hspan' := Document.span_of_mem_records ha'
  have hb : b.span.start < b.span.stop := by
    obtain ⟨δ, rfl⟩ := hab.shift
    simp only [Record.shift, Span.shift]
    omega
  -- the old records stand in the same order, since offsets are carried in order
  have hlt : a.span.start < a'.span.start := by
    by_contra hle
    have hmono : translatePoint (changes 0 0 ps) .before a'.span.start ≤
        translatePoint (changes 0 0 ps) .before a.span.start :=
      translatePoint_mono hspan'.1 (Int.not_lt.mp hle)
    rw [hab.start, hab'.start] at hmono
    unfold Record.Precedes at hbb'
    omega
  refine ⟨fun hp => ?_, ?_⟩
  · unfold Record.Precedes at hp
    omega
  · rintro rfl
    omega

/-- **When no record is touched, all of them are moved**, one for one and in order. -/
theorem forall₂_follows
    (ho : (Document.parse (before tail ps)).hits ((changes 0 0 ps).map Change.old) = [])
    (hn : (Document.parse (after tail ps)).hits ((changes 0 0 ps).map Change.new) = []) :
    List.Forall₂ (Change.Follows (changes 0 0 ps)) (Document.parse (before tail ps)).records
      (Document.parse (after tail ps)).records := by
  obtain ⟨rs, hsub, hall⟩ := exists_sublist_follows ho hn
  -- the same in the other direction, so that no old record is lost
  have hn' : (Document.parse (before tail (ps.map swap))).hits
      ((changes 0 0 (ps.map swap)).map Change.old) = [] := by
    rw [before_swap, changes_swap, List.map_map]
    exact hn
  have ho' : (Document.parse (after tail (ps.map swap))).hits
      ((changes 0 0 (ps.map swap)).map Change.new) = [] := by
    rw [after_swap, changes_swap, List.map_map]
    exact ho
  obtain ⟨rs', hsub', hall'⟩ := exists_sublist_follows hn' ho'
  rw [before_swap] at hsub'
  rw [after_swap] at hall'
  have h₁ := hsub.length_le
  have h₂ := hsub'.length_le
  rw [hall.length_eq] at h₁
  rw [hall'.length_eq] at h₂
  rwa [hsub.eq_of_length (by rw [hall.length_eq]; omega)] at hall

/-! ## The impact -/

theorem translatePoint_bounds {tracking : Tracking} {x : Int} (h : 0 ≤ x)
    (hx : x ≤ (before tail ps).length) :
    0 ≤ translatePoint (changes 0 0 ps) tracking x ∧
      translatePoint (changes 0 0 ps) tracking x ≤ (after tail ps).length := by
  have hx' : x ≤ (0 + (before tail ps).length : Nat) := by simpa using hx
  rw [translatePoint_changes]
  refine ⟨le_carry (a := 0) (b := 0) h, ?_⟩
  simpa using carry_le (a := 0) (b := 0) hx'

theorem impact?_covers_new {r' : Record}
    (h : r' ∈ (Document.parse (after tail ps)).hits ((changes 0 0 ps).map Change.new)) :
    ∃ s, impact? (Document.parse (before tail ps)) (Document.parse (after tail ps))
      (changes 0 0 ps) = some s ∧ s.start ≤ r'.span.start ∧ r'.span.stop ≤ s.stop := by
  obtain ⟨s, hs, hle⟩ := Document.cover_touched h
  unfold impact?
  rw [hs]
  cases (Document.parse (before tail ps)).touched? ((changes 0 0 ps).map Change.old) with
  | none => exact ⟨s, rfl, hle⟩
  | some q =>
    refine ⟨_, rfl, ?_⟩
    simp only [Span.cover]
    omega

theorem impact?_covers_old {r r' : Record}
    (hr : r ∈ (Document.parse (before tail ps)).records)
    (hc : Change.Covers (changes 0 0 ps) r r') :
    ∃ s, impact? (Document.parse (before tail ps)) (Document.parse (after tail ps))
      (changes 0 0 ps) = some s ∧ s.start ≤ r'.span.start ∧ r'.span.stop ≤ s.stop := by
  obtain ⟨c, hmem, ht⟩ := hc.touched
  obtain ⟨q, hq, hstart, hstop⟩ := Document.cover_touched
    (Document.mem_hits.mpr ⟨hr, c.old, List.mem_map_of_mem hmem, ht⟩)
  have hbounds := Document.touched?_bounds hq
  have hspan := Document.span_of_mem_records hr
  have h₁ := Int.le_trans (translatePoint_mono hbounds.1 hstart) hc.start
  have h₂ := Int.le_trans hc.stop (translatePoint_mono (by omega) hstop)
  unfold impact?
  rw [hq]
  cases (Document.parse (after tail ps)).touched? ((changes 0 0 ps).map Change.new) with
  | none =>
    refine ⟨_, rfl, ?_⟩
    simp only [translateSpan]
    omega
  | some s =>
    refine ⟨_, rfl, ?_⟩
    simp only [translateSpan, Span.cover]
    omega

theorem impact?_eq_none {d d' : Document} {cs : List Change} (h : impact? d d' cs = none) :
    d.hits (cs.map Change.old) = [] ∧ d'.hits (cs.map Change.new) = [] := by
  unfold impact? at h
  cases ho : d.touched? (cs.map Change.old) with
  | some s =>
    rw [ho] at h
    cases hn : d'.touched? (cs.map Change.new) <;> simp [hn] at h
  | none =>
    rw [ho] at h
    exact ⟨Document.touched?_eq_none ho, Document.touched?_eq_none h⟩

theorem translateSpan_bounds {s : Span} (h : 0 ≤ s.start) (hs : s.start ≤ s.stop)
    (hle : s.stop ≤ (before tail ps).length) :
    0 ≤ (translateSpan (changes 0 0 ps) s).start ∧
      (translateSpan (changes 0 0 ps) s).start ≤ (translateSpan (changes 0 0 ps) s).stop ∧
      (translateSpan (changes 0 0 ps) s).stop ≤ (after tail ps).length := by
  have hstart : s.start ≤ (before tail ps).length := by omega
  have hstop : 0 ≤ s.stop := by omega
  have h₁ : 0 ≤ translatePoint (changes 0 0 ps) .before s.start ∧
    translatePoint (changes 0 0 ps) .before s.start ≤ (after tail ps).length :=
      translatePoint_bounds h hstart
  have h₂ : 0 ≤ translatePoint (changes 0 0 ps) .after s.stop ∧
    translatePoint (changes 0 0 ps) .after s.stop ≤ (after tail ps).length :=
      translatePoint_bounds hstop hle
  simp only [translateSpan]
  omega

theorem impact?_bounds {s : Span} (h : impact? (Document.parse (before tail ps))
      (Document.parse (after tail ps)) (changes 0 0 ps) = some s) :
    0 ≤ s.start ∧ s.start ≤ s.stop ∧ s.stop ≤ (after tail ps).length := by
  unfold impact? at h
  cases ho : (Document.parse (before tail ps)).touched? ((changes 0 0 ps).map Change.old) with
  | none =>
    rw [ho] at h
    exact Document.touched?_bounds h
  | some q =>
    have hq := Document.touched?_bounds ho
    have hold : 0 ≤ (translateSpan (changes 0 0 ps) q).start ∧
        (translateSpan (changes 0 0 ps) q).start ≤ (translateSpan (changes 0 0 ps) q).stop ∧
        (translateSpan (changes 0 0 ps) q).stop ≤ (after tail ps).length :=
      translateSpan_bounds hq.1 hq.2.1 hq.2.2
    rw [ho] at h
    cases hn : (Document.parse (after tail ps)).touched? ((changes 0 0 ps).map Change.new) with
    | none =>
      rw [hn, Option.some_inj] at h
      rwa [← h]
    | some q' =>
      have hnew := Document.touched?_bounds hn
      rw [hn, Option.some_inj] at h
      rw [← h]
      simp only [Span.cover]
      omega

end Patch

/-- **Only records inside the impact have to be looked at again.** After a valid script every record
of the new document lies inside the impact, or it is an old record that no change touches, moved by
one distance; without an impact all records are such, one for one and in order; and the impact is a
span of the new text. -/
theorem impact?_sound (o : Text) (rs : List Replacement) (h : Replacement.Fit o 0 rs) :
    let n := Replacement.applyAll o rs
    let changes := Replacement.changes 0 rs
    let impact := impact? (Document.parse o) (Document.parse n) changes
    (∀ r' ∈ (Document.parse n).records,
      (∃ s, impact = some s ∧ s.start ≤ r'.span.start ∧ r'.span.stop ≤ s.stop) ∨
        ∃ r ∈ (Document.parse o).records, (∀ c ∈ changes, ¬ r.span.touches c.old) ∧
          ∃ δ, r' = r.shift δ) ∧
    (impact = none → List.Forall₂ (fun r r' => ∃ δ, r' = r.shift δ) (Document.parse o).records
      (Document.parse n).records) ∧
    ∀ s, impact = some s → 0 ≤ s.start ∧ s.start ≤ s.stop ∧ s.stop ≤ n.length := by
  obtain ⟨ps, tail, ho, hn, hc⟩ := Replacement.exists_patches h
  have hnew : Replacement.applyAll o rs = Patch.after tail ps := hn
  simp only [hnew, hc 0 0 rfl]
  rw [List.drop_zero] at ho
  subst ho
  refine ⟨fun r' hr' => ?_, fun hnone => ?_, fun s hs => Patch.impact?_bounds hs⟩
  · by_cases hmiss : ∀ c ∈ Patch.changes 0 0 ps, ¬ r'.span.touches c.new
    · obtain ⟨r, hr, hf | hcov⟩ := Patch.exists_follows_or_covers hr' hmiss
      · exact .inr ⟨r, hr, hf.misses, hf.shift⟩
      · exact .inl (Patch.impact?_covers_old hr hcov)
    · push Not at hmiss
      obtain ⟨c, hmem, ht⟩ := hmiss
      exact .inl (Patch.impact?_covers_new
        (Document.mem_hits.mpr ⟨hr', c.new, List.mem_map_of_mem hmem, ht⟩))
  · obtain ⟨h₁, h₂⟩ := Patch.impact?_eq_none hnone
    exact (Patch.forall₂_follows h₁ h₂).imp fun _ _ hf => hf.shift

/-- A script that joins two records and leaves the third one alone. -/
theorem impact?_sound_joined :
    let o : Text := utf8 "a: 1\n\nb: 2\n\nc: 3"
    let rs : List Replacement := [⟨5, 6, []⟩]
    let n := Replacement.applyAll o rs
    let changes := Replacement.changes 0 rs
    Replacement.Fit o 0 rs ∧
      impact? (Document.parse o) (Document.parse n) changes = some ⟨0, 9⟩ ∧
      ∀ r' ∈ (Document.parse n).records,
        (∃ s, impact? (Document.parse o) (Document.parse n) changes = some s ∧
          s.start ≤ r'.span.start ∧ r'.span.stop ≤ s.stop) ∨
        ∃ r ∈ (Document.parse o).records, (∀ c ∈ changes, ¬ r.span.touches c.old) ∧
          ∃ δ, r' = r.shift δ :=
  ⟨by decide +kernel, by decide +kernel, (impact?_sound _ _ (by decide +kernel)).1⟩

end RobotsTxt
