import Mathlib.Data.Finset.Card
import Mathlib.Data.Finset.Filter
import Mathlib.Data.List.Perm.Basic
import RobotsTxt.Analyzer.Builtin
import RobotsTxt.Session

/-!
# The trees that a session keeps

A session keeps the trees of the most recent versions that it has been asked for, whatever it is
asked and in whatever order, and reads a tree only when it does not keep it.

* `Session.Stocked`: the kept versions are the most recent ones, and each of them has one tree;
  `Session.Stocked.tree`: a request keeps a session stocked.
* `Session.Inquiry`, `Session.ask`: everything that a session can be asked; `Session.asked`: the
  requests for trees that this causes.
* `Session.Keeps`: what is kept after some requests, and where the kept trees come from.
* **`Session.cache_exact`**: what a session keeps, reads and answers after any inquiries.
-/

namespace RobotsTxt

namespace Session

/-! ## Requests -/

section Requests

variable {s : Session} {x : Snapshot} {t : Tree}

theorem dispatcher_tree (s : Session) (x : Snapshot) : (s.tree x).2.dispatcher = s.dispatcher := by
  unfold tree
  split <;> rfl

theorem retained_tree (s : Session) (x : Snapshot) : (s.tree x).2.retained = s.retained := by
  unfold tree
  split <;> rfl

theorem listeners_tree (s : Session) (x : Snapshot) : (s.tree x).2.listeners = s.listeners := by
  unfold tree
  split <;> rfl

theorem latestEdit?_tree (s : Session) (x : Snapshot) :
    (s.tree x).2.latestEdit? = s.latestEdit? := by
  unfold tree
  split <;> rfl

/-- The session as if the last applied edit had led to a given version. -/
def withLatest (s : Session) (latest? : Option Int) : Session := { s with latestEdit? := latest? }

@[simp] theorem dispatcher_withLatest (s : Session) (latest? : Option Int) :
    (s.withLatest latest?).dispatcher = s.dispatcher := rfl

@[simp] theorem listeners_withLatest (s : Session) (latest? : Option Int) :
    (s.withLatest latest?).listeners = s.listeners := rfl

theorem tree_withLatest (s : Session) (latest? : Option Int) (x : Snapshot) :
    (s.withLatest latest?).tree x = ((s.tree x).1, (s.tree x).2.withLatest latest?) := by
  unfold tree kept? withLatest
  cases s.trees.find? fun t => t.snapshot.version == x.version <;> rfl

theorem mem_kept (h : s.kept? x.version = some t) :
    t ∈ s.trees ∧ t.snapshot.version = x.version := by
  refine ⟨List.mem_of_find?_eq_some h, ?_⟩
  simpa using List.find?_some h

theorem mem_of_mem_evict {n : Nat} {ts : List Tree} {vs : List Int} (h : t ∈ (evict n ts vs).1) :
    t ∈ ts := by
  induction vs generalizing ts with
  | nil => exact h
  | cons v vs ih =>
    rw [evict] at h
    split at h
    · exact (List.mem_filter.mp (ih h)).1
    · exact h

theorem mem_trees_tree (h : t ∈ (s.tree x).2.trees) : t ∈ s.trees ∨ t = Tree.parse x := by
  unfold tree at h
  split at h
  · exact .inl h
  · exact (List.mem_append.mp (mem_of_mem_evict h)).imp_right List.mem_singleton.mp

end Requests

/-! ## Versions in order -/

section Versions

variable {v u : Int} {vs : List Int}

theorem mem_insertVersion : u ∈ insertVersion v vs ↔ u = v ∨ u ∈ vs := by
  induction vs with
  | nil => simp [insertVersion]
  | cons w vs ih =>
    rw [insertVersion]
    split_ifs with h₁ h₂
    · simp
    · simp [h₂]
    · simp only [List.mem_cons, ih]
      exact or_left_comm

theorem pairwise_insertVersion (h : vs.Pairwise (· < ·)) :
    (insertVersion v vs).Pairwise (· < ·) := by
  induction vs with
  | nil => simp [insertVersion]
  | cons w vs ih =>
    obtain ⟨hw, hvs⟩ := List.pairwise_cons.mp h
    rw [insertVersion]
    split_ifs with h₁ h₂
    · refine List.pairwise_cons.mpr ⟨fun u hu => ?_, h⟩
      rcases List.mem_cons.mp hu with rfl | hu
      · exact h₁
      · exact Int.lt_trans h₁ (hw u hu)
    · exact h
    · refine List.pairwise_cons.mpr ⟨fun u hu => ?_, ih hvs⟩
      rcases mem_insertVersion.mp hu with rfl | hu
      · omega
      · exact hw u hu

theorem insertVersion_perm (h : v ∉ vs) : (insertVersion v vs).Perm (v :: vs) := by
  induction vs with
  | nil => exact .refl _
  | cons w vs ih =>
    obtain ⟨hne, hnot⟩ := not_or.mp (mt List.mem_cons.mpr h)
    rw [insertVersion, if_neg hne]
    split_ifs
    · exact .refl _
    · exact ((ih hnot).cons w).trans (.swap v w vs)

/-- When the oldest version is given up, whatever is not kept is older than what is. -/
theorem lt_of_oldest {w oldest : Int} {kept : List Int} (h : vs.Pairwise (· < ·))
    (hins : insertVersion v vs = oldest :: kept) (hnot : w ∉ kept)
    (hrest : w ≠ v → w ∉ vs → ∀ u ∈ vs, w < u) : ∀ u ∈ kept, w < u := by
  intro u hu
  have hasc : (oldest :: kept).Pairwise (· < ·) := hins ▸ pairwise_insertVersion h
  have holder := (List.pairwise_cons.mp hasc).1 u hu
  have hmem : ∀ u, u = oldest ∨ u ∈ kept ↔ u = v ∨ u ∈ vs := fun u => by
    rw [← List.mem_cons, ← hins, mem_insertVersion]
  by_cases hw : w = oldest
  · rwa [hw]
  · obtain ⟨hne, hgone⟩ := not_or.mp (mt (hmem w).mpr (not_or.mpr ⟨hw, hnot⟩))
    rcases (hmem u).mp (.inr hu) with rfl | hu'
    · -- the version that comes in is newer than the oldest one, which was there before
      rcases (hmem oldest).mp (.inl rfl) with rfl | ho
      · omega
      · exact Int.lt_trans (hrest hne hgone oldest ho) holder
    · exact hrest hne hgone u hu'

theorem evict_snd (n : Nat) (ts : List Tree) (vs : List Int) :
    (evict n ts vs).2 = vs.drop (vs.length - n) := by
  induction vs generalizing ts with
  | nil => rw [evict, List.drop_nil]
  | cons v vs ih =>
    rw [evict, List.length_cons]
    split_ifs with h
    · rw [ih, show vs.length + 1 - n = vs.length - n + 1 by omega, List.drop_succ_cons]
    · rw [show vs.length + 1 - n = 0 by omega, List.drop_zero]

theorem evict_perm {n : Nat} {ts : List Tree} (h : (ts.map (·.snapshot.version)).Perm vs)
    (hvs : vs.Nodup) :
    ((evict n ts vs).1.map (·.snapshot.version)).Perm (evict n ts vs).2 := by
  induction vs generalizing ts with
  | nil => exact h
  | cons v vs ih =>
    obtain ⟨hv, hvs⟩ := List.nodup_cons.mp hvs
    rw [evict]
    split_ifs
    · refine ih ?_ hvs
      have hothers : (v :: vs).filter (· != v) = vs := by
        rw [List.filter_cons_of_neg (by simp)]
        exact List.filter_eq_self.mpr fun u hu => by simpa using ne_of_mem_of_not_mem hu hv
      have hfilter := h.filter (· != v)
      rwa [hothers, List.filter_map] at hfilter
    · exact h

end Versions

/-! ## The most recent versions -/

/-- **The kept versions are the most recent ones** of those that were asked for, and each of them
has one tree. A version that is not kept has made way for as many newer ones as are retained. -/
structure Stocked (s : Session) (xs : List Snapshot) : Prop where
  ascending : s.versions.Pairwise (· < ·)
  asked : ∀ v ∈ s.versions, v ∈ xs.map Snapshot.version
  room : s.versions.length ≤ s.retained
  rest : ∀ v ∈ xs.map Snapshot.version, v ∉ s.versions →
    s.versions.length = s.retained ∧ ∀ u ∈ s.versions, v < u
  keys : (s.trees.map (·.snapshot.version)).Perm s.versions

theorem stocked_create (dispatcher : Dispatcher) (n : Int) :
    (create dispatcher n).Stocked [] where
  ascending := .nil
  asked := by simp [create]
  room := by simp [create]
  rest := by simp
  keys := .refl _

namespace Stocked

variable {s : Session} {xs : List Snapshot} {x : Snapshot} {v : Int}

theorem nodup (h : s.Stocked xs) : s.versions.Nodup :=
  h.ascending.imp Int.ne_of_lt

theorem kept?_eq_none_iff (h : s.Stocked xs) : s.kept? v = none ↔ v ∉ s.versions := by
  rw [← h.keys.mem_iff, kept?, List.find?_eq_none]
  simp

theorem kept?_eq (h : s.Stocked xs) {t : Tree} (ht : t ∈ s.trees) :
    s.kept? t.snapshot.version = some t := by
  have hnodup : (s.trees.map (·.snapshot.version)).Nodup := h.keys.nodup_iff.mpr h.nodup
  cases hk : s.kept? t.snapshot.version with
  | none => exact absurd (h.keys.mem_iff.mp (List.mem_map_of_mem ht)) (h.kept?_eq_none_iff.mp hk)
  | some u =>
    obtain ⟨hu, hv⟩ := mem_kept (x := t.snapshot) hk
    rw [List.inj_on_of_nodup_map hnodup hu ht hv]

theorem tree_of_mem (h : s.Stocked xs) (hx : x.version ∈ s.versions) :
    ∃ t ∈ s.trees, t.snapshot.version = x.version ∧ s.tree x = (t, s) := by
  obtain ⟨t, ht, hv⟩ := List.mem_map.mp (h.keys.mem_iff.mpr hx)
  refine ⟨t, ht, hv, ?_⟩
  rw [tree, ← hv, h.kept?_eq ht]

theorem tree_of_notMem (h : s.Stocked xs) (hx : x.version ∉ s.versions) :
    s.tree x = (.parse x, s.keep (.parse x)) := by
  rw [tree, h.kept?_eq_none_iff.mpr hx]

theorem mem_versions_concat : v ∈ (xs ++ [x]).map Snapshot.version ↔
    v ∈ xs.map Snapshot.version ∨ v = x.version := by
  simp

theorem again (h : s.Stocked xs) (hx : x.version ∈ s.versions) : s.Stocked (xs ++ [x]) where
  ascending := h.ascending
  asked v hv := mem_versions_concat.mpr (.inl (h.asked v hv))
  room := h.room
  rest v hv hnot := by
    rcases mem_versions_concat.mp hv with hv | rfl
    · exact h.rest v hv hnot
    · exact absurd hx hnot
  keys := h.keys

theorem versions_keep (hx : x.version ∉ s.versions) : (s.keep (.parse x)).versions =
    (insertVersion x.version s.versions).drop (s.versions.length + 1 - s.retained) := by
  rw [← List.length_cons, ← (insertVersion_perm hx).length_eq]
  exact evict_snd ..

theorem length_insertVersion (hx : x.version ∉ s.versions) :
    (insertVersion x.version s.versions).length = s.versions.length + 1 :=
  (insertVersion_perm hx).length_eq

/-- Once another version has come in, a version that is not kept is older than all that are. -/
theorem rest_keep (h : s.Stocked xs) (hx : x.version ∉ s.versions)
    (hv : v ∈ xs.map Snapshot.version ∨ v = x.version) (hnot : v ∉ (s.keep (.parse x)).versions) :
    (s.keep (.parse x)).versions.length = s.retained ∧
      ∀ u ∈ (s.keep (.parse x)).versions, v < u := by
  have hroom := h.room
  have hlen := length_insertVersion hx
  have hrest : v ≠ x.version → v ∉ s.versions → s.versions.length = s.retained ∧
      ∀ u ∈ s.versions, v < u := fun hne => h.rest v (hv.resolve_right hne)
  rw [versions_keep hx] at hnot ⊢
  by_cases hfew : s.versions.length + 1 ≤ s.retained
  · -- no version is given up now, and none can have been given up before
    rw [show s.versions.length + 1 - s.retained = 0 by omega, List.drop_zero, mem_insertVersion,
      not_or] at hnot
    have := (hrest hnot.1 hnot.2).1
    omega
  · rw [show s.versions.length + 1 - s.retained = 1 by omega] at hnot ⊢
    cases hins : insertVersion x.version s.versions with
    | nil => simp [hins] at hlen
    | cons oldest kept =>
      rw [hins] at hnot hlen
      rw [List.drop_one, List.tail_cons] at hnot ⊢
      rw [List.length_cons] at hlen
      exact ⟨by omega, lt_of_oldest h.ascending hins hnot fun hne hgone => (hrest hne hgone).2⟩

theorem keep (h : s.Stocked xs) (hx : x.version ∉ s.versions) :
    (s.keep (.parse x)).Stocked (xs ++ [x]) where
  ascending := by
    rw [versions_keep hx]
    exact (pairwise_insertVersion h.ascending).drop
  asked v hv := by
    rw [versions_keep hx] at hv
    rw [mem_versions_concat]
    exact (mem_insertVersion.mp (List.mem_of_mem_drop hv)).symm.imp_left (h.asked v)
  room := by
    have hroom := h.room
    rw [versions_keep hx, List.length_drop, length_insertVersion hx]
    show s.versions.length + 1 - (s.versions.length + 1 - s.retained) ≤ s.retained
    omega
  rest v hv := h.rest_keep hx (mem_versions_concat.mp hv)
  keys := by
    refine evict_perm ?_ ((insertVersion_perm hx).nodup_iff.mpr
      (List.nodup_cons.mpr ⟨hx, h.nodup⟩))
    rw [List.map_append]
    exact ((h.keys.append_right _).trans List.perm_append_comm).trans (insertVersion_perm hx).symm

/-- **A request keeps a session stocked.** -/
theorem tree (h : s.Stocked xs) (x : Snapshot) : (s.tree x).2.Stocked (xs ++ [x]) := by
  by_cases hx : x.version ∈ s.versions
  · obtain ⟨t, -, -, heq⟩ := h.tree_of_mem hx
    rw [heq]
    exact h.again hx
  · rw [h.tree_of_notMem hx]
    exact h.keep hx

/-- **The kept versions are the largest ones**: fewer than are retained are greater. -/
theorem mem_versions_iff (h : s.Stocked xs) : v ∈ s.versions ↔ v ∈ xs.map Snapshot.version ∧
    ((xs.map Snapshot.version).toFinset.filter (v < ·)).card < s.retained := by
  have hcard : s.versions.toFinset.card = s.versions.length :=
    List.toFinset_card_of_nodup h.nodup
  constructor
  · intro hv
    refine ⟨h.asked v hv, ?_⟩
    -- all greater versions are kept, and so is this one
    have hsub : (xs.map Snapshot.version).toFinset.filter (v < ·) ⊆
        s.versions.toFinset.erase v := by
      intro w hw
      obtain ⟨hw, hlt⟩ := Finset.mem_filter.mp hw
      refine Finset.mem_erase.mpr ⟨by omega, List.mem_toFinset.mpr ?_⟩
      by_contra hnot
      have := (h.rest w (List.mem_toFinset.mp hw) hnot).2 v hv
      omega
    have hle := Finset.card_le_card hsub
    rw [Finset.card_erase_of_mem (List.mem_toFinset.mpr hv), hcard] at hle
    have hpos := List.length_pos_of_mem hv
    have hroom := h.room
    omega
  · rintro ⟨hv, hfew⟩
    by_contra hnot
    obtain ⟨hfull, hlt⟩ := h.rest v hv hnot
    have hsub : s.versions.toFinset ⊆ (xs.map Snapshot.version).toFinset.filter (v < ·) := by
      intro u hu
      have hu := List.mem_toFinset.mp hu
      exact Finset.mem_filter.mpr ⟨List.mem_toFinset.mpr (h.asked u hu), hlt u hu⟩
    have hle := Finset.card_le_card hsub
    omega

end Stocked

theorem Stocked.withLatest {s : Session} {xs : List Snapshot} (h : s.Stocked xs)
    (latest? : Option Int) : (s.withLatest latest?).Stocked xs :=
  ⟨h.ascending, h.asked, h.room, h.rest, h.keys⟩

/-! ## Where kept trees come from -/

/-- The session after some requests. -/
def serve (s : Session) (xs : List Snapshot) : Session := xs.foldl (fun s x => (s.tree x).2) s

theorem serve_concat (s : Session) (xs : List Snapshot) (x : Snapshot) :
    s.serve (xs ++ [x]) = ((s.serve xs).tree x).2 := by
  rw [serve, List.foldl_append]
  rfl

theorem retained_serve (s : Session) (xs : List Snapshot) : (s.serve xs).retained = s.retained := by
  induction xs generalizing s with
  | nil => rfl
  | cons x xs ih => exact (ih _).trans (s.retained_tree x)

theorem listeners_serve (s : Session) (xs : List Snapshot) :
    (s.serve xs).listeners = s.listeners := by
  induction xs generalizing s with
  | nil => rfl
  | cons x xs ih => exact (ih _).trans (s.listeners_tree x)

theorem serve_withLatest (s : Session) (latest? : Option Int) (xs : List Snapshot) :
    (s.withLatest latest?).serve xs = (s.serve xs).withLatest latest? := by
  induction xs generalizing s with
  | nil => rfl
  | cons x xs ih =>
    show ((s.withLatest latest?).tree x).2.serve xs = _
    rw [tree_withLatest]
    exact ih _

/-- **The request that a kept tree comes from**: its version was not kept before, and has been kept
ever since. -/
def Source (start : Session) (xs : List Snapshot) (y : Snapshot) : Prop :=
  ∃ front back, xs = front ++ y :: back ∧ y.version ∉ (start.serve front).cachedVersions ∧
    ∀ mid, mid <+: back → y.version ∈ (start.serve (front ++ y :: mid)).cachedVersions

section Sources

variable {start : Session} {xs : List Snapshot} {x y : Snapshot} {t : Tree}

theorem Stocked.serve (h : start.Stocked []) (xs : List Snapshot) :
    (start.serve xs).Stocked xs := by
  induction xs using List.reverseRecOn with
  | nil => exact h
  | append_singleton xs x ih =>
    rw [serve_concat]
    exact ih.tree x

theorem source_new (h : x.version ∉ (start.serve xs).cachedVersions)
    (h' : x.version ∈ (start.serve (xs ++ [x])).cachedVersions) : Source start (xs ++ [x]) x := by
  refine ⟨xs, [], rfl, h, fun mid hmid => ?_⟩
  rw [List.prefix_nil.mp hmid]
  exact h'

theorem Source.concat (h : Source start xs y)
    (hy : y.version ∈ (start.serve (xs ++ [x])).cachedVersions) : Source start (xs ++ [x]) y := by
  obtain ⟨front, back, rfl, hnew, hsince⟩ := h
  refine ⟨front, back ++ [x], by simp, hnew, fun mid hmid => ?_⟩
  rcases List.prefix_concat_iff.mp hmid with rfl | hmid
  · simpa using hy
  · exact hsince mid hmid

theorem exists_source (h : start.Stocked []) (ht : t ∈ (start.serve xs).trees) :
    ∃ y, Source start xs y ∧ t = Tree.parse y := by
  induction xs using List.reverseRecOn generalizing t with
  | nil => exact absurd (h.asked _ (h.keys.mem_iff.mp (List.mem_map_of_mem ht))) (by simp)
  | append_singleton xs x ih =>
    have hstocked := h.serve xs
    have hnow : t.snapshot.version ∈ (start.serve (xs ++ [x])).versions :=
      (h.serve _).keys.mem_iff.mp (List.mem_map_of_mem ht)
    rw [serve_concat] at ht
    by_cases hx : x.version ∈ (start.serve xs).versions
    · obtain ⟨t', -, -, heq⟩ := hstocked.tree_of_mem hx
      rw [heq] at ht
      obtain ⟨y, hy, rfl⟩ := ih ht
      exact ⟨y, hy.concat hnow, rfl⟩
    · rcases mem_trees_tree ht with ht | rfl
      · obtain ⟨y, hy, rfl⟩ := ih ht
        exact ⟨y, hy.concat hnow, rfl⟩
      · exact ⟨x, source_new hx hnow, rfl⟩

end Sources

/-! ## Inquiries -/

/-- Something that a session can be asked. -/
inductive Inquiry where
  | tree (x : Snapshot)
  | classify (x : Snapshot) (range : Span)
  | analyze (x : Snapshot) (range : Span)
  | highlightsAt (x : Snapshot) (caret : Int)
  | applyEdit (e : Edit)

/-- What a session answers. -/
inductive Answer where
  | tree (t : Tree)
  | classifications (cs : List Classification)
  | diagnostics (ds : List Diagnostic)
  | highlights (spans : List Span)
  | tagsChanged (event? : Option TagsChanged) (heard : List Nat)

/-- The answer to an inquiry, and the session after it. -/
def ask (s : Session) : Inquiry → Answer × Session
  | .tree x => (s.tree x).map .tree id
  | .classify x range => (s.classify x range).map .classifications id
  | .analyze x range => (s.analyze x range).map .diagnostics id
  | .highlightsAt x caret => (s.highlightsAt x caret).map .highlights id
  | .applyEdit e => (s.applyEdit e).map (fun heard => .tagsChanged heard.1 heard.2) id

/-- The session after some inquiries. -/
def run (s : Session) (qs : List Inquiry) : Session := qs.foldl (fun s q => (s.ask q).2) s

namespace Inquiry

/-- Whether an edit comes too late, when the last applied edit has led to a given version. -/
def late (latest? : Option Int) (e : Edit) : Bool := latest?.any (e.after.version ≤ ·)

/-- The requests for trees that an inquiry causes. -/
def asks (latest? : Option Int) : Inquiry → List Snapshot
  | .tree x | .classify x _ | .analyze x _ | .highlightsAt x _ => [x]
  | .applyEdit e => if late latest? e then [] else [e.before, e.after]

/-- The version that the last applied edit has led to, after an inquiry. -/
def latest (latest? : Option Int) : Inquiry → Option Int
  | .tree _ | .classify _ _ | .analyze _ _ | .highlightsAt _ _ => latest?
  | .applyEdit e => if late latest? e then latest? else some e.after.version

/-- The answer to an inquiry when every tree is read anew. -/
def fresh (s : Session) : Inquiry → Answer
  | .tree x => .tree (.parse x)
  | .classify x range => .classifications ((Tree.parse x).root.classify range)
  | .analyze x range => .diagnostics (s.dispatcher.analyze (Tree.parse x).root range)
  | .highlightsAt x caret => .highlights ((Tree.parse x).root.highlightsAt caret)
  | .applyEdit e =>
    if late s.latestEdit? e then .tagsChanged none []
    else match impact? (Tree.parse e.before).root (Tree.parse e.after).root e.changes with
      | some span => .tagsChanged (some ⟨e.after.version, span⟩) s.listeners
      | none => .tagsChanged none []

end Inquiry

/-- The requests for trees that some inquiries cause, one after another. -/
def asked (latest? : Option Int) : List Inquiry → List Snapshot
  | [] => []
  | q :: qs => q.asks latest? ++ asked (q.latest latest?) qs

theorem applyEdit_eq (s : Session) (e : Edit) : s.applyEdit e =
    if s.isStale e then ((none, []), s)
    else
      (match impact? (s.tree e.before).1.root ((s.tree e.before).2.tree e.after).1.root
          e.changes with
        | some span => (some ⟨e.after.version, span⟩, s.listeners)
        | none => (none, []),
      (s.serve [e.before, e.after]).withLatest (some e.after.version)) := by
  have htrees : (s.withLatest (some e.after.version)).editTrees e = ((s.tree e.before).1,
      ((s.tree e.before).2.tree e.after).1,
      (s.serve [e.before, e.after]).withLatest (some e.after.version)) := by
    simp only [editTrees, tree_withLatest]
    rfl
  unfold applyEdit
  split_ifs
  · rfl
  · rw [← withLatest, htrees]
    cases h : impact? (s.tree e.before).1.root ((s.tree e.before).2.tree e.after).1.root
      e.changes with
    | none => simp only [h]
    | some span => simp only [h, listeners_withLatest, listeners_serve]

theorem ask_snd (s : Session) (q : Inquiry) : (s.ask q).2 =
    (s.serve (q.asks s.latestEdit?)).withLatest (q.latest s.latestEdit?) := by
  cases q with
  | tree x | classify x _ | analyze x _ | highlightsAt x _ =>
    simp only [Inquiry.latest, ← s.latestEdit?_tree x]
    rfl
  | applyEdit e =>
    show (s.applyEdit e).2 = _
    rw [applyEdit_eq, show s.isStale e = Inquiry.late s.latestEdit? e from rfl, Inquiry.asks,
      Inquiry.latest]
    split_ifs <;> rfl

theorem exists_run_eq (s : Session) (qs : List Inquiry) :
    ∃ latest?, s.run qs = (s.serve (asked s.latestEdit? qs)).withLatest latest? := by
  induction qs generalizing s with
  | nil => exact ⟨s.latestEdit?, rfl⟩
  | cons q qs ih =>
    obtain ⟨latest?, h⟩ := ih (s.ask q).2
    refine ⟨latest?, ?_⟩
    show (s.ask q).2.run qs = _
    rw [h, ask_snd, serve_withLatest, asked, serve, serve, serve, List.foldl_append]
    rfl

/-! ## What is read and what is answered -/

/-- How many of some requests, one after another, are for a version that is not kept. -/
def misses (s : Session) : List Snapshot → Nat
  | [] => 0
  | x :: xs => (if x.version ∈ s.cachedVersions then 0 else 1) + misses (s.tree x).2 xs

section Reads

variable {s start : Session} {xs : List Snapshot}

theorem Stocked.reads_tree (h : s.Stocked xs) (x : Snapshot) :
    (s.tree x).2.reads = s.reads + if x.version ∈ s.cachedVersions then 0 else 1 := by
  by_cases hx : x.version ∈ s.cachedVersions
  · obtain ⟨t, -, -, heq⟩ := h.tree_of_mem hx
    rw [heq, if_pos hx]
    rfl
  · rw [h.tree_of_notMem hx, if_neg hx]
    rfl

/-- **A tree is read for each request that finds none.** -/
theorem Stocked.reads_serve (h : s.Stocked xs) (ys : List Snapshot) :
    (s.serve ys).reads = s.reads + s.misses ys := by
  induction ys generalizing s xs with
  | nil => rfl
  | cons y ys ih =>
    show ((s.tree y).2.serve ys).reads = _
    rw [ih (h.tree y), h.reads_tree y, misses, Nat.add_assoc]

end Reads

/-- Every version is asked for with one text. -/
def Consistent (xs : List Snapshot) : Prop :=
  ∀ x ∈ xs, ∀ y ∈ xs, x.version = y.version → x.text = y.text

theorem Consistent.mono {xs ys : List Snapshot} (h : Consistent ys) (hsub : xs ⊆ ys) :
    Consistent xs := fun x hx y hy => h x (hsub hx) y (hsub hy)

theorem Source.mem {start : Session} {xs : List Snapshot} {y : Snapshot} (h : Source start xs y) :
    y ∈ xs := by
  obtain ⟨front, back, rfl, -⟩ := h
  simp

section Fresh

variable {start : Session} {xs : List Snapshot} (h : start.Stocked [])

include h

theorem Stocked.exists_source_tree {x : Snapshot}
    (hx : x.version ∈ (start.serve xs).cachedVersions) : ∃ y, y.version = x.version ∧
      Source start xs y ∧ ((start.serve xs).tree x).1 = Tree.parse y := by
  obtain ⟨t, ht, hv, heq⟩ := (h.serve xs).tree_of_mem hx
  obtain ⟨y, hy, rfl⟩ := exists_source h ht
  exact ⟨y, hv, hy, by rw [heq]⟩

/-- When every version is asked for with one text, trees are those of their texts. -/
theorem Stocked.tree_eq {x : Snapshot} (hc : Consistent (xs ++ [x])) :
    ((start.serve xs).tree x).1 = Tree.parse x := by
  by_cases hx : x.version ∈ (start.serve xs).cachedVersions
  · obtain ⟨y, hv, hy, heq⟩ := h.exists_source_tree hx
    have htext : y.text = x.text :=
      hc y (List.mem_append_left _ hy.mem) x (by simp) hv
    rw [heq, show y = x from congrArg₂ Snapshot.mk hv htext]
  · rw [(h.serve xs).tree_of_notMem hx]

theorem Stocked.ask_fst {latest? : Option Int} (q : Inquiry)
    (hc : Consistent (xs ++ q.asks latest?)) :
    (((start.serve xs).withLatest latest?).ask q).1 =
      q.fresh ((start.serve xs).withLatest latest?) := by
  cases q with
  | tree x | classify x _ | analyze x _ | highlightsAt x _ =>
    have htree := h.tree_eq hc
    simp only [ask, Inquiry.fresh, Prod.map_fst, classify, analyze, highlightsAt, tree_withLatest,
      htree, dispatcher_withLatest, dispatcher_tree]
  | applyEdit e =>
    have hlate : ((start.serve xs).withLatest latest?).isStale e = Inquiry.late latest? e := rfl
    have hlatest : ((start.serve xs).withLatest latest?).latestEdit? = latest? := rfl
    simp only [ask, Inquiry.fresh, Prod.map_fst, applyEdit_eq, hlate, hlatest]
    rw [Inquiry.asks] at hc
    split_ifs at hc ⊢
    · rfl
    · have hbefore : ((start.serve xs).tree e.before).1 = Tree.parse e.before :=
        h.tree_eq (hc.mono (by simp))
      have hafter : (((start.serve xs).tree e.before).2.tree e.after).1 = Tree.parse e.after := by
        rw [← serve_concat]
        exact h.tree_eq (by simpa using hc)
      simp only [tree_withLatest, hbefore, hafter]
      cases impact? (Tree.parse e.before).root (Tree.parse e.after).root e.changes <;> rfl

end Fresh

/-! ## The cache -/

/-- **What a session keeps after some requests**, of which it retains the trees of the `n` most
recent versions. -/
structure Keeps (start : Session) (n : Nat) (xs : List Snapshot) (s : Session) : Prop where
  ascending : s.cachedVersions.Pairwise (· < ·)
  /-- A version is kept if it was asked for, and fewer than `n` greater ones were. -/
  recent : ∀ v, v ∈ s.cachedVersions ↔ v ∈ xs.map Snapshot.version ∧
    ((xs.map Snapshot.version).toFinset.filter (v < ·)).card < n
  /-- There is one tree for every kept version, and no other tree. -/
  keys : (s.trees.map (·.snapshot.version)).Perm s.cachedVersions
  /-- A kept version gets the tree of the request which it comes from. -/
  source : ∀ x, x.version ∈ s.cachedVersions → ∃ y, y.version = x.version ∧ Source start xs y ∧
    (s.tree x).1 = Tree.parse y

theorem Stocked.keeps {start : Session} (h : start.Stocked []) (xs : List Snapshot)
    (latest? : Option Int) :
    Keeps start start.retained xs ((start.serve xs).withLatest latest?) where
  ascending := (h.serve xs).ascending
  recent _ := by
    rw [← retained_serve start xs]
    exact (h.serve xs).mem_versions_iff
  keys := (h.serve xs).keys
  source x hx := by
    rw [tree_withLatest]
    exact h.exists_source_tree hx

/-- **A session keeps the trees of the most recent versions, and reads each of them once.** After
any inquiries, of any versions in any order, it keeps what it should; each inquiry reads a tree for
each of its requests that finds none; and when every version is asked for with one text, every
answer is the one that a fresh reading gives. -/
theorem cache_exact (dispatcher : Dispatcher) (n : Int) (qs : List Inquiry) :
    let start := create dispatcher n
    let s := start.run qs
    Keeps start (max n 1).toNat (asked none qs) s ∧
    (∀ q, (s.ask q).2.reads = s.reads + s.misses (q.asks s.latestEdit?)) ∧
    ∀ q, Consistent (asked none qs ++ q.asks s.latestEdit?) → (s.ask q).1 = q.fresh s := by
  intro start s
  have hstart : start.Stocked [] := stocked_create dispatcher n
  have hretained : start.retained = (max n 1).toNat := by
    show max n.toNat 1 = (max n 1).toNat
    omega
  obtain ⟨latest?, hs⟩ : ∃ latest?, s = (start.serve (asked none qs)).withLatest latest? :=
    start.exists_run_eq qs
  rw [hs, ← hretained]
  refine ⟨hstart.keeps _ latest?, fun q => ?_, fun q hc => hstart.ask_fst q hc⟩
  rw [ask_snd]
  exact ((hstart.serve (asked none qs)).withLatest latest?).reads_serve _

/-- Versions out of order, one of them given up and asked for again, and edits of which the second
comes too late. -/
theorem cache_exact_unordered :
    let texts : Int → Snapshot := fun v => ⟨v, utf8 "a: 1"⟩
    let qs : List Inquiry := [.tree (texts 5), .analyze (texts 7) ⟨0, 4⟩, .tree (texts 6),
      .applyEdit ⟨texts 5, texts 8, []⟩, .applyEdit ⟨texts 9, texts 8, []⟩]
    let s := (create ⟨Analyzer.builtin⟩ 2).run qs
    asked none qs = [texts 5, texts 7, texts 6, texts 5, texts 8] ∧ s.cachedVersions = [7, 8] ∧
      s.reads = 5 ∧ Keeps (create ⟨Analyzer.builtin⟩ 2) 2 (asked none qs) s ∧
      Consistent (asked none qs ++ [texts 6]) ∧
      (s.ask (.tree (texts 6))).1 = .tree (.parse (texts 6)) := by
  intro texts qs s
  have hc : Consistent (asked none qs ++ [texts 6]) := by
    intro x hx y hy _
    have htext : ∀ z ∈ asked none qs ++ [texts 6], z.text = utf8 "a: 1" := by decide +kernel
    rw [htext x hx, htext y hy]
  obtain ⟨hkeeps, -, hfresh⟩ := cache_exact ⟨Analyzer.builtin⟩ 2 qs
  exact ⟨by decide +kernel, by decide +kernel, by decide +kernel, hkeeps, hc, hfresh _ hc⟩

end Session

end RobotsTxt
