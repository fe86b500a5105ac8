import Mathlib.Data.List.Pairwise
import Mathlib.Logic.Function.Basic
import RobotsTxt.Proofs.Session.Cache
import RobotsTxt.Server.Handle

/-!
# Documents and their trees

A session finds the tree of a version by the number of the version alone. While a document is open
its versions only grow, so that no number ever stands for two texts. And no two publications hold
the lock at a time, so that what they send is in the order in which it has been checked.

* `Snapshot.UpTo`: a version that is older than another one, or the same.
* `Session.Serves`: every kept tree is that of a version up to the current one.
* `Server.Coherent`: what holds of every state that a server can reach.
* **`Session.tree_current`**: the tree of the current version is the one that is read from its text.
* `Server.Coherent.update`, `Server.Coherent.release`, …: what keeps a server coherent.
-/

namespace RobotsTxt

/-! ## Trees of a session -/

/-- A version that is older than another one, or the same. -/
def Snapshot.UpTo (x now : Snapshot) : Prop := x.version < now.version ∨ x = now

theorem Snapshot.UpTo.refl (x : Snapshot) : x.UpTo x := .inr rfl

theorem Snapshot.UpTo.trans {x y z : Snapshot} (h : x.UpTo y) (h' : y.UpTo z) : x.UpTo z := by
  rcases h with h | rfl
  · rcases h' with h' | rfl
    · exact .inl (Int.lt_trans h h')
    · exact .inl h
  · exact h'

namespace Session

variable {s : Session} {x now : Snapshot} {t : Tree}

/-- Every kept tree is that of a version up to the current one. -/
def Serves (s : Session) (now : Snapshot) : Prop :=
  ∀ t ∈ s.trees, t = Tree.parse t.snapshot ∧ t.snapshot.UpTo now

theorem Serves.mono {later : Snapshot} (h : s.Serves now) (hl : now.UpTo later) : s.Serves later :=
  fun t ht => ⟨(h t ht).1, (h t ht).2.trans hl⟩

theorem Serves.tree (h : s.Serves now) (hx : x.UpTo now) : (s.tree x).2.Serves now := by
  intro t ht
  rcases mem_trees_tree ht with ht | rfl
  · exact h t ht
  · exact ⟨rfl, hx⟩

/-- **The tree of the current version is the one that is read from its text.** -/
theorem tree_current (h : s.Serves now) : (s.tree now).1 = Tree.parse now := by
  unfold Session.tree
  split
  · next t ht =>
    obtain ⟨hmem, hv⟩ := mem_kept ht
    obtain ⟨hparse, hup⟩ := h t hmem
    have hsnap : t.snapshot = now := hup.resolve_left fun hlt => by omega
    rw [hparse, hsnap]
  · rfl

theorem applyEdit_session (s : Session) (e : Edit) : (s.applyEdit e).2 = s ∨
    (s.applyEdit e).2 =
      (({ s with latestEdit? := some e.after.version }.tree e.before).2.tree e.after).2 := by
  rw [applyEdit_eq]
  split
  · exact .inl rfl
  · exact .inr (s.serve_withLatest _ [e.before, e.after]).symm

theorem dispatcher_applyEdit (s : Session) (e : Edit) :
    (s.applyEdit e).2.dispatcher = s.dispatcher := by
  rcases s.applyEdit_session e with h | h
  · rw [h]
  · rw [h, dispatcher_tree, dispatcher_tree]

theorem Serves.applyEdit {e : Edit} (h : s.Serves now) (hb : e.before.UpTo now)
    (ha : e.after.UpTo now) : (s.applyEdit e).2.Serves now := by
  rcases s.applyEdit_session e with hs | hs
  · rwa [hs]
  · rw [hs]
    have h' : { s with latestEdit? := some e.after.version }.Serves now := h
    exact (h'.tree hb).tree ha

end Session

/-! ## Coherent servers -/

namespace OpenDocument

/-- A document whose session serves its current version and runs given analyzers. -/
structure Coherent (dispatcher : Dispatcher) (d : OpenDocument) : Prop where
  dispatcher : d.session.dispatcher = dispatcher
  serves : d.session.Serves d.snapshot

/-- Two documents that can be told apart. -/
def Apart (d e : OpenDocument) : Prop := d.uri ≠ e.uri ∧ d.serial ≠ e.serial

instance : Std.Symm Apart := ⟨fun _ _ h => ⟨h.1.symm, h.2.symm⟩⟩

/-- A later state of a document. -/
structure Becomes (d e : OpenDocument) : Prop where
  serial : e.serial = d.serial
  uri : e.uri = d.uri
  upTo : d.snapshot.UpTo e.snapshot

variable {d : OpenDocument} {dispatcher : Dispatcher}

theorem coherent_create (serial : Nat) (uri : Text) (version : Int) (text : Text)
    (dispatcher : Dispatcher) : (create serial uri version text dispatcher).Coherent dispatcher :=
  ⟨rfl, by simp [Session.Serves, create, Session.listen]⟩

theorem coherent_reattach (d : OpenDocument) (dispatcher : Dispatcher) :
    (d.reattach dispatcher).Coherent dispatcher :=
  ⟨rfl, by simp [Session.Serves, reattach, Session.listen]⟩

theorem Coherent.look (h : d.Coherent dispatcher) {x : Snapshot} (hx : x.UpTo d.snapshot) :
    { d with session := (d.session.tree x).2 }.Coherent dispatcher :=
  ⟨(d.session.dispatcher_tree x).trans h.dispatcher, h.serves.tree hx⟩

theorem Coherent.change (h : d.Coherent dispatcher) {version : Int} (hv : d.version < version)
    (text : Text) (change : Change) :
    { d with
      version, text
      session := (d.session.applyEdit ⟨d.snapshot, ⟨version, text⟩, [change]⟩).2 }.Coherent
      dispatcher := by
  have hup : d.snapshot.UpTo ⟨version, text⟩ := .inl hv
  exact ⟨(d.session.dispatcher_applyEdit _).trans h.dispatcher,
    (h.serves.mono hup).applyEdit hup (.refl _)⟩

end OpenDocument

/-- A publication that has not looked at its document, or has seen a version up to the current one.
-/
def Publication.Trails (p : Publication) (d : OpenDocument) : Prop :=
  ∀ x session sessions, p.stage = .captured x session sessions → x.UpTo d.snapshot

theorem Publication.serial_capture (p : Publication) (d : OpenDocument) :
    (p.capture d).serial = p.serial := by
  unfold Publication.capture
  split <;> rfl

/-- The same publication, whose session may have lost some listeners. -/
structure Publication.Quiets (p q : Publication) : Prop where
  serial : q.serial = p.serial
  uri : q.uri = p.uri
  stage : q.stage = p.stage ∨ ∃ x session sessions listeners,
    p.stage = .captured x session sessions ∧
      q.stage = .captured x { session with listeners } sessions

theorem Publication.Quiets.refl (p : Publication) : p.Quiets p := ⟨rfl, rfl, .inl rfl⟩

theorem Publication.Quiets.trans {p q r : Publication} (h : p.Quiets q) (h' : q.Quiets r) :
    p.Quiets r := by
  refine ⟨h'.serial.trans h.serial, h'.uri.trans h.uri, ?_⟩
  rcases h.stage with hq | ⟨x, session, sessions, listeners, hp, hq⟩
  · rw [← hq]
    exact h'.stage
  · rcases h'.stage with hr | ⟨x', session', sessions', listeners', hq', hr⟩
    · exact .inr ⟨x, session, sessions, listeners, hp, hr.trans hq⟩
    · obtain ⟨rfl, rfl, rfl⟩ := Stage.captured.inj (hq.symm.trans hq')
      exact .inr ⟨x, session, sessions, listeners', hp, hr⟩

theorem Publication.quiets_detach (p : Publication) (d : OpenDocument) : p.Quiets (p.detach d) := by
  unfold Publication.detach
  cases hstage : p.stage with
  | waiting | computed | checked | done => exact .refl p
  | captured x session sessions =>
    simp only
    split
    · exact ⟨rfl, rfl, .inr ⟨x, session, sessions, _, hstage, rfl⟩⟩
    · exact .refl p

theorem Publication.quiets_foldl (p : Publication) (ds : List OpenDocument) :
    p.Quiets (ds.foldl Publication.detach p) := by
  induction ds generalizing p with
  | nil => exact .refl p
  | cons d ds ih => exact (p.quiets_detach d).trans (ih _)

theorem Publication.Quiets.trails {p q : Publication} {d : OpenDocument} (h : p.Quiets q)
    (ht : p.Trails d) : q.Trails d := by
  intro x session sessions hq
  rcases h.stage with hp | ⟨x', session', sessions', listeners, hp, hq'⟩
  · exact ht x session sessions (hp ▸ hq)
  · obtain ⟨rfl, -, -⟩ := Stage.captured.inj (hq'.symm.trans hq)
    exact ht x' session' sessions' hp

theorem Publication.Quiets.isChecked_eq {p q : Publication} (h : p.Quiets q) :
    q.isChecked = p.isChecked := by
  unfold isChecked
  rcases h.stage with hp | ⟨x, session, sessions, listeners, hp, hq⟩
  · rw [hp]
  · rw [hp, hq]

theorem Publication.isChecked_capture (p : Publication) (d : OpenDocument) :
    (p.capture d).isChecked = p.isChecked := by
  unfold capture
  cases hstage : p.stage with
  | waiting => simp [isChecked, hstage]
  | captured | computed | checked | done => rfl

/-- **What holds of every state that a server can reach.** -/
structure Server.Coherent (s : Server) : Prop where
  apart : s.documents.Pairwise OpenDocument.Apart
  opened : ∀ d ∈ s.documents, d.serial < s.nextSerial
  started : ∀ p ∈ s.publications, p.serial < s.nextSerial
  documents : ∀ d ∈ s.documents, d.Coherent s.dispatcher
  trails : ∀ p ∈ s.publications, ∀ d ∈ s.documents, p.serial = d.serial → p.Trails d
  /-- At most one publication holds the lock. -/
  exclusive : s.publications.countP Publication.isChecked ≤ 1

namespace Server

variable {s : Server} {d e : OpenDocument} {p : Publication} {uri : Text}

/-- Coherence is about documents, publications, analyzers and serial numbers only. -/
theorem Coherent.congr {s' : Server} (h : s.Coherent) (hd : s'.documents = s.documents)
    (hp : s'.publications = s.publications) (ha : s'.dispatcher = s.dispatcher)
    (hn : s'.nextSerial = s.nextSerial) : s'.Coherent := by
  refine ⟨?_, ?_, ?_, ?_, ?_, ?_⟩
  · rw [hd]
    exact h.apart
  · rw [hd, hn]
    exact h.opened
  · rw [hp, hn]
    exact h.started
  · rw [hd, ha]
    exact h.documents
  · rw [hp, hd]
    exact h.trails
  · rw [hp]
    exact h.exclusive

theorem mem_of_find? (h : s.find? uri = some d) : d ∈ s.documents ∧ d.uri = uri :=
  ⟨List.mem_of_find?_eq_some h, by simpa using List.find?_some h⟩

theorem mem_of_findSerial? {serial : Nat} (h : s.findSerial? serial = some d) :
    d ∈ s.documents ∧ d.serial = serial :=
  ⟨List.mem_of_find?_eq_some h, by simpa using List.find?_some h⟩

theorem Coherent.eq_of_serial (h : s.Coherent) (hd : d ∈ s.documents) (he : e ∈ s.documents)
    (hs : d.serial = e.serial) : d = e := by
  by_contra hne
  exact (h.apart.forall hd he hne).2 hs

theorem Coherent.eq_of_uri (h : s.Coherent) (hd : d ∈ s.documents) (he : e ∈ s.documents)
    (hu : d.uri = e.uri) : d = e := by
  by_contra hne
  exact (h.apart.forall hd he hne).1 hu

theorem Coherent.schedule (h : s.Coherent) (hd : d.serial < s.nextSerial) :
    (s.schedule d).Coherent where
  apart := h.apart
  opened := h.opened
  started := fun p hp => by
    rcases List.mem_append.mp hp with hp | hp
    · exact h.started p hp
    · rw [List.mem_singleton.mp hp]
      exact hd
  documents := h.documents
  trails := fun p hp d' hd' hs => by
    rcases List.mem_append.mp hp with hp | hp
    · exact h.trails p hp d' hd' hs
    · rw [List.mem_singleton.mp hp]
      intro x session sessions hstage
      exact absurd hstage (by simp)
  exclusive := by
    simpa [Server.schedule, Publication.isChecked] using h.exclusive

theorem mem_update {e : OpenDocument} (h : e ∈ (s.update d).documents) :
    (e = d) ∨ (e ∈ s.documents ∧ e.serial ≠ d.serial) := by
  obtain ⟨e', he', rfl⟩ := List.mem_map.mp h
  split
  · exact .inl rfl
  · next hne => exact .inr ⟨he', by simpa using hne⟩

theorem Coherent.update {d' : OpenDocument} (h : s.Coherent) (hd : d ∈ s.documents)
    (hb : d.Becomes d') (hc : d'.Coherent s.dispatcher) : (s.update d').Coherent where
  apart := by
    have hkeep : ∀ e ∈ s.documents, (if e.serial == d'.serial then d' else e).uri = e.uri ∧
        (if e.serial == d'.serial then d' else e).serial = e.serial := by
      intro e he
      split
      · next hs =>
        have hs' : e.serial = d.serial := by rw [← hb.serial]; simpa using hs
        rw [h.eq_of_serial he hd hs']
        exact ⟨hb.uri, hb.serial⟩
      · exact ⟨rfl, rfl⟩
    refine List.pairwise_map.mpr (h.apart.imp_of_mem fun {a b} ha hb' hab => ?_)
    simp only [OpenDocument.Apart, hkeep a ha, hkeep b hb']
    exact hab
  opened := fun e he => by
    rcases mem_update he with rfl | ⟨he, -⟩
    · rw [hb.serial]
      exact h.opened d hd
    · exact h.opened e he
  started := h.started
  documents := fun e he => by
    rcases mem_update he with rfl | ⟨he, -⟩
    · exact hc
    · exact h.documents e he
  trails := fun p hp e he hs => by
    rcases mem_update he with rfl | ⟨he, -⟩
    · intro x session sessions hstage
      exact (h.trails p hp d hd (hs.trans hb.serial) x session sessions hstage).trans hb.upTo
    · exact h.trails p hp e he hs
  exclusive := h.exclusive

theorem Coherent.release (h : s.Coherent) (d : OpenDocument) : (s.release d).Coherent where
  apart := h.apart.filter _
  opened := fun e he => h.opened e (List.mem_filter.mp he).1
  started := fun p hp => by
    obtain ⟨q, hq, rfl⟩ := List.mem_map.mp hp
    split
    · rw [((q.capture d).quiets_detach d).serial, q.serial_capture]
      exact h.started q hq
    · exact h.started q hq
  documents := fun e he => h.documents e (List.mem_filter.mp he).1
  trails := fun p hp e he hs => by
    obtain ⟨q, hq, rfl⟩ := List.mem_map.mp hp
    have hne : e.serial ≠ d.serial := by simpa using (List.mem_filter.mp he).2
    split at hs
    · next hq' =>
      rw [((q.capture d).quiets_detach d).serial, q.serial_capture] at hs
      exact absurd (hs.symm.trans (by simpa using hq')) hne
    · next hq' =>
      rw [if_neg hq']
      exact h.trails q hq e (List.mem_filter.mp he).1 hs
  exclusive := by
    simp only [Server.release, List.countP_map]
    refine (List.countP_congr fun p _ => ?_).trans_le h.exclusive
    rw [Function.comp_apply]
    split
    · rw [((p.capture d).quiets_detach d).isChecked_eq, p.isChecked_capture]
    · rfl

theorem Coherent.append (h : s.Coherent) (hd : d.serial = s.nextSerial)
    (hu : ∀ e ∈ s.documents, e.uri ≠ d.uri) (hc : d.Coherent s.dispatcher) :
    { s with documents := s.documents ++ [d], nextSerial := s.nextSerial + 1 }.Coherent where
  apart := by
    refine List.pairwise_append.mpr ⟨h.apart, List.pairwise_singleton _ _, fun e he f hf => ?_⟩
    rw [List.mem_singleton.mp hf]
    have := h.opened e he
    exact ⟨hu e he, by omega⟩
  opened := fun e he => by
    rcases List.mem_append.mp he with he | he
    · exact Nat.lt_succ_of_lt (h.opened e he)
    · rw [List.mem_singleton.mp he, hd]
      exact Nat.lt_succ_self _
  started := fun p hp => Nat.lt_succ_of_lt (h.started p hp)
  documents := fun e he => by
    rcases List.mem_append.mp he with he | he
    · exact h.documents e he
    · rw [List.mem_singleton.mp he]
      exact hc
  trails := fun p hp e he hs => by
    rcases List.mem_append.mp he with he | he
    · exact h.trails p hp e he hs
    · rw [List.mem_singleton.mp he, hd] at hs
      have := h.started p hp
      omega
  exclusive := h.exclusive

theorem Coherent.setDispatcher (h : s.Coherent) (dispatcher : Dispatcher) :
    (s.setDispatcher dispatcher).Coherent where
  apart := List.pairwise_map.mpr (h.apart.imp fun ha => ha)
  opened := fun e he => by
    obtain ⟨d, hd, rfl⟩ := List.mem_map.mp he
    exact h.opened d hd
  started := fun p hp => by
    obtain ⟨q, hq, rfl⟩ := List.mem_map.mp hp
    rw [(q.quiets_foldl s.documents).serial]
    exact h.started q hq
  documents := fun e he => by
    obtain ⟨d, hd, rfl⟩ := List.mem_map.mp he
    exact d.coherent_reattach dispatcher
  trails := fun p hp e he hs => by
    obtain ⟨q, hq, rfl⟩ := List.mem_map.mp hp
    obtain ⟨d, hd, rfl⟩ := List.mem_map.mp he
    rw [(q.quiets_foldl s.documents).serial] at hs
    exact (q.quiets_foldl s.documents).trails (h.trails q hq d hd hs)
  exclusive := by
    simp only [Server.setDispatcher, List.countP_map]
    refine (List.countP_congr fun p _ => ?_).trans_le h.exclusive
    rw [Function.comp_apply, (p.quiets_foldl s.documents).isChecked_eq]

theorem uri_ne_of_find? (h : s.find? uri = none) : ∀ e ∈ s.documents, e.uri ≠ uri :=
  fun e he => by simpa using List.find?_eq_none.mp h e he

theorem Coherent.uri_ne_of_release (h : s.Coherent) (hf : s.find? uri = some d) :
    ∀ e ∈ (s.release d).documents, e.uri ≠ uri := by
  intro e he heq
  obtain ⟨hd, huri⟩ := mem_of_find? hf
  obtain ⟨hmem, hne⟩ := List.mem_filter.mp he
  rw [h.eq_of_uri hmem hd (heq.trans huri.symm)] at hne
  exact absurd hne (by simp)

/-! ## Publications one by one -/

/-- The state with the publication at a place replaced. -/
def put (s : Server) (place : Nat) (p : Publication) : Server :=
  { s with publications := s.publications.set place p }

/-- The state without the publication at a place. -/
def discard (s : Server) (place : Nat) : Server :=
  { s with publications := s.publications.eraseIdx place }

theorem Coherent.discard (h : s.Coherent) (place : Nat) : (s.discard place).Coherent where
  apart := h.apart
  opened := h.opened
  started := fun p hp => h.started p (List.mem_of_mem_eraseIdx hp)
  documents := h.documents
  trails := fun p hp => h.trails p (List.mem_of_mem_eraseIdx hp)
  exclusive := Nat.le_trans ((List.eraseIdx_sublist _ _).countP_le) h.exclusive

/-- A publication goes on to another stage. It may take the lock when nobody holds it. -/
theorem Coherent.put (h : s.Coherent) {place : Nat} {r : Publication}
    (hplace : s.publications[place]? = some p) (hserial : r.serial = p.serial)
    (htrails : ∀ d ∈ s.documents, r.serial = d.serial → r.Trails d)
    (hlock : r.isChecked = true → s.isPublishing = false) : (s.put place r).Coherent where
  apart := h.apart
  opened := h.opened
  started := fun q hq => by
    rcases List.mem_or_eq_of_mem_set hq with hq | rfl
    · exact h.started q hq
    · rw [hserial]
      exact h.started p (List.mem_of_getElem? hplace)
  documents := h.documents
  trails := fun q hq => by
    rcases List.mem_or_eq_of_mem_set hq with hq | rfl
    · exact h.trails q hq
    · exact htrails
  exclusive := by
    obtain ⟨hlt, rfl⟩ := List.getElem?_eq_some_iff.mp hplace
    have hle := h.exclusive
    rw [Server.put, List.countP_set hlt]
    cases hr : r.isChecked with
    | false =>
      simp only [Bool.false_eq_true, if_false]
      omega
    | true =>
      have hnone : s.publications.countP Publication.isChecked = 0 := by
        refine List.countP_eq_zero.mpr fun q hq => ?_
        simpa using List.any_eq_false.mp (hlock hr) q hq
      simp only [if_true]
      omega

end Server

end RobotsTxt
