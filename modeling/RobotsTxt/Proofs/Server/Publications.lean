import RobotsTxt.Proofs.Server.Commitments

/-!
# Publications under way

A publication takes the current version of its document early and sends late, and the document may
be changed, closed or opened again in between. What it sends has been checked against the document
that was open then; another one may have taken its place since, but nothing else is sent in between.
And each change starts a publication of its own, so that nothing new is left out.

* `Snapshot.Right`: diagnostics of a version that suitable analyzers find.
* `Publication.Fits`: a publication that is right about a version, if it is about that version.
* `Server.Tracked`: all publications fit, and what has not been told yet is under way.
* **`Server.Move.tracked`**, **`Server.Tracked.step`**: what a move and a step in the background
  do; **`Server.Tracked.run`**: a whole run.
* **`Server.published_forward`**: published diagnostics never go back.
-/

namespace RobotsTxt

/-- Which analyzers are suitable for a version of a document, which is given by its serial number.
-/
abbrev Suitable := Nat → Snapshot → Dispatcher → Prop

/-- The diagnostics that analyzers find in a version. -/
def Snapshot.markersUnder (x : Snapshot) (dispatcher : Dispatcher) :
    Except SpanFault (List Marker) :=
  markers x.text (dispatcher.analyze (Document.parse x.text) ⟨0, x.text.length⟩)

/-- Diagnostics of a version that suitable analyzers find. -/
def Snapshot.Right (good : Suitable) (n : Nat) (x : Snapshot)
    (items : Except SpanFault (List Marker)) : Prop :=
  ∃ dispatcher found, good n x dispatcher ∧ x.markersUnder dispatcher = .ok found ∧
    items = .ok found

theorem Session.analyze_current {s : Session} {x : Snapshot} (h : s.Serves x) :
    markers x.text (s.analyze x ⟨0, x.text.length⟩).1 = x.markersUnder s.dispatcher := by
  simp only [Session.analyze]
  rw [s.dispatcher_tree, Session.tree_current h]
  rfl

theorem Session.right_analyze {s : Session} {x : Snapshot} {good : Suitable} {n : Nat}
    (h : s.Serves x) (hp : s.dispatcher.Pinned) (hg : good n x s.dispatcher) :
    x.Right good n (markers x.text (s.analyze x ⟨0, x.text.length⟩).1) := by
  obtain ⟨found, hfound⟩ := hp.exists_markers x.text _
  exact ⟨s.dispatcher, found, hg, hfound, (Session.analyze_current h).trans hfound⟩

/-! ## Publications and versions -/

namespace Publication

variable {p q : Publication} {good good' : Suitable} {n : Nat} {x y : Snapshot}

/-- The version that a publication has taken and not checked yet. -/
def version? (p : Publication) : Option Int :=
  match p.stage with
  | .captured x _ _ => some x.version
  | .computed version _ => some version
  | _ => none

/-- A publication that is right about a version, if that is the one it has taken. It has taken none
that is newer. -/
def Fits (good : Suitable) (n : Nat) (x : Snapshot) (p : Publication) : Prop :=
  match p.stage with
  | .captured y session _ => y.UpTo x ∧ (y = x →
      session.Serves x ∧ session.dispatcher.Pinned ∧ good n x session.dispatcher)
  | .computed version items => version ≤ x.version ∧ (version = x.version → x.Right good n items)
  | _ => True

/-- A publication that has taken a version or will take it, and has not checked it yet. -/
def Leads (x : Snapshot) (p : Publication) : Prop :=
  match p.stage with
  | .waiting => True
  | .captured y _ _ => y.version = x.version
  | .computed version _ => version = x.version
  | .checked .. | .done _ => False

theorem fits_of_waiting (h : p.stage = .waiting) : p.Fits good n x := by
  simp [Fits, h]

theorem leads_of_waiting (h : p.stage = .waiting) : p.Leads x := by
  simp [Leads, h]

/-- A publication that was right about a version has nothing to say about a newer one. -/
theorem Fits.newer (h : p.Fits good n x) (hlt : x.version < y.version) : p.Fits good' n y := by
  unfold Fits at h ⊢
  cases hstage : p.stage with
  | waiting | checked | done => trivial
  | captured z session sessions =>
    rw [hstage] at h
    refine ⟨h.1.trans (.inl hlt), fun heq => ?_⟩
    rcases h.1 with hz | hz
    · rw [heq] at hz
      omega
    · rw [← hz, heq] at hlt
      omega
  | computed version items =>
    rw [hstage] at h
    have := h.1
    exact ⟨by omega, fun heq => by omega⟩

theorem Fits.quiets (h : p.Fits good n x) (hq : p.Quiets q) : q.Fits good n x := by
  unfold Fits at h ⊢
  rcases hq.stage with heq | ⟨y, session, sessions, listeners, hp, hq'⟩
  · rwa [heq]
  · rw [hp] at h
    rw [hq']
    exact h

theorem Quiets.version?_eq (hq : p.Quiets q) : q.version? = p.version? := by
  unfold version?
  rcases hq.stage with heq | ⟨y, session, sessions, listeners, hp, hq'⟩
  · rw [heq]
  · rw [hp, hq']

theorem Leads.quiets (h : p.Leads x) (hq : p.Quiets q) : q.Leads x := by
  unfold Leads at h ⊢
  rcases hq.stage with heq | ⟨y, session, sessions, listeners, hp, hq'⟩
  · rwa [heq]
  · rw [hp] at h
    rw [hq']
    exact h

end Publication

namespace Server

variable {s t : Server} {d : OpenDocument} {p : Publication} {good good' : Suitable}
  {h : List Notice}

/-- The last thing that has come about a document is right about its current version. -/
def Settled (good : Suitable) (h : List Notice) (d : OpenDocument) : Prop :=
  ∃ items, Notice.last? h d.uri = some (.posted d.serial d.uri d.version items) ∧
    d.snapshot.Right good d.serial (.ok items)

/-- **All publications fit, and what has not been told yet is under way.** -/
structure Tracked (good : Suitable) (h : List Notice) (s : Server) : Prop where
  coherent : s.Coherent
  pinned : s.dispatcher.Pinned
  fits : ∀ p ∈ s.publications, ∀ d ∈ s.documents, p.serial = d.serial →
    p.uri = d.uri ∧ p.Fits good d.serial d.snapshot
  due : ∀ d ∈ s.documents,
    (∃ p ∈ s.publications, p.serial = d.serial ∧ p.Leads d.snapshot) ∨ Settled good h d

/-! ## Moves -/

/-- A document of which only the session has changed. -/
structure Keeps (d e : OpenDocument) : Prop where
  serial : e.serial = d.serial
  uri : e.uri = d.uri
  snapshot : e.snapshot = d.snapshot

theorem Settled.keeps {e : OpenDocument} (h' : Settled good h d) (hk : Keeps d e) :
    Settled good h e := by
  have hversion : e.version = d.version := congrArg Snapshot.version hk.snapshot
  unfold Settled
  rwa [hk.serial, hk.uri, hk.snapshot, hversion]

/-- A move that changes no document, and leaves the publications as they are or starts new ones. -/
theorem Tracked.of_keeps (ht : s.Tracked good h) (hc : t.Coherent) (hp : t.dispatcher.Pinned)
    (hdocs : ∀ e ∈ t.documents, ∃ d ∈ s.documents, Keeps d e)
    (hnew : ∀ q ∈ t.publications, ∀ e ∈ t.documents, q.serial = e.serial →
      (∃ p ∈ s.publications, p.Quiets q) ∨ (q.stage = .waiting ∧ q.uri = e.uri))
    (hold : ∀ p ∈ s.publications, ∀ e ∈ t.documents, p.serial = e.serial →
      ∃ q ∈ t.publications, p.Quiets q) : t.Tracked good h where
  coherent := hc
  pinned := hp
  fits := fun q hq e he hs => by
    obtain ⟨d, hd, hk⟩ := hdocs e he
    rcases hnew q hq e he hs with ⟨p, hp, hquiet⟩ | ⟨hwait, huri⟩
    · obtain ⟨hu, hf⟩ := ht.fits p hp d hd (hquiet.serial.symm.trans (hs.trans hk.serial))
      refine ⟨hquiet.uri.trans (hu.trans hk.uri.symm), ?_⟩
      rw [hk.serial, hk.snapshot]
      exact hf.quiets hquiet
    · exact ⟨huri, Publication.fits_of_waiting hwait⟩
  due := fun e he => by
    obtain ⟨d, hd, hk⟩ := hdocs e he
    rcases ht.due d hd with ⟨p, hp, hs, hl⟩ | htold
    · obtain ⟨q, hq, hquiet⟩ := hold p hp e he (hs.trans hk.serial.symm)
      rw [hk.serial, hk.snapshot]
      exact .inl ⟨q, hq, hquiet.serial.trans hs, hl.quiets hquiet⟩
    · exact .inr (htold.keeps hk)

theorem mem_schedule {q : Publication} : q ∈ (s.schedule d).publications ↔
    q ∈ s.publications ∨ q = { serial := d.serial, uri := d.uri } := by
  simp [Server.schedule]

theorem Tracked.opened (ht : s.Tracked good h) {uri : Text} (version : Int) (text : Text)
    (hu : ∀ e ∈ s.documents, e.uri ≠ uri) :
    ({ s with
      documents := s.documents ++ [s.fresh uri version text]
      nextSerial := s.nextSerial + 1 }.schedule (s.fresh uri version text)).Tracked good h where
  coherent := (Move.opened uri version text hu).coherent ht.coherent
  pinned := ht.pinned
  fits := fun q hq e he hs => by
    rcases mem_schedule.mp hq with hq | rfl
    · rcases List.mem_append.mp he with he | he
      · exact ht.fits q hq e he hs
      · rw [List.mem_singleton.mp he] at hs
        have := ht.coherent.started q hq
        exact absurd hs (Nat.ne_of_lt this)
    · rcases List.mem_append.mp he with he | he
      · have := ht.coherent.opened e he
        exact absurd hs (Nat.ne_of_gt this)
      · rw [List.mem_singleton.mp he]
        exact ⟨rfl, Publication.fits_of_waiting rfl⟩
  due := fun e he => by
    rcases List.mem_append.mp he with he | he
    · rcases ht.due e he with ⟨p, hp, hrest⟩ | htold
      · exact .inl ⟨p, mem_schedule.mpr (.inl hp), hrest⟩
      · exact .inr htold
    · rw [List.mem_singleton.mp he]
      exact .inl ⟨_, mem_schedule.mpr (.inr rfl), rfl, Publication.leads_of_waiting rfl⟩

theorem Tracked.changed (ht : s.Tracked good h) (hd : d ∈ s.documents) {version : Int}
    (hv : d.version < version) (text : Text) (change : Change) :
    ((s.update (changed d version text change)).schedule (changed d version text change)).Tracked
      good h where
  coherent := (Move.changed text change hd hv).coherent ht.coherent
  pinned := ht.pinned
  fits := fun q hq e he hs => by
    rcases mem_schedule.mp hq with hq | rfl
    · rcases mem_update he with rfl | ⟨he, -⟩
      · obtain ⟨hu, hf⟩ := ht.fits q hq d hd hs
        exact ⟨hu, hf.newer hv⟩
      · exact ht.fits q hq e he hs
    · rcases mem_update he with rfl | ⟨-, hne⟩
      · exact ⟨rfl, Publication.fits_of_waiting rfl⟩
      · exact absurd hs.symm hne
  due := fun e he => by
    rcases mem_update he with rfl | ⟨he, -⟩
    · exact .inl ⟨_, mem_schedule.mpr (.inr rfl), rfl, Publication.leads_of_waiting rfl⟩
    · rcases ht.due e he with ⟨p, hp, hrest⟩ | htold
      · exact .inl ⟨p, mem_schedule.mpr (.inl hp), hrest⟩
      · exact .inr htold

theorem Tracked.look (ht : s.Tracked good h) (hd : d ∈ s.documents) {x : Snapshot}
    (hx : x.UpTo d.snapshot) :
    (s.update { d with session := (d.session.tree x).2 }).Tracked good h := by
  have hb : d.Becomes { d with session := (d.session.tree x).2 } := ⟨rfl, rfl, .refl _⟩
  have hc := ht.coherent.update hd hb ((ht.coherent.documents d hd).look hx)
  refine ht.of_keeps hc ht.pinned (fun e he => ?_) (fun q hq _ _ _ => .inl ⟨q, hq, .refl q⟩)
    fun p hp _ _ _ => ⟨p, hp, .refl p⟩
  rcases mem_update he with rfl | ⟨he, -⟩
  · exact ⟨d, hd, rfl, rfl, rfl⟩
  · exact ⟨e, he, rfl, rfl, rfl⟩

theorem Tracked.schedule (ht : s.Tracked good h) (hd : d ∈ s.documents) :
    (s.schedule d).Tracked good h := by
  refine ht.of_keeps (ht.coherent.schedule (ht.coherent.opened d hd)) ht.pinned
    (fun e he => ⟨e, he, rfl, rfl, rfl⟩) (fun q hq e he hs => ?_)
    fun p hp _ _ _ => ⟨p, mem_schedule.mpr (.inl hp), .refl p⟩
  rcases mem_schedule.mp hq with hq | rfl
  · exact .inl ⟨q, hq, .refl q⟩
  · rw [ht.coherent.eq_of_serial he hd hs.symm]
    exact .inr ⟨rfl, rfl⟩

theorem Tracked.setDispatcher (ht : s.Tracked good h) {dispatcher : Dispatcher}
    (hp : dispatcher.Pinned) : (s.setDispatcher dispatcher).Tracked good h := by
  refine ht.of_keeps (ht.coherent.setDispatcher dispatcher) hp (fun e he => ?_)
    (fun q hq _ _ _ => ?_) fun p hp _ _ _ => ⟨_, List.mem_map_of_mem hp, p.quiets_foldl _⟩
  · obtain ⟨d, hd, rfl⟩ := List.mem_map.mp he
    exact ⟨d, hd, rfl, rfl, rfl⟩
  · obtain ⟨p, hp, rfl⟩ := List.mem_map.mp hq
    exact .inl ⟨p, hp, p.quiets_foldl _⟩

/-- **What a move does to the publications.** -/
theorem Move.tracked (hm : s.Move t) (ht : s.Tracked good h) : t.Tracked good h := by
  have hc := hm.coherent ht.coherent
  have hself : ∀ q ∈ s.publications, ∃ p ∈ s.publications, p.Quiets q :=
    fun q hq => ⟨q, hq, .refl q⟩
  have hkeep : ∀ e ∈ s.documents, ∃ d ∈ s.documents, Keeps d e :=
    fun e he => ⟨e, he, rfl, rfl, rfl⟩
  cases hm with
  | idle ha =>
    refine ht.of_keeps hc (ha.dispatcher ▸ ht.pinned) ?_ ?_ ?_
    · rw [ha.documents]
      exact hkeep
    · rw [ha.publications]
      exact fun q hq _ _ _ => .inl (hself q hq)
    · rw [ha.publications]
      exact fun p hp _ _ _ => ⟨p, hp, .refl p⟩
  | look hd => exact ht.look hd (.refl _)
  | @release d hd =>
    have hne : ∀ e ∈ (s.release d).documents, e.serial ≠ d.serial := fun e he => by
      simpa using (List.mem_filter.mp he).2
    refine ht.of_keeps hc ht.pinned (fun e he => hkeep e (List.mem_filter.mp he).1)
      (fun q hq e he hs => ?_) fun p hp e he hs => ?_
    · obtain ⟨p, hp, rfl⟩ := List.mem_map.mp hq
      split at hs
      · next hpd =>
        rw [((p.capture d).quiets_detach d).serial, p.serial_capture] at hs
        exact absurd (hs.symm.trans (by simpa using hpd)) (hne e he)
      · next hpd =>
        rw [if_neg hpd]
        exact .inl (hself p hp)
    · refine ⟨p, List.mem_map.mpr ⟨p, hp, ?_⟩, .refl p⟩
      rw [if_neg]
      simpa [hs] using hne e he
  | schedule hd => exact ht.schedule hd
  | opened uri version text hu => exact ht.opened version text hu
  | changed text change hd hv => exact ht.changed hd hv text change
  | configured hp => exact ht.setDispatcher hp

/-! ## Steps in the background -/

theorem Settled.tell (hd : Settled good h d) {m : Notice} (hm : m.uri ≠ d.uri) :
    Settled good (h ++ [m]) d := by
  unfold Settled
  rwa [Notice.last?_append_ne h hm]

theorem Tracked.tell_posted (ht : s.Tracked good h) (hd : d ∈ s.documents) {items : List Marker}
    (hr : d.snapshot.Right good d.serial (.ok items)) :
    s.Tracked good (h ++ [.posted d.serial d.uri d.version items]) := by
  refine ⟨ht.coherent, ht.pinned, ht.fits, fun e he => ?_⟩
  by_cases heq : e = d
  · subst heq
    exact .inr ⟨items, Notice.last?_append_self h (.posted ..), hr⟩
  · exact (ht.due e he).imp_right fun htold =>
      htold.tell fun hu => heq (ht.coherent.eq_of_uri he hd hu.symm)

theorem Tracked.tell_cleared (ht : s.Tracked good h) {uri : Text}
    (hu : ∀ d ∈ s.documents, d.uri ≠ uri) : s.Tracked good (h ++ [.cleared uri]) := by
  refine ⟨ht.coherent, ht.pinned, ht.fits, fun e he => ?_⟩
  exact (ht.due e he).imp_right fun htold => htold.tell fun heq => hu e he heq.symm

theorem mem_put {place : Nat} {q r : Publication} (hplace : s.publications[place]? = some p)
    (hq : q ∈ s.publications) : q = p ∨ q ∈ (s.put place r).publications := by
  obtain ⟨front, back, hs, hput, -⟩ := exists_around hplace
  simp only [hs, hput, List.mem_append, List.mem_cons] at hq ⊢
  tauto

theorem put_mem {place : Nat} (hplace : s.publications[place]? = some p) (r : Publication) :
    r ∈ (s.put place r).publications := by
  obtain ⟨front, back, -, hput, -⟩ := exists_around hplace
  simp [hput]

theorem mem_discard {place : Nat} {q : Publication} (hplace : s.publications[place]? = some p)
    (hq : q ∈ s.publications) : q = p ∨ q ∈ (s.discard place).publications := by
  obtain ⟨front, back, hs, -, hdiscard⟩ := exists_around hplace
  simp only [hs, hdiscard, List.mem_append, List.mem_cons] at hq ⊢
  tauto

theorem Tracked.put (ht : s.Tracked good h) {place : Nat} {r : Publication}
    (hplace : s.publications[place]? = some p) (hc : (s.put place r).Coherent)
    (hserial : r.serial = p.serial) (huri : r.uri = p.uri)
    (hr : ∀ d ∈ s.documents, p.serial = d.serial → r.Fits good d.serial d.snapshot ∧
      (p.Leads d.snapshot → r.Leads d.snapshot ∨ Settled good h d)) :
    (s.put place r).Tracked good h where
  coherent := hc
  pinned := ht.pinned
  fits := fun q hq d hd hs => by
    rcases List.mem_or_eq_of_mem_set hq with hq | rfl
    · exact ht.fits q hq d hd hs
    · have hps := hserial.symm.trans hs
      have hp := ht.fits p (List.mem_of_getElem? hplace) d hd hps
      exact ⟨huri.trans hp.1, (hr d hd hps).1⟩
  due := fun d hd => by
    rcases ht.due d hd with ⟨q, hq, hs, hl⟩ | htold
    · rcases mem_put (r := r) hplace hq with rfl | hq
      · rcases (hr d hd hs).2 hl with hl' | htold
        · exact .inl ⟨r, put_mem hplace r, hserial.trans hs, hl'⟩
        · exact .inr htold
      · exact .inl ⟨q, hq, hs, hl⟩
    · exact .inr htold

theorem Tracked.discard (ht : s.Tracked good h) {place : Nat}
    (hplace : s.publications[place]? = some p)
    (hp : ∀ d ∈ s.documents, p.serial = d.serial → ¬ p.Leads d.snapshot) :
    (s.discard place).Tracked good h where
  coherent := ht.coherent.discard place
  pinned := ht.pinned
  fits := fun q hq => ht.fits q (List.mem_of_mem_eraseIdx hq)
  due := fun d hd => by
    rcases ht.due d hd with ⟨q, hq, hs, hl⟩ | htold
    · rcases mem_discard hplace hq with rfl | hq
      · exact absurd hl (hp d hd hs)
      · exact .inl ⟨q, hq, hs, hl⟩
    · exact .inr htold

/-- A publication that holds the lock has nothing more to find out. -/
theorem Tracked.send (ht : s.Tracked good h) {place : Nat} {version : Int} {items : List Marker}
    (hplace : s.publications[place]? = some p) (hstage : p.stage = .checked version items) :
    (s.put place { p with stage := .done version }).Tracked good h := by
  refine ht.put hplace ((Progress.send hplace hstage).coherent ht.coherent) rfl rfl fun d _ _ => ?_
  simp [Publication.Fits, Publication.Leads, hstage]

theorem fits_examined {session : Session} {x y : Snapshot} {n : Nat} (hup : x.UpTo y)
    (hright : x = y → y.Right good n (markers y.text (session.analyze y ⟨0, y.text.length⟩).1)) :
    (examined p session x).Fits good n y := by
  unfold Publication.Fits examined
  rcases hup with hlt | rfl
  · exact ⟨Int.le_of_lt hlt, fun heq => by omega⟩
  · exact ⟨Int.le_refl _, fun _ => hright rfl⟩

theorem leads_examined {session taken : Session} {x y : Snapshot} {sessions : Nat}
    (hstage : p.stage = .captured x taken sessions) (hl : p.Leads y) :
    (examined p session x).Leads y := by
  unfold Publication.Leads at hl ⊢
  rw [hstage] at hl
  exact hl

/-- A publication that takes the lock commits the server to what is right. -/
theorem Tracked.tell (ht : s.Tracked good h) (place : Nat) :
    s.Tracked good (h ++ s.commits (.background place)) := by
  rcases s.commits_cases (.background place) with hn | ⟨disk, uri, he, -⟩ |
    ⟨_, p, d, items, he, hplace, hstage, hf, hserial, hn⟩
  · rwa [hn, List.append_nil]
  · simp at he
  · obtain rfl := ServerEvent.background.inj he
    have hd := (mem_of_find? hf).1
    have hfits := (ht.fits p (List.mem_of_getElem? hplace) d hd hserial.symm).2
    unfold Publication.Fits at hfits
    rw [hstage] at hfits
    rw [hn]
    exact ht.tell_posted hd (hfits.2 rfl)

/-- **A publication that leads to the current version of a document is not given up.** -/
theorem Tracked.computed (ht : s.Tracked good h) (hp : p ∈ s.publications) (hd : d ∈ s.documents)
    (hs : p.serial = d.serial) {version : Int} {items : Except SpanFault (List Marker)}
    (hstage : p.stage = .computed version items) (hl : p.Leads d.snapshot) :
    ∃ found, items = .ok found ∧ version = d.version ∧ s.isCurrent p version = true ∧
      d.uri = p.uri ∧ d.snapshot.Right good d.serial (.ok found) := by
  obtain ⟨hu, hfits⟩ := ht.fits p hp d hd hs
  unfold Publication.Fits at hfits
  unfold Publication.Leads at hl
  rw [hstage] at hfits hl
  obtain rfl : version = d.version := hl
  obtain ⟨dispatcher, found, hgood, hfound, rfl⟩ := hfits.2 rfl
  refine ⟨found, rfl, rfl, ?_, hu.symm, dispatcher, found, hgood, hfound, rfl⟩
  rw [isCurrent, hu, ht.coherent.find?_eq hd]
  simp [hs]

/-- A publication that takes the current version of its document, and the session. -/
theorem Tracked.capture (ht : s.Tracked good h) {place : Nat}
    (hplace : s.publications[place]? = some p) (hstage : p.stage = .waiting) (hd : d ∈ s.documents)
    (hserial : d.serial = p.serial) (hgood : good d.serial d.snapshot s.dispatcher) :
    (s.put place (p.capture d)).Tracked good h := by
  have hc := (Progress.capture hplace hstage hd hserial).coherent ht.coherent
  have hcap : (p.capture d).stage = .captured d.snapshot d.session d.sessions := by
    simp [Publication.capture, hstage]
  have huri : (p.capture d).uri = p.uri := by simp [Publication.capture, hstage]
  have hdoc := ht.coherent.documents d hd
  refine ht.put hplace hc (p.serial_capture d) huri fun e he hs => ?_
  obtain rfl := ht.coherent.eq_of_serial hd he (hserial.trans hs)
  unfold Publication.Fits Publication.Leads
  rw [hcap]
  refine ⟨⟨.refl _, fun _ => ⟨hdoc.serves, ?_⟩⟩, fun _ => .inl rfl⟩
  rw [hdoc.dispatcher]
  exact ⟨ht.pinned, hgood⟩

/-- A publication that asks the session of its document, and shares what the session learns. -/
theorem Tracked.share (ht : s.Tracked good h) {place : Nat} {x : Snapshot} {session : Session}
    (hplace : s.publications[place]? = some p) (hstage : p.stage = .captured x session d.sessions)
    (hd : d ∈ s.documents) (hserial : d.serial = p.serial)
    (hgood : good d.serial d.snapshot s.dispatcher) :
    ((s.update { d with session := (d.session.tree x).2 }).put place
      (examined p d.session x)).Tracked good h := by
  have hc := (Progress.share hplace hstage hd hserial).coherent ht.coherent
  have hfits := (ht.fits p (List.mem_of_getElem? hplace) d hd hserial.symm).2
  unfold Publication.Fits at hfits
  rw [hstage] at hfits
  have hdoc := ht.coherent.documents d hd
  refine (ht.look hd hfits.1).put hplace hc rfl rfl fun e he hs =>
    ⟨?_, fun hl => .inl (leads_examined hstage hl)⟩
  rcases mem_update he with rfl | ⟨-, hne⟩
  · refine fits_examined hfits.1 fun _ => Session.right_analyze hdoc.serves ?_ ?_
    · rw [hdoc.dispatcher]
      exact ht.pinned
    · rw [hdoc.dispatcher]
      exact hgood
  · exact absurd (hs.symm.trans hserial.symm) hne

/-- A publication that asks a session which its document has not any more. -/
theorem Tracked.examine (ht : s.Tracked good h) {place : Nat} {x : Snapshot} {session : Session}
    {sessions : Nat} (hplace : s.publications[place]? = some p)
    (hstage : p.stage = .captured x session sessions) :
    (s.put place (examined p session x)).Tracked good h := by
  have hc := (Progress.examine hplace hstage).coherent ht.coherent
  refine ht.put hplace hc rfl rfl fun e he hs =>
    ⟨?_, fun hl => .inl (leads_examined hstage hl)⟩
  have hfits := (ht.fits p (List.mem_of_getElem? hplace) e he hs).2
  unfold Publication.Fits at hfits
  rw [hstage] at hfits
  refine fits_examined hfits.1 fun heq => ?_
  obtain ⟨hserves, hpinned, hsuits⟩ := hfits.2 heq
  exact Session.right_analyze hserves hpinned hsuits

/-- A publication that takes the lock. What it leads to is told, as far as the server is concerned.
-/
theorem Tracked.check (ht : s.Tracked good h) {place : Nat} {version : Int} {items : List Marker}
    (hplace : s.publications[place]? = some p) (hstage : p.stage = .computed version (.ok items))
    (hlock : s.isPublishing = false) (hcurrent : s.isCurrent p version = true) :
    (s.put place { p with stage := .checked version items }).Tracked good
      (h ++ s.commits (.background place)) := by
  have hc := (Progress.check hplace hstage hlock hcurrent).coherent ht.coherent
  refine (ht.tell place).put hplace hc rfl rfl fun d hd hs => ⟨trivial, fun hl => .inr ?_⟩
  obtain ⟨found, hfound, rfl, -, hu, hright⟩ :=
    ht.computed (List.mem_of_getElem? hplace) hd hs hstage hl
  obtain rfl := Except.ok.inj hfound
  have hcommits : s.commits (.background place) = [.posted d.serial d.uri d.version items] := by
    rw [(background_of_getElem? hplace).2]
    simp [verdict, hstage, hlock, hcurrent, hs, hu]
  rw [hcommits]
  exact ⟨items, Notice.last?_append_self h (.posted ..), hright⟩

/-- **What a step in the background does to the publications**, where the analyzers in force are
suitable for all open documents. -/
theorem Tracked.step (ht : s.Tracked good h)
    (hgood : ∀ d ∈ s.documents, good d.serial d.snapshot s.dispatcher) (place : Nat) :
    (s.step place).2.Tracked good (h ++ s.commits (.background place)) := by
  have hc := ht.coherent.step place
  have hp := s.progress_step place
  have htold := ht.tell place
  have hquiet : ∀ {p : Publication}, s.publications[place]? = some p →
      (∀ version items, p.stage ≠ .computed version (.ok items)) →
      h ++ s.commits (.background place) = h := by
    intro p hplace hstage
    rw [(background_of_getElem? hplace).2, verdict_eq_nil hstage, List.append_nil]
  generalize (s.step place).1 = sent, (s.step place).2 = t at hp hc
  cases hp with
  | rest | wait => exact htold
  | capture hplace hstage hd hserial =>
    rw [hquiet hplace (by simp [hstage])]
    exact ht.capture hplace hstage hd hserial (hgood _ hd)
  | drop hplace hstage hnone =>
    rw [hquiet hplace (by simp [hstage])]
    exact ht.discard hplace fun d hd hs => absurd hs.symm (hnone d hd)
  | share hplace hstage hd hserial =>
    rw [hquiet hplace (by simp [hstage])]
    exact ht.share hplace hstage hd hserial (hgood _ hd)
  | examine hplace hstage =>
    rw [hquiet hplace (by simp [hstage])]
    exact ht.examine hplace hstage
  | check hplace hstage hlock hcurrent => exact ht.check hplace hstage hlock hcurrent
  | abandon hplace hstage hstale =>
    refine htold.put hplace hc rfl rfl fun d hd hs => ⟨trivial, fun hl => ?_⟩
    obtain ⟨found, hfound, -, hcurrent, -⟩ :=
      ht.computed (List.mem_of_getElem? hplace) hd hs hstage hl
    exact absurd hcurrent (by simp [hstale found hfound])
  | send hplace hstage =>
    rw [hquiet hplace (by simp [hstage])]
    exact ht.send hplace hstage
  | @record p version hplace hstage =>
    rw [hquiet hplace (by simp [hstage])]
    have hidle : s.Move { s with versions := (s.versions.update p.uri (.handled version)).2 } :=
      .idle ⟨rfl, rfl, rfl, rfl, rfl⟩
    exact (hidle.tracked ht).discard hplace fun d _ _ => by simp [Publication.Leads, hstage]

/-! ## Runs -/

/-- **What an event does to the publications.** -/
theorem Tracked.next (ht : s.Tracked good h)
    (hgood : ∀ d ∈ s.documents, good d.serial d.snapshot s.dispatcher) (e : ServerEvent) :
    (s.next e).Tracked good (h ++ s.commits e) := by
  cases e with
  | background place => exact ht.step hgood place
  | request disk r =>
    have hmoved : (s.handle disk r).server.Tracked good h :=
      ht.coherent.of_handle ht (fun hm _ ht => hm.tracked ht)
        (fun hplace hstage _ ht => ht.send hplace hstage) disk r
    rcases s.commits_cases (.request disk r) with hn | ⟨_, uri, he, hn⟩ | ⟨_, _, _, _, he, -⟩
    · rw [hn, List.append_nil]
      exact hmoved
    · rw [hn]
      obtain ⟨rfl, rfl⟩ := ServerEvent.request.inj he
      refine hmoved.tell_cleared fun d hd hu => ?_
      have hshown := congrFun (ht.coherent.shown_next (.request disk (.didClose uri))) uri
      have hfind := hmoved.coherent.find?_eq hd
      rw [hu] at hfind
      simp [shown, Server.next, hfind, Desk.next] at hshown
    · simp at he

/-- **What a run does to the publications**, where the analyzers in force at any time are suitable
for the documents that are open at that time. -/
theorem Tracked.run (ht : s.Tracked good h) {es : List ServerEvent}
    (hgood : ∀ before, before <+: es → ∀ d ∈ (s.run before).documents,
      good d.serial d.snapshot (s.run before).dispatcher) :
    (s.run es).Tracked good (h ++ s.commitments es) := by
  induction es generalizing s h with
  | nil =>
    rw [commitments, List.append_nil]
    exact ht
  | cons e es ih =>
    rw [commitments, ← List.append_assoc]
    refine ih (ht.next (hgood [] List.nil_prefix) e) fun before hb => ?_
    exact hgood (e :: before) (List.cons_prefix_cons.mpr ⟨rfl, hb⟩)

theorem Tracked.last (ht : s.Tracked good h) (hnone : s.publications = []) (hd : d ∈ s.documents) :
    Settled good h d := by
  rcases ht.due d hd with ⟨p, hp, -⟩ | htold
  · rw [hnone] at hp
    exact absurd hp List.not_mem_nil
  · exact htold

theorem tracked_fresh (identity : Text) (notifies : Bool) (logLevel : LogLevel) :
    ({ identity, notifies, logLevel } : Server).Tracked good [] where
  coherent := coherent_fresh identity notifies logLevel
  pinned := Analyzer.pinned_builtin
  fits := by simp
  due := by simp

theorem ahead_fresh (identity : Text) (notifies : Bool) (logLevel : LogLevel) :
    ({ identity, notifies, logLevel } : Server).Ahead [] :=
  ⟨by simp, by simp⟩

theorem run_append (s : Server) (es : List ServerEvent) (e : ServerEvent) :
    s.run (es ++ [e]) = (s.run es).next e := by
  rw [Server.run, Server.run, List.foldl_append]
  rfl

/-- From the beginning, what has been told is what the server has been committed to, up to what is
held back. -/
theorem history_fresh (identity : Text) (notifies : Bool) (logLevel : LogLevel)
    (es : List ServerEvent) :
    let start : Server := { identity, notifies, logLevel }
    start.history es ++ (start.run es).held = start.commitments es :=
  (coherent_fresh identity notifies logLevel).history_held es

theorem held_of_publications (h : s.publications = []) : s.held = [] := by
  rw [held, h, List.flatMap_nil]

/-- **Published diagnostics never go back.** In any run, the diagnostics that are sent are those of
the history. The versions that are posted for a document never decrease. When a document has been
closed, nothing is posted under its URI until one is opened again; each further closing takes the
diagnostics back once more. Nothing is posted for a document that another one has replaced, except
what a publication has checked before and sends before anything else. And when no publication is
under way, the last thing told about an open document is its current version. -/
theorem published_forward (identity : Text) (notifies : Bool) (logLevel : LogLevel)
    (es : List ServerEvent) :
    let start : Server := { identity, notifies, logLevel }
    let s := start.run es
    let h := start.history es
    (start.told es).filter Message.isDiagnostics = h.map Notice.message ∧
    (∀ n, (h.filterMap (Notice.version? n)).Pairwise (· ≤ ·)) ∧
    (∀ before disk uri middle after,
      es = before ++ [.request disk (.didClose uri)] ++ middle ++ after →
      (∀ e ∈ middle, e.opens uri = false) →
      ((start.run (before ++ [.request disk (.didClose uri)])).history middle).filter
          (fun m => m.uri == uri) =
        (middle.filter (ServerEvent.closes uri)).map fun _ => .cleared uri) ∧
    (∀ before disk uri version text after,
      es = before ++ [.request disk (.didOpen uri version text)] ++ after →
      ∀ d ∈ (start.run before).documents, d.uri = uri →
      ∃ late rest,
        (start.run (before ++ [.request disk (.didOpen uri version text)])).history after =
          late ++ rest ∧
        (late = [] ∨ ∃ p ∈ (start.run before).publications, p.serial = d.serial ∧
          ∃ checked items, p.stage = .checked checked items ∧
            late = [.posted d.serial uri checked items]) ∧
        ∀ m ∈ rest, m.serial? ≠ some d.serial) ∧
    (s.publications = [] → ∀ d ∈ s.documents, ∃ items,
      Notice.last? h d.uri = some (.posted d.serial d.uri d.version items)) := by
  intro start s h
  have h₀ : start.Coherent := coherent_fresh identity notifies logLevel
  have hheld : h ++ s.held = start.commitments es := history_fresh identity notifies logLevel es
  have hahead : s.Ahead (start.commitments es) := (ahead_fresh identity notifies logLevel).run h₀ es
  have htracked : ∀ es, (start.run es).Tracked (fun _ _ _ => True) (start.commitments es) :=
    fun es => (tracked_fresh identity notifies logLevel).run fun _ _ _ _ => trivial
  refine ⟨h₀.diagnostics_told es, fun n => ?_, ?_, ?_, ?_⟩
  · refine (hahead.ordered n).sublist (List.Sublist.filterMap _ ?_)
    rw [← hheld]
    exact List.sublist_append_left _ _
  · intro before disk uri middle after _ hmiddle
    rw [run_append]
    exact (h₀.run before).history_didClose disk uri hmiddle
  · intro before disk uri version text after _ d hd hu
    subst hu
    rw [run_append]
    obtain ⟨late, rest, hhistory, hlate, hrest⟩ :=
      (h₀.run before).history_openDocument hd version text after
    refine ⟨late, rest, hhistory, hlate.imp_right ?_, hrest⟩
    rintro ⟨p, hp, hpd, checked, items, hstage, rfl⟩
    refine ⟨p, hp, hpd, checked, items, hstage, ?_⟩
    rw [hpd, ((htracked before).fits p hp d hd hpd).1]
  · intro hnone d hd
    obtain ⟨items, hlast, -⟩ := (htracked es).last hnone hd
    rw [← hheld, held_of_publications hnone, List.append_nil] at hlast
    exact ⟨items, hlast⟩

/-- A document is opened, and opened again under an older version when a publication has checked the
first one. Another document is opened and closed. -/
def reopened (disk : Disk) : List ServerEvent :=
  [.request disk (.didOpen (utf8 "u") 5 (utf8 "allow: /a")), .background 0, .background 0,
    .background 0, .request disk (.didOpen (utf8 "u") 1 (utf8 "allow: /b"))] ++
  List.replicate 7 (.background 0) ++
  [.request disk (.didOpen (utf8 "v") 1 []), .request disk (.didClose (utf8 "v"))] ++
  List.replicate 3 (.background 0)

theorem published_forward_reopened :
    let disk : Disk := ⟨fun _ => .ok [], fun _ => .ok 0⟩
    let start : Server := { identity := utf8 "a", notifies := true, logLevel := .info }
    let es := reopened disk
    (start.run es).publications = [] ∧
      (∀ d ∈ (start.run es).documents, ∃ items, Notice.last? (start.history es) d.uri =
        some (.posted d.serial d.uri d.version items)) ∧
      (∀ d ∈ (start.run (es.take 4)).documents, ∃ late rest,
        (start.run (es.take 5)).history (es.drop 5) = late ++ rest ∧
          ∀ m ∈ rest, m.serial? ≠ some d.serial) ∧
      ((start.run (es.take 14)).history (es.drop 14)).filter (fun m => m.uri == utf8 "v") = [] := by
  intro disk start es
  obtain ⟨-, -, hclosed, hreplaced, hlast⟩ := published_forward (utf8 "a") true .info es
  have hnone : (start.run es).publications = [] :=
    List.eq_nil_of_length_eq_zero (by decide +kernel)
  refine ⟨hnone, hlast hnone, fun d hd => ?_, ?_⟩
  · have huri : ∀ e ∈ (start.run (es.take 4)).documents, e.uri = utf8 "u" := by decide +kernel
    obtain ⟨late, rest, hhistory, -, hrest⟩ := hreplaced (es.take 4) disk (utf8 "u") 1
      (utf8 "allow: /b") (es.drop 5) rfl d hd (huri d hd)
    exact ⟨late, rest, hhistory, hrest⟩
  · refine hclosed (es.take 13) disk (utf8 "v") (es.drop 14) [] rfl fun e he => ?_
    obtain rfl := List.eq_of_mem_replicate (n := 3) he
    rfl

/-- A document that is closed twice: the second time its diagnostics are taken back again, although
it has not been opened in between. And a document that is opened again when a publication has
checked the one before: what has been checked is sent, although another document has taken its
place. -/
theorem published_forward_exceptions :
    let disk : Disk := ⟨fun _ => .ok [], fun _ => .ok 0⟩
    let start : Server := { identity := utf8 "a", notifies := true, logLevel := .info }
    let opens (text : Text) : ServerEvent := .request disk (.didOpen (utf8 "u") 1 text)
    let closes : ServerEvent := .request disk (.didClose (utf8 "u"))
    let closed := start.run [opens [], closes]
    let replaced := start.run
      [opens [], .background 0, .background 0, .background 0, opens (utf8 "allow: /")]
    (closes.opens (utf8 "u") = false ∧ closed.history [closes] = [.cleared (utf8 "u")] ∧
      closed.told [closes] = [.diagnostics (utf8 "u") 0 []]) ∧
    (∀ d ∈ replaced.documents, d.serial ≠ 0) ∧
      replaced.history [.background 0] = [.posted 0 (utf8 "u") 1 []] ∧
      replaced.told [.background 0] = [.diagnostics (utf8 "u") 1 []] := by
  decide +kernel

end Server

end RobotsTxt
