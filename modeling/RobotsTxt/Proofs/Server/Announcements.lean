import RobotsTxt.Proofs.Change.Content
import RobotsTxt.Proofs.Change.Impact
import RobotsTxt.Proofs.Server.Answers

/-!
# Announcements of changed tags

The server listens to the session of every open document, and to no other session. So it hears of
every edit that a document takes over, and of nothing else.

* `Session.applyEdit_current`: what an edit of the current version announces, and to whom.
* `Server.Attached`: the server listens to the sessions of its open documents only.
* `Desk.announced`: what has to be announced, as the client's own messages tell it.
* **`Server.announced_once`**: every change that is taken over is announced once.
-/

namespace RobotsTxt

/-! ## Listeners of a session -/

namespace Session

variable {s : Session} {e : Edit}

theorem listeners_applyEdit (s : Session) (e : Edit) :
    (s.applyEdit e).2.listeners = s.listeners := by
  rcases s.applyEdit_session e with h | h
  · rw [h]
  · rw [h, listeners_tree, listeners_tree]

theorem latestEdit?_applyEdit (s : Session) (e : Edit) :
    (s.applyEdit e).2.latestEdit? = s.latestEdit? ∨
      (s.applyEdit e).2.latestEdit? = some e.after.version := by
  rcases s.applyEdit_session e with h | h
  · exact .inl (by rw [h])
  · exact .inr (by rw [h, latestEdit?_tree, latestEdit?_tree])

theorem heard_applyEdit (h : s.listeners = []) (e : Edit) : (s.applyEdit e).1.2 = [] := by
  unfold applyEdit
  split
  · rfl
  · simp only [editTrees]
    split
    · simp only [listeners_tree, h]
    · rfl

/-- **What an edit of the current version announces, and to whom.** -/
theorem applyEdit_current (hserves : s.Serves e.before)
    (hlt : e.before.version < e.after.version) (hnew : s.isStale e = false) :
    (s.applyEdit e).1 =
      match impact? (Document.parse e.before.text) (Document.parse e.after.text) e.changes with
      | some span => (some ⟨e.after.version, span⟩, s.listeners)
      | none => (none, []) := by
  have hbefore : { s with latestEdit? := some e.after.version }.Serves e.before := hserves
  have hafter := (hbefore.tree (.refl _)).mono (.inl hlt : e.before.UpTo e.after)
  unfold applyEdit
  simp only [hnew, Bool.false_eq_true, if_false, editTrees]
  rw [tree_current hbefore, tree_current hafter]
  simp only [Tree.parse]
  cases impact? (Document.parse e.before.text) (Document.parse e.after.text) e.changes with
  | none => rfl
  | some span => simp only [listeners_tree]

end Session

/-! ## Whom the server listens to -/

/-- A document to whose session the server listens, and nobody else. No edit has led the session
beyond the current version. -/
structure OpenDocument.Attached (d : OpenDocument) : Prop where
  listeners : d.session.listeners = [d.listener]
  edits : ∀ v, d.session.latestEdit? = some v → v ≤ d.version

namespace Publication

variable {p : Publication} {d : OpenDocument} {ds es : List OpenDocument}

/-- A session that a publication has taken is silent, unless it is still the session of one of some
documents, to which the server listens. -/
def HeardBy (p : Publication) (ds : List OpenDocument) : Prop :=
  ∀ x session sessions, p.stage = .captured x session sessions → session.listeners = [] ∨
    ∃ d ∈ ds, d.serial = p.serial ∧ d.sessions = sessions ∧ session.listeners = [d.listener]

theorem HeardBy.mono (h : p.HeardBy ds) (hsub : ∀ d ∈ ds, d ∈ es) : p.HeardBy es := by
  intro x session sessions hstage
  rcases h x session sessions hstage with hnone | ⟨d, hd, hrest⟩
  · exact .inl hnone
  · exact .inr ⟨d, hsub d hd, hrest⟩

theorem HeardBy.capture (h : p.HeardBy ds) (hd : d ∈ ds) (hs : d.serial = p.serial)
    (ha : d.Attached) : (p.capture d).HeardBy ds := by
  unfold Publication.capture
  split
  · intro x session sessions hstage
    obtain ⟨-, rfl, rfl⟩ := Stage.captured.inj hstage
    exact .inr ⟨d, hd, hs, rfl, ha.listeners⟩
  · exact h

/-- A session that has been detached from a document needs that document no more. -/
theorem HeardBy.detach (h : p.HeardBy (d :: ds)) : (p.detach d).HeardBy ds := by
  unfold Publication.detach
  cases hstage : p.stage with
  | waiting | computed | checked | done =>
    intro x session sessions hx
    simp [hstage] at hx
  | captured y taken n =>
    have hp := h y taken n hstage
    simp only
    split
    · next hmatch =>
      intro x session sessions hx
      obtain ⟨-, rfl, rfl⟩ := Stage.captured.inj hx
      rcases hp with hnone | ⟨e, he, hserial, hn, hone⟩
      · exact .inl (by simp [Session.unlisten, hnone])
      · rcases List.mem_cons.mp he with rfl | he
        · exact .inl (by simp [Session.unlisten, hone])
        · by_cases hl : e.listener = d.listener
          · exact .inl (by simp [Session.unlisten, hone, hl])
          · exact .inr ⟨e, he, hserial, hn, by simp [Session.unlisten, hone, hl]⟩
    · next hmatch =>
      intro x session sessions hx
      obtain ⟨rfl, rfl, rfl⟩ := Stage.captured.inj (hstage.symm.trans hx)
      rcases hp with hnone | ⟨e, he, hserial, hn, hone⟩
      · exact .inl hnone
      · rcases List.mem_cons.mp he with rfl | he
        · exact absurd (by simp [hserial, hn]) hmatch
        · exact .inr ⟨e, he, hserial, hn, hone⟩

theorem HeardBy.foldl (h : p.HeardBy ds) : (ds.foldl Publication.detach p).HeardBy [] := by
  induction ds generalizing p with
  | nil => exact h
  | cons d ds ih => exact ih h.detach

theorem heardBy_of_ne (h : ∀ x session sessions, p.stage ≠ .captured x session sessions) :
    p.HeardBy ds :=
  fun x session sessions hx => absurd hx (h x session sessions)

/-- Which of the sessions of its document a publication has taken. -/
def taken? (p : Publication) : Option Nat :=
  match p.stage with
  | .captured _ _ sessions => some sessions
  | _ => none

theorem stage_of_taken? {p : Publication} {n : Nat} (h : n ∈ p.taken?) :
    ∃ x session, p.stage = .captured x session n := by
  unfold taken? at h
  cases hstage : p.stage with
  | waiting | computed | checked | done => simp [hstage] at h
  | captured x session sessions =>
    rw [hstage] at h
    exact ⟨x, session, by rw [Option.some_inj.mp h]⟩

end Publication

namespace Server

variable {s t : Server} {d : OpenDocument}

/-- **The server listens to the sessions of its open documents only.** -/
structure Attached (s : Server) : Prop where
  documents : ∀ d ∈ s.documents, d.Attached
  publications : ∀ p ∈ s.publications, p.HeardBy s.documents

theorem Attached.update (h : s.Attached) (hs : s.Coherent) (hd : d ∈ s.documents)
    {d' : OpenDocument} (hserial : d'.serial = d.serial) (hn : d'.sessions = d.sessions)
    (hl : d'.listener = d.listener) (ha : d'.Attached) : (s.update d').Attached where
  documents := fun e he => by
    rcases mem_update he with rfl | ⟨he, -⟩
    · exact ha
    · exact h.documents e he
  publications := fun p hp x session sessions hstage => by
    rcases h.publications p hp x session sessions hstage with hnone | ⟨e, he, hrest⟩
    · exact .inl hnone
    · right
      by_cases hes : e.serial = d'.serial
      · obtain rfl := hs.eq_of_serial he hd (hes.trans hserial)
        refine ⟨d', (mem_update_iff hd hserial).mpr (.inl rfl), ?_⟩
        rw [hserial, hn, hl]
        exact hrest
      · exact ⟨e, (mem_update_iff hd hserial).mpr (.inr ⟨he, hes⟩), hrest⟩

theorem Attached.look (h : s.Attached) (hs : s.Coherent) (hd : d ∈ s.documents) (x : Snapshot) :
    (s.update { d with session := (d.session.tree x).2 }).Attached := by
  refine h.update hs hd rfl rfl rfl ⟨?_, fun v hv => ?_⟩
  · exact (d.session.listeners_tree x).trans (h.documents d hd).listeners
  · exact (h.documents d hd).edits v ((d.session.latestEdit?_tree x).symm.trans hv)

theorem Attached.release (h : s.Attached) (hs : s.Coherent) (hd : d ∈ s.documents) :
    (s.release d).Attached where
  documents := fun e he => h.documents e (List.mem_filter.mp he).1
  publications := fun p hp => by
    obtain ⟨q, hq, rfl⟩ := List.mem_map.mp hp
    have hsub : ∀ e ∈ s.documents, e ∈ d :: (s.release d).documents := fun e he => by
      by_cases hes : e.serial = d.serial
      · exact List.mem_cons.mpr (.inl (hs.eq_of_serial he hd hes))
      · exact List.mem_cons_of_mem _ (List.mem_filter.mpr ⟨he, by simpa using hes⟩)
    split
    · next hserial =>
      have hserial' : d.serial = q.serial := by simpa using (beq_iff_eq.mp hserial).symm
      have hc := (h.publications q hq).capture hd hserial' (h.documents d hd)
      exact (hc.mono hsub).detach
    · next hserial =>
      intro x session sessions hstage
      rcases h.publications q hq x session sessions hstage with hnone | ⟨e, he, hes, hrest⟩
      · exact .inl hnone
      · refine .inr ⟨e, List.mem_filter.mpr ⟨he, ?_⟩, hes, hrest⟩
        simpa [hes] using hserial

theorem Attached.schedule (h : s.Attached) (d : OpenDocument) : (s.schedule d).Attached where
  documents := h.documents
  publications := fun p hp => by
    rcases List.mem_append.mp hp with hp | hp
    · exact h.publications p hp
    · rw [List.mem_singleton.mp hp]
      exact Publication.heardBy_of_ne (by simp)

theorem Attached.append (h : s.Attached) (hd : d.Attached) (n : Nat) :
    { s with documents := s.documents ++ [d], nextSerial := n }.Attached where
  documents := fun e he => by
    rcases List.mem_append.mp he with he | he
    · exact h.documents e he
    · rwa [List.mem_singleton.mp he]
  publications := fun p hp => (h.publications p hp).mono fun _ he => List.mem_append_left _ he

theorem Attached.setDispatcher (h : s.Attached) (dispatcher : Dispatcher) :
    (s.setDispatcher dispatcher).Attached where
  documents := fun e he => by
    obtain ⟨d, hd, rfl⟩ := List.mem_map.mp he
    exact ⟨rfl, fun v hv => by simp [OpenDocument.reattach, Session.listen] at hv⟩
  publications := fun p hp => by
    obtain ⟨q, hq, rfl⟩ := List.mem_map.mp hp
    exact (h.publications q hq).foldl.mono fun _ he => absurd he List.not_mem_nil

theorem attached_changed (hd : d.Attached) {version : Int} (hv : d.version < version) (text : Text)
    (change : Change) : (changed d version text change).Attached where
  listeners := (d.session.listeners_applyEdit _).trans hd.listeners
  edits := fun v hv' => by
    rcases d.session.latestEdit?_applyEdit ⟨d.snapshot, ⟨version, text⟩, [change]⟩ with h | h
    · exact Int.le_of_lt (Int.lt_of_le_of_lt (hd.edits v (h.symm.trans hv')) hv)
    · exact Int.le_of_eq (Option.some_inj.mp (hv'.symm.trans h))

theorem Move.attached (h : s.Move t) (hs : s.Coherent) (ha : s.Attached) : t.Attached := by
  cases h with
  | idle h =>
    refine ⟨fun d hd => ha.documents d (h.documents ▸ hd), fun p hp => ?_⟩
    rw [h.documents]
    exact ha.publications p (h.publications ▸ hp)
  | look hd => exact ha.look hs hd _
  | release hd => exact ha.release hs hd
  | schedule hd => exact ha.schedule _
  | opened uri version text hu =>
    have hd : (s.fresh uri version text).Attached := ⟨rfl, fun v hv => by
      simp [fresh, OpenDocument.create, Session.listen] at hv⟩
    exact (ha.append hd _).schedule _
  | changed text change hd hv =>
    have hd' := attached_changed (ha.documents _ hd) hv text change
    refine Attached.schedule ?_ _
    exact ha.update hs hd rfl rfl rfl hd'
  | configured hp => exact ha.setDispatcher _

theorem Attached.put (h : s.Attached) {p : Publication} (hp : p.HeardBy s.documents)
    (place : Nat) : (s.put place p).Attached where
  documents := h.documents
  publications := fun q hq => by
    rcases List.mem_or_eq_of_mem_set hq with hq | rfl
    · exact h.publications q hq
    · exact hp

theorem Attached.discard (h : s.Attached) (place : Nat) : (s.discard place).Attached where
  documents := h.documents
  publications := fun q hq => h.publications q (List.mem_of_mem_eraseIdx hq)

theorem Progress.attached {place : Nat} {sent : List Message} (h : s.Progress place sent t)
    (hs : s.Coherent) (ha : s.Attached) : t.Attached := by
  cases h with
  | rest | wait => exact ha
  | capture hp hstage hd hserial =>
    have hc := (ha.publications _ (List.mem_of_getElem? hp)).capture hd hserial (ha.documents _ hd)
    exact ha.put hc place
  | drop => exact ha.discard place
  | share hp hstage hd hserial =>
    exact (ha.look hs hd _).put (Publication.heardBy_of_ne (by simp [examined])) place
  | examine => exact ha.put (Publication.heardBy_of_ne (by simp [examined])) place
  | check | abandon | send => exact ha.put (Publication.heardBy_of_ne (by simp)) place
  | record =>
    have ha' := ha.discard place
    exact ⟨ha'.documents, ha'.publications⟩

theorem Attached.next (ha : s.Attached) (hs : s.Coherent) (e : ServerEvent) :
    (s.next e).Attached :=
  hs.of_next ha (fun hm hu ha => hm.attached hu ha) (fun hp hu ha => hp.attached hu ha) e

theorem Attached.run (ha : s.Attached) (hs : s.Coherent) (es : List ServerEvent) :
    (s.run es).Attached := by
  induction es generalizing s with
  | nil => exact ha
  | cons e es ih => exact ih (ha.next hs e) (hs.next e)

theorem Coherent.notifies_next (hs : s.Coherent) (e : ServerEvent) :
    (s.next e).notifies = s.notifies :=
  hs.of_next (P := fun t => t.notifies = s.notifies) rfl (fun hm _ h => hm.notifies_eq.trans h)
    (fun hp _ h => hp.notifies_eq.trans h) e

theorem Coherent.notifies_run (hs : s.Coherent) (es : List ServerEvent) :
    (s.run es).notifies = s.notifies := by
  induction es generalizing s with
  | nil => rfl
  | cons e es ih => exact (ih (hs.next e)).trans (hs.notifies_next e)

end Server

/-! ## What is announced -/

/-- Whether a message tells of changed tags. -/
def Message.isTagsChanged : Message → Bool
  | .tagsChanged .. => true
  | .diagnostics .. => false

/-- What has to be announced when a document is changed: the range of the impact, if there is one. A
change that is refused is not announced. -/
def Snapshot.announced (x : Snapshot) (uri : Text) (version : Int) (changes : List ContentChange) :
    List Message :=
  if version ≤ x.version then []
  else match changedText x.text changes with
    | .error _ => []
    | .ok (text, change) =>
      match impact? (Document.parse x.text) (Document.parse text) [change] with
      | none => []
      | some span =>
        [.tagsChanged uri version
          ⟨text.positionAt span.start.toNat, text.positionAt span.stop.toNat⟩]

/-- What has to be announced when something happens. -/
def Desk.announced (k : Desk) : ServerEvent → List Message
  | .request _ (.didChange uri version changes) =>
    match k uri with
    | none => []
    | some x => x.announced uri version changes
  | _ => []

namespace Server

variable {s : Server} {d : OpenDocument}

theorem announcement_eq (hn : s.notifies = true) (hd : d.Attached)
    (hserves : d.session.Serves d.snapshot) {version : Int} (hv : d.version < version) {text : Text}
    {change : Change} (hc : change.Describes d.text text) :
    let r := (d.session.applyEdit ⟨d.snapshot, ⟨version, text⟩, [change]⟩).1
    s.announcement (changed d version text change) r.1 r.2 =
      match impact? (Document.parse d.text) (Document.parse text) [change] with
      | none => []
      | some span =>
        [.tagsChanged d.uri version
          ⟨text.positionAt span.start.toNat, text.positionAt span.stop.toNat⟩] := by
  have hnew : d.session.isStale ⟨d.snapshot, ⟨version, text⟩, [change]⟩ = false := by
    unfold Session.isStale
    cases hl : d.session.latestEdit? with
    | none => rfl
    | some v =>
      have := hd.edits v hl
      simp only [Option.any_some, decide_eq_false_iff_not]
      omega
  have hold : d.snapshot.text = d.text := rfl
  simp only [Session.applyEdit_current hserves hv hnew, hold]
  cases himpact : impact? (Document.parse d.text) (Document.parse text) [change] with
  | none => rfl
  | some span =>
    obtain ⟨p, tail, hbefore, hafter, hchanges⟩ := hc
    rw [hbefore, hafter, hchanges] at himpact
    obtain ⟨h₀, hle, h₁⟩ := Patch.impact?_bounds himpact
    rw [← hafter] at h₁
    have hrange := Text.rangeOf_eq h₀ hle h₁
    simp [announcement, changed, hn, hd.listeners, hrange]

theorem sent_didChange (hs : s.Coherent) (ha : s.Attached) (hn : s.notifies = true) (disk : Disk)
    (uri : Text) (version : Int) (changes : List ContentChange) :
    (s.handle disk (.didChange uri version changes)).sent =
      Desk.announced s.shown (.request disk (.didChange uri version changes)) := by
  rw [handle_didChange]
  simp only [Desk.announced, shown]
  obtain ⟨e, he, hnone | ⟨d, hf, hv, f, hc⟩⟩ | ⟨d, hf, hv, he⟩ |
    ⟨d, text, change, event?, heard, session, hf, hv, hc, hedit, he⟩ :=
    s.changeDocument_cases uri version changes
  · rw [he, hnone]
    rfl
  · have hv' : ¬ version ≤ d.snapshot.version := Int.not_le.mpr hv
    have hc' : changedText d.snapshot.text changes = .error f := hc
    simp only [he, hf, Option.map_some, Snapshot.announced, hv', if_false, hc']
    rfl
  · have hv' : version ≤ d.snapshot.version := hv
    simp only [he, hf, Option.map_some, Snapshot.announced, hv', if_true]
    rfl
  · obtain ⟨hd, rfl⟩ := mem_of_find? hf
    have hv' : ¬ version ≤ d.snapshot.version := Int.not_le.mpr hv
    have hc' : changedText d.snapshot.text changes = .ok (text, change) := hc
    have hannounced := announcement_eq hn (ha.documents d hd) (hs.documents d hd).serves hv
      (changedText_describes hc)
    simp only [hedit] at hannounced
    obtain rfl : _ = session := congrArg Prod.snd hedit
    simp only [he, hf, Option.map_some, Snapshot.announced, hv', if_false, hc']
    exact hannounced

theorem tags_sent (hs : s.Coherent) (ha : s.Attached) (hn : s.notifies = true) (e : ServerEvent) :
    (s.sent e).filter Message.isTagsChanged = Desk.announced s.shown e := by
  cases e with
  | background place =>
    have hp := s.progress_step place
    simp only [sent, Desk.announced]
    generalize (s.step place).1 = sent, (s.step place).2 = t at hp
    cases hp <;> rfl
  | request disk r =>
    cases r with
    | didChange uri version changes =>
      rw [sent, sent_didChange hs ha hn]
      simp only [Desk.announced]
      cases s.shown uri with
      | none => rfl
      | some x =>
        simp only [Snapshot.announced]
        repeat' split
        all_goals rfl
    | start root options =>
      rw [sent, handle_start]
      rfl
    | didChangeConfiguration settings =>
      rw [sent, handle_didChangeConfiguration]
      rfl
    | didClose uri =>
      have hclose : s.sent (.request disk (.didClose uri)) =
          (s.forget uri).unlock.1 ++ [.diagnostics uri 0 []] := rfl
      rw [hclose]
      obtain ⟨-, h⟩ | ⟨place, p, version, items, -, -, h⟩ := (s.forget uri).unlock_cases
      · rw [h]
        rfl
      · rw [h]
        rfl
    | _ => rfl

/-- **Every change that is taken over is announced once.** After any events, whatever happens next
sends exactly the announcement that the client's own messages ask for: one for a change that is not
refused and has an impact, with the range of the impact, and none otherwise. The server listens to
the session of every open document once, and nobody hears of an edit of a session that has been
replaced or whose document has been closed. -/
theorem announced_once (identity : Text) (logLevel : LogLevel) (es : List ServerEvent) :
    let s := ({ identity, notifies := true, logLevel } : Server).run es
    let desk := Desk.run (fun _ => none) es
    (∀ e, (s.sent e).filter Message.isTagsChanged = desk.announced e) ∧
    (∀ d ∈ s.documents, d.session.listeners = [d.listener]) ∧
    ∀ p ∈ s.publications, ∀ x session sessions, p.stage = .captured x session sessions →
      (∀ d ∈ s.documents, d.serial = p.serial → d.sessions ≠ sessions) →
      ∀ edit, (session.applyEdit edit).1.2 = [] := by
  intro s desk
  have h₀ := coherent_fresh identity true logLevel
  have ha₀ : ({ identity, notifies := true, logLevel } : Server).Attached :=
    ⟨by simp, by simp⟩
  have hs : s.Coherent := h₀.run es
  have ha : s.Attached := ha₀.run h₀ es
  have hn : s.notifies = true := h₀.notifies_run es
  have hshown : s.shown = desk := h₀.shown_run es
  refine ⟨fun e => hshown ▸ tags_sent hs ha hn e, fun d hd => (ha.documents d hd).listeners, ?_⟩
  intro p hp x session sessions hstage hgone edit
  rcases ha.publications p hp x session sessions hstage with hnone | ⟨d, hd, hserial, hn', -⟩
  · exact Session.heard_applyEdit hnone edit
  · exact absurd hn' (hgone d hd hserial)

/-- A document is opened, a publication takes its session, and new settings replace the session. -/
def replacedSession (disk : Disk) (uri : Text) : List ServerEvent :=
  [.request disk (.didOpen uri 1 (utf8 "allow: /a")), .background 0,
    .request disk (.didChangeConfiguration none)]

theorem announced_once_replaced :
    let disk : Disk := ⟨fun _ => .ok [], fun _ => .ok 0⟩
    let s := ({ identity := utf8 "a", notifies := true, logLevel := .info } : Server).run
      (replacedSession disk (utf8 "u"))
    (s.sent (.request disk (.didChange (utf8 "u") 2 [⟨none, utf8 "allow: /b"⟩]))).filter
        Message.isTagsChanged = [.tagsChanged (utf8 "u") 2 ⟨⟨0, 0⟩, ⟨0, 9⟩⟩] ∧
      ∃ p ∈ s.publications, ∃ x session sessions, p.stage = .captured x session sessions ∧
        ∀ edit, (session.applyEdit edit).1.2 = [] := by
  intro disk s
  obtain ⟨hsent, -, hsilent⟩ :=
    announced_once (utf8 "a") .info (replacedSession disk (utf8 "u"))
  have hold : ∃ p ∈ s.publications, ∃ n ∈ p.taken?, ∀ d ∈ s.documents, d.sessions ≠ n := by
    decide +kernel
  obtain ⟨p, hp, n, hn, hgone⟩ := hold
  obtain ⟨x, session, hstage⟩ := Publication.stage_of_taken? hn
  refine ⟨(hsent _).trans (by decide +kernel), p, hp, x, session, n, hstage, ?_⟩
  exact hsilent p hp x session n hstage fun d hd _ => hgone d hd

end Server

end RobotsTxt
