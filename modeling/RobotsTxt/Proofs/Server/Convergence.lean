import RobotsTxt.Proofs.Server.Publications
import RobotsTxt.Proofs.Server.Reports

/-!
# Published diagnostics and new settings

What a publication sends is checked against the version of its document, but not against the
analyzers: a publication that has taken a document before new settings are taken over may be checked
after the one that the settings have started. Then the client is left with what the old analyzers
have found.

* `Publication.Fits.untaken`, `Server.Tracked.renew`: as long as no publication has taken the
  current version of a document, any analyzers are suitable.
* `Server.Orderly`: an event that finds no such publication when it brings new analyzers.
* **`Server.Tracked.next_orderly`**, **`Server.Tracked.run_orderly`**: an orderly run keeps up with
  the settings.
* **`Server.published_converges`**: what the last diagnostics are, and when they are up to date.
-/

namespace RobotsTxt

/-- A publication that has not taken a version is right about it, whatever the analyzers. -/
theorem Publication.Fits.untaken {p : Publication} {good good' : Suitable} {n : Nat} {x : Snapshot}
    (h : p.Fits good n x) (hne : p.version? ≠ some x.version) : p.Fits good' n x := by
  unfold Fits at h ⊢
  unfold version? at hne
  cases hstage : p.stage with
  | waiting | checked | done => trivial
  | captured y session sessions =>
    rw [hstage] at h hne
    exact ⟨h.1, fun heq => absurd (by rw [heq]) hne⟩
  | computed version items =>
    rw [hstage] at h hne
    exact ⟨h.1, fun heq => absurd (by rw [heq]) hne⟩

/-- Whether an event begins the work in a workspace. -/
def ServerEvent.starts : ServerEvent → Bool
  | .request _ (.start _ _) => true
  | _ => false

namespace Server

variable {s t : Server} {d : OpenDocument} {good good' : Suitable} {h : List Notice}

/-! ## Orderly runs -/

/-- No publication has taken the current version of an open document without having checked it. -/
def Untaken (s : Server) : Prop :=
  ∀ p ∈ s.publications, ∀ d ∈ s.documents, p.serial = d.serial → p.version? ≠ some d.version

instance (s : Server) : Decidable s.Untaken :=
  inferInstanceAs (Decidable (∀ p ∈ s.publications, ∀ d ∈ s.documents,
    p.serial = d.serial → p.version? ≠ some d.version))

/-- When each open document waits for a publication that has not taken anything yet, any other
analyzers will do. -/
theorem Tracked.renew (ht : s.Tracked good h) (huntaken : s.Untaken)
    (hwait : ∀ d ∈ s.documents, ∃ p ∈ s.publications, p.serial = d.serial ∧ p.stage = .waiting) :
    s.Tracked good' h where
  coherent := ht.coherent
  pinned := ht.pinned
  fits := fun p hp d hd hs =>
    ⟨(ht.fits p hp d hd hs).1, (ht.fits p hp d hd hs).2.untaken (huntaken p hp d hd hs)⟩
  due := fun d hd => by
    obtain ⟨p, hp, hs, hstage⟩ := hwait d hd
    exact .inl ⟨p, hp, hs, Publication.leads_of_waiting hstage⟩

theorem Untaken.setDispatcher (h : s.Untaken) (dispatcher : Dispatcher) :
    (s.setDispatcher dispatcher).Untaken := by
  intro q hq e he hs
  obtain ⟨p, hp, rfl⟩ := List.mem_map.mp hq
  obtain ⟨d, hd, rfl⟩ := List.mem_map.mp he
  have hquiet := p.quiets_foldl s.documents
  rw [hquiet.version?_eq]
  exact h p hp d hd (hquiet.serial.symm.trans hs)

theorem Untaken.scheduleAll (h : s.Untaken) (ds : List OpenDocument) :
    (s.scheduleAll ds).Untaken := by
  rw [scheduleAll_eq]
  intro q hq e he hs
  rcases List.mem_append.mp hq with hq | hq
  · exact h q hq e he hs
  · obtain ⟨d, hd, rfl⟩ := List.mem_map.mp hq
    simp [Publication.version?]

/-- An event that brings new analyzers only when no publication has taken a document under the old
ones and not checked it yet. Work is begun before a document is open. -/
def Orderly (s : Server) (e : ServerEvent) : Prop :=
  (e.starts = true → s.documents = []) ∧ (e.configures = true → s.Untaken)

instance (s : Server) (e : ServerEvent) : Decidable (s.Orderly e) :=
  inferInstanceAs (Decidable ((e.starts = true → s.documents = []) ∧
    (e.configures = true → s.Untaken)))

/-- A run in which every event is orderly. -/
def OrderlyRun : Server → List ServerEvent → Prop
  | _, [] => True
  | s, e :: es => s.Orderly e ∧ (s.next e).OrderlyRun es

instance decidableOrderlyRun : (s : Server) → (es : List ServerEvent) → Decidable (s.OrderlyRun es)
  | _, [] => inferInstanceAs (Decidable True)
  | s, e :: es =>
    have := decidableOrderlyRun (s.next e) es
    inferInstanceAs (Decidable (s.Orderly e ∧ (s.next e).OrderlyRun es))

/-- Analyzers that are the ones in force. -/
def inForce (dispatcher : Dispatcher) : Suitable := fun _ _ D => D = dispatcher

theorem Untaken.adopt (h : s.Untaken) (settings : Settings) (level? : Option LogLevel)
    (dispatcher : Dispatcher) : (s.adopt settings level? dispatcher).Untaken := by
  have hsame : Untaken { s with logLevel := level?.getD s.logLevel, settings } := h
  exact hsame.setDispatcher dispatcher

theorem Tracked.scheduleAll (ht : (s.scheduleAll s.documents).Tracked good h)
    (huntaken : s.Untaken) : (s.scheduleAll s.documents).Tracked good' h := by
  refine ht.renew (huntaken.scheduleAll _) fun d hd => ?_
  rw [scheduleAll_eq] at hd ⊢
  exact ⟨_, List.mem_append_right _ (List.mem_map_of_mem hd), rfl, rfl⟩

/-- **An orderly event keeps up with the settings.** -/
theorem Tracked.next_orderly (ht : s.Tracked (inForce s.dispatcher) h) {e : ServerEvent}
    (he : s.Orderly e) : (s.next e).Tracked (inForce (s.next e).dispatcher) (h ++ s.commits e) := by
  have hnext := ht.next (fun _ _ => rfl) e
  by_cases hd : (s.next e).dispatcher = s.dispatcher
  · rwa [hd]
  obtain ⟨n, hn, hr⟩ := s.exists_reconfigured_next e
  have hconf : e.configures = true := by
    cases hc : e.configures with
    | true => rfl
    | false =>
      rw [hc] at hn
      exact absurd (hr.dispatcher (Nat.le_zero.mp hn)) hd
  cases e with
  | background place => simp [ServerEvent.configures] at hconf
  | request disk r =>
    cases r with
    | start root options =>
      have hnone : (s.next (.request disk (.start root options))).documents = [] := by
        refine List.eq_nil_iff_forall_not_mem.mpr fun d hd => ?_
        have hshown := congrFun (ht.coherent.shown_next (.request disk (.start root options))) d.uri
        have hempty : s.documents = [] := he.1 rfl
        have hfind : s.find? d.uri = none := find?_eq_none (by simp [hempty])
        rw [shown, hnext.coherent.find?_eq hd, Desk.next, shown, hfind] at hshown
        · simp at hshown
        all_goals simp
      refine hnext.renew (fun p _ d hd => ?_) fun d hd => ?_
      · exact absurd (hnone ▸ hd) List.not_mem_nil
      · exact absurd (hnone ▸ hd) List.not_mem_nil
    | didChangeConfiguration settings =>
      rw [Server.next, handle_didChangeConfiguration] at hd hnext ⊢
      obtain ⟨f, hrefused, -⟩ | ⟨given, level?, dispatcher, -, -, -, htaken⟩ :=
        s.configure_cases disk settings
      · rw [hrefused] at hd
        exact absurd rfl hd
      · rw [htaken] at hnext ⊢
        exact hnext.scheduleAll ((he.2 rfl).adopt _ _ _)
    | _ => simp [ServerEvent.configures] at hconf

/-- **An orderly run keeps up with the settings.** -/
theorem Tracked.run_orderly (ht : s.Tracked (inForce s.dispatcher) h) {es : List ServerEvent}
    (hes : s.OrderlyRun es) :
    (s.run es).Tracked (inForce (s.run es).dispatcher) (h ++ s.commitments es) := by
  induction es generalizing s h with
  | nil =>
    rw [commitments, List.append_nil]
    exact ht
  | cons e es ih =>
    rw [commitments, ← List.append_assoc]
    exact ih (ht.next_orderly hes.1) hes.2

/-! ## The last diagnostics -/

/-- **What the last diagnostics are, and when they are up to date.** When no publication is under
way, the last diagnostics of an open document are those that the analyzers find that were in force
at some time since the document has its current text; and those that the analyzers in force now
find, if the settings have never been changed while a publication had taken the current text and not
checked it yet. -/
theorem published_converges (identity : Text) (notifies : Bool) (logLevel : LogLevel)
    (es : List ServerEvent) :
    let start : Server := { identity, notifies, logLevel }
    let s := start.run es
    s.publications = [] → ∀ d ∈ s.documents, ∃ items,
      Notice.last? (start.history es) d.uri = some (.posted d.serial d.uri d.version items) ∧
      (∃ before, before <+: es ∧
        (∃ e ∈ (start.run before).documents, e.serial = d.serial ∧ e.snapshot = d.snapshot) ∧
        d.snapshot.markersUnder (start.run before).dispatcher = .ok items) ∧
      (start.OrderlyRun es → d.snapshot.markersUnder s.dispatcher = .ok items) := by
  intro start s hnone d hd
  have htold : start.history es = start.commitments es := by
    rw [← history_fresh identity notifies logLevel es, held_of_publications hnone, List.append_nil]
  rw [htold]
  let seen : Suitable := fun n x dispatcher => ∃ before, before <+: es ∧
    (∃ e ∈ (start.run before).documents, e.serial = n ∧ e.snapshot = x) ∧
    (start.run before).dispatcher = dispatcher
  have hseen : s.Tracked seen (start.commitments es) :=
    (tracked_fresh identity notifies logLevel).run fun before hb e he =>
      ⟨before, hb, ⟨e, he, rfl, rfl⟩, rfl⟩
  obtain ⟨items, hlast, dispatcher, found, ⟨before, hb, hopen, rfl⟩, hfound, hitems⟩ :=
    hseen.last hnone hd
  refine ⟨items, hlast, ⟨before, hb, hopen, hfound.trans hitems.symm⟩, fun horderly => ?_⟩
  have hforce : s.Tracked (inForce s.dispatcher) (start.commitments es) :=
    (tracked_fresh identity notifies logLevel).run_orderly horderly
  obtain ⟨items', hlast', dispatcher', found', rfl, hfound', hitems'⟩ := hforce.last hnone hd
  rw [hlast, Option.some_inj] at hlast'
  obtain ⟨-, -, -, rfl⟩ := Notice.posted.inj hlast'
  exact hfound'.trans hitems'.symm

/-- Settings that turn off the analyzer for rules without an agent. -/
def withoutRecordStart : Json :=
  .ofFields [("analyzers", .ofFields [("record-start", .ofFields [("enabled", .bool false)])])]

/-- A document is published, and published again when the settings have changed. -/
def publishedInTurn (disk : Disk) : List ServerEvent :=
  .request disk (.didOpen (utf8 "u") 1 (utf8 "allow: /")) :: List.replicate 5 (.background 0) ++
    .request disk (.didChangeConfiguration (some withoutRecordStart)) ::
      List.replicate 5 (.background 0)

/-- The first publication takes the document before the settings change, and goes on after the
second one has ended. -/
def publishedCrosswise (disk : Disk) : List ServerEvent :=
  [.request disk (.didOpen (utf8 "u") 1 (utf8 "allow: /")), .background 0,
    .request disk (.didChangeConfiguration (some withoutRecordStart))] ++
  List.replicate 5 (.background 1) ++ List.replicate 4 (.background 0)

theorem published_converges_in_turn :
    let disk : Disk := ⟨fun _ => .ok [], fun _ => .ok 0⟩
    let start : Server := { identity := utf8 "a", notifies := true, logLevel := .info }
    let es := publishedInTurn disk
    let s := start.run es
    s.publications = [] ∧ start.OrderlyRun es ∧ ∀ d ∈ s.documents, ∃ items,
      Notice.last? (start.history es) d.uri = some (.posted d.serial d.uri d.version items) ∧
        d.snapshot.markersUnder s.dispatcher = .ok items := by
  intro disk start es s
  have hnone : s.publications = [] := List.eq_nil_of_length_eq_zero (by decide +kernel)
  have horderly : start.OrderlyRun es := by decide +kernel
  refine ⟨hnone, horderly, fun d hd => ?_⟩
  obtain ⟨items, hlast, -, hcurrent⟩ := published_converges (utf8 "a") true .info es hnone d hd
  exact ⟨items, hlast, hcurrent horderly⟩

/-- The last diagnostics are those of analyzers that are not in force any more. -/
theorem published_stale :
    let disk : Disk := ⟨fun _ => .ok [], fun _ => .ok 0⟩
    let start : Server := { identity := utf8 "a", notifies := true, logLevel := .info }
    let es := publishedCrosswise disk
    let s := start.run es
    s.publications = [] ∧ ∃ d ∈ s.documents, ∃ items,
      Notice.last? (start.history es) d.uri = some (.posted d.serial d.uri d.version items) ∧
        d.snapshot.markersUnder start.dispatcher = .ok items ∧ items ≠ [] ∧
        d.snapshot.markersUnder s.dispatcher = .ok [] := by
  intro disk start es s
  refine ⟨List.eq_nil_of_length_eq_zero (by decide +kernel), ?_⟩
  obtain ⟨d, hd, hserial, huri, hversion, htext⟩ : ∃ d ∈ s.documents, d.serial = 0 ∧
      d.uri = utf8 "u" ∧ d.version = 1 ∧ d.text = utf8 "allow: /" := by
    decide +kernel
  have hsnapshot : d.snapshot = ⟨1, utf8 "allow: /"⟩ := by
    rw [OpenDocument.snapshot, hversion, htext]
  let items : List Marker :=
    ((Snapshot.mk 1 (utf8 "allow: /")).markersUnder start.dispatcher).toOption.getD []
  refine ⟨d, hd, items, ?_, ?_, ?_, ?_⟩
  · rw [huri, hserial, hversion]
    decide +kernel
  · rw [hsnapshot]
    decide +kernel
  · decide +kernel
  · rw [hsnapshot]
    decide +kernel

end Server

end RobotsTxt
