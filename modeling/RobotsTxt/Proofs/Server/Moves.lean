import Mathlib.Logic.Relation
import RobotsTxt.Proofs.Analyzer.Builtin
import RobotsTxt.Proofs.Server.Coherence
import RobotsTxt.Proofs.Server.Operations

/-!
# What can happen to a server

Every request comes down to a few elementary moves, and a step in the background is one of a few
kinds. What holds of all reachable states is shown for each of these alone.

* `Server.Move`: one thing that a request may do to the documents and the publications.
* `Server.Progress`: what a step in the background does.
* **`Server.handle_cases`**: a request opens a document, closes one, or is a chain of moves.
* **`Server.progress_step`**: a step in the background makes progress.
* `Server.Move.origin`, `Server.Progress.origin`: every open document is a later state of one that
  was open before, or a new one.
* **`Server.Coherent.of_handle`**: what every move keeps, every request keeps.
-/

namespace RobotsTxt

theorem OpenDocument.Becomes.refl (d : OpenDocument) : d.Becomes d := ⟨rfl, rfl, .refl _⟩

namespace Server

open Relation

/-! ## Moves -/

/-- Two states with the same documents and publications. -/
structure Alike (s t : Server) : Prop where
  documents : t.documents = s.documents
  publications : t.publications = s.publications
  dispatcher : t.dispatcher = s.dispatcher
  nextSerial : t.nextSerial = s.nextSerial
  notifies : t.notifies = s.notifies

/-- A document after a change to a newer version. -/
def changed (d : OpenDocument) (version : Int) (text : Text) (change : Change) : OpenDocument :=
  { d with
    version, text
    session := (d.session.applyEdit ⟨d.snapshot, ⟨version, text⟩, [change]⟩).2 }

/-- The document that is opened next. -/
def fresh (s : Server) (uri : Text) (version : Int) (text : Text) : OpenDocument :=
  .create s.nextSerial uri version text s.dispatcher

/-- **One thing that a request may do.** -/
inductive Move (s : Server) : Server → Prop
  | idle {t : Server} : s.Alike t → s.Move t
  /-- A document is looked at, so that its session may keep one more tree. -/
  | look {d : OpenDocument} : d ∈ s.documents →
      s.Move (s.update { d with session := (d.session.tree d.snapshot).2 })
  | release {d : OpenDocument} : d ∈ s.documents → s.Move (s.release d)
  | schedule {d : OpenDocument} : d ∈ s.documents → s.Move (s.schedule d)
  | opened (uri : Text) (version : Int) (text : Text) : (∀ e ∈ s.documents, e.uri ≠ uri) →
      s.Move ({ s with
        documents := s.documents ++ [s.fresh uri version text]
        nextSerial := s.nextSerial + 1 }.schedule (s.fresh uri version text))
  | changed {d : OpenDocument} {version : Int} (text : Text) (change : Change) : d ∈ s.documents →
      d.version < version →
      s.Move ((s.update (changed d version text change)).schedule (changed d version text change))
  | configured {dispatcher : Dispatcher} : dispatcher.Pinned → s.Move (s.setDispatcher dispatcher)

theorem scheduleAll_eq (s : Server) (ds : List OpenDocument) : s.scheduleAll ds =
    { s with
      publications := s.publications ++ ds.map fun d => { serial := d.serial, uri := d.uri } } := by
  induction ds generalizing s with
  | nil => simp [scheduleAll]
  | cons d ds ih => simp [scheduleAll, ih, Server.schedule]

/-- Some moves, one after the other. -/
abbrev Moves : Server → Server → Prop := ReflTransGen Move

variable {s t : Server}

theorem Alike.move (h : s.Alike t) : s.Moves t := .single (.idle h)

theorem Move.coherent (h : s.Move t) (hs : s.Coherent) : t.Coherent := by
  cases h with
  | idle h => exact hs.congr h.documents h.publications h.dispatcher h.nextSerial
  | look hd => exact hs.update hd ⟨rfl, rfl, .refl _⟩ ((hs.documents _ hd).look (.refl _))
  | release hd => exact hs.release _
  | schedule hd => exact hs.schedule (hs.opened _ hd)
  | opened uri version text hu =>
    exact (hs.append rfl hu (OpenDocument.coherent_create ..)).schedule (Nat.lt_succ_self _)
  | @changed d version text change hd hv =>
    have hb : d.Becomes (Server.changed d version text change) := ⟨rfl, rfl, .inl hv⟩
    exact (hs.update hd hb ((hs.documents d hd).change hv text change)).schedule (hs.opened d hd)
  | configured hp => exact hs.setDispatcher _

theorem Coherent.of_moves {P : Server → Prop} (hs : s.Coherent) (hp : P s)
    (hmove : ∀ {u v : Server}, u.Move v → u.Coherent → P u → P v) (h : s.Moves t) : P t := by
  suffices hboth : t.Coherent ∧ P t from hboth.2
  induction h with
  | refl => exact ⟨hs, hp⟩
  | tail _ hm ih => exact ⟨hm.coherent ih.1, hmove hm ih.1 ih.2⟩

theorem Coherent.moves (hs : s.Coherent) (h : s.Moves t) : t.Coherent :=
  hs.of_moves hs (fun hm hu _ => hm.coherent hu) h

/-- Every open document is a later state of one that was open before, or a new one. -/
theorem Move.origin (h : s.Move t) : s.nextSerial ≤ t.nextSerial ∧
    ∀ e ∈ t.documents, (∃ d ∈ s.documents, d.Becomes e) ∨ e.serial = s.nextSerial := by
  have hself : ∀ e ∈ s.documents, (∃ d ∈ s.documents, d.Becomes e) ∨ e.serial = s.nextSerial :=
    fun e he => .inl ⟨e, he, .refl e⟩
  have hupdate : ∀ {d d' : OpenDocument}, d ∈ s.documents → d.Becomes d' →
      ∀ e ∈ (s.update d').documents,
        (∃ d ∈ s.documents, d.Becomes e) ∨ e.serial = s.nextSerial := by
    intro d d' hd hb e he
    rcases mem_update he with rfl | ⟨he, -⟩
    · exact .inl ⟨d, hd, hb⟩
    · exact hself e he
  have hattach : ∀ dispatcher, ∀ e ∈ (s.setDispatcher dispatcher).documents,
      (∃ d ∈ s.documents, d.Becomes e) ∨ e.serial = s.nextSerial := by
    intro dispatcher e he
    obtain ⟨d, hd, rfl⟩ := List.mem_map.mp he
    exact .inl ⟨d, hd, rfl, rfl, .refl _⟩
  cases h with
  | idle h =>
    rw [h.documents, h.nextSerial]
    exact ⟨Nat.le_refl _, hself⟩
  | look hd => exact ⟨Nat.le_refl _, hupdate hd ⟨rfl, rfl, .refl _⟩⟩
  | release hd => exact ⟨Nat.le_refl _, fun e he => hself e (List.mem_filter.mp he).1⟩
  | schedule hd => exact ⟨Nat.le_refl _, hself⟩
  | opened uri version text hu =>
    refine ⟨Nat.le_succ _, fun e he => ?_⟩
    rcases List.mem_append.mp he with he | he
    · exact hself e he
    · rw [List.mem_singleton.mp he]
      exact .inr rfl
  | changed text change hd hv => exact ⟨Nat.le_refl _, hupdate hd ⟨rfl, rfl, .inl hv⟩⟩
  | configured hp => exact ⟨Nat.le_refl _, hattach _⟩

theorem Move.notifies_eq (h : s.Move t) : t.notifies = s.notifies := by
  cases h with
  | idle h => exact h.notifies
  | _ => rfl

theorem moves_forget (s : Server) (uri : Text) : s.Moves (s.forget uri) := by
  unfold Server.forget
  cases hf : s.find? uri with
  | none => exact Alike.move ⟨rfl, rfl, rfl, rfl, rfl⟩
  | some d =>
    have hr : s.Moves (s.release d) := .single (.release (mem_of_find? hf).1)
    exact hr.tail (.idle ⟨rfl, rfl, rfl, rfl, rfl⟩)

theorem moves_forgetAll (s : Server) (uris : List Text) : s.Moves (s.forgetAll uris) := by
  induction uris generalizing s with
  | nil => exact .refl
  | cons uri uris ih => exact (s.moves_forget uri).trans (ih _)

theorem Coherent.moves_openDocument (h : s.Coherent) (uri : Text) (version : Int) (text : Text) :
    s.Moves (s.openDocument uri version text) := by
  unfold Server.openDocument
  cases hf : s.find? uri with
  | none => exact .single (.opened uri version text (uri_ne_of_find? hf))
  | some old =>
    have hr : s.Moves (s.release old) := .single (.release (mem_of_find? hf).1)
    exact hr.tail (.opened uri version text (h.uri_ne_of_release hf))

theorem moves_scheduleAll (s : Server) {ds : List OpenDocument} (h : ∀ d ∈ ds, d ∈ s.documents) :
    s.Moves (s.scheduleAll ds) := by
  induction ds generalizing s with
  | nil => exact .refl
  | cons d ds ih =>
    have hd : s.Moves (s.schedule d) := .single (.schedule (h d List.mem_cons_self))
    exact hd.trans (ih _ fun e he => h e (List.mem_cons_of_mem _ he))

theorem moves_changeDocument (s : Server) (uri : Text) (version : Int)
    (changes : List ContentChange) :
    s.Moves (s.perform (changeDocument uri version changes)).2 := by
  obtain ⟨e, h, -⟩ | ⟨d, hf, -, h⟩ |
    ⟨d, text, change, event?, heard, session, hf, hv, -, hedit, h⟩ :=
    s.changeDocument_cases uri version changes
  · rw [h]
  · rw [h]
    exact .single (.schedule (mem_of_find? hf).1)
  · obtain rfl : _ = session := congrArg Prod.snd hedit
    rw [h]
    exact .single (.changed text change (mem_of_find? hf).1 hv)

theorem moves_adopt {settings : Settings} {disk : Disk} (level? : Option LogLevel)
    {dispatcher : Dispatcher} (h : settings.dispatcher disk = .ok dispatcher) :
    s.Moves (s.adopt settings level? dispatcher) := by
  have halike : s.Alike { s with logLevel := level?.getD s.logLevel, settings } :=
    ⟨rfl, rfl, rfl, rfl, rfl⟩
  exact halike.move.tail (.configured (Settings.pinned_dispatcher h))

theorem moves_applySettings (s : Server) (disk : Disk) (given : Settings) :
    s.Moves (s.perform (applySettings disk given)).2 := by
  obtain ⟨e, h, -⟩ | ⟨level?, dispatcher, -, hdispatcher, h⟩ := s.applySettings_cases disk given
  · rw [h]
  · rw [h]
    exact moves_adopt level? hdispatcher

theorem moves_configure (s : Server) (disk : Disk) (sent : Option Json) :
    s.Moves (s.perform (configure disk sent)).2 := by
  obtain ⟨e, h, -⟩ | ⟨given, level?, dispatcher, -, -, hdispatcher, h⟩ :=
    s.configure_cases disk sent
  · rw [h]
  · rw [h]
    exact (moves_adopt level? hdispatcher).trans (moves_scheduleAll _ fun _ hd => hd)

theorem moves_start (s : Server) (disk : Disk) (root : Text) (options : Option Json) :
    s.Moves (s.perform (start disk root options)).2 := by
  obtain h | ⟨rootConfigFile, given, h⟩ := s.start_cases disk root options
  · rw [h]
  · rw [h]
    have halike : s.Alike { s with rootConfigFile } := ⟨rfl, rfl, rfl, rfl, rfl⟩
    exact halike.move.trans (moves_applySettings _ disk given)

theorem moves_ask (s : Server) (uri : Text) (question : Text → Except Fault Query) :
    s.Moves (s.ask uri question).2 := by
  unfold Server.ask
  split
  · exact .refl
  · next d hf =>
    split
    · exact .refl
    · exact .single (.look (mem_of_find? hf).1)

theorem moves_pull (s : Server) (uri previous : Text) : s.Moves (s.pull uri previous).2 := by
  simp only [Server.pull]
  split
  · exact .refl
  · exact s.moves_ask uri _

/-- **What a request does to the state**: it opens a document, closes one, or makes some moves. -/
theorem handle_cases (s : Server) (disk : Disk) (r : Request) :
    (∃ uri version text, r = .didOpen uri version text ∧
      (s.handle disk r).server = s.openDocument uri version text) ∨
    (∃ uri, r = .didClose uri ∧ (s.handle disk r).server = (s.forget uri).unlock.2) ∨
    (∀ uri, r ≠ .didClose uri) ∧ s.Moves (s.handle disk r).server := by
  cases r with
  | start root options =>
    rw [handle_start]
    exact .inr (.inr ⟨by simp, s.moves_start disk root options⟩)
  | initialized | exit | didSave => exact .inr (.inr ⟨by simp, .refl⟩)
  | shutdown =>
    have hdown : s.Alike { s with isShutDown := true } := ⟨rfl, rfl, rfl, rfl, rfl⟩
    exact .inr (.inr ⟨by simp, hdown.move.trans (moves_forgetAll _ _)⟩)
  | didOpen uri version text => exact .inl ⟨uri, version, text, rfl, rfl⟩
  | didChange uri version changes =>
    rw [handle_didChange]
    exact .inr (.inr ⟨by simp, s.moves_changeDocument uri version changes⟩)
  | didClose uri => exact .inr (.inl ⟨uri, rfl, rfl⟩)
  | didChangeConfiguration settings =>
    rw [handle_didChangeConfiguration]
    exact .inr (.inr ⟨by simp, s.moves_configure disk settings⟩)
  | semanticTokens uri range? | documentHighlight uri p | formatting uri | hover uri p
  | documentSymbol uri | documentLink uri | completion uri p =>
    exact .inr (.inr ⟨by simp, s.moves_ask uri _⟩)
  | diagnostic uri previous => exact .inr (.inr ⟨by simp, s.moves_pull uri previous⟩)

theorem Coherent.moves_handle (h : s.Coherent) (disk : Disk) {r : Request}
    (hr : ∀ uri, r ≠ .didClose uri) : s.Moves (s.handle disk r).server := by
  obtain ⟨uri, version, text, -, hopen⟩ | ⟨uri, hclose, -⟩ | ⟨-, hmoves⟩ := s.handle_cases disk r
  · rw [hopen]
    exact h.moves_openDocument uri version text
  · exact absurd hclose (hr uri)
  · exact hmoves

/-! ## Steps in the background -/

/-- The publication with the diagnostics that a session finds in a version. -/
def examined (p : Publication) (session : Session) (x : Snapshot) : Publication :=
  { p with
    stage := .computed x.version (markers x.text (session.analyze x ⟨0, x.text.length⟩).1) }

/-- **What the publication at a place does next**: the messages that are sent, and the state after
it. -/
inductive Progress (s : Server) (place : Nat) : List Message → Server → Prop
  | rest : s.publications[place]? = none → s.Progress place [] s
  | capture {p : Publication} {d : OpenDocument} : s.publications[place]? = some p →
      p.stage = .waiting → d ∈ s.documents → d.serial = p.serial →
      s.Progress place [] (s.put place (p.capture d))
  | drop {p : Publication} : s.publications[place]? = some p → p.stage = .waiting →
      (∀ d ∈ s.documents, d.serial ≠ p.serial) → s.Progress place [] (s.discard place)
  /-- The document still has the session that has been taken. -/
  | share {p : Publication} {d : OpenDocument} {x : Snapshot} {session : Session} :
      s.publications[place]? = some p → p.stage = .captured x session d.sessions →
      d ∈ s.documents → d.serial = p.serial →
      s.Progress place [] ((s.update { d with session := (d.session.tree x).2 }).put place
        (examined p d.session x))
  | examine {p : Publication} {x : Snapshot} {session : Session} {sessions : Nat} :
      s.publications[place]? = some p → p.stage = .captured x session sessions →
      s.Progress place [] (s.put place (examined p session x))
  /-- Another publication holds the lock. -/
  | wait {p : Publication} {version : Int} {items : Except SpanFault (List Marker)} :
      s.publications[place]? = some p → p.stage = .computed version items →
      s.isPublishing = true → s.Progress place [] s
  | check {p : Publication} {version : Int} {items : List Marker} :
      s.publications[place]? = some p → p.stage = .computed version (.ok items) →
      s.isPublishing = false → s.isCurrent p version = true →
      s.Progress place [] (s.put place { p with stage := .checked version items })
  /-- There are no diagnostics, or they are out of date. -/
  | abandon {p : Publication} {version : Int} {items : Except SpanFault (List Marker)} :
      s.publications[place]? = some p → p.stage = .computed version items →
      (∀ found, items = .ok found → s.isPublishing = false ∧ s.isCurrent p version = false) →
      s.Progress place [] (s.put place { p with stage := .done version })
  | send {p : Publication} {version : Int} {items : List Marker} :
      s.publications[place]? = some p → p.stage = .checked version items →
      s.Progress place [.diagnostics p.uri version items]
        (s.put place { p with stage := .done version })
  | record {p : Publication} {version : Int} : s.publications[place]? = some p →
      p.stage = .done version →
      s.Progress place []
        ({ s with versions := (s.versions.update p.uri (.handled version)).2 }.discard place)

theorem put_self {p : Publication} {place : Nat} (h : s.publications[place]? = some p) :
    s.put place p = s := by
  obtain ⟨hlt, rfl⟩ := List.getElem?_eq_some_iff.mp h
  rw [put, List.set_getElem_self]

/-- **A step in the background makes progress.** -/
theorem progress_step (s : Server) (place : Nat) :
    s.Progress place (s.step place).1 (s.step place).2 := by
  unfold Server.step
  cases hp : s.publications[place]? with
  | none => exact .rest hp
  | some p =>
    simp only [Server.advance]
    cases hstage : p.stage with
    | waiting =>
      simp only
      cases hf : s.findSerial? p.serial with
      | none =>
        refine .drop hp hstage fun d hd => ?_
        simpa using List.find?_eq_none.mp hf d hd
      | some d =>
        obtain ⟨hd, hserial⟩ := mem_of_findSerial? hf
        exact .capture hp hstage hd hserial
    | captured x session sessions =>
      simp only [Server.compute]
      split
      · next d hd =>
        obtain ⟨hf, hn⟩ := Option.filter_eq_some_iff.mp hd
        obtain ⟨hmem, hserial⟩ := mem_of_findSerial? hf
        obtain rfl : d.sessions = sessions := by simpa using hn
        exact .share hp hstage hmem hserial
      · exact .examine hp hstage
    | computed version items =>
      cases items with
      | error e => exact .abandon hp hstage (by simp)
      | ok items =>
        simp only
        by_cases hlock : s.isPublishing = true
        · rw [if_pos hlock]
          have hwait : s.Progress place [] (s.put place p) := by
            rw [put_self hp]
            exact .wait hp hstage hlock
          exact hwait
        · rw [if_neg hlock]
          have hfree := eq_false_of_ne_true hlock
          by_cases hcurrent : s.isCurrent p version = true
          · rw [if_pos hcurrent]
            exact .check hp hstage hfree hcurrent
          · rw [if_neg hcurrent]
            exact .abandon hp hstage fun _ _ => ⟨hfree, eq_false_of_ne_true hcurrent⟩
    | checked version items => exact .send hp hstage
    | done version => exact .record hp hstage

/-- Who waits for the lock waits for the one publication that holds it, if there is one. -/
theorem unlock_cases (s : Server) :
    ((∀ p ∈ s.publications, p.isChecked = false) ∧ s.unlock = ([], s)) ∨
    ∃ place p version items, s.publications[place]? = some p ∧ p.stage = .checked version items ∧
      s.unlock = ([.diagnostics p.uri version items],
        s.put place { p with stage := .done version }) := by
  unfold unlock
  cases hfind : s.publications.findIdx? Publication.isChecked with
  | none => exact .inl ⟨List.findIdx?_eq_none_iff.mp hfind, rfl⟩
  | some place =>
    obtain ⟨hlt, hchecked, -⟩ := List.findIdx?_eq_some_iff_getElem.mp hfind
    have hp : s.publications[place]? = some s.publications[place] := List.getElem?_eq_getElem hlt
    unfold Publication.isChecked at hchecked
    cases hstage : s.publications[place].stage with
    | checked version items =>
      refine .inr ⟨place, _, version, items, hp, hstage, ?_⟩
      simp only [step, hp, advance, hstage]
      rfl
    | _ => simp [hstage] at hchecked

theorem Progress.coherent {place : Nat} {sent : List Message} (h : s.Progress place sent t)
    (hs : s.Coherent) : t.Coherent := by
  cases h with
  | rest | wait => exact hs
  | @capture p d hplace hstage hd hserial =>
    have hcap : (p.capture d).stage = .captured d.snapshot d.session d.sessions := by
      simp [Publication.capture, hstage]
    refine hs.put hplace (p.serial_capture d) (fun e he hse x session sessions hx => ?_)
      fun hc => ?_
    · rw [p.serial_capture] at hse
      rw [← hs.eq_of_serial hd he (hserial.trans hse)]
      rw [hcap] at hx
      rw [← (Stage.captured.inj hx).1]
      exact .refl _
    · simp [Publication.isChecked, hcap] at hc
  | drop hplace => exact hs.discard place
  | @share p d x session hplace hstage hd hserial =>
    have hup := hs.trails p (List.mem_of_getElem? hplace) d hd hserial.symm x session _ hstage
    have hlook : (s.update { d with session := (d.session.tree x).2 }).Coherent :=
      hs.update hd ⟨rfl, rfl, .refl _⟩ ((hs.documents d hd).look hup)
    exact hlook.put hplace rfl (fun _ _ _ _ _ _ hx => by simp [examined] at hx)
      (by simp [Publication.isChecked, examined])
  | examine hplace =>
    exact hs.put hplace rfl (fun _ _ _ _ _ _ hx => by simp [examined] at hx)
      (by simp [Publication.isChecked, examined])
  | check hplace hstage hlock =>
    exact hs.put hplace rfl (fun _ _ _ _ _ _ hx => by simp at hx) fun _ => hlock
  | abandon hplace | send hplace =>
    exact hs.put hplace rfl (fun _ _ _ _ _ _ hx => by simp at hx) (by simp [Publication.isChecked])
  | record hplace =>
    have hd := hs.discard place
    exact hd.congr rfl rfl rfl rfl

/-- **Background work keeps a server coherent.** -/
theorem Coherent.step (h : s.Coherent) (place : Nat) : (s.step place).2.Coherent :=
  (s.progress_step place).coherent h

theorem Progress.origin {place : Nat} {sent : List Message} (h : s.Progress place sent t) :
    t.nextSerial = s.nextSerial ∧ ∀ e ∈ t.documents, ∃ d ∈ s.documents, d.Becomes e := by
  cases h with
  | share hp hstage hd hserial =>
    refine ⟨rfl, fun e he => ?_⟩
    rcases mem_update he with rfl | ⟨he, -⟩
    · exact ⟨_, hd, rfl, rfl, .refl _⟩
    · exact ⟨e, he, .refl e⟩
  | _ => exact ⟨rfl, fun e he => ⟨e, he, .refl e⟩⟩

theorem Progress.notifies_eq {place : Nat} {sent : List Message} (h : s.Progress place sent t) :
    t.notifies = s.notifies := by
  cases h <;> rfl

/-! ## What is kept -/

/-- **What every move keeps, every request keeps**, if it does not matter whether the publication
that holds the lock has sent its diagnostics. -/
theorem Coherent.of_handle {P : Server → Prop} (hs : s.Coherent) (hp : P s)
    (hmove : ∀ {u v : Server}, u.Move v → u.Coherent → P u → P v)
    (hsend : ∀ {u : Server} {place : Nat} {p : Publication} {version : Int} {items : List Marker},
      u.publications[place]? = some p → p.stage = .checked version items → u.Coherent → P u →
      P (u.put place { p with stage := .done version })) (disk : Disk) (r : Request) :
    P (s.handle disk r).server := by
  by_cases hclose : ∀ uri, r ≠ .didClose uri
  · exact hs.of_moves hp hmove (hs.moves_handle disk hclose)
  · obtain ⟨uri, rfl⟩ := not_forall_not.mp hclose
    have hforget := hs.moves (s.moves_forget uri)
    have hkept : P (s.forget uri) := hs.of_moves hp hmove (s.moves_forget uri)
    change P (s.forget uri).unlock.2
    obtain ⟨-, h⟩ | ⟨place, p, version, items, hplace, hstage, h⟩ := (s.forget uri).unlock_cases
    · rwa [h]
    · rw [h]
      exact hsend hplace hstage hforget hkept

end Server

end RobotsTxt
