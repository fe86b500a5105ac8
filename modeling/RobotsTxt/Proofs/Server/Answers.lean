import RobotsTxt.Proofs.Change.Content
import RobotsTxt.Proofs.Server.Moves

/-!
# What a client sees

The texts of the open documents follow from what the client has sent alone, and every answer is the
one that a fresh reading of the current text gives.

* `ServerEvent`, `Server.run`: requests and background work in any order.
* `Desk`: the current version of each open document, as the client's own messages tell it.
* **`Server.Coherent.shown_next`**: a server shows what the desk says.
* `Request.question?`: the requests that ask about a document.
-/

namespace RobotsTxt

/-! ## Runs -/

/-- What can happen to a server. -/
inductive ServerEvent where
  /-- A request comes in. -/
  | request (disk : Disk) (r : Request)
  /-- The publication at a place takes its next step. -/
  | background (place : Nat)

namespace Server

/-- The state after an event. -/
def next (s : Server) : ServerEvent → Server
  | .request disk r => (s.handle disk r).server
  | .background place => (s.step place).2

/-- The messages that an event sends. -/
def sent (s : Server) : ServerEvent → List Message
  | .request disk r => (s.handle disk r).sent
  | .background place => (s.step place).1

/-- The state after some events. -/
def run (s : Server) (es : List ServerEvent) : Server := es.foldl next s

/-- The current version of the document with a URI. -/
def shown (s : Server) (uri : Text) : Option Snapshot := (s.find? uri).map OpenDocument.snapshot

/-- **What moves and progress keep, every event keeps.** -/
theorem Coherent.of_next {s : Server} {P : Server → Prop} (hs : s.Coherent) (hp : P s)
    (hmove : ∀ {u v : Server}, u.Move v → u.Coherent → P u → P v)
    (hstep : ∀ {u v : Server} {place : Nat} {sent : List Message}, u.Progress place sent v →
      u.Coherent → P u → P v) (e : ServerEvent) : P (s.next e) := by
  cases e with
  | request disk r =>
    exact hs.of_handle hp hmove (fun hplace hstage => hstep (.send hplace hstage)) disk r
  | background place => exact hstep (s.progress_step place) hs hp

theorem Coherent.next {s : Server} (h : s.Coherent) (e : ServerEvent) : (s.next e).Coherent :=
  h.of_next h (fun hm _ hu => hm.coherent hu) (fun hp _ hu => hp.coherent hu) e

theorem Coherent.run {s : Server} (h : s.Coherent) (es : List ServerEvent) :
    (s.run es).Coherent := by
  induction es generalizing s with
  | nil => exact h
  | cons e es ih => exact ih (h.next e)

end Server

/-! ## The desk -/

/-- The version that a change leads to; none when the change is refused: it has nothing to do, its
number is not greater, or its ranges cannot be found. -/
def Snapshot.changed? (x : Snapshot) (version : Int) (changes : List ContentChange) :
    Option Snapshot :=
  if changes.isEmpty || version ≤ x.version then none
  else match ContentChange.applyAll x.text changes with
    | .ok text => some ⟨version, text⟩
    | .error _ => none

/-- The current version of each open document. -/
abbrev Desk := Text → Option Snapshot

namespace Desk

/-- The desk after an event: opening lays a text down, a change that is not refused replaces it, and
closing takes it away. -/
def next (k : Desk) : ServerEvent → Desk
  | .request _ (.didOpen uri version text) => Function.update k uri (some ⟨version, text⟩)
  | .request _ (.didChange uri version changes) =>
    match (k uri).bind fun x => x.changed? version changes with
    | some y => Function.update k uri (some y)
    | none => k
  | .request _ (.didClose uri) => Function.update k uri none
  | .request _ .shutdown => fun _ => none
  | _ => k

/-- The desk after some events. -/
def run (k : Desk) (es : List ServerEvent) : Desk := es.foldl next k

end Desk

theorem Snapshot.changed?_eq (x : Snapshot) (version : Int) (changes : List ContentChange) :
    x.changed? version changes = if version ≤ x.version then none
      else
        ((changedText x.text changes).toOption.map Prod.fst).map fun text => ⟨version, text⟩ := by
  rw [changedText_eq]
  unfold Snapshot.changed?
  by_cases hv : version ≤ x.version
  · simp [hv]
  · by_cases he : changes.isEmpty
    · simp [hv, he]
    · simp only [hv, he, Bool.false_or, decide_false, if_false]
      cases ContentChange.applyAll x.text changes <;> rfl

/-! ## What a server shows -/

namespace Server

variable {s t : Server} {d d' : OpenDocument} {uri : Text}

theorem Coherent.find?_eq (h : s.Coherent) (hd : d ∈ s.documents) : s.find? d.uri = some d := by
  cases hf : s.find? d.uri with
  | none => exact absurd (List.find?_eq_none.mp hf d hd) (by simp)
  | some e =>
    obtain ⟨he, hu⟩ := mem_of_find? hf
    rw [h.eq_of_uri he hd hu]

theorem find?_eq_none (h : ∀ d ∈ s.documents, d.uri ≠ uri) : s.find? uri = none :=
  List.find?_eq_none.mpr fun d hd => by simpa using h d hd

theorem Coherent.find?_congr (hs : s.Coherent) (ht : t.Coherent)
    (h : ∀ d, d.uri = uri → (d ∈ s.documents ↔ d ∈ t.documents)) : s.find? uri = t.find? uri := by
  cases hf : t.find? uri with
  | none =>
    refine find?_eq_none fun d hd hu => ?_
    rw [← hu, ht.find?_eq ((h d hu).mp hd)] at hf
    exact absurd hf (by simp)
  | some e =>
    obtain ⟨he, rfl⟩ := mem_of_find? hf
    exact hs.find?_eq ((h e rfl).mpr he)

theorem mem_update_iff (hd : d ∈ s.documents) (hserial : d'.serial = d.serial) {e : OpenDocument} :
    e ∈ (s.update d').documents ↔ e = d' ∨ (e ∈ s.documents ∧ e.serial ≠ d'.serial) := by
  refine ⟨mem_update, ?_⟩
  rintro (rfl | ⟨he, hne⟩)
  · exact List.mem_map.mpr ⟨d, hd, by simp [hserial]⟩
  · exact List.mem_map.mpr ⟨e, he, by simp [hne]⟩

theorem Coherent.shown_update (h : s.Coherent) (hd : d ∈ s.documents) (hb : d.Becomes d')
    (hc : d'.Coherent s.dispatcher) :
    (s.update d').shown = Function.update s.shown d.uri (some d'.snapshot) := by
  have ht := h.update hd hb hc
  have hmem := fun e => mem_update_iff hd hb.serial (e := e)
  funext uri
  by_cases hu : uri = d.uri
  · rw [hu, Function.update_self, ← hb.uri, shown, ht.find?_eq ((hmem d').mpr (.inl rfl)),
      Option.map_some]
  · rw [Function.update_of_ne hu, shown, shown]
    refine congrArg _ (ht.find?_congr h fun e he => ?_)
    rw [hmem e]
    constructor
    · rintro (rfl | ⟨he', -⟩)
      · exact absurd (he.symm.trans hb.uri) hu
      · exact he'
    · intro he'
      refine .inr ⟨he', fun hs => hu ?_⟩
      rw [← he, h.eq_of_serial he' hd (hs.trans hb.serial)]

theorem Coherent.shown_look (h : s.Coherent) (hd : d ∈ s.documents) {x : Snapshot}
    (hx : x.UpTo d.snapshot) :
    (s.update { d with session := (d.session.tree x).2 }).shown = s.shown := by
  have hb : d.Becomes { d with session := (d.session.tree x).2 } := ⟨rfl, rfl, .refl _⟩
  rw [h.shown_update hd hb ((h.documents d hd).look hx)]
  refine Function.update_eq_self_iff.mpr ?_
  rw [shown, h.find?_eq hd]
  rfl

theorem Coherent.shown_release (h : s.Coherent) (hd : d ∈ s.documents) :
    (s.release d).shown = Function.update s.shown d.uri none := by
  have ht := h.release d
  have hmem : ∀ e, e ∈ (s.release d).documents ↔ e ∈ s.documents ∧ e.serial ≠ d.serial :=
      fun e => by
    simp [Server.release]
  funext uri
  by_cases hu : uri = d.uri
  · rw [hu, Function.update_self, shown, find?_eq_none, Option.map_none]
    intro e he heq
    obtain ⟨he, hne⟩ := (hmem e).mp he
    exact hne (by rw [h.eq_of_uri he hd heq])
  · rw [Function.update_of_ne hu, shown, shown]
    refine congrArg _ (ht.find?_congr h fun e he => ?_)
    rw [hmem e]
    refine ⟨fun h' => h'.1, fun he' => ⟨he', fun hs => hu ?_⟩⟩
    rw [← he, h.eq_of_serial he' hd hs]

theorem Coherent.shown_append (h : s.Coherent) (hd : d.serial = s.nextSerial)
    (hu : ∀ e ∈ s.documents, e.uri ≠ d.uri) (hc : d.Coherent s.dispatcher) :
    { s with documents := s.documents ++ [d], nextSerial := s.nextSerial + 1 }.shown =
      Function.update s.shown d.uri (some d.snapshot) := by
  have ht := h.append hd hu hc
  funext uri
  by_cases huri : uri = d.uri
  · rw [huri, Function.update_self, shown, ht.find?_eq (by simp), Option.map_some]
  · rw [Function.update_of_ne huri, shown, shown]
    refine congrArg _ (ht.find?_congr h fun e he => ?_)
    simp only [List.mem_append, List.mem_singleton, or_iff_left_iff_imp]
    rintro rfl
    exact absurd he.symm huri

theorem Coherent.shown_openDocument (h : s.Coherent) (uri : Text) (version : Int) (text : Text) :
    (s.openDocument uri version text).shown =
      Function.update s.shown uri (some ⟨version, text⟩) := by
  have hc := OpenDocument.coherent_create s.nextSerial uri version text s.dispatcher
  unfold Server.openDocument
  cases hf : s.find? uri with
  | none => exact h.shown_append rfl (uri_ne_of_find? hf) hc
  | some old =>
    obtain ⟨hold, huri⟩ := mem_of_find? hf
    refine ((h.release old).shown_append rfl (h.uri_ne_of_release hf) hc).trans ?_
    rw [h.shown_release hold, huri]
    exact Function.update_idem _ _ _

theorem Coherent.shown_forget (h : s.Coherent) (uri : Text) :
    (s.forget uri).shown = Function.update s.shown uri none := by
  unfold Server.forget
  cases hf : s.find? uri with
  | none =>
    have hself : Function.update s.shown uri none = s.shown :=
      Function.update_eq_self_iff.mpr (by rw [shown, hf, Option.map_none])
    rw [hself]
    rfl
  | some d =>
    obtain ⟨hd, rfl⟩ := mem_of_find? hf
    exact h.shown_release hd

theorem Coherent.shown_forgetAll (h : s.Coherent) (uris : List Text) :
    (s.forgetAll uris).shown = fun uri => if uri ∈ uris then none else s.shown uri := by
  induction uris generalizing s with
  | nil => simp [Server.forgetAll]
  | cons u us ih =>
    funext uri
    rw [Server.forgetAll, ih (h.moves (s.moves_forget u)), h.shown_forget]
    by_cases hu : uri = u
    · simp [hu]
    · simp [hu]

theorem Coherent.shown_shutDown (h : s.Coherent) : s.shutDown.shown = fun _ => none := by
  have h' : ({ s with isShutDown := true } : Server).Coherent := h.congr rfl rfl rfl rfl
  unfold Server.shutDown
  rw [h'.shown_forgetAll]
  funext uri
  split
  · rfl
  · next hu =>
    have hnone : s.find? uri = none := find?_eq_none fun d hd heq =>
      hu (List.mem_map.mpr ⟨d, hd, heq⟩)
    exact congrArg (Option.map OpenDocument.snapshot) hnone

theorem shown_setDispatcher (s : Server) (dispatcher : Dispatcher) :
    (s.setDispatcher dispatcher).shown = s.shown := by
  funext uri
  simp only [shown, Server.find?, Server.setDispatcher, List.find?_map, Option.map_map]
  rfl

theorem shown_scheduleAll (s : Server) (ds : List OpenDocument) :
    (s.scheduleAll ds).shown = s.shown := by
  induction ds generalizing s with
  | nil => rfl
  | cons d ds ih => exact ih (s.schedule d)

theorem shown_adopt (s : Server) (settings : Settings) (level? : Option LogLevel)
    (dispatcher : Dispatcher) : (s.adopt settings level? dispatcher).shown = s.shown := by
  rw [adopt, shown_setDispatcher]
  rfl

theorem shown_applySettings (s : Server) (disk : Disk) (given : Settings) :
    (s.perform (applySettings disk given)).2.shown = s.shown := by
  obtain ⟨e, h, -⟩ | ⟨level?, dispatcher, -, -, h⟩ := s.applySettings_cases disk given
  · rw [h]
  · rw [h, shown_adopt]

theorem shown_configure (s : Server) (disk : Disk) (sent : Option Json) :
    (s.perform (configure disk sent)).2.shown = s.shown := by
  obtain ⟨e, h, -⟩ | ⟨given, level?, dispatcher, -, -, -, h⟩ := s.configure_cases disk sent
  · rw [h]
  · rw [h, shown_scheduleAll, shown_adopt]

theorem shown_start (s : Server) (disk : Disk) (root : Text) (options : Option Json) :
    (s.perform (start disk root options)).2.shown = s.shown := by
  obtain h | ⟨rootConfigFile, given, h⟩ := s.start_cases disk root options
  · rw [h]
  · rw [h, shown_applySettings]
    rfl

theorem Coherent.shown_ask (h : s.Coherent) (uri : Text) (question : Text → Except Fault Query) :
    (s.ask uri question).2.shown = s.shown := by
  unfold Server.ask
  split
  · rfl
  · next d hf =>
    split
    · rfl
    · exact h.shown_look (mem_of_find? hf).1 (.refl _)

theorem Coherent.shown_pull (h : s.Coherent) (uri previous : Text) :
    (s.pull uri previous).2.shown = s.shown := by
  simp only [Server.pull]
  split
  · rfl
  · exact h.shown_ask _ _

/-- A change that is refused leaves all documents as they are. -/
theorem documents_of_refused {disk : Disk} {version : Int} {changes : List ContentChange}
    (h : (s.shown uri).bind (fun x => x.changed? version changes) = none) :
    (s.handle disk (.didChange uri version changes)).server.documents = s.documents := by
  rw [handle_didChange]
  obtain ⟨e, he, -⟩ | ⟨d, -, -, he⟩ | ⟨d, text, change, event?, heard, session, hf, hv, hc, -, -⟩ :=
    s.changeDocument_cases uri version changes
  · rw [he]
  · rw [he]
    rfl
  · have hv' : ¬ version ≤ d.snapshot.version := Int.not_le.mpr hv
    have hc' : changedText d.snapshot.text changes = .ok (text, change) := hc
    rw [shown, hf, Option.map_some, Option.bind_some, Snapshot.changed?_eq, if_neg hv', hc'] at h
    exact absurd h (by simp [Except.toOption])

theorem Coherent.shown_didChange (h : s.Coherent) (disk : Disk) (uri : Text) (version : Int)
    (changes : List ContentChange) : (s.handle disk (.didChange uri version changes)).server.shown =
      match (s.shown uri).bind fun x => x.changed? version changes with
      | some y => Function.update s.shown uri (some y)
      | none => s.shown := by
  cases hr : (s.shown uri).bind fun x => x.changed? version changes with
  | none =>
    funext u
    simp only [shown, Server.find?, documents_of_refused hr]
  | some y =>
    rw [handle_didChange]
    obtain ⟨x, hx, hy⟩ := Option.bind_eq_some_iff.mp hr
    obtain ⟨d, hf, rfl⟩ := Option.map_eq_some_iff.mp hx
    rw [Snapshot.changed?_eq] at hy
    obtain ⟨e, -, hn | ⟨d', hf', -, f, hc⟩⟩ | ⟨d', hf', hv, -⟩ |
      ⟨d', text, change, event?, heard, session, hf', hv, hc, hedit, he⟩ :=
      s.changeDocument_cases uri version changes
    · simp [hf] at hn
    · obtain rfl := Option.some_inj.mp (hf.symm.trans hf')
      have hc' : changedText d.snapshot.text changes = .error f := hc
      simp [hc', Except.toOption] at hy
    · obtain rfl := Option.some_inj.mp (hf.symm.trans hf')
      have hv' : version ≤ d.snapshot.version := hv
      simp [hv'] at hy
    · obtain rfl := Option.some_inj.mp (hf.symm.trans hf')
      have hc' : changedText d.snapshot.text changes = .ok (text, change) := hc
      have hv' : ¬ version ≤ d.snapshot.version := Int.not_le.mpr hv
      obtain rfl : ⟨version, text⟩ = y := by simpa [hc', hv', Except.toOption] using hy
      obtain ⟨hd, rfl⟩ := mem_of_find? hf
      obtain rfl : _ = session := congrArg Prod.snd hedit
      rw [he]
      exact h.shown_update hd ⟨rfl, rfl, .inl hv⟩ ((h.documents d hd).change hv text change)

/-- Background work shows nothing new. -/
theorem Progress.shown_eq {place : Nat} {sent : List Message} (hp : s.Progress place sent t)
    (h : s.Coherent) : t.shown = s.shown := by
  cases hp with
  | share hplace hstage hd hserial =>
    have hup := h.trails _ (List.mem_of_getElem? hplace) _ hd hserial.symm _ _ _ hstage
    exact h.shown_look hd hup
  | _ => rfl

theorem shown_unlock (s : Server) : s.unlock.2.shown = s.shown := by
  obtain ⟨-, h⟩ | ⟨place, p, version, items, -, -, h⟩ := s.unlock_cases
  · rw [h]
  · rw [h]
    rfl

/-- **A server shows what the desk says**: an event changes both alike. -/
theorem Coherent.shown_next (h : s.Coherent) (e : ServerEvent) :
    (s.next e).shown = Desk.next s.shown e := by
  cases e with
  | background place => exact (s.progress_step place).shown_eq h
  | request disk r =>
    cases r with
    | start root options =>
      rw [Server.next, handle_start]
      exact s.shown_start disk root options
    | initialized | exit | didSave => rfl
    | shutdown => exact h.shown_shutDown
    | didOpen uri version text => exact h.shown_openDocument uri version text
    | didChange uri version changes => exact h.shown_didChange disk uri version changes
    | didClose uri => exact (s.forget uri).shown_unlock.trans (h.shown_forget uri)
    | didChangeConfiguration settings =>
      rw [Server.next, handle_didChangeConfiguration]
      exact s.shown_configure disk settings
    | semanticTokens uri range? | documentHighlight uri p | formatting uri | hover uri p
    | documentSymbol uri | documentLink uri | completion uri p => exact h.shown_ask uri _
    | diagnostic uri previous => exact h.shown_pull uri previous

theorem Coherent.shown_run (h : s.Coherent) (es : List ServerEvent) :
    (s.run es).shown = Desk.run s.shown es := by
  induction es generalizing s with
  | nil => rfl
  | cons e es ih =>
    rw [Server.run, List.foldl_cons, Desk.run, List.foldl_cons, ← h.shown_next e]
    exact ih (h.next e)

end Server

/-! ## Answers -/

/-- The requests that ask about a document: its URI, and what is asked about its text. -/
def Request.question? : Request → Option (Text × (Text → Except Fault Query))
  | .semanticTokens uri range? => some (uri, Query.tokensOf range?)
  | .documentHighlight uri p => some (uri, Query.at .highlights p)
  | .diagnostic uri _ => some (uri, fun _ => .ok .diagnostics)
  | .formatting uri => some (uri, fun _ => .ok .formatting)
  | .hover uri p => some (uri, Query.at .hover p)
  | .documentSymbol uri => some (uri, fun _ => .ok .outline)
  | .documentLink uri => some (uri, fun _ => .ok .links)
  | .completion uri p => some (uri, Query.at .completions p)
  | _ => none

namespace Server

variable {s : Server}

/-- The answer that a fresh reading of a version gives under the current configuration. -/
def freshAnswer (s : Server) (uri : Text) (question : Text → Except Fault Query) :
    Option Snapshot → Except Fault Reply
  | none => .error (.notOpen uri)
  | some x =>
    match question x.text with
    | .error e => .error e
    | .ok q => q.answer s.dispatcher (s.resultId x.version) x.text (Tree.parse x)

/-- **A question is answered as by a fresh reading of the current text.** -/
theorem Coherent.ask_eq (h : s.Coherent) (uri : Text) (question : Text → Except Fault Query) :
    (s.ask uri question).1 = s.freshAnswer uri question (s.shown uri) := by
  unfold Server.ask shown
  cases hf : s.find? uri with
  | none => rfl
  | some d =>
    have hd := h.documents d (mem_of_find? hf).1
    simp only [Option.map_some, freshAnswer]
    have htext : d.snapshot.text = d.text := rfl
    rw [htext]
    cases question d.text with
    | error e => rfl
    | ok q =>
      simp only [OpenDocument.tree]
      rw [d.session.dispatcher_tree, hd.dispatcher, Session.tree_current hd.serves]
      rfl

theorem Coherent.pull_eq (h : s.Coherent) (uri previous : Text) : (s.pull uri previous).1 =
    if (s.shown uri).any fun x => !previous.isEmpty && previous == s.resultId x.version then
      .ok (.unchanged previous)
    else s.freshAnswer uri (fun _ => .ok .diagnostics) (s.shown uri) := by
  have hany : (s.shown uri).any (fun x => !previous.isEmpty && previous == s.resultId x.version) =
      (s.find? uri).any fun d => !previous.isEmpty && previous == s.resultId d.version := by
    unfold shown
    cases s.find? uri <;> rfl
  rw [hany]
  simp only [Server.pull]
  split
  · rfl
  · exact h.ask_eq uri _

theorem Coherent.reply_eq (h : s.Coherent) (disk : Disk) {r : Request} {uri : Text}
    {question : Text → Except Fault Query} (hr : r.question? = some (uri, question)) :
    (s.handle disk r).reply = s.freshAnswer uri question (s.shown uri) ∨
      ∃ previous x, r = .diagnostic uri previous ∧ s.shown uri = some x ∧
        previous = s.resultId x.version ∧ (s.handle disk r).reply = .ok (.unchanged previous) := by
  cases r with
  | semanticTokens u range? | documentHighlight u p | formatting u | hover u p
  | documentSymbol u | documentLink u | completion u p =>
    obtain ⟨rfl, rfl⟩ := Prod.mk.inj (Option.some_inj.mp hr)
    exact .inl (h.ask_eq _ _)
  | diagnostic u previous =>
    obtain ⟨rfl, rfl⟩ := Prod.mk.inj (Option.some_inj.mp hr)
    have hp := h.pull_eq u previous
    split at hp
    · next hany =>
      obtain ⟨x, hx, hknown⟩ := (Option.any_eq_true _ _).mp hany
      simp only [Bool.and_eq_true, beq_iff_eq] at hknown
      exact .inr ⟨previous, x, rfl, hx, hknown.2, hp⟩
    · exact .inl hp
  | _ => simp [Request.question?] at hr

theorem coherent_fresh (identity : Text) (notifies : Bool) (logLevel : LogLevel) :
    ({ identity, notifies, logLevel } : Server).Coherent where
  apart := .nil
  opened := by simp
  started := by simp
  documents := by simp
  trails := by simp
  exclusive := by simp

/-- **Documents and answers are always up to date.** After any events the text of each document is
the one it was opened with, changed by every change since that was not refused; a refused change
leaves all documents and their sessions as they are; every question is answered as by a fresh
reading of the current text, unless the client already has the diagnostics it asks for; and no
session serves the tree of another text. -/
theorem answers_current (identity : Text) (notifies : Bool) (logLevel : LogLevel)
    (es : List ServerEvent) :
    let s := ({ identity, notifies, logLevel } : Server).run es
    let desk := Desk.run (fun _ => none) es
    (∀ uri, s.shown uri = desk uri) ∧
    (∀ disk uri version changes,
      (desk uri).bind (fun x => x.changed? version changes) = none →
        (s.handle disk (.didChange uri version changes)).server.documents = s.documents) ∧
    (∀ disk r uri question, r.question? = some (uri, question) →
      (s.handle disk r).reply = s.freshAnswer uri question (desk uri) ∨
        ∃ previous x, r = .diagnostic uri previous ∧ desk uri = some x ∧
          previous = s.resultId x.version ∧ (s.handle disk r).reply = .ok (.unchanged previous)) ∧
    ∀ d ∈ s.documents, d.session.dispatcher = s.dispatcher ∧
      (∀ t ∈ d.session.trees, t = Tree.parse t.snapshot) ∧
      (d.session.tree d.snapshot).1 = Tree.parse d.snapshot := by
  intro s desk
  have h₀ := coherent_fresh identity notifies logLevel
  have h : s.Coherent := h₀.run es
  have hshown : s.shown = desk := h₀.shown_run es
  rw [← hshown]
  refine ⟨fun _ => rfl, fun _ _ _ _ hr => documents_of_refused hr,
    fun disk _ _ _ hr => h.reply_eq disk hr, fun d hd => ?_⟩
  have hserves := (h.documents d hd).serves
  exact ⟨(h.documents d hd).dispatcher, fun t ht => (hserves t ht).1, Session.tree_current hserves⟩

/-- A document is opened, changed, looked at in the background and changed to the same version
again. -/
def repeatedChange (disk : Disk) (uri : Text) : List ServerEvent :=
  [.request disk (.didOpen uri 1 (utf8 "allow: /a")),
    .request disk (.didChange uri 2 [⟨none, utf8 "allow: /b"⟩]), .background 0, .background 0,
    .request disk (.didChange uri 2 [⟨none, utf8 "allow: /c"⟩])]

theorem answers_current_repeated :
    let disk : Disk := ⟨fun _ => .ok [], fun _ => .ok 0⟩
    let s := ({ identity := utf8 "a", notifies := true, logLevel := .info } : Server).run
      (repeatedChange disk (utf8 "u"))
    s.shown (utf8 "u") = some ⟨2, utf8 "allow: /b"⟩ ∧
      (s.handle disk (.didChange (utf8 "u") 3 [])).server.documents = s.documents ∧
      (s.handle disk (.formatting (utf8 "u"))).reply =
        s.freshAnswer (utf8 "u") (fun _ => .ok .formatting) (some ⟨2, utf8 "allow: /b"⟩) := by
  intro disk s
  obtain ⟨htext, hrefused, hreply, -⟩ :=
    answers_current (utf8 "a") true .info (repeatedChange disk (utf8 "u"))
  have hdesk : Desk.run (fun _ => none) (repeatedChange disk (utf8 "u")) (utf8 "u") =
      some ⟨2, utf8 "allow: /b"⟩ := by
    decide +kernel
  refine ⟨(htext _).trans hdesk, hrefused _ _ _ _ ?_, ?_⟩
  · rw [hdesk]
    decide +kernel
  · have hfresh := hreply disk (.formatting (utf8 "u")) _ _ rfl
    rw [hdesk] at hfresh
    rcases hfresh with hfresh | ⟨previous, x, hr, -⟩
    · exact hfresh
    · exact absurd hr (by simp)

end Server

end RobotsTxt
