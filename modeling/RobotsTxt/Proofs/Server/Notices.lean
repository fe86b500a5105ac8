import RobotsTxt.Proofs.Server.Answers

/-!
# What a client is told about diagnostics

A publication is committed to what it will send as soon as it has checked it, and sends it later, in
the order of the checks, since it holds the lock in between. So what a client has been told, and
what is still held back, are together what the server has been committed to.

* `Notice`: what a client is told at a time; `Server.history`: all that it is told in a run.
* `Server.commits`, `Server.commitments`: what an event and a run commit the server to;
  `Server.held`: what it has been committed to and has not told.
* **`Server.commits_cases`**: what the server can be committed to.
* **`Server.Coherent.history_held`**: commitments are kept in order.
-/

namespace RobotsTxt

/-! ## Notices -/

/-- What a client is told about the diagnostics of a document. -/
inductive Notice where
  /-- The diagnostics of a version of a document. -/
  | posted (serial : Nat) (uri : Text) (version : Int) (items : List Marker)
  /-- The diagnostics of a closed document are taken back. -/
  | cleared (uri : Text)
  deriving Repr, DecidableEq

namespace Notice

/-- The URI that a notice is about. -/
def uri : Notice → Text
  | posted _ uri _ _ => uri
  | cleared uri => uri

@[simp] theorem uri_posted (n : Nat) (u : Text) (v : Int) (items : List Marker) :
    (posted n u v items).uri = u := rfl

@[simp] theorem uri_cleared (u : Text) : (cleared u).uri = u := rfl

/-- The document that a notice is about; taking back is about the URI alone. -/
def serial? : Notice → Option Nat
  | posted serial .. => some serial
  | cleared _ => none

/-- The version that a notice gives for a document. -/
def version? (serial : Nat) : Notice → Option Int
  | posted n _ version _ => if n = serial then some version else none
  | cleared _ => none

/-- The message that is sent. -/
def message : Notice → Message
  | posted _ uri version items => .diagnostics uri version items
  | cleared uri => .diagnostics uri 0 []

/-- The last of some notices about a URI. -/
def last? (h : List Notice) (uri : Text) : Option Notice :=
  (h.filter fun m => m.uri == uri).getLast?

theorem last?_append_self (h : List Notice) (m : Notice) : last? (h ++ [m]) m.uri = some m := by
  simp [last?]

theorem last?_append_ne (h : List Notice) {m : Notice} {uri : Text} (hne : m.uri ≠ uri) :
    last? (h ++ [m]) uri = last? h uri := by
  simp [last?, hne]

end Notice

/-- Whether a message gives diagnostics. -/
def Message.isDiagnostics : Message → Bool
  | .diagnostics .. => true
  | .tagsChanged .. => false

/-- What a client will be told by a publication that holds the lock. -/
def Publication.notice (p : Publication) : List Notice :=
  match p.stage with
  | .checked version items => [.posted p.serial p.uri version items]
  | _ => []

namespace Publication

theorem notice_eq_nil {p : Publication} (h : p.isChecked = false) : p.notice = [] := by
  unfold notice
  unfold isChecked at h
  cases hstage : p.stage with
  | checked version items => simp [hstage] at h
  | waiting | captured | computed | done => rfl

theorem notice_capture (p : Publication) (d : OpenDocument) : (p.capture d).notice = p.notice := by
  unfold capture
  cases hstage : p.stage with
  | waiting => simp [notice, hstage]
  | captured | computed | checked | done => rfl

theorem Quiets.notice_eq {p q : Publication} (h : p.Quiets q) : q.notice = p.notice := by
  unfold notice
  rcases h.stage with hq | ⟨x, session, sessions, listeners, hp, hq⟩
  · rw [hq, h.serial, h.uri]
  · rw [hp, hq]

end Publication

namespace Server

variable {s t : Server} {d : OpenDocument} {p : Publication} {uri : Text}

/-- What the server is committed to and has not told yet. -/
def held (s : Server) : List Notice := s.publications.flatMap Publication.notice

/-- What a client is told about diagnostics when something happens. Closing a document waits for the
publication that holds the lock. -/
def notices (s : Server) : ServerEvent → List Notice
  | .request _ (.didClose uri) => s.held ++ [.cleared uri]
  | .request .. => []
  | .background place => s.publications[place]?.toList.flatMap Publication.notice

/-- What a publication will tell if it takes the lock now. -/
def verdict (s : Server) (p : Publication) : List Notice :=
  match p.stage with
  | .computed version (.ok items) =>
    if !s.isPublishing && s.isCurrent p version then [.posted p.serial p.uri version items] else []
  | _ => []

/-- What the server is committed to when something happens. -/
def commits (s : Server) : ServerEvent → List Notice
  | .request _ (.didClose uri) => [.cleared uri]
  | .request .. => []
  | .background place => s.publications[place]?.toList.flatMap s.verdict

/-- All that a client is told about diagnostics while some events happen. -/
def history : Server → List ServerEvent → List Notice
  | _, [] => []
  | s, e :: es => s.notices e ++ (s.next e).history es

/-- All that the server is committed to while some events happen. -/
def commitments : Server → List ServerEvent → List Notice
  | _, [] => []
  | s, e :: es => s.commits e ++ (s.next e).commitments es

/-- All that is sent to a client while some events happen. -/
def told : Server → List ServerEvent → List Message
  | _, [] => []
  | s, e :: es => s.sent e ++ (s.next e).told es

/-! ## What is held back -/

theorem held_eq_nil (h : ∀ p ∈ s.publications, p.isChecked = false) : s.held = [] :=
  List.flatMap_eq_nil_iff.mpr fun p hp => Publication.notice_eq_nil (h p hp)

theorem held_of_not_isPublishing (h : s.isPublishing = false) : s.held = [] :=
  held_eq_nil fun p hp => by simpa using List.any_eq_false.mp h p hp

theorem exists_around {place : Nat} (hplace : s.publications[place]? = some p) :
    ∃ front back, s.publications = front ++ p :: back ∧
      (∀ r, (s.put place r).publications = front ++ r :: back) ∧
      (s.discard place).publications = front ++ back := by
  obtain ⟨hlt, rfl⟩ := List.getElem?_eq_some_iff.mp hplace
  have hset : ∀ r, s.publications.set place r =
      s.publications.take place ++ r :: s.publications.drop (place + 1) := fun r => by
    rw [List.set_eq_take_append_cons_drop, if_pos hlt]
  refine ⟨_, _, ?_, hset, List.eraseIdx_eq_take_drop_succ _ _⟩
  rw [← hset, List.set_getElem_self]

/-- A publication that does not hold the lock, before or after its next stage, holds nothing back.
-/
theorem held_put {place : Nat} {r : Publication} (hplace : s.publications[place]? = some p)
    (hp : p.isChecked = false) (hr : r.isChecked = false) : (s.put place r).held = s.held := by
  obtain ⟨front, back, hs, hput, -⟩ := exists_around hplace
  simp only [held, hs, hput, List.flatMap_append, List.flatMap_cons, Publication.notice_eq_nil hp,
    Publication.notice_eq_nil hr]

theorem held_discard {place : Nat} (hplace : s.publications[place]? = some p)
    (hp : p.isChecked = false) : (s.discard place).held = s.held := by
  obtain ⟨front, back, hs, -, hdiscard⟩ := exists_around hplace
  simp only [held, hs, hdiscard, List.flatMap_append, List.flatMap_cons,
    Publication.notice_eq_nil hp, List.nil_append]

theorem held_check {place : Nat} {r : Publication} (hplace : s.publications[place]? = some p)
    (hlock : s.isPublishing = false) : (s.put place r).held = r.notice := by
  obtain ⟨front, back, hs, hput, -⟩ := exists_around hplace
  have hnone := held_of_not_isPublishing hlock
  simp only [held, hs, List.flatMap_append, List.flatMap_cons, List.append_eq_nil_iff] at hnone
  simp only [held, hput, List.flatMap_append, List.flatMap_cons, hnone.1, hnone.2.2,
    List.nil_append, List.append_nil]

/-- **Who holds the lock holds back all that is held back**, and nothing is when it has sent. -/
theorem Coherent.held_send (hs : s.Coherent) {place : Nat} {r : Publication}
    (hplace : s.publications[place]? = some p) (hp : p.isChecked = true)
    (hr : r.isChecked = false) : s.held = p.notice ∧ (s.put place r).held = [] := by
  obtain ⟨front, back, hps, hput, -⟩ := exists_around hplace
  have hone := hs.exclusive
  rw [hps, List.countP_append, List.countP_cons_of_pos hp] at hone
  have hfront : front.flatMap Publication.notice = [] :=
    List.flatMap_eq_nil_iff.mpr fun q hq => Publication.notice_eq_nil <| by
      simpa using List.countP_eq_zero.mp (show front.countP Publication.isChecked = 0 by omega) q hq
  have hback : back.flatMap Publication.notice = [] :=
    List.flatMap_eq_nil_iff.mpr fun q hq => Publication.notice_eq_nil <| by
      simpa using List.countP_eq_zero.mp (show back.countP Publication.isChecked = 0 by omega) q hq
  constructor
  · simp only [held, hps, List.flatMap_append, List.flatMap_cons, hfront, hback, List.nil_append,
      List.append_nil]
  · simp only [held, hput, List.flatMap_append, List.flatMap_cons, hfront, hback,
      Publication.notice_eq_nil hr, List.nil_append]

/-- What is held back is what one publication has checked, if anything. -/
theorem Coherent.held_cases (hs : s.Coherent) : s.held = [] ∨
    ∃ p ∈ s.publications, ∃ version items, p.stage = .checked version items ∧
      s.held = [.posted p.serial p.uri version items] := by
  by_cases hfree : ∀ p ∈ s.publications, p.isChecked = false
  · exact .inl (held_eq_nil hfree)
  · simp only [not_forall, Bool.not_eq_false] at hfree
    obtain ⟨p, hp, hchecked⟩ := hfree
    obtain ⟨place, hplace⟩ := List.getElem?_of_mem hp
    have hheld := (hs.held_send (r := { p with stage := .waiting }) hplace hchecked rfl).1
    unfold Publication.isChecked at hchecked
    split at hchecked
    · next version items hstage =>
      refine .inr ⟨p, hp, version, items, hstage, ?_⟩
      rw [hheld, Publication.notice, hstage]
    · exact absurd hchecked Bool.false_ne_true

theorem Move.held_eq (h : s.Move t) : t.held = s.held := by
  cases h with
  | idle h => rw [held, held, h.publications]
  | look => rfl
  | schedule | opened | changed =>
    simp [held, Server.schedule, Server.update, Publication.notice]
  | @release d =>
    simp only [held, Server.release, List.flatMap_map]
    refine List.flatMap_congr fun p _ => ?_
    split
    · rw [((p.capture d).quiets_detach d).notice_eq, Publication.notice_capture]
    · rfl
  | configured =>
    simp only [held, Server.setDispatcher, List.flatMap_map]
    exact List.flatMap_congr fun p _ => (p.quiets_foldl _).notice_eq

theorem held_moves (h : s.Moves t) : t.held = s.held := by
  induction h with
  | refl => rfl
  | tail _ hm ih => exact hm.held_eq.trans ih

/-! ## Commitments are kept -/

theorem Coherent.unlock_held (hs : s.Coherent) :
    s.unlock.1 = s.held.map Notice.message ∧ s.unlock.2.held = [] := by
  obtain ⟨hfree, h⟩ | ⟨place, p, version, items, hplace, hstage, h⟩ := s.unlock_cases
  · simp [h, held_eq_nil hfree]
  · have hchecked : p.isChecked = true := by simp [Publication.isChecked, hstage]
    obtain ⟨hheld, hnone⟩ :=
      hs.held_send (r := { p with stage := .done version }) hplace hchecked rfl
    rw [h, hheld]
    refine ⟨?_, hnone⟩
    simp [Publication.notice, hstage, Notice.message]

theorem background_of_getElem? {place : Nat} (h : s.publications[place]? = some p) :
    s.notices (.background place) = p.notice ∧ s.commits (.background place) = s.verdict p := by
  simp [notices, commits, h]

theorem verdict_eq_nil (h : ∀ version items, p.stage ≠ .computed version (.ok items)) :
    s.verdict p = [] := by
  unfold verdict
  split
  · next version items hstage => exact absurd hstage (h _ _)
  · rfl

/-- What a step in the background tells has been held back before, and what it commits the server to
is held back. -/
theorem Coherent.notices_step (hs : s.Coherent) (place : Nat) :
    s.notices (.background place) ++ (s.step place).2.held =
      s.held ++ s.commits (.background place) := by
  have hp := s.progress_step place
  generalize (s.step place).1 = sent, (s.step place).2 = t at hp
  -- a stage that neither takes the lock nor gives it back
  have hquiet : ∀ {p : Publication}, s.publications[place]? = some p → p.isChecked = false →
      s.verdict p = [] → t.held = s.held →
      s.notices (.background place) ++ t.held = s.held ++ s.commits (.background place) := by
    intro p hplace hchecked hverdict hheld
    obtain ⟨hn, hc⟩ := background_of_getElem? hplace
    rw [hn, hc, Publication.notice_eq_nil hchecked, hverdict, hheld, List.nil_append,
      List.append_nil]
  cases hp with
  | rest hplace => simp [notices, commits, hplace]
  | @capture p d hplace hstage =>
    have hchecked : p.isChecked = false := by simp [Publication.isChecked, hstage]
    exact hquiet hplace hchecked (verdict_eq_nil (by simp [hstage]))
      (held_put hplace hchecked ((p.isChecked_capture d).trans hchecked))
  | @drop p hplace hstage =>
    have hchecked : p.isChecked = false := by simp [Publication.isChecked, hstage]
    exact hquiet hplace hchecked (verdict_eq_nil (by simp [hstage])) (held_discard hplace hchecked)
  | @share p d x session hplace hstage hd hserial =>
    have hchecked : p.isChecked = false := by simp [Publication.isChecked, hstage]
    refine hquiet hplace hchecked (verdict_eq_nil (by simp [hstage])) ?_
    exact held_put (s := s.update { d with session := (d.session.tree x).2 }) hplace hchecked rfl
  | @examine p x session sessions hplace hstage =>
    have hchecked : p.isChecked = false := by simp [Publication.isChecked, hstage]
    exact hquiet hplace hchecked (verdict_eq_nil (by simp [hstage])) (held_put hplace hchecked rfl)
  | @wait p version items hplace hstage hlock =>
    have hchecked : p.isChecked = false := by simp [Publication.isChecked, hstage]
    refine hquiet hplace hchecked ?_ rfl
    cases items <;> simp [verdict, hstage, hlock]
  | @check p version items hplace hstage hlock hcurrent =>
    obtain ⟨hn, hc⟩ := background_of_getElem? hplace
    have hchecked : p.isChecked = false := by simp [Publication.isChecked, hstage]
    rw [hn, hc, Publication.notice_eq_nil hchecked, held_check hplace hlock,
      held_of_not_isPublishing hlock]
    simp [verdict, hstage, hlock, hcurrent, Publication.notice]
  | @abandon p version items hplace hstage hstale =>
    have hchecked : p.isChecked = false := by simp [Publication.isChecked, hstage]
    refine hquiet hplace hchecked ?_ (held_put hplace hchecked rfl)
    cases items with
    | error e => simp [verdict, hstage]
    | ok found => simp [verdict, hstage, hstale found rfl]
  | @send p version items hplace hstage =>
    obtain ⟨hn, hc⟩ := background_of_getElem? hplace
    have hchecked : p.isChecked = true := by simp [Publication.isChecked, hstage]
    obtain ⟨hheld, hnone⟩ :=
      hs.held_send (r := { p with stage := .done version }) hplace hchecked rfl
    rw [hn, hc, hheld, hnone, verdict_eq_nil (by simp [hstage])]
  | @record p version hplace hstage =>
    have hchecked : p.isChecked = false := by simp [Publication.isChecked, hstage]
    exact hquiet hplace hchecked (verdict_eq_nil (by simp [hstage])) (held_discard hplace hchecked)

/-- What an event tells has been held back before, and what it commits the server to is told at once
or held back. -/
theorem Coherent.notices_next (hs : s.Coherent) (e : ServerEvent) :
    s.notices e ++ (s.next e).held = s.held ++ s.commits e := by
  cases e with
  | background place => exact hs.notices_step place
  | request disk r =>
    by_cases hclose : ∀ uri, r ≠ .didClose uri
    · have hheld : (s.next (.request disk r)).held = s.held :=
        held_moves (hs.moves_handle disk hclose)
      cases r with
      | didClose uri => exact absurd rfl (hclose uri)
      | _ => rw [hheld]; exact (List.append_nil _).symm
    · obtain ⟨uri, rfl⟩ := not_forall_not.mp hclose
      have hnone : (s.next (.request disk (.didClose uri))).held = [] :=
        (hs.moves (s.moves_forget uri)).unlock_held.2
      rw [hnone, List.append_nil]
      rfl

/-- **Commitments are kept in order**: what is told in a run, and then what is held back at its end,
is what was held back before the run and what the server has been committed to since. -/
theorem Coherent.history_held (hs : s.Coherent) (es : List ServerEvent) :
    s.history es ++ (s.run es).held = s.held ++ s.commitments es := by
  induction es generalizing s with
  | nil => simp [history, commitments, Server.run]
  | cons e es ih =>
    have hrest : (s.next e).history es ++ (s.run (e :: es)).held =
        (s.next e).held ++ (s.next e).commitments es := ih (hs.next e)
    rw [history, commitments, List.append_assoc, hrest, ← List.append_assoc, hs.notices_next e,
      List.append_assoc]

/-! ## Messages -/

theorem filter_message (ms : List Notice) :
    (ms.map Notice.message).filter Message.isDiagnostics = ms.map Notice.message := by
  refine List.filter_eq_self.mpr fun m hm => ?_
  obtain ⟨n, -, rfl⟩ := List.mem_map.mp hm
  cases n <;> rfl

theorem diagnostics_announcement (s : Server) (d : OpenDocument) (event? : Option TagsChanged)
    (heard : List Nat) :
    (s.announcement d event? heard).filter Message.isDiagnostics = [] := by
  unfold announcement
  repeat' split
  all_goals rfl

theorem diagnostics_didChange (s : Server) (disk : Disk) (uri : Text) (version : Int)
    (changes : List ContentChange) :
    (s.handle disk (.didChange uri version changes)).sent.filter Message.isDiagnostics = [] := by
  rw [handle_didChange]
  obtain ⟨e, h, -⟩ | ⟨d, -, -, h⟩ | ⟨d, text, change, event?, heard, session, -, -, -, -, h⟩ :=
    s.changeDocument_cases uri version changes
  · rw [h]
    rfl
  · rw [h]
    rfl
  · rw [h]
    exact diagnostics_announcement ..

theorem Coherent.diagnostics_sent (hs : s.Coherent) (e : ServerEvent) :
    (s.sent e).filter Message.isDiagnostics = (s.notices e).map Notice.message := by
  cases e with
  | background place =>
    have hp := s.progress_step place
    simp only [sent, notices]
    generalize (s.step place).1 = sent, (s.step place).2 = t at hp
    cases hp with
    | rest hplace =>
      rw [hplace]
      rfl
    | send hplace hstage =>
      rw [hplace, Option.toList_some, List.flatMap_singleton]
      simp [Publication.notice, hstage, Notice.message, Message.isDiagnostics]
    | capture hplace hstage | drop hplace hstage | share hplace hstage | examine hplace hstage
    | wait hplace hstage | check hplace hstage | abandon hplace hstage | record hplace hstage =>
      rw [hplace, Option.toList_some, List.flatMap_singleton,
        Publication.notice_eq_nil (by simp [Publication.isChecked, hstage])]
      rfl
  | request disk r =>
    cases r with
    | didChange uri version changes => exact s.diagnostics_didChange disk uri version changes
    | start root options =>
      rw [sent, handle_start]
      rfl
    | didChangeConfiguration settings =>
      rw [sent, handle_didChangeConfiguration]
      rfl
    | didClose uri =>
      have hforget := s.moves_forget uri
      have hsent : s.sent (.request disk (.didClose uri)) =
          (s.notices (.request disk (.didClose uri))).map Notice.message := by
        change (s.forget uri).unlock.1 ++ [.diagnostics uri 0 []] = _
        rw [(hs.moves hforget).unlock_held.1, held_moves hforget]
        simp [notices, Notice.message]
      rw [hsent, filter_message]
    | _ => rfl

theorem Coherent.diagnostics_told (hs : s.Coherent) (es : List ServerEvent) :
    (s.told es).filter Message.isDiagnostics = (s.history es).map Notice.message := by
  induction es generalizing s with
  | nil => rfl
  | cons e es ih =>
    rw [told, history, List.filter_append, List.map_append, hs.diagnostics_sent, ih (hs.next e)]

/-! ## What the server can be committed to -/

theorem find?_of_isCurrent {version : Int} (h : s.isCurrent p version = true) :
    ∃ d, s.find? p.uri = some d ∧ d.serial = p.serial ∧ d.version = version := by
  obtain ⟨d, hf, hd⟩ := (Option.any_eq_true _ _).mp h
  simp only [Bool.and_eq_true, beq_iff_eq] at hd
  exact ⟨d, hf, hd.1, hd.2⟩

/-- **What the server can be committed to**: nothing, that a document is closed, or the diagnostics
of the current version of an open document. -/
theorem commits_cases (s : Server) (e : ServerEvent) : s.commits e = [] ∨
    (∃ disk uri, e = .request disk (.didClose uri) ∧ s.commits e = [.cleared uri]) ∨
    ∃ place p d items, e = .background place ∧ s.publications[place]? = some p ∧
      p.stage = .computed d.version (.ok items) ∧ s.find? p.uri = some d ∧ d.serial = p.serial ∧
      s.commits e = [.posted d.serial d.uri d.version items] := by
  cases e with
  | request disk r =>
    cases r with
    | didClose uri => exact .inr (.inl ⟨disk, uri, rfl, rfl⟩)
    | _ => exact .inl rfl
  | background place =>
    cases hplace : s.publications[place]? with
    | none => simp [commits, hplace]
    | some p =>
      rw [(background_of_getElem? hplace).2]
      by_cases hverdict : ∃ version items, p.stage = .computed version (.ok items)
      · obtain ⟨version, items, hstage⟩ := hverdict
        by_cases hc : !s.isPublishing && s.isCurrent p version
        · have hcurrent := (Bool.and_eq_true_iff.mp hc).2
          obtain ⟨d, hf, hserial, rfl⟩ := find?_of_isCurrent (by simpa using hcurrent)
          refine .inr (.inr ⟨place, p, d, items, rfl, hplace, hstage, hf, hserial, ?_⟩)
          simp [verdict, hstage, hc, hserial, (mem_of_find? hf).2]
        · exact .inl (by simp [verdict, hstage, hc])
      · exact .inl (verdict_eq_nil fun version items h => hverdict ⟨version, items, h⟩)

end Server

end RobotsTxt
