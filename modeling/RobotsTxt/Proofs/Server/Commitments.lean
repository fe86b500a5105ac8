import RobotsTxt.Proofs.Server.Notices

/-!
# What a server is committed to

The server is committed to post the current version of an open document only, and to take its
diagnostics back when it is closed.

* `Server.Coherent.commitments_closed`, **`Server.Coherent.history_didClose`**: what can come about
  a document that has been closed.
* `Server.Gone`, **`Server.Coherent.history_openDocument`**: what can come about a document that has
  been replaced.
* `Server.Ahead`: no document is behind what has come about it.
-/

namespace RobotsTxt

/-! ## Documents that are not open -/

namespace ServerEvent

/-- Whether an event opens a document under a URI. -/
def opens (uri : Text) : ServerEvent → Bool
  | .request _ (.didOpen u _ _) => u == uri
  | _ => false

/-- Whether an event closes the document with a URI. -/
def closes (uri : Text) : ServerEvent → Bool
  | .request _ (.didClose u) => u == uri
  | _ => false

end ServerEvent

theorem Desk.next_eq_none {k : Desk} {uri : Text} {e : ServerEvent} (h : k uri = none)
    (he : e.opens uri = false) : k.next e uri = none := by
  cases e with
  | background place => exact h
  | request disk r =>
    cases r with
    | didOpen u version text =>
      have hu : uri ≠ u := fun hu => by simp [ServerEvent.opens, hu] at he
      rw [Desk.next, Function.update_of_ne hu, h]
    | didChange u version changes =>
      cases hz : (k u).bind fun x => x.changed? version changes with
      | none => simpa only [Desk.next, hz] using h
      | some y =>
        have hu : uri ≠ u := fun hu => by simp [← hu, h] at hz
        simp only [Desk.next, hz, Function.update_of_ne hu, h]
    | didClose u =>
      by_cases hu : uri = u
      · rw [Desk.next, hu, Function.update_self]
      · rw [Desk.next, Function.update_of_ne hu, h]
    | shutdown => rfl
    | _ => exact h

namespace Server

variable {s t : Server} {d : OpenDocument} {p : Publication} {uri : Text}

theorem Coherent.find?_next (hs : s.Coherent) {e : ServerEvent} (h : s.find? uri = none)
    (he : e.opens uri = false) : (s.next e).find? uri = none := by
  have hshown : s.shown uri = none := by rw [shown, h, Option.map_none]
  have hnext := Desk.next_eq_none hshown he
  rw [← hs.shown_next] at hnext
  exact Option.map_eq_none_iff.mp hnext

theorem commits_closed (h : s.find? uri = none) (e : ServerEvent) :
    (s.commits e).filter (fun m => m.uri == uri) =
      ([e].filter (ServerEvent.closes uri)).map fun _ => .cleared uri := by
  rcases s.commits_cases e with hn | ⟨disk, u, rfl, hn⟩ |
    ⟨place, p, d, items, rfl, -, -, hf, -, hn⟩
  · have hclose : e.closes uri = false := by
      cases e with
      | background place => rfl
      | request disk r =>
        cases r with
        | didClose u => simp [commits] at hn
        | _ => rfl
    simp [hn, hclose]
  · rw [hn]
    by_cases hu : u = uri
    · simp [hu, ServerEvent.closes]
    · simp [hu, ServerEvent.closes]
  · obtain ⟨-, hu⟩ := mem_of_find? hf
    have hne : d.uri ≠ uri := fun heq => by simp [← hu, heq, h] at hf
    simp [hn, ServerEvent.closes, hne]

/-- Until a document is opened under a URI, the server is committed to nothing about it but that it
is closed. -/
theorem Coherent.commitments_closed (hs : s.Coherent) (h : s.find? uri = none)
    {es : List ServerEvent} (hes : ∀ e ∈ es, e.opens uri = false) :
    (s.commitments es).filter (fun m => m.uri == uri) =
      (es.filter (ServerEvent.closes uri)).map fun _ => .cleared uri := by
  induction es generalizing s with
  | nil => rfl
  | cons e es ih =>
    have hnext := hs.find?_next h (hes e List.mem_cons_self)
    rw [commitments, List.filter_append, commits_closed h,
      ih (hs.next e) hnext fun e he => hes e (List.mem_cons_of_mem _ he), ← List.map_append,
      ← List.filter_append, List.singleton_append]

theorem Coherent.history_closed (hs : s.Coherent) (h : s.find? uri = none) (hheld : s.held = [])
    {es : List ServerEvent} (hes : ∀ e ∈ es, e.opens uri = false) :
    (s.history es).filter (fun m => m.uri == uri) =
      (es.filter (ServerEvent.closes uri)).map fun _ => .cleared uri := by
  have hbridge := congrArg (List.filter fun m => m.uri == uri) (hs.history_held es)
  rw [hheld, List.nil_append, hs.commitments_closed h hes, List.filter_append] at hbridge
  -- what is held back at the end is posted, and there is nothing posted among the commitments
  have hnone : (s.run es).held.filter (fun m => m.uri == uri) = [] := by
    refine List.eq_nil_iff_forall_not_mem.mpr fun m hm => ?_
    have hcleared := hbridge ▸ List.mem_append_right _ hm
    obtain ⟨e, -, rfl⟩ := List.mem_map.mp hcleared
    obtain ⟨p, -, hp⟩ := List.mem_flatMap.mp (List.mem_filter.mp hm).1
    unfold Publication.notice at hp
    split at hp <;> simp at hp
  rwa [hnone, List.append_nil] at hbridge

/-- **What is told about a document after it has been closed**, until it is opened again. -/
theorem Coherent.history_didClose (hs : s.Coherent) (disk : Disk) (uri : Text)
    {es : List ServerEvent} (hes : ∀ e ∈ es, e.opens uri = false) :
    ((s.next (.request disk (.didClose uri))).history es).filter (fun m => m.uri == uri) =
      (es.filter (ServerEvent.closes uri)).map fun _ => .cleared uri := by
  have hshown := congrFun (hs.shown_next (.request disk (.didClose uri))) uri
  have hclosed : (s.next (.request disk (.didClose uri))).find? uri = none :=
    Option.map_eq_none_iff.mp (hshown.trans (Function.update_self ..))
  have hforget := hs.moves (s.moves_forget uri)
  exact (hs.next _).history_closed hclosed hforget.unlock_held.2 hes

/-- A document that has been open and is not open any more. -/
structure Gone (n : Nat) (s : Server) : Prop where
  opened : n < s.nextSerial
  closed : ∀ d ∈ s.documents, d.serial ≠ n

theorem Gone.of_origin {n : Nat} (h : s.Gone n) (hn : s.nextSerial ≤ t.nextSerial)
    (ho : ∀ e ∈ t.documents, (∃ d ∈ s.documents, d.Becomes e) ∨ e.serial = s.nextSerial) :
    t.Gone n := by
  refine ⟨Nat.lt_of_lt_of_le h.opened hn, fun e he heq => ?_⟩
  rcases ho e he with ⟨d, hd, hb⟩ | hnew
  · exact h.closed d hd (hb.serial.symm.trans heq)
  · have := h.opened
    omega

theorem Gone.next {n : Nat} (h : s.Gone n) (hs : s.Coherent) (e : ServerEvent) :
    (s.next e).Gone n :=
  hs.of_next h (fun hm _ hg => hg.of_origin hm.origin.1 hm.origin.2)
    (fun hp _ hg =>
      hg.of_origin (Nat.le_of_eq hp.origin.1.symm) fun e he => .inl (hp.origin.2 e he))
    e

/-- The server is committed to nothing about a document that has been let go. -/
theorem Gone.commitments {n : Nat} (h : s.Gone n) (hs : s.Coherent) (es : List ServerEvent) :
    ∀ m ∈ s.commitments es, m.serial? ≠ some n := by
  induction es generalizing s with
  | nil => simp [Server.commitments]
  | cons e es ih =>
    intro m hm
    rcases List.mem_append.mp hm with hm | hm
    · rcases s.commits_cases e with hn | ⟨disk, u, -, hn⟩ | ⟨place, p, d, items, -, -, -, hf, -, hn⟩
      · simp [hn] at hm
      · rw [hn, List.mem_singleton] at hm
        simp [hm, Notice.serial?]
      · rw [hn, List.mem_singleton] at hm
        simpa [hm, Notice.serial?] using h.closed d (mem_of_find? hf).1
    · exact ih (h.next hs e) (hs.next e) m hm

/-- **What is told about a document that has been let go**: at most what has been held back, before
anything else. -/
theorem Gone.history {n : Nat} (h : s.Gone n) (hs : s.Coherent) (es : List ServerEvent) :
    ∃ late rest, s.history es = late ++ rest ∧
      (late = [] ∨ late = s.held ∧ ∀ m ∈ late, m.serial? = some n) ∧
      ∀ m ∈ rest, m.serial? ≠ some n := by
  have hnone := h.commitments hs es
  have hbridge := hs.history_held es
  rcases hs.held_cases with hheld | ⟨p, -, version, items, -, hheld⟩
  · rw [hheld, List.nil_append] at hbridge
    exact ⟨[], _, rfl, .inl rfl, fun m hm => hnone m (hbridge ▸ List.mem_append_left _ hm)⟩
  · rw [hheld] at hbridge
    cases hhistory : s.history es with
    | nil => exact ⟨[], [], rfl, .inl rfl, by simp⟩
    | cons m rest =>
      rw [hhistory, List.cons_append, List.singleton_append, List.cons.injEq] at hbridge
      obtain ⟨rfl, hrest⟩ := hbridge
      have hlater : ∀ m ∈ rest, m.serial? ≠ some n :=
        fun m hm => hnone m (hrest ▸ List.mem_append_left _ hm)
      by_cases hn : p.serial = n
      · exact ⟨[_], rest, rfl, .inr ⟨hheld.symm, by simpa [Notice.serial?] using hn⟩, hlater⟩
      · refine ⟨[], _, rfl, .inl rfl, fun m hm => ?_⟩
        rcases List.mem_cons.mp hm with rfl | hm
        · simpa [Notice.serial?] using hn
        · exact hlater m hm

theorem Coherent.gone_openDocument (hs : s.Coherent) (hd : d ∈ s.documents) (version : Int)
    (text : Text) : (s.openDocument d.uri version text).Gone d.serial := by
  have hlt := hs.opened d hd
  unfold Server.openDocument
  rw [hs.find?_eq hd]
  refine ⟨Nat.lt_succ_of_lt hlt, fun e he => ?_⟩
  rcases List.mem_append.mp he with he | he
  · simpa using (List.mem_filter.mp he).2
  · rw [List.mem_singleton.mp he]
    exact Nat.ne_of_gt hlt

/-- **What is told about a document that another one has replaced**: at most what a publication has
checked before, and that before anything else. -/
theorem Coherent.history_openDocument (hs : s.Coherent) (hd : d ∈ s.documents) (version : Int)
    (text : Text) (es : List ServerEvent) : ∃ late rest,
      (s.openDocument d.uri version text).history es = late ++ rest ∧
      (late = [] ∨ ∃ p ∈ s.publications, p.serial = d.serial ∧ ∃ checked items,
        p.stage = .checked checked items ∧ late = [.posted p.serial p.uri checked items]) ∧
      ∀ m ∈ rest, m.serial? ≠ some d.serial := by
  have hmoves := hs.moves_openDocument d.uri version text
  obtain ⟨late, rest, hhistory, hlate, hrest⟩ :=
    (hs.gone_openDocument hd version text).history (hs.moves hmoves) es
  refine ⟨late, rest, hhistory, ?_, hrest⟩
  rw [held_moves hmoves] at hlate
  rcases hlate with hlate | ⟨hlate, hserial⟩
  · exact .inl hlate
  · rcases hs.held_cases with hheld | ⟨p, hp, checked, items, hstage, hheld⟩
    · exact .inl (hlate.trans hheld)
    · have hpd : p.serial = d.serial := by simpa [hlate, hheld, Notice.serial?] using hserial
      exact .inr ⟨p, hp, hpd, checked, items, hstage, hlate.trans hheld⟩

/-! ## Versions in order -/

/-- **No document is behind what the server has been committed to**, and commitments are in order.
-/
structure Ahead (h : List Notice) (s : Server) : Prop where
  reached : ∀ n u v items, .posted n u v items ∈ h → n < s.nextSerial ∧
    ∀ d ∈ s.documents, d.serial = n → v ≤ d.version
  ordered : ∀ n, (h.filterMap (Notice.version? n)).Pairwise (· ≤ ·)

variable {h : List Notice}

theorem Ahead.of_origin (ha : s.Ahead h) (hn : s.nextSerial ≤ t.nextSerial)
    (ho : ∀ e ∈ t.documents, (∃ d ∈ s.documents, d.Becomes e) ∨ e.serial = s.nextSerial) :
    t.Ahead h := by
  refine ⟨fun n u v items hm => ?_, ha.ordered⟩
  obtain ⟨hlt, hle⟩ := ha.reached n u v items hm
  refine ⟨Nat.lt_of_lt_of_le hlt hn, fun e he heq => ?_⟩
  rcases ho e he with ⟨d, hd, hb⟩ | hnew
  · have hv := hle d hd (hb.serial.symm.trans heq)
    rcases hb.upTo with hlater | hsame
    · exact Int.le_of_lt (Int.lt_of_le_of_lt hv hlater)
    · rw [show d.version = e.version from congrArg Snapshot.version hsame] at hv
      exact hv
  · omega

theorem Ahead.tell (ha : s.Ahead h) (hs : s.Coherent) (e : ServerEvent) :
    s.Ahead (h ++ s.commits e) := by
  rcases s.commits_cases e with hn | ⟨disk, uri, -, hn⟩ |
    ⟨place, p, d, items, -, -, -, hf, -, hn⟩
  · rwa [hn, List.append_nil]
  · rw [hn]
    refine ⟨fun n u v items hm => ha.reached n u v items (by simpa using hm), fun n => ?_⟩
    rw [List.filterMap_append]
    exact (List.append_nil _).symm ▸ ha.ordered n
  · have hd := (mem_of_find? hf).1
    rw [hn]
    constructor
    · intro n u v items' hm
      rcases List.mem_append.mp hm with hm | hm
      · exact ha.reached n u v items' hm
      · obtain ⟨rfl, rfl, rfl, -⟩ := Notice.posted.inj (List.mem_singleton.mp hm)
        refine ⟨hs.opened d hd, fun d' hd' heq => ?_⟩
        obtain rfl := hs.eq_of_serial hd' hd heq
        exact Int.le_refl _
    · intro n
      rw [List.filterMap_append, List.pairwise_append]
      refine ⟨ha.ordered n, ?_, fun v hv w hw => ?_⟩
      · by_cases hdn : d.serial = n <;> simp [Notice.version?, hdn]
      · obtain ⟨m, hm, hmv⟩ := List.mem_filterMap.mp hv
        obtain ⟨m', hm', hmw⟩ := List.mem_filterMap.mp hw
        rw [List.mem_singleton] at hm'
        subst hm'
        simp only [Notice.version?, Option.ite_none_right_eq_some, Option.some.injEq] at hmw
        obtain ⟨rfl, rfl⟩ := hmw
        cases m with
        | cleared u => simp [Notice.version?] at hmv
        | posted n u v' items' =>
          simp only [Notice.version?, Option.ite_none_right_eq_some, Option.some.injEq] at hmv
          obtain ⟨rfl, rfl⟩ := hmv
          exact (ha.reached _ u v' items' hm).2 d hd rfl

theorem Ahead.next (ha : s.Ahead h) (hs : s.Coherent) (e : ServerEvent) :
    (s.next e).Ahead (h ++ s.commits e) :=
  hs.of_next (ha.tell hs e) (fun hm _ ha => ha.of_origin hm.origin.1 hm.origin.2)
    (fun hp _ ha =>
      ha.of_origin (Nat.le_of_eq hp.origin.1.symm) fun e he => .inl (hp.origin.2 e he))
    e

theorem Ahead.run (ha : s.Ahead h) (hs : s.Coherent) (es : List ServerEvent) :
    (s.run es).Ahead (h ++ s.commitments es) := by
  induction es generalizing s h with
  | nil =>
    rw [Server.commitments, List.append_nil]
    exact ha
  | cons e es ih =>
    rw [Server.commitments, ← List.append_assoc]
    exact ih (ha.next hs e) (hs.next e)

end Server

end RobotsTxt
