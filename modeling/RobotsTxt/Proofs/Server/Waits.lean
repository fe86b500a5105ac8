import Mathlib.Data.List.Nodup
import Mathlib.Data.List.Perm.Basic
import RobotsTxt.Proofs.Lookup
import RobotsTxt.Server.VersionQueue

/-!
# Waiting for versions

Whoever waits for a version of a document is released as soon as that version or a later one has
been dealt with, or the document is closed, and never before. No channel is closed twice, so that a
queue at work never breaks off.

* `handledSince`: the versions of a document that count, `VersionQueue.reached?_updateAll`: the
  greatest of them is recorded.
* `QueueAction.Ends`: what ends the wait for a version of a document.
* `QueueRun.Sound`: closed and open channels are all different, and whoever waits, waits for a
  version above the recorded one; `QueueRun.Sound.next` and `QueueRun.Sound.run` keep it.
* `QueueRun.mem_waiting_run`: a wait lasts until something ends it.
* **`QueueRun.waits_exact`**: all of it, after every sequence of waits and updates.
-/

namespace RobotsTxt

/-! ## Recorded versions -/

/-- The version that is recorded after a modification. -/
def Modification.recorded (before? : Option Int) : Modification → Option Int
  | .closed => none
  | .handled v => some (match before? with
    | some r => max r v
    | none => v)

/-- The versions that count after a modification, if `vs` have counted before. -/
def Modification.extend (vs : List Int) : Modification → List Int
  | .closed => []
  | .handled v => vs ++ [v]

/-- The versions of a document that have been dealt with since it was closed last, where `vs` are
those from before some modifications. -/
def handledSince (uri : Text) (vs : List Int) : List (Text × Modification) → List Int
  | [] => vs
  | (u, m) :: ms => handledSince uri (if u = uri then m.extend vs else vs) ms

theorem Modification.max?_extend (vs : List Int) (m : Modification) :
    (m.extend vs).max? = m.recorded vs.max? := by
  cases m with
  | closed => rfl
  | handled v =>
    cases vs with
    | nil => rfl
    | cons r vs =>
      change some ((vs ++ [v]).foldl max r) = some (max (vs.foldl max r) v)
      rw [List.foldl_append]
      rfl

theorem handledSince_append (uri : Text) (vs : List Int) (ms ns : List (Text × Modification)) :
    handledSince uri vs (ms ++ ns) = handledSince uri (handledSince uri vs ms) ns := by
  induction ms generalizing vs with
  | nil => rfl
  | cons e ms ih => exact ih _

/-- While a document is not closed, no version ceases to count. -/
theorem subset_handledSince {uri : Text} {vs : List Int} {ms : List (Text × Modification)}
    (h : (uri, .closed) ∉ ms) : vs ⊆ handledSince uri vs ms := by
  induction ms generalizing vs with
  | nil => exact List.Subset.refl vs
  | cons e ms ih =>
    obtain ⟨u, m⟩ := e
    obtain ⟨hne, hms⟩ := not_or.mp (mt List.mem_cons.mpr h)
    refine List.Subset.trans ?_ (ih hms)
    split
    · next hu =>
      cases m with
      | closed => exact absurd (by rw [hu]) hne
      | handled v => exact List.subset_append_left vs [v]
    · exact List.Subset.refl vs

namespace VersionQueue

variable {q : VersionQueue} {uri : Text} {version : Int} {m : Modification}
  {ms : List (Text × Modification)} {w : Waiting} {c : Nat}

theorem reached?_update (q : VersionQueue) (uri u : Text) (m : Modification) :
    (q.update uri m).2.reached? u =
      if u = uri then m.recorded (q.reached? uri) else q.reached? u := by
  cases m with
  | closed => exact lookup_filter_bne
  | handled v => exact lookup_cons_filter (l := q.reached)

theorem updateAll_cons (q : VersionQueue) (uri : Text) (m : Modification)
    (ms : List (Text × Modification)) :
    q.updateAll ((uri, m) :: ms) =
      ((q.update uri m).1 ++ ((q.update uri m).2.updateAll ms).1,
        ((q.update uri m).2.updateAll ms).2) := rfl

/-- **The greatest version that counts is recorded.** -/
theorem reached?_updateAll {vs : List Int} (h : q.reached? uri = vs.max?)
    (ms : List (Text × Modification)) :
    (q.updateAll ms).2.reached? uri = (handledSince uri vs ms).max? := by
  induction ms generalizing q vs with
  | nil => exact h
  | cons e ms ih =>
    obtain ⟨u, m⟩ := e
    rw [updateAll_cons]
    refine ih ?_
    rw [reached?_update]
    by_cases hu : uri = u
    · rw [if_pos hu, if_pos hu.symm, ← hu, h, m.max?_extend]
    · rw [if_neg hu, if_neg (Ne.symm hu), h]

theorem reached?_wait (q : VersionQueue) (uri u : Text) (version : Int) :
    (q.wait uri version).2.reached? u = q.reached? u := by
  unfold wait
  split
  · rfl
  · split <;> rfl

/-! ## Waiters and their channels -/

/-- Some modifications that end the wait for a version of a document. -/
def EndedBy (ms : List (Text × Modification)) (uri : Text) (version : Int) : Prop :=
  ∃ e ∈ ms, uri = e.1 ∧ e.2.ends version

instance : Decidable (EndedBy ms uri version) :=
  inferInstanceAs (Decidable (∃ e ∈ ms, uri = e.1 ∧ e.2.ends version))

theorem endedBy_cons {u : Text} : EndedBy ((u, m) :: ms) uri version ↔
    uri = u ∧ m.ends version ∨ EndedBy ms uri version := by
  simp [EndedBy]

theorem mem_waiting_update : w ∈ (q.update uri m).2.waiting ↔
    w ∈ q.waiting ∧ ¬ (w.uri = uri ∧ m.ends w.version) := by
  simp only [update, List.mem_filter, Bool.not_eq_true', ← Bool.not_eq_true, Bool.and_eq_true,
    beq_iff_eq]

theorem mem_closed_update : c ∈ (q.update uri m).1 ↔
    ∃ w ∈ q.waiting, (w.uri = uri ∧ m.ends w.version) ∧ w.channel = c := by
  simp [update, and_assoc]

theorem update_perm (q : VersionQueue) (uri : Text) (m : Modification) :
    ((q.update uri m).1 ++ (q.update uri m).2.waiting.map Waiting.channel).Perm
      (q.waiting.map Waiting.channel) := by
  have hparts := (List.filter_append_perm (fun w => w.uri == uri && m.ends w.version) q.waiting).map
    Waiting.channel
  rwa [List.map_append] at hparts

theorem mem_waiting_updateAll : w ∈ (q.updateAll ms).2.waiting ↔
    w ∈ q.waiting ∧ ¬ EndedBy ms w.uri w.version := by
  induction ms generalizing q with
  | nil => simp [updateAll, EndedBy]
  | cons e ms ih =>
    obtain ⟨u, m⟩ := e
    rw [updateAll_cons, ih, mem_waiting_update, endedBy_cons, not_or, and_assoc]

theorem mem_closed_updateAll : c ∈ (q.updateAll ms).1 ↔
    ∃ w ∈ q.waiting, EndedBy ms w.uri w.version ∧ w.channel = c := by
  induction ms generalizing q with
  | nil => simp [updateAll, EndedBy]
  | cons e ms ih =>
    obtain ⟨u, m⟩ := e
    rw [updateAll_cons, List.mem_append, mem_closed_update, ih]
    simp only [mem_waiting_update, endedBy_cons]
    constructor
    · rintro (⟨w, hw, hend, hc⟩ | ⟨w, ⟨hw, -⟩, hend, hc⟩)
      · exact ⟨w, hw, .inl hend, hc⟩
      · exact ⟨w, hw, .inr hend, hc⟩
    · rintro ⟨w, hw, hend, hc⟩
      -- the first modification that ends a wait is the one that closes its channel
      by_cases hfirst : w.uri = u ∧ m.ends w.version
      · exact .inl ⟨w, hw, hfirst, hc⟩
      · exact .inr ⟨w, ⟨hw, hfirst⟩, hend.resolve_left hfirst, hc⟩

theorem updateAll_perm (q : VersionQueue) (ms : List (Text × Modification)) :
    ((q.updateAll ms).1 ++ (q.updateAll ms).2.waiting.map Waiting.channel).Perm
      (q.waiting.map Waiting.channel) := by
  induction ms generalizing q with
  | nil => exact .refl _
  | cons e ms ih =>
    obtain ⟨u, m⟩ := e
    rw [updateAll_cons, List.append_assoc]
    exact ((ih _).append_left _).trans (q.update_perm u m)

theorem nextChannel_updateAll (q : VersionQueue) (ms : List (Text × Modification)) :
    (q.updateAll ms).2.nextChannel = q.nextChannel := by
  induction ms generalizing q with
  | nil => rfl
  | cons e ms ih => exact ih _

theorem reached_iff : (q.reached? uri).any (version ≤ ·) ↔
    ∃ v, q.reached? uri = some v ∧ version ≤ v := by
  simp [Option.any_eq_true]

theorem wait_eq_none_iff : (q.wait uri version).1 = none ↔
    ∃ v, q.reached? uri = some v ∧ version ≤ v := by
  rw [wait, ← reached_iff]
  split
  · next h => simp [h]
  · next h => split <;> simp [h]

theorem mem_waiting_of_wait (h : (q.wait uri version).1 = some c) :
    ⟨uri, version, c⟩ ∈ (q.wait uri version).2.waiting := by
  unfold wait at h ⊢
  split at h
  · simp at h
  · next hnew =>
    rw [if_neg hnew]
    cases hshared : q.channel? uri version with
    | some d =>
      obtain ⟨w, hw, rfl⟩ := Option.map_eq_some_iff.mp hshared
      obtain ⟨rfl, rfl⟩ : w.uri = uri ∧ w.version = version := by simpa using List.find?_some hw
      obtain rfl : w.channel = c := by simpa [hshared] using h
      exact List.mem_of_find?_eq_some hw
    | none =>
      obtain rfl : q.nextChannel = c := by simpa [hshared] using h
      exact List.mem_append_right _ (List.mem_singleton_self _)

/-- **What a wait does to a queue**: nothing, or it opens a new channel for a version that has not
been reached. -/
theorem wait_cases (q : VersionQueue) (uri : Text) (version : Int) :
    (q.wait uri version).2 = q ∨
    (∀ v, q.reached? uri = some v → v < version) ∧
      (q.wait uri version).2 = { q with
        waiting := q.waiting ++ [⟨uri, version, q.nextChannel⟩]
        nextChannel := q.nextChannel + 1 } := by
  rw [wait]
  split
  · exact .inl rfl
  · next h =>
    split
    · exact .inl rfl
    · exact .inr ⟨fun v hv => Int.not_le.mp fun hle => h (reached_iff.mpr ⟨v, hv, hle⟩), rfl⟩

/-- Whoever waits, waits for a version above the recorded one. -/
def Ahead (q : VersionQueue) : Prop :=
  ∀ w ∈ q.waiting, ∀ v, q.reached? w.uri = some v → v < w.version

theorem Ahead.update (h : q.Ahead) (uri : Text) (m : Modification) : (q.update uri m).2.Ahead := by
  intro w hw v hv
  obtain ⟨hmem, hkept⟩ := mem_waiting_update.mp hw
  rw [reached?_update] at hv
  split at hv
  · next huri =>
    cases m with
    | closed => simp [Modification.recorded] at hv
    | handled u =>
      have hu : u < w.version := by simpa [huri, Modification.ends] using hkept
      have hold := h w hmem
      rw [huri] at hold
      cases hr : q.reached? uri with
      | none =>
        obtain rfl : u = v := by simpa [Modification.recorded, hr] using hv
        exact hu
      | some r =>
        obtain rfl : max r u = v := by simpa [Modification.recorded, hr] using hv
        exact Int.max_lt.mpr ⟨hold r hr, hu⟩
  · exact h w hmem v hv

theorem Ahead.updateAll (h : q.Ahead) (ms : List (Text × Modification)) :
    (q.updateAll ms).2.Ahead := by
  induction ms generalizing q with
  | nil => exact h
  | cons e ms ih => exact ih (h.update e.1 e.2)

theorem Ahead.wait (h : q.Ahead) (uri : Text) (version : Int) : (q.wait uri version).2.Ahead := by
  obtain hwait | ⟨hnew, hwait⟩ := q.wait_cases uri version
  · rwa [hwait]
  · rw [hwait]
    intro w hw v hv
    rcases List.mem_append.mp hw with hw | hw
    · exact h w hw v hv
    · obtain rfl := List.mem_singleton.mp hw
      exact hnew v hv

end VersionQueue

/-! ## A queue at work -/

namespace QueueAction

/-- The modifications that an action reports. -/
def modifications : QueueAction → List (Text × Modification)
  | .wait _ _ => []
  | .update ms => ms

/-- **What ends the wait for a version of a document**: an update in which the document is closed,
or that version or a later one has been dealt with. -/
def Ends (uri : Text) (version : Int) (a : QueueAction) : Prop :=
  VersionQueue.EndedBy a.modifications uri version

instance (uri : Text) (version : Int) (a : QueueAction) : Decidable (a.Ends uri version) :=
  inferInstanceAs (Decidable (VersionQueue.EndedBy _ _ _))

/-- An update in which a document is closed. -/
def Closes (uri : Text) (a : QueueAction) : Prop := (uri, .closed) ∈ a.modifications

theorem not_ends_wait {uri u : Text} {version v : Int} : ¬ (wait u v).Ends uri version := by
  simp [Ends, modifications, VersionQueue.EndedBy]

end QueueAction

namespace QueueRun

variable {r : QueueRun} {w : Waiting} {a : QueueAction} {as : List QueueAction}

/-- **A queue at work** whose open channels and closed channels are all different, and in which
whoever waits, waits for a version that has not been reached. -/
structure Sound (r : QueueRun) : Prop where
  distinct : (r.closed ++ r.queue.waiting.map Waiting.channel).Nodup
  issued : ∀ c ∈ r.closed ++ r.queue.waiting.map Waiting.channel, c < r.queue.nextChannel
  ahead : r.queue.Ahead

theorem sound_fresh : Sound {} :=
  ⟨List.nodup_nil, fun _ h => absurd h List.not_mem_nil, fun _ h => absurd h List.not_mem_nil⟩

/-- The state after an action, as long as no channel is closed twice. -/
def next (r : QueueRun) : QueueAction → QueueRun
  | .wait uri version => { r with queue := (r.queue.wait uri version).2 }
  | .update ms => ⟨(r.queue.updateAll ms).2, r.closed ++ (r.queue.updateAll ms).1⟩

theorem close?_eq {cs : List Nat} (h : (r.closed ++ cs).Nodup) :
    r.close? cs = some { r with closed := r.closed ++ cs } := by
  induction cs generalizing r with
  | nil => rw [close?, List.append_nil]
  | cons c cs ih =>
    have hc : c ∉ r.closed := fun hc =>
      (List.nodup_append.mp h).2.2 c hc c List.mem_cons_self rfl
    rw [close?, if_neg hc, ih (by simpa using h)]
    simp

theorem perm_update (r : QueueRun) (ms : List (Text × Modification)) :
    (r.closed ++ (r.queue.updateAll ms).1 ++
      (r.queue.updateAll ms).2.waiting.map Waiting.channel).Perm
    (r.closed ++ r.queue.waiting.map Waiting.channel) := by
  rw [List.append_assoc]
  exact (r.queue.updateAll_perm ms).append_left _

/-- **Every action keeps the channels apart** and the waits above what is recorded. -/
theorem Sound.next (h : r.Sound) (a : QueueAction) : (r.next a).Sound := by
  cases a with
  | wait uri version =>
    suffices hnew : (r.closed ++ (r.queue.wait uri version).2.waiting.map Waiting.channel).Nodup ∧
        ∀ c ∈ r.closed ++ (r.queue.wait uri version).2.waiting.map Waiting.channel,
          c < (r.queue.wait uri version).2.nextChannel from
      ⟨hnew.1, hnew.2, h.ahead.wait uri version⟩
    obtain hwait | ⟨-, hwait⟩ := r.queue.wait_cases uri version
    · rw [hwait]
      exact ⟨h.distinct, h.issued⟩
    · rw [hwait]
      simp only [List.map_append, ← List.append_assoc, List.map_cons, List.map_nil]
      refine ⟨List.nodup_append.mpr ⟨h.distinct, List.nodup_singleton _, fun c hc d hd => ?_⟩,
        fun c hc => ?_⟩
      · rw [List.mem_singleton.mp hd]
        exact Nat.ne_of_lt (h.issued c hc)
      · rcases List.mem_append.mp hc with hc | hc
        · exact Nat.lt_succ_of_lt (h.issued c hc)
        · rw [List.mem_singleton.mp hc]
          exact Nat.lt_succ_self _
  | update ms =>
    refine ⟨(r.perm_update ms).nodup_iff.mpr h.distinct, fun c hc => ?_, h.ahead.updateAll ms⟩
    rw [QueueRun.next, VersionQueue.nextChannel_updateAll]
    exact h.issued c ((r.perm_update ms).mem_iff.mp hc)

/-- An action never closes a channel twice. -/
theorem Sound.step?_eq (h : r.Sound) (a : QueueAction) : r.step? a = some (r.next a) := by
  cases a with
  | wait uri version => rfl
  | update ms =>
    have hnodup := (List.nodup_append.mp (h.next (.update ms)).distinct).1
    exact close?_eq hnodup

theorem Sound.run (h : r.Sound) (as : List QueueAction) :
    r.run? as = some (as.foldl QueueRun.next r) ∧ (as.foldl QueueRun.next r).Sound := by
  induction as generalizing r with
  | nil => exact ⟨rfl, h⟩
  | cons a as ih =>
    rw [run?, h.step?_eq a]
    exact ih (h.next a)

/-! ## How long a wait lasts -/

theorem nextChannel_le_next (r : QueueRun) (a : QueueAction) :
    r.queue.nextChannel ≤ (r.next a).queue.nextChannel := by
  cases a with
  | wait uri version =>
    obtain hwait | ⟨-, hwait⟩ := r.queue.wait_cases uri version <;> simp [next, hwait]
  | update ms => exact Nat.le_of_eq (r.queue.nextChannel_updateAll ms).symm

/-- **One action ends a wait or leaves it as it is.** -/
theorem mem_waiting_next (hw : w.channel < r.queue.nextChannel) :
    w ∈ (r.next a).queue.waiting ↔ w ∈ r.queue.waiting ∧ ¬ a.Ends w.uri w.version := by
  cases a with
  | wait uri version =>
    simp only [next, QueueAction.not_ends_wait, not_false_eq_true, and_true]
    obtain hwait | ⟨-, hwait⟩ := r.queue.wait_cases uri version
    · rw [hwait]
    · rw [hwait, List.mem_append, List.mem_singleton, or_iff_left]
      rintro rfl
      exact absurd hw (Nat.lt_irrefl _)
  | update ms => exact VersionQueue.mem_waiting_updateAll

/-- **A wait lasts until something ends it.** -/
theorem mem_waiting_run (hw : w.channel < r.queue.nextChannel) (as : List QueueAction) :
    w ∈ (as.foldl next r).queue.waiting ↔
      w ∈ r.queue.waiting ∧ ∀ a ∈ as, ¬ a.Ends w.uri w.version := by
  induction as generalizing r with
  | nil => simp
  | cons a as ih =>
    rw [List.foldl_cons, ih (Nat.lt_of_lt_of_le hw (r.nextChannel_le_next a)), mem_waiting_next hw,
      List.forall_mem_cons, and_assoc]

theorem closed_subset_next (r : QueueRun) (a : QueueAction) : r.closed ⊆ (r.next a).closed := by
  cases a with
  | wait uri version => exact List.Subset.refl _
  | update ms => exact List.subset_append_left _ _

theorem closed_or_waiting_run (hw : w.channel ∈ r.closed ∨ w ∈ r.queue.waiting)
    (as : List QueueAction) :
    w.channel ∈ (as.foldl next r).closed ∨ w ∈ (as.foldl next r).queue.waiting := by
  induction as generalizing r with
  | nil => exact hw
  | cons a as ih =>
    refine ih ?_
    rcases hw with hw | hw
    · exact .inl (r.closed_subset_next a hw)
    · cases a with
      | wait uri version =>
        obtain hwait | ⟨-, hwait⟩ := r.queue.wait_cases uri version <;> simp [next, hwait, hw]
      | update ms =>
        by_cases hend : VersionQueue.EndedBy ms w.uri w.version
        · exact .inl (List.mem_append_right _
            (VersionQueue.mem_closed_updateAll.mpr ⟨w, hw, hend, rfl⟩))
        · exact .inr (VersionQueue.mem_waiting_updateAll.mpr ⟨hw, hend⟩)

/-! ## What waiters can rely on -/

theorem reached?_run {uri : Text} {vs : List Int} (h : r.queue.reached? uri = vs.max?)
    (as : List QueueAction) : (as.foldl next r).queue.reached? uri =
      (handledSince uri vs (as.flatMap QueueAction.modifications)).max? := by
  induction as generalizing r vs with
  | nil => exact h
  | cons a as ih =>
    rw [List.flatMap_cons, handledSince_append]
    refine ih ?_
    cases a with
    | wait u version => exact (r.queue.reached?_wait u uri version).trans h
    | update ms => exact VersionQueue.reached?_updateAll h ms

/-- A version that is recorded gives way to greater ones only, until the document is closed. -/
theorem recorded_grows {uri : Text} {vs : List Int} {v : Int} (h : r.queue.reached? uri = vs.max?)
    (hv : r.queue.reached? uri = some v) (hopen : ∀ a ∈ as, ¬ a.Closes uri) :
    ∃ v', (as.foldl next r).queue.reached? uri = some v' ∧ v ≤ v' := by
  have hsub : vs ⊆ handledSince uri vs (as.flatMap QueueAction.modifications) := by
    refine subset_handledSince fun hclosed => ?_
    obtain ⟨a, ha, hmem⟩ := List.mem_flatMap.mp hclosed
    exact hopen a ha hmem
  have hmem := hsub (List.max?_mem (h.symm.trans hv))
  rw [reached?_run h]
  cases hmax : (handledSince uri vs (as.flatMap QueueAction.modifications)).max? with
  | none => simp [List.max?_eq_none_iff.mp hmax] at hmem
  | some v' => exact ⟨v', rfl, (List.max?_eq_some_iff.mp hmax).2 v hmem⟩

/-- **What someone who waits for a version on a channel can rely on**, in a state that some later
actions have led to. -/
structure Attends (r : QueueRun) (uri : Text) (version : Int) (c : Nat)
    (later : List QueueAction) : Prop where
  /-- The wait lasts as long as nothing has ended it. -/
  pending : c ∉ r.closed ↔ ∀ a ∈ later, ¬ a.Ends uri version
  /-- As long as it lasts, the version is above the recorded one. -/
  above : c ∉ r.closed → ∀ v, r.queue.reached? uri = some v → v < version
  /-- The next update releases the waiter if and only if it is the first one that ends the wait. -/
  released : ∀ ms, c ∈ (r.queue.updateAll ms).1 ↔
    c ∉ r.closed ∧ (QueueAction.update ms).Ends uri version

theorem Sound.notMem_closed (h : r.Sound) (hw : w ∈ r.queue.waiting) : w.channel ∉ r.closed :=
  fun hc => (List.nodup_append.mp h.distinct).2.2 _ hc _ (List.mem_map_of_mem hw) rfl

theorem Sound.attends (h : r.Sound) (hw : w ∈ r.queue.waiting) (later : List QueueAction) :
    (later.foldl QueueRun.next r).Attends w.uri w.version w.channel later := by
  have hissued : w.channel < r.queue.nextChannel :=
    h.issued _ (List.mem_append_right _ (List.mem_map_of_mem hw))
  have hkept := closed_or_waiting_run (.inr hw) later
  have hlast := mem_waiting_run hissued later
  obtain ⟨-, hsound⟩ := h.run later
  generalize later.foldl QueueRun.next r = r' at hkept hlast hsound ⊢
  have hopen : w.channel ∉ r'.closed ↔ w ∈ r'.queue.waiting :=
    ⟨hkept.resolve_left, hsound.notMem_closed⟩
  refine ⟨?_, fun hc => hsound.ahead w (hopen.mp hc), fun ms => ?_⟩
  · rw [hopen, hlast, and_iff_right hw]
  · rw [hopen, VersionQueue.mem_closed_updateAll]
    constructor
    · rintro ⟨w', hw', hend, hc⟩
      have hmem : w ∈ r'.queue.waiting := hopen.mp (hc ▸ hsound.notMem_closed hw')
      obtain rfl : w' = w :=
        List.inj_on_of_nodup_map (List.nodup_append.mp hsound.distinct).2.1 hw' hmem hc
      exact ⟨hw', hend⟩
    · rintro ⟨hmem, hend⟩
      exact ⟨w, hmem, hend, rfl⟩

/-- **The queue releases waiters exactly when it should.** After any actions no channel has been
closed twice, and the greatest version of every document that has been dealt with since it was last
closed is recorded; it gives way to greater ones only, until the document is closed again. Whoever
begins to wait then goes on at once if the version has been reached, and gets a channel otherwise,
which is closed by the first update that ends the wait, and by no other. -/
theorem waits_exact (actions : List QueueAction) :
    ∃ r, run? {} actions = some r ∧ r.closed.Nodup ∧
      (∀ uri, r.queue.reached? uri =
        (handledSince uri [] (actions.flatMap QueueAction.modifications)).max?) ∧
      (∀ uri v later, r.queue.reached? uri = some v → (∀ a ∈ later, ¬ a.Closes uri) →
        ∃ r' v', r.run? later = some r' ∧ r'.queue.reached? uri = some v' ∧ v ≤ v') ∧
      ∀ uri version,
        ((r.queue.wait uri version).1 = none ↔
          ∃ v, r.queue.reached? uri = some v ∧ version ≤ v) ∧
        ∀ c, (r.queue.wait uri version).1 = some c → ∀ later,
          ∃ r', r.run? (.wait uri version :: later) = some r' ∧
            r'.Attends uri version c later := by
  obtain ⟨hrun, hsound⟩ := sound_fresh.run actions
  have hrecorded : ∀ uri, (actions.foldl next {}).queue.reached? uri =
      (handledSince uri [] (actions.flatMap QueueAction.modifications)).max? :=
    fun _ => reached?_run rfl actions
  generalize actions.foldl next {} = r at hrun hsound hrecorded
  refine ⟨r, hrun, (List.nodup_append.mp hsound.distinct).1, hrecorded,
    fun uri v later hv hopen => ?_,
    fun uri version => ⟨VersionQueue.wait_eq_none_iff, fun c hc later => ?_⟩⟩
  · obtain ⟨v', hv', hle⟩ := recorded_grows (hrecorded uri) hv hopen
    exact ⟨_, v', (hsound.run later).1, hv', hle⟩
  · have hmem := VersionQueue.mem_waiting_of_wait hc
    exact ⟨_, (hsound.run (.wait uri version :: later)).1,
      (hsound.next (.wait uri version)).attends hmem later⟩

/-- A second waiter shares the channel of the first. Neither an update that comes too late nor one
of another document releases them, but closing the document does. -/
theorem waits_exact_shared :
    let uri := utf8 "file:///robots.txt"
    let actions : List QueueAction := [.update [(uri, .handled 2)], .wait uri 3]
    let later : List QueueAction :=
      [.update [(uri, .handled 1), (utf8 "file:///other.txt", .handled 9)]]
    let queue : VersionQueue :=
      { reached := [(uri, 2)], waiting := [⟨uri, 3, 0⟩], nextChannel := 1 }
    run? {} actions = some ⟨queue, []⟩ ∧ (queue.wait uri 3).1 = some 0 ∧
      ∃ r, run? ⟨queue, []⟩ (.wait uri 3 :: later) = some r ∧ r.Attends uri 3 0 later ∧
        0 ∉ r.closed ∧ 0 ∈ (r.queue.updateAll [(uri, .closed)]).1 := by
  intro uri actions later queue
  obtain ⟨r, hrun, -, -, -, hwaits⟩ := waits_exact actions
  have hstate : run? {} actions = some ⟨queue, []⟩ := by decide +kernel
  obtain rfl := Option.some_inj.mp (hstate.symm.trans hrun)
  have hc : (queue.wait uri 3).1 = some 0 := by decide +kernel
  obtain ⟨r, hrun, hattends⟩ := (hwaits uri 3).2 0 hc later
  have hpending : 0 ∉ r.closed := hattends.pending.mpr (by decide +kernel)
  exact ⟨hstate, hc, r, hrun, hattends, hpending,
    (hattends.released _).mpr ⟨hpending, by decide +kernel⟩⟩

end QueueRun

end RobotsTxt
