import Mathlib.Data.List.ReduceOption
import RobotsTxt.Proofs.Session.Cache

/-!
# Who hears of which edit

Whatever is done with a session, edits are applied in the order of their versions, and each of them
is told once to those who listen at that moment.

* `Session.Act`, `Session.perform`: what can be done with a session, and the session after it.
* `Session.applied`: the edits that a session applies; **`Session.isStale_perform_iff`**: which
  these are.
* `Session.Registered`: who listens after some acts, as the acts tell it;
  **`Session.mem_listeners_iff`**: the session knows them.
* `Session.heard`: what one listener hears; `Session.Numbered.heard_sublist`: nothing but applied
  edits.
* `Session.Alike`: two sessions that one listener cannot tell apart.
* **`Session.edits_heard`**: all of this, after any acts.
-/

namespace RobotsTxt

namespace Session

/-! ## Acts -/

/-- Something that is done with a session: somebody starts or stops to listen, or asks. -/
inductive Act where
  | listen
  | unlisten (listener : Nat)
  | ask (q : Inquiry)

namespace Act

/-- Whether a new listener is registered. -/
def registers : Act → Bool
  | .listen => true
  | .unlisten _ | .ask _ => false

/-- Whether a listener other than a given one is removed. -/
def removesOther (n : Nat) : Act → Bool
  | .unlisten m => m != n
  | .listen | .ask _ => false

/-- The edit that is to be applied, if there is one. -/
def edit? : Act → Option Edit
  | .ask (.applyEdit e) => some e
  | _ => none

end Act

/-- The session after an act. -/
def act (s : Session) : Act → Session
  | .listen => s.listen.2
  | .unlisten n => s.unlisten n
  | .ask q => (s.ask q).2

/-- The session after some acts. -/
def perform (s : Session) (as : List Act) : Session := as.foldl act s

@[simp] theorem perform_nil (s : Session) : s.perform [] = s := rfl

@[simp] theorem perform_cons (s : Session) (a : Act) (as : List Act) :
    s.perform (a :: as) = (s.act a).perform as := rfl

theorem perform_concat (s : Session) (as : List Act) (a : Act) :
    s.perform (as ++ [a]) = (s.perform as).act a := by
  rw [perform, List.foldl_append]
  rfl

/-! ## Edits in the order of their versions -/

section Edits

variable {s : Session} {e : Edit} {a : Act}

theorem isStale_eq_false_iff :
    s.isStale e = false ↔ ∀ v ∈ s.latestEdit?, v < e.after.version := by
  unfold isStale
  cases s.latestEdit? <;> simp

theorem applyEdit_of_stale (h : s.isStale e) : s.applyEdit e = ((none, []), s) := by
  rw [applyEdit_eq, if_pos h]

/-- The edits that a session applies in the course of some acts: those that are not stale when their
turn comes. -/
def applied (s : Session) : List Act → List Edit
  | [] => []
  | a :: as => (a.edit?.filter fun e => !s.isStale e).toList ++ applied (s.act a) as

theorem latestEdit?_act (s : Session) (a : Act) : (s.act a).latestEdit? =
    match a.edit?.filter fun e => !s.isStale e with
    | some e => some e.after.version
    | none => s.latestEdit? := by
  cases a with
  | listen | unlisten => rfl
  | ask q =>
    cases q with
    | tree x | classify x _ | analyze x _ | highlightsAt x _ => exact s.latestEdit?_tree x
    | applyEdit e =>
      show (s.applyEdit e).2.latestEdit? = _
      rw [applyEdit_eq]
      cases h : s.isStale e <;> simp [Act.edit?, Option.filter_some, h, withLatest]

theorem latestEdit?_perform (s : Session) (as : List Act) : (s.perform as).latestEdit? =
    ((s.applied as).getLast?.map fun e => e.after.version).or s.latestEdit? := by
  induction as generalizing s with
  | nil => rfl
  | cons a as ih =>
    rw [perform_cons, ih, applied, latestEdit?_act]
    cases a.edit?.filter fun e => !s.isStale e with
    | none => rfl
    | some e =>
      rw [Option.toList_some, List.getLast?_append]
      cases (applied (s.act a) as).getLast? <;> rfl

/-- **Edits are applied in the order of their versions.** -/
theorem pairwise_applied (s : Session) (as : List Act) :
    (s.applied as).Pairwise (fun e f => e.after.version < f.after.version) ∧
      ∀ e ∈ s.applied as, ∀ v ∈ s.latestEdit?, v < e.after.version := by
  induction as generalizing s with
  | nil => exact ⟨.nil, by simp [applied]⟩
  | cons a as ih =>
    obtain ⟨hpair, hlatest⟩ := ih (s.act a)
    rw [latestEdit?_act] at hlatest
    rw [applied]
    cases h : a.edit?.filter fun e => !s.isStale e with
    | none =>
      rw [h] at hlatest
      exact ⟨hpair, hlatest⟩
    | some e =>
      rw [h] at hlatest
      obtain ⟨-, hnew⟩ := Option.filter_eq_some_iff.mp h
      have hnew : ∀ v ∈ s.latestEdit?, v < e.after.version :=
        isStale_eq_false_iff.mp (by simpa using hnew)
      have hlater : ∀ f ∈ (s.act a).applied as, e.after.version < f.after.version :=
        fun f hf => hlatest f hf _ rfl
      refine ⟨List.pairwise_cons.mpr ⟨hlater, hpair⟩, List.forall_mem_cons.mpr ⟨hnew, ?_⟩⟩
      exact fun f hf v hv => Int.lt_trans (hnew v hv) (hlater f hf)

/-- **An edit is applied if its version is greater than that of all edits applied before.** -/
theorem isStale_perform_iff (hs : s.latestEdit? = none) (as : List Act) (e : Edit) :
    (s.perform as).isStale e = false ↔
      ∀ f ∈ s.applied as, f.after.version < e.after.version := by
  obtain ⟨hpair, -⟩ := s.pairwise_applied as
  rw [isStale_eq_false_iff, latestEdit?_perform, hs, Option.or_none]
  rcases List.eq_nil_or_concat (s.applied as) with h | ⟨front, last, h⟩
  · simp [h]
  · -- the last one has the greatest version of all
    rw [h, List.concat_eq_append] at hpair ⊢
    obtain ⟨-, -, hlast⟩ := List.pairwise_append.mp hpair
    constructor
    · intro hlt f hf
      have hlt : last.after.version < e.after.version := hlt _ (by simp)
      rcases List.mem_append.mp hf with hf | hf
      · exact Int.lt_trans (hlast f hf last (by simp)) hlt
      · rwa [List.mem_singleton.mp hf]
    · intro hall v hv
      obtain rfl : last.after.version = v := by simpa using hv
      exact hall last (by simp)

end Edits

/-! ## Who listens -/

/-- **Who listens after some acts**: the one who got number `n`, as many having come before, and has
not been removed since. -/
def Registered (as : List Act) (n : Nat) : Prop :=
  ∃ front back, as = front ++ .listen :: back ∧ front.countP Act.registers = n ∧
    .unlisten n ∉ back

section Listeners

variable {s : Session} {as : List Act} {a : Act} {n : Nat}

theorem listeners_ask (s : Session) (q : Inquiry) : (s.ask q).2.listeners = s.listeners := by
  rw [ask_snd, listeners_withLatest, listeners_serve]

theorem nextListener_ask (s : Session) (q : Inquiry) :
    (s.ask q).2.nextListener = s.nextListener := by
  have htree : ∀ (s : Session) (x : Snapshot), (s.tree x).2.nextListener = s.nextListener := by
    intro s x
    unfold tree
    split <;> rfl
  have hserve : ∀ (xs : List Snapshot) (s : Session),
      (s.serve xs).nextListener = s.nextListener := by
    intro xs
    induction xs with
    | nil => exact fun _ => rfl
    | cons x xs ih => exact fun s => (ih _).trans (htree s x)
  rw [ask_snd]
  exact hserve _ s

/-- The numbers of the listeners ascend, and the next number is beyond them. -/
structure Numbered (s : Session) : Prop where
  ascending : s.listeners.Pairwise (· < ·)
  bounded : ∀ n ∈ s.listeners, n < s.nextListener

theorem Numbered.act (h : s.Numbered) (a : Act) : (s.act a).Numbered := by
  cases a with
  | listen =>
    refine ⟨List.pairwise_append.mpr ⟨h.ascending, List.pairwise_singleton _ _, ?_⟩, ?_⟩
    · intro n hn m hm
      rw [List.mem_singleton.mp hm]
      exact h.bounded n hn
    · intro n hn
      rcases List.mem_append.mp hn with hn | hn
      · exact Nat.lt_succ_of_lt (h.bounded n hn)
      · rw [List.mem_singleton.mp hn]
        exact Nat.lt_succ_self _
  | unlisten m =>
    exact ⟨h.ascending.filter _, fun n hn => h.bounded n (List.mem_filter.mp hn).1⟩
  | ask q =>
    constructor
    · show (s.ask q).2.listeners.Pairwise _
      rw [listeners_ask]
      exact h.ascending
    · show ∀ n ∈ (s.ask q).2.listeners, n < (s.ask q).2.nextListener
      rw [listeners_ask, nextListener_ask]
      exact h.bounded

theorem Numbered.perform (h : s.Numbered) (as : List Act) : (s.perform as).Numbered := by
  induction as generalizing s with
  | nil => exact h
  | cons a as ih => exact ih (h.act a)

theorem nextListener_perform (s : Session) (as : List Act) :
    (s.perform as).nextListener = s.nextListener + as.countP Act.registers := by
  induction as generalizing s with
  | nil => rfl
  | cons a as ih =>
    rw [perform_cons, ih, List.countP_cons]
    cases a with
    | listen =>
      show s.nextListener + 1 + _ = _
      simp only [Act.registers, if_true]
      omega
    | unlisten m => rfl
    | ask q =>
      show (s.ask q).2.nextListener + _ = _
      rw [nextListener_ask]
      rfl

theorem registered_concat : Registered (as ++ [a]) n ↔
    (a = .listen ∧ as.countP Act.registers = n) ∨ (Registered as n ∧ a ≠ .unlisten n) := by
  constructor
  · rintro ⟨front, back, hcut, hn, hback⟩
    rcases List.eq_nil_or_concat back with rfl | ⟨back, b, rfl⟩
    · obtain ⟨rfl, ha⟩ := List.append_inj' hcut rfl
      exact .inl ⟨by simpa using ha, hn⟩
    · rw [List.concat_eq_append, ← List.cons_append, ← List.append_assoc] at hcut
      obtain ⟨rfl, ha⟩ := List.append_inj' hcut rfl
      obtain rfl : a = b := by simpa using ha
      simp only [List.concat_eq_append, List.mem_append, List.mem_singleton, not_or] at hback
      exact .inr ⟨⟨front, back, rfl, hn, hback.1⟩, fun h => hback.2 h.symm⟩
  · rintro (⟨rfl, hn⟩ | ⟨⟨front, back, rfl, hn, hback⟩, ha⟩)
    · exact ⟨as, [], rfl, hn, List.not_mem_nil⟩
    · refine ⟨front, back ++ [a], by simp, hn, ?_⟩
      simp only [List.mem_append, List.mem_singleton, not_or]
      exact ⟨hback, fun h => ha h.symm⟩

/-- **A session knows who listens.** -/
theorem mem_listeners_iff (hl : s.listeners = []) (hn : s.nextListener = 0) (as : List Act)
    (n : Nat) : n ∈ (s.perform as).listeners ↔ Registered as n := by
  induction as using List.reverseRecOn generalizing n with
  | nil => simp [hl, Registered]
  | append_singleton as a ih =>
    rw [perform_concat, registered_concat, ← ih]
    cases a with
    | listen =>
      have hnext : (s.perform as).nextListener = as.countP Act.registers := by
        rw [nextListener_perform, hn, Nat.zero_add]
      show n ∈ (s.perform as).listeners ++ [(s.perform as).nextListener] ↔ _
      rw [List.mem_append, List.mem_singleton, hnext]
      simp only [true_and, reduceCtorEq, ne_eq, not_false_eq_true, and_true]
      exact ⟨fun h => h.symm.imp_left Eq.symm, fun h => h.symm.imp_right Eq.symm⟩
    | unlisten m =>
      show n ∈ (s.perform as).listeners.filter (· != m) ↔ _
      simp only [List.mem_filter, bne_iff_ne, reduceCtorEq, false_and, false_or, ne_eq,
        Act.unlisten.injEq]
      exact and_congr_right' (not_congr eq_comm)
    | ask q =>
      show n ∈ ((s.perform as).ask q).2.listeners ↔ _
      rw [listeners_ask]
      simp

end Listeners

/-! ## What a listener hears -/

/-- The impact of an edit, which is that of the trees that the session has for its two versions. -/
def impactOf (s : Session) (e : Edit) : Option Span :=
  impact? (s.tree e.before).1.root ((s.tree e.before).2.tree e.after).1.root e.changes

/-- What a listener hears of an act, as often as it hears it. -/
def tells (s : Session) (n : Nat) (a : Act) : List TagsChanged :=
  match a.edit? with
  | some e => (List.replicate ((s.applyEdit e).1.2.count n) (s.applyEdit e).1.1).reduceOption
  | none => []

/-- What a listener hears in the course of some acts. -/
def heard (n : Nat) (s : Session) : List Act → List TagsChanged
  | [] => []
  | a :: as => s.tells n a ++ heard n (s.act a) as

section Heard

variable {s : Session} {e : Edit}

theorem applyEdit_of_not_stale (h : s.isStale e = false) : (s.applyEdit e).1 =
    match s.impactOf e with
    | some span => (some ⟨e.after.version, span⟩, s.listeners)
    | none => (none, []) := by
  rw [applyEdit_eq, if_neg (by simp [h])]
  rfl

theorem Numbered.count_le_one (h : s.Numbered) (n : Nat) : s.listeners.count n ≤ 1 :=
  List.nodup_iff_count_le_one.mp (h.ascending.imp Nat.ne_of_lt) n

/-- An act tells a listener of nothing but the edit that it applies, and of that only once. -/
theorem Numbered.tells_sublist (h : s.Numbered) (n : Nat) (a : Act) :
    ((s.tells n a).map TagsChanged.version).Sublist
      ((a.edit?.filter fun e => !s.isStale e).toList.map fun e => e.after.version) := by
  unfold tells
  cases a.edit? with
  | none => exact .refl _
  | some e =>
    cases hstale : s.isStale e with
    | true => simp [applyEdit_of_stale hstale]
    | false =>
      simp only [applyEdit_of_not_stale hstale, Option.filter_some, hstale]
      cases s.impactOf e with
      | none => simp
      | some span =>
        rcases Nat.le_one_iff_eq_zero_or_eq_one.mp (h.count_le_one n) with hcount | hcount <;>
          simp [hcount]

/-- **A listener hears of edits that are applied, and of each of them once.** -/
theorem Numbered.heard_sublist (h : s.Numbered) (n : Nat) (as : List Act) :
    ((s.heard n as).map TagsChanged.version).Sublist
      ((s.applied as).map fun e => e.after.version) := by
  induction as generalizing s with
  | nil => exact .refl _
  | cons a as ih =>
    rw [heard, applied, List.map_append, List.map_append]
    exact (h.tells_sublist n a).append (ih (h.act a))

end Heard

/-! ## What a listener cannot hear -/

/-- The session as if others listened. -/
def withListeners (s : Session) (ls : List Nat) : Session := { s with listeners := ls }

/-- Two sessions that differ only in who else than `n` listens. -/
def Alike (n : Nat) (s t : Session) : Prop :=
  ∃ ls, t = s.withListeners ls ∧ ls.count n = s.listeners.count n

section Alike

variable {s t : Session} {n m : Nat}

theorem tree_withListeners (s : Session) (ls : List Nat) (x : Snapshot) :
    (s.withListeners ls).tree x = ((s.tree x).1, (s.tree x).2.withListeners ls) := by
  unfold tree kept? withListeners
  cases s.trees.find? fun t => t.snapshot.version == x.version <;> rfl

theorem serve_withListeners (s : Session) (ls : List Nat) (xs : List Snapshot) :
    (s.withListeners ls).serve xs = (s.serve xs).withListeners ls := by
  induction xs generalizing s with
  | nil => rfl
  | cons x xs ih =>
    show ((s.withListeners ls).tree x).2.serve xs = _
    rw [tree_withListeners]
    exact ih _

theorem Alike.act (h : s.Alike n t) (a : Act) : (s.act a).Alike n (t.act a) := by
  obtain ⟨ls, rfl, hcount⟩ := h
  cases a with
  | listen =>
    refine ⟨ls ++ [s.nextListener], rfl, ?_⟩
    show (ls ++ [s.nextListener]).count n = (s.listeners ++ [s.nextListener]).count n
    rw [List.count_append, List.count_append, hcount]
  | unlisten m =>
    refine ⟨ls.filter (· != m), rfl, ?_⟩
    show (ls.filter (· != m)).count n = (s.listeners.filter (· != m)).count n
    by_cases hm : n = m
    · subst hm
      rw [List.count_eq_zero_of_not_mem (by simp), List.count_eq_zero_of_not_mem (by simp)]
    · rw [List.count_filter (by simpa using hm), List.count_filter (by simpa using hm), hcount]
  | ask q =>
    refine ⟨ls, ?_, ?_⟩
    · show ((s.withListeners ls).ask q).2 = (s.ask q).2.withListeners ls
      rw [ask_snd, ask_snd, serve_withListeners]
      rfl
    · show ls.count n = (s.ask q).2.listeners.count n
      rw [listeners_ask, hcount]

theorem Alike.tells (h : s.Alike n t) (a : Act) : s.tells n a = t.tells n a := by
  obtain ⟨ls, rfl, hcount⟩ := h
  unfold Session.tells
  cases a.edit? with
  | none => rfl
  | some e =>
    have hlate : (s.withListeners ls).isStale e = s.isStale e := rfl
    have himpact : (s.withListeners ls).impactOf e = s.impactOf e := by
      simp only [impactOf, tree_withListeners]
    cases hstale : s.isStale e with
    | true => simp only [applyEdit_of_stale hstale, applyEdit_of_stale (hlate.trans hstale)]
    | false =>
      simp only [applyEdit_of_not_stale hstale, applyEdit_of_not_stale (hlate.trans hstale),
        himpact]
      cases s.impactOf e with
      | none => rfl
      | some span => exact congrArg (fun k => (List.replicate k _).reduceOption) hcount.symm

theorem Alike.unlisten (h : s.Alike n t) (hm : m ≠ n) : s.Alike n (t.unlisten m) := by
  obtain ⟨ls, rfl, hcount⟩ := h
  refine ⟨ls.filter (· != m), rfl, ?_⟩
  rw [List.count_filter (by simpa using hm.symm), hcount]

/-- **What a listener hears does not depend on the removal of others.** -/
theorem Alike.heard_filter (h : s.Alike n t) (as : List Act) :
    s.heard n (as.filter fun a => !a.removesOther n) = t.heard n as := by
  induction as generalizing s t with
  | nil => rfl
  | cons a as ih =>
    cases hother : a.removesOther n with
    | false =>
      rw [List.filter_cons_of_pos (by simp [hother]), heard, heard, h.tells a, ih (h.act a)]
    | true =>
      cases a with
      | listen | ask => simp [Act.removesOther] at hother
      | unlisten m =>
        rw [List.filter_cons_of_neg (by simp [hother]), heard]
        exact ih (h.unlisten (by simpa [Act.removesOther] using hother))

theorem heard_filter (s : Session) (n : Nat) (as : List Act) :
    s.heard n (as.filter fun a => !a.removesOther n) = s.heard n as :=
  Alike.heard_filter ⟨s.listeners, rfl, rfl⟩ as

end Alike

/-! ## All acts together -/

theorem numbered_create (dispatcher : Dispatcher) (retained : Int) :
    (create dispatcher retained).Numbered := ⟨.nil, fun _ h => absurd h List.not_mem_nil⟩

/-- **Edits are applied in the order of their versions, and each listener hears each of them once.**
After any acts, an edit is applied if it is the first one, or if its version is greater than that of
all edits applied before. A stale one does nothing, whatever trees are kept. One that is applied
asks for the trees of its two versions, and if it has an impact, it is told to those who are
registered at that moment, once each, in the order in which they got their numbers. So every
listener hears of greater and greater versions, and of the same ones whoever else is removed. -/
theorem edits_heard (dispatcher : Dispatcher) (retained : Int) (as : List Act) :
    let start := create dispatcher retained
    let s := start.perform as
    (∀ e, s.isStale e = false ↔ ∀ f ∈ start.applied as, f.after.version < e.after.version) ∧
    (∀ e, s.isStale e → ∀ t : Session, t.latestEdit? = s.latestEdit? →
      t.applyEdit e = ((none, []), t)) ∧
    (∃ hs : List Nat, hs.Pairwise (· < ·) ∧ (∀ n, n ∈ hs ↔ Registered as n) ∧
      s.listen.1 = as.countP Act.registers ∧
      ∀ e, s.isStale e = false →
        (s.applyEdit e).2 = (s.serve [e.before, e.after]).withLatest (some e.after.version) ∧
        (s.applyEdit e).1 = match s.impactOf e with
          | some span => (some ⟨e.after.version, span⟩, hs)
          | none => (none, [])) ∧
    ∀ n, (start.heard n as).Pairwise (fun x y => x.version < y.version) ∧
      ∀ bs : List Act,
        (bs.filter fun b => !b.removesOther n) = (as.filter fun a => !a.removesOther n) →
          start.heard n bs = start.heard n as := by
  intro start s
  have hstart : start.Numbered := numbered_create dispatcher retained
  refine ⟨isStale_perform_iff rfl as, fun e he t ht => ?_,
    ⟨s.listeners, ?_, ?_, ?_, fun e he => ?_⟩, fun n => ⟨?_, fun bs hbs => ?_⟩⟩
  · refine applyEdit_of_stale ?_
    rw [isStale, ht]
    exact he
  · exact (hstart.perform as).ascending
  · exact mem_listeners_iff rfl rfl as
  · exact (start.nextListener_perform as).trans (Nat.zero_add _)
  · refine ⟨?_, applyEdit_of_not_stale he⟩
    rw [applyEdit_eq, if_neg (by simp [he])]
  · have happlied : ((start.applied as).map fun e => e.after.version).Pairwise (· < ·) :=
      List.pairwise_map.mpr (start.pairwise_applied as).1
    exact List.pairwise_map.mp (happlied.sublist (hstart.heard_sublist n as))
  · rw [← heard_filter, hbs, heard_filter]

/-- Two listeners, of whom the first one is removed after an edit, and twice at that; then the same
edit comes again. -/
theorem edits_heard_removed :
    let edit (v w : Int) : Edit := ⟨⟨v, utf8 "a: 1"⟩, ⟨w, utf8 "a: 2"⟩, [⟨⟨3, 4⟩, ⟨3, 4⟩⟩]⟩
    let as : List Act := [.listen, .listen, .ask (.applyEdit (edit 1 2)), .unlisten 0, .unlisten 0,
      .ask (.applyEdit (edit 1 2))]
    let start := create ⟨Analyzer.builtin⟩ 2
    let s := start.perform as
    s.applyEdit (edit 1 2) = ((none, []), s) ∧
      (s.applyEdit (edit 2 3)).1 = (some ⟨3, ⟨0, 4⟩⟩, [1]) ∧
      Registered as 1 ∧ ¬ Registered as 0 ∧ start.heard 0 as = [⟨2, ⟨0, 4⟩⟩] ∧
      start.heard 1 (as.filter fun a => !a.removesOther 1) = start.heard 1 as := by
  intro edit as start s
  obtain ⟨happlied, hstale, ⟨hs, -, hmem, -, hnew⟩, hheard⟩ := edits_heard ⟨Analyzer.builtin⟩ 2 as
  have htold : (s.applyEdit (edit 2 3)).1 = (some ⟨3, ⟨0, 4⟩⟩, [1]) := by decide +kernel
  have himpact : ((create ⟨Analyzer.builtin⟩ 2).perform as).impactOf (edit 2 3) = some ⟨0, 4⟩ := by
    decide +kernel
  have hstale' : s.isStale (edit 1 2) := by decide +kernel
  have hnew' : s.isStale (edit 2 3) = false := (happlied _).mpr (by decide +kernel)
  have hsame := (hnew _ hnew').2
  rw [himpact] at hsame
  obtain rfl : [1] = hs := congrArg Prod.snd (htold.symm.trans hsame)
  refine ⟨hstale _ hstale' s rfl, htold, (hmem 1).mp (by simp), fun h => ?_, by decide +kernel, ?_⟩
  · exact absurd ((hmem 0).mpr h) (by simp)
  · exact (hheard 1).2 _ (by simp)

end Session

end RobotsTxt
