import Mathlib.Data.List.Perm.Basic
import RobotsTxt.Wire

/-!
# The order of messages

A message waits at the gate of the one before it. The gate of a long-lived request is open from its
arrival on, whether or not the messages before it have been replied to. So a message behind such a
request can overtake everything in front of the request.

* `Delivery.step?_cases`: what a step can do.
* `Delivery.InTurn`: whatever has started has found its gate open; `Delivery.InTurn.step` and
  `Delivery.InTurn.run` keep it.
* **`Delivery.keepsOrder_iff`**: two messages keep their order in every schedule exactly when
  nothing from the first one up to the second is long-lived.
* **`Delivery.exists_run_turns`**: the turns of messages are a schedule that the gates allow.
* **`Incoming.inTurn_perm`**, **`Incoming.inTurn_eq`**: every message has its turn, in the order of
  arrival if none is long-lived.
-/

namespace RobotsTxt

namespace Delivery

variable {d d' : Delivery} {p q : Nat}

/-! ## Phases and gates -/

/-- The methods of the messages, in the order of their arrival. -/
def methods (d : Delivery) : List Text := d.messages.map Delivered.method

theorem methods_setPhase (d : Delivery) (p : Nat) (phase : Phase) :
    (d.setPhase p phase).methods = d.methods := by
  refine List.ext_getElem? fun q => ?_
  simp only [methods, setPhase, List.getElem?_map, List.getElem?_modify]
  cases d.messages[q]? with
  | none => rfl
  | some m => by_cases hq : p = q <;> simp [hq]

theorem phase?_setPhase (d : Delivery) (p q : Nat) (phase : Phase) :
    (d.setPhase p phase).phase? q = if p = q then (d.phase? q).map fun _ => phase
      else d.phase? q := by
  simp only [phase?, setPhase, List.getElem?_modify, Option.map_map]
  cases d.messages[q]? with
  | none => simp
  | some m => by_cases hq : p = q <;> simp [hq]

theorem phase?_of_setPhase {phase phase' : Phase}
    (h : (d.setPhase p phase).phase? q = some phase') (hne : phase' ≠ phase) :
    p ≠ q ∧ d.phase? q = some phase' := by
  rw [phase?_setPhase] at h
  split at h
  · obtain ⟨_, -, heq⟩ := Option.map_eq_some_iff.mp h
    exact absurd heq.symm hne
  · next hpq => exact ⟨hpq, h⟩

theorem phase?_arrive (d : Delivery) (method : Text) (p : Nat) :
    (d.arrive method).phase? p =
      if p = d.messages.length then some .waiting else d.phase? p := by
  simp only [phase?, arrive, List.getElem?_append]
  by_cases hp : p < d.messages.length
  · simp [hp, Nat.ne_of_lt hp]
  · by_cases he : p = d.messages.length
    · simp [he]
    · simp only [hp, he, if_false]
      rw [List.getElem?_eq_none (by simp; omega), List.getElem?_eq_none (by omega)]

theorem phase?_eq_none_iff : d.phase? p = none ↔ d.messages.length ≤ p := by
  simp [phase?]

theorem lt_length_of_phase? {phase : Phase} (h : d.phase? p = some phase) :
    p < d.messages.length := by
  by_contra hlen
  simp [phase?_eq_none_iff.mpr (Nat.not_lt.mp hlen)] at h

theorem gateOpen_succ_iff : d.gateOpen (p + 1) ↔
    d.methods[p]?.any isStreaming ∨ d.phase? p = some .replied := by
  simp only [gateOpen, methods, phase?, List.getElem?_map]
  cases d.messages[p]? with
  | none => simp
  | some m => simp [Delivered.opens]

theorem canStart_iff : d.canStart p ↔ d.phase? p = some .waiting ∧ d.gateOpen p := by
  simp [canStart]

/-- **What a step can do.** -/
theorem step?_cases {e : DeliveryEvent} (h : d.step? e = some d') :
    (∃ method, e = .arrive method ∧ d' = d.arrive method) ∨
    (∃ p, e = .start p ∧ d.phase? p = some .waiting ∧ d.gateOpen p ∧
      d' = d.setPhase p .started) ∨
    ∃ p, e = .reply p ∧ d.phase? p = some .started ∧ d' = d.setPhase p .replied := by
  cases e with
  | arrive method => exact .inl ⟨method, rfl, (Option.some_inj.mp h).symm⟩
  | start p =>
    obtain ⟨hstart, hd⟩ := Option.ite_none_right_eq_some.mp h
    obtain ⟨hwaiting, hopen⟩ := canStart_iff.mp hstart
    exact .inr (.inl ⟨p, rfl, hwaiting, hopen, (Option.some_inj.mp hd).symm⟩)
  | reply p =>
    obtain ⟨hstart, hd⟩ := Option.ite_none_right_eq_some.mp h
    exact .inr (.inr ⟨p, rfl, by simpa using hstart, (Option.some_inj.mp hd).symm⟩)

theorem methods_step {e : DeliveryEvent} (h : d.step? e = some d') : d.methods <+: d'.methods := by
  obtain ⟨method, -, rfl⟩ | ⟨p, -, -, -, rfl⟩ | ⟨p, -, -, rfl⟩ := step?_cases h
  · exact ⟨[method], by simp [methods, arrive]⟩
  · exact ⟨[], by rw [List.append_nil, methods_setPhase]⟩
  · exact ⟨[], by rw [List.append_nil, methods_setPhase]⟩

theorem replied_step {e : DeliveryEvent} (h : d.step? e = some d')
    (hp : d.phase? p = some .replied) : d'.phase? p = some .replied := by
  obtain ⟨method, -, rfl⟩ | ⟨q, -, hq, -, rfl⟩ | ⟨q, -, hq, rfl⟩ := step?_cases h
  · rw [phase?_arrive]
    split
    · next hlen => exact absurd (lt_length_of_phase? hp) (by omega)
    · exact hp
  · rw [phase?_setPhase]
    split
    · next he => simp [← he, hq] at hp
    · exact hp
  · rw [phase?_setPhase]
    split
    · simp [hp]
    · exact hp

theorem any_getElem?_mono {l l' : List Text} {f : Text → Bool} (h : l <+: l')
    (hp : l[p]?.any f) : l'[p]?.any f := by
  obtain ⟨t, rfl⟩ := h
  obtain ⟨m, hm, hf⟩ := (Option.any_eq_true _ _).mp hp
  rw [List.getElem?_append_left (List.getElem?_eq_some_iff.mp hm).1, hm]
  exact hf

/-- **Gates stay open.** -/
theorem gateOpen_step {e : DeliveryEvent} (h : d.step? e = some d') (hp : d.gateOpen p) :
    d'.gateOpen p := by
  cases p with
  | zero => rfl
  | succ p =>
    refine gateOpen_succ_iff.mpr ?_
    rcases gateOpen_succ_iff.mp hp with hs | hr
    · exact .inl (any_getElem?_mono (methods_step h) hs)
    · exact .inr (replied_step h hr)

/-! ## Schedules -/

/-- Whatever has started has found its gate open. -/
def InTurn (d : Delivery) : Prop := ∀ p phase, d.phase? p = some phase → phase ≠ .waiting →
  d.gateOpen p

theorem inTurn_empty : ({} : Delivery).InTurn := fun p phase h => by simp [phase?] at h

theorem InTurn.step (hd : d.InTurn) {e : DeliveryEvent} (h : d.step? e = some d') :
    d'.InTurn := by
  intro p phase hp hphase
  -- A message that had started before had an open gate; the one that starts now has one as well.
  refine gateOpen_step h ?_
  obtain ⟨method, -, rfl⟩ | ⟨q, -, -, hopen, rfl⟩ | ⟨q, -, hq, rfl⟩ := step?_cases h
  · rw [phase?_arrive] at hp
    split at hp
    · exact absurd (Option.some_inj.mp hp).symm hphase
    · exact hd p phase hp hphase
  · rw [phase?_setPhase] at hp
    split at hp
    · next he => rwa [← he]
    · exact hd p phase hp hphase
  · rw [phase?_setPhase] at hp
    split at hp
    · next he => exact hd p .started (he ▸ hq) (by simp)
    · exact hd p phase hp hphase

theorem run?_append (d : Delivery) (es fs : List DeliveryEvent) :
    d.run? (es ++ fs) = (d.run? es).bind fun d => d.run? fs := by
  induction es generalizing d with
  | nil => rfl
  | cons e es ih =>
    simp only [List.cons_append, run?]
    cases d.step? e with
    | none => rfl
    | some d => exact ih d

theorem InTurn.run (hd : d.InTurn) {es : List DeliveryEvent} (h : d.run? es = some d') :
    d'.InTurn := by
  induction es generalizing d with
  | nil => exact Option.some_inj.mp h ▸ hd
  | cons e es ih =>
    simp only [run?] at h
    cases hs : d.step? e with
    | none => simp [hs] at h
    | some c =>
      rw [hs] at h
      exact ih (hd.step hs) h

/-- An open gate with no long-lived request in front of it: everything up to there has been replied
to. -/
theorem InTurn.replied (hd : d.InTurn) {i j : Nat} (hij : i < j)
    (hs : ∀ k, i ≤ k → k < j → ¬ d.methods[k]?.any isStreaming) (hj : d.gateOpen j) :
    d.phase? i = some .replied := by
  induction j with
  | zero => omega
  | succ j ih =>
    have hr : d.phase? j = some .replied :=
      (gateOpen_succ_iff.mp hj).resolve_left (hs j (by omega) (by omega))
    by_cases hi : i = j
    · rwa [hi]
    · have hopen := hd j .replied hr (by simp)
      exact ih (by omega) (fun k hk hkj => hs k hk (by omega)) hopen

theorem run?_arrive (d : Delivery) (methods : List Text) :
    d.run? (methods.map .arrive) = some ⟨d.messages ++ (arrived methods).messages⟩ := by
  induction methods generalizing d with
  | nil => simp [run?, arrived]
  | cons method methods ih =>
    have hmessages : (d.arrive method).messages ++ (arrived methods).messages =
        d.messages ++ (arrived (method :: methods)).messages := by
      simp [arrive, arrived]
    rw [List.map_cons, ← hmessages]
    exact ih (d.arrive method)

theorem run?_arrived (methods : List Text) (es : List DeliveryEvent) :
    run? {} (methods.map .arrive ++ es) = (arrived methods).run? es := by
  rw [run?_append, run?_arrive]
  rfl

theorem methods_arrived (methods : List Text) : (arrived methods).methods = methods := by
  simp [Delivery.methods, arrived, Function.comp_def]

theorem phase?_arrived {methods : List Text} (hp : p < methods.length) :
    (arrived methods).phase? p = some .waiting := by
  simp [phase?, arrived, hp]

theorem run?_handle (h : d.canStart p) :
    d.run? [.start p, .reply p] = some (d.setPhase p .replied) := by
  have hwaiting : d.phase? p = some .waiting := (canStart_iff.mp h).1
  have hstarted : (d.setPhase p .started).phase? p = some .started := by
    simp [phase?_setPhase, hwaiting]
  have htwice : (d.setPhase p .started).setPhase p .replied = d.setPhase p .replied := by
    simp [setPhase, List.modify_modify_eq, Function.comp_def]
  simp [run?, step?, h, hstarted, htwice]

/-- The messages at some places are handled one after the other. -/
def handling (places : List Nat) : List DeliveryEvent :=
  places.flatMap fun p => [.start p, .reply p]

theorem run?_handling_cons (h : d.canStart p) (places : List Nat) :
    d.run? (handling (p :: places)) = (d.setPhase p .replied).run? (handling places) := by
  have hsplit : handling (p :: places) = [.start p, .reply p] ++ handling places := rfl
  rw [hsplit, run?_append, run?_handle h, Option.bind_some]

/-- Messages behind an open gate can be handled one after the other, whatever lies in front of the
gate. -/
theorem exists_run_handling (start count : Nat) (hgate : d.gateOpen start)
    (hwait : ∀ p, start ≤ p → p < start + count → d.phase? p = some .waiting) :
    ∃ d', d.run? (handling (List.range' start count)) = some d' ∧ d'.methods = d.methods ∧
      d'.gateOpen (start + count) ∧
      ∀ p, p < start ∨ start + count ≤ p → d'.phase? p = d.phase? p := by
  induction count generalizing d start with
  | zero => exact ⟨d, rfl, rfl, hgate, fun _ _ => rfl⟩
  | succ count ih =>
    have hstart : d.phase? start = some .waiting := hwait start (by omega) (by omega)
    have hcan : d.canStart start := canStart_iff.mpr ⟨hstart, hgate⟩
    have hopen : (d.setPhase start .replied).gateOpen (start + 1) :=
      gateOpen_succ_iff.mpr (.inr (by simp [phase?_setPhase, hstart]))
    have hrest : ∀ p, start + 1 ≤ p → p < start + 1 + count →
        (d.setPhase start .replied).phase? p = some .waiting := by
      intro p hp hpc
      rw [phase?_setPhase, if_neg (by omega)]
      exact hwait p (by omega) (by omega)
    obtain ⟨d', hrun, hmethods, hgate', hkept⟩ := ih (start + 1) hopen hrest
    refine ⟨d', ?_, hmethods.trans (methods_setPhase d start .replied), ?_, fun p hp => ?_⟩
    · rw [List.range'_succ, run?_handling_cons hcan]
      exact hrun
    · rwa [show start + (count + 1) = start + 1 + count by omega]
    · rw [hkept p (by omega), phase?_setPhase, if_neg (by omega)]

/-! ## Order -/

/-- Whether, in every schedule of some messages, the one at `j` starts only after the one at `i` has
been replied to. -/
def KeepsOrder (methods : List Text) (i j : Nat) : Prop :=
  ∀ es d d', run? {} es = some d → d.methods <+: methods → d.step? (.start j) = some d' →
    d.phase? i = some .replied

/-- A message behind a long-lived request can overtake everything in front of the request. -/
theorem not_keepsOrder {methods : List Text} {i j k : Nat} (hik : i ≤ k) (hkj : k < j)
    (hj : j < methods.length) (hk : methods[k]?.any isStreaming) : ¬ KeepsOrder methods i j := by
  intro hkeeps
  have hgate : (arrived methods).gateOpen (k + 1) :=
    gateOpen_succ_iff.mpr (.inl (by rwa [methods_arrived]))
  obtain ⟨d, hrun, hmethods, hopen, hkept⟩ := exists_run_handling (k + 1) (j - (k + 1)) hgate
    fun p _ _ => phase?_arrived (by omega)
  rw [show k + 1 + (j - (k + 1)) = j by omega] at hopen hkept
  have hstart : d.canStart j :=
    canStart_iff.mpr ⟨(hkept j (by omega)).trans (phase?_arrived hj), hopen⟩
  have hreplied := hkeeps _ d (d.setPhase j .started) ((run?_arrived methods _).trans hrun)
    ⟨[], by rw [List.append_nil, hmethods, methods_arrived]⟩ (by simp [step?, hstart])
  rw [hkept i (by omega), phase?_arrived (by omega)] at hreplied
  exact absurd hreplied (by simp)

/-- **When messages keep their order.** In every schedule a message starts only after an earlier one
has been replied to, exactly when none of the messages from the earlier one up to it is long-lived.
-/
theorem keepsOrder_iff {methods : List Text} {i j : Nat} (hij : i < j)
    (hj : j < methods.length) : KeepsOrder methods i j ↔
      ∀ k, i ≤ k → k < j → ¬ methods[k]?.any isStreaming := by
  constructor
  · intro hkeeps k hik hkj hk
    exact not_keepsOrder hik hkj hj hk hkeeps
  · intro hs es d d' hrun hmethods hstart
    have hturn : d.InTurn := inTurn_empty.run hrun
    obtain ⟨m, he, -⟩ | ⟨p, he, -, hopen, -⟩ | ⟨p, he, -⟩ := step?_cases hstart
    · simp at he
    · obtain rfl : j = p := by simpa using he
      exact hturn.replied hij (fun k hik hkj hk => hs k hik hkj (any_getElem?_mono hmethods hk))
        hopen
    · simp at he

/-- A change comes after the opening of the document. -/
theorem keepsOrder_edit :
    KeepsOrder [utf8 "textDocument/didOpen", utf8 "textDocument/didChange"] 0 1 :=
  (keepsOrder_iff (by decide) (by decide)).mpr fun k _ hk => by
    obtain rfl : k = 0 := by omega
    decide +kernel

/-- A document is opened, its diagnostics are asked for, and it is changed: the change can start
while the opening is still under way. -/
theorem keepsOrder_broken :
    let methods :=
      [utf8 "textDocument/didOpen", utf8 "textDocument/diagnostic", utf8 "textDocument/didChange"]
    let es : List DeliveryEvent := methods.map .arrive ++ [.start 0, .start 2]
    isStreaming (utf8 "textDocument/didOpen") = false ∧
      isStreaming (utf8 "textDocument/didChange") = false ∧
      ∃ d, run? {} es = some d ∧ d.methods = methods ∧ d.phase? 0 = some .started ∧
        d.phase? 2 = some .started :=
  ⟨by decide +kernel, by decide +kernel, _, rfl, rfl, rfl, rfl⟩

/-! ## Turns -/

/-- No message is under way. -/
def Idle (d : Delivery) : Prop := ∀ p, d.phase? p ≠ some .started

/-- The places of the messages that wait. -/
def waiting (d : Delivery) : List Nat :=
  (List.range d.messages.length).filter fun p => d.phase? p == some .waiting

theorem mem_waiting : p ∈ d.waiting ↔ d.phase? p = some .waiting := by
  simp only [waiting, List.mem_filter, List.mem_range, beq_iff_eq, and_iff_right_iff_imp]
  exact lt_length_of_phase?

theorem mem_ready : p ∈ d.ready ↔ d.canStart p := by
  simp only [ready, List.mem_filter, List.mem_range, and_iff_right_iff_imp]
  intro hp
  exact lt_length_of_phase? (canStart_iff.mp hp).1

/-- As long as a message waits, one of them can start. -/
theorem Idle.exists_canStart (h : d.Idle) (hp : d.phase? p = some .waiting) :
    ∃ q, d.canStart q := by
  induction p with
  | zero => exact ⟨0, canStart_iff.mpr ⟨hp, rfl⟩⟩
  | succ p ih =>
    cases hprev : d.phase? p with
    | none =>
      have hlen := phase?_eq_none_iff.mp hprev
      have hlen' := lt_length_of_phase? hp
      omega
    | some phase =>
      cases phase with
      | waiting => exact ih hprev
      | started => exact absurd hprev (h p)
      | replied =>
        have hopen : d.gateOpen (p + 1) := gateOpen_succ_iff.mpr (.inr hprev)
        exact ⟨p + 1, canStart_iff.mpr ⟨hp, hopen⟩⟩

theorem Idle.setPhase (h : d.Idle) (p : Nat) : (d.setPhase p .replied).Idle := by
  intro q hq
  exact h q (phase?_of_setPhase hq (by simp)).2

theorem waiting_setPhase (d : Delivery) (p : Nat) :
    (d.setPhase p .replied).waiting = d.waiting.erase p := by
  have hlen : (d.setPhase p .replied).messages.length = d.messages.length := by
    simp [Delivery.setPhase]
  rw [waiting, waiting, List.Nodup.erase_eq_filter (List.nodup_range.filter _),
    List.filter_filter, hlen]
  refine List.filter_congr fun q _ => ?_
  rw [phase?_setPhase]
  by_cases hq : p = q
  · subst hq
    cases d.phase? p <;> simp
  · simp [hq, Ne.symm hq]

theorem Idle.turnsIn_perm (h : d.Idle) (work : Nat → Nat) {fuel : Nat}
    (hfuel : d.waiting.length ≤ fuel) : (turnsIn work fuel d).Perm d.waiting := by
  induction fuel generalizing d with
  | zero =>
    rw [List.length_eq_zero_iff.mp (Nat.le_zero.mp hfuel)]
    exact .nil
  | succ fuel ih =>
    rw [turnsIn]
    cases hnext : d.ready.minOn? work with
    | none =>
      have hnone : d.waiting = [] := by
        refine List.eq_nil_iff_forall_not_mem.mpr fun p hp => ?_
        obtain ⟨q, hq⟩ := h.exists_canStart (mem_waiting.mp hp)
        simpa [hnext] using List.isSome_minOn?_of_mem (f := work) (mem_ready.mpr hq)
      rw [hnone]
    | some p =>
      have hcan : d.canStart p := mem_ready.mp (List.minOn?_mem hnext)
      have hp : p ∈ d.waiting := mem_waiting.mpr (canStart_iff.mp hcan).1
      have hrest := waiting_setPhase d p
      have hlen := List.length_erase_of_mem hp
      have hturns := ih (h.setPhase p) (by rw [hrest]; omega)
      rw [hrest] at hturns
      exact (hturns.cons p).trans (List.perm_cons_erase hp).symm

theorem Idle.turns_perm (h : d.Idle) (work : Nat → Nat) : (d.turns work).Perm d.waiting := by
  refine h.turnsIn_perm work ?_
  have hlen := List.length_filter_le (fun p => d.phase? p == some .waiting)
    (List.range d.messages.length)
  rwa [List.length_range] at hlen

theorem exists_run_turnsIn (d : Delivery) (work : Nat → Nat) (fuel : Nat) :
    ∃ d', d.run? (handling (turnsIn work fuel d)) = some d' := by
  induction fuel generalizing d with
  | zero => exact ⟨d, rfl⟩
  | succ fuel ih =>
    rw [turnsIn]
    cases hnext : d.ready.minOn? work with
    | none => exact ⟨d, rfl⟩
    | some p =>
      simp only
      rw [run?_handling_cons (mem_ready.mp (List.minOn?_mem hnext))]
      exact ih (d.setPhase p .replied)

/-- **Turns are a schedule that the gates allow.** -/
theorem exists_run_turns (methods : List Text) (work : Nat → Nat) :
    ∃ d, run? {} (methods.map .arrive ++ handling ((arrived methods).turns work)) = some d := by
  rw [run?_arrived]
  exact exists_run_turnsIn _ work _

theorem waiting_of_mem_turnsIn {work : Nat → Nat} {fuel : Nat} (h : p ∈ turnsIn work fuel d) :
    d.phase? p = some .waiting := by
  induction fuel generalizing d with
  | zero => simp [turnsIn] at h
  | succ fuel ih =>
    rw [turnsIn] at h
    cases hnext : d.ready.minOn? work with
    | none => simp [hnext] at h
    | some q =>
      rw [hnext] at h
      rcases List.mem_cons.mp h with rfl | h
      · exact (canStart_iff.mp (mem_ready.mp (List.minOn?_mem hnext))).1
      · exact (phase?_of_setPhase (ih h) (by simp)).2

theorem InTurn.pairwise_turnsIn (h : d.InTurn) (hs : ∀ k : Nat, ¬ d.methods[k]?.any isStreaming)
    (work : Nat → Nat) (fuel : Nat) : (turnsIn work fuel d).Pairwise (· < ·) := by
  induction fuel generalizing d with
  | zero => exact .nil
  | succ fuel ih =>
    rw [turnsIn]
    cases hnext : d.ready.minOn? work with
    | none => exact .nil
    | some p =>
      have hcan : d.canStart p := mem_ready.mp (List.minOn?_mem hnext)
      refine List.pairwise_cons.mpr ⟨fun q hq => ?_, ?_⟩
      · -- Everything in front of `p` has been replied to, and what has its turn later still waits.
        obtain ⟨hne, hwaiting⟩ := phase?_of_setPhase (waiting_of_mem_turnsIn hq) (by simp)
        by_contra hlt
        have hqp : q < p := by omega
        have hreplied := h.replied hqp (fun k _ _ => hs k) (canStart_iff.mp hcan).2
        simp [hreplied] at hwaiting
      · refine ih (h.run (run?_handle hcan)) fun k => ?_
        rw [methods_setPhase]
        exact hs k

theorem idle_arrived (methods : List Text) : (arrived methods).Idle := by
  intro p hp
  have hlen : p < methods.length := by simpa [arrived] using lt_length_of_phase? hp
  simp [phase?_arrived hlen] at hp

theorem waiting_arrived (methods : List Text) :
    (arrived methods).waiting = List.range methods.length := by
  have hlen : (arrived methods).messages.length = methods.length := by simp [arrived]
  rw [waiting, hlen]
  refine List.filter_eq_self.mpr fun p hp => ?_
  simp [phase?_arrived (List.mem_range.mp hp)]

end Delivery

theorem filterMap_range_getElem? {α : Type} (l : List α) :
    ((List.range l.length).filterMap fun p => l[p]?) = l := by
  induction l with
  | nil => rfl
  | cons a l ih =>
    simp only [List.length_cons, List.range_succ_eq_map, List.filterMap_cons,
      List.getElem?_cons_zero, List.filterMap_map]
    exact congrArg (a :: ·) ih

namespace Incoming

variable (messages : List (Nat × Incoming))

theorem filterMap_range_messages : ((List.range messages.length).filterMap fun place =>
    messages[place]?.map Prod.snd) = messages.map Prod.snd := by
  have hmap := filterMap_range_getElem? (messages.map Prod.snd)
  simpa only [List.length_map, List.getElem?_map] using hmap

theorem turns_perm (work : Nat → Nat) :
    ((Delivery.arrived (messages.map fun m => m.2.method)).turns work).Perm
      (List.range messages.length) := by
  have hperm := (Delivery.idle_arrived (messages.map fun m => m.2.method)).turns_perm work
  rwa [Delivery.waiting_arrived, List.length_map] at hperm

/-- **Every message has its turn**, and none has two. -/
theorem inTurn_perm : (inTurn messages).Perm (messages.map Prod.snd) := by
  rw [← filterMap_range_messages messages]
  exact (turns_perm messages _).filterMap _

/-- **Without long-lived requests messages are handled in the order of their arrival.** -/
theorem inTurn_eq (h : ∀ m ∈ messages, isStreaming m.2.method = false) :
    inTurn messages = messages.map Prod.snd := by
  have hs : ∀ k : Nat, ¬ (messages.map fun m => m.2.method)[k]?.any isStreaming := by
    intro k hk
    obtain ⟨method, hmethod, hk⟩ := (Option.any_eq_true _ _).mp hk
    obtain ⟨m, hm, rfl⟩ := List.mem_map.mp (List.mem_of_getElem? hmethod)
    simp [h m hm] at hk
  have hturn : (Delivery.arrived (messages.map fun m => m.2.method)).InTurn :=
    Delivery.inTurn_empty.run (Delivery.run?_arrive {} _)
  have hturns : ∀ work, (Delivery.arrived (messages.map fun m => m.2.method)).turns work =
      List.range messages.length := by
    intro work
    refine (turns_perm messages work).eq_of_pairwise (fun a b _ _ hab hba => ?_)
      (hturn.pairwise_turnsIn (by rwa [Delivery.methods_arrived]) work _) List.pairwise_lt_range
    omega
  simp only [inTurn, hturns, filterMap_range_messages]

end Incoming

end RobotsTxt
