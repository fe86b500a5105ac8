import Mathlib.Data.List.Forall2
import Mathlib.Data.List.ReduceOption
import RobotsTxt.Document.Grammar

/-!
# Runs of present elements

`groups` cuts a list of options into its runs of present elements.

* `groups_append_none`: a gap cuts the runs in two.
* **`groups_around`**: a run between gaps is one of the runs.
* **`exists_around_of_mem_groups`**: and each of the runs stands between gaps.
* `flatten_groups`: the runs hold all present elements, in order.
* `groups_forall₂`: lists that agree element by element have runs that do.
-/

namespace RobotsTxt

variable {α β : Type}

theorem consRun_append (run : List α) (runs more : List (List α)) :
    consRun run (runs ++ more) = consRun run runs ++ more := by
  cases run <;> rfl

theorem groups_eq (l : List (Option α)) : groups l = consRun (splitRuns l).1 (splitRuns l).2 := rfl

theorem splitRuns_some (a : α) (l : List (Option α)) :
    splitRuns (some a :: l) = (a :: (splitRuns l).1, (splitRuns l).2) := rfl

theorem splitRuns_none (l : List (Option α)) : splitRuns (none :: l) = ([], groups l) := rfl

theorem groups_none (l : List (Option α)) : groups (none :: l) = groups l := rfl

theorem splitRuns_append_none (l m : List (Option α)) :
    splitRuns (l ++ none :: m) = ((splitRuns l).1, (splitRuns l).2 ++ groups m) := by
  induction l with
  | nil => rfl
  | cons x l ih =>
    cases x with
    | none => rw [List.cons_append, splitRuns_none, splitRuns_none, groups_eq, groups_eq, ih,
        consRun_append]
    | some a => rw [List.cons_append, splitRuns_some, splitRuns_some, ih]

theorem groups_append_none (l m : List (Option α)) :
    groups (l ++ none :: m) = groups l ++ groups m := by
  rw [groups_eq, groups_eq l, splitRuns_append_none, consRun_append]

theorem splitRuns_map_some (l : List α) : splitRuns (l.map some) = (l, []) := by
  induction l with
  | nil => rfl
  | cons a l ih => rw [List.map_cons, splitRuns_some, ih]

theorem groups_map_some {l : List α} (h : l ≠ []) : groups (l.map some) = [l] := by
  obtain ⟨a, l, rfl⟩ := List.exists_cons_of_ne_nil h
  rw [groups_eq, splitRuns_map_some]
  rfl

/-- **A run between gaps is one of the runs.** -/
theorem groups_around {before after : List (Option α)} {run : List α} (hr : run ≠ [])
    (hb : ∀ x ∈ before.getLast?, x = none) (ha : ∀ x ∈ after.head?, x = none) :
    groups (before ++ run.map some ++ after) = groups before ++ [run] ++ groups after := by
  have hafter : groups (run.map some ++ after) = [run] ++ groups after := by
    cases after with
    | nil => rw [List.append_nil, groups_map_some hr]; rfl
    | cons x after =>
      obtain rfl := ha x rfl
      rw [groups_append_none, groups_map_some hr, groups_none]
  rcases List.eq_nil_or_concat before with rfl | ⟨before, x, rfl⟩
  · exact hafter
  · obtain rfl := hb x (by simp)
    rw [List.append_assoc, List.concat_eq_append, List.append_assoc, List.cons_append,
      List.nil_append, groups_append_none, hafter, groups_append_none, List.append_assoc]
    simp [groups_eq, splitRuns, consRun]

theorem splitRuns_fst (l : List (Option α)) :
    ∃ after, l = (splitRuns l).1.map some ++ after ∧ ∀ x ∈ after.head?, x = none := by
  induction l with
  | nil => exact ⟨[], rfl, by simp⟩
  | cons x l ih =>
    cases x with
    | none => exact ⟨none :: l, rfl, by simp⟩
    | some a =>
      obtain ⟨after, hl, ha⟩ := ih
      refine ⟨after, ?_, ha⟩
      rw [splitRuns_some, List.map_cons, List.cons_append, ← hl]

theorem mem_consRun {run x : List α} {runs : List (List α)} :
    x ∈ consRun run runs ↔ (x = run ∧ run ≠ []) ∨ x ∈ runs := by
  cases run <;> simp [consRun]

theorem exists_around_of_mem_snd {run : List α} {l : List (Option α)} (h : run ∈ (splitRuns l).2) :
    run ≠ [] ∧ ∃ before after, l = before ++ none :: (run.map some ++ after) ∧
      ∀ x ∈ after.head?, x = none := by
  induction l with
  | nil => exact absurd h List.not_mem_nil
  | cons x l ih =>
    cases x with
    | none =>
      rw [splitRuns_none, groups_eq, mem_consRun] at h
      rcases h with ⟨rfl, hne⟩ | h
      · obtain ⟨after, hl, ha⟩ := splitRuns_fst l
        exact ⟨hne, [], after, by rw [← hl, List.nil_append], ha⟩
      · obtain ⟨hne, before, after, hl, ha⟩ := ih h
        exact ⟨hne, none :: before, after, by rw [List.cons_append, ← hl], ha⟩
    | some a =>
      obtain ⟨hne, before, after, hl, ha⟩ := ih h
      exact ⟨hne, some a :: before, after, by rw [List.cons_append, ← hl], ha⟩

/-- **Each of the runs stands between gaps.** -/
theorem exists_around_of_mem_groups {run : List α} {l : List (Option α)} (h : run ∈ groups l) :
    run ≠ [] ∧ ∃ before after, l = before ++ run.map some ++ after ∧
      (∀ x ∈ before.getLast?, x = none) ∧ ∀ x ∈ after.head?, x = none := by
  rw [groups_eq, mem_consRun] at h
  rcases h with ⟨rfl, hne⟩ | h
  · obtain ⟨after, hl, ha⟩ := splitRuns_fst l
    exact ⟨hne, [], after, by rw [List.nil_append, ← hl], by simp, ha⟩
  · obtain ⟨hne, before, after, hl, ha⟩ := exists_around_of_mem_snd h
    exact ⟨hne, before ++ [none], after, by simp [hl], by simp, ha⟩

theorem flatten_consRun (run : List α) (runs : List (List α)) :
    (consRun run runs).flatten = run ++ runs.flatten := by
  cases run <;> simp [consRun]

theorem flatten_groups (l : List (Option α)) : (groups l).flatten = l.reduceOption := by
  rw [groups_eq, flatten_consRun]
  induction l with
  | nil => rfl
  | cons x l ih =>
    cases x with
    | none => rw [splitRuns_none, groups_eq, flatten_consRun, ih, List.reduceOption_cons_of_none,
        List.nil_append]
    | some a => rw [splitRuns_some, List.cons_append, ih, List.reduceOption_cons_of_some]

theorem splitRuns_map (f : α → β) (l : List (Option α)) :
    splitRuns (l.map (Option.map f)) =
      ((splitRuns l).1.map f, (splitRuns l).2.map (List.map f)) := by
  induction l with
  | nil => rfl
  | cons x l ih =>
    cases x with
    | none =>
      rw [List.map_cons, Option.map_none, splitRuns_none, splitRuns_none, groups_eq, groups_eq, ih]
      cases (splitRuns l).1 <;> rfl
    | some a =>
      rw [List.map_cons, Option.map_some, splitRuns_some, splitRuns_some, ih, List.map_cons]

theorem groups_map (f : α → β) (l : List (Option α)) :
    groups (l.map (Option.map f)) = (groups l).map (List.map f) := by
  rw [groups_eq, groups_eq, splitRuns_map]
  cases (splitRuns l).1 <;> rfl

theorem forall₂_consRun {R : α → β → Prop} {run : List α} {run' : List β} {runs : List (List α)}
    {runs' : List (List β)} (h : List.Forall₂ R run run')
    (hs : List.Forall₂ (List.Forall₂ R) runs runs') :
    List.Forall₂ (List.Forall₂ R) (consRun run runs) (consRun run' runs') := by
  cases h with
  | nil => exact hs
  | cons h hrest => exact .cons (.cons h hrest) hs

theorem forall₂_splitRuns {R : α → β → Prop} {l : List (Option α)} {m : List (Option β)}
    (h : List.Forall₂ (Option.Rel R) l m) :
    List.Forall₂ R (splitRuns l).1 (splitRuns m).1 ∧
      List.Forall₂ (List.Forall₂ R) (splitRuns l).2 (splitRuns m).2 := by
  induction h with
  | nil => exact ⟨.nil, .nil⟩
  | cons h _ ih =>
    cases h with
    | none => exact ⟨.nil, forall₂_consRun ih.1 ih.2⟩
    | some h => exact ⟨.cons h ih.1, ih.2⟩

theorem groups_forall₂ {R : α → β → Prop} {l : List (Option α)} {m : List (Option β)}
    (h : List.Forall₂ (Option.Rel R) l m) :
    List.Forall₂ (List.Forall₂ R) (groups l) (groups m) := by
  obtain ⟨hrun, hruns⟩ := forall₂_splitRuns h
  exact forall₂_consRun hrun hruns

end RobotsTxt
