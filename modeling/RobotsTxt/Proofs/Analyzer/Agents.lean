import RobotsTxt.Proofs.Analyzer.Remarks

/-!
# First and repeated agents

Two analyzers look at whole documents: at the records up to the first agent, and at the agents that
earlier lines have named. Seen from a later record, what counts is whether an agent was named, and
which ones.

* `Analyzer.earlyIn`, `Analyzer.earlyIn_append`: lines that need an agent, records after records.
* `Analyzer.naming`, `Analyzer.agent`: lines that name an agent.
* **`Analyzer.repeatedAgents_iff`**: which lines name an agent again, and the agents seen before.
-/

namespace RobotsTxt

namespace Analyzer

/-- The lines of some records that need an agent and come too early. -/
def earlyIn (rs : List Record) : List Line :=
  ((upToAgent rs).filterMap fun r => r.directives.head?).filter needsAgent

theorem earlyLines_eq (d : Document) : earlyLines d = earlyIn d.records := rfl

theorem upToAgent_append (rs ss : List Record) : upToAgent (rs ++ ss) =
    upToAgent rs ++ if rs.any namesAgent then [] else upToAgent ss := by
  induction rs with
  | nil => rfl
  | cons r rs ih =>
    rw [List.cons_append, upToAgent, upToAgent, ih, List.any_cons]
    cases namesAgent r <;> rfl

theorem earlyIn_append (rs ss : List Record) : earlyIn (rs ++ ss) =
    earlyIn rs ++ if rs.any namesAgent then [] else earlyIn ss := by
  simp only [earlyIn, upToAgent_append, List.filterMap_append, List.filter_append]
  split <;> rfl

theorem mem_lines_of_earlyIn {rs : List Record} {l : Line} (h : l ∈ earlyIn rs) :
    l ∈ rs.flatMap Record.lines := by
  obtain ⟨h, -⟩ := List.mem_filter.mp h
  obtain ⟨r, hr, hl⟩ := List.mem_filterMap.mp h
  have hmem := (List.mem_filter.mp (List.mem_of_mem_head? hl)).1
  exact List.mem_flatMap.mpr ⟨r, (upToAgent_sublist rs).subset hr, hmem⟩

theorem earlyIn_shift (δ : Int) (rs : List Record) :
    earlyIn (rs.map (·.shift δ)) = (earlyIn rs).map (·.shift δ) :=
  early_relocate (·.shift δ) rs

/-- The agent that a line names. -/
def agent (l : Line) : Text := l.valueText.lower

/-- The lines among some that name an agent. -/
def naming (ls : List Line) : List Line :=
  ls.filter fun l => l.kind == .userAgent && !l.valueText.isEmpty

theorem repeats_eq (d : Document) : d.repeats = repeatedAgents [] (naming d.lines) := rfl

theorem naming_append (ls ms : List Line) : naming (ls ++ ms) = naming ls ++ naming ms :=
  List.filter_append ..

theorem naming_shift (ls : List Line) (δ : Int) :
    naming (ls.map (·.shift δ)) = (naming ls).map (·.shift δ) :=
  naming_relocate (·.shift δ) ls

theorem repeatedAgents_cons (seen : List Text) (l : Line) (ls : List Line) :
    repeatedAgents seen (l :: ls) =
      if agent l ∈ seen then l :: repeatedAgents seen ls
      else repeatedAgents (agent l :: seen) ls := by
  by_cases h : agent l ∈ seen
  · rw [if_pos h, repeatedAgents]
    exact if_pos (List.contains_iff_mem.mpr h)
  · rw [if_neg h, repeatedAgents]
    exact if_neg (mt List.contains_iff_mem.mp h)

theorem repeatedAgents_congr {seen seen' : List Text} {ls : List Line}
    (h : ∀ l ∈ ls, agent l ∈ seen ↔ agent l ∈ seen') :
    repeatedAgents seen ls = repeatedAgents seen' ls := by
  induction ls generalizing seen seen' with
  | nil => rfl
  | cons l ls ih =>
    have hl := h l List.mem_cons_self
    have hls := fun m hm => h m (List.mem_cons_of_mem l hm)
    rw [repeatedAgents_cons, repeatedAgents_cons]
    by_cases hmem : agent l ∈ seen
    · rw [if_pos hmem, if_pos (hl.mp hmem), ih hls]
    · rw [if_neg hmem, if_neg (mt hl.mpr hmem)]
      refine ih fun m hm => ?_
      rw [List.mem_cons, List.mem_cons, hls m hm]

theorem repeatedAgents_append (seen : List Text) (ls ms : List Line) :
    repeatedAgents seen (ls ++ ms) =
      repeatedAgents seen ls ++ repeatedAgents (ls.map agent ++ seen) ms := by
  induction ls generalizing seen with
  | nil => rfl
  | cons l ls ih =>
    rw [List.cons_append, repeatedAgents_cons, repeatedAgents_cons]
    by_cases hmem : agent l ∈ seen
    · rw [if_pos hmem, if_pos hmem, ih, List.cons_append]
      congr 2
      refine repeatedAgents_congr fun m _ => ?_
      simp only [List.map_cons, List.cons_append, List.mem_cons, List.mem_append]
      grind
    · rw [if_neg hmem, if_neg hmem, ih]
      congr 1
      refine repeatedAgents_congr fun m _ => ?_
      simp only [List.map_cons, List.cons_append, List.mem_cons, List.mem_append]
      grind

theorem repeatedAgents_shift (seen : List Text) (ls : List Line) (δ : Int) :
    repeatedAgents seen (ls.map (·.shift δ)) = (repeatedAgents seen ls).map (·.shift δ) :=
  repeatedAgents_relocate (·.shift δ) seen ls

theorem mem_repeatedAgents_iff {seen : List Text} {ls ms : List Line} {l : Line}
    (h : (ls ++ l :: ms).Nodup) :
    l ∈ repeatedAgents seen (ls ++ l :: ms) ↔ agent l ∈ ls.map agent ++ seen := by
  have hls : l ∉ ls := fun hl => (List.nodup_append.mp h).2.2 l hl l (by simp) rfl
  have hms : l ∉ ms := (List.nodup_cons.mp (List.nodup_append.mp h).2.1).1
  rw [repeatedAgents_append, List.mem_append, repeatedAgents_cons]
  by_cases hmem : agent l ∈ ls.map agent ++ seen
  · rw [if_pos hmem]
    simp [hmem]
  · rw [if_neg hmem]
    refine ⟨?_, fun h => absurd h hmem⟩
    rintro (h | h)
    · exact absurd ((repeatedAgents_sublist _ _).subset h) hls
    · exact absurd ((repeatedAgents_sublist _ _).subset h) hms

/-- Which lines name an agent again depends on the agents seen before, as far as they are named. -/
theorem repeatedAgents_iff {seen seen' : List Text} {ls : List Line} (h : ls.Nodup) :
    (∀ l ∈ ls, l ∈ repeatedAgents seen ls ↔ l ∈ repeatedAgents seen' ls) ↔
      ∀ a ∈ ls.map agent, a ∈ seen ↔ a ∈ seen' := by
  constructor
  · intro hall a ha
    -- the first line that names the agent
    obtain ⟨as, bs, hcut, hno⟩ := List.eq_append_cons_of_mem ha
    obtain ⟨pre, post, rfl, rfl, hpost⟩ := List.map_eq_append_iff.mp hcut
    obtain ⟨l, post, rfl, rfl, rfl⟩ := List.map_eq_cons_iff.mp hpost
    have hl := hall l (by simp)
    rw [mem_repeatedAgents_iff h, mem_repeatedAgents_iff h, List.mem_append, List.mem_append] at hl
    simpa [hno] using hl
  · intro hall l _
    rw [repeatedAgents_congr fun m hm => hall (agent m) (List.mem_map_of_mem hm)]

end Analyzer

end RobotsTxt
