import Mathlib.Data.List.Basic

/-!
# Lists of pairs

A list of pairs is searched for the first pair with a key. A pair is replaced by taking out every
pair with its key and adding it at one of the two ends.

* `lookup_filter_bne`, `lookup_cons_filter`, `lookup_filter_append`: what is found afterwards.
-/

namespace RobotsTxt

variable {α β : Type} [DecidableEq α] [BEq α] [LawfulBEq α] {key name : α} {l : List (α × β)}
  {b : β}

theorem lookup_filter_bne :
    (l.filter fun e => e.1 != key).lookup name = if name = key then none else l.lookup name := by
  induction l with
  | nil => simp
  | cons e l ih => grind

theorem lookup_cons_filter : ((key, b) :: l.filter fun e => e.1 != key).lookup name =
    if name = key then some b else l.lookup name := by
  rw [List.lookup_cons, lookup_filter_bne]
  by_cases h : name = key
  · simp [h]
  · simp [h, beq_eq_false_iff_ne.mpr h]

theorem lookup_filter_append : ((l.filter fun e => e.1 != key) ++ [(key, b)]).lookup name =
    if name = key then some b else l.lookup name := by
  rw [List.lookup_append, lookup_filter_bne, List.lookup_cons]
  by_cases h : name = key
  · simp [h]
  · simp [h, beq_eq_false_iff_ne.mpr h]

end RobotsTxt
