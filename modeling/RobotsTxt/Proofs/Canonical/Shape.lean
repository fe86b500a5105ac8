import Mathlib.Data.List.Chain
import RobotsTxt.Proofs.Canonical.Runs

/-!
# The shape of canonical text

What canonical text looks like is said here without writing it: which lines it has, how each of them
is built from a line of the document, and where the empty ones are.

* `Text.Strips`: a text without the white space at its two ends.
* `Directive.Spells`, `CommentShape`, `ValueShape`, `Part`: how the pieces of a line are written.
* **`Line.Shape`**: how a line is written; `Line.HasLayout.shape`: so it is.
* `Tidy`: where empty lines may be; `tidy_intercalate`: between paragraphs.
* **`canonicalText_shape`**: the shape of the canonical text of any text.
-/

namespace RobotsTxt

/-! ## Pieces of lines -/

/-- **A text without the white space at its two ends**, of which it has no more. -/
structure Text.Strips (t body : Text) : Prop where
  around : ∃ lead trail, runes t = lead ++ (runes body ++ trail) ∧
    (∀ r ∈ lead, isSpace r.code) ∧ ∀ r ∈ trail, isSpace r.code
  first : ∀ r ∈ (runes body).head?, isSpace r.code = false
  last : ∀ r ∈ (runes body).getLast?, isSpace r.code = false

theorem Text.strips_trimSpace (t : Text) : t.Strips t.trimSpace where
  around := by
    rw [runes_trimSpace]
    exact t.exists_inner
  first := by
    rw [runes_trimSpace]
    exact t.first_inner
  last := by
    rw [runes_trimSpace]
    exact t.last_inner

/-- **How a name is spelled**: as the known directive that differs from it in case only, or as it is
if there is none. -/
inductive Directive.Spells (n : Text) : Text → Prop
  | known {d : Directive} (hd : d ∈ Directive.known) (h : d.name.lower = n.lower) : Spells n d.name
  | own (h : ∀ d ∈ Directive.known, d.name.lower ≠ n.lower) : Spells n n

theorem Directive.spells_canonicalName (n : Text) : Spells n (canonicalName n) := by
  unfold canonicalName
  cases h : lookup? n with
  | none => exact .own fun d hd => by simpa using List.find?_eq_none.mp h d hd
  | some d => exact .known (List.mem_of_find?_eq_some h) (by simpa using List.find?_some h)

/-- **How a comment is written**: as `#` alone, or as `# ` and what follows the first `#`, without
the white space around that. -/
inductive CommentShape : Text → Text → Prop
  | empty {rest : Text} (h : rest.Strips []) : CommentShape (0x23 :: rest) [0x23]
  | body {rest body : Text} (h : rest.Strips body) (hne : body ≠ []) :
      CommentShape (0x23 :: rest) (0x23 :: 0x20 :: body)

theorem IsComment.shape {c : Text} (h : IsComment c) : CommentShape c (canonicalComment c) := by
  obtain ⟨rest, rfl⟩ := List.head?_eq_some_iff.mp h.first
  have hstrips := Text.strips_trimSpace rest
  rw [canonicalComment_eq, commentBody_hash]
  cases hbody : Text.trimSpace rest with
  | nil => exact .empty (hbody ▸ hstrips)
  | cons b body =>
    rw [hbody] at hstrips
    exact .body hstrips (by simp)

/-- **How a value is written**: as it is. It is not empty and has no blanks at its ends. -/
def ValueShape (v w : Text) : Prop := w = v ∧ v ≠ [] ∧ v.Trimmed

/-- **A part of a line that may be absent**, with one space in front of it. -/
inductive Part (Shape : Text → Text → Prop) : Option Token → Text → Prop
  | absent : Part Shape none []
  | present {k : Token} {w : Text} (hk : k.missing = false) (h : Shape k.value w) :
      Part Shape (some k) (0x20 :: w)

theorem part_value (start : Nat) {v : Text} (h : v.Trimmed) :
    Part ValueShape (Token.optional .value start v) (spaced v) := by
  cases v with
  | nil => exact .absent
  | cons b v => exact .present rfl ⟨rfl, List.cons_ne_nil b v, h⟩

theorem part_comment (start : Nat) {gap c : Text} (h : c = [] ∧ gap = [] ∨ IsComment c) :
    Part CommentShape (Token.optional .comment start c) (spaced (canonicalTail c)) := by
  rcases h with ⟨rfl, -⟩ | h
  · exact .absent
  · obtain ⟨rest, rfl⟩ := List.head?_eq_some_iff.mp h.first
    have hspaced : spaced (canonicalTail (0x23 :: rest)) =
        0x20 :: canonicalComment (0x23 :: rest) := by
      rw [canonicalTail, if_neg (by simp), canonicalComment_eq]
      rfl
    rw [hspaced]
    exact .present rfl h.shape

/-! ## Lines -/

/-- **How a line of a text is written.** With a name and a delimiter it is the name, a colon, and
the value and the comment if they are there. A line without one of the two is kept as it is. -/
inductive Line.Shape (source : Text) (l : Line) : Text → Prop
  | comment {c : Token} {w : Text} (name : l.name? = none) (comment : l.comment? = some c)
      (h : CommentShape c.value w) : Shape source l w
  | kept {n d : Token} (name : l.name? = some n) (delimiter : l.delimiter? = some d)
      (h : n.missing ∨ d.missing) :
      Shape source l (source.slice l.span.start.toNat l.span.stop.toNat)
  | directive {n d : Token} {name value comment : Text} (hname : l.name? = some n)
      (hdelimiter : l.delimiter? = some d) (hn : n.missing = false) (hd : d.missing = false)
      (spelling : Directive.Spells n.value name) (hvalue : Part ValueShape l.value? value)
      (hcomment : Part CommentShape l.comment? comment) :
      Shape source l (name ++ [0x3A] ++ value ++ comment)

theorem Line.HasLayout.shape {source : Text} {l : Line} {a : Layout} (h : l.HasLayout source a) :
    l.Shape source a.canonical.text := by
  have hkept := h.slice_span
  obtain ⟨hv, -, start, rfl, -⟩ := h
  cases a with
  | comment c => exact .comment rfl rfl (IsComment.shape hv)
  | directive head gap c =>
    cases head with
    | bare n =>
      rw [Layout.canonical, ← hkept]
      exact .kept rfl rfl (.inr rfl)
    | pair n gap₁ gap₂ v =>
      by_cases hn : n = []
      · subst hn
        rw [Layout.canonical, if_pos (by rfl), ← hkept]
        exact .kept rfl rfl (.inl rfl)
      · rw [Layout.text_canonical_pair hn]
        obtain ⟨⟨-, -, -, ht, -⟩, -, hc⟩ := hv
        have hrequired : Token.required start n = .at .name start n := if_neg (by simpa using hn)
        exact .directive rfl rfl (by rw [hrequired]; rfl) rfl
          (by rw [hrequired]; exact Directive.spells_canonicalName n) (part_value _ ht)
          (part_comment _ hc)

/-! ## Empty lines -/

/-- **Where empty lines may be**: not at the ends, and not one after the other. -/
structure Tidy (ws : List Text) : Prop where
  first : ∀ w ∈ ws.head?, w ≠ []
  last : ∀ w ∈ ws.getLast?, w ≠ []
  between : ws.IsChain fun w v => w ≠ [] ∨ v ≠ []

variable {ws : List Text} {wss : List (List Text)}

theorem tidy_of_ne_nil (h : ∀ w ∈ ws, w ≠ []) : Tidy ws where
  first w hw := h w (List.mem_of_mem_head? hw)
  last w hw := h w (List.mem_of_mem_getLast? hw)
  between := (List.pairwise_of_forall_mem_list fun w hw _ _ => .inl (h w hw)).isChain

theorem intercalate_cons (ws : List Text) (h : wss ≠ []) :
    [[]].intercalate (ws :: wss) = ws ++ [] :: [[]].intercalate wss := by
  rw [List.intercalate_cons_of_ne_nil h, List.append_assoc]
  rfl

/-- **Paragraphs with an empty line between two of them** have no other empty lines. -/
theorem tidy_intercalate (h : ∀ ws ∈ wss, ws ≠ [] ∧ ∀ w ∈ ws, w ≠ []) :
    Tidy ([[]].intercalate wss) ∧ (wss ≠ [] → [[]].intercalate wss ≠ []) := by
  induction wss with
  | nil => exact ⟨tidy_of_ne_nil (by simp), fun h => absurd rfl h⟩
  | cons ws wss ih =>
    obtain ⟨⟨hne, hws⟩, hrest⟩ := List.forall_mem_cons.mp h
    have htidy := tidy_of_ne_nil hws
    by_cases hwss : wss = []
    · rw [hwss, List.intercalate_singleton]
      exact ⟨htidy, fun _ => hne⟩
    · obtain ⟨⟨hfirst, hlast, hbetween⟩, hpage⟩ := ih hrest
      rw [intercalate_cons ws hwss]
      refine ⟨⟨?_, ?_, ?_⟩, by simp⟩
      · rw [List.head?_append_of_ne_nil _ hne]
        exact htidy.first
      · rw [List.getLast?_append_of_ne_nil _ (List.cons_ne_nil _ _),
          List.getLast?_cons_of_ne_nil (hpage hwss)]
        exact hlast
      · refine List.isChain_append.mpr ⟨htidy.between, List.isChain_cons.mpr ⟨?_, hbetween⟩, ?_⟩
        · exact fun v hv => .inr (hfirst v hv)
        · exact fun w hw _ _ => .inl (htidy.last w hw)

theorem mem_intercalate {w : Text} (h : w ∈ [[]].intercalate wss) :
    w = [] ∨ ∃ ws ∈ wss, w ∈ ws := by
  induction wss with
  | nil => simp at h
  | cons ws wss ih =>
    by_cases hwss : wss = []
    · rw [hwss, List.intercalate_singleton] at h
      exact .inr ⟨ws, List.mem_cons_self, h⟩
    · rw [intercalate_cons ws hwss, List.mem_append, List.mem_cons] at h
      rcases h with h | h | h
      · exact .inr ⟨ws, List.mem_cons_self, h⟩
      · exact .inl h
      · obtain hw | ⟨vs, hvs, hw⟩ := ih h
        · exact .inl hw
        · exact .inr ⟨vs, List.mem_cons_of_mem _ hvs, hw⟩

/-- Runs are written out as their layouts, line by line, with an empty line between two runs. -/
theorem render_eq_lines (runs : List (List Layout)) : render runs =
    ([[]].intercalate (runs.map (List.map Layout.text))).flatMap fun w => w ++ [0x0A] := by
  induction runs with
  | nil => rfl
  | cons run runs ih =>
    have hrun : renderRun run = (run.map Layout.text).flatMap fun w => w ++ [0x0A] := by
      rw [renderRun, List.flatMap_map]
    by_cases hruns : runs = []
    · rw [hruns, render_singleton, hrun, List.map_singleton, List.intercalate_singleton]
    · rw [render_gap run hruns, ih, hrun, List.map_cons, intercalate_cons _ (by simpa using hruns),
        List.flatMap_append, List.flatMap_cons]
      rfl

/-! ## The whole text -/

theorem Text.HasRuns.shapes {t : Text} {runs : List (List Layout)} (h : t.HasRuns runs) :
    List.Forall₂ (fun r ws => List.Forall₂ (Line.Shape t) r.lines ws) (Document.parse t).records
      ((canonicalRuns runs).map (List.map Layout.text)) := by
  have hline : ∀ (r : Record) (run : List Layout), List.Forall₂ (Line.HasLayout t) r.lines run →
      List.Forall₂ (Line.Shape t) r.lines ((run.map Layout.canonical).map Layout.text) := by
    intro r run hrun
    rw [List.map_map, List.forall₂_map_right_iff]
    exact hrun.imp fun l a ha => ha.shape
  rw [Text.HasRuns, List.forall₂_map_left_iff] at h
  rw [canonicalRuns, List.map_map, List.forall₂_map_right_iff]
  exact h.imp fun r run hrun => hline r run hrun

theorem Writable.lines {runs : List (List Layout)} (h : Writable runs) :
    ∀ ws ∈ runs.map (List.map Layout.text), ws ≠ [] ∧
      ∀ w ∈ ws, w ≠ [] ∧ Text.Trimmed w ∧ ∀ b ∈ w, isBreak b = false := by
  intro ws hws
  obtain ⟨run, hrun, rfl⟩ := List.mem_map.mp hws
  refine ⟨by simpa using h.nonempty run hrun, fun w hw => ?_⟩
  obtain ⟨a, ha, rfl⟩ := List.mem_map.mp hw
  obtain ⟨hv, hu⟩ := h.layouts run hrun a ha
  exact ⟨Layout.text_ne_nil hv, Layout.trimmed_text hv, hu⟩

/-- **The shape of canonical text.** It is the byte order mark of the text, if that has one, and
then lines with a line feed after each. There is one paragraph for each record, with the lines of
the record in their shape, and an empty line between two paragraphs. So no empty line is first or
last or next to another one. No line starts or ends with a blank or has a break in it, and there is
no carriage return in the whole text. -/
theorem canonicalText_shape (t : Text) :
    ∃ wss : List (List Text), let ws := [[]].intercalate wss
      canonicalText t = t.mark ++ ws.flatMap (fun w => w ++ [0x0A]) ∧
      List.Forall₂ (fun r ws => List.Forall₂ (Line.Shape t) r.lines ws)
        (Document.parse t).records wss ∧
      Tidy ws ∧ (∀ w ∈ ws, Text.Trimmed w ∧ ∀ b ∈ w, isBreak b = false) ∧
      0x0D ∉ canonicalText t := by
  obtain ⟨runs, hruns, hw⟩ := t.exists_runs
  have htext := canonicalText_eq hruns
  have hlines := hw.canonical.lines
  rw [render_eq_lines] at htext
  generalize hwss : (canonicalRuns runs).map (List.map Layout.text) = wss at htext hlines
  have hplain : ∀ w ∈ [[]].intercalate wss, Text.Trimmed w ∧ ∀ b ∈ w, isBreak b = false := by
    intro w hmem
    obtain rfl | ⟨ws, hws, hmem⟩ := mem_intercalate hmem
    · exact ⟨⟨by simp, by simp⟩, by simp⟩
    · exact ((hlines ws hws).2 w hmem).2
  refine ⟨wss, htext, hwss ▸ hruns.shapes, ?_, hplain, fun hmem => ?_⟩
  · exact (tidy_intercalate fun ws hws =>
      ⟨(hlines ws hws).1, fun w hw => ((hlines ws hws).2 w hw).1⟩).1
  · rw [htext, List.mem_append, List.mem_flatMap] at hmem
    rcases hmem with hmark | ⟨w, hw, hmem⟩
    · have hno : ∀ m, m = byteOrderMark ∨ m = [] → 0x0D ∉ m := by
        rintro m (rfl | rfl) <;> decide
      exact hno _ t.mark_eq_or hmark
    · rcases List.mem_append.mp hmem with hmem | hmem
      · exact absurd ((hplain w hw).2 _ hmem) (by decide)
      · exact absurd hmem (by decide)

/-- A directive that is spaced out, lines that are kept, and a comment of white space only. -/
def untidyText : Text :=
  byteOrderMark ++ utf8 " usER-agent :  *  #  why \r\n\r\r\tbad #x\n:\n#\u3000"

theorem canonicalText_shape_untidy :
    canonicalText untidyText = byteOrderMark ++ utf8 "User-agent: * # why\n\nbad #x\n:\n#\n" ∧
      0x0D ∈ untidyText ∧ 0x0D ∉ canonicalText untidyText := by
  obtain ⟨-, -, -, -, -, hreturn⟩ := canonicalText_shape untidyText
  exact ⟨by decide +kernel, by decide, hreturn⟩

end RobotsTxt
