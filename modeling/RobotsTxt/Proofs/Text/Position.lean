import RobotsTxt.Proofs.Change.Script
import RobotsTxt.Proofs.Text.Seam

/-!
# Offsets and positions

How positions grow along a text, and when an offset is found again from its position.

* `Text.SeamAt`, `Text.ReturnAt`: offsets between two characters, and just after a carriage return
  at the end of a line.
* `Text.Clean`: an offset between two characters that is not just after a carriage return at the end
  of a line.
* **`Text.positionAt_between`**: how far it is from one clean offset to another one of the same
  line.
* `Position.lt_iff`: the order of positions; **`Text.Clean.positionAt_le`**: they grow with the
  offsets.
* `Text.retreat`: an offset, moved back in front of a carriage return at the end of a line.
* **`Text.offsetAt_positionAt`**: the position of an offset leads back to it, or to the offset in
  front of such a carriage return.
-/

namespace RobotsTxt

/-! ## The order of positions -/

/-- A position comes before another one if it is on an earlier line, or on the same line and further
to the left. -/
instance : LT Position where
  lt p q := p.line < q.line ∨ p.line = q.line ∧ p.character < q.character

instance : LE Position where
  le p q := p.line < q.line ∨ p.line = q.line ∧ p.character ≤ q.character

namespace Position

variable {p q : Position}

theorem lt_iff : p < q ↔ p.line < q.line ∨ p.line = q.line ∧ p.character < q.character := Iff.rfl

theorem le_iff : p ≤ q ↔ p.line < q.line ∨ p.line = q.line ∧ p.character ≤ q.character := Iff.rfl

instance : Decidable (p < q) := decidable_of_iff _ lt_iff.symm

instance : Decidable (p ≤ q) := decidable_of_iff _ le_iff.symm

end Position

namespace Text

variable {s t u v w : Text}

/-! ## The last line -/

theorem notMem_lastLine (t : Text) : 0x0A ∉ t.lastLine := fun h =>
  absurd (List.mem_rtakeWhile_imp h) (by decide)

theorem exists_lastLine (t : Text) :
    ∃ u : Text, t = u ++ t.lastLine ∧ ∀ b ∈ u.getLast?, b = 0x0A := by
  refine ⟨t.rdropWhile (· != 0x0A), List.rdropWhile_append_rtakeWhile.symm, fun b hb => ?_⟩
  have hne : t.rdropWhile (· != 0x0A) ≠ [] := fun h => by simp [h] at hb
  have hlast := List.rdropWhile_last_not (· != 0x0A) t hne
  rw [List.getLast?_eq_getLast_of_ne_nil hne, Option.mem_some_iff] at hb
  simpa [hb] using hlast

theorem lastLine_append (h : 0x0A ∉ v) : lastLine (u ++ v) = lastLine u ++ v := by
  have hv : ∀ b ∈ v.reverse, (b != 0x0A) = true := fun b hb =>
    bne_iff_ne.mpr fun e => h (e ▸ List.mem_reverse.mp hb)
  unfold lastLine
  rw [List.reverse_append, List.takeWhile_append_of_pos hv, List.reverse_append,
    List.reverse_reverse]

theorem ascii_of_feed (hu : ∀ b ∈ u.getLast?, b = 0x0A) : ∀ b ∈ u.getLast?, b < 0x80 :=
  fun b hb => hu b hb ▸ by decide

theorem units16_lastLine_append (h : Seam s v) (hv : 0x0A ∉ v) :
    units16 (lastLine (s ++ v)) = units16 (lastLine s) + units16 v := by
  obtain ⟨u, hs, hu⟩ := exists_lastLine s
  rw [hs] at h
  rw [lastLine_append hv, units16_append (h.of_append (ascii_of_feed hu))]

/-! ## Two seams -/

theorem bytes_length_runes (t : Text) : ((runes t).flatMap Rune.bytes).length = t.length := by
  rw [flatMap_runes]

theorem Seam.inner (h₁ : Seam s (v ++ w)) (h₂ : Seam (s ++ v) w) : Seam s v := by
  have hall : runes (s ++ v) ++ runes w = runes s ++ runes (v ++ w) := by
    unfold Seam at h₁ h₂
    rw [← h₁, ← h₂, List.append_assoc]
  rcases List.append_eq_append_iff.mp hall with ⟨x, hx, -⟩ | ⟨x, hx, hrest⟩
  · have hlen := congrArg (fun rs => (rs.flatMap Rune.bytes).length) hx
    simp only [List.flatMap_append, List.length_append, bytes_length_runes] at hlen
    obtain rfl : v = [] := List.eq_nil_of_length_eq_zero (by omega)
    exact seam_nil_right s
  · have hbytes := congrArg (fun rs => rs.flatMap Rune.bytes) hx
    simp only [List.flatMap_append, flatMap_runes, List.append_cancel_left_eq] at hbytes
    have hv := (runes_append hrest).1
    rw [← hbytes] at hv
    rw [Seam, hx, hv]

/-! ## Positions along a text -/

/-- An offset between two characters. -/
def SeamAt (t : Text) (o : Nat) : Prop := Seam (t.take o) (t.drop o)

instance (t : Text) (o : Nat) : Decidable (t.SeamAt o) := inferInstanceAs (Decidable (Seam _ _))

/-- An offset just after a carriage return at the end of a line. -/
def ReturnAt (t : Text) (o : Nat) : Prop := endsInReturn (t.take o) (t.drop o) = true

instance (t : Text) (o : Nat) : Decidable (t.ReturnAt o) := inferInstanceAs (Decidable (_ = true))

/-- An offset between two characters, and not just after a carriage return at the end of a line. -/
structure Clean (t : Text) (o : Nat) : Prop where
  seam : t.SeamAt o
  noReturn : ¬ t.ReturnAt o

theorem take_eq_append (t : Text) {a b : Nat} (h : a ≤ b) : t.take b = t.take a ++ t.slice a b := by
  obtain ⟨n, rfl⟩ := Nat.exists_eq_add_of_le h
  rw [slice, Nat.add_sub_cancel_left, List.take_add]

theorem Clean.positionAt {o : Nat} (h : t.Clean o) :
    t.positionAt o = ⟨(t.take o).count 0x0A, units16 (lastLine (t.take o))⟩ := by
  have hreturn : ¬ endsInReturn (t.take o) (t.drop o) = true := h.noReturn
  rw [Text.positionAt, if_neg hreturn]

theorem line_positionAt (t : Text) (o : Nat) : (t.positionAt o).line = (t.take o).count 0x0A := rfl

theorem line_positionAt_add (t : Text) {a b : Nat} (h : a ≤ b) :
    (t.positionAt b).line = (t.positionAt a).line + (t.slice a b).count 0x0A := by
  rw [line_positionAt, line_positionAt, t.take_eq_append h, List.count_append]

/-- **From one clean offset to another one of the same line** it is as far as the text between them
is long. -/
theorem positionAt_between {a b : Nat} (hab : a ≤ b) (ha : t.Clean a) (hb : t.Clean b)
    (hn : 0x0A ∉ t.slice a b) :
    t.positionAt b =
      ⟨(t.positionAt a).line, (t.positionAt a).character + units16 (t.slice a b)⟩ := by
  have hseam : Seam (t.take a) (t.slice a b) := by
    have h₁ := ha.seam
    have h₂ := hb.seam
    rw [SeamAt, t.drop_eq_slice hab] at h₁
    rw [SeamAt, t.take_eq_append hab] at h₂
    exact h₁.inner h₂
  rw [hb.positionAt, ha.positionAt, t.take_eq_append hab, List.count_append,
    List.count_eq_zero.mpr hn, units16_lastLine_append hseam hn, Nat.add_zero]

/-- A later clean offset is on a later line, or as far to the right as the text between is long. -/
theorem Clean.positionAt_cases {a b : Nat} (ha : t.Clean a) (hb : t.Clean b) (hab : a ≤ b) :
    (t.positionAt a).line < (t.positionAt b).line ∨
      (t.positionAt a).line = (t.positionAt b).line ∧
        (t.positionAt b).character = (t.positionAt a).character + units16 (t.slice a b) := by
  by_cases hn : 0x0A ∈ t.slice a b
  · have hlines := t.line_positionAt_add hab
    have hpos := List.count_pos_iff.mpr hn
    omega
  · rw [positionAt_between hab ha hb hn]
    exact .inr ⟨rfl, rfl⟩

/-- **Positions grow with the offsets**, from one clean offset to another one. -/
theorem Clean.positionAt_le {a b : Nat} (ha : t.Clean a) (hb : t.Clean b) (hab : a ≤ b) :
    t.positionAt a ≤ t.positionAt b := by
  have hcases := ha.positionAt_cases hb hab
  rw [Position.le_iff]
  omega

theorem Clean.positionAt_lt {a b : Nat} (ha : t.Clean a) (hb : t.Clean b) (hab : a < b)
    (hlen : b ≤ t.length) : t.positionAt a < t.positionAt b := by
  have hne : t.slice a b ≠ [] := by
    rw [slice, ← List.length_pos_iff, List.length_take, List.length_drop]
    omega
  have hcases := ha.positionAt_cases hb (Nat.le_of_lt hab)
  have hunits := units16_pos hne
  rw [Position.lt_iff]
  omega

theorem positionAt_lt {n o : Nat} (ht : t.length < n) :
    (t.positionAt o).line < n ∧ (t.positionAt o).character < n := by
  have hlen : (t.take o).length ≤ t.length := List.length_take_le' o t
  have hline : (t.take o).count 0x0A ≤ (t.take o).length := List.count_le_length
  have hunits : units16 (lastLine (t.take o)) ≤ (t.take o).length := by
    obtain ⟨u, hu, -⟩ := exists_lastLine (t.take o)
    have := congrArg List.length hu
    rw [List.length_append] at this
    have := units16_le_length (lastLine (t.take o))
    omega
  constructor
  · rw [line_positionAt]
    omega
  · unfold positionAt
    simp only
    split <;> omega

/-! ## From a position back to the offset -/

theorem lineFrom_count (r : Text) (hu : ∀ b ∈ u.getLast?, b = 0x0A) :
    lineFrom (u.count 0x0A) (u ++ r) = some (u.length, r) := by
  induction u with
  | nil => rw [List.count_nil, List.nil_append, lineFrom, List.length_nil]
  | cons b u ih =>
    have hu' : ∀ a ∈ u.getLast?, a = 0x0A := fun a ha => hu a (by
      cases u with
      | nil => simp at ha
      | cons c u => simpa using ha)
    have hmem : 0x0A ∈ b :: u := by
      have hlast := List.getLast?_eq_getLast_of_ne_nil (List.cons_ne_nil b u)
      rw [← hu _ hlast]
      exact List.getLast_mem _
    obtain ⟨n, hn⟩ := Nat.exists_eq_succ_of_ne_zero (List.count_pos_iff.mpr hmem).ne'
    have hcount : (if b == 0x0A then n else n + 1) = u.count 0x0A := by
      rw [List.count_cons] at hn
      split <;> simp_all
    rw [hn, List.cons_append, lineFrom, hcount, ih hu', Option.map_some, List.length_cons]

theorem bytesOfUnits_append {rs : List Rune} (more : List Rune)
    (h : ∀ r ∈ rs, r.code ≠ 0x0A ∧ r.isStray = false) :
    bytesOfUnits (unitsOf rs) (rs ++ more) = .ok (rs.flatMap Rune.bytes).length := by
  induction rs with
  | nil =>
    cases more <;> rfl
  | cons r rs ih =>
    obtain ⟨hr, hrest⟩ := List.forall_mem_cons.mp h
    have hunits : r.units = 1 ∨ r.units = 2 := by
      unfold Rune.units
      split <;> simp
    have hbytes : ((r :: rs).flatMap Rune.bytes).length =
        (rs.flatMap Rune.bytes).length + r.bytes.length := by
      rw [List.flatMap_cons, List.length_append, Nat.add_comm]
    rw [unitsOf, List.cons_append, hbytes]
    rcases hunits with h₁ | h₂
    · rw [h₁, Nat.add_comm, bytesOfUnits, if_neg hr.1, if_neg (by simp [hr.2]), if_neg (by omega),
        ih hrest]
      rfl
    · have hsum : 2 + unitsOf rs = unitsOf rs + 1 + 1 := by omega
      rw [h₂, hsum, bytesOfUnits, if_neg hr.1, if_neg (by simp [hr.2]), if_pos h₂,
        if_neg (by omega), Nat.add_sub_cancel, ih hrest]
      rfl

theorem code_ne_feed (hv : 0x0A ∉ v) : ∀ r ∈ runes v, r.code ≠ 0x0A := by
  intro r hr hcode
  obtain ⟨a, s, rfl⟩ := exists_read_of_mem_runes hr
  have hread := Rune.read_of_ascii (a := a) (t := s) (by omega)
  rw [hread] at hcode hr
  obtain rfl : a = 0x0A := UInt8.toNat_inj.mp hcode
  refine hv ?_
  rw [← flatMap_runes v]
  exact List.mem_flatMap.mpr ⟨_, hr, List.mem_singleton_self _⟩

theorem isUtf8_append (h : Seam s t) : isUtf8 (s ++ t) = (isUtf8 s && isUtf8 t) := by
  unfold isUtf8
  rw [h, List.all_append]

/-- The offset of a position is found by counting units from the start of the line. -/
theorem offsetAt_append (hu : ∀ b ∈ u.getLast?, b = 0x0A) (hv : 0x0A ∉ v) (hs : Seam v w)
    (hutf : isUtf8 v = true) :
    offsetAt (u ++ (v ++ w)) ⟨u.count 0x0A, units16 v⟩ = .ok (u.length + v.length) := by
  have hcount : ¬ lineCount (u ++ (v ++ w)) < u.count 0x0A := by
    rw [lineCount, List.count_append]
    omega
  have hstray : ∀ r ∈ runes v, r.isStray = false := by
    intro r hr
    simpa using List.all_eq_true.mp hutf r hr
  have hbytes : bytesOfUnits (units16 v) (runes (v ++ w)) = .ok v.length := by
    rw [hs, units16_eq, bytesOfUnits_append _ fun r hr => ⟨code_ne_feed hv r hr, hstray r hr⟩,
      bytes_length_runes]
  unfold offsetAt
  simp only
  rw [if_neg hcount, lineFrom_count _ hu]
  simp only [hbytes]
  rfl

theorem positionAt_cut (s w : Text) : positionAt (s ++ w) s.length = ⟨s.count 0x0A,
    if endsInReturn s w then units16 (lastLine s) - 1 else units16 (lastLine s)⟩ := by
  unfold positionAt
  rw [List.take_left, List.drop_left]

theorem offsetAt_cut (hutf : isUtf8 (s ++ w) = true) (h : Seam s w) :
    offsetAt (s ++ w) (positionAt (s ++ w) s.length) =
      .ok (if endsInReturn s w then s.length - 1 else s.length) := by
  obtain ⟨u, hs, hu⟩ := exists_lastLine s
  have hfeed := notMem_lastLine s
  rw [positionAt_cut]
  generalize lastLine s = line at hs hfeed ⊢
  subst hs
  have hseam := h.of_append (ascii_of_feed hu)
  have hline : isUtf8 line = true := by
    rw [isUtf8_append h, isUtf8_append (seam_of_last (ascii_of_feed hu)), Bool.and_eq_true,
      Bool.and_eq_true] at hutf
    exact hutf.1.2
  have hcount : (u ++ line).count 0x0A = u.count 0x0A := by
    rw [List.count_append, List.count_eq_zero.mpr hfeed, Nat.add_zero]
  rw [hcount, List.append_assoc]
  by_cases hr : endsInReturn (u ++ line) w = true
  · -- The carriage return belongs to the last line, which is read up to it.
    rw [if_pos hr, if_pos hr]
    have hlast : (u ++ line).getLast? = some 0x0D := by
      simp only [endsInReturn, Bool.and_eq_true, beq_iff_eq] at hr
      exact hr.1
    rcases List.eq_nil_or_concat line with rfl | ⟨init, b, rfl⟩
    · rw [List.append_nil] at hlast
      exact absurd (hu _ hlast) (by decide)
    · rw [List.concat_eq_append] at *
      obtain rfl : b = 0x0D := by simpa using hlast
      have hcut : ∀ x : Text, Seam init (0x0D :: x) := fun x =>
        seam_of_head (by simp [Rune.isTail])
      have hinit : isUtf8 init = true := by
        rw [isUtf8_append (hcut []), Bool.and_eq_true] at hline
        exact hline.1
      have hunits : units16 (init ++ [0x0D]) - 1 = units16 init := by
        have hone : units16 [0x0D] = 1 := rfl
        rw [units16_append (hcut []), hone, Nat.add_sub_cancel]
      have hlen : (u ++ (init ++ [0x0D])).length - 1 = u.length + init.length := by
        simp only [List.length_append, List.length_singleton]
        omega
      rw [hunits, hlen, List.append_assoc]
      exact offsetAt_append hu (fun hm => hfeed (List.mem_append_left _ hm)) (hcut w) hinit
  · rw [if_neg hr, if_neg hr, List.length_append]
    exact offsetAt_append hu hfeed hseam hline

/-- An offset just after a carriage return at the end of a line, moved in front of it. -/
def retreat (t : Text) (o : Nat) : Nat :=
  if endsInReturn (t.take o) (t.drop o) then o - 1 else o

theorem ReturnAt.exists_byte {o : Nat} (h : t.ReturnAt o) (ho : o ≤ t.length) :
    0 < o ∧ t[o - 1]? = some 0x0D := by
  simp only [ReturnAt, endsInReturn, Bool.and_eq_true, beq_iff_eq] at h
  have hlast := h.1
  rw [List.getLast?_eq_getElem?, List.length_take, Nat.min_eq_left ho] at hlast
  have hpos : 0 < o := by
    by_contra hzero
    obtain rfl : o = 0 := by omega
    simp at hlast
  rw [List.getElem?_take_of_lt (by omega)] at hlast
  exact ⟨hpos, hlast⟩

theorem retreat_of_returnAt {o : Nat} (h : t.ReturnAt o) : t.retreat o = o - 1 := if_pos h

theorem retreat_of_not_returnAt {o : Nat} (h : ¬ t.ReturnAt o) : t.retreat o = o := if_neg h

theorem retreat_bounds (t : Text) (o : Nat) : o - 1 ≤ t.retreat o ∧ t.retreat o ≤ o := by
  by_cases h : t.ReturnAt o
  · rw [retreat_of_returnAt h]
    omega
  · rw [retreat_of_not_returnAt h]
    omega

theorem retreat_mono {o p : Nat} (h : o ≤ p) : t.retreat o ≤ t.retreat p := by
  rcases Nat.eq_or_lt_of_le h with rfl | hlt
  · exact Nat.le_refl _
  · have ho := t.retreat_bounds o
    have hp := t.retreat_bounds p
    omega

theorem retreat_zero (t : Text) : t.retreat 0 = 0 := by
  have := t.retreat_bounds 0
  omega

/-- **The position of an offset between two characters leads back to it**, or to the offset in front
of a carriage return at the end of a line. -/
theorem offsetAt_positionAt {o : Nat} (ht : isUtf8 t = true) (ho : o ≤ t.length)
    (h : t.SeamAt o) : t.offsetAt (t.positionAt o) = .ok (t.retreat o) := by
  have hcut := offsetAt_cut (by rwa [List.take_append_drop]) h
  rwa [List.take_append_drop, List.length_take, Nat.min_eq_left ho] at hcut

end Text

end RobotsTxt
