import Mathlib.Data.List.Basic
import RobotsTxt.Overwrite
import RobotsTxt.Proofs.Lookup

/-!
# Trees of files

What a tree shows at every place, before and after it is changed, and where paths lead in it.

* `Files.Holds`: something stands at a place or below it.
* `Files.entry?_put_of_ne`, `Files.entry?_alter`, `Files.entry?_remove_of_ne`: a change of one place
  leaves all others as they are.
* `Files.Extends`: a tree with at least the directories and files of another one;
  `Files.Extends.resolve`: paths lead to the same places in it.
* `Files.LeadsToNew`: a path of a new file; `Files.LeadsToNew.resolve_eq`: it leads to the file as
  soon as that is there.
-/

namespace RobotsTxt.Files

variable {fs now : Files} {p q place : List Text} {path content old : Text} {e : Entry}

/-! ## What stands at a place -/

/-- Something stands at a place or below it. -/
def Holds (fs : Files) (p : List Text) : Prop := p <+: fs.here ∨ ∃ f ∈ fs.entries, p <+: f.1

theorem Holds.mono (h : fs.Holds p) (hq : q <+: p) : fs.Holds q := by
  rcases h with h | ⟨f, hf, h⟩
  · exact .inl (hq.trans h)
  · exact .inr ⟨f, hf, hq.trans h⟩

theorem holds_nil (fs : Files) : fs.Holds [] := .inl List.nil_prefix

theorem holds_of_lookup (h : fs.entries.lookup p = some e) : fs.Holds p := by
  obtain ⟨l₁, l₂, hl, -⟩ := List.lookup_eq_some_iff.mp h
  exact .inr ⟨(p, e), by simp [hl], List.prefix_rfl⟩

theorem entry?_of_lookup (h : fs.entries.lookup p = some e) : fs.entry? p = some e := by
  unfold entry?
  rw [h]

theorem entry?_of_holds (h : fs.entries.lookup p = none) (hp : fs.Holds p) :
    fs.entry? p = some .directory := by
  unfold entry?
  rw [h]
  exact if_pos (by simpa [Holds] using hp)

theorem entry?_eq_none_iff : fs.entry? p = none ↔ ¬ fs.Holds p := by
  cases h : fs.entries.lookup p with
  | some e => simp [entry?_of_lookup h, holds_of_lookup h]
  | none => simp [ entry?, h, Holds]

theorem isSome_entry?_iff : (fs.entry? p).isSome ↔ fs.Holds p := by
  rw [← not_iff_not, ← entry?_eq_none_iff, Option.not_isSome_iff_eq_none]

theorem lookup_of_file (h : fs.entry? p = some (.file content)) :
    fs.entries.lookup p = some (.file content) := by
  cases hl : fs.entries.lookup p with
  | some e => rwa [entry?_of_lookup hl] at h
  | none =>
    have hp : fs.Holds p := isSome_entry?_iff.mp (by rw [h]; rfl)
    simp [entry?_of_holds hl hp] at h

theorem entry?_congr (hl : now.entries.lookup p = fs.entries.lookup p)
    (hp : now.Holds p ↔ fs.Holds p) : now.entry? p = fs.entry? p := by
  cases h : fs.entries.lookup p with
  | some e => rw [entry?_of_lookup h, entry?_of_lookup (hl.trans h)]
  | none =>
    by_cases hp' : fs.Holds p
    · rw [entry?_of_holds h hp', entry?_of_holds (hl.trans h) (hp.mpr hp')]
    · rw [entry?_eq_none_iff.mpr hp', entry?_eq_none_iff.mpr (mt hp.mp hp')]

/-! ## Changes of a tree -/

theorem lookup_put (fs : Files) (p q : List Text) (e : Entry) :
    (fs.put p e).entries.lookup q = if q = p then some e else fs.entries.lookup q :=
  lookup_filter_append

theorem holds_put_iff : (fs.put p e).Holds q ↔ fs.Holds q ∨ q <+: p := by
  have hother : (∃ f ∈ fs.entries.filter fun f => f.1 != p, q <+: f.1) ∨ q <+: p ↔
      (∃ f ∈ fs.entries, q <+: f.1) ∨ q <+: p := by
    constructor
    · rintro (⟨f, hf, hq⟩ | hq)
      · exact .inl ⟨f, (List.mem_filter.mp hf).1, hq⟩
      · exact .inr hq
    · rintro (⟨f, hf, hq⟩ | hq)
      · by_cases hp : f.1 = p
        · exact .inr (hp ▸ hq)
        · exact .inl ⟨f, List.mem_filter.mpr ⟨hf, by simpa using hp⟩, hq⟩
      · exact .inr hq
  simp only [Holds, put, List.mem_append, List.mem_singleton, or_and_right, exists_or,
    exists_eq_left, hother, or_assoc]

theorem entry?_put_self (fs : Files) (p : List Text) (e : Entry) :
    entry? (fs.put p e) p = some e :=
  entry?_of_lookup (by rw [lookup_put, if_pos rfl])

theorem entry?_put_of_ne (hne : q ≠ p) (h : q <+: p → fs.Holds q) :
    entry? (fs.put p e) q = fs.entry? q := by
  refine entry?_congr (by rw [lookup_put, if_neg hne]) ?_
  rw [holds_put_iff]
  exact ⟨fun hq => hq.elim id h, .inl⟩

theorem here_alter (fs : Files) (p : List Text) (f : Text → Text) :
    (fs.alter p f).here = fs.here := by
  unfold alter
  split <;> rfl

theorem entry?_alter (h : fs.entry? p = some (.file content)) (f : Text → Text) (q : List Text) :
    entry? (fs.alter p f) q = if q = p then some (.file (f content)) else fs.entry? q := by
  rw [alter, h]
  by_cases hq : q = p
  · rw [if_pos hq, hq]
    exact entry?_put_self fs p _
  · rw [if_neg hq]
    exact entry?_put_of_ne hq fun hprefix => (holds_of_lookup (lookup_of_file h)).mono hprefix

/-- What is left when one place is taken out. -/
def without (fs : Files) (p : List Text) : Files :=
  { fs with entries := fs.entries.filter fun f => f.1 != p }

/-- The directory that held what has been removed is put back if nothing else holds it. -/
theorem remove_cases (fs : Files) (path : Text) :
    let p := absolute fs.here path
    (fs.remove path = fs.without p ∧ (fs.without p).Holds p.dropLast) ∨
      (fs.remove path = (fs.without p).put p.dropLast .directory ∧
        ¬ (fs.without p).Holds p.dropLast) := by
  unfold remove
  dsimp only
  split
  · next hnil => exact .inl ⟨rfl, hnil ▸ holds_nil _⟩
  · split
    · next h => exact .inl ⟨rfl, isSome_entry?_iff.mp h⟩
    · next h => exact .inr ⟨rfl, mt isSome_entry?_iff.mpr h⟩

theorem here_remove (fs : Files) (path : Text) : (fs.remove path).here = fs.here := by
  obtain ⟨h, -⟩ | ⟨h, -⟩ := fs.remove_cases path <;> rw [h] <;> rfl

theorem lookup_without (fs : Files) (p q : List Text) :
    (fs.without p).entries.lookup q = if q = p then none else fs.entries.lookup q :=
  lookup_filter_bne

/-- Whatever stood elsewhere is still there, except perhaps for the directories above. -/
theorem holds_without_iff (hq : ¬ q <+: p) : (fs.without p).Holds q ↔ fs.Holds q := by
  refine or_congr_right ⟨fun ⟨f, hf, h⟩ => ⟨f, (List.mem_filter.mp hf).1, h⟩, fun ⟨f, hf, h⟩ => ?_⟩
  refine ⟨f, List.mem_filter.mpr ⟨hf, ?_⟩, h⟩
  simpa using fun he : f.1 = p => hq (he ▸ h)

theorem prefix_dropLast (hq : q <+: p) (hne : q ≠ p) : q <+: p.dropLast := by
  obtain ⟨t, rfl⟩ := hq
  have ht : t ≠ [] := fun ht => hne (by rw [ht, List.append_nil])
  exact ⟨t.dropLast, (List.dropLast_append_of_ne_nil ht).symm⟩

theorem entry?_remove_of_ne (h : fs.Holds (absolute fs.here path))
    (hne : q ≠ absolute fs.here path) : entry? (fs.remove path) q = fs.entry? q := by
  generalize hp : absolute fs.here path = p at h hne
  have hwithout : (fs.without p).entries.lookup q = fs.entries.lookup q := by
    rw [lookup_without, if_neg hne]
  have hcases := fs.remove_cases path
  rw [hp] at hcases
  by_cases hprefix : q <+: p
  · -- a directory above the file: it is still there
    have hdir : (fs.without p).Holds p.dropLast → (fs.without p).Holds q :=
      fun hd => hd.mono (prefix_dropLast hprefix hne)
    obtain ⟨hremove, hd⟩ | ⟨hremove, hd⟩ := hcases
    · rw [hremove]
      exact entry?_congr hwithout (iff_of_true (hdir hd) (h.mono hprefix))
    · rw [hremove]
      by_cases hparent : q = p.dropLast
      · have hnone : fs.entries.lookup q = none := by
          rw [← hwithout, ← Option.not_isSome_iff_eq_none]
          intro hsome
          obtain ⟨e, he⟩ := Option.isSome_iff_exists.mp hsome
          exact hd (hparent ▸ holds_of_lookup he)
        rw [entry?_of_holds hnone (h.mono hprefix), hparent, entry?_put_self]
      · refine entry?_congr (by rw [lookup_put, if_neg hparent, hwithout])
          (iff_of_true (holds_put_iff.mpr (.inr (prefix_dropLast hprefix hne)))
            (h.mono hprefix))
  · have hkept : entry? (fs.without p) q = fs.entry? q :=
      entry?_congr hwithout (holds_without_iff hprefix)
    obtain ⟨hremove, -⟩ | ⟨hremove, -⟩ := hcases
    · rw [hremove, hkept]
    · have hparent : ¬ q <+: p.dropLast := fun hq => hprefix (hq.trans (List.dropLast_prefix p))
      have hne' : q ≠ p.dropLast := fun hq => hparent (hq.symm ▸ List.prefix_rfl)
      rw [hremove, entry?_put_of_ne hne' fun hq => absurd hq hparent, hkept]

theorem entry?_remove_self (h : ∀ q, absolute fs.here path <+: q →
    q ≠ absolute fs.here path → ¬ fs.Holds q) (hhere : ¬ absolute fs.here path <+: fs.here) :
    entry? (fs.remove path) (absolute fs.here path) = none := by
  have hcases := fs.remove_cases path
  generalize absolute fs.here path = p at h hhere hcases
  have hnil : p ≠ [] := fun hp => hhere (hp ▸ List.nil_prefix)
  have hwithout : ¬ (fs.without p).Holds p := by
    rintro (hp | ⟨f, hf, hp⟩)
    · exact hhere hp
    · obtain ⟨hmem, hne⟩ := List.mem_filter.mp hf
      exact h f.1 hp (by simpa using hne) (.inr ⟨f, hmem, List.prefix_rfl⟩)
  rw [entry?_eq_none_iff]
  obtain ⟨hremove, -⟩ | ⟨hremove, -⟩ := hcases
  · rwa [hremove]
  · rw [hremove, holds_put_iff]
    rintro (hp | hp)
    · exact hwithout hp
    · have hlen := hp.length_le
      rw [List.length_dropLast] at hlen
      have := List.length_pos_iff.mpr hnil
      omega

/-! ## Where paths lead -/

theorem follow_append (fs : Files) (p : List Text) (parts rest : List Text) :
    fs.follow p (parts ++ rest) = match fs.follow p parts with
      | .ok q => fs.follow q rest
      | .error cause => .error cause := by
  induction parts generalizing p with
  | nil => rfl
  | cons part parts ih =>
    rw [List.cons_append, follow, follow]
    cases fs.entry? p with
    | none => rfl
    | some e =>
      cases e with
      | file content => rfl
      | directory =>
        dsimp only
        split_ifs
        all_goals first | exact ih _ | rfl

theorem normalize_of_follow {parts : List Text} (h : fs.follow p parts = .ok q) :
    normalize p parts = q := by
  induction parts generalizing p with
  | nil => exact Except.ok.inj h
  | cons part parts ih =>
    rw [follow] at h
    split at h
    · rw [normalize]
      split_ifs at h ⊢
      all_goals exact ih h
    · simp at h

/-- **A tree with all the directories of another one**, and with something at every place at which
there is something in the other one. -/
structure Extends (now fs : Files) : Prop where
  here : now.here = fs.here
  directory : ∀ p, fs.entry? p = some .directory → now.entry? p = some .directory
  holds : ∀ p, (fs.entry? p).isSome → (now.entry? p).isSome

/-- All is as it was, but for the content of one file and for what is new. -/
theorem Extends.of_same (hhere : now.here = fs.here) (hfile : fs.entry? place = some (.file old))
    (hnow : now.entry? place = some (.file content))
    (hsame : ∀ q, q ≠ place → fs.entry? q ≠ none → now.entry? q = fs.entry? q) :
    now.Extends fs := by
  refine ⟨hhere, fun q hq => ?_, fun q hq => ?_⟩
  · have hne : q ≠ place := fun he => by simp [he, hfile] at hq
    rw [hsame q hne (by simp [hq]), hq]
  · by_cases he : q = place
    · rw [he, hnow]
      rfl
    · rwa [hsame q he (Option.isSome_iff_ne_none.mp hq)]

theorem Extends.follow (h : now.Extends fs) {parts : List Text} (hp : fs.follow p parts = .ok q) :
    now.follow p parts = .ok q := by
  induction parts generalizing p with
  | nil => exact hp
  | cons part parts ih =>
    rw [Files.follow] at hp ⊢
    split at hp
    · next hdir =>
      rw [h.directory p hdir]
      dsimp only
      split_ifs at hp with hempty hup hlong hsome
      · rw [if_pos hempty]
        exact ih hp
      · rw [if_neg hempty, if_pos hup]
        exact ih hp
      · rw [if_neg hempty, if_neg hup, if_neg hlong, if_pos (h.holds _ hsome)]
        exact ih hp
    · simp at hp

theorem Extends.origin (h : now.Extends fs) (path : Text) : now.origin path = fs.origin path := by
  rw [Files.origin, Files.origin, h.here]

/-- **Paths lead to the same places.** -/
theorem Extends.resolve (h : now.Extends fs) (hp : fs.resolve path = .ok q) :
    now.resolve path = .ok q := by
  unfold Files.resolve at hp ⊢
  split_ifs at hp ⊢
  rw [h.origin]
  exact h.follow hp

theorem absolute_of_resolve (h : fs.resolve path = .ok q) : absolute fs.here path = q := by
  unfold resolve at h
  split_ifs at h
  exact normalize_of_follow h

theorem read_eq_ok_iff :
    fs.read path = .ok content ↔
      ∃ place, fs.resolve path = .ok place ∧ fs.entry? place = some (.file content) := by
  unfold read
  cases fs.resolve path with
  | error cause => simp
  | ok place =>
    simp only [Except.ok.injEq, exists_eq_left']
    cases fs.entry? place with
    | none => simp
    | some e => cases e <;> simp

/-! ## New files -/

theorem pathParts_ne_nil (path : Text) : pathParts path ≠ [] := by
  cases path with
  | nil => simp [pathParts]
  | cons b t =>
    rw [pathParts]
    split
    · simp
    · split <;> simp

theorem normalize_append (directory parts rest : List Text) :
    normalize directory (parts ++ rest) = normalize (normalize directory parts) rest := by
  induction parts generalizing directory with
  | nil => rfl
  | cons part parts ih =>
    rw [List.cons_append, normalize, normalize]
    split_ifs
    all_goals exact ih _

/-- A name that a file may have. -/
structure IsFileName (name : Text) : Prop where
  nonempty : ¬ (name.isEmpty || name == utf8 ".")
  up : ¬ name == utf8 ".."
  length : ¬ maxName < name.length

/-- **A path of a new file**: some parts that lead to a directory, and a name. -/
structure LeadsToNew (fs : Files) (path : Text) (parts parent : List Text) (name : Text) : Prop
    where
  path_eq : pathParts path = parts ++ [name]
  follow : fs.follow (fs.origin path) parts = .ok parent
  directory : fs.entry? parent = some .directory
  isName : IsFileName name
  plain : ¬ path.contains 0
  length : ¬ maxPath ≤ path.length

theorem exists_leadsToNew (h : fs.destination path = .ok place) :
    ∃ parts parent name, place = parent ++ [name] ∧ fs.LeadsToNew path parts parent name := by
  have hne := pathParts_ne_nil path
  unfold destination at h
  dsimp only at h
  rw [List.getLast?_eq_some_getLast hne, Option.getD_some, follow_append] at h
  cases hfollow : fs.follow (fs.origin path) (pathParts path).dropLast with
  | error cause =>
    rw [hfollow] at h
    split_ifs at h
  | ok parent =>
    rw [hfollow] at h
    dsimp only at h
    cases hdir : fs.follow parent [[]] with
    | error cause =>
      rw [hdir] at h
      split_ifs at h
    | ok q =>
      rw [hdir] at h
      split_ifs at h with hplain hlength hname hlong
      rw [Bool.or_eq_true, not_or] at hname
      rw [Files.follow] at hdir
      split at hdir
      · next hdirectory =>
        obtain rfl : parent = q := Except.ok.inj hdir
        exact ⟨_, parent, (pathParts path).getLast hne, (Except.ok.inj h).symm,
          (List.dropLast_append_getLast hne).symm, hfollow, hdirectory,
          ⟨hname.1, hname.2, hlong⟩, hplain, hlength⟩
      · simp at hdir

theorem IsFileName.normalize_eq {name : Text} (h : IsFileName name) (parent : List Text) :
    normalize parent [name] = parent ++ [name] := by
  rw [normalize, if_neg h.nonempty, if_neg h.up, normalize]

section New

variable {parts parent : List Text} {name : Text}

theorem LeadsToNew.absolute_eq (h : fs.LeadsToNew path parts parent name) :
    absolute fs.here path = parent ++ [name] := by
  change normalize (fs.origin path) (pathParts path) = parent ++ [name]
  rw [h.path_eq, normalize_append, normalize_of_follow h.follow, h.isName.normalize_eq]

/-- **The path of a new file leads to it** as soon as it is there. -/
theorem LeadsToNew.resolve_eq (h : fs.LeadsToNew path parts parent name) (hnow : now.Extends fs)
    (hnew : (now.entry? (parent ++ [name])).isSome) :
    now.resolve path = .ok (parent ++ [name]) := by
  have hpath : ¬ path.isEmpty := by
    intro hpath
    have hparts : [] ++ [[]] = parts ++ [name] := by
      rw [← h.path_eq, List.isEmpty_iff.mp hpath]
      rfl
    obtain ⟨-, hname⟩ := List.append_inj' hparts rfl
    exact h.isName.nonempty (by simp [← (List.cons.inj hname).1])
  unfold Files.resolve
  rw [if_neg h.plain, if_neg h.length, if_neg hpath, hnow.origin, h.path_eq, follow_append,
    hnow.follow h.follow]
  dsimp only
  rw [Files.follow, hnow.directory parent h.directory]
  dsimp only
  rw [if_neg h.isName.nonempty, if_neg h.isName.up, if_neg h.isName.length, if_pos hnew]
  rfl

end New

theorem newBackup_eq_ok {tries number : Nat} {h : OpenFile}
    (hb : fs.newBackup path tries number = .ok h) :
    fs.destination h.path = .ok h.place ∧ fs.entry? h.place = none := by
  induction tries generalizing number with
  | zero => simp [newBackup] at hb
  | succ tries ih =>
    rw [newBackup] at hb
    split at hb
    · simp at hb
    · next place hplace =>
      split_ifs at hb with hused
      · exact ih hb
      · obtain rfl := Except.ok.inj hb
        exact ⟨hplace, Option.not_isSome_iff_eq_none.mp hused⟩

end RobotsTxt.Files
