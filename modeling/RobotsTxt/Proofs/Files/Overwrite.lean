import RobotsTxt.Proofs.Files.Tree

/-!
# Overwriting files

Whichever steps of it fail, overwriting a file does not lose what the file held
(**`overwrite_keeps`**).

* `Scene.Ensures`: what a program ensures for all outcomes of its steps. `Scene.Ensures.bind` takes
  a program apart; there is one lemma for every step, and one for every part of `overwrite`.
* `Underway`: what a tree shows from the creation of the backup to its removal; `Settled`: what it
  shows afterwards. Every step leads from one such tree to another.
* `Files.AgreesBut`, `Overwritten`: what has become of a file and of the rest of the tree.
-/

namespace RobotsTxt

namespace Scene

variable {α β : Type} {calm : Prop} {fs now : Files} {path : Text} {number : Nat}

/-! ## What programs ensure -/

/-- **What a program ensures** that starts in a tree, whatever the outcomes of its steps. If it is
calm, no step fails. -/
def Ensures (calm : Prop) (prog : StateM Scene α) (fs : Files) (after : α → Files → Prop) : Prop :=
  ∀ outcomes, (calm → ∀ o ∈ outcomes, o = none) →
    after (prog.run ⟨fs, outcomes⟩).1 (prog.run ⟨fs, outcomes⟩).2.files ∧
      (calm → ∀ o ∈ (prog.run ⟨fs, outcomes⟩).2.outcomes, o = none)

theorem Ensures.bind {x : StateM Scene α} {f : α → StateM Scene β} {mid : α → Files → Prop}
    {after : β → Files → Prop} (hx : Ensures calm x fs mid)
    (hf : ∀ a now, mid a now → Ensures calm (f a) now after) : Ensures calm (x >>= f) fs after := by
  intro outcomes hcalm
  obtain ⟨hmid, hcalm'⟩ := hx outcomes hcalm
  exact hf _ _ hmid _ hcalm'

theorem Ensures.mono {x : StateM Scene α} {mid after : α → Files → Prop}
    (hx : Ensures calm x fs mid) (h : ∀ a now, mid a now → after a now) :
    Ensures calm x fs after :=
  fun outcomes hcalm => ⟨h _ _ (hx outcomes hcalm).1, (hx outcomes hcalm).2⟩

theorem ensures_pure {a : α} {after : α → Files → Prop} (h : after a fs) :
    Ensures calm (pure a) fs after :=
  fun _ hcalm => ⟨h, hcalm⟩

theorem ensures_carryOut (step : StateM Files α) :
    Ensures calm (carryOut step) fs fun a now => a = (step.run fs).1 ∧ now = (step.run fs).2 :=
  fun _ hcalm => ⟨⟨rfl, rfl⟩, hcalm⟩

/-- The next step takes place, or fails when the program is not calm. -/
theorem ensures_next : Ensures calm next fs fun o now => now = fs ∧ (calm → o = none) := by
  intro outcomes hcalm
  cases outcomes with
  | nil => exact ⟨⟨rfl, fun _ => rfl⟩, hcalm⟩
  | cons o os =>
    exact ⟨⟨rfl, fun hc => hcalm hc o List.mem_cons_self⟩,
      fun hc o' ho' => hcalm hc o' (List.mem_cons_of_mem o ho')⟩

theorem ensures_attempt (failed : FileFault → α) (action : FileAction) (path : Text)
    (step : StateM Files α) : Ensures calm (attempt failed action path step) fs fun a now =>
      a = (step.run fs).1 ∧ now = (step.run fs).2 ∨
        ¬ calm ∧ now = fs ∧ ∃ e, a = failed e := by
  refine ensures_next.bind fun o now ⟨hnow, ho⟩ => ?_
  subst hnow
  cases o with
  | none => exact (ensures_carryOut step).mono fun _ _ => .inl
  | some o => exact ensures_pure (.inr ⟨fun hc => by simpa using ho hc, rfl, _, rfl⟩)

/-! ## What the steps ensure -/

theorem ensures_quiet (action : FileAction) (path : Text) :
    Ensures calm (attempt some action path (pure none)) fs fun e? now =>
      now = fs ∧ (calm → e? = none) := by
  refine (ensures_attempt some action path _).mono fun e? now hnow => ?_
  obtain ⟨he, rfl⟩ | ⟨hfail, rfl, -⟩ := hnow
  · exact ⟨rfl, fun _ => he⟩
  · exact ⟨rfl, fun hc => absurd hc hfail⟩

theorem ensures_permit (h : OpenFile) (mode : Nat) :
    Ensures calm ((access number).permit h mode) fs fun e? now =>
      now = fs ∧ (calm → e? = none) :=
  ensures_quiet .permitFile h.path

theorem ensures_close (h : OpenFile) :
    Ensures calm ((access number).close h) fs fun e? now =>
      now = fs ∧ (calm → e? = none) :=
  ensures_quiet .closeFile h.path

theorem ensures_remove (path : Text) :
    Ensures calm ((access number).remove path) fs fun _ now => now = fs.remove path :=
  (ensures_carryOut _).mono fun _ _ hnow => hnow.2

theorem ensures_openFile (path : Text) :
    Ensures calm ((access number).openFile path) fs fun r now =>
      now = fs ∧ (r = fs.openToWrite path ∨ ¬ calm ∧ ∃ e, r = .error e) := by
  refine (ensures_attempt Except.error .openFile path _).mono fun r now hnow => ?_
  obtain ⟨hr, rfl⟩ | ⟨hfail, rfl, hr⟩ := hnow
  · exact ⟨rfl, .inl hr⟩
  · exact ⟨rfl, .inr ⟨hfail, hr⟩⟩

theorem ensures_truncate (h : OpenFile) (n : Nat) :
    Ensures calm ((access number).truncate h n) fs fun e? now =>
      e? = none ∧ now = fs.alter h.place (·.truncated n) ∨ ¬ calm ∧ now = fs ∧ ∃ e, e? = some e :=
  ensures_attempt some .truncateFile h.path _

theorem ensures_write (h : OpenFile) (data : Text) :
    Ensures calm ((access number).write h data) fs fun r now =>
      r = (data.length, none) ∧ now = fs.alter h.place (·.writtenOver data) ∨
        ¬ calm ∧ ∃ t e, r = (t.length, some e) ∧ now = fs.alter h.place (·.writtenOver t) := by
  refine ensures_next.bind fun o now ⟨hnow, ho⟩ => ?_
  subst hnow
  cases o with
  | none => exact (ensures_carryOut _).mono fun _ _ => .inl
  | some o =>
    refine (ensures_carryOut _).bind fun r now ⟨hr, hnow⟩ => ensures_pure ?_
    exact .inr ⟨fun hc => by simpa using ho hc, data.take o.1, _, by rw [hr]; rfl, hnow⟩

theorem ensures_writeAgain (h : OpenFile) (data : Text) :
    Ensures calm ((access number).writeAgain h data) fs fun e? now =>
      e? = none ∧ now = fs.alter h.place (·.writtenOver data) ∨
        ¬ calm ∧ ∃ t e, e? = some e ∧ now = fs.alter h.place (·.writtenOver t) := by
  refine (ensures_write h data).bind fun r now hr => ensures_pure ?_
  obtain ⟨rfl, hnow⟩ | ⟨hfail, t, e, rfl, hnow⟩ := hr
  · exact .inl ⟨rfl, hnow⟩
  · exact .inr ⟨hfail, t, e, rfl, hnow⟩

theorem createBackup_run (fs : Files) (number : Nat) (path : Text) :
    ((Files.accessFrom number).createBackup path).run fs =
      match fs.newBackup path backupTries number with
      | .error e => (.error e, fs)
      | .ok b => (.ok (b.path, b), fs.put b.place (.file [])) := by
  unfold Files.accessFrom
  dsimp only
  rw [StateT.run_bind, StateT.run_get, pure_bind]
  generalize fs.newBackup path backupTries number = r
  cases r <;> rfl

theorem ensures_createBackup (path : Text) :
    Ensures calm ((access number).createBackup path) fs fun r now =>
      (∃ b, fs.newBackup path backupTries number = .ok b ∧ r = .ok (b.path, b) ∧
        now = fs.put b.place (.file [])) ∨
      now = fs ∧ (∃ e, r = .error e) ∧
        (calm → ∃ e, fs.newBackup path backupTries number = .error e) := by
  refine (ensures_attempt Except.error .openFile _ _).mono fun r now hnow => ?_
  obtain ⟨hr, hnow⟩ | ⟨hfail, rfl, hr⟩ := hnow
  · rw [createBackup_run] at hr hnow
    cases hb : fs.newBackup path backupTries number with
    | ok b =>
      rw [hb] at hr hnow
      exact .inl ⟨b, rfl, hr, hnow⟩
    | error e =>
      rw [hb] at hr hnow
      exact .inr ⟨hnow, ⟨e, hr⟩, fun _ => ⟨e, rfl⟩⟩
  · exact .inr ⟨rfl, hr, fun hc => absurd hc hfail⟩

end Scene

/-! ## What a tree shows meanwhile -/

/-- **Outside some places nothing has changed.** -/
structure Files.AgreesBut (now fs : Files) (places : List (List Text)) : Prop where
  here : now.here = fs.here
  entry? : ∀ q ∉ places, now.entry? q = fs.entry? q

theorem Files.AgreesBut.refl (fs : Files) (places : List (List Text)) : fs.AgreesBut fs places :=
  ⟨rfl, fun _ _ => rfl⟩

/-- A file that is to be overwritten, and a new file. -/
structure Target (fs : Files) (path : Text) (place : List Text) (old : Text) (b : OpenFile) :
    Prop where
  resolve : fs.resolve path = .ok place
  file : fs.entry? place = some (.file old)
  destination : fs.destination b.path = .ok b.place
  free : fs.entry? b.place = none

/-- **A tree while a file is overwritten**, with what the file holds and what its backup holds. -/
structure Underway (fs : Files) (place bplace : List Text) (content kept : Text) (now : Files) :
    Prop where
  rest : now.AgreesBut fs [place, bplace]
  file : now.entry? place = some (.file content)
  backup : now.entry? bplace = some (.file kept)

/-- A tree in which nothing but the content of a file may have changed. -/
structure Settled (fs : Files) (place : List Text) (content : Text) (now : Files) : Prop where
  rest : now.AgreesBut fs [place]
  file : now.entry? place = some (.file content)

section

variable {fs now : Files} {path content kept old new : Text} {place bplace : List Text}
  {b : OpenFile}

theorem Target.absolute_eq (h : Target fs path place old b) :
    absolute fs.here b.path = b.place := by
  obtain ⟨parts, parent, name, hplace, hnew⟩ := Files.exists_leadsToNew h.destination
  rw [hplace, hnew.absolute_eq]

theorem Target.ne (h : Target fs path place old b) : place ≠ b.place := by
  intro he
  have hfile := h.file
  rw [he, h.free] at hfile
  simp at hfile

theorem Underway.extends (hu : Underway fs place b.place content kept now)
    (h : Target fs path place old b) : now.Extends fs := by
  refine Files.Extends.of_same hu.rest.here h.file hu.file fun q hne hq => hu.rest.entry? q ?_
  have hne' : q ≠ b.place := fun he => hq (he ▸ h.free)
  simp [hne, hne']

theorem Underway.read_backup (hu : Underway fs place b.place content kept now)
    (h : Target fs path place old b) : now.read b.path = .ok kept := by
  obtain ⟨parts, parent, name, hplace, hnew⟩ := Files.exists_leadsToNew h.destination
  refine Files.read_eq_ok_iff.mpr ⟨b.place, ?_, hu.backup⟩
  rw [hplace]
  exact hnew.resolve_eq (hu.extends h) (by rw [← hplace, hu.backup]; rfl)

theorem Underway.openToWrite (hu : Underway fs place b.place content kept now)
    (h : Target fs path place old b) : now.openToWrite path = .ok ⟨path, place⟩ := by
  rw [Files.openToWrite, (hu.extends h).resolve h.resolve]
  dsimp only
  rw [hu.file]

/-! ### Steps -/

theorem Target.underway (h : Target fs path place old b) :
    Underway fs place b.place old [] (fs.put b.place (.file [])) := by
  obtain ⟨parts, parent, name, hplace, hnew⟩ := Files.exists_leadsToNew h.destination
  have hsame : ∀ q, q ≠ b.place → Files.entry? (fs.put b.place (.file [])) q = fs.entry? q := by
    refine fun q hne => Files.entry?_put_of_ne hne fun hprefix => ?_
    have hparent : fs.Holds parent := Files.isSome_entry?_iff.mp (by rw [hnew.directory]; rfl)
    refine hparent.mono ?_
    simpa [hplace] using Files.prefix_dropLast hprefix hne
  refine ⟨⟨rfl, fun q hq => hsame q ?_⟩, ?_, Files.entry?_put_self fs b.place _⟩
  · exact fun he => hq (by simp [he])
  · rw [hsame place h.ne, h.file]

theorem Underway.alter_file (hu : Underway fs place bplace content kept now)
    (hne : place ≠ bplace) (f : Text → Text) :
    Underway fs place bplace (f content) kept (now.alter place f) := by
  have hentry := Files.entry?_alter hu.file f
  refine ⟨⟨(now.here_alter place f).trans hu.rest.here, fun q hq => ?_⟩, ?_, ?_⟩
  · rw [hentry, if_neg (fun he => hq (by simp [he])), hu.rest.entry? q hq]
  · rw [hentry, if_pos rfl]
  · rw [hentry, if_neg hne.symm, hu.backup]

theorem Underway.alter_backup (hu : Underway fs place bplace content kept now)
    (hne : place ≠ bplace) (f : Text → Text) :
    Underway fs place bplace content (f kept) (now.alter bplace f) := by
  have hentry := Files.entry?_alter hu.backup f
  refine ⟨⟨(now.here_alter bplace f).trans hu.rest.here, fun q hq => ?_⟩, ?_, ?_⟩
  · rw [hentry, if_neg (fun he => hq (by simp [he])), hu.rest.entry? q hq]
  · rw [hentry, if_neg hne, hu.file]
  · rw [hentry, if_pos rfl]

theorem Underway.remove (hu : Underway fs place b.place content kept now)
    (h : Target fs path place old b) : Settled fs place content (now.remove b.path) := by
  have habsolute : absolute now.here b.path = b.place := by rw [hu.rest.here, h.absolute_eq]
  have hother : ∀ q, q ≠ b.place → Files.entry? (now.remove b.path) q = now.entry? q := by
    refine fun q hne => Files.entry?_remove_of_ne ?_ (habsolute ▸ hne)
    exact Files.isSome_entry?_iff.mp (by rw [habsolute, hu.backup]; rfl)
  have hbelow : ∀ q, b.place <+: q → ¬ fs.Holds q :=
    fun q hprefix hq => Files.entry?_eq_none_iff.mp h.free (hq.mono hprefix)
  have hgone : Files.entry? (now.remove b.path) b.place = none := by
    rw [← habsolute]
    refine Files.entry?_remove_self (fun q hprefix hne => ?_) fun hhere => ?_
    · rw [habsolute] at hprefix hne
      have hfile : q ≠ place := fun he =>
        hbelow q hprefix (Files.isSome_entry?_iff.mp (by rw [he, h.file]; rfl))
      rw [← Files.entry?_eq_none_iff, hu.rest.entry? q (by simp [hne, hfile])]
      exact Files.entry?_eq_none_iff.mpr (hbelow q hprefix)
    · rw [habsolute, hu.rest.here] at hhere
      exact hbelow _ hhere (.inl List.prefix_rfl)
  refine ⟨⟨(now.here_remove b.path).trans hu.rest.here, fun q hq => ?_⟩, ?_⟩
  · by_cases he : q = b.place
    · rw [he, hgone, h.free]
    · rw [hother q he, hu.rest.entry? q (by simpa [he] using hq)]
  · rw [hother place h.ne, hu.file]

theorem Settled.refl (hfile : fs.entry? place = some (.file old)) : Settled fs place old fs :=
  ⟨.refl fs _, hfile⟩

theorem Settled.read (hs : Settled fs place content now)
    (hfile : fs.entry? place = some (.file old)) (hresolve : fs.resolve path = .ok place) :
    now.read path = .ok content := by
  have hextends : now.Extends fs :=
    Files.Extends.of_same hs.rest.here hfile hs.file
      fun q hne _ => hs.rest.entry? q (by simpa using hne)
  exact Files.read_eq_ok_iff.mpr ⟨place, hextends.resolve hresolve, hs.file⟩

theorem Settled.restored (hs : Settled fs place old now)
    (hfile : fs.entry? place = some (.file old)) : now.AgreesBut fs [] := by
  refine ⟨hs.rest.here, fun q _ => ?_⟩
  by_cases he : q = place
  · rw [he, hs.file, hfile]
  · exact hs.rest.entry? q (by simpa using he)

end

/-! ## What the parts ensure -/

theorem Text.writtenOver_nil (content : Text) : content.writtenOver [] = content := rfl

theorem Text.nil_writtenOver (data : Text) : Text.writtenOver [] data = data := by
  simp [Text.writtenOver]

theorem Text.writtenOver_of_length_le {old new : Text} (h : old.length ≤ new.length) :
    old.writtenOver new = new := by
  rw [Text.writtenOver, List.drop_eq_nil_of_le h, List.append_nil]

theorem Text.truncated_writtenOver (content data : Text) :
    (content.writtenOver data).truncated data.length = data := by
  simp [Text.writtenOver, Text.truncated]

/-- **What has become of a file** that held `old` and was to hold `new`, in a tree. -/
inductive Overwritten (fs : Files) (path old new : Text) : Except OverwriteFault Unit → Files → Prop
    where
  /-- The file holds the new content, and nothing else has changed: no backup is left. -/
  | done {now} (content : now.read path = .ok new)
    (rest : now.AgreesBut fs [absolute fs.here path]) : Overwritten fs path old new (.ok ()) now
  /-- The file holds the old content, and nothing has changed. -/
  | unchanged {e now} (content : now.read path = .ok old) (rest : now.AgreesBut fs []) :
    Overwritten fs path old new (.error e) now
  /-- A new file holds the old content, and the error names it. -/
  | kept {e now} (backup : Text) (isNew : fs.entry? (absolute fs.here backup) = none)
    (content : now.read backup = .ok old)
    (rest : now.AgreesBut fs [absolute fs.here path, absolute fs.here backup])
    (named : (utf8 "; backup in " ++ backup) <:+ e.message) :
    Overwritten fs path old new (.error e) now

section

variable {fs now : Files} {path content old new : Text} {place : List Text} {b : OpenFile}
  {e : OverwriteFault}

theorem Settled.done (hs : Settled fs place new now) (hresolve : fs.resolve path = .ok place)
    (hfile : fs.entry? place = some (.file old)) : Overwritten fs path old new (.ok ()) now := by
  refine .done (hs.read hfile hresolve) ?_
  rw [Files.absolute_of_resolve hresolve]
  exact hs.rest

theorem Settled.unchanged (hs : Settled fs place old now) (hresolve : fs.resolve path = .ok place)
    (hfile : fs.entry? place = some (.file old)) : Overwritten fs path old new (.error e) now :=
  .unchanged (hs.read hfile hresolve) (hs.restored hfile)

theorem Underway.kept (hu : Underway fs place b.place content old now)
    (h : Target fs path place old b) (named : (utf8 "; backup in " ++ b.path) <:+ e.message) :
    Overwritten fs path old new (.error e) now := by
  have hb : absolute fs.here b.path = b.place := h.absolute_eq
  refine .kept b.path (hb ▸ h.free) (hu.read_backup h) ?_ named
  rw [Files.absolute_of_resolve h.resolve, hb]
  exact hu.rest

theorem suffix_restore_message (path kept : Text) (fault again : FileFault) :
    (utf8 "; backup in " ++ kept) <:+ (OverwriteFault.restore path fault again kept).message := by
  rw [OverwriteFault.message, List.append_assoc _ (utf8 "; backup in ")]
  exact List.suffix_append _ _

theorem suffix_close_message (kept : Text) (fault : FileFault) :
    (utf8 "; backup in " ++ kept) <:+ (OverwriteFault.close fault kept).message := by
  rw [OverwriteFault.message, List.append_assoc]
  exact List.suffix_append _ _

end

namespace Scene

section

variable {calm : Prop} {fs now : Files} {path content kept old new : Text} {place : List Text}
  {b : OpenFile} {number : Nat}

theorem ensures_fill (h : Target fs path place old b)
    (hu : Underway fs place b.place old [] now) (data : Text) (mode : Nat) :
    Ensures calm (fill (access number) b data mode) now fun e? now' =>
      ∃ t, Underway fs place b.place old t now' ∧ (e? = none → t = data) ∧ (calm → e? = none) := by
  refine (ensures_permit b mode).bind fun e? now₁ ⟨hnow, hpermit⟩ => ?_
  subst hnow
  cases e? with
  | some e =>
    refine (ensures_close b).bind fun _ now₂ ⟨hnow, _⟩ => ensures_pure ?_
    subst hnow
    exact ⟨[], hu, by simp, fun hc => by simpa using hpermit hc⟩
  | none =>
    refine (ensures_write b data).bind fun r now₂ hwrite => ?_
    refine (ensures_close b).bind fun c? now₃ ⟨hnow, hclose⟩ => ensures_pure ?_
    subst hnow
    have hdata : ∀ t, Underway fs place b.place old t (now₁.alter b.place (·.writtenOver t)) := by
      intro t
      simpa only [Text.nil_writtenOver] using hu.alter_backup h.ne (·.writtenOver t)
    obtain ⟨rfl, rfl⟩ | ⟨hfail, t, e, rfl, rfl⟩ := hwrite
    · exact ⟨data, hdata data, fun _ => rfl, hclose⟩
    · exact ⟨t, hdata t, by simp, fun hc => absurd hc hfail⟩

/-- There is a backup, or nothing has changed. -/
theorem ensures_backUp (hresolve : fs.resolve path = .ok place)
    (hfile : fs.entry? place = some (.file old)) (mode : Nat) :
    Ensures calm (backUp (access number) path old mode) fs fun r now =>
      (∃ b, Target fs path place old b ∧ r = .ok b.path ∧ Underway fs place b.place old old now) ∨
      (∃ e, r = .error e) ∧ Settled fs place old now ∧
        (calm → ∃ e, fs.newBackup path backupTries number = .error e) := by
  refine (ensures_createBackup path).bind fun r now hcreate => ?_
  obtain ⟨b, hb, rfl, rfl⟩ | ⟨rfl, ⟨e, rfl⟩, hcalm⟩ := hcreate
  · obtain ⟨hdestination, hfree⟩ := Files.newBackup_eq_ok hb
    have h : Target fs path place old b := ⟨hresolve, hfile, hdestination, hfree⟩
    refine (ensures_fill h h.underway old mode).bind fun e? now ⟨t, hu, ht, hcalm⟩ => ?_
    cases e? with
    | none =>
      obtain rfl := ht rfl
      exact ensures_pure (.inl ⟨b, h, rfl, hu⟩)
    | some e =>
      refine (ensures_remove b.path).bind fun _ now' hnow => ensures_pure ?_
      subst hnow
      exact .inr ⟨⟨e, rfl⟩, hu.remove h, fun hc => by simpa using hcalm hc⟩
  · exact ensures_pure (.inr ⟨⟨e, rfl⟩, .refl hfile, hcalm⟩)

/-- Without a fault the file holds the new content; if nothing was written, it holds the old one. -/
theorem ensures_writeOver (h : Target fs path place old b)
    (hu : Underway fs place b.place old old now) (new : Text) :
    Ensures calm (writeOver (access number) ⟨path, place⟩ new old.length) now fun r now' =>
      ∃ content, Underway fs place b.place content old now' ∧ (r.2 = none → content = new) ∧
        (r.2 ≠ none → r.1 = 0 → content = old) ∧ (calm → r.2 = none) := by
  refine (ensures_write ⟨path, place⟩ new).bind fun r now₁ hwrite => ?_
  have hdata : ∀ t, Underway fs place b.place (old.writtenOver t) old
      (now.alter place (·.writtenOver t)) := fun t => hu.alter_file h.ne (·.writtenOver t)
  obtain ⟨rfl, rfl⟩ | ⟨hfail, t, e, rfl, rfl⟩ := hwrite
  · dsimp only
    split_ifs with hlength
    · refine (ensures_truncate ⟨path, place⟩ new.length).bind fun e? now₂ hcut => ensures_pure ?_
      obtain ⟨rfl, rfl⟩ | ⟨hfail, rfl, e, rfl⟩ := hcut
      · refine ⟨new, ?_, fun _ => rfl, by simp, fun _ => rfl⟩
        simpa only [Text.truncated_writtenOver] using
          (hdata new).alter_file h.ne (·.truncated new.length)
      · refine ⟨_, hdata new, by simp, fun _ hzero => ?_, fun hc => absurd hc hfail⟩
        rw [List.eq_nil_of_length_eq_zero hzero, Text.writtenOver_nil]
    · refine ensures_pure ⟨_, hdata new, fun _ => ?_, by simp, fun _ => rfl⟩
      exact Text.writtenOver_of_length_le (by omega)
  · refine ensures_pure ⟨_, hdata t, by simp, fun _ hzero => ?_, fun hc => absurd hc hfail⟩
    rw [List.eq_nil_of_length_eq_zero hzero, Text.writtenOver_nil]

theorem ensures_restore (h : Target fs path place old b)
    (hu : Underway fs place b.place content old now) :
    Ensures calm (restore (access number) ⟨path, place⟩ old) now fun e? now' =>
      ∃ content', Underway fs place b.place content' old now' ∧ (e? = none → content' = old) := by
  refine (ensures_writeAgain ⟨path, place⟩ old).bind fun e? now₁ hwrite => ?_
  have hdata : ∀ t, Underway fs place b.place (content.writtenOver t) old
      (now.alter place (·.writtenOver t)) := fun t => hu.alter_file h.ne (·.writtenOver t)
  obtain ⟨rfl, rfl⟩ | ⟨hfail, t, e, rfl, rfl⟩ := hwrite
  · refine (ensures_truncate ⟨path, place⟩ old.length).bind fun e? now₂ hcut => ?_
    obtain ⟨rfl, rfl⟩ | ⟨hfail, rfl, e, rfl⟩ := hcut
    · refine (ensures_close ⟨path, place⟩).mono fun e? now₃ ⟨hnow, _⟩ => ?_
      subst hnow
      refine ⟨old, ?_, fun _ => rfl⟩
      simpa only [Text.truncated_writtenOver] using
        (hdata old).alter_file h.ne (·.truncated old.length)
    · exact ensures_pure ⟨_, hdata old, by simp⟩
  · exact ensures_pure ⟨_, hdata t, by simp⟩

theorem ensures_overwriteOpen (h : Target fs path place old b)
    (hu : Underway fs place b.place old old now) (new : Text) :
    Ensures calm (overwriteOpen (access number) path b.path ⟨path, place⟩ old new old.length) now
      fun r now' => Overwritten fs path old new r now' ∧ (calm → r = .ok ()) := by
  refine (ensures_writeOver h hu new).bind fun r now₁ ⟨content, hu₁, hnew, hold, hcalm⟩ => ?_
  obtain ⟨n, _ | e⟩ := r
  · -- all is written: the backup stays only if the file cannot be closed
    obtain rfl := hnew rfl
    refine (ensures_close ⟨path, place⟩).bind fun e? now₂ ⟨hnow, hclose⟩ => ?_
    subst hnow
    cases e? with
    | some e =>
      exact ensures_pure ⟨hu₁.kept h (suffix_close_message b.path e),
        fun hc => by simpa using hclose hc⟩
    | none =>
      refine (ensures_remove b.path).bind fun _ now₃ hnow => ensures_pure ?_
      subst hnow
      exact ⟨(hu₁.remove h).done h.resolve h.file, fun _ => rfl⟩
  · have hfail : ¬ calm := fun hc => by simpa using hcalm hc
    dsimp only
    split_ifs with hzero
    · obtain rfl := hold (by simp) hzero
      refine (ensures_remove b.path).bind fun _ now₂ hnow => ensures_pure ?_
      subst hnow
      exact ⟨(hu₁.remove h).unchanged h.resolve h.file, fun hc => absurd hc hfail⟩
    · refine (ensures_restore h hu₁).bind fun e? now₂ ⟨content', hu₂, hrestored⟩ => ?_
      cases e? with
      | some again =>
        exact ensures_pure ⟨hu₂.kept h (suffix_restore_message path b.path e again),
          fun hc => absurd hc hfail⟩
      | none =>
        obtain rfl := hrestored rfl
        refine (ensures_remove b.path).bind fun _ now₃ hnow => ensures_pure ?_
        subst hnow
        exact ⟨(hu₂.remove h).unchanged h.resolve h.file, fun hc => absurd hc hfail⟩

theorem ensures_overwrite (hresolve : fs.resolve path = .ok place)
    (hfile : fs.entry? place = some (.file old)) (new : Text) (mode : Nat) :
    Ensures calm (overwrite (access number) path old new mode old.length) fs fun r now =>
      Overwritten fs path old new r now ∧
        (calm → (fs.newBackup path backupTries number).isOk → r = .ok ()) := by
  refine (ensures_backUp hresolve hfile mode).bind fun r now hbackup => ?_
  obtain ⟨b, h, rfl, hu⟩ | ⟨⟨e, rfl⟩, hs, hcalm⟩ := hbackup
  · refine (ensures_openFile path).bind fun r now₁ ⟨hnow, hopen⟩ => ?_
    subst hnow
    rw [hu.openToWrite h] at hopen
    obtain rfl | ⟨hfail, e, rfl⟩ := hopen
    · refine (ensures_overwriteOpen h hu new).bind fun r now₂ hr => ?_
      refine (ensures_close ⟨path, place⟩).bind fun _ now₃ ⟨hnow, _⟩ => ensures_pure ?_
      subst hnow
      exact ⟨hr.1, fun hc _ => hr.2 hc⟩
    · refine (ensures_remove b.path).bind fun _ now₂ hnow => ensures_pure ?_
      subst hnow
      exact ⟨(hu.remove h).unchanged hresolve hfile, fun hc => absurd hc hfail⟩
  · refine ensures_pure ⟨hs.unchanged hresolve hfile, fun hc hok => ?_⟩
    obtain ⟨e', he'⟩ := hcalm hc
    simp [he', Except.isOk, Except.toBool] at hok

end

end Scene

/-- **A file that is overwritten never loses its content**, whichever steps fail. Without a fault it
holds exactly the new content, and no backup is left; with a fault it holds exactly the old one, or
a new file does, which the error names. If no step fails and there is a name for a backup, there is
no fault. -/
theorem overwrite_keeps {fs : Files} {path old : Text} (h : fs.read path = .ok old) (new : Text)
    (mode number : Nat) (outcomes : List (Option (Nat × FileCause))) :
    let run := (overwrite (Scene.access number) path old new mode old.length).run ⟨fs, outcomes⟩
    Overwritten fs path old new run.1 run.2.files ∧
      ((∀ o ∈ outcomes, o = none) → (fs.newBackup path backupTries number).isOk →
        run.1 = .ok ()) := by
  obtain ⟨place, hresolve, hfile⟩ := Files.read_eq_ok_iff.mp h
  exact (Scene.ensures_overwrite hresolve hfile new mode outcomes fun hcalm => hcalm).1

theorem overwrite_keeps_backup :
    let fs : Files := { entries := [([utf8 "robots.txt"], .file (utf8 "allow:/"))] }
    let run (outcomes : List (Option (Nat × FileCause))) :=
      (overwrite (Scene.access 7) (utf8 "robots.txt") (utf8 "allow:/") (utf8 "Allow: /\n") 0o644
        7).run ⟨fs, outcomes⟩
    -- the write and the restoration fail, the one after seven bytes, the other at once
    let failed := run (List.replicate 5 none ++ [some (7, .refused), some (0, .refused)])
    Overwritten fs (utf8 "robots.txt") (utf8 "allow:/") (utf8 "Allow: /\n") failed.1
        failed.2.files ∧
      failed.2.files.read (utf8 "robots.txt") = .ok (utf8 "Allow: ") ∧
      failed.2.files.read (utf8 "./robots.txt.7.bak") = .ok (utf8 "allow:/") ∧
      (run []).1 = .ok () :=
  have h : Files.read { entries := [([utf8 "robots.txt"], .file (utf8 "allow:/"))] }
      (utf8 "robots.txt") = .ok (utf8 "allow:/") := by decide +kernel
  ⟨(overwrite_keeps h _ _ _ _).1, by decide +kernel, by decide +kernel,
    (overwrite_keeps h _ _ _ []).2 (by simp) (by decide +kernel)⟩

end RobotsTxt
