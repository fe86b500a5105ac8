import RobotsTxt.Proofs.Analyzer.Config
import RobotsTxt.Proofs.Server.Reports

/-!
# Settings are taken over as a whole

Settings that a client sends can be refused at four points: when they are read, and for the log
level, the configuration file and the analyzers that they name. All of these come before the first
thing that is taken over, so that a refusal leaves the server as it was. Otherwise the settings
reach every document, those that are opened later included.

* `Tunings.lookup_overlay`, `Config.tuning?_overlay`: one configuration laid over another, entry by
  entry.
* `Settings.StandFor`: the configuration under some settings; `Settings.dispatcher_eq_ok_iff`: the
  analyzers under them.
* `Server.Uniform`: all open documents are examined by the analyzers in force; `Uniform.run`.
* `Server.Steady`: nothing is reconfigured in a run.
* `Server.Adopts`: a state after settings have been taken over.
* **`Server.settings_atomic`**: settings are taken over as a whole, or not at all.
-/

namespace RobotsTxt

/-! ## Configurations laid over others -/

namespace Tunings

variable (base : Tunings) (name key : Text) (t : Tuning)

theorem lookup_cons_eq (e : Text × Tuning) :
    List.lookup name (e :: base) = if name = e.1 then some e.2 else base.lookup name := by
  rw [List.lookup_cons]
  by_cases h : name = e.1
  · rw [if_pos h, beq_iff_eq.mpr h]
  · rw [if_neg h, beq_eq_false_iff_ne.mpr h]

theorem lookup_replace : (base.map fun e => if e.1 == key then (key, t) else e).lookup name =
    if name = key then (base.lookup key).map fun _ => t else base.lookup name := by
  induction base with
  | nil => simp
  | cons e base ih =>
    rw [List.map_cons, lookup_cons_eq, lookup_cons_eq, lookup_cons_eq, ih]
    by_cases hk : e.1 = key
    · by_cases hn : name = key
      · simp [hk, hn]
      · simp [hk, hn]
    · by_cases hn : name = key
      · simp [hk, hn, Ne.symm hk]
      · simp [hk, hn]

theorem lookup_set :
    (base.set key t).lookup name = if name = key then some t else base.lookup name := by
  -- whether a name is replaced or added depends on whether it can be looked up
  have hany : (base.any fun e => e.1 == key) = (base.lookup key).isSome := by
    induction base with
    | nil => rfl
    | cons e base ih =>
      rw [List.any_cons, lookup_cons_eq, ih]
      by_cases hk : e.1 = key
      · simp [hk]
      · simp [hk, Ne.symm hk]
  unfold set
  rw [hany]
  cases hkey : base.lookup key with
  | some u =>
    rw [Option.isSome_some, if_pos rfl, lookup_replace, hkey]
    rfl
  | none =>
    rw [Option.isSome_none, if_neg Bool.false_ne_true, List.lookup_append, lookup_cons_eq]
    by_cases hn : name = key
    · simp [hn, hkey]
    · simp [hn]

/-- Of several tunings for one name that are laid over others, the last one counts. -/
theorem lookup_overlay (top : Tunings) :
    (base.overlay top).lookup name = (top.reverse.lookup name).or (base.lookup name) := by
  induction top generalizing base with
  | nil => rfl
  | cons e top ih =>
    have hstep : base.overlay (e :: top) = (base.set e.1 e.2).overlay top := rfl
    rw [hstep, ih, lookup_set, List.reverse_cons, List.lookup_append, Option.or_assoc,
      lookup_cons_eq]
    split <;> rfl

end Tunings

theorem Config.tuning?_overlay (c : Config) (top : Tunings) (name : Text) :
    (c.overlay top).tuning? name = (top.reverse.lookup name).or (c.tuning? name) := by
  unfold Config.overlay
  split
  · next h =>
    rw [List.isEmpty_iff.mp h]
    rfl
  · exact c.tunings.lookup_overlay name top

/-! ## Analyzers under settings -/

namespace Settings

variable {given : Settings} {disk : Disk} {config : Config} {d : Dispatcher}

/-- The configuration in the file that settings name; an empty one if they name none. -/
def fileConfig (given : Settings) (disk : Disk) : Except LoadFault Config :=
  if given.configFile = [] then .ok {} else Config.load disk given.configFile

/-- **A configuration that settings stand for**: that of the file, with the entries of the client
laid over it. Of several entries for one name, the last one counts. -/
def StandFor (given : Settings) (disk : Disk) (config : Config) : Prop :=
  ∃ file, given.fileConfig disk = .ok file ∧ ∀ name, config.tuning? name =
    ((given.tunings?.getD []).reverse.lookup name).or (file.tuning? name)

theorem config_eq (given : Settings) (disk : Disk) : given.config disk =
    (given.fileConfig disk).map fun file => file.overlay (given.tunings?.getD []) := by
  unfold Settings.config fileConfig
  cases hfile : given.configFile with
  | nil => rfl
  | cons b path =>
    simp only [List.isEmpty_cons, Bool.false_eq_true, if_false, reduceCtorEq]
    cases Config.load disk (b :: path) <;> rfl

/-- Two configurations that the same settings stand for say the same of each name. -/
theorem StandFor.tuning?_eq {c : Config} (h : given.StandFor disk config)
    (hc : given.StandFor disk c) (name : Text) : config.tuning? name = c.tuning? name := by
  obtain ⟨file, hfile, h⟩ := h
  obtain ⟨file', hfile', hc⟩ := hc
  obtain rfl := Except.ok.inj (hfile.symm.trans hfile')
  rw [h, hc]

theorem standFor_of_config (h : given.config disk = .ok config) : given.StandFor disk config := by
  rw [config_eq] at h
  cases hfile : given.fileConfig disk with
  | error e => simp [hfile, Except.map] at h
  | ok file =>
    rw [hfile] at h
    obtain rfl := Except.ok.inj h
    exact ⟨file, hfile, file.tuning?_overlay _⟩

theorem StandFor.exists_config (h : given.StandFor disk config) :
    ∃ c, given.config disk = .ok c := by
  obtain ⟨file, hfile, -⟩ := h
  exact ⟨_, by rw [config_eq, hfile]; rfl⟩

/-- **The analyzers under some settings.** -/
theorem dispatcher_eq_ok_iff : given.dispatcher disk = .ok d ↔
    ∃ config, given.StandFor disk config ∧ config.Applicable Analyzer.builtin ∧
      d = ⟨Analyzer.builtin.filterMap config.tuned?⟩ := by
  have happly : given.dispatcher disk = .ok d ↔
      ∃ c, given.config disk = .ok c ∧ c.apply Analyzer.builtin = .ok d.analyzers := by
    unfold Settings.dispatcher
    cases given.config disk with
    | error e => simp
    | ok c =>
      simp only [Except.ok.injEq, exists_eq_left']
      cases c.apply Analyzer.builtin with
      | error faults => simp
      | ok as => cases d; simp
  rw [happly]
  constructor
  · rintro ⟨c, hc, has⟩
    obtain ⟨happlicable, has⟩ := Config.apply_eq_ok_iff.mp has
    exact ⟨c, standFor_of_config hc, happlicable, by rw [← has]⟩
  · rintro ⟨config, hconfig, happlicable, rfl⟩
    obtain ⟨c, hc⟩ := hconfig.exists_config
    have heq := hconfig.tuning?_eq (standFor_of_config hc)
    refine ⟨c, hc, Config.apply_eq_ok_iff.mpr ⟨happlicable.congr heq, ?_⟩⟩
    rw [Config.tuned?_congr heq]

theorem level?_error_iff : (∃ f, given.level? = .error f) ↔
    ¬ (given.logLevel = [] ∨ ∃ level, LogLevel.parse given.logLevel = .ok level) := by
  unfold level?
  cases hlevel : given.logLevel with
  | nil => simp
  | cons b word => cases LogLevel.parse (b :: word) <;> simp [Except.map]

theorem level_getD {level? : Option LogLevel} (h : given.level? = .ok level?) (current : LogLevel) :
    if given.logLevel = [] then level?.getD current = current
    else LogLevel.parse given.logLevel = .ok (level?.getD current) := by
  unfold Settings.level? at h
  cases hlevel : given.logLevel with
  | nil =>
    obtain rfl : none = level? := by simpa [hlevel] using h
    simp
  | cons b word =>
    rw [hlevel] at h
    cases hparse : LogLevel.parse (b :: word) with
    | error e => simp [hparse, Except.map] at h
    | ok level =>
      obtain rfl : some level = level? := by simpa [hparse, Except.map] using h
      simp

end Settings

namespace Server

variable {s t : Server}

/-! ## All documents are examined alike -/

/-- All open documents are examined by the analyzers in force. -/
def Uniform (s : Server) : Prop := ∀ d ∈ s.documents, d.session.dispatcher = s.dispatcher

theorem Uniform.update {d : OpenDocument} (h : s.Uniform)
    (hd : d.session.dispatcher = s.dispatcher) : (s.update d).Uniform := by
  intro e he
  rcases mem_update he with rfl | ⟨he, -⟩
  · exact hd
  · exact h e he

theorem Uniform.release (h : s.Uniform) (d : OpenDocument) : (s.release d).Uniform :=
  fun e he => h e (List.mem_filter.mp he).1

theorem Uniform.append {d : OpenDocument} (h : s.Uniform)
    (hd : d.session.dispatcher = s.dispatcher) (hdocuments : t.documents = s.documents ++ [d])
    (hdispatcher : t.dispatcher = s.dispatcher) : t.Uniform := by
  unfold Uniform
  rw [hdocuments, hdispatcher]
  intro e he
  rcases List.mem_append.mp he with he | he
  · exact h e he
  · rw [List.mem_singleton.mp he]
    exact hd

theorem uniform_setDispatcher (s : Server) (dispatcher : Dispatcher) :
    (s.setDispatcher dispatcher).Uniform := by
  intro e he
  obtain ⟨d, -, rfl⟩ := List.mem_map.mp he
  rfl

theorem Uniform.scheduleAll (h : s.Uniform) (ds : List OpenDocument) :
    (s.scheduleAll ds).Uniform := by
  rw [scheduleAll_eq]
  exact h

theorem Move.uniform (h : s.Move t) (hs : s.Uniform) : t.Uniform := by
  cases h with
  | idle h =>
    unfold Uniform
    rw [h.documents, h.dispatcher]
    exact hs
  | look hd => exact hs.update ((Session.dispatcher_tree _ _).trans (hs _ hd))
  | release _ => exact hs.release _
  | schedule _ => exact hs
  | opened uri version text _ => exact hs.append rfl rfl rfl
  | changed text change hd _ =>
    exact hs.update ((Session.dispatcher_applyEdit _ _).trans (hs _ hd))
  | configured _ => exact s.uniform_setDispatcher _

theorem Uniform.moves (h : s.Uniform) (hmoves : s.Moves t) : t.Uniform := by
  induction hmoves with
  | refl => exact h
  | tail _ hmove ih => exact hmove.uniform ih

theorem Uniform.openDocument (h : s.Uniform) (uri : Text) (version : Int) (text : Text) :
    (s.openDocument uri version text).Uniform := by
  unfold Server.openDocument
  cases s.find? uri with
  | none => exact h.append rfl rfl rfl
  | some old => exact (h.release old).append rfl rfl rfl

theorem Progress.uniform {place : Nat} {sent : List Message} (h : s.Progress place sent t)
    (hs : s.Uniform) : t.Uniform := by
  cases h with
  | share hp hstage hd hserial => exact hs.update ((Session.dispatcher_tree _ _).trans (hs _ hd))
  | _ => exact hs

theorem Uniform.unlock (h : s.Uniform) : s.unlock.2.Uniform := by
  obtain ⟨-, hs⟩ | ⟨place, p, version, items, -, -, hs⟩ := s.unlock_cases
  · rwa [hs]
  · rw [hs]
    exact h

theorem Uniform.next (h : s.Uniform) (e : ServerEvent) : (s.next e).Uniform := by
  cases e with
  | background place => exact (s.progress_step place).uniform h
  | request disk r =>
    obtain ⟨uri, version, text, -, hr⟩ | ⟨uri, -, hr⟩ | ⟨-, hmoves⟩ := s.handle_cases disk r
    · rw [Server.next, hr]
      exact h.openDocument uri version text
    · rw [Server.next, hr]
      exact (h.moves (s.moves_forget uri)).unlock
    · exact h.moves hmoves

/-- **All documents are examined alike** throughout a run. -/
theorem Uniform.run (h : s.Uniform) (es : List ServerEvent) : (s.run es).Uniform := by
  induction es generalizing s with
  | nil => exact h
  | cons e es ih => exact ih (h.next e)

/-! ## Nothing is reconfigured -/

/-- Nothing is reconfigured in a run. -/
def Steady (s : Server) (es : List ServerEvent) : Prop :=
  ∀ before, before <+: es → (s.run before).generation = s.generation

theorem Steady.dispatcher_eq {es : List ServerEvent} (h : s.Steady es) :
    (s.run es).dispatcher = s.dispatcher := by
  induction es generalizing s with
  | nil => rfl
  | cons e es ih =>
    have hnext : (s.next e).generation = s.generation := h [e] (by simp)
    have htail : (s.next e).Steady es := by
      intro before hbefore
      rw [hnext]
      exact h (e :: before) (List.cons_prefix_cons.mpr ⟨rfl, hbefore⟩)
    obtain ⟨n, hn, hr⟩ := s.exists_reconfigured_next e
    -- one event cannot bring the number of configurations around to the same one
    have hsmall : n < Int32.size := by
      have := Bool.toNat_le e.configures
      simp only [Int32.size]
      omega
    exact (ih htail).trans (hr.dispatcher_eq hsmall hnext.symm)

/-! ## Settings -/

theorem complete_eq (s : Server) (given : Settings) : s.complete given =
    { given with
      configFile := if given.configFile = [] then s.rootConfigFile else given.configFile } := by
  unfold Server.complete
  by_cases hfile : given.configFile = []
  · rw [if_pos (List.isEmpty_iff.mpr hfile), if_pos hfile]
  · rw [if_neg (mt List.isEmpty_iff.mp hfile), if_neg hfile]

theorem logLevel_complete (s : Server) (given : Settings) :
    (s.complete given).logLevel = given.logLevel := by
  rw [complete_eq]

/-- **A state after settings have been taken over.** -/
structure Adopts (s : Server) (disk : Disk) (given : Settings) (t : Server) : Prop where
  settings : t.settings =
    { given with
      configFile := if given.configFile = [] then s.rootConfigFile else given.configFile }
  logLevel : if given.logLevel = [] then t.logLevel = s.logLevel
    else LogLevel.parse given.logLevel = .ok t.logLevel
  generation : t.generation = s.generation + 1
  documents : t.documents.map (fun d => (d.serial, d.uri, d.snapshot)) =
    s.documents.map fun d => (d.serial, d.uri, d.snapshot)
  /-- Until something is reconfigured, all open documents are examined by the builtin analyzers as
  the settings configure them: what these find is what the builtin ones find, without that of the
  analyzers that are switched off, and with other severities where the settings give some. -/
  analyzers : ∃ config, t.settings.StandFor disk config ∧ config.Applicable Analyzer.builtin ∧
    ∀ es, t.Steady es → ∀ d ∈ (t.run es).documents,
      d.session.dispatcher = ⟨Analyzer.builtin.filterMap config.tuned?⟩ ∧
      ∀ (text : Text) (range : Span), d.session.dispatcher.analyze (Document.parse text) range =
        (((Dispatcher.mk Analyzer.builtin).analyze (Document.parse text) range).filter
          fun m => !config.disables m.code).map config.relabel

theorem adopts_adopt {disk : Disk} {given : Settings} {level? : Option LogLevel}
    {dispatcher : Dispatcher} (hlevel : (s.complete given).level? = .ok level?)
    (hdispatcher : (s.complete given).dispatcher disk = .ok dispatcher) :
    let u := s.adopt (s.complete given) level? dispatcher
    s.Adopts disk given (u.scheduleAll u.documents) := by
  intro u
  obtain ⟨config, hconfig, happlicable, rfl⟩ := Settings.dispatcher_eq_ok_iff.mp hdispatcher
  have huniform : (u.scheduleAll u.documents).Uniform := (uniform_setDispatcher _ _).scheduleAll _
  constructor
  · rw [scheduleAll_eq]
    exact s.complete_eq given
  · rw [scheduleAll_eq]
    have hnamed := Settings.level_getD hlevel s.logLevel
    rwa [logLevel_complete] at hnamed
  · rw [scheduleAll_eq]
    rfl
  · rw [scheduleAll_eq]
    exact List.map_map ..
  · refine ⟨config, ?_, happlicable, fun es hes d hd => ?_⟩
    · rw [scheduleAll_eq]
      exact hconfig
    · have hd : d.session.dispatcher = ⟨Analyzer.builtin.filterMap config.tuned?⟩ := by
        rw [huniform.run es d hd, hes.dispatcher_eq, scheduleAll_eq]
        rfl
      rw [hd]
      exact ⟨rfl, Config.analyze_tuned Analyzer.pinned_builtin⟩

/-- **Settings are taken over as a whole, or not at all.** They are taken over if and only if they
can be read, they name no log level or a known one, the configuration file can be loaded, and the
builtin analyzers can be configured as the file and the client say. -/
theorem settings_atomic (s : Server) (disk : Disk) (sent : Option Json) :
    let h := s.handle disk (.didChangeConfiguration sent)
    (∀ e, h.reply = .error e → h.server = s) ∧
      (∀ r, h.reply = .ok r →
        ∃ given, Settings.ofJson sent = .ok given ∧ s.Adopts disk given h.server) ∧
      ((∃ r, h.reply = .ok r) ↔ ∃ given config, Settings.ofJson sent = .ok given ∧
        (given.logLevel = [] ∨ ∃ level, LogLevel.parse given.logLevel = .ok level) ∧
        (s.complete given).StandFor disk config ∧ config.Applicable Analyzer.builtin) := by
  intro h
  have hh := s.handle_didChangeConfiguration disk sent
  obtain ⟨e, hperform, hrefused⟩ |
    ⟨given, level?, dispatcher, hgiven, hlevel, hdispatcher, hperform⟩ :=
    s.configure_cases disk sent
  · rw [hperform] at hh
    have hreply : h.reply = .error e := congrArg Handled.reply hh
    refine ⟨fun _ _ => congrArg Handled.server hh, fun r hr => ?_, fun ⟨r, hr⟩ => ?_, ?_⟩
    · simp [hreply] at hr
    · simp [hreply] at hr
    · rintro ⟨given, config, hgiven, hlevel, hconfig, happlicable⟩
      rcases hrefused given hgiven with hf | ⟨f, hf⟩
      · rw [Settings.level?_error_iff, logLevel_complete] at hf
        exact absurd hlevel hf
      · have hdispatcher := Settings.dispatcher_eq_ok_iff.mpr ⟨config, hconfig, happlicable, rfl⟩
        simp [hf] at hdispatcher
  · rw [hperform] at hh
    have hreply : h.reply = .ok .nothing := congrArg Handled.reply hh
    refine ⟨fun e he => ?_, fun r _ => ⟨given, hgiven, ?_⟩, fun _ => ?_, fun _ => ⟨_, hreply⟩⟩
    · simp [hreply] at he
    · have hserver := congrArg Handled.server hh
      rw [hserver]
      exact adopts_adopt hlevel hdispatcher
    · obtain ⟨config, hconfig, happlicable, -⟩ := Settings.dispatcher_eq_ok_iff.mp hdispatcher
      refine ⟨given, config, hgiven, ?_, hconfig, happlicable⟩
      by_contra hbad
      rw [← logLevel_complete s, ← Settings.level?_error_iff] at hbad
      obtain ⟨f, hf⟩ := hbad
      simp [hf] at hlevel

/-- An unknown log level is refused. Settings that turn one analyzer off are taken over, and reach a
document that is opened later. -/
theorem settings_atomic_debug :
    let disk : Disk := ⟨fun _ => .ok [], fun _ => .ok 0⟩
    let start : Server := { identity := utf8 "a", rootConfigFile := utf8 "c" }
    let s := start.openDocument (utf8 "u") 1 (utf8 "allow: /")
    let refused := Json.ofFields [("logLevel", .string (utf8 "loud"))]
    let sent := Json.ofFields [("logLevel", .string (utf8 "debug")),
      ("analyzers", .ofFields [("record-start", .ofFields [("enabled", .bool false)])])]
    let given : Settings :=
      { logLevel := utf8 "debug", tunings? := some [(utf8 "record-start", ⟨some false, []⟩)] }
    let t := (s.handle disk (.didChangeConfiguration (some sent))).server
    let es := [ServerEvent.request disk (.didOpen (utf8 "v") 1 (utf8 "allow: /"))]
    (s.handle disk (.didChangeConfiguration (some refused))).server = s ∧
      s.Adopts disk given t ∧ t.Steady es ∧ (t.run es).documents.length = 2 := by
  intro disk start s refused sent given t es
  have hsteady : ∀ u : Server, u.Steady es := by
    intro u before hbefore
    rcases List.prefix_cons_iff.mp hbefore with rfl | ⟨rest, rfl, hrest⟩
    · rfl
    · obtain rfl := List.prefix_nil.mp hrest
      exact (u.reconfigured_openDocument _ _ _).generation.trans (Int32.add_zero _)
  have hrefused : (s.handle disk (.didChangeConfiguration (some refused))).server = s :=
    (settings_atomic s disk (some refused)).1 (.level ⟨utf8 "loud"⟩) rfl
  have hok : (s.handle disk (.didChangeConfiguration (some sent))).reply.toBool := by
    decide +kernel
  refine ⟨hrefused, ?_, hsteady t, by decide +kernel⟩
  cases hr : (s.handle disk (.didChangeConfiguration (some sent))).reply with
  | error e =>
    rw [hr] at hok
    exact absurd hok Bool.false_ne_true
  | ok r =>
    obtain ⟨given', hgiven, hadopts⟩ := (settings_atomic s disk (some sent)).2.1 r hr
    obtain rfl : given = given' := Except.ok.inj hgiven
    exact hadopts

end Server

end RobotsTxt
