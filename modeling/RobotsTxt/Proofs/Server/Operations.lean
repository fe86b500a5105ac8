import RobotsTxt.Server.Handle

/-!
# What operations do

An operation is carried out step by step, and leaves its state behind where it is refused. Here the
steps of each are run once and for all: what it changes, and where it can be refused.

* `Server.perform_bind`, `Server.perform_modify`, …: the steps.
* **`Server.changeDocument_cases`**, **`Server.applySettings_cases`**, **`Server.configure_cases`**,
  **`Server.start_cases`**: all that these operations can do.
-/

namespace RobotsTxt.Server

variable {s : Server}

/-! ## Steps -/

section Steps

variable {ε α β : Type}

@[simp] theorem perform_pure (s : Server) (a : α) : s.perform (pure a) = (.ok a, s) := rfl

@[simp] theorem perform_throw (s : Server) (e : Fault) :
    s.perform (throw e : Operation α) = (.error e, s) := rfl

@[simp] theorem perform_get (s : Server) : s.perform get = (.ok s, s) := rfl

@[simp] theorem perform_modify (s : Server) (f : Server → Server) :
    s.perform (modify f) = (.ok (), f s) := rfl

/-- What follows an operation starts from the state that it leaves, unless it is refused. -/
@[simp] theorem perform_bind (s : Server) (op : Operation α) (f : α → Operation β) :
    s.perform (op >>= f) =
      match s.perform op with
      | (.ok a, t) => t.perform (f a)
      | (.error e, t) => (.error e, t) := by
  change (ExceptT.run (op >>= f)).run s = _
  rw [ExceptT.run_bind, StateT.run_bind]
  unfold perform
  generalize (ExceptT.run op).run s = r
  obtain ⟨e | a, t⟩ := r <;> rfl

@[simp] theorem perform_tryCatch (s : Server) (op : Operation α) (f : Fault → Operation α) :
    s.perform (tryCatch op f) =
      match s.perform op with
      | (.ok a, t) => (.ok a, t)
      | (.error e, t) => t.perform (f e) := by
  simp only [perform, tryCatch, tryCatchThe, MonadExceptOf.tryCatch, ExceptT.tryCatch,
    ExceptT.run_mk, StateT.run_bind]
  have hop : StateT.run op s = (ExceptT.run op).run s := rfl
  rw [hop]
  generalize (ExceptT.run op).run s = r
  obtain ⟨e | a, t⟩ := r <;> rfl

@[simp] theorem perform_ofExcept_ok (s : Server) (refusal : ε → Fault) (a : α) :
    s.perform (Operation.ofExcept refusal (.ok a)) = (.ok a, s) := rfl

@[simp] theorem perform_ofExcept_error (s : Server) (refusal : ε → Fault) (e : ε) :
    s.perform (Operation.ofExcept refusal (.error e) : Operation α) = (.error (refusal e), s) := rfl

end Steps

/-! ## Requests -/

theorem carriedOut_eq (s : Server) (reply : Reply) (op : Operation (List Message)) :
    s.carriedOut reply op =
      { reply := (s.perform op).1.map fun _ => reply
        sent := (s.perform op).1.toOption.getD []
        server := (s.perform op).2 } := by
  unfold carriedOut
  obtain ⟨e | a, t⟩ := s.perform op <;> rfl

theorem carriedOut_silently (s : Server) (reply : Reply) (op : Operation Unit) :
    s.carriedOut reply (do op; return []) =
      { reply := (s.perform op).1.map fun _ => reply, server := (s.perform op).2 } := by
  rw [carriedOut_eq, perform_bind]
  obtain ⟨e | a, t⟩ := s.perform op <;> rfl

theorem handle_start (s : Server) (disk : Disk) (root : Text) (options : Option Json) :
    s.handle disk (.start root options) =
      { reply := (s.perform (start disk root options)).1.map fun _ => .capabilities
        server := (s.perform (start disk root options)).2 } :=
  s.carriedOut_silently _ _

theorem handle_didChange (s : Server) (disk : Disk) (uri : Text) (version : Int)
    (changes : List ContentChange) :
    s.handle disk (.didChange uri version changes) =
      { reply := (s.perform (changeDocument uri version changes)).1.map fun _ => .nothing
        sent := (s.perform (changeDocument uri version changes)).1.toOption.getD []
        server := (s.perform (changeDocument uri version changes)).2 } :=
  s.carriedOut_eq _ _

theorem handle_didChangeConfiguration (s : Server) (disk : Disk) (sent : Option Json) :
    s.handle disk (.didChangeConfiguration sent) =
      { reply := (s.perform (configure disk sent)).1.map fun _ => .nothing
        server := (s.perform (configure disk sent)).2 } :=
  s.carriedOut_silently _ _

/-! ## What each operation can do -/

/-- A change is refused before anything is done, it is out of order, or it is taken over. -/
theorem changeDocument_cases (s : Server) (uri : Text) (version : Int)
    (changes : List ContentChange) :
    (∃ e, s.perform (changeDocument uri version changes) = (.error e, s) ∧
      (s.find? uri = none ∨ ∃ d, s.find? uri = some d ∧ d.version < version ∧
        ∃ f, changedText d.text changes = .error f)) ∨
    (∃ d, s.find? uri = some d ∧ version ≤ d.version ∧
      s.perform (changeDocument uri version changes) = (.ok [], s.schedule d)) ∨
    ∃ d text change event? heard session, s.find? uri = some d ∧ d.version < version ∧
      changedText d.text changes = .ok (text, change) ∧
      d.session.applyEdit ⟨d.snapshot, ⟨version, text⟩, [change]⟩ = ((event?, heard), session) ∧
      s.perform (changeDocument uri version changes) =
        (.ok (s.announcement { d with version, text, session } event? heard),
          (s.update { d with version, text, session }).schedule
            { d with version, text, session }) := by
  simp only [changeDocument, perform_bind, perform_get]
  cases hf : s.find? uri with
  | none => exact .inl ⟨_, rfl, .inl rfl⟩
  | some d =>
    by_cases hv : version ≤ d.version
    · exact .inr (.inl ⟨d, rfl, hv, by simp only [hv, if_true, perform_bind, perform_modify,
        perform_pure]⟩)
    · have hlt : d.version < version := Int.not_le.mp hv
      simp only [hv, if_false, perform_bind]
      cases hc : changedText d.text changes with
      | error e => exact .inl ⟨_, rfl, .inr ⟨d, rfl, hlt, e, hc⟩⟩
      | ok r =>
        obtain ⟨text, change⟩ := r
        rcases hedit : d.session.applyEdit ⟨d.snapshot, ⟨version, text⟩, [change]⟩ with
          ⟨⟨event?, heard⟩, session⟩
        refine .inr (.inr ⟨d, text, change, event?, heard, session, rfl, hlt, hc, hedit, ?_⟩)
        simp only [perform_ofExcept_ok, hedit, perform_modify, perform_pure]

/-- The state after some settings have been taken over, with the analyzers that they lead to. -/
def adopt (s : Server) (settings : Settings) (level? : Option LogLevel) (dispatcher : Dispatcher) :
    Server :=
  { s with logLevel := level?.getD s.logLevel, settings }.setDispatcher dispatcher

/-- Settings are refused before anything is done, for their log level or their analyzers; or they
are taken over. -/
theorem applySettings_cases (s : Server) (disk : Disk) (given : Settings) :
    (∃ e, s.perform (applySettings disk given) = (.error e, s) ∧
      ((∃ f, (s.complete given).level? = .error f) ∨
        ∃ f, (s.complete given).dispatcher disk = .error f)) ∨
    ∃ level? dispatcher, (s.complete given).level? = .ok level? ∧
      (s.complete given).dispatcher disk = .ok dispatcher ∧
      s.perform (applySettings disk given) =
        (.ok (), s.adopt (s.complete given) level? dispatcher) := by
  simp only [applySettings, perform_bind, perform_get]
  cases hlevel : (s.complete given).level? with
  | error f => exact .inl ⟨.level f, rfl, .inl ⟨f, rfl⟩⟩
  | ok level? =>
    cases hdispatcher : (s.complete given).dispatcher disk with
    | error f => exact .inl ⟨.load f, rfl, .inr ⟨f, rfl⟩⟩
    | ok dispatcher =>
      refine .inr ⟨level?, dispatcher, rfl, rfl, ?_⟩
      cases level? <;> rfl

/-- What a client has sent is refused before anything is done, because it cannot be read or for what
is read; or it is taken over, and every open document is published. -/
theorem configure_cases (s : Server) (disk : Disk) (sent : Option Json) :
    (∃ e, s.perform (configure disk sent) = (.error e, s) ∧
      ∀ given, Settings.ofJson sent = .ok given →
        (∃ f, (s.complete given).level? = .error f) ∨
          ∃ f, (s.complete given).dispatcher disk = .error f) ∨
    ∃ given level? dispatcher, Settings.ofJson sent = .ok given ∧
      (s.complete given).level? = .ok level? ∧
      (s.complete given).dispatcher disk = .ok dispatcher ∧
      s.perform (configure disk sent) =
        let t := s.adopt (s.complete given) level? dispatcher
        (.ok (), t.scheduleAll t.documents) := by
  simp only [configure, perform_bind, perform_modify]
  cases hgiven : Settings.ofJson sent with
  | error e => exact .inl ⟨.settings e, rfl, by simp⟩
  | ok given =>
    simp only [perform_ofExcept_ok]
    obtain ⟨e, h, hrefused⟩ | ⟨level?, dispatcher, hlevel, hdispatcher, h⟩ :=
      s.applySettings_cases disk given
    · refine .inl ⟨e, by rw [h], fun given' heq => ?_⟩
      rwa [← Except.ok.inj heq]
    · exact .inr ⟨given, level?, dispatcher, rfl, hlevel, hdispatcher, by rw [h]⟩

theorem searchWorkspace_cases (s : Server) (disk : Disk) (root : Text) :
    (∃ e, s.perform (searchWorkspace disk root) = (.error (.workspace e), s)) ∨
    ∃ rootConfigFile,
      s.perform (searchWorkspace disk root) = (.ok (), { s with rootConfigFile }) := by
  unfold searchWorkspace
  by_cases hroot : root.isEmpty
  · exact .inr ⟨s.rootConfigFile, by simp only [hroot]; rfl⟩
  · simp only [hroot, Bool.not_false, if_true, perform_bind]
    cases hpath : Uri.path root with
    | error e => exact .inl ⟨e, rfl⟩
    | ok folder =>
      simp only [perform_ofExcept_ok]
      by_cases hpresent : disk.present (workspaceConfig folder)
      · exact .inr ⟨workspaceConfig folder, by simp only [hpresent, if_true, perform_modify]⟩
      · exact .inr ⟨s.rootConfigFile, by simp only [hpresent]; rfl⟩

/-- The folder of the workspace is refused; or settings are taken over or passed over, maybe with a
configuration file of the workspace. -/
theorem start_cases (s : Server) (disk : Disk) (root : Text) (options : Option Json) :
    (s.perform (start disk root options)).2 = s ∨
      ∃ rootConfigFile given, (s.perform (start disk root options)).2 =
        ({ s with rootConfigFile }.perform (applySettings disk given)).2 := by
  simp only [start, perform_bind]
  obtain ⟨e, h⟩ | ⟨rootConfigFile, h⟩ := s.searchWorkspace_cases disk root
  · exact .inl (by rw [h])
  · refine .inr ⟨rootConfigFile, (Settings.ofJson options).toOption.getD {}, ?_⟩
    simp only [h, perform_tryCatch]
    obtain ⟨e | a, t⟩ := Server.perform _ (applySettings disk _)
    · simp only
      split <;> rfl
    · rfl

end RobotsTxt.Server
