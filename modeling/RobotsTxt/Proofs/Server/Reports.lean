import RobotsTxt.Proofs.Document.Layout
import RobotsTxt.Proofs.Server.Answers

/-!
# Reports that a client already has

A report is known by an identifier, which is made of the server, the number of configurations so far
and the version of the document. It says nothing of the URI, nor of how often the document has been
opened. As long as versions only grow, equal identifiers mean equal diagnostics; a document that is
closed and opened again under an old version breaks this.

* `Server.resultId_inj`: what an identifier determines.
* `Server.Reconfigured`: how far the configuration of a server has moved on.
* `Server.exists_reconfigured_next`, `Server.exists_reconfigured_run`: what an event and a whole run
  do to the configuration.
* `Desk.Since.next`, `Desk.Since.run`: versions grow between two openings of a document.
* **`Server.unchanged_truthful`**: when "unchanged" is true.
-/

namespace RobotsTxt

/-! ## Numbers in identifiers -/

theorem utf8_injective : Function.Injective utf8 := by
  intro s t h
  rw [← String.toByteArray_inj]
  exact ByteArray.ext (Array.toList_inj.mp h)

namespace Text

theorem ofNat_injective : Function.Injective ofNat := by
  intro m n h
  have hrepr : m.repr = n.repr := utf8_injective h
  rw [Nat.repr_eq_ofList_toDigits, Nat.repr_eq_ofList_toDigits, String.ofList_inj] at hrepr
  rw [← @Nat.ofDigitChars_ten_toDigits m, hrepr, Nat.ofDigitChars_ten_toDigits]

theorem isDigit_of_mem_ofNat {n : Nat} {b : UInt8} (h : b ∈ ofNat n) : isDigit b := by
  have hbytes : ofNat n = (Nat.toDigits 10 n).flatMap String.utf8EncodeChar := by
    rw [ofNat, utf8, Nat.repr_eq_ofList_toDigits, String.toByteArray_ofList, List.utf8Encode,
      List.data_toByteArray]
  rw [hbytes] at h
  obtain ⟨c, hc, hb⟩ := List.mem_flatMap.mp h
  have hdigit : c.isDigit := Nat.isDigit_of_mem_toDigits (by decide) (by decide) hc
  simp only [Char.isDigit, Bool.and_eq_true, decide_eq_true_eq, UInt32.le_iff_toNat_le] at hdigit
  have hsize : c.utf8Size = 1 := by
    rw [Char.utf8Size_eq_one_iff, UInt32.le_iff_toNat_le]
    exact Nat.le_trans hdigit.2 (by decide)
  have hbyte : c.val.toUInt8.toNat = c.val.toNat := by
    rw [UInt32.toNat_toUInt8]
    exact Nat.mod_eq_of_lt (Nat.lt_of_le_of_lt hdigit.2 (by decide))
  rw [String.utf8EncodeChar_eq_singleton hsize, List.mem_singleton] at hb
  rw [hb, isDigit, Bool.and_eq_true, decide_eq_true_eq, decide_eq_true_eq, UInt8.le_iff_toNat_le,
    UInt8.le_iff_toNat_le, hbyte]
  exact hdigit

theorem notMem_ofInt {b : UInt8} (hd : isDigit b = false) (hm : b ≠ 0x2D) (i : Int) :
    b ∉ ofInt i := by
  intro hb
  have hnat : ∀ n, b ∉ ofNat n := fun n h => by simp [isDigit_of_mem_ofNat h] at hd
  cases i with
  | ofNat n => exact hnat n hb
  | negSucc n =>
    rcases List.mem_append.mp hb with hb | hb
    · exact hm (List.mem_singleton.mp hb)
    · exact hnat _ hb

theorem ofInt_injective : Function.Injective ofInt := by
  -- A minus sign is no digit, so that it tells a negative number from the others.
  have hsign : ∀ m n, ofInt (.negSucc m) ≠ ofNat n := by
    intro m n h
    have hmem : (0x2D : UInt8) ∈ ofNat n := by
      rw [← h]
      exact List.mem_append_left _ (by decide)
    exact absurd (isDigit_of_mem_ofNat hmem) (by decide)
  intro i j h
  cases i with
  | ofNat m =>
    cases j with
    | ofNat n => rw [ofNat_injective h]
    | negSucc n => exact absurd h.symm (hsign n m)
  | negSucc m =>
    cases j with
    | ofNat n => exact absurd h (hsign m n)
    | negSucc n =>
      have hnat := ofNat_injective (List.append_cancel_left h)
      rw [Nat.succ.inj hnat]

end Text

namespace Server

variable {s t : Server}

/-- **What an identifier determines.** -/
theorem resultId_inj (hid : t.identity = s.identity) {v w : Int}
    (h : s.resultId v = t.resultId w) : s.generation = t.generation ∧ v = w := by
  have hdot : ∀ i, (0x2E : UInt8) ∉ Text.ofInt i := Text.notMem_ofInt (by decide) (by decide)
  have hshape : ∀ (u : Server) (i : Int), u.resultId i = u.identity ++
      0x2E :: (Text.ofInt u.generation.toInt ++ 0x2E :: Text.ofInt i) := by
    intro u i
    have hpoint : utf8 "." = [0x2E] := by decide
    simp [resultId, hpoint]
  rw [hshape, hshape, hid] at h
  have hrest := List.cons.inj (List.append_cancel_left h) |>.2
  have hcut := congrArg (Text.cut 0x2E) hrest
  rw [Text.cut_append (hdot _), Text.cut_append (hdot _)] at hcut
  obtain ⟨hgen, hversion⟩ := Prod.mk.inj hcut
  exact ⟨Int32.toInt_inj.mp (Text.ofInt_injective hgen),
    Text.ofInt_injective (Option.some_inj.mp hversion)⟩

end Server

/-! ## Configurations -/

/-- Whether an event may bring other analyzers into use. -/
def ServerEvent.configures : ServerEvent → Bool
  | .request _ (.start ..) | .request _ (.didChangeConfiguration _) => true
  | _ => false

namespace Server

variable {s t u : Server}

/-- A state of the same server, after `n` changes of its configuration. -/
structure Reconfigured (s : Server) (n : Nat) (t : Server) : Prop where
  identity : t.identity = s.identity
  generation : t.generation = s.generation + Int32.ofNat n
  dispatcher : n = 0 → t.dispatcher = s.dispatcher

theorem Reconfigured.of_eq (hi : t.identity = s.identity) (hg : t.generation = s.generation)
    (hd : t.dispatcher = s.dispatcher) : s.Reconfigured 0 t :=
  ⟨hi, by simp [hg], fun _ => hd⟩

theorem Reconfigured.refl (s : Server) : s.Reconfigured 0 s := .of_eq rfl rfl rfl

theorem Reconfigured.trans {m n : Nat} (h : s.Reconfigured m t) (h' : t.Reconfigured n u) :
    s.Reconfigured (m + n) u where
  identity := h'.identity.trans h.identity
  generation := by rw [h'.generation, h.generation, Int32.ofNat_add, Int32.add_assoc]
  dispatcher := fun h0 => (h'.dispatcher (by omega)).trans (h.dispatcher (by omega))

/-- Fewer configurations than there are numbers, and the same number: the same analyzers. -/
theorem Reconfigured.dispatcher_eq {n : Nat} (h : s.Reconfigured n t) (hn : n < Int32.size)
    (hg : s.generation = t.generation) : t.dispatcher = s.dispatcher := by
  refine h.dispatcher ?_
  have hzero : Int32.ofNat n = 0 := by
    have hg' := h.generation
    rw [← hg] at hg'
    exact Int32.add_right_inj _ |>.mp (by rw [← hg', Int32.add_zero])
  have hbits : n % Int32.size = 0 := by simpa using congrArg (fun i => i.toBitVec.toNat) hzero
  rwa [Nat.mod_eq_of_lt hn] at hbits

theorem reconfigured_openDocument (s : Server) (uri : Text) (version : Int) (text : Text) :
    s.Reconfigured 0 (s.openDocument uri version text) := by
  unfold Server.openDocument
  cases s.find? uri <;> exact .of_eq rfl rfl rfl

theorem reconfigured_forget (s : Server) (uri : Text) : s.Reconfigured 0 (s.forget uri) := by
  unfold Server.forget
  cases s.find? uri <;> exact .of_eq rfl rfl rfl

theorem reconfigured_forgetAll (s : Server) (uris : List Text) :
    s.Reconfigured 0 (s.forgetAll uris) := by
  induction uris generalizing s with
  | nil => exact .refl s
  | cons uri uris ih => exact (s.reconfigured_forget uri).trans (ih _)

theorem reconfigured_scheduleAll (s : Server) (ds : List OpenDocument) :
    s.Reconfigured 0 (s.scheduleAll ds) := by
  induction ds generalizing s with
  | nil => exact .refl s
  | cons d ds ih =>
    have hd : s.Reconfigured 0 (s.schedule d) := .of_eq rfl rfl rfl
    exact hd.trans (ih _)

theorem reconfigured_changeDocument (s : Server) (uri : Text) (version : Int)
    (changes : List ContentChange) :
    s.Reconfigured 0 (s.perform (changeDocument uri version changes)).2 := by
  obtain ⟨e, h, -⟩ | ⟨d, -, -, h⟩ | ⟨d, text, change, event?, heard, session, -, -, -, -, h⟩ :=
    s.changeDocument_cases uri version changes
  · rw [h]
    exact .refl s
  · rw [h]
    exact .of_eq rfl rfl rfl
  · rw [h]
    exact .of_eq rfl rfl rfl

theorem reconfigured_adopt (s : Server) (settings : Settings) (level? : Option LogLevel)
    (dispatcher : Dispatcher) : s.Reconfigured 1 (s.adopt settings level? dispatcher) :=
  ⟨rfl, rfl, by simp⟩

theorem exists_reconfigured_applySettings (s : Server) (disk : Disk) (given : Settings) :
    ∃ n ≤ 1, s.Reconfigured n (s.perform (applySettings disk given)).2 := by
  obtain ⟨e, h, -⟩ | ⟨level?, dispatcher, -, -, h⟩ := s.applySettings_cases disk given
  · rw [h]
    exact ⟨0, by omega, .refl s⟩
  · rw [h]
    exact ⟨1, by omega, s.reconfigured_adopt _ _ _⟩

theorem exists_reconfigured_configure (s : Server) (disk : Disk) (sent : Option Json) :
    ∃ n ≤ 1, s.Reconfigured n (s.perform (configure disk sent)).2 := by
  obtain ⟨e, h, -⟩ | ⟨given, level?, dispatcher, -, -, -, h⟩ := s.configure_cases disk sent
  · rw [h]
    exact ⟨0, by omega, .refl s⟩
  · rw [h]
    exact ⟨1, by omega, (s.reconfigured_adopt _ _ _).trans (reconfigured_scheduleAll _ _)⟩

theorem exists_reconfigured_start (s : Server) (disk : Disk) (root : Text)
    (options : Option Json) :
    ∃ n ≤ 1, s.Reconfigured n (s.perform (start disk root options)).2 := by
  obtain h | ⟨rootConfigFile, given, h⟩ := s.start_cases disk root options
  · rw [h]
    exact ⟨0, by omega, .refl s⟩
  · rw [h]
    have hfound : s.Reconfigured 0 { s with rootConfigFile } := .of_eq rfl rfl rfl
    obtain ⟨n, hn, hr⟩ := exists_reconfigured_applySettings { s with rootConfigFile } disk given
    exact ⟨0 + n, by omega, hfound.trans hr⟩

theorem reconfigured_ask (s : Server) (uri : Text) (question : Text → Except Fault Query) :
    s.Reconfigured 0 (s.ask uri question).2 := by
  unfold Server.ask
  split
  · exact .refl s
  · split
    · exact .refl s
    · exact .of_eq rfl rfl rfl

theorem reconfigured_pull (s : Server) (uri previous : Text) :
    s.Reconfigured 0 (s.pull uri previous).2 := by
  simp only [Server.pull]
  split
  · exact .refl s
  · exact s.reconfigured_ask uri _

theorem reconfigured_step (s : Server) (place : Nat) : s.Reconfigured 0 (s.step place).2 := by
  have hp := s.progress_step place
  generalize (s.step place).1 = sent, (s.step place).2 = t at hp
  cases hp <;> exact .of_eq rfl rfl rfl

theorem reconfigured_unlock (s : Server) : s.Reconfigured 0 s.unlock.2 := by
  obtain ⟨-, h⟩ | ⟨place, p, version, items, -, -, h⟩ := s.unlock_cases
  · rw [h]
    exact .refl s
  · rw [h]
    exact .of_eq rfl rfl rfl

/-- An event changes the configuration at most once, and only if it is one that configures. -/
theorem exists_reconfigured_next (s : Server) (e : ServerEvent) :
    ∃ n ≤ e.configures.toNat, s.Reconfigured n (s.next e) := by
  have hzero : s.Reconfigured 0 (s.next e) →
      ∃ n ≤ e.configures.toNat, s.Reconfigured n (s.next e) := fun h => ⟨0, Nat.zero_le _, h⟩
  cases e with
  | background place => exact hzero (s.reconfigured_step place)
  | request disk r =>
    cases r with
    | start root options =>
      rw [Server.next, handle_start]
      exact s.exists_reconfigured_start disk root options
    | didChangeConfiguration settings =>
      rw [Server.next, handle_didChangeConfiguration]
      exact s.exists_reconfigured_configure disk settings
    | initialized | exit | didSave => exact hzero (.refl s)
    | shutdown =>
      have hdown : s.Reconfigured 0 { s with isShutDown := true } := .of_eq rfl rfl rfl
      exact hzero (hdown.trans (reconfigured_forgetAll _ _))
    | didOpen uri version text => exact hzero (s.reconfigured_openDocument uri version text)
    | didChange uri version changes =>
      rw [Server.next, handle_didChange] at hzero ⊢
      exact hzero (s.reconfigured_changeDocument uri version changes)
    | didClose uri => exact hzero ((s.reconfigured_forget uri).trans (reconfigured_unlock _))
    | semanticTokens uri range? | documentHighlight uri p | formatting uri | hover uri p
    | documentSymbol uri | documentLink uri | completion uri p =>
      exact hzero (s.reconfigured_ask uri _)
    | diagnostic uri previous => exact hzero (s.reconfigured_pull uri previous)

theorem exists_reconfigured_run (s : Server) (es : List ServerEvent) :
    ∃ n ≤ es.countP ServerEvent.configures, s.Reconfigured n (s.run es) := by
  induction es generalizing s with
  | nil => exact ⟨0, Nat.zero_le _, .refl s⟩
  | cons e es ih =>
    obtain ⟨m, hm, hnext⟩ := s.exists_reconfigured_next e
    obtain ⟨n, hn, hrun⟩ := ih (s.next e)
    refine ⟨m + n, ?_, hnext.trans hrun⟩
    rw [List.countP_cons]
    cases hc : e.configures with
    | false =>
      rw [hc] at hm
      simp at hm ⊢
      omega
    | true =>
      rw [hc] at hm
      simp at hm ⊢
      omega

end Server

/-! ## Versions between two openings -/

/-- Whether an event opens a document under a version up to a given one. -/
def ServerEvent.opensUpTo (uri : Text) (version : Int) : ServerEvent → Bool
  | .request _ (.didOpen u v _) => u == uri && v ≤ version
  | _ => false

theorem Snapshot.upTo_of_changed? {x y : Snapshot} {version : Int} {changes : List ContentChange}
    (h : x.changed? version changes = some y) : x.UpTo y := by
  rw [Snapshot.changed?_eq] at h
  split at h
  · simp at h
  · next hv =>
    obtain ⟨text, -, rfl⟩ := Option.map_eq_some_iff.mp h
    exact .inl (Int.not_le.mp hv)

namespace Desk

variable {k : Desk} {uri : Text} {x : Snapshot}

/-- What is laid out for a URI is a version or comes after it. -/
def Since (k : Desk) (uri : Text) (x : Snapshot) : Prop := ∀ y, k uri = some y → x.UpTo y

theorem Since.update (h : k.Since uri x) {u : Text} {z? : Option Snapshot}
    (hz : u = uri → ∀ z, z? = some z → x.UpTo z) :
    Desk.Since (Function.update k u z?) uri x := by
  intro y hy
  by_cases hu : u = uri
  · subst hu
    rw [Function.update_self] at hy
    exact hz rfl y hy
  · rw [Function.update_of_ne (Ne.symm hu)] at hy
    exact h y hy

theorem Since.next (h : k.Since uri x) {e : ServerEvent}
    (he : e.opensUpTo uri x.version = false) : (k.next e).Since uri x := by
  cases e with
  | background place => exact h
  | request disk r =>
    cases r with
    | didOpen u version text =>
      refine h.update fun hu z hz => ?_
      obtain rfl := Option.some_inj.mp hz
      exact .inl (by simpa [ServerEvent.opensUpTo, hu] using he)
    | didChange u version changes =>
      cases hz : (k u).bind fun w => w.changed? version changes with
      | none => simpa only [Desk.next, hz] using h
      | some z =>
        simp only [Desk.next, hz]
        refine h.update fun hu y hy => ?_
        obtain rfl := Option.some_inj.mp hy
        obtain ⟨w, hw, hchange⟩ := Option.bind_eq_some_iff.mp hz
        exact (h w (hu ▸ hw)).trans (Snapshot.upTo_of_changed? hchange)
    | didClose u => exact h.update fun _ z hz => by simp at hz
    | shutdown => simp [Since, Desk.next]
    | _ => exact h

/-- **Versions grow between two openings of a document.** -/
theorem Since.run (h : k.Since uri x) {es : List ServerEvent}
    (hes : ∀ e ∈ es, e.opensUpTo uri x.version = false) : (Desk.run k es).Since uri x := by
  induction es generalizing k with
  | nil => exact h
  | cons e es ih =>
    exact ih (h.next (hes e List.mem_cons_self)) fun e he => hes e (List.mem_cons_of_mem _ he)

end Desk

/-! ## Truth of "unchanged" -/

namespace Server

variable {s : Server} {uri previous id : Text} {items : List Marker}

theorem freshAnswer_diagnostics_iff {x? : Option Snapshot} :
    s.freshAnswer uri (fun _ => .ok .diagnostics) x? = .ok (.report id items) ↔
      ∃ x, x? = some x ∧ s.resultId x.version = id ∧
        markers x.text (s.dispatcher.analyze (Tree.parse x).root ⟨0, x.text.length⟩) =
          .ok items := by
  cases x? with
  | none => simp [freshAnswer]
  | some x =>
    simp only [freshAnswer, Query.answer, Option.some.injEq, exists_eq_left']
    cases markers x.text (s.dispatcher.analyze (Tree.parse x).root ⟨0, x.text.length⟩) with
    | error e => simp [Except.mapError, Except.map]
    | ok found => simp [Except.mapError, Except.map]

theorem freshAnswer_diagnostics_ne (x? : Option Snapshot) :
    s.freshAnswer uri (fun _ => .ok .diagnostics) x? ≠ .ok (.unchanged id) := by
  cases x? with
  | none => simp [freshAnswer]
  | some x =>
    simp only [freshAnswer, Query.answer]
    cases markers x.text (s.dispatcher.analyze (Tree.parse x).root ⟨0, x.text.length⟩) with
    | error e => simp [Except.mapError, Except.map]
    | ok found => simp [Except.mapError, Except.map]

theorem Coherent.pull_nil (h : s.Coherent) (uri : Text) :
    (s.pull uri []).1 = s.freshAnswer uri (fun _ => .ok .diagnostics) (s.shown uri) := by
  rw [h.pull_eq]
  simp

theorem Coherent.of_report (h : s.Coherent)
    (hr : (s.pull uri previous).1 = .ok (.report id items)) :
    s.freshAnswer uri (fun _ => .ok .diagnostics) (s.shown uri) = .ok (.report id items) := by
  rw [h.pull_eq] at hr
  split at hr
  · simp at hr
  · exact hr

theorem Coherent.of_unchanged (h : s.Coherent)
    (hr : (s.pull uri previous).1 = .ok (.unchanged id)) :
    ∃ x, s.shown uri = some x ∧ s.resultId x.version = previous := by
  rw [h.pull_eq] at hr
  split at hr
  · next hany =>
    obtain ⟨x, hx, hknown⟩ := (Option.any_eq_true _ _).mp hany
    simp only [Bool.and_eq_true, beq_iff_eq] at hknown
    exact ⟨x, hx, hknown.2.symm⟩
  · exact absurd hr (freshAnswer_diagnostics_ne _)

/-- **When "unchanged" is true.** A server has reported the diagnostics of a document under an
identifier, and later answers that nothing has changed since. Then a full report at this moment is
the same, provided that the document has not been opened in between under the reported version or an
older one, and that the numbers for configurations have not run out. -/
theorem unchanged_truthful (identity : Text) (notifies : Bool) (logLevel : LogLevel)
    (before after : List ServerEvent) (disk : Disk) (uri previous id : Text)
    (items : List Marker) :
    let fresh : Server := { identity, notifies, logLevel }
    let s := fresh.run before
    let t := fresh.run (before ++ .request disk (.diagnostic uri previous) :: after)
    (s.handle disk (.diagnostic uri previous)).reply = .ok (.report id items) →
    (∀ x, s.shown uri = some x → ∀ e ∈ after, e.opensUpTo uri x.version = false) →
    after.countP ServerEvent.configures < Int32.size →
    (t.handle disk (.diagnostic uri id)).reply = .ok (.unchanged id) →
    (t.handle disk (.diagnostic uri [])).reply = .ok (.report id items) := by
  intro fresh s t hreport hopens hconfigures hunchanged
  have h₀ : fresh.Coherent := coherent_fresh identity notifies logLevel
  have hs : s.Coherent := h₀.run before
  have ht : t.Coherent := h₀.run _
  have hrun : t = (s.pull uri previous).2.run after := by
    simp only [t, Server.run, List.foldl_append, List.foldl_cons]
    rfl
  obtain ⟨x, hx, hid, hitems⟩ := freshAnswer_diagnostics_iff.mp (hs.of_report hreport)
  obtain ⟨y, hy, hid'⟩ := ht.of_unchanged hunchanged
  obtain ⟨n, hn, hconf⟩ := (s.pull uri previous).2.exists_reconfigured_run after
  rw [← hrun] at hconf
  have hconf := (s.reconfigured_pull uri previous).trans hconf
  obtain ⟨hgen, hversion⟩ := resultId_inj hconf.identity (hid.trans hid'.symm)
  -- The document shows the same version, and since versions grow it is the same text.
  have hsince : Desk.Since s.shown uri x := fun z hz => by
    rw [Option.some_inj.mp (hx.symm.trans hz)]
    exact .refl z
  have hshown : t.shown = Desk.run s.shown after := by
    rw [hrun, (hs.moves (s.moves_pull uri previous)).shown_run, hs.shown_pull]
  have hxy : x = y := by
    rw [hshown] at hy
    exact (hsince.run (hopens x hx) y hy).resolve_left (by omega)
  subst hxy
  have hdispatcher := hconf.dispatcher_eq (by omega) hgen
  refine (ht.pull_nil uri).trans (freshAnswer_diagnostics_iff.mpr ⟨x, hy, hid', ?_⟩)
  rw [hdispatcher]
  exact hitems

/-- Files that are all empty. -/
def emptyDisk : Disk := ⟨fun _ => .ok [], fun _ => .ok 0⟩

/-- A fresh server that the client knows as `a`. -/
def briefServer : Server := { identity := utf8 "a", notifies := true, logLevel := .info }

/-- The first version of a document is opened. -/
def openFirst (uri text : String) : ServerEvent :=
  .request emptyDisk (.didOpen (utf8 uri) 1 (utf8 text))

/-- A document is reported, and another one is opened under the same version. -/
theorem unchanged_truthful_beside :
    ((briefServer.run ([openFirst "u" "user-agent: *"] ++
      .request emptyDisk (.diagnostic (utf8 "u") []) :: [openFirst "v" "allow: x"])).handle
        emptyDisk (.diagnostic (utf8 "u") [])).reply = .ok (.report (utf8 "a.0.1") []) := by
  refine unchanged_truthful (utf8 "a") true .info [openFirst "u" "user-agent: *"]
    [openFirst "v" "allow: x"] emptyDisk (utf8 "u") [] (utf8 "a.0.1") [] rfl (fun x _ e he => ?_)
    (by decide +kernel) rfl
  rw [List.mem_singleton.mp he]
  rfl

/-- A document is reported, closed, and opened again under the same version with another text: the
client is told that nothing has changed, but a full report has other diagnostics. -/
theorem unchanged_stale :
    let id := utf8 "a.0.1"
    let before := [openFirst "u" "user-agent: *"]
    let after := [.request emptyDisk (.didClose (utf8 "u")), openFirst "u" "allow: x"]
    let s := briefServer.run before
    let t := briefServer.run (before ++ .request emptyDisk (.diagnostic (utf8 "u") []) :: after)
    (s.handle emptyDisk (.diagnostic (utf8 "u") [])).reply = .ok (.report id []) ∧
      (t.handle emptyDisk (.diagnostic (utf8 "u") id)).reply = .ok (.unchanged id) ∧
      ∃ m ms, (t.handle emptyDisk (.diagnostic (utf8 "u") [])).reply =
        .ok (.report id (m :: ms)) :=
  ⟨rfl, rfl, _, _, rfl⟩

end Server

end RobotsTxt
