import InterfaceSchema.Command.Run
import InterfaceSchema.Proofs.Command.Configuration
import InterfaceSchema.Proofs.Logs
import InterfaceSchema.Proofs.Readability

/-!
# What the command reads

What a run that only reads gives is a function of the log and the state that it starts
with, its `result`, and a run goes on from there in the same state
(`Command.run_bind_of_reads`). The settings, the source and the header are found like
that: what a run `Gives` says what is there.
-/

namespace InterfaceSchema.Command

variable {σ α β : Type}

/-- The run leaves the state as it is, whatever has been logged. -/
def Reads (x : Run (StateM σ) α) : Prop := ∀ log, ReadOnly (x.run.run log)

/-- What a run gives in a state, and the log behind it. -/
def result (x : Run (StateM σ) α) (log : Log) (s : σ) : Except String α × Log :=
  ((x.run.run log).run s).1

/-- In this state the run can give this value. -/
def Gives (x : Run (StateM σ) α) (s : σ) (a : α) : Prop :=
  ∃ log log', result x log s = (.ok a, log')

section Runs

variable {x : Run (StateM σ) α} {f : α → Run (StateM σ) β} {log : Log} {s : σ} {a : α} {b : β}

theorem run_bind (x : Run (StateM σ) α) (f : α → Run (StateM σ) β) (log : Log) (s : σ) :
    ((x >>= f).run.run log).run s =
      match (x.run.run log).run s with
      | ((.ok a, log'), s') => ((f a).run.run log').run s'
      | ((.error e, log'), s') => ((.error e, log'), s') := by
  rw [ExceptT.run_bind, StateT.run_bind, StateT.run_bind]
  rcases (x.run.run log).run s with ⟨⟨r, log'⟩, s'⟩
  cases r with
  | ok a => rfl
  | error e => rfl

theorem run_lift (x : StateM σ α) (log : Log) (s : σ) :
    ((liftM x : Run (StateM σ) α).run.run log).run s = ((.ok (x.run s).1, log), (x.run s).2) := rfl

/-- What is read first can be taken from the state, and the rest runs in that state. -/
theorem run_bind_of_reads (hx : Reads x) : ((x >>= f).run.run log).run s =
    match result x log s with
    | (.ok a, log') => ((f a).run.run log').run s
    | (.error e, log') => ((.error e, log'), s) := by
  rw [run_bind, (hx log).run_eq s, result]
  rcases ((x.run.run log).run s).1 with ⟨r, log'⟩
  cases r with
  | ok a => rfl
  | error e => rfl

theorem result_bind (hx : Reads x) : result (x >>= f) log s =
    match result x log s with
    | (.ok a, log') => result (f a) log' s
    | (.error e, log') => (.error e, log') := by
  have hrun : result (x >>= f) log s = (((x >>= f).run.run log).run s).1 := rfl
  rw [hrun, run_bind_of_reads hx]
  rcases result x log s with ⟨r, log'⟩
  cases r with
  | ok a => rfl
  | error e => rfl

namespace Reads

theorem pure (a : α) : Reads (Pure.pure a : Run (StateM σ) α) := fun _ => .pure _

theorem throw (e : String) : Reads (MonadExcept.throw e : Run (StateM σ) α) := fun _ => .pure _

theorem lift {x : StateM σ α} (hx : ReadOnly x) : Reads (liftM x : Run (StateM σ) α) := by
  intro log s
  rw [run_lift]
  exact hx s

theorem bind (hx : Reads x) (hf : ∀ a, Reads (f a)) : Reads (x >>= f) := by
  intro log s
  rw [run_bind_of_reads hx]
  rcases result x log s with ⟨r, log'⟩
  cases r with
  | ok a => exact hf a log' s
  | error e => rfl

theorem ofLogged {ε : Type} (reason : ε → String) (x : Logged ε α) :
    Reads (Command.ofLogged reason x : Run (StateM σ) α) := fun _ => .pure _

theorem orFail (context : String) (r : Except FileError α) :
    Reads (Command.orFail context r : Run (StateM σ) α) := by
  cases r with
  | ok a => exact .pure _
  | error e => exact .throw _

end Reads

namespace Gives

theorem bind (hx : Reads x) (h : Gives (x >>= f) s b) : ∃ a, Gives x s a ∧ Gives (f a) s b := by
  obtain ⟨log, log', h⟩ := h
  rw [result_bind hx] at h
  split at h
  · rename_i a told hgiven
    exact ⟨a, ⟨log, told, hgiven⟩, told, log', h⟩
  · cases h

theorem eq_of_pure {a' : α} (h : Gives (Pure.pure a : Run (StateM σ) α) s a') : a = a' := by
  obtain ⟨log, log', h⟩ := h
  cases h
  rfl

theorem eq_of_lift {x : StateM σ α} (h : Gives (liftM x) s a) : (x.run s).1 = a := by
  obtain ⟨log, log', h⟩ := h
  cases h
  rfl

theorem exists_of_ofLogged {ε : Type} {reason : ε → String} {x : Logged ε α}
    (h : Gives (ofLogged reason x) s a) : ∃ log, (x.run.run log).1 = .ok a := by
  obtain ⟨log, log', h⟩ := h
  exact ⟨log, mapError_eq_ok_iff.1 (congrArg Prod.fst h)⟩

theorem eq_of_orFail {context : String} {r : Except FileError α} (h : Gives (orFail context r) s a) :
    r = .ok a := by
  cases r with
  | ok a' => exact congrArg Except.ok h.eq_of_pure
  | error e =>
    obtain ⟨log, log', h⟩ := h
    cases h

end Gives

end Runs

/-! ## What is read -/

variable [FileSystem (StateM σ)] [LawfulFileSystem σ] {s : σ}

/-- The text that an input names. -/
def inputText (input : String) (s : σ) : Except FileError String :=
  if input = "-" then ((FileSystem.readInput : StateM σ (Except FileError String)).run s).1
  else ((FileSystem.read input : StateM σ (Except FileError String)).run s).1

theorem reads_readSource (input : String) : Reads (readSource input : Run (StateM σ) String) := by
  rw [readSource]
  split
  · exact (Reads.lift LawfulFileSystem.readInput).bind fun r => .orFail _ r
  · exact (Reads.lift (LawfulFileSystem.read input)).bind fun r => .orFail _ r

theorem inputText_of_gives {input source : String} (h : Gives (readSource input) s source) :
    inputText input s = .ok source := by
  rw [readSource] at h
  rw [inputText]
  split at h
  · rename_i hinput
    obtain ⟨r, hread, h⟩ := h.bind (Reads.lift LawfulFileSystem.readInput)
    rw [if_pos hinput, hread.eq_of_lift, h.eq_of_orFail]
  · rename_i hinput
    obtain ⟨r, hread, h⟩ := h.bind (Reads.lift (LawfulFileSystem.read input))
    rw [if_neg hinput, hread.eq_of_lift, h.eq_of_orFail]

theorem reads_readHeader (settings : Settings) (noHeader : Bool) :
    Reads (readHeader settings noHeader : Run (StateM σ) (Option String)) := by
  unfold readHeader
  split
  · exact (Reads.lift (LawfulFileSystem.read _)).bind fun r => (Reads.orFail _ r).bind fun _ => .pure _
  · exact .pure _

omit [LawfulFileSystem σ] in
theorem readHeader_of_unwanted {settings : Settings} {noHeader : Bool}
    (h : settings.header = none ∨ noHeader = true) :
    (readHeader settings noHeader : Run (StateM σ) (Option String)) = Pure.pure none := by
  unfold readHeader
  split
  · rename_i path hpath
    rw [hpath] at h
    rcases h with h | h <;> cases h
  · rfl

theorem read_of_gives_readHeader {settings : Settings} {path : String} {header : Option String}
    (hpath : settings.header = some path) (h : Gives (readHeader settings false) s header) :
    ∃ text, header = some text ∧
      ((FileSystem.read path : StateM σ (Except FileError String)).run s).1 = .ok text := by
  simp only [readHeader, hpath] at h
  obtain ⟨r, hread, h⟩ := h.bind (Reads.lift (LawfulFileSystem.read path))
  obtain ⟨text, htext, h⟩ := h.bind (Reads.orFail _ r)
  exact ⟨text, h.eq_of_pure.symm, hread.eq_of_lift.trans htext.eq_of_orFail⟩

omit [FileSystem (StateM σ)] [LawfulFileSystem σ] in
theorem compile_of_gives {options : Options} {source : String} {facts : FactBase}
    (h : Gives (compileSource options source) s facts) :
    InterfaceSchema.compile options source = .ok facts := by
  obtain ⟨log, h⟩ := h.exists_of_ofLogged
  exact (run_compileLogged options source log).symm.trans h

variable [ConfigLoader] [LawfulConfigLoader]

theorem reads_loadSettings (config : Option String) :
    Reads (loadSettings config : Run (StateM σ) Settings) := by
  refine (Reads.lift (Settings.readOnly_load config)).bind fun settings => ?_
  cases settings with
  | ok settings => exact (Reads.ofLogged id _).bind fun _ => .pure _
  | error e => exact .throw _

theorem run_loadSettings_bind {config : Option String} {settings : Settings} {log : Log}
    (f : Settings → Run (StateM σ) α)
    (h : ((Settings.load config : StateM σ (Except String Settings)).run s).1 = .ok settings) :
    ((loadSettings config >>= f).run.run log).run s =
      ((f settings).run.run
        (log ++ [.configured settings.options.structureTags settings.header])).run s := by
  have hload : result (liftM (Settings.load config : StateM σ (Except String Settings))) log s =
      (.ok (.ok settings), log) := by
    rw [result, run_lift, h]
  rw [run_bind_of_reads (reads_loadSettings config), loadSettings,
    result_bind (Reads.lift (Settings.readOnly_load config)), hload]
  rfl

theorem load_of_gives {config : Option String} {settings : Settings}
    (h : Gives (loadSettings config) s settings) :
    ((Settings.load config : StateM σ (Except String Settings)).run s).1 = .ok settings := by
  rw [loadSettings] at h
  obtain ⟨r, hload, h⟩ := h.bind (Reads.lift (Settings.readOnly_load config))
  rw [hload.eq_of_lift]
  cases r with
  | ok found =>
    obtain ⟨_, _, h⟩ := h.bind (Reads.ofLogged id _)
    rw [h.eq_of_pure]
  | error e =>
    obtain ⟨log, log', h⟩ := h
    cases h

end InterfaceSchema.Command
