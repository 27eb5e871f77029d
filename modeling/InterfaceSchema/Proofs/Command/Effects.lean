import InterfaceSchema.Proofs.Command.Invocations
import InterfaceSchema.Proofs.Command.Layering
import InterfaceSchema.Proofs.Command.Reading
import InterfaceSchema.Proofs.Command.Writing
import InterfaceSchema.Proofs.Trimming

/-!
# Effects of the command

A command reads all it needs before it prints or writes, so that one that fails has
changed nothing, whatever the file system (`Command.failsClean_run`). `compile` and `check`
begin alike, with `Command.analyse`; all that `check` leaves out is what stands behind it.
A `compile` that does not fail prints or writes the facts below their heading, each on a
line of its own. What this says of a workspace is put together in
`Command.effects_of_answer`, for every lawful parser of arguments and loader of
configuration.
-/

namespace InterfaceSchema

namespace Command

variable {σ α β : Type}

/-- A run that fails has changed nothing. -/
def FailsClean (x : Run (StateM σ) α) : Prop :=
  ∀ log s e log' s', (x.run.run log).run s = ((.error e, log'), s') → s' = s

theorem Reads.failsClean {x : Run (StateM σ) α} (hx : Reads x) : FailsClean x := by
  intro log s e log' s' h
  rw [← hx log s, h]

theorem FailsClean.bind {x : Run (StateM σ) α} {f : α → Run (StateM σ) β} (hx : Reads x)
    (hf : ∀ a, FailsClean (f a)) : FailsClean (x >>= f) := by
  intro log s e log' s' h
  rw [run_bind_of_reads hx] at h
  split at h
  · exact hf _ _ s e log' s' h
  · cases h
    rfl

variable [FileSystem (StateM σ)] [ConfigLoader]

/-- How `compile` and `check` begin: with the settings, and the facts under them. -/
def analyse (config : Option String) (input : String) : Run (StateM σ) (Settings × FactBase) := do
  let settings ← loadSettings config
  let source ← readSource input
  let facts ← compileSource settings.options source
  return (settings, facts)

theorem run_compile (config : Option String) (input : String) (output : Option String)
    (noHeader : Bool) : (run config (.compile input output noHeader) : Run (StateM σ) String) =
      analyse config input >>= fun a => readHeader a.1 noHeader >>= fun header =>
        deliver (withHeader header a.2) output := by
  simp only [run, analyse, bind_assoc, pure_bind]

theorem run_check (config : Option String) (input : String) :
    (run config (.check input) : Run (StateM σ) String) =
      analyse config input >>= fun _ => Pure.pure "ok\n" := by
  simp only [run, analyse, bind_assoc, pure_bind]

omit [ConfigLoader] in
theorem run_deliver (text path : String) (log : Log) (s : σ) :
    ((deliver text (some path) : Run (StateM σ) String).run.run log).run s =
      match (FileSystem.write path text : StateM σ (Except FileError Unit)).run s with
      | (.ok (), s') => ((.ok "", log), s')
      | (.error e, s') => ((.error ("failed to write " ++ path ++ ": " ++ e.message), log), s') := by
  rw [deliver, run_bind, run_lift]
  rcases (FileSystem.write path text : StateM σ (Except FileError Unit)).run s with ⟨r, s'⟩
  cases r with
  | ok u => rfl
  | error e => rfl

variable [LawfulFileSystem σ]

omit [ConfigLoader] in
theorem failsClean_deliver (text : String) (output : Option String) :
    FailsClean (deliver text output : Run (StateM σ) String) := by
  cases output with
  | none => exact (Reads.pure _).failsClean
  | some path =>
    intro log s e log' s' h
    rw [run_deliver] at h
    split at h
    · cases h
    · rename_i hwrite
      cases h
      exact LawfulFileSystem.write_error hwrite

variable [LawfulConfigLoader]

theorem reads_analyse (config : Option String) (input : String) :
    Reads (analyse config input : Run (StateM σ) (Settings × FactBase)) :=
  (reads_loadSettings config).bind fun _ => (reads_readSource input).bind fun _ =>
    (Reads.ofLogged _ _).bind fun _ => .pure _

theorem reads_run_check (config : Option String) (input : String) :
    Reads (run config (.check input) : Run (StateM σ) String) := by
  rw [run_check]
  exact (reads_analyse config input).bind fun _ => .pure _

theorem reads_run_compile (config : Option String) (input : String) (noHeader : Bool) :
    Reads (run config (.compile input none noHeader) : Run (StateM σ) String) := by
  rw [run_compile]
  exact (reads_analyse config input).bind fun a =>
    (reads_readHeader a.1 noHeader).bind fun _ => .pure _

/-- A command that fails has changed nothing. -/
theorem failsClean_run (config : Option String) (c : Command) :
    FailsClean (run config c : Run (StateM σ) String) := by
  cases c with
  | compile input output noHeader =>
    rw [run_compile]
    exact .bind (reads_analyse config input) fun a =>
      .bind (reads_readHeader a.1 noHeader) fun _ => failsClean_deliver _ output
  | parse input =>
    exact .bind (reads_readSource input) fun _ =>
      ((Reads.ofLogged _ _).bind fun _ => .pure _).failsClean
  | check input => exact (reads_run_check config input).failsClean

/-! ## Runs of `compile` and `check` -/

variable {s s' : σ} {log log' : Log} {config output : Option String} {input : String}
  {noHeader : Bool} {settings : Settings} {facts : FactBase}

theorem exists_source_of_gives_analyse (h : Gives (analyse config input) s (settings, facts)) :
    ((Settings.load config : StateM σ (Except String Settings)).run s).1 = .ok settings ∧
      ∃ source, inputText input s = .ok source ∧
        InterfaceSchema.compile settings.options source = .ok facts := by
  obtain ⟨loaded, hload, h⟩ := h.bind (reads_loadSettings config)
  obtain ⟨source, hsource, h⟩ := h.bind (reads_readSource input)
  obtain ⟨compiled, hcompile, h⟩ := h.bind (Reads.ofLogged _ _)
  cases h.eq_of_pure
  exact ⟨load_of_gives hload, source, inputText_of_gives hsource, compile_of_gives hcompile⟩

/-- A `compile` that does not fail has found the facts and the header, and delivered the
text of both. -/
theorem exists_header_of_run_compile {printed : String}
    (h : ((run config (.compile input output noHeader) : Run (StateM σ) String).run.run log).run s =
      ((.ok printed, log'), s')) :
    ∃ settings facts header, Gives (analyse config input) s (settings, facts) ∧
      Gives (readHeader settings noHeader) s header ∧ ∃ told,
        ((deliver (withHeader header facts) output : Run (StateM σ) String).run.run told).run s =
          ((.ok printed, log'), s') := by
  rw [run_compile, run_bind_of_reads (reads_analyse config input)] at h
  split at h
  · rename_i a told hanalyse
    rw [run_bind_of_reads (reads_readHeader a.1 noHeader)] at h
    split at h
    · rename_i header told' hheader
      exact ⟨a.1, a.2, header, ⟨_, _, hanalyse⟩, ⟨_, _, hheader⟩, told', h⟩
    · cases h
  · cases h

/-- `check` fails where `compile` does without a header and a file to write, and for the
same reason, and tells the same. -/
theorem result_check_eq (config : Option String) (input : String) (log : Log) (s : σ) :
    result (run config (.check input)) log s =
      (result (run config (.compile input none true)) log s).map (·.map fun _ => "ok\n") id := by
  rw [run_check, run_compile, result_bind (reads_analyse config input),
    result_bind (reads_analyse config input)]
  rcases result (analyse config input) log s with ⟨r, told⟩
  cases r with
  | error e => rfl
  | ok a =>
    simp only [readHeader_of_unwanted (.inr rfl)]
    rfl

variable [ArgumentParser] [Environment] {words : List String} {i : Invocation}

omit [LawfulFileSystem σ] [LawfulConfigLoader] in
theorem run_answer (h : ArgumentParser.parse words = .run i) (s : σ) :
    (answer words : StateM σ Outcome).run s =
      (outcome ((result (run i.config i.command) [] s).2.filter (shows i.verbose))
          (result (run i.config i.command) [] s).1,
        (((run i.config i.command : Run (StateM σ) String).run.run []).run s).2) := by
  rw [answer, h]
  rfl

omit [LawfulFileSystem σ] [LawfulConfigLoader] in
theorem code_answer (h : ArgumentParser.parse words = .run i) (s : σ) :
    ((answer words : StateM σ Outcome).run s).1.code =
      if (result (run i.config i.command) [] s).1.isOk then 0 else 1 := by
  rw [run_answer h]
  cases (result (run i.config i.command) [] s).1 <;> rfl

omit [LawfulFileSystem σ] [LawfulConfigLoader] in
theorem run_answer_of_reads (h : ArgumentParser.parse words = .run i)
    (hreads : Reads (run i.config i.command : Run (StateM σ) String)) (s : σ) :
    (answer words : StateM σ Outcome).run s =
      (outcome ((result (run i.config i.command) [] s).2.filter (shows i.verbose))
        (result (run i.config i.command) [] s).1, s) := by
  rw [run_answer h, hreads [] s]

end Command

/-! ## Workspaces -/

namespace Workspace

variable [Environment] [ConfigLoader]

omit [ConfigLoader] in
/-- What stands above the facts: nothing, or the text of the header that the settings name,
without the blank characters at its end, and a line end. -/
inductive Heading (w : Workspace) (settings : Settings) : Bool → String → Prop
  | none {noHeader : Bool} (h : settings.header = none ∨ noHeader = true) :
      Heading w settings noHeader ""
  | some {path text body : String} (hpath : settings.header = some path)
      (hread : w.tree.read path Environment.directory = .ok text) (hbody : Text.IsStripped text body) :
      Heading w settings false (body ++ "\n")

/-- The settings and the facts that a command finds in a workspace. -/
structure Finds (w : Workspace) (config : Option String) (input : String) (settings : Settings)
    (facts : FactBase) : Prop where
  configures : w.Configures config settings
  exists_source : ∃ source,
    (if input = "-" then textOfBytes w.input else w.tree.read input Environment.directory) =
        .ok source ∧
      compile settings.options source = .ok facts

/-- A text has been printed, with no file changed, or written to the file of a path. -/
inductive Delivered (w : Workspace) (text : String) :
    Option String → Outcome → Workspace → Prop
  | printed {log : Log} : Delivered w text none ⟨0, text, "", log⟩ w
  | written {path : String} {tree : FileTree} {log : Log}
      (h : w.tree.Written Environment.directory path text tree) :
      Delivered w text (some path) ⟨0, "", "", log⟩ { w with tree }

end Workspace

namespace Command

section

variable {w w' : Workspace} {o : Outcome} {words : List String} {config output : Option String} {input : String} {noHeader verbose : Bool}
  {settings : Settings} {facts : FactBase}

theorem withHeader_eq {header : Option String} (hfacts : ∀ f ∈ facts, f.text ≠ "") :
    withHeader header facts =
      (header.elim "" fun text => Text.stripEnd text ++ "\n") ++ FactBase.lines facts := by
  -- No fact has an empty text, so that the rendered text is empty only for no facts.
  have hlines : (if facts.render.isEmpty then "" else facts.render ++ "\n") = FactBase.lines facts := by
    by_cases hne : facts = []
    · subst hne
      rfl
    · have hrender : facts.render.isEmpty = false := by
        rw [← Bool.not_eq_true, String.isEmpty_iff]
        exact FactBase.render_ne_empty hne hfacts
      rw [hrender, if_neg Bool.false_ne_true, FactBase.render_append_newline hne]
  rw [← hlines]
  cases header with
  | none => rfl
  | some text => rfl

variable [Environment]

/-- The text of compiled facts is their lines below the heading. -/
theorem exists_heading_of_gives_readHeader {header : Option String}
    (hfacts : ∀ f ∈ facts, f.text ≠ "") (h : Gives (readHeader settings noHeader) w header) :
    ∃ heading, w.Heading settings noHeader heading ∧
      withHeader header facts = heading ++ FactBase.lines facts := by
  rw [withHeader_eq hfacts]
  refine ⟨_, ?_, rfl⟩
  by_cases hunwanted : settings.header = none ∨ noHeader = true
  · rw [readHeader_of_unwanted hunwanted] at h
    cases h.eq_of_pure
    exact .none hunwanted
  · obtain ⟨hsome, hwanted⟩ := not_or.1 hunwanted
    obtain ⟨path, hpath⟩ := Option.ne_none_iff_exists'.1 hsome
    obtain rfl : noHeader = false := by simpa using hwanted
    obtain ⟨text, rfl, hread⟩ := read_of_gives_readHeader hpath h
    exact .some hpath hread (Text.isStripped_stripEnd text)

theorem delivered_of_run_deliver {text printed : String} {log log' : Log}
    (h : ((deliver text output : Run (StateM Workspace) String).run.run log).run w =
      ((.ok printed, log'), w')) (shown : Log) :
    w.Delivered text output ⟨0, printed, "", shown⟩ w' := by
  cases output with
  | none =>
    cases h
    exact .printed
  | some path =>
    rw [run_deliver, Workspace.run_write] at h
    cases hwrite : w.tree.write path text Environment.directory with
    | error e =>
      rw [hwrite] at h
      cases h
    | ok tree =>
      rw [hwrite] at h
      cases h
      exact .written (FileTree.written_of_write hwrite)

variable [ArgumentParser] [ConfigLoader]

/-- A run that gives an outcome of success has given a text, and others have failed. -/
theorem exists_run_eq_of_answer {i : Invocation} (hrequest : ArgumentParser.parse words = .run i)
    (h : (answer words : StateM Workspace Outcome).run w = (o, w')) :
    ∃ told, o.log = told.filter (shows i.verbose) ∧
      ((∃ printed, ((run i.config i.command : Run (StateM Workspace) String).run.run []).run w =
          ((.ok printed, told), w') ∧ o = ⟨0, printed, "", o.log⟩) ∨
        ∃ reason, ((run i.config i.command : Run (StateM Workspace) String).run.run []).run w =
          ((.error reason, told), w') ∧ o = ⟨1, "", reason ++ "\n", o.log⟩) := by
  rw [run_answer hrequest] at h
  rcases hrun : ((run i.config i.command : Run (StateM Workspace) String).run.run []).run w with
    ⟨⟨r, told⟩, s⟩
  rw [result, hrun] at h
  cases h
  cases r with
  | ok printed => exact ⟨told, rfl, .inl ⟨printed, rfl, rfl⟩⟩
  | error reason => exact ⟨told, rfl, .inr ⟨reason, rfl, rfl⟩⟩

variable [LawfulConfigLoader]

theorem unchanged_of_code_eq_one [LawfulArgumentParser]
    (h : (answer words : StateM Workspace Outcome).run w = (o, w')) (hcode : o.code = 1) :
    o.stdout = "" ∧ w' = w := by
  rcases hrequest : ArgumentParser.parse words with i | ⟨code, stdout, stderr⟩
  · obtain ⟨told, _, ⟨printed, _, heq⟩ | ⟨reason, hrun, heq⟩⟩ := exists_run_eq_of_answer hrequest h
    · rw [heq] at hcode
      cases hcode
    · rw [heq]
      exact ⟨rfl, failsClean_run i.config i.command [] w reason told w' hrun⟩
  · rw [answer, hrequest] at h
    cases h
    rcases LawfulArgumentParser.code_of_exit hrequest with rfl | rfl <;> cases hcode

theorem delivered_of_code_eq_zero
    (hrequest : ArgumentParser.parse words =
      .run ⟨.compile input output noHeader, config, verbose⟩)
    (h : (answer words : StateM Workspace Outcome).run w = (o, w')) (hcode : o.code = 0) :
    ∃ settings facts heading, w.Finds config input settings facts ∧
      w.Heading settings noHeader heading ∧
      w.Delivered (heading ++ FactBase.lines facts) output o w' ∧
      Text.lines (FactBase.lines facts).toList = facts.map (·.text.toList) := by
  obtain ⟨told, _, ⟨printed, hrun, heq⟩ | ⟨reason, _, heq⟩⟩ := exists_run_eq_of_answer hrequest h
  · obtain ⟨settings, facts, header, hanalyse, hheader, told', hdeliver⟩ :=
      exists_header_of_run_compile hrun
    obtain ⟨hload, source, hsource, hcompile⟩ := exists_source_of_gives_analyse hanalyse
    have hreadable := readable_of_compile hcompile
    obtain ⟨heading, hheading, htext⟩ :=
      exists_heading_of_gives_readHeader (fun f hf => (hreadable f hf).text_ne_empty) hheader
    rw [htext] at hdeliver
    rw [heq]
    exact ⟨settings, facts, heading,
      ⟨Workspace.configures_of_load hload, source, hsource, hcompile⟩, hheading,
      delivered_of_run_deliver hdeliver _,
      FactBase.lines_toList_lines fun f hf => (hreadable f hf).newline_not_mem_text⟩
  · rw [heq] at hcode
    cases hcode

theorem check_agrees {words' : List String} {verbose' : Bool}
    (hrequest : ArgumentParser.parse words = .run ⟨.check input, config, verbose⟩)
    (hrequest' : ArgumentParser.parse words' = .run ⟨.compile input none true, config, verbose'⟩)
    (h : (answer words : StateM Workspace Outcome).run w = (o, w')) :
    w' = w ∧ ∃ (o' : Outcome) (told : Log), (answer words' : StateM Workspace Outcome).run w = (o', w) ∧
      o'.code = o.code ∧ o'.stderr = o.stderr ∧ (verbose' = verbose → o'.log = o.log) ∧
      o.log = told.filter (shows verbose) ∧ o'.log = told.filter (shows verbose') := by
  rw [run_answer_of_reads hrequest (reads_run_check config input), result_check_eq] at h
  cases h
  refine ⟨rfl, _, (result (run config (.compile input none true)) [] w).2,
    run_answer_of_reads hrequest' (reads_run_compile config input true) w, ?_⟩
  rcases result (run config (.compile input none true)) [] w with ⟨r, told⟩
  cases r with
  | ok printed => exact ⟨rfl, rfl, fun heq => by rw [heq]; rfl, rfl, rfl⟩
  | error reason => exact ⟨rfl, rfl, fun heq => by rw [heq]; rfl, rfl, rfl⟩

end

/-- A header that the settings name, a text that is no schema, and a schema as input. -/
def headedWorkspace : Workspace where
  tree := ⟨[(["isc.toml"], "[output]\nheader = \"top\"\n".toUTF8), (["top"], "% top \n\n".toUTF8),
    (["bad"], "many set: a\n".toUTF8)]⟩
  input := "many: set: a\n".toUTF8

theorem load_headedWorkspace :
    ((Settings.load none : StateM Workspace (Except String Settings)).run headedWorkspace).1 =
      .ok ⟨{}, some "top"⟩ := by
  have hlayer : (Settings.document headedWorkspace (.file Settings.localName false)).toOption.bind
      Layer.ofDocument? = some { header := some "top" } := by
    decide +kernel
  cases hdocument : Settings.document headedWorkspace (.file Settings.localName false) with
  | error e =>
    rw [hdocument] at hlayer
    cases hlayer
  | ok here =>
    rw [hdocument] at hlayer
    exact Workspace.load_of_document hdocument hlayer

theorem result_compile_headedWorkspace :
    (result (run none (.compile "-" (some "out") false)) [] headedWorkspace).1.isOk = true := by
  rw [result, run, run_loadSettings_bind _ load_headedWorkspace]
  decide +kernel

theorem result_check_headedWorkspace :
    (result (run none (.check "bad")) [] headedWorkspace).1.isOk = false := by
  rw [result, run, run_loadSettings_bind _ load_headedWorkspace]
  decide +kernel

end Command

end InterfaceSchema
