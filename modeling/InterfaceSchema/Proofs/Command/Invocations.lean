import InterfaceSchema.Command.Arguments
import InterfaceSchema.Proofs.Command.Writing

/-!
# Command lines of invocations

Every invocation has a command line, its `words`: switches are written out, with their
values behind `=`, and the input stands behind `--`, where anything may stand. A
`LawfulArgumentParser` reads the words of an invocation as what they are.
-/

namespace InterfaceSchema

namespace Command

def output? : Command → Option String
  | compile _ output _ => output
  | parse _ => none
  | check _ => none

def words : Command → List String
  | compile input output noHeader =>
    "compile" :: ((output.map ("--output=" ++ ·)).toList ++
      ((if noHeader then ["--no-header"] else []) ++ ["--", input]))
  | parse input => ["parse", "--", input]
  | check input => ["check", "--", input]

end Command

def Invocation.words (i : Invocation) : List String :=
  (i.config.map ("--config=" ++ ·)).toList ++
    ((if i.verbose then ["--verbose"] else []) ++ i.command.words)

/-- The words of an invocation ask for it, if none of its paths is empty. An answer that
needs no run is a success, or says that the words ask for nothing. -/
class LawfulArgumentParser [ArgumentParser] : Prop where
  parse_words (i : Invocation) (hconfig : i.config ≠ some "") (houtput : i.command.output? ≠ some "") :
    ArgumentParser.parse i.words = .run i
  code_of_exit {words : List String} {code : Nat} {stdout stderr : String} :
    ArgumentParser.parse words = .exit code stdout stderr → code = 0 ∨ code = 2

namespace Arguments

variable {top g : Given} {l : Level} {s : Switch} {name value word : String} {words : List String}

theorem isSwitches_of_toList {c : Char} {cs : List Char} (h : word.toList = '-' :: c :: cs) :
    isSwitches word = true := by
  simp only [isSwitches, h]

theorem read_flag (hword : word.toList = '-' :: '-' :: name.toList) (hname : '=' ∉ name.toList)
    (hne : word ≠ "--") (hs : l.long? name = some s) (htext : s.text? l = none)
    (htakes : s.takesValue = false) :
    read top l g (word :: words) = g.setFlag s >>= fun g => read top l g words := by
  have hprogress : readSwitches l g word = (.more · none) <$> g.setFlag s := by
    simp only [readSwitches, hword, Text.pieces_of_not_mem hname, String.ofList_toList, readLong,
      hs, htext, htakes]
    rfl
  rw [read.eq_def]
  simp only [if_neg hne, isSwitches_of_toList hword, if_true, hprogress]
  cases g.setFlag s <;> rfl

theorem read_value (hword : word.toList = '-' :: '-' :: (name.toList ++ '=' :: value.toList))
    (hname : '=' ∉ name.toList) (hs : l.long? name = some s) (htakes : s.takesValue = true) :
    read top l g (word :: words) = g.setValue s value >>= fun g => read top l g words := by
  have hne : word ≠ "--" := by
    rintro rfl
    simp at hword
  have hprogress : readSwitches l g word = (.more · none) <$> g.setValue s value := by
    obtain ⟨piece, pieces, hpieces⟩ := List.exists_cons_of_ne_nil (Text.pieces_ne_nil '=' value.toList)
    have hdrop : (name.toList ++ '=' :: value.toList).drop (name.toList.length + 1) = value.toList := by
      rw [← List.drop_drop, List.drop_left, List.drop_one, List.tail_cons]
    simp only [readSwitches, hword, Text.pieces_append_separator hname, hpieces, hdrop,
      String.ofList_toList, readLong, hs, htakes, if_true]
  rw [read.eq_def]
  simp only [if_neg hne, isSwitches_of_toList hword, if_true, hprogress]
  cases g.setValue s value <;> rfl

section Words

variable {config output : Option String}

theorem read_config (hconfig : config ≠ some "") :
    read top .top {} ((config.map ("--config=" ++ ·)).toList ++ words) =
      read top .top { config } words := by
  cases config with
  | none => rfl
  | some path =>
    have hpath : path ≠ "" := fun h => hconfig (congrArg some h)
    have hword : ("--config=" ++ path).toList = '-' :: '-' :: ("config".toList ++ '=' :: path.toList) := by
      simp
    have hlong : Level.top.long? "config" = some .config := by decide
    refine (read_value hword (by decide) hlong rfl).trans ?_
    simp only [Given.setValue, if_neg hpath]
    rfl

theorem read_verbose (verbose : Bool) :
    read top .top { config } ((if verbose then ["--verbose"] else []) ++ words) =
      read top .top { config, verbose } words := by
  cases verbose with
  | false => rfl
  | true =>
    have hlong : Level.top.long? "verbose" = some .verbose := by decide
    exact read_flag (by simp) (by decide) (by decide) hlong rfl rfl

theorem read_output (houtput : output ≠ some "") :
    read top .compile {} ((output.map ("--output=" ++ ·)).toList ++ words) =
      read top .compile { output } words := by
  cases output with
  | none => rfl
  | some path =>
    have hpath : path ≠ "" := fun h => houtput (congrArg some h)
    have hword : ("--output=" ++ path).toList = '-' :: '-' :: ("output".toList ++ '=' :: path.toList) := by
      simp
    have hlong : Level.compile.long? "output" = some .output := by decide
    refine (read_value hword (by decide) hlong rfl).trans ?_
    simp only [Given.setValue, if_neg hpath]
    rfl

theorem read_noHeader (noHeader : Bool) :
    read top .compile { output } ((if noHeader then ["--no-header"] else []) ++ words) =
      read top .compile { output, noHeader } words := by
  cases noHeader with
  | false => rfl
  | true =>
    have hlong : Level.compile.long? "no-header" = some .noHeader := by decide
    exact read_flag (by simp) (by decide) (by decide) hlong rfl rfl

theorem read_input (hl : l ≠ .top) (hg : g.input = none) (input : String) :
    read top l g ["--", input] = request top l { g with input := some input } := by
  rw [read.eq_def]
  simp only [if_true, if_neg hl, readOperands, List.foldlM_cons, List.foldlM_nil, Given.setInput, hg]
  rfl

theorem read_name {name : String} (hl : Level.ofName? name = some l) (hne : name ≠ "--")
    (hswitches : isSwitches name = false) (hhelp : name ≠ "help") :
    read top .top g (name :: words) = read g l {} words := by
  rw [read.eq_def]
  simp [hne, hswitches, hhelp, hl]

theorem read_command (top : Given) (c : Command) (h : c.output? ≠ some "") :
    read {} .top top c.words = some (.run ⟨c, top.config, top.verbose⟩) := by
  cases c with
  | compile input output noHeader =>
    have houtput : output ≠ some "" := h
    rw [Command.words, read_name (l := .compile) rfl (by decide) rfl (by decide),
      read_output houtput, read_noHeader, read_input (l := .compile) nofun rfl]
    rfl
  | parse input =>
    rw [Command.words, read_name (l := .parse) rfl (by decide) rfl (by decide),
      read_input (l := .parse) (g := {}) nofun rfl]
    rfl
  | check input =>
    rw [Command.words, read_name (l := .check) rfl (by decide) rfl (by decide),
      read_input (l := .check) (g := {}) nofun rfl]
    rfl

theorem parse_words (i : Invocation) (hconfig : i.config ≠ some "")
    (houtput : i.command.output? ≠ some "") : parse i.words = .run i := by
  rw [parse, Invocation.words, read_config hconfig, read_verbose, read_command _ i.command houtput]
  rfl

end Words

theorem request_ne_exit {code : Nat} {stdout stderr : String} :
    request top l g ≠ some (.exit code stdout stderr) := by
  rw [request]
  cases g.input with
  | none => exact nofun
  | some input => cases l <;> exact nofun

/-- The answers that need no run are those that are asked for. -/
theorem code_of_read_eq_exit {code : Nat} {stdout stderr : String}
    (h : read top l g words = some (.exit code stdout stderr)) : code = 0 := by
  fun_induction read top l g words
  case case1 => exact absurd h request_ne_exit
  case case3 =>
    obtain ⟨g, _, h⟩ := Option.bind_eq_some_iff.1 h
    exact absurd h request_ne_exit
  case case5 =>
    cases h
    rfl
  case case11 =>
    obtain ⟨text, _, htext⟩ := Option.map_eq_some_iff.1 h
    cases htext
    rfl
  -- Nothing is asked for, or it is asked for by the words that follow.
  all_goals first
    | cases h
    | rename_i ih; exact ih h

theorem code_of_exit {code : Nat} {stdout stderr : String}
    (h : parse words = .exit code stdout stderr) : code = 0 ∨ code = 2 := by
  rw [parse] at h
  cases hread : read {} .top {} words with
  | none =>
    rw [hread] at h
    cases h
    exact .inr rfl
  | some line =>
    rw [hread] at h
    exact .inl (code_of_read_eq_exit (hread.trans (congrArg some h)))

instance : LawfulArgumentParser := ⟨parse_words, code_of_exit⟩

end Arguments

end InterfaceSchema
