import InterfaceSchema.Proofs.Command.ReadOnly
import InterfaceSchema.Settings

/-!
# Configuration

Which settings are in force. A document that holds nothing but the settings in their
sections is a `Layer`; of the layers that a command finds, each setting is the last one.
This is what a `LawfulConfigLoader` does, and so it is what a workspace configures
(`Workspace.configures_of_load`).
-/

namespace InterfaceSchema

/-- The settings that one document has. -/
structure Layer where
  structureTags : Option (List String) := none
  header : Option String := none
  deriving DecidableEq, Repr

namespace Layer

/-- Each setting is the later one, if there is one. -/
def above (later earlier : Layer) : Layer :=
  ⟨later.structureTags.or earlier.structureTags, later.header.or earlier.header⟩

/-- Layers over one another, the last one on top. -/
def together : List Layer → Layer
  | [] => {}
  | l :: ls => (together ls).above l

theorem empty_above (l : Layer) : above {} l = l := rfl

theorem above_empty (l : Layer) : l.above {} = l := by
  simp only [above, Option.or_none]

theorem above_assoc (a b c : Layer) : (a.above b).above c = a.above (b.above c) := by
  simp only [above, Option.or_assoc]

def text? : Toml → Option String
  | .string s => some s
  | _ => none

/-- What a section sets, if it is a table with its own setting or without. -/
def ofSection? : String × Toml → Option Layer
  | (name, .table _ []) => if name = "transpile" ∨ name = "output" then some {} else none
  | (name, .table _ [(key, .array tags)]) =>
    if name = "transpile" ∧ key = "structure_tags" then
      (tags.mapM text?).map fun tags => { structureTags := some tags }
    else none
  | (name, .table _ [(key, .string path)]) =>
    if name = "output" ∧ key = "header" then some { header := some path } else none
  | _ => none

def ofDocument? (document : Toml.Members) : Option Layer := together <$> document.mapM ofSection?

def quoted (s : String) : String := "\"" ++ s ++ "\""

def sectionText (name key value : String) : String :=
  "[" ++ name ++ "]\n" ++ key ++ " = " ++ value ++ "\n"

/-- A document of the layer, with a section for each setting. -/
def text (l : Layer) : String :=
  (l.structureTags.elim "" fun tags =>
    sectionText "transpile" "structure_tags" ("[" ++ ", ".intercalate (tags.map quoted) ++ "]")) ++
  (l.header.elim "" fun path => sectionText "output" "header" (quoted path))

/-- A character that stands for itself between quotation marks. -/
structure IsPlain (c : Char) : Prop where
  space_le : 0x20 ≤ c.toNat
  ne_quote : c ≠ '"'
  ne_escape : c ≠ '\\'
  ne_delete : c ≠ '\x7F'

/-- The settings can be written without escapes. -/
structure IsWritable (l : Layer) : Prop where
  structureTags : ∀ tags ∈ l.structureTags, ∀ tag ∈ tags, ∀ c ∈ tag.toList, IsPlain c
  header : ∀ path ∈ l.header, ∀ c ∈ path.toList, IsPlain c

end Layer

/-! ## Laws of loaders -/

/-- Collecting only reads. A file that is there has the document of its text, and the text of
a layer the document of that layer. The built-in document sets the usual tags, and a local
one that is not there sets nothing. Where all documents are layers, the settings are those
of the layers together. -/
class LawfulConfigLoader [ConfigLoader] : Prop where
  readOnly_collect {σ : Type} [FileSystem (StateM σ)] [LawfulFileSystem σ] (source : ConfigSource) :
    ReadOnly (ConfigLoader.collect source : StateM σ (Except String Toml.Members))
  collect_file {σ : Type} [FileSystem (StateM σ)] [LawfulFileSystem σ] (s : σ) {path text : String}
      (required : Bool) (hfile : ((FileSystem.isFile path : StateM σ Bool).run s).1 = true)
      (hread : ((FileSystem.read path : StateM σ (Except FileError String)).run s).1 = .ok text) :
    ((ConfigLoader.collect (.file path required) : StateM σ (Except String Toml.Members)).run s).1 =
      ((ConfigLoader.collect (.text text) : StateM σ (Except String Toml.Members)).run s).1
  collect_text {σ : Type} [FileSystem (StateM σ)] [LawfulFileSystem σ] (s : σ) {l : Layer}
      (hl : l.IsWritable) :
    ∃ document, ((ConfigLoader.collect (.text l.text) :
        StateM σ (Except String Toml.Members)).run s).1 = .ok document ∧
      Layer.ofDocument? document = some l
  collect_default {σ : Type} [FileSystem (StateM σ)] [LawfulFileSystem σ] (s : σ) :
    ∃ document, ((ConfigLoader.collect (.text Settings.defaultText) :
        StateM σ (Except String Toml.Members)).run s).1 = .ok document ∧
      Layer.ofDocument? document = some { structureTags := some ({} : Options).structureTags }
  collect_missing {σ : Type} [FileSystem (StateM σ)] [LawfulFileSystem σ] (s : σ)
      (h : ∀ path ∈ [Settings.localName, Settings.localName ++ ".toml"],
        ((FileSystem.isFile path : StateM σ Bool).run s).1 = false) :
    ∃ document, ((ConfigLoader.collect (.file Settings.localName false) :
        StateM σ (Except String Toml.Members)).run s).1 = .ok document ∧
      Layer.ofDocument? document = some {}
  build_of_layers {documents : List Toml.Members} {layers : List Layer} {tags : List String}
      (hlayers : documents.mapM Layer.ofDocument? = some layers)
      (htags : (Layer.together layers).structureTags = some tags) :
    ConfigLoader.build documents = .ok ⟨⟨tags⟩, (Layer.together layers).header⟩

namespace Settings

variable [ConfigLoader] {σ : Type} [FileSystem (StateM σ)]

def document (s : σ) (source : ConfigSource) : Except String Toml.Members :=
  ((ConfigLoader.collect source : StateM σ (Except String Toml.Members)).run s).1

variable [LawfulFileSystem σ] [LawfulConfigLoader]

theorem run_collectAll (sources : List ConfigSource) (s : σ) :
    (collectAll sources : StateM σ (Except String (List Toml.Members))).run s =
      (sources.mapM (document s), s) := by
  induction sources with
  | nil => rfl
  | cons source sources ih =>
    rw [collectAll, StateT.run_bind, (LawfulConfigLoader.readOnly_collect source).run_eq s,
      List.mapM_cons, document]
    cases ((ConfigLoader.collect source : StateM σ (Except String Toml.Members)).run s).1 with
    | error e => rfl
    | ok document =>
      show ((fun documents => (document :: ·) <$> documents) <$>
        (collectAll sources : StateM σ (Except String (List Toml.Members)))).run s = _
      rw [StateT.run_map, ih]
      cases sources.mapM (Settings.document s) <;> rfl

theorem run_load (name : Option String) (s : σ) :
    (load name : StateM σ (Except String Settings)).run s =
      ((sources name).mapM (document s) >>= ConfigLoader.build, s) := by
  rw [load, StateT.run_bind, run_collectAll]
  rfl

theorem readOnly_load (name : Option String) :
    ReadOnly (load name : StateM σ (Except String Settings)) := by
  intro s
  rw [run_load]

end Settings

/-! ## Workspaces -/

namespace Workspace

variable [Environment] [ConfigLoader]

/-- The document of a file. If the file is there, it is that of its text, and so sets what a
layer that is written in the file sets. -/
structure FileDocument (w : Workspace) (path : String) (required : Bool) (document : Toml.Members) :
    Prop where
  collected : Settings.document w (.file path required) = .ok document
  of_text : ∀ text, w.tree.isFile path Environment.directory = true →
    w.tree.read path Environment.directory = .ok text →
    Settings.document w (.text text) = .ok document
  of_layer : ∀ l : Layer, l.IsWritable → w.tree.isFile path Environment.directory = true →
    w.tree.read path Environment.directory = .ok l.text → Layer.ofDocument? document = some l

/-- The document of the local file, which sets nothing if that is not there. -/
structure LocalDocument (w : Workspace) (document : Toml.Members) : Prop extends
    FileDocument w Settings.localName false document where
  of_missing : (∀ path ∈ [Settings.localName, Settings.localName ++ ".toml"],
    w.tree.isFile path Environment.directory = false) → Layer.ofDocument? document = some {}

/-- The built-in document, which sets the usual tags. -/
structure DefaultDocument (w : Workspace) (document : Toml.Members) : Prop where
  collected : Settings.document w (.text Settings.defaultText) = .ok document
  layer : Layer.ofDocument? document = some { structureTags := some ({} : Options).structureTags }

/-- The documents that are found: the built-in one, the local one, and the one of the file
that is named. -/
inductive Documents (w : Workspace) : Option String → List Toml.Members → Prop
  | unnamed {base here : Toml.Members} (hbase : w.DefaultDocument base) (hhere : w.LocalDocument here) :
      Documents w none [base, here]
  | named {path : String} {base here there : Toml.Members} (hbase : w.DefaultDocument base)
      (hhere : w.LocalDocument here) (hthere : w.FileDocument path true there) :
      Documents w (some path) [base, here, there]

/-- The settings are those of the documents. Where these are layers, each setting is that of
the last layer that has it. -/
def Configures (w : Workspace) (name : Option String) (settings : Settings) : Prop :=
  ∃ documents, w.Documents name documents ∧ ConfigLoader.build documents = .ok settings ∧
    ∀ layers, documents.mapM Layer.ofDocument? = some layers →
      (Layer.together layers).structureTags = some settings.options.structureTags ∧
      (Layer.together layers).header = settings.header

variable {w : Workspace} {name : Option String} {documents : List Toml.Members}

/-- Some layer has tags, since the built-in document does. -/
theorem Documents.exists_structureTags {layers : List Layer} (h : w.Documents name documents)
    (hlayers : documents.mapM Layer.ofDocument? = some layers) :
    ∃ tags, (Layer.together layers).structureTags = some tags := by
  have hbase : ∃ base rest, documents = base :: rest ∧ w.DefaultDocument base := by
    cases h with
    | unnamed hbase _ => exact ⟨_, _, rfl, hbase⟩
    | named hbase _ _ => exact ⟨_, _, rfl, hbase⟩
  obtain ⟨base, rest, rfl, hbase⟩ := hbase
  rw [List.mapM_cons, hbase.layer, Option.bind_eq_bind, Option.bind_some] at hlayers
  obtain ⟨ls, _, hlayers⟩ := Option.bind_eq_some_iff.1 hlayers
  cases hlayers
  show ∃ tags, (Layer.together ls).structureTags.or (some _) = some tags
  cases (Layer.together ls).structureTags with
  | none => exact ⟨_, rfl⟩
  | some tags => exact ⟨tags, rfl⟩

variable [LawfulConfigLoader]

theorem fileDocument_of_collect {path : String} {required : Bool} {document : Toml.Members}
    (h : Settings.document w (.file path required) = .ok document) :
    w.FileDocument path required document := by
  have htext (text : String) (hfile : w.tree.isFile path Environment.directory = true)
      (hread : w.tree.read path Environment.directory = .ok text) :
      Settings.document w (.text text) = .ok document :=
    (LawfulConfigLoader.collect_file w required hfile hread).symm.trans h
  refine ⟨h, htext, fun l hl hfile hread => ?_⟩
  obtain ⟨document', hdocument', hlayer⟩ := LawfulConfigLoader.collect_text w hl
  cases (htext l.text hfile hread).symm.trans hdocument'
  exact hlayer

theorem localDocument_of_collect {document : Toml.Members}
    (h : Settings.document w (.file Settings.localName false) = .ok document) :
    w.LocalDocument document := by
  refine ⟨fileDocument_of_collect h, fun hmissing => ?_⟩
  obtain ⟨document', hdocument', hlayer⟩ := LawfulConfigLoader.collect_missing w hmissing
  cases h.symm.trans hdocument'
  exact hlayer

theorem defaultDocument_of_collect {document : Toml.Members}
    (h : Settings.document w (.text Settings.defaultText) = .ok document) :
    w.DefaultDocument document := by
  obtain ⟨document', hdocument', hlayer⟩ := LawfulConfigLoader.collect_default w
  cases h.symm.trans hdocument'
  exact ⟨h, hlayer⟩

theorem documents_of_mapM
    (h : (Settings.sources name).mapM (Settings.document w) = .ok documents) :
    w.Documents name documents := by
  obtain ⟨base, rest, hbase, hrest, rfl⟩ := mapM_cons_eq_ok_iff.1 h
  obtain ⟨here, last, hhere, hlast, rfl⟩ := mapM_cons_eq_ok_iff.1 hrest
  cases name with
  | none =>
    cases hlast
    exact .unnamed (defaultDocument_of_collect hbase) (localDocument_of_collect hhere)
  | some path =>
    obtain ⟨there, none, hthere, hnone, rfl⟩ := mapM_cons_eq_ok_iff.1 hlast
    cases hnone
    exact .named (defaultDocument_of_collect hbase) (localDocument_of_collect hhere)
      (fileDocument_of_collect hthere)

theorem configures_of_load {settings : Settings}
    (h : ((Settings.load name : StateM Workspace (Except String Settings)).run w).1 = .ok settings) :
    w.Configures name settings := by
  rw [Settings.run_load] at h
  obtain ⟨documents, hdocuments, hbuild⟩ := bind_eq_ok_iff.1 h
  have hfound := documents_of_mapM hdocuments
  refine ⟨documents, hfound, hbuild, fun layers hlayers => ?_⟩
  obtain ⟨tags, htags⟩ := hfound.exists_structureTags hlayers
  rw [LawfulConfigLoader.build_of_layers hlayers htags] at hbuild
  cases hbuild
  exact ⟨htags, rfl⟩

/-- Where no file is named, the settings are those of the local document over the usual
ones. -/
theorem load_of_document {here : Toml.Members} {l : Layer}
    (hhere : Settings.document w (.file Settings.localName false) = .ok here)
    (hl : Layer.ofDocument? here = some l) :
    ((Settings.load none : StateM Workspace (Except String Settings)).run w).1 =
      .ok ⟨⟨l.structureTags.getD ({} : Options).structureTags⟩, l.header⟩ := by
  obtain ⟨base, hbase, hbaseLayer⟩ := LawfulConfigLoader.collect_default w
  have hdocuments : (Settings.sources none).mapM (Settings.document w) = .ok [base, here] :=
    mapM_cons_eq_ok_iff.2 ⟨base, [here], hbase, mapM_cons_eq_ok_iff.2 ⟨here, [], hhere, rfl, rfl⟩, rfl⟩
  have hlayers : [base, here].mapM Layer.ofDocument? =
      some [{ structureTags := some ({} : Options).structureTags }, l] := by
    simp [hbaseLayer, hl]
  have htogether : Layer.together [{ structureTags := some ({} : Options).structureTags }, l] =
      ⟨some (l.structureTags.getD ({} : Options).structureTags), l.header⟩ := by
    rw [Layer.together, Layer.together, Layer.together, Layer.empty_above, Layer.above, Option.or_none]
    cases l.structureTags <;> rfl
  rw [Settings.run_load, hdocuments]
  show ConfigLoader.build [base, here] = _
  rw [LawfulConfigLoader.build_of_layers hlayers (congrArg Layer.structureTags htogether), htogether]

end Workspace

end InterfaceSchema
