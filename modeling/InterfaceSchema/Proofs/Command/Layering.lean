import InterfaceSchema.Proofs.Command.Sections
import InterfaceSchema.Toml.Settings

/-!
# The loader of TOML documents

What the loader of this library lays over one another is what the layers of the documents
are together: a value `Holds` the settings that have been laid so far. So it is a
`LawfulConfigLoader`.
-/

namespace InterfaceSchema.Toml

theorem lookup_put_self (key : String) (v : Toml) (members : Members) :
    (put key v members).lookup key = some v := by
  induction members with
  | nil => exact List.lookup_cons_self
  | cons member members ih =>
    obtain ⟨k, w⟩ := member
    rw [put]
    split
    · rename_i hk
      rw [hk, List.lookup_cons_self]
    · rename_i hk
      rw [List.lookup_cons, beq_eq_false_iff_ne.2 (Ne.symm hk), ih]

theorem lookup_put_of_ne {key other : String} (h : other ≠ key) (v : Toml) (members : Members) :
    (put key v members).lookup other = members.lookup other := by
  induction members with
  | nil => rw [put, List.lookup_cons, beq_eq_false_iff_ne.2 h]
  | cons member members ih =>
    obtain ⟨k, w⟩ := member
    rw [put]
    split
    · rename_i hk
      rw [List.lookup_cons, List.lookup_cons, beq_eq_false_iff_ne.2 (hk ▸ h)]
    · rw [List.lookup_cons, List.lookup_cons, ih]

def member? (name : String) : Toml → Option Toml
  | table _ members => members.lookup name
  | _ => none

def setting? (name key : String) (base : Toml) : Option Toml := base.member? name >>= member? key

def IsTable (v : Toml) : Prop := ∃ origin members, v = table origin members

variable {base v : Toml} {name other key : String} {origin : Origin} {change : Toml → Toml}

theorem isTable_atMember : (base.atMember name change).IsTable := ⟨_, _, rfl⟩

theorem member?_atMember_self (h : name.toLower = name) :
    (base.atMember name change).member? name = some (change ((base.member? name).getD unset)) := by
  cases base <;> simp only [atMember, h, member?, lookup_put_self, List.lookup_nil]

theorem member?_atMember_of_ne (h : name.toLower = name) (hother : other ≠ name) :
    (base.atMember name change).member? other = base.member? other := by
  cases base <;> simp only [atMember, h, member?, lookup_put_of_ne hother, List.lookup_nil]

theorem setting?_atMember_self (h : name.toLower = name) :
    (base.atMember name change).setting? name key =
      (change ((base.member? name).getD unset)).member? key := by
  rw [setting?, member?_atMember_self h]
  rfl

theorem setting?_atMember_of_ne (h : name.toLower = name) (hother : other ≠ name) :
    (base.atMember name change).setting? other key = base.setting? other key := by
  rw [setting?, member?_atMember_of_ne h hother, setting?]

/-- A table is laid member by member, over a new one where nothing is set. -/
theorem exists_layMembers (origin : Origin) (part : Toml) :
    ∃ start, (∀ members, layOver part (table origin members) = layMembers start members) ∧
      (part = unset ∨ part.IsTable → start.IsTable) ∧
      ∀ key, start.member? key = part.member? key := by
  cases part with
  | unset => exact ⟨table origin [], fun _ => rfl, fun _ => ⟨_, _, rfl⟩, fun _ => rfl⟩
  | _ => exact ⟨_, fun _ => rfl, fun h => h.resolve_left nofun, fun _ => rfl⟩

theorem member?_layOver_nil (part : Toml) :
    (layOver part (table origin [])).member? key = part.member? key := by
  obtain ⟨start, hlay, -, hstart⟩ := exists_layMembers origin part
  rw [hlay]
  exact hstart key

theorem member?_layOver_singleton (part : Toml) (hkey : key.toLower = key)
    (hv : ∀ w, layOver w v = v) :
    (layOver part (table origin [(key, v)])).member? key = some v := by
  obtain ⟨start, hlay, -, -⟩ := exists_layMembers origin part
  rw [hlay, layMembers, layMembers, member?_atMember_self hkey, hv]

theorem isTable_layOver {part : Toml} (members : Members) (h : part = unset ∨ part.IsTable) :
    (layOver part (table origin members)).IsTable := by
  obtain ⟨start, hlay, hstart, -⟩ := exists_layMembers origin part
  rw [hlay]
  have hmembers : ∀ w : Toml, w.IsTable → (layMembers w members).IsTable := by
    induction members with
    | nil => exact fun _ hw => hw
    | cons member members ih => exact fun _ _ => ih _ isTable_atMember
  exact hmembers start (hstart h)

/-! ## What has been laid -/

/-- A value with the settings of a layer, and with tables alone as its sections. -/
structure Holds (base : Toml) (l : Layer) : Prop where
  isTable : base.IsTable
  isTable_of_member? : ∀ name part, base.member? name = some part → part.IsTable
  structureTags : base.setting? "transpile" "structure_tags" =
    l.structureTags.map fun tags => array (tags.map string)
  header : base.setting? "output" "header" = l.header.map string

theorem holds_empty : Holds (table .header []) {} :=
  ⟨⟨_, _, rfl⟩, nofun, rfl, rfl⟩

theorem eq_map_string_of_mapM {values : List Toml} {tags : List String}
    (h : values.mapM Layer.text? = some tags) : values = tags.map string := by
  induction values generalizing tags with
  | nil =>
    cases h
    rfl
  | cons value values ih =>
    rw [List.mapM_cons] at h
    obtain ⟨tag, htag, h⟩ := Option.bind_eq_some_iff.1 h
    obtain ⟨rest, hrest, h⟩ := Option.bind_eq_some_iff.1 h
    cases h
    cases value with
    | string s =>
      cases htag
      rw [ih hrest, List.map_cons]
    | _ => cases htag

theorem tagList?_map_string (tags : List String) : tagList? (array (tags.map string)) = some tags := by
  rw [tagList?, List.mapM_map]
  induction tags with
  | nil => rfl
  | cons tag tags ih =>
    rw [List.mapM_cons, ih]
    rfl

theorem lay_eq_foldl (base : Toml) (document : Members) :
    lay base document = document.foldl (fun base part => layAt part.2 (keyPath part.1) base) base := by
  induction document generalizing base with
  | nil => rfl
  | cons part document ih => exact ih _

namespace Holds

variable {l l' : Layer} {members : Members}

theorem isTable_of_member?_atMember (h : Holds base l) (hname : name.toLower = name) {part : Toml}
    (hpart : (base.atMember name (layOver · (table origin members))).member? other = some part) :
    part.IsTable := by
  by_cases hother : other = name
  · subst hother
    rw [member?_atMember_self hname] at hpart
    obtain rfl := Option.some.inj hpart
    refine isTable_layOver members ?_
    cases hbase : base.member? other with
    | none => exact .inl rfl
    | some part => exact .inr (h.isTable_of_member? _ _ hbase)
  · rw [member?_atMember_of_ne hname hother] at hpart
    exact h.isTable_of_member? _ _ hpart

theorem lay_nil (h : Holds base l) (hname : name.toLower = name) :
    Holds (base.atMember name (layOver · (table origin []))) l := by
  have hsetting (part key : String) :
      (base.atMember name (layOver · (table origin []))).setting? part key = base.setting? part key := by
    by_cases hpart : part = name
    · subst hpart
      rw [setting?_atMember_self hname, member?_layOver_nil, setting?]
      cases base.member? part <;> rfl
    · exact setting?_atMember_of_ne hname hpart
  exact ⟨isTable_atMember, fun _ _ => h.isTable_of_member?_atMember hname,
    (hsetting _ _).trans h.structureTags, (hsetting _ _).trans h.header⟩

theorem lay_structureTags (h : Holds base l) (tags : List String) :
    Holds (base.atMember "transpile"
      (layOver · (table origin [("structure_tags", array (tags.map string))])))
      (Layer.above { structureTags := some tags } l) := by
  have hname : "transpile".toLower = "transpile" := by decide +kernel
  refine ⟨isTable_atMember, fun _ _ => h.isTable_of_member?_atMember hname, ?_, ?_⟩
  · rw [setting?_atMember_self hname,
      member?_layOver_singleton _ (by decide +kernel) fun _ => rfl]
    rfl
  · exact (setting?_atMember_of_ne hname (by decide)).trans h.header

theorem lay_header (h : Holds base l) (path : String) :
    Holds (base.atMember "output" (layOver · (table origin [("header", string path)])))
      (Layer.above { header := some path } l) := by
  have hname : "output".toLower = "output" := by decide +kernel
  refine ⟨isTable_atMember, fun _ _ => h.isTable_of_member?_atMember hname, ?_, ?_⟩
  · exact (setting?_atMember_of_ne hname (by decide)).trans h.structureTags
  · rw [setting?_atMember_self hname,
      member?_layOver_singleton _ (by decide +kernel) fun _ => rfl]
    rfl

theorem lay_section (h : Holds base l) (part : String × Toml)
    (hl : Layer.ofSection? part = some l') : Holds (layAt part.2 (keyPath part.1) base) (l'.above l) := by
  have htranspile : keyPath "transpile" = [.member "transpile"] := by decide +kernel
  have houtput : keyPath "output" = [.member "output"] := by decide +kernel
  unfold Layer.ofSection? at hl
  split at hl
  · split at hl
    · rename_i hname
      cases hl
      rw [Layer.empty_above]
      rcases hname with rfl | rfl
      · rw [htranspile]
        exact h.lay_nil (by decide +kernel)
      · rw [houtput]
        exact h.lay_nil (by decide +kernel)
    · cases hl
  · split at hl
    · rename_i hname
      obtain ⟨rfl, rfl⟩ := hname
      obtain ⟨tags, htags, rfl⟩ := Option.map_eq_some_iff.1 hl
      obtain rfl := eq_map_string_of_mapM htags
      rw [htranspile]
      exact h.lay_structureTags tags
    · cases hl
  · split at hl
    · rename_i hname
      obtain ⟨rfl, rfl⟩ := hname
      cases hl
      rw [houtput]
      exact h.lay_header _
    · cases hl
  · cases hl

/-- What is laid one after the other is held together, if each step holds its layer. -/
theorem foldl {α : Type} {step : Toml → α → Toml} {layer? : α → Option Layer}
    (hstep : ∀ base l a l', Holds base l → layer? a = some l' → Holds (step base a) (l'.above l))
    (as : List α) {ls : List Layer} (h : Holds base l) (hls : as.mapM layer? = some ls) :
    Holds (as.foldl step base) ((Layer.together ls).above l) := by
  induction as generalizing base l ls with
  | nil =>
    cases hls
    exact h
  | cons a as ih =>
    rw [List.mapM_cons] at hls
    obtain ⟨l', hl', hls⟩ := Option.bind_eq_some_iff.1 hls
    obtain ⟨rest, hrest, hls⟩ := Option.bind_eq_some_iff.1 hls
    cases hls
    rw [List.foldl_cons, Layer.together, Layer.above_assoc]
    exact ih (hstep _ _ _ _ h hl') hrest

theorem lay_document (h : Holds base l) (document : Members)
    (hl : Layer.ofDocument? document = some l') : Holds (lay base document) (l'.above l) := by
  obtain ⟨ls, hls, rfl⟩ := Option.map_eq_some_iff.1 hl
  rw [lay_eq_foldl]
  exact foldl (fun _ _ part _ h hl => h.lay_section part hl) document h hls

theorem options?_eq (h : Holds base l) {tags : List String} (htags : l.structureTags = some tags) :
    ∃ part, base.member? "transpile" = some part ∧ options? part = some ⟨tags⟩ := by
  have hsetting := h.structureTags
  rw [htags] at hsetting
  obtain ⟨part, hpart, hvalue⟩ := Option.bind_eq_some_iff.1 hsetting
  obtain ⟨o, inner, rfl⟩ := h.isTable_of_member? _ _ hpart
  refine ⟨_, hpart, ?_⟩
  simp only [options?, show inner.lookup "structure_tags" = _ from hvalue, tagList?_map_string]
  rfl

theorem header?_eq (h : Holds base l) {part : Toml} (hpart : base.member? "output" = some part) :
    header? part = some l.header := by
  obtain ⟨o, inner, rfl⟩ := h.isTable_of_member? _ _ hpart
  have hsetting := h.header
  rw [setting?, hpart] at hsetting
  have hlookup : inner.lookup "header" = l.header.map string := hsetting
  simp only [header?, hlookup]
  cases l.header <;> rfl

theorem header_eq_none (h : Holds base l) (hpart : base.member? "output" = none) : l.header = none := by
  have hsetting := h.header
  rw [setting?, hpart] at hsetting
  exact Option.map_eq_none_iff.1 hsetting.symm

theorem settings?_eq (h : Holds base l) {tags : List String} (htags : l.structureTags = some tags) :
    settings? base = some ⟨⟨tags⟩, l.header⟩ := by
  obtain ⟨part, hpart, hoptions⟩ := h.options?_eq htags
  obtain ⟨origin, members, rfl⟩ := h.isTable
  rw [settings?, show members.lookup "transpile" = _ from hpart, Option.bind_eq_bind,
    Option.bind_some, hoptions]
  cases houtput : members.lookup "output" with
  | none =>
    rw [h.header_eq_none houtput]
    rfl
  | some output =>
    simp only [h.header?_eq houtput]
    rfl

theorem lay_documents {documents : List Members} {layers : List Layer}
    (hlayers : documents.mapM Layer.ofDocument? = some layers) :
    Holds (documents.foldl lay (table .header [])) (Layer.together layers) := by
  rw [← Layer.above_empty (Layer.together layers)]
  exact foldl (fun _ _ document _ h hl => h.lay_document document hl) documents holds_empty hlayers

end Holds

/-! ## The loader -/

theorem toList_append_of_eq {s t : String} {cs ds : List Char} (hs : s.toList = cs)
    (ht : t = String.ofList ds) : (s ++ t).toList = cs ++ ds := by
  rw [String.toList_append, hs, ht, String.toList_ofList]

theorem ofDocument?_defaultText :
    (ofText? Settings.defaultText).map Layer.ofDocument? =
      some (some { structureTags := some ({} : Options).structureTags }) := by
  -- The kernel is slow to take a long text apart, and quick where the characters are there.
  have htext : Settings.defaultText.toList = _ :=
    toList_append_of_eq (toList_append_of_eq (toList_append_of_eq (toList_append_of_eq
      (toList_append_of_eq (toList_append_of_eq (toList_append_of_eq
        String.toList_ofList rfl) rfl) rfl) rfl) rfl) rfl) rfl
  rw [ofText?, htext]
  decide +kernel

section Files

variable {σ : Type} [FileSystem (StateM σ)]

theorem run_collect_text (text : String) (s : σ) :
    (collect (.text text) : StateM σ (Except String Members)).run s = (parse text, s) := rfl

theorem exists_document_of_layer {text : String} {l : Layer}
    (h : (ofText? text).map Layer.ofDocument? = some (some l)) (s : σ) :
    ∃ document, ((collect (.text text) : StateM σ (Except String Members)).run s).1 = .ok document ∧
      Layer.ofDocument? document = some l := by
  obtain ⟨document, hdocument, hlayer⟩ := Option.map_eq_some_iff.1 h
  refine ⟨document, (congrArg Prod.fst (run_collect_text text s)).trans ?_, hlayer⟩
  rw [parse, hdocument]

variable [LawfulFileSystem σ]

theorem readOnly_findFile (path : String) : ReadOnly (findFile path : StateM σ (Option String)) := by
  refine (LawfulFileSystem.isFile path).bind fun found => ?_
  split
  · exact .pure _
  · split
    · exact .pure _
    · refine (LawfulFileSystem.isFile _).bind fun found => ?_
      split
      · exact .pure _
      · exact .pure _

theorem readOnly_readText? (path : String) : ReadOnly (readText? path : StateM σ (Option String)) := by
  refine (readOnly_findFile path).bind fun found => ?_
  split
  · exact .pure _
  · exact (LawfulFileSystem.read _).bind fun _ => .pure _

theorem readOnly_collect (source : ConfigSource) :
    ReadOnly (collect source : StateM σ (Except String Members)) := by
  cases source with
  | text document => exact .pure _
  | file path required =>
    refine (readOnly_readText? path).bind fun text => ?_
    split
    · exact .pure _
    · exact .pure _
    · exact .pure _

theorem run_collect_file {path text : String} {s : σ} (required : Bool)
    (hfile : ((FileSystem.isFile path : StateM σ Bool).run s).1 = true)
    (hread : ((FileSystem.read path : StateM σ (Except FileError String)).run s).1 = .ok text) :
    (collect (.file path required) : StateM σ (Except String Members)).run s = (parse text, s) := by
  have hfind : (findFile path : StateM σ (Option String)).run s = (some path, s) := by
    rw [findFile, StateT.run_bind, (LawfulFileSystem.isFile path).run_eq s, hfile]
    rfl
  have htext : (readText? path : StateM σ (Option String)).run s = (some text, s) := by
    rw [readText?, StateT.run_bind, hfind]
    show ((FileSystem.read path : StateM σ (Except FileError String)) >>= _).run s = _
    rw [StateT.run_bind, (LawfulFileSystem.read path).run_eq s, hread]
    rfl
  rw [collect, StateT.run_bind, htext]
  rfl

theorem run_findFile_of_missing {path longer : String} {s : σ} (hpath : withExtension? path = some longer)
    (h : ∀ p ∈ [path, longer], ((FileSystem.isFile p : StateM σ Bool).run s).1 = false) :
    (findFile path : StateM σ (Option String)).run s = (none, s) := by
  have hmissing (p : String) (hp : p ∈ [path, longer]) :
      (FileSystem.isFile p : StateM σ Bool).run s = (false, s) := by
    rw [(LawfulFileSystem.isFile p).run_eq s, h p hp]
  rw [findFile, StateT.run_bind, hmissing path (by simp), hpath]
  show ((FileSystem.isFile longer : StateM σ Bool) >>= _).run s = _
  rw [StateT.run_bind, hmissing longer (by simp)]
  rfl

end Files

instance : LawfulConfigLoader where
  readOnly_collect := readOnly_collect
  collect_file {σ _ _} s {path text} required hfile hread :=
    congrArg Prod.fst ((run_collect_file required hfile hread).trans (run_collect_text text s).symm)
  collect_text s _ hl :=
    exists_document_of_layer (by rw [ofText?_text hl, Option.map_some, ofDocument?_sections]) s
  collect_default s := exists_document_of_layer ofDocument?_defaultText s
  collect_missing {σ _ _} s h := by
    have hmissing : (findFile Settings.localName : StateM σ (Option String)).run s = (none, s) :=
      run_findFile_of_missing (by decide +kernel) h
    have hunread : (readText? Settings.localName : StateM σ (Option String)).run s = (none, s) := by
      rw [readText?, StateT.run_bind, hmissing]
      rfl
    refine ⟨[], ?_, rfl⟩
    show ((collect _ : StateM σ (Except String Members)).run s).1 = _
    rw [collect, StateT.run_bind, hunread]
    rfl
  build_of_layers {documents layers tags} hlayers htags := by
    show build documents = _
    rw [build, (Holds.lay_documents hlayers).settings?_eq htags]

end InterfaceSchema.Toml
