import InterfaceSchema.Proofs.Command.Configuration
import InterfaceSchema.Toml.Reader

/-!
# Sections of documents

The text of a layer is read as the document with the settings of the layer, section by
section (`Toml.ofText?_text`).
-/

namespace InterfaceSchema.Toml

theorem put_append_of_lookup {key : String} {members : Members} (h : members.lookup key = none)
    (v : Toml) (more : Members) : put key v (members ++ more) = members ++ put key v more := by
  induction members with
  | nil => rfl
  | cons member members ih =>
    obtain ⟨k, w⟩ := member
    rw [List.lookup_cons] at h
    split at h
    · cases h
    · rename_i hk
      have hne : k ≠ key := fun heq => by simp [heq] at hk
      rw [List.cons_append, put, if_neg hne, ih h, List.cons_append]

theorem Draft.changeAt_append {d : Draft} {key : String} (h : d.members.lookup key = none) :
    d.changeAt [key] Draft.opened? =
      some { d with members := d.members ++ [(key, table .header [])] } := by
  have hput := put_append_of_lookup h (table .header []) []
  rw [List.append_nil] at hput
  simp [Draft.changeAt, Draft.atPath, Draft.opened?, h, hput, put]

theorem Draft.atPath_append {d : Draft} {name key : String} (h : d.members.lookup name = none)
    (v : Toml) :
    Draft.atPath false (Draft.define [key] v)
        [name] { d with members := d.members ++ [(name, table .header [])] } =
      some { d with members := d.members ++ [(name, table .header [(key, v)])] } := by
  have hlookup : (d.members ++ [(name, table .header [])]).lookup name = some (table .header []) := by
    rw [List.lookup_append, h]
    simp
  simp [Draft.atPath, Draft.define, hlookup, put_append_of_lookup h, put]

namespace Reader

variable {c : Char} {cs rest : List Char} {fuel depth : Nat}

/-! ## Strings -/

theorem closing?_quote (rest : List Char) : closing? false '"' ('"' :: rest) = some ([], rest) := by
  simp [closing?]

theorem closing?_of_ne (h : c ≠ '"') (cs : List Char) : closing? false '"' (c :: cs) = none := by
  simp [closing?, h]

theorem isPlain_of_isPlain (h : Layer.IsPlain c) : isPlain c = true := by
  have hdelete : c.toNat ≠ 0x7F := fun heq => h.ne_delete (Char.toNat_inj.1 heq)
  simp [isPlain, h.space_le, hdelete]

theorem stringBody_plain (h : ∀ c ∈ cs, Layer.IsPlain c) :
    stringBody false true '"' false (cs ++ '"' :: rest) = some (cs, rest) := by
  induction cs with
  | nil => simp [stringBody, closing?_quote]
  | cons c cs ih =>
    have hc := h c List.mem_cons_self
    have hescape : (c == '\\') = false := beq_eq_false_iff_ne.2 hc.ne_escape
    have ih := ih fun c hc => h c (List.mem_cons_of_mem _ hc)
    simp [stringBody, closing?_of_ne hc.ne_quote, isPlain_of_isPlain hc, hescape, ih]

theorem unescape_plain (h : ∀ c ∈ cs, Layer.IsPlain c) : unescape false cs = some cs := by
  induction cs with
  | nil => rfl
  | cons c cs ih =>
    have hescape := (h c List.mem_cons_self).ne_escape
    have ih := ih fun c hc => h c (List.mem_cons_of_mem _ hc)
    rw [unescape]
    · simp [ih]
    all_goals simp [hescape]

theorem filter_plain (h : ∀ c ∈ cs, Layer.IsPlain c) : cs.filter (· != '\r') = cs := by
  rw [List.filter_eq_self]
  intro c hc
  have hspace := (h c hc).space_le
  simp only [bne_iff_ne, ne_eq]
  rintro rfl
  exact absurd hspace (by decide)

theorem stringRest_plain {s : String} (h : ∀ c ∈ s.toList, Layer.IsPlain c) :
    stringRest false '"' (s.toList ++ '"' :: rest) = some (s, rest) := by
  simp [stringRest, stringBody_plain h, filter_plain h, unescape_plain h]

theorem longString?_quoted {s : String} (h : ∀ c ∈ s.toList, Layer.IsPlain c)
    (hrest : rest.head? ≠ some '"') : longString? ('"' :: (s.toList ++ '"' :: rest)) = none := by
  unfold longString?
  split
  · rename_i heq
    cases hs : s.toList with
    | nil =>
      simp only [hs, List.nil_append, List.cons.injEq, true_and] at heq
      simp [heq] at hrest
    | cons c cs =>
      simp only [hs, List.cons_append, List.cons.injEq, true_and] at heq
      exact absurd heq.1 (h c (hs ▸ List.mem_cons_self)).ne_quote
  · simp_all
  · rfl

theorem quoted_append (s : String) (rest : List Char) :
    (Layer.quoted s).toList ++ rest = '"' :: (s.toList ++ '"' :: rest) := by
  simp [Layer.quoted]

theorem value_quoted {s : String} (h : ∀ c ∈ s.toList, Layer.IsPlain c)
    (hrest : rest.head? ≠ some '"') :
    value (fuel + 1) depth ((Layer.quoted s).toList ++ rest) = some (string s, rest) := by
  rw [quoted_append, value]
  · simp [longString?_quoted h hrest, shortString?, stringRest_plain h]
  all_goals simp

theorem skipBlank_quoted (s : String) (rest : List Char) :
    skipBlank false ((Layer.quoted s).toList ++ rest) = (Layer.quoted s).toList ++ rest := by
  simp [quoted_append, skipBlank, isSpace]

theorem arrayItems_last {s : String} (h : ∀ c ∈ s.toList, Layer.IsPlain c) :
    arrayItems (fuel + 2) depth ((Layer.quoted s).toList ++ ']' :: rest) = some ([string s], rest) := by
  rw [arrayItems, skipBlank_quoted]
  split
  · simp_all [quoted_append]
  · rw [value_quoted h (by simp)]
    simp [skipBlank, isSpace]

theorem arrayItems_next {s : String} {items : List Toml} (h : ∀ c ∈ s.toList, Layer.IsPlain c)
    (hnext : arrayItems (fuel + 1) depth cs = some (items, rest)) :
    arrayItems (fuel + 2) depth ((Layer.quoted s).toList ++ ',' :: cs) = some (string s :: items, rest) := by
  rw [arrayItems, skipBlank_quoted]
  split
  · simp_all [quoted_append]
  · rw [value_quoted h (by simp)]
    simp [skipBlank, isSpace, hnext]

theorem arrayItems_space : arrayItems fuel depth (' ' :: cs) = arrayItems fuel depth cs := by
  cases fuel with
  | zero => rfl
  | succ fuel => simp [arrayItems, skipBlank, isSpace]

/-- The tags of a list, up to its end. -/
theorem arrayItems_quoted {tags : List String} (h : ∀ tag ∈ tags, ∀ c ∈ tag.toList, Layer.IsPlain c)
    (hfuel : tags.length < fuel) :
    arrayItems fuel depth ((", ".intercalate (tags.map Layer.quoted)).toList ++ ']' :: rest) =
      some (tags.map string, rest) := by
  induction tags generalizing fuel with
  | nil =>
    obtain ⟨fuel, rfl⟩ := Nat.exists_eq_add_of_lt hfuel
    simp [arrayItems, skipBlank, isSpace]
  | cons tag tags ih =>
    have htag := h tag List.mem_cons_self
    obtain ⟨fuel, rfl⟩ := Nat.exists_eq_add_of_le' (show 2 ≤ fuel by grind)
    cases tags with
    | nil =>
      rw [List.map_cons, List.map_nil, String.intercalate_singleton]
      exact arrayItems_last htag
    | cons other tags =>
      have hnext := ih (fun tag htag => h tag (List.mem_cons_of_mem _ htag)) (Nat.lt_of_succ_lt_succ hfuel)
      rw [← arrayItems_space, List.map_cons] at hnext
      rw [List.map_cons, List.map_cons, String.intercalate_cons_cons, String.toList_append,
        String.toList_append, List.append_assoc, List.append_assoc]
      exact arrayItems_next htag hnext

theorem length_le_length_intercalate (tags : List String) :
    tags.length ≤ (", ".intercalate (tags.map Layer.quoted)).toList.length := by
  induction tags with
  | nil => exact Nat.zero_le _
  | cons tag tags ih =>
    cases tags with
    | nil => simp [Layer.quoted]
    | cons other tags =>
      rw [List.map_cons] at ih
      rw [List.map_cons, List.map_cons, String.intercalate_cons_cons, String.toList_append,
        String.toList_append, List.length_append, List.length_append]
      have hcomma : ", ".toList.length = 2 := by simp
      rw [List.length_cons]
      omega

/-! ## Lines -/

/-- A name that needs no quotes. -/
structure IsBare (name : String) : Prop where
  ne_nil : name.toList ≠ []
  all : name.toList.all isKeyChar = true

theorem ne_of_isKeyChar {d : Char} (hc : isKeyChar c = true) (hd : isKeyChar d = false) : c ≠ d :=
  fun h => by simp [h, hd] at hc

variable {name : String}

theorem IsBare.isKeyChar_of_mem (h : IsBare name) : ∀ c ∈ name.toList, isKeyChar c = true :=
  List.all_eq_true.1 h.all

theorem IsBare.exists_head (h : IsBare name) : ∃ c cs, name.toList = c :: cs ∧ isKeyChar c = true := by
  obtain ⟨c, cs, hlist⟩ := List.exists_cons_of_ne_nil h.ne_nil
  exact ⟨c, cs, hlist, h.isKeyChar_of_mem c (hlist ▸ List.mem_cons_self)⟩

theorem IsBare.append_ne_cons {d : Char} (h : IsBare name) (hd : isKeyChar d = false)
    (cs ds : List Char) : name.toList ++ cs ≠ d :: ds := by
  obtain ⟨c, tail, hlist, hc⟩ := h.exists_head
  rw [hlist]
  exact fun heq => ne_of_isKeyChar hc hd (List.cons.inj heq).1

theorem simpleKey_of_isBare (h : IsBare name) (hcs : ∀ c ∈ cs.head?, isKeyChar c = false) :
    simpleKey (name.toList ++ cs) = some (name, cs) := by
  have hshort : shortString? (name.toList ++ cs) = none := by
    rw [shortString?]
    · exact h.append_ne_cons (by decide) cs
    · exact h.append_ne_cons (by decide) cs
  have htake : cs.takeWhile isKeyChar = [] ∧ cs.dropWhile isKeyChar = cs := by
    cases cs with
    | nil => exact ⟨rfl, rfl⟩
    | cons c cs => simp [hcs c rfl]
  rw [simpleKey, hshort, List.takeWhile_append_of_pos h.isKeyChar_of_mem, htake.1, List.append_nil,
    List.dropWhile_append_of_pos h.isKeyChar_of_mem, htake.2]
  obtain ⟨c, tail, hlist, -⟩ := h.exists_head
  have hname : String.ofList name.toList = name := String.ofList_toList
  rw [hlist] at hname ⊢
  exact congrArg (fun s => some (s, cs)) hname

theorem key_of_isBare (h : IsBare name) (hcs : ∀ c ∈ cs.head?, isKeyChar c = false)
    (hskip : skipSpaces cs = c :: rest) (hc : c ≠ '.') :
    key (fuel + 1) (name.toList ++ cs) = some ([name], c :: rest) := by
  have hstart : skipSpaces (name.toList ++ cs) = name.toList ++ cs := by
    obtain ⟨c, tail, hlist, hc⟩ := h.exists_head
    have hspace := ne_of_isKeyChar (d := ' ') hc (by decide)
    have htab := ne_of_isKeyChar (d := '\t') hc (by decide)
    simp [hlist, skipSpaces, isSpace, hspace, htab]
  rw [key, keyParts, hstart, simpleKey_of_isBare h hcs]
  simp [hskip, hc, limit]

theorem line_header {p : Progress} (h : IsBare name) (hnew : p.root.members.lookup name = none) :
    line (fuel + 1) p ('[' :: (name.toList ++ ']' :: rest)) =
      some (⟨{ p.root with members := p.root.members ++ [(name, table .header [])] }, [name]⟩, rest) := by
  have hkey : key (fuel + 1) (name.toList ++ ']' :: rest) = some ([name], ']' :: rest) :=
    key_of_isBare h (by simp; decide) (by simp [skipSpaces, isSpace]) (by decide)
  rw [line]
  · rw [hkey]
    simp [Draft.changeAt_append hnew]
  · exact h.append_ne_cons (by decide) _

theorem line_pair {root : Draft} {keyName : String} {v : Toml} {text : List Char} (h : IsBare keyName)
    (hnew : root.members.lookup name = none) (htext : skipSpaces text = text)
    (hvalue : value (fuel + 1) 0 text = some (v, rest)) :
    line (fuel + 1) ⟨{ root with members := root.members ++ [(name, table .header [])] }, [name]⟩
        (keyName.toList ++ ' ' :: '=' :: ' ' :: text) =
      some (⟨{ root with members := root.members ++ [(name, table .header [(keyName, v)])] }, [name]⟩,
        rest) := by
  have hkey : key (fuel + 1) (keyName.toList ++ ' ' :: '=' :: ' ' :: text) =
      some ([keyName], '=' :: ' ' :: text) :=
    key_of_isBare h (by simp; decide) (by simp [skipSpaces, isSpace]) (by decide)
  have hskip : skipSpaces (' ' :: text) = text := htext
  rw [line]
  · rw [hkey]
    simp [hskip, hvalue, Draft.atPath_append hnew]
  · exact fun _ => h.append_ne_cons (by decide) _ _
  · exact fun _ => h.append_ne_cons (by decide) _ _

theorem skipBlank_of_isBare (h : IsBare name) :
    skipBlank false (name.toList ++ cs) = name.toList ++ cs := by
  obtain ⟨c, tail, hlist, hc⟩ := h.exists_head
  have hspace := ne_of_isKeyChar (d := ' ') hc (by decide)
  have htab := ne_of_isKeyChar (d := '\t') hc (by decide)
  have hnewline := ne_of_isKeyChar (d := '\n') hc (by decide)
  have hreturn := ne_of_isKeyChar (d := '\r') hc (by decide)
  have hcomment := ne_of_isKeyChar (d := '#') hc (by decide)
  rw [hlist, List.cons_append, skipBlank]
  · simp [isSpace, hspace, htab, hcomment]
  all_goals simp [hnewline, hreturn]

theorem document_line {p p' : Progress} (hcs : skipBlank false cs = cs) (hne : cs ≠ [])
    (hline : line fuel p cs = some (p', '\n' :: rest)) :
    document (fuel + 1) p cs = document fuel p' rest := by
  rw [document, hcs]
  split
  · exact absurd rfl hne
  · rw [hline]
    rfl

theorem length_sectionText (name keyName text : String) :
    (Layer.sectionText name keyName text).toList.length =
      name.toList.length + keyName.toList.length + text.toList.length + 7 := by
  simp [Layer.sectionText]
  omega

theorem document_section {root : Draft} {header : List String} {keyName text : String} {v : Toml}
    (hname : IsBare name) (hkey : IsBare keyName) (hnew : root.members.lookup name = none)
    (htext : skipSpaces (text.toList ++ '\n' :: rest) = text.toList ++ '\n' :: rest)
    (hvalue : value (fuel + 1) 0 (text.toList ++ '\n' :: rest) = some (v, '\n' :: rest)) :
    document (fuel + 3) ⟨root, header⟩ ((Layer.sectionText name keyName text).toList ++ rest) =
      document (fuel + 1) ⟨{ root with members := root.members ++ [(name, table .header [(keyName, v)])] },
        [name]⟩ rest := by
  have hsection : (Layer.sectionText name keyName text).toList ++ rest =
      '[' :: (name.toList ++ ']' :: '\n' ::
        (keyName.toList ++ ' ' :: '=' :: ' ' :: (text.toList ++ '\n' :: rest))) := by
    simp [Layer.sectionText]
  rw [hsection, document_line (by simp [skipBlank, isSpace]) (by simp) (line_header hname hnew),
    document_line (skipBlank_of_isBare hkey) (by simp) (line_pair hkey hnew htext hvalue)]

theorem value_tags {tags : List String} (h : ∀ tag ∈ tags, ∀ c ∈ tag.toList, Layer.IsPlain c)
    (hfuel : tags.length < fuel) :
    value (fuel + 1) 0 (("[" ++ ", ".intercalate (tags.map Layer.quoted) ++ "]").toList ++ rest) =
      some (array (tags.map string), rest) := by
  have htext : ("[" ++ ", ".intercalate (tags.map Layer.quoted) ++ "]").toList ++ rest =
      '[' :: ((", ".intercalate (tags.map Layer.quoted)).toList ++ ']' :: rest) := by
    rw [String.toList_append, String.toList_append, List.append_assoc]
    rfl
  rw [htext, value, arrayItems_quoted h hfuel]
  rfl

theorem document_tags {tags : List String} {header : List String}
    (h : ∀ tag ∈ tags, ∀ c ∈ tag.toList, Layer.IsPlain c) (hfuel : tags.length < fuel) :
    document (fuel + 3) ⟨{}, header⟩ ((Layer.sectionText "transpile" "structure_tags"
        ("[" ++ ", ".intercalate (tags.map Layer.quoted) ++ "]")).toList ++ rest) =
      document (fuel + 1) ⟨{ members := [("transpile",
        table .header [("structure_tags", array (tags.map string))])] }, ["transpile"]⟩ rest :=
  document_section ⟨by decide, by decide⟩ ⟨by decide, by decide⟩ rfl (by simp [skipSpaces, isSpace])
    (value_tags h hfuel)

theorem document_path {root : Draft} {header : List String} {path : Option String}
    (h : ∀ s ∈ path, ∀ c ∈ s.toList, Layer.IsPlain c) (hnew : root.members.lookup "output" = none) :
    (document (fuel + 3) ⟨root, header⟩
        (path.elim "" fun s => Layer.sectionText "output" "header" (Layer.quoted s)).toList).map
          (·.root.members) =
      some (root.members ++ path.toList.map fun s => ("output", table .header [("header", string s)])) := by
  cases path with
  | none =>
    rw [Option.toList_none, List.map_nil, List.append_nil]
    rfl
  | some s =>
    have hs := h s rfl
    rw [Option.elim_some, ← List.append_nil (Layer.sectionText _ _ _).toList,
      document_section ⟨by decide, by decide⟩ ⟨by decide, by decide⟩ hnew
        (by simp [skipSpaces, isSpace, Layer.quoted]) (value_quoted hs (by simp))]
    rfl

theorem skipMark_of_head? (h : cs.head? ≠ some '\uFEFF') : skipMark cs = cs := by
  unfold skipMark
  split
  · exact absurd rfl h
  · rfl

end Reader

/-- What the sections of a layer are in its document. -/
def sections (l : Layer) : Members :=
  (l.structureTags.toList.map fun tags =>
    ("transpile", table .header [("structure_tags", array (tags.map string))])) ++
  l.header.toList.map fun s => ("output", table .header [("header", string s)])

theorem ofDocument?_sections (l : Layer) : Layer.ofDocument? (sections l) = some l := by
  obtain ⟨tags, path⟩ := l
  have htags (tags : List String) : tags.mapM (Layer.text? ∘ string) = some tags := by
    rw [← List.map_id tags, List.mapM_map]
    exact List.mapM_pure
  cases tags <;> cases path <;>
    simp [sections, Layer.ofDocument?, Layer.ofSection?, Layer.together, Layer.above, htags]

open Toml.Reader in
theorem ofText?_eq {text : String} (h : text.toList.head? ≠ some '\uFEFF') :
    ofText? text = (document (text.toList.length + 3) {} text.toList).map (·.root.members) := by
  rw [ofText?, skipMark_of_head? h]
  cases document (text.toList.length + 3) {} text.toList <;> rfl

open Toml.Reader in
/-- The text of a layer is read as its settings in their sections. -/
theorem ofText?_text {l : Layer} (h : l.IsWritable) : ofText? l.text = some (sections l) := by
  obtain ⟨tags, path⟩ := l
  rw [ofText?_eq (by cases tags <;> cases path <;> simp [Layer.text, Layer.sectionText])]
  cases tags with
  | none =>
    have htext : Layer.text ⟨none, path⟩ =
        path.elim "" fun s => Layer.sectionText "output" "header" (Layer.quoted s) :=
      String.empty_append
    rw [htext]
    exact document_path h.header rfl
  | some tags =>
    have htags := h.structureTags tags rfl
    have hlength : tags.length + 2 < (Layer.text ⟨some tags, path⟩).toList.length := by
      have htags := length_le_length_intercalate tags
      rw [Layer.text, Option.elim_some, String.toList_append, List.length_append, length_sectionText,
        String.toList_append, String.toList_append, List.length_append, List.length_append]
      omega
    obtain ⟨fuel, hfuel⟩ := Nat.exists_eq_add_of_le' (Nat.le_of_add_left_le (Nat.le_of_lt hlength))
    rw [hfuel] at hlength ⊢
    rw [Layer.text, Option.elim_some, String.toList_append,
      document_tags htags (Nat.lt_of_add_right_lt hlength)]
    exact document_path h.header rfl

end InterfaceSchema.Toml
