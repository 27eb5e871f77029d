import InterfaceSchema.Files.Tree
import InterfaceSchema.Proofs.Success

/-!
# Written files

What a write does to a file tree. A path of a new file names a place in a
directory, and `FileTree.write` changes what is at that place and nothing else: no
other file, and no directory (`FileTree.written_of_write`).
-/

namespace InterfaceSchema

namespace Text

theorem not_mem_of_mem_pieces {separator : Char} {cs piece : List Char}
    (h : piece ∈ pieces separator cs) : separator ∉ piece := by
  induction cs generalizing piece with
  | nil =>
    obtain rfl := List.mem_singleton.1 h
    exact List.not_mem_nil
  | cons c cs ih =>
    rw [pieces] at h
    split at h
    · rcases List.mem_cons.1 h with rfl | h
      · exact List.not_mem_nil
      · exact ih h
    · rename_i hc
      cases hpieces : pieces separator cs with
      | nil => exact absurd hpieces (pieces_ne_nil separator cs)
      | cons l ls =>
        rw [hpieces] at h ih
        rcases List.mem_cons.1 h with rfl | h
        · exact List.not_mem_cons_of_ne_of_not_mem (Ne.symm hc) (ih List.mem_cons_self)
        · exact ih (List.mem_cons_of_mem l h)

theorem pieces_eq_splitOn (separator : Char) (cs : List Char) :
    pieces separator cs = cs.splitOn separator := by
  induction cs with
  | nil => rfl
  | cons c cs ih =>
    rw [pieces, List.splitOn_cons_eq_if_modifyHead, ih]
    by_cases hc : c = separator
    · rw [if_pos hc, if_pos (beq_iff_eq.2 hc)]
    · rw [if_neg hc, if_neg (mt beq_iff_eq.1 hc)]
      cases hpieces : cs.splitOn separator with
      | nil => exact absurd hpieces (List.splitOn_ne_nil separator cs)
      | cons l ls => rfl

theorem pieces_of_not_mem {separator : Char} {cs : List Char} (h : separator ∉ cs) :
    pieces separator cs = [cs] := by
  rw [pieces_eq_splitOn, List.splitOn_eq_singleton h]

theorem pieces_append_separator {separator : Char} {cs : List Char} (h : separator ∉ cs)
    (ds : List Char) : pieces separator (cs ++ separator :: ds) = cs :: pieces separator ds := by
  rw [pieces_eq_splitOn, pieces_eq_splitOn, List.splitOn_append_cons_self_of_not_mem h]

end Text

theorem slash_not_mem_of_mem_pathParts {path part : String} (h : part ∈ pathParts path) :
    '/' ∉ part.toList := by
  obtain ⟨piece, hpiece, rfl⟩ := List.mem_map.1 h
  rw [String.toList_ofList]
  exact Text.not_mem_of_mem_pieces hpiece

/-- The parts of a path that is put together from parts are those. -/
theorem pathParts_intercalate {part : String} {parts : List String}
    (h : ∀ x ∈ part :: parts, '/' ∉ x.toList) :
    pathParts (String.intercalate "/" (part :: parts)) = part :: parts := by
  induction parts generalizing part with
  | nil =>
    rw [pathParts, String.intercalate_singleton,
      Text.pieces_of_not_mem (h part List.mem_cons_self), List.map_singleton, String.ofList_toList]
  | cons next parts ih =>
    obtain ⟨hpart, hparts⟩ := List.forall_mem_cons.1 h
    have ih := ih hparts
    rw [pathParts] at ih ⊢
    have htext : (String.intercalate "/" (part :: next :: parts)).toList =
        part.toList ++ '/' :: (String.intercalate "/" (next :: parts)).toList := by
      simp [String.toList_intercalate]
    rw [htext, Text.pieces_append_separator hpart, List.map_cons, ih, String.ofList_toList]

namespace FileTree

/-- A path without slashes at its end is its last name behind the parts before. -/
theorem pathParts_of_splitTarget {path name : String} {before : List String}
    (h : splitTarget path = (before, name, false)) :
    pathParts path = before ++ [name] ∧ name ≠ "" := by
  rw [splitTarget] at h
  split at h
  · cases h
  · rename_i last rest hdrop
    simp only [Prod.mk.injEq, decide_eq_false_iff_not] at h
    obtain ⟨rfl, rfl, hhead⟩ := h
    cases hparts : (pathParts path).reverse with
    | nil =>
      rw [hparts] at hdrop
      cases hdrop
    | cons part parts =>
      have hne : part ≠ "" := by
        rintro rfl
        exact hhead (by rw [hparts, List.head?_cons])
      rw [hparts, List.dropWhile_cons_of_neg (by simpa using hne)] at hdrop
      obtain ⟨rfl, rfl⟩ := List.cons.inj hdrop
      refine ⟨?_, hne⟩
      rw [← List.reverse_reverse (pathParts path), hparts, List.reverse_cons]

variable {t t' : FileTree} {here there : FilePath} {parts : List String}

theorem follow_append (parts : List String) (more : List String) :
    t.follow here (parts ++ more) = t.follow here parts >>= (t.follow · more) := by
  induction parts generalizing here with
  | nil => rfl
  | cons part parts ih =>
    simp only [List.cons_append, follow]
    split
    · rfl
    · rfl
    · simp only [ih]
      split
      · rfl
      · split <;> rfl

/-- A path is followed as before where all directories are still there. -/
theorem follow_of_directories
    (hdirectories : ∀ p, t.node? p = some .directory → t'.node? p = some .directory)
    (h : t.follow here parts = .ok there) : t'.follow here parts = .ok there := by
  induction parts generalizing here with
  | nil => exact h
  | cons part parts ih =>
    rw [follow] at h ⊢
    cases hnode : t.node? here with
    | none =>
      rw [hnode] at h
      cases h
    | some node =>
      rw [hnode] at h
      cases node with
      | file contents => cases h
      | directory =>
        rw [hdirectories here hnode]
        simp only at h ⊢
        split at h
        · rename_i hdot
          rw [if_pos hdot]
          exact ih h
        · rename_i hdot
          rw [if_neg hdot]
          split at h
          · rename_i hup
            rw [if_pos hup]
            exact ih h
          · rename_i hup
            rw [if_neg hup]
            exact ih h

theorem follow_name {name : String} (hnode : t.node? here = some .directory) (hempty : name ≠ "")
    (hdot : name ≠ ".") (hup : name ≠ "..") : t.follow here [name] = .ok (here ++ [name]) := by
  simp only [follow, hnode]
  rw [if_neg (not_or.2 ⟨hempty, hdot⟩), if_neg hup]

/-! ## Contents at a place -/

variable {p place directory : FilePath} {contents : ByteArray}

theorem lookup_insert_self : (t.insert p contents).files.lookup p = some contents := by
  have hnone : (t.files.filter (·.1 != p)).lookup p = none := by
    rw [List.lookup_eq_none_iff]
    intro f hf
    rw [bne_comm]
    exact (List.mem_filter.1 hf).2
  rw [insert, List.lookup_append, hnone]
  simp

theorem lookup_filter_of_ne {files : List (FilePath × ByteArray)} (h : p ≠ place) :
    (files.filter (·.1 != place)).lookup p = files.lookup p := by
  induction files with
  | nil => rfl
  | cons f files ih =>
    obtain ⟨q, bytes⟩ := f
    by_cases hq : q = place
    · subst hq
      rw [List.filter_cons_of_neg (by simp), ih, List.lookup_cons, beq_eq_false_iff_ne.2 h]
    · rw [List.filter_cons_of_pos (by simpa using hq), List.lookup_cons, List.lookup_cons, ih]

theorem lookup_insert_of_ne (h : p ≠ place) :
    (t.insert place contents).files.lookup p = t.files.lookup p := by
  rw [insert, List.lookup_append, lookup_filter_of_ne h, List.lookup_cons,
    beq_eq_false_iff_ne.2 h]
  simp

theorem node?_insert_self : (t.insert p contents).node? p = some (.file contents) := by
  rw [node?, lookup_insert_self]

/-- A place is the root, or a file is there or below it. -/
def Reaches (t : FileTree) (p : FilePath) : Prop := p = [] ∨ ∃ f ∈ t.files, p <+: f.1

theorem reaches_iff :
    (p.isEmpty || t.files.any (fun f => p.isPrefixOf f.1)) = true ↔ t.Reaches p := by
  simp only [Bool.or_eq_true, List.isEmpty_iff, List.any_eq_true, List.isPrefixOf_iff_prefix,
    Reaches]

theorem reaches_of_node? (h : t.node? p = some .directory) : t.Reaches p := by
  rw [node?] at h
  split at h
  · cases h
  · split at h
    · rename_i hreaches
      exact reaches_iff.1 hreaches
    · cases h

theorem Reaches.mono {q : FilePath} (h : t.Reaches q) (hp : p <+: q) : t.Reaches p := by
  rcases h with rfl | ⟨f, hf, hq⟩
  · exact .inl (List.prefix_nil.1 hp)
  · exact .inr ⟨f, hf, hp.trans hq⟩

theorem reaches_insert_iff : (t.insert place contents).Reaches p ↔ t.Reaches p ∨ p <+: place := by
  constructor
  · rintro (hroot | ⟨f, hf, hp⟩)
    · exact .inl (.inl hroot)
    · rcases List.mem_append.1 hf with hf | hf
      · exact .inl (.inr ⟨f, (List.mem_filter.1 hf).1, hp⟩)
      · obtain rfl := List.mem_singleton.1 hf
        exact .inr hp
  · have hnew : p <+: place → (t.insert place contents).Reaches p :=
      fun hp => .inr ⟨(place, contents), List.mem_append_right _ List.mem_cons_self, hp⟩
    rintro ((hroot | ⟨f, hf, hp⟩) | hp)
    · exact .inl hroot
    · by_cases hplace : f.1 = place
      · exact hnew (hplace ▸ hp)
      · exact .inr ⟨f, List.mem_append_left _ (List.mem_filter.2 ⟨hf, by simpa using hplace⟩), hp⟩
    · exact hnew hp

/-- A place is what it was if its file is, and what it reaches. -/
theorem node?_congr (hlookup : t.files.lookup p = t'.files.lookup p)
    (hreaches : t.Reaches p ↔ t'.Reaches p) : t.node? p = t'.node? p := by
  have hbelow : (p.isEmpty || t.files.any (fun f => p.isPrefixOf f.1)) =
      (p.isEmpty || t'.files.any (fun f => p.isPrefixOf f.1)) := by
    rw [Bool.eq_iff_iff, reaches_iff, reaches_iff, hreaches]
  rw [node?, node?, hlookup, hbelow]

/-- New contents in a directory change nothing at other places. -/
theorem node?_insert_of_ne {parent : FilePath} {name : String}
    (hparent : t.node? parent = some .directory) (h : p ≠ parent ++ [name]) :
    (t.insert (parent ++ [name]) contents).node? p = t.node? p := by
  refine node?_congr (lookup_insert_of_ne h) (reaches_insert_iff.trans (or_iff_left_of_imp ?_))
  intro hp
  -- What is on the way to the new file is on the way to its directory, which was there.
  have hprefix : p <+: parent := (List.prefix_concat_iff.1 hp).resolve_left h
  exact (reaches_of_node? hparent).mono hprefix

theorem start_nil (parts : List String) : start [] parts = [] := ite_self _

theorem resolve_eq_ok_iff {path : String} : t.resolve path directory = .ok place ↔
    pathParts path ≠ [""] ∧
      t.follow (start directory (pathParts path)) (pathParts path) = .ok place := by
  rw [resolve]
  by_cases hempty : pathParts path = [""] <;> simp [hempty]

/-- A dot behind a path leads nowhere else. -/
theorem follow_dot (hthere : t.follow here ["."] = .ok there) : there = here := by
  rw [follow] at hthere
  split at hthere
  · cases hthere
  · cases hthere
  · rw [if_pos (.inr rfl)] at hthere
    cases hthere
    rfl

/-- The place of a path is below that of the directory before its last name. -/
theorem resolve_of_parent {path name : String} {before : List String} {parent : FilePath}
    (hparts : pathParts path = before ++ [name]) (hempty : name ≠ "") (hdot : name ≠ ".")
    (hup : name ≠ "..")
    (hparent : t.resolve (String.intercalate "/" (before ++ ["."])) directory = .ok parent)
    (hnode : t.node? parent = some .directory) :
    t.resolve path directory = .ok (parent ++ [name]) := by
  have hslash : ∀ x ∈ before ++ ["."], '/' ∉ x.toList := by
    intro x hx
    rcases List.mem_append.1 hx with hx | hx
    · exact slash_not_mem_of_mem_pathParts (hparts ▸ List.mem_append_left _ hx)
    · obtain rfl := List.mem_singleton.1 hx
      decide
  -- The directory is looked up with a dot behind it, which is no part of the way.
  have hdotted : pathParts (String.intercalate "/" (before ++ ["."])) = before ++ ["."] := by
    cases before with
    | nil => exact pathParts_intercalate hslash
    | cons part parts => exact pathParts_intercalate hslash
  -- Both paths start at the same place.
  have hstart : start directory (before ++ ["."]) = start directory (before ++ [name]) := by
    cases before with
    | nil => simp [start, hempty]
    | cons part parts => rfl
  rw [resolve_eq_ok_iff, hdotted, hstart, follow_append, bind_eq_ok_iff] at hparent
  obtain ⟨_, there, hbefore, hthere⟩ := hparent
  obtain rfl := follow_dot hthere
  refine resolve_eq_ok_iff.2 ⟨?_, ?_⟩
  · rw [hparts]
    cases before with
    | nil => simpa using hempty
    | cons part parts => simp
  · rw [hparts, follow_append, hbefore]
    exact follow_name hnode hempty hdot hup

/-- A path names what it named where all directories are still there. -/
theorem resolve_of_directories {path : String}
    (hdirectories : ∀ p, t.node? p = some .directory → t'.node? p = some .directory)
    (h : t.resolve path directory = .ok place) : t'.resolve path directory = .ok place := by
  rw [resolve_eq_ok_iff] at h ⊢
  exact ⟨h.1, follow_of_directories hdirectories h.2⟩

/-! ## Writes -/

/-- A write that does not fail puts its text below a directory, where none is. -/
theorem exists_target_of_write {path text : String} (h : t.write path text directory = .ok t') :
    ∃ parent name, t.node? parent = some .directory ∧
      t.node? (parent ++ [name]) ≠ some .directory ∧
      t.resolve path directory = .ok (parent ++ [name]) ∧
      t' = t.insert (parent ++ [name]) text.toUTF8 := by
  rw [write] at h
  split at h
  · cases h
  rcases hsplit : splitTarget path with ⟨before, name, slashed⟩
  rw [hsplit] at h
  obtain ⟨parent, hparent, hput⟩ := bind_eq_ok_iff.1 h
  cases hnode : t.node? parent with
  | none =>
    rw [hnode] at hput
    cases hput
  | some node =>
    rw [hnode] at hput
    cases node with
    | file contents => cases hput
    | directory =>
      simp only at hput
      split at hput
      · cases hput
      · rename_i hname
        obtain ⟨hdot, hup, hslashed⟩ : name ≠ "." ∧ name ≠ ".." ∧ slashed = false := by
          simpa [not_or] using hname
        subst hslashed
        obtain ⟨hparts, hempty⟩ := pathParts_of_splitTarget hsplit
        have hpath := resolve_of_parent hparts hempty hdot hup hparent hnode
        refine ⟨parent, name, hnode, ?_, hpath, ?_⟩
        · intro hdirectory
          rw [hdirectory] at hput
          cases hput
        · split at hput
          · cases hput
          · cases hput
            rfl

theorem textOfBytes_toUTF8 (text : String) : textOfBytes text.toUTF8 = .ok text := by
  have hutf8 : String.fromUTF8? text.toUTF8 = some text := dif_pos text.isValidUTF8
  rw [textOfBytes, hutf8]

theorem read_of_node? {path text : String} (hpath : t.resolve path directory = .ok place)
    (hnode : t.node? place = some (.file text.toUTF8)) : t.read path directory = .ok text := by
  refine bind_eq_ok_iff.2 ⟨place, hpath, ?_⟩
  rw [readAt, hnode]
  exact textOfBytes_toUTF8 text

/-- A text has been written to a path, seen from a directory: it is read there now, and at
all places but the one of the path is what was there before. -/
structure Written (t : FileTree) (directory : FilePath) (path text : String) (t' : FileTree) :
    Prop where
  read : t'.read path directory = .ok text
  exists_place : ∃ place, t.resolve path directory = .ok place ∧
    t'.resolve path directory = .ok place ∧ ∀ p, p ≠ place → t'.node? p = t.node? p

theorem written_of_write {path text : String} (h : t.write path text directory = .ok t') :
    t.Written directory path text t' := by
  obtain ⟨parent, name, hparent, htarget, hpath, rfl⟩ := exists_target_of_write h
  have hothers : ∀ p, p ≠ parent ++ [name] →
      (t.insert (parent ++ [name]) text.toUTF8).node? p = t.node? p :=
    fun p hp => node?_insert_of_ne hparent hp
  have hpath' : (t.insert (parent ++ [name]) text.toUTF8).resolve path directory =
      .ok (parent ++ [name]) := by
    refine resolve_of_directories (fun p hp => ?_) hpath
    rw [hothers p fun heq => htarget (heq ▸ hp), hp]
  exact ⟨read_of_node? hpath' node?_insert_self, _, hpath, hpath', hothers⟩

end FileTree

end InterfaceSchema
