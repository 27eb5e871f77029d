import InterfaceSchema.Proofs.Equality
import InterfaceSchema.Schema.Json
import Mathlib.Data.List.Forall2

/-!
# Schemas from their JSON form

Two JSON values are the same (`Json.Same`) if they differ in the order of members only.
From a value that is the same as the form of a node, reading recovers the node without
its places: there is one lemma `ofJson?_of_same` for each kind of node, and where nodes
of several kinds may stand, the member `_type` tells which it is. So the form of a
schema loses nothing but its places (`Program.toJson_same_iff`).
-/

namespace InterfaceSchema

namespace Json

/-- The values are the same but for the order of the members in objects. -/
inductive Same : Json → Json → Prop where
  | null : Same .null .null
  | bool (b : Bool) : Same (.bool b) (.bool b)
  | number (n : Nat) : Same (.number n) (.number n)
  | string (s : String) : Same (.string s) (.string s)
  | array {js ks : List Json} : List.Forall₂ Same js ks → Same (.array js) (.array ks)
  | object {ms ns : List (String × Json)} :
    (∀ key, Option.Rel Same (ms.lookup key) (ns.lookup key)) → Same (.object ms) (.object ns)

theorem Same.refl : ∀ j : Json, j.Same j
  | .null => .null
  | .bool b => .bool b
  | .number n => .number n
  | .string s => .string s
  | .array js => .array (List.forall₂_same.2 fun j _ => Same.refl j)
  | .object ms => by
    refine .object fun key => ?_
    cases h : ms.lookup key with
    | none => exact .none
    | some v =>
      have := sizeOf_lt_of_lookup h
      exact .some (Same.refl v)
termination_by j => sizeOf j

variable {i j v : Json} {key : String} {α β : Type}

theorem Same.field? (h : i.Same j) (key : String) :
    Option.Rel Same (i.field? key) (j.field? key) := by
  cases h with
  | object h => exact h key
  | _ => exact .none

theorem Same.exists_field? (h : i.Same j) (hv : i.field? key = some v) :
    ∃ w, j.field? key = some w ∧ v.Same w := by
  have hrel := h.field? key
  rw [hv] at hrel
  cases hw : j.field? key with
  | none =>
    rw [hw] at hrel
    cases hrel
  | some w =>
    rw [hw] at hrel
    cases hrel with
    | some hsame => exact ⟨w, rfl, hsame⟩

theorem Same.field_of_none (h : i.Same j) (hv : i.field? key = none) : j.field key = .null := by
  have hrel := h.field? key
  rw [hv] at hrel
  rw [field]
  cases hw : j.field? key with
  | none => rfl
  | some w =>
    rw [hw] at hrel
    cases hrel

theorem Same.eq_string {s : String} (h : (Json.string s).Same j) : j = .string s := by
  cases h
  rfl

theorem Same.eq_null (h : i.Same .null) : i = .null := by
  cases h
  rfl

/-! ## Reading what is the same -/

theorem Same.kind? {kind : String} (h : i.Same j) (hi : i.kind? = some kind) :
    j.kind? = some kind := by
  obtain ⟨t, ht, hkind⟩ := Option.bind_eq_some_iff.1 hi
  obtain ⟨w, hw, hsame⟩ := h.exists_field? ht
  cases t with
  | string s =>
    rw [Json.kind?, hw, hsame.eq_string]
    exact hkind
  | _ => cases hkind

theorem Same.guard_kind? {kind : String} (h : i.Same j) (hi : i.kind? = some kind) :
    (guard (j.kind? = some kind) : Option Unit) = some () :=
  if_pos (h.kind? hi)

theorem Same.bind_field? {read : Json → Option β} {b : β} (h : i.Same j)
    (hv : i.field? key = some v) (hread : ∀ w, v.Same w → read w = some b) :
    j.field? key >>= read = some b := by
  obtain ⟨w, hw, hsame⟩ := h.exists_field? hv
  rw [hw]
  exact hread w hsame

theorem Same.bind_string? {s : String} (h : i.Same j) (hv : i.field? key = some (.string s)) :
    j.field? key >>= string? = some s :=
  h.bind_field? hv fun w hw => by rw [hw.eq_string]; rfl

theorem Same.option? {read : Json → Option β} {toJson : α → Json} {f : α → β} {o : Option α}
    (h : i.Same j) (hv : i.field? key = some (.ofOption toJson o)) (hnull : ∀ a, toJson a ≠ .null)
    (hread : ∀ a w, (toJson a).Same w → read w = some (f a)) :
    (j.field key).option? read = some (o.map f) := by
  obtain ⟨w, hw, hsame⟩ := h.exists_field? hv
  rw [field, hw, Option.getD_some]
  cases o with
  | none =>
    cases hsame
    rfl
  | some a =>
    have hsome : w.option? read = some <$> read w := by
      cases w with
      | null => exact absurd (Same.eq_null hsame) (hnull a)
      | _ => rfl
    rw [hsome, hread a w hsame]
    rfl

theorem Same.mapM {read : Json → Option β} {toJson : α → Json} {f : α → β} {xs : List α}
    (h : (Json.array (xs.map toJson)).Same j)
    (hread : ∀ x ∈ xs, ∀ w, (toJson x).Same w → read w = some (f x)) :
    j.array? >>= List.mapM read = some (xs.map f) := by
  cases h with
  | @array _ ks h =>
    show ks.mapM read = some (xs.map f)
    induction xs generalizing ks with
    | nil =>
      cases h
      rfl
    | cons x xs ih =>
      cases h with
      | @cons _ k _ ks hx hxs =>
        obtain ⟨hreadx, hreadxs⟩ := List.forall_mem_cons.1 hread
        rw [List.mapM_cons, hreadx k hx, ih hreadxs hxs]
        rfl

end Json

open Json

variable {j : Json}

theorem Identifier.ofJson?_of_same {id : Identifier} (h : id.toJson.Same j) :
    Identifier.ofJson? j = some id.unplaced := by
  have hname : j.field? "name" >>= string? = some id.name := h.bind_string? rfl
  have hspan : j.field "span" = .null := h.field_of_none rfl
  rw [ofJson?, h.guard_kind? rfl]
  simp [hname, hspan, Json.option?, unplaced]

theorem Identifier.listOfJson?_of_same {ids : List Identifier}
    (h : (Identifier.listToJson ids).Same j) :
    Identifier.listOfJson? j = some (ids.map Identifier.unplaced) :=
  h.mapM fun _ _ _ hw => Identifier.ofJson?_of_same hw

theorem Operator.ofSymbol?_symbol (op : Operator) : Operator.ofSymbol? op.symbol = some op := by
  cases op <;> rfl

theorem RelationKind.ofKeyword?_keyword (kind : RelationKind) :
    RelationKind.ofKeyword? kind.keyword = some kind := by
  cases kind <;> rfl

theorem Expr.ofJson?_of_same {e : Expr} (h : e.toJson.Same j) :
    Expr.ofJson? j = some e.unplaced := by
  induction e generalizing j with
  | name id =>
    have hkind : j.kind? = some "Identifier" := h.kind? rfl
    rw [ofJson?, if_neg (by rw [hkind]; decide), Identifier.ofJson?_of_same h]
    rfl
  | binary op left right ihl ihr =>
    have hkind : j.kind? = some "BinaryExpression" := h.kind? rfl
    obtain ⟨l, hl, hleft⟩ : ∃ l, j.field? "left" = some l ∧ left.toJson.Same l :=
      h.exists_field? rfl
    obtain ⟨r, hr, hright⟩ : ∃ r, j.field? "right" = some r ∧ right.toJson.Same r :=
      h.exists_field? rfl
    have hop : j.field? "op" >>= string? = some op.symbol := h.bind_string? rfl
    rw [ofJson?, if_pos hkind]
    split
    · rename_i l' r' hl' hr'
      obtain rfl : l = l' := Option.some.inj (hl.symm.trans hl')
      obtain rfl : r = r' := Option.some.inj (hr.symm.trans hr')
      simp [hop, Operator.ofSymbol?_symbol, ihl hleft, ihr hright, unplaced]
    · rename_i hnone
      exact absurd hr (hnone l r hl)

theorem Expr.exists_kind (e : Expr) :
    ∃ kind, some kind ≠ some "DefinitionStatement" ∧ e.toJson.kind? = some kind := by
  cases e with
  | name id => exact ⟨"Identifier", by decide, rfl⟩
  | binary op left right => exact ⟨"BinaryExpression", by decide, rfl⟩

theorem Expr.toJson_ne_null (e : Expr) : e.toJson ≠ .null := by
  cases e <;> exact Json.noConfusion

theorem WithExpr.ofJson?_of_same {w : WithExpr} (h : w.toJson.Same j) :
    WithExpr.ofJson? j = some w.unplaced := by
  have hleft : j.field? "left" >>= Expr.ofJson? = some w.left.unplaced :=
    h.bind_field? rfl fun _ => Expr.ofJson?_of_same
  have hright : (j.field "right").option? Expr.ofJson? = some (w.right.map Expr.unplaced) :=
    h.option? rfl Expr.toJson_ne_null fun _ _ => Expr.ofJson?_of_same
  rw [ofJson?, h.guard_kind? rfl]
  simp [hleft, hright, unplaced]

theorem Decorator.ofJson?_of_same {d : Decorator} (h : d.toJson.Same j) :
    Decorator.ofJson? j = some d.unplaced := by
  cases d with
  | tag id =>
    have hkind : j.kind? = some "Identifier" := h.kind? rfl
    rw [ofJson?, if_neg (by rw [hkind]; decide), Identifier.ofJson?_of_same h]
    rfl
  | call template args =>
    have hkind : j.kind? = some "PatternCall" := h.kind? rfl
    have htemplate : j.field? "name" >>= Identifier.ofJson? = some template.unplaced :=
      h.bind_field? rfl fun _ => Identifier.ofJson?_of_same
    have hargs : j.field? "args" >>= Identifier.listOfJson? = some (args.map Identifier.unplaced) :=
      h.bind_field? rfl fun _ => Identifier.listOfJson?_of_same
    simp [ofJson?, hkind, htemplate, hargs, unplaced]

theorem Definition.ofJson?_of_same {d : Definition} (h : d.toJson.Same j) :
    Definition.ofJson? j = some d.unplaced := by
  have hdecorators : (j.field? "decorators" >>= Json.array? >>= List.mapM Decorator.ofJson?) =
      some (d.decorators.map Decorator.unplaced) := by
    rw [bind_assoc]
    exact h.bind_field? rfl fun _ hw => hw.mapM fun _ _ _ => Decorator.ofJson?_of_same
  have hname : j.field? "name" >>= Identifier.ofJson? = some d.id.unplaced :=
    h.bind_field? rfl fun _ => Identifier.ofJson?_of_same
  rw [ofJson?, h.guard_kind? rfl, hdecorators, hname]
  rfl

/-- An operand is a definition or an expression, by its kind. -/
theorem Operand.ofJson?_of_same {o : Operand} (h : o.toJson.Same j) :
    Operand.ofJson? j = some o.unplaced := by
  cases o with
  | definition d =>
    have hkind : j.kind? = some "DefinitionStatement" := h.kind? rfl
    rw [ofJson?, if_pos hkind, Definition.ofJson?_of_same h]
    rfl
  | expr e =>
    obtain ⟨kind, hne, hkind⟩ := e.exists_kind
    rw [ofJson?, if_neg (by rw [h.kind? hkind]; exact hne), Expr.ofJson?_of_same h]
    rfl

theorem Header.ofJson?_of_same {header : Header} {body : List Statement}
    (h : (Statement.template header body).toJson.Same j) :
    Header.ofJson? j = some header.unplaced := by
  have hname : j.field? "name" >>= Identifier.ofJson? = some header.id.unplaced :=
    h.bind_field? rfl fun _ => Identifier.ofJson?_of_same
  have hparams : (j.field "args").option? Identifier.listOfJson? =
      some (header.params.map (·.map Identifier.unplaced)) :=
    h.option? rfl (fun _ => Json.noConfusion) fun _ _ => Identifier.listOfJson?_of_same
  have hbase : (j.field "extends").option? Identifier.ofJson? =
      some (header.base.map Identifier.unplaced) :=
    h.option? rfl (fun _ => Json.noConfusion) fun _ _ => Identifier.ofJson?_of_same
  simp [ofJson?, hname, hparams, hbase, unplaced]

theorem Statement.simpleOfJson?_of_same {s : Statement} (hs : s.template? = none)
    (h : s.toJson.Same j) : Statement.simpleOfJson? j = some s.unplaced := by
  cases s with
  | relation left kind right =>
    have hkind : j.kind? = some "BinaryRelation" := h.kind? rfl
    have hleft : j.field? "left" >>= Operand.ofJson? = some left.unplaced :=
      h.bind_field? rfl fun _ => Operand.ofJson?_of_same
    have hright : j.field? "right" >>= Expr.ofJson? = some right.unplaced :=
      h.bind_field? rfl fun _ => Expr.ofJson?_of_same
    have hword : j.field? "relation" >>= string? = some kind.keyword := h.bind_string? rfl
    simp [simpleOfJson?, hkind, hleft, hright, hword, RelationKind.ofKeyword?_keyword, unplaced]
  | cover left middle right =>
    have hkind : j.kind? = some "CoverRelation" := h.kind? rfl
    have hleft : j.field? "left" >>= Operand.ofJson? = some left.unplaced :=
      h.bind_field? rfl fun _ => Operand.ofJson?_of_same
    have hmiddle : j.field? "middle" >>= Expr.ofJson? = some middle.unplaced :=
      h.bind_field? rfl fun _ => Expr.ofJson?_of_same
    have hright : j.field? "right" >>= Expr.ofJson? = some right.unplaced :=
      h.bind_field? rfl fun _ => Expr.ofJson?_of_same
    simp [simpleOfJson?, hkind, hleft, hmiddle, hright, unplaced]
  | represents view data shape =>
    have hkind : j.kind? = some "RepresentsRelation" := h.kind? rfl
    have hview : j.field? "view" >>= Operand.ofJson? = some view.unplaced :=
      h.bind_field? rfl fun _ => Operand.ofJson?_of_same
    have hdata : j.field? "data" >>= WithExpr.ofJson? = some data.unplaced :=
      h.bind_field? rfl fun _ => WithExpr.ofJson?_of_same
    have hshape : (j.field "structure").option? WithExpr.ofJson? =
        some (shape.map WithExpr.unplaced) :=
      h.option? rfl (fun _ => Json.noConfusion) fun _ _ => WithExpr.ofJson?_of_same
    simp [simpleOfJson?, hkind, hview, hdata, hshape, unplaced]
  | template header body => cases hs
  | definition d =>
    have hkind : j.kind? = some "DefinitionStatement" := h.kind? rfl
    simp [simpleOfJson?, hkind, Definition.ofJson?_of_same h, unplaced]
  | term e =>
    have hkind : j.kind? = some "ExpressionStatement" := h.kind? rfl
    have hexpr : j.field? "expression" >>= Expr.ofJson? = some e.unplaced :=
      h.bind_field? rfl fun _ => Expr.ofJson?_of_same
    simp [simpleOfJson?, hkind, hexpr, unplaced]

theorem Statement.exists_kind {s : Statement} (hs : s.template? = none) :
    ∃ kind, some kind ≠ some "PatternStatement" ∧ s.toJson.kind? = some kind := by
  cases s with
  | relation left kind right => exact ⟨"BinaryRelation", by decide, rfl⟩
  | cover left middle right => exact ⟨"CoverRelation", by decide, rfl⟩
  | represents view data shape => exact ⟨"RepresentsRelation", by decide, rfl⟩
  | template header body => cases hs
  | definition d => exact ⟨"DefinitionStatement", by decide, rfl⟩
  | term e => exact ⟨"ExpressionStatement", by decide, rfl⟩

theorem Statement.ofJson?_of_same_simple {s : Statement} (hs : s.template? = none)
    (h : s.toJson.Same j) : Statement.ofJson? j = some s.unplaced := by
  obtain ⟨kind, hne, hkind⟩ := exists_kind hs
  rw [ofJson?, if_neg (by rw [h.kind? hkind]; exact hne), simpleOfJson?_of_same hs h]

mutual
theorem Statement.ofJson?_of_same : ∀ {s : Statement} {j : Json}, s.toJson.Same j →
    Statement.ofJson? j = some s.unplaced
  | .template header body, j, h => by
    have hkind : j.kind? = some "PatternStatement" := h.kind? rfl
    obtain ⟨w, hw, hsame⟩ :
        ∃ w, j.field? "statements" = some w ∧ (Json.array (Statement.listToJson body)).Same w :=
      h.exists_field? rfl
    rw [ofJson?, if_pos hkind]
    cases hsame with
    | @array _ ks hbody =>
      split
      · rename_i items hitems
        obtain rfl : ks = items := Json.array.inj (Option.some.inj (hw.symm.trans hitems))
        simp [Header.ofJson?_of_same h, Statement.listOfJson?_of_same hbody, unplaced]
      · rename_i hnone
        exact absurd hw (hnone ks)
  | .relation _ _ _, _, h => ofJson?_of_same_simple rfl h
  | .cover _ _ _, _, h => ofJson?_of_same_simple rfl h
  | .represents _ _ _, _, h => ofJson?_of_same_simple rfl h
  | .definition _, _, h => ofJson?_of_same_simple rfl h
  | .term _, _, h => ofJson?_of_same_simple rfl h

theorem Statement.listOfJson?_of_same : ∀ {ss : List Statement} {js : List Json},
    List.Forall₂ Json.Same (Statement.listToJson ss) js →
    Statement.listOfJson? js = some (Statement.unplacedAll ss)
  | [], _, .nil => by rw [listOfJson?, unplacedAll]
  | s :: ss, j :: js, .cons hs hss => by
    rw [listOfJson?, Statement.ofJson?_of_same hs, Statement.listOfJson?_of_same hss]
    rfl
end

theorem Program.ofJson?_of_same {p : Program} (h : p.toJson.Same j) :
    Program.ofJson? j = some p.unplaced := by
  obtain ⟨w, hw, hsame⟩ :
      ∃ w, j.field? "statements" = some w ∧ (Json.array (Statement.listToJson p.statements)).Same w :=
    h.exists_field? rfl
  cases hsame with
  | @array _ ks hstatements =>
    rw [ofJson?, h.guard_kind? rfl]
    simp [hw, Json.array?, Statement.listOfJson?_of_same hstatements, unplaced]

/-! ## What the form does not show -/

theorem Identifier.listToJson_unplaced (ids : List Identifier) :
    Identifier.listToJson (ids.map Identifier.unplaced) = Identifier.listToJson ids := by
  rw [listToJson, List.map_map]
  rfl

theorem Json.ofOption_map {α β : Type} {toJson : β → Json} {toJson' : α → Json} {f : α → β}
    (h : ∀ a, toJson (f a) = toJson' a) (o : Option α) :
    Json.ofOption toJson (o.map f) = Json.ofOption toJson' o := by
  cases o with
  | none => rfl
  | some a => exact h a

theorem Expr.toJson_unplaced (e : Expr) : e.unplaced.toJson = e.toJson := by
  induction e with
  | name id => rfl
  | binary op left right ihl ihr => rw [unplaced, toJson, ihl, ihr, toJson]

theorem WithExpr.toJson_unplaced (w : WithExpr) : w.unplaced.toJson = w.toJson := by
  rw [unplaced, toJson, toJson, Expr.toJson_unplaced, Json.ofOption_map Expr.toJson_unplaced]

theorem Decorator.toJson_unplaced (d : Decorator) : d.unplaced.toJson = d.toJson := by
  cases d with
  | tag id => rfl
  | call template args =>
    rw [unplaced, toJson, toJson, Identifier.listToJson_unplaced]
    rfl

theorem Definition.toJson_unplaced (d : Definition) : d.unplaced.toJson = d.toJson := by
  have hdecorators : (d.decorators.map Decorator.unplaced).map Decorator.toJson =
      d.decorators.map Decorator.toJson := by
    rw [List.map_map]
    exact List.map_congr_left fun dec _ => dec.toJson_unplaced
  rw [unplaced, toJson, hdecorators]
  rfl

theorem Operand.toJson_unplaced (o : Operand) : o.unplaced.toJson = o.toJson := by
  cases o with
  | definition d => exact d.toJson_unplaced
  | expr e => exact e.toJson_unplaced

mutual
theorem Statement.toJson_unplaced : ∀ s : Statement, s.unplaced.toJson = s.toJson
  | .relation left kind right => by
    rw [unplaced, toJson, toJson, Operand.toJson_unplaced, Expr.toJson_unplaced]
  | .cover left middle right => by
    rw [unplaced, toJson, toJson, Operand.toJson_unplaced, Expr.toJson_unplaced,
      Expr.toJson_unplaced]
  | .represents view data shape => by
    rw [unplaced, toJson, toJson, Operand.toJson_unplaced, WithExpr.toJson_unplaced,
      Json.ofOption_map WithExpr.toJson_unplaced]
  | .template header body => by
    rw [unplaced, toJson, toJson, Statement.listToJson_unplacedAll, Header.unplaced,
      Json.ofOption_map Identifier.listToJson_unplaced, Json.ofOption_map fun _ => rfl]
    rfl
  | .definition d => d.toJson_unplaced
  | .term e => by rw [unplaced, toJson, toJson, Expr.toJson_unplaced]

theorem Statement.listToJson_unplacedAll : ∀ ss : List Statement,
    Statement.listToJson (Statement.unplacedAll ss) = Statement.listToJson ss
  | [] => rfl
  | s :: ss => by
    rw [unplacedAll, listToJson, listToJson, Statement.toJson_unplaced,
      Statement.listToJson_unplacedAll]
end

theorem Program.toJson_unplaced (p : Program) : p.unplaced.toJson = p.toJson := by
  rw [unplaced, toJson, toJson, Statement.listToJson_unplacedAll]

/-- The forms of two programs are the same values, and equal, exactly if the programs
are equal. From its form each program is read back with all places empty. -/
theorem Program.toJson_same_iff (p q : Program) :
    (p.toJson.Same q.toJson ↔ (p == q) = true) ∧ (p.toJson = q.toJson ↔ (p == q) = true) ∧
      Program.ofJson? p.toJson = some p.unplaced := by
  have hread (p : Program) : Program.ofJson? p.toJson = some p.unplaced := ofJson?_of_same (.refl _)
  have hform (h : (p == q) = true) : p.toJson = q.toJson := by
    rw [← p.toJson_unplaced, Program.beq_iff.1 h, q.toJson_unplaced]
  have hsame (h : p.toJson.Same q.toJson) : (p == q) = true :=
    Program.beq_iff.2 (Option.some.inj ((ofJson?_of_same h).symm.trans (hread q)))
  exact ⟨⟨hsame, fun h => hform h ▸ .refl _⟩, ⟨fun h => hsame (h ▸ .refl _), hform⟩, hread p⟩

end InterfaceSchema
