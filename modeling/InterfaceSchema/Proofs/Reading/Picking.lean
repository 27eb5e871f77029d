import InterfaceSchema.Proofs.Reading.Tiling
import InterfaceSchema.Schema.Reader

/-!
# Places of identifiers

`Rule.Picks` says which words a rule has made identifiers of, among those of the
tokens it has read: no identifier is made of anything else, and they keep the order
and the spans of the words. So the identifiers of a program that is read, listed in
reading order, stand in the text one behind the other, each where its span says
(`Program.covers_of_ofText`).
-/

namespace InterfaceSchema

/-- The identifier that a word stands for. -/
def Token.identifier? : Token → Option Identifier
  | ⟨.word name, span⟩ => some ⟨name, span⟩
  | _ => none

/-- Whenever the rule gives a value, it has read tokens, and identifiers with `P` are
among the words of these, in their order. -/
def Rule.Picks {α : Type} (r : Rule α) (P : α → List Identifier → Prop) : Prop :=
  ∀ ⦃ts a rest⦄, r ts = .ok a rest →
    ∃ us ids, ts = us ++ rest ∧ ids.Sublist (us.filterMap Token.identifier?) ∧ P a ids

namespace Rule

variable {α β σ : Type} {P : α → List Identifier → Prop} {Q : β → List Identifier → Prop}

namespace Picks

theorem bind {r : Rule α} {f : α → Rule β} (hr : r.Picks P)
    (hf : ∀ a is, P a is → (f a).Picks fun b js => Q b (is ++ js)) : (r >>= f).Picks Q := by
  intro ts b rest h
  obtain ⟨a, mid, ha, hb⟩ := bind_eq_ok h
  obtain ⟨us, is, rfl, hus, hP⟩ := hr ha
  obtain ⟨vs, js, rfl, hvs, hQ⟩ := hf a is hP hb
  refine ⟨us ++ vs, is ++ js, (List.append_assoc _ _ _).symm, ?_, hQ⟩
  rw [List.filterMap_append]
  exact hus.append hvs

theorem pure {a : α} (h : P a []) : (pure a : Rule α).Picks P := by
  intro ts b rest h'
  cases h'
  exact ⟨[], [], rfl, .slnil, h⟩

theorem throw (e : SyntaxError) : (throw e : Rule α).Picks P := by
  intro ts b rest h
  cases h

theorem imp {P' : α → List Identifier → Prop} {r : Rule α} (h : r.Picks P)
    (hP : ∀ a ids, P a ids → P' a ids) : r.Picks P' := by
  intro ts a rest ha
  obtain ⟨us, ids, hts, hus, hPa⟩ := h ha
  exact ⟨us, ids, hts, hus, hP a ids hPa⟩

theorem map {r : Rule α} {f : α → β} (h : r.Picks fun a ids => Q (f a) ids) :
    (f <$> r).Picks Q := by
  rw [map_eq_pure_bind]
  exact h.bind fun a ids ha => pure (by rwa [List.append_nil])

theorem none {r : Rule α} (h : ∀ {ts a rest}, r ts = .ok a rest → rest <:+ ts) :
    r.Picks fun _ ids => ids = [] := by
  intro ts a rest ha
  obtain ⟨us, rfl⟩ := h ha
  exact ⟨us, [], rfl, List.nil_sublist _, rfl⟩

theorem get : (get : Rule (List Token)).Picks fun _ ids => ids = [] :=
  none fun h => by cases h; exact List.suffix_rfl

/-- What a loop has picked is what its steps have picked, one after the other. -/
theorem iterate {step : σ → Rule (σ ⊕ α)} (shrinks : ∀ {s ts s' rest},
      step s ts = .ok (.inl s') rest → rest.length < ts.length) {f : σ → List Identifier}
    {g : α → List Identifier}
    (hstep : ∀ s, (step s).Picks fun x ids => Sum.elim f g x = f s ++ ids) (s : σ) :
    Rule.Picks (Rule.iterate step shrinks s) fun a ids => g a = f s ++ ids := by
  intro ts a rest ha
  fun_induction Rule.iterate step shrinks s ts
  case case1 hs ih =>
    obtain ⟨us, is, rfl, hus, hf⟩ := hstep _ hs
    obtain ⟨vs, js, rfl, hvs, hg⟩ := ih ha
    refine ⟨us ++ vs, is ++ js, (List.append_assoc _ _ _).symm, ?_, ?_⟩
    · rw [List.filterMap_append]
      exact hus.append hvs
    · show g a = f _ ++ (is ++ js)
      rw [hg, show f _ = f _ ++ is from hf, List.append_assoc]
  case case2 hs =>
    cases ha
    exact hstep _ hs
  case case3 => cases ha

end Picks

end Rule

namespace Reader

open Rule

/-! ## Rules of one line -/

theorem picks_fail {α : Type} {P : α → List Identifier → Prop} (expected : String) :
    (fail expected : Rule α).Picks P := by
  intro ts a rest h
  cases h

theorem picks_nextIs (l : Lexeme) : (nextIs l).Picks fun _ ids => ids = [] :=
  .none fun h => by cases h; exact List.suffix_rfl

theorem picks_accept (l : Lexeme) : (accept l).Picks fun _ ids => ids = [] := by
  refine .none fun {ts a rest} h => ?_
  cases ts with
  | nil => cases h; exact List.suffix_rfl
  | cons t ts =>
    simp only [accept] at h
    split at h <;> cases h
    · exact List.suffix_cons t rest
    · exact List.suffix_rfl

theorem picks_exactly (l : Lexeme) : (exactly l).Picks fun _ ids => ids = [] := by
  refine .none fun {ts a rest} h => ?_
  cases ts with
  | nil => cases h
  | cons t ts =>
    simp only [exactly, fail] at h
    split at h <;> cases h
    exact List.suffix_cons t rest

theorem picks_skip : skip.Picks fun _ ids => ids = [] :=
  .none fun h => by cases h; exact List.tail_suffix _

theorem picks_identifier : identifier.Picks fun id ids => ids = [id] := by
  intro ts id rest h
  unfold identifier at h
  split at h
  · rename_i name span rest
    cases h
    exact ⟨[⟨.word name, span⟩], [⟨name, span⟩], rfl, List.Sublist.refl _, rfl⟩
  · cases h

theorem picks_acceptIndent : acceptIndent.Picks fun _ ids => ids = [] := by
  refine .none fun {ts a rest} h => ?_
  unfold acceptIndent at h
  split at h <;> cases h
  · exact List.suffix_cons _ _
  · exact List.suffix_rfl

theorem picks_lineEnd : lineEnd.Picks fun _ ids => ids = [] := by
  refine .none fun {ts a rest} h => ?_
  unfold lineEnd at h
  split at h
  · cases h
    exact List.suffix_cons _ _
  · split at h <;> cases h
    exact List.suffix_rfl

theorem picks_skipLineEnds : skipLineEnds.Picks fun _ ids => ids = [] :=
  .none fun h => by cases h; exact List.dropWhile_suffix _

theorem picks_exprTail (left : Expr) :
    Rule.Picks (exprTail left) fun e ids => e.identifiers = left.identifiers ++ ids := by
  intro ts e rest h
  fun_induction exprTail left ts
  case case1 left =>
    cases h
    exact ⟨[], [], rfl, .slnil, (List.append_nil _).symm⟩
  case case2 left t rest' _ =>
    cases h
    exact ⟨[], [], rfl, .slnil, (List.append_nil _).symm⟩
  case case3 left t op _ name span rest' ih =>
    obtain ⟨us, ids, rfl, hus, hids⟩ := ih h
    have hword : (⟨name, span⟩ :: ids).Sublist
        ((⟨.word name, span⟩ :: us).filterMap Token.identifier?) := hus.cons_cons _
    refine ⟨t :: ⟨.word name, span⟩ :: us, ⟨name, span⟩ :: ids, rfl, ?_, ?_⟩
    · exact hword.trans ((List.sublist_cons_self t _).filterMap _)
    · show e.identifiers = left.identifiers ++ ⟨name, span⟩ :: ids
      rw [hids, Expr.identifiers, Expr.identifiers, List.append_assoc]
      rfl
  case case4 => cases h

theorem picks_expr : expr.Picks fun e ids => ids = e.identifiers := by
  refine picks_identifier.bind ?_
  rintro id _ rfl
  exact (picks_exprTail (.name id)).imp fun e ids h => h.symm

theorem picks_argumentsTail (args : List Identifier) :
    Rule.Picks (argumentsTail args) fun as ids => as = args ++ ids := by
  intro ts as rest h
  fun_induction argumentsTail args ts
  case case1 args comma name span rest' ih =>
    obtain ⟨us, ids, rfl, hus, rfl⟩ := ih h
    refine ⟨⟨.comma, comma⟩ :: ⟨.word name, span⟩ :: us, ⟨name, span⟩ :: ids, rfl,
      hus.cons_cons _, ?_⟩
    rw [List.append_assoc]
    rfl
  case case2 => cases h
  case case3 span rest' =>
    cases h
    exact ⟨[⟨.closeParen, span⟩], [], rfl, .slnil, (List.append_nil _).symm⟩
  case case4 => cases h

theorem picks_arguments : arguments.Picks fun args ids => ids = args := by
  refine Picks.get.bind ?_
  rintro opening _ rfl
  refine (picks_exactly _).bind ?_
  rintro _ _ rfl
  refine (picks_nextIs _).bind ?_
  rintro empty _ rfl
  split
  · exact Picks.throw _
  · refine picks_identifier.bind ?_
    rintro first _ rfl
    exact (picks_argumentsTail [first]).imp fun as ids h => h.symm

theorem picks_definitionPart : definitionPart.Picks fun x ids =>
    ids = Sum.elim Decorator.identifiers (fun id => [id]) x := by
  refine picks_identifier.bind ?_
  rintro id _ rfl
  refine (picks_nextIs _).bind ?_
  rintro called _ rfl
  split
  · refine picks_arguments.bind ?_
    rintro args _ rfl
    refine (picks_exactly _).bind ?_
    rintro _ _ rfl
    exact Picks.pure (by simp [Decorator.identifiers])
  · refine (picks_accept _).bind ?_
    rintro tagged _ rfl
    cases tagged
    · exact Picks.pure rfl
    · exact Picks.pure rfl

theorem picks_definition : definition.Picks fun d ids => ids = d.identifiers := by
  have hstep (ds : List Decorator) : (definitionStep ds).Picks fun x ids =>
      Sum.elim (List.flatMap Decorator.identifiers) Definition.identifiers x =
        ds.flatMap Decorator.identifiers ++ ids := by
    refine picks_definitionPart.bind ?_
    rintro (d | id) _ rfl
    · exact Picks.pure (by simp)
    · exact Picks.pure (by simp [Definition.identifiers])
  exact (Picks.iterate (fun h => shrinks_definitionStep _ h) hstep []).imp fun d ids h => h.symm

theorem picks_operand : operand.Picks fun o ids => ids = o.identifiers := by
  intro ts o rest h
  unfold operand at h
  split at h
  · exact Picks.map (Q := fun (o : Operand) ids => ids = o.identifiers) picks_definition h
  · exact Picks.map (Q := fun (o : Operand) ids => ids = o.identifiers) picks_expr h

theorem picks_relationKeyword : relationKeyword.Picks fun _ ids => ids = [] := by
  refine .none fun {ts a rest} h => ?_
  unfold relationKeyword at h
  repeat' split at h
  all_goals
    cases h
    first | exact List.suffix_rfl | exact List.suffix_cons _ _ | exact ⟨[_, _], rfl⟩

theorem picks_withExpr : withExpr.Picks fun w ids => ids = w.identifiers := by
  refine picks_expr.bind ?_
  rintro left _ rfl
  refine (picks_accept _).bind ?_
  rintro more _ rfl
  split
  · refine picks_expr.bind ?_
    rintro right _ rfl
    exact Picks.pure (by simp [WithExpr.identifiers])
  · exact Picks.pure (by simp [WithExpr.identifiers])

theorem identifiers_alone (o : Operand) : (alone o).identifiers = o.identifiers := by
  cases o <;> rfl

theorem picks_simpleStatement : simpleStatement.Picks fun s ids => ids = s.identifiers := by
  refine picks_operand.bind ?_
  rintro left _ rfl
  refine picks_relationKeyword.bind ?_
  rintro (_ | kind) _ rfl
  · refine (picks_accept _).bind ?_
    rintro covers _ rfl
    split
    · refine picks_expr.bind ?_
      rintro middle _ rfl
      refine (picks_exactly _).bind ?_
      rintro _ _ rfl
      refine picks_expr.bind ?_
      rintro right _ rfl
      exact Picks.pure (by simp [Statement.identifiers])
    · refine (picks_accept _).bind ?_
      rintro represents _ rfl
      split
      · refine picks_withExpr.bind ?_
        rintro data _ rfl
        refine (picks_accept _).bind ?_
        rintro shaped _ rfl
        split
        · refine picks_withExpr.bind ?_
          rintro shape _ rfl
          exact Picks.pure (by simp [Statement.identifiers])
        · exact Picks.pure (by simp [Statement.identifiers])
      · exact Picks.pure (by simp [identifiers_alone])
  · refine picks_expr.bind ?_
    rintro right _ rfl
    exact Picks.pure (by simp [Statement.identifiers])

/-! ## Templates and programs -/

theorem picks_parameters : parameters.Picks fun params ids => ids = params.getD [] := by
  refine (picks_nextIs _).bind ?_
  rintro given _ rfl
  split
  · exact (picks_arguments.imp fun args ids h => h).map
  · exact Picks.pure rfl

theorem picks_baseTemplate : baseTemplate.Picks fun base ids => ids = base.toList := by
  refine (picks_accept _).bind ?_
  rintro extended _ rfl
  split
  · exact (picks_identifier.imp fun id ids h => h).map
  · exact Picks.pure rfl

theorem picks_header : header.Picks fun h ids => ids = h.identifiers := by
  refine picks_skip.bind ?_
  rintro _ _ rfl
  refine picks_identifier.bind ?_
  rintro id _ rfl
  refine picks_parameters.bind ?_
  rintro params _ rfl
  refine picks_baseTemplate.bind ?_
  rintro base _ rfl
  refine (picks_exactly _).bind ?_
  rintro _ _ rfl
  refine (picks_accept _).bind ?_
  rintro ended _ rfl
  split
  · exact Picks.pure (by simp [Header.identifiers])
  · exact picks_fail _

theorem picks_bodyLineEnd (t : OpenTemplate) : (bodyLineEnd t).Picks fun _ ids => ids = [] := by
  refine .none fun {ts a rest} h => ?_
  unfold bodyLineEnd at h
  split at h <;> cases h
  exact List.suffix_cons _ _

/-- The identifiers that an open template has so far. -/
def OpenTemplate.identifiers (t : OpenTemplate) : List Identifier :=
  t.header.identifiers ++ Statement.identifiersOf t.body

theorem OpenTemplate.identifiers_add (t : OpenTemplate) (s : Statement) :
    (t.add s).identifiers = t.identifiers ++ s.identifiers := by
  simp [identifiers, add, Statement.identifiersOf_eq_flatMap]

theorem OpenTemplate.identifiers_close (t : OpenTemplate) : t.close.identifiers = t.identifiers :=
  rfl

/-- The identifiers of open templates, of which the last is the outermost. -/
def Nesting.identifiers (n : Nesting) : List Identifier :=
  n.outer.reverse.flatMap OpenTemplate.identifiers ++ n.inner.identifiers

theorem picks_closeTemplate (n : Nesting) : (closeTemplate n).Picks fun x ids =>
    Sum.elim Nesting.identifiers Statement.identifiers x = n.identifiers ++ ids := by
  obtain ⟨inner, outer⟩ := n
  refine Picks.get.bind ?_
  rintro here _ rfl
  split
  · exact Picks.throw _
  · refine (picks_exactly _).bind ?_
    rintro _ _ rfl
    cases outer with
    | nil => exact Picks.pure (by simp [Nesting.identifiers, OpenTemplate.identifiers_close])
    | cons up outer =>
      refine (picks_bodyLineEnd up).bind ?_
      rintro _ _ rfl
      refine Picks.pure ?_
      simp [Nesting.identifiers, OpenTemplate.identifiers_add, OpenTemplate.identifiers_close]

theorem picks_bodyLine (n : Nesting) : (bodyLine n).Picks fun x ids =>
    Sum.elim Nesting.identifiers Statement.identifiers x = n.identifiers ++ ids := by
  obtain ⟨inner, outer⟩ := n
  refine Picks.get.bind ?_
  rintro here _ rfl
  split
  · refine picks_header.bind ?_
    rintro h _ rfl
    refine Picks.pure ?_
    simp [Nesting.identifiers, OpenTemplate.identifiers, Statement.identifiersOf]
  · refine picks_simpleStatement.bind ?_
    rintro s _ rfl
    refine (picks_bodyLineEnd inner).bind ?_
    rintro _ _ rfl
    exact Picks.pure (by simp [Nesting.identifiers, OpenTemplate.identifiers_add])

theorem picks_bodyStep (n : Nesting) : (bodyStep n).Picks fun x ids =>
    Sum.elim Nesting.identifiers Statement.identifiers x = n.identifiers ++ ids := by
  refine picks_acceptIndent.bind ?_
  rintro indented _ rfl
  refine Picks.get.bind ?_
  rintro here _ rfl
  split
  · exact picks_closeTemplate n
  · refine (picks_nextIs _).bind ?_
    rintro ended _ rfl
    split
    · exact picks_fail _
    · split
      · exact picks_bodyLine n
      · exact picks_fail _

theorem picks_template : template.Picks fun s ids => ids = s.identifiers := by
  refine picks_header.bind ?_
  rintro h _ rfl
  have hbody := Picks.iterate (fun hs => shrinks_bodyStep _ hs) picks_bodyStep ⟨⟨h, []⟩, []⟩
  refine hbody.imp fun s ids hids => ?_
  simpa [Nesting.identifiers, OpenTemplate.identifiers, Statement.identifiersOf] using hids.symm

theorem picks_statement : statement.Picks fun s ids => ids = s.identifiers := by
  intro ts s rest h
  unfold statement at h
  split at h
  · exact picks_template h
  · exact picks_simpleStatement h

theorem picks_programStep (ss : List Statement) : (programStep ss).Picks fun x ids =>
    Sum.elim Statement.identifiersOf Program.identifiers x = Statement.identifiersOf ss ++ ids := by
  refine picks_skipLineEnds.bind ?_
  rintro _ _ rfl
  refine (picks_nextIs _).bind ?_
  rintro ended _ rfl
  split
  · exact Picks.pure (by simp [Program.identifiers])
  · refine Picks.get.bind ?_
    rintro here _ rfl
    split
    · exact Picks.throw _
    · refine picks_statement.bind ?_
      rintro s _ rfl
      refine picks_lineEnd.bind ?_
      rintro _ _ rfl
      exact Picks.pure (by simp [Statement.identifiersOf_eq_flatMap])

theorem picks_program : program.Picks fun p ids => ids = p.identifiers :=
  (Picks.iterate programStep_shrinks picks_programStep []).imp fun _ _ h => h.symm

end Reader

/-- The identifiers of a program that is read are words of its tokens, in their
order. -/
theorem Program.identifiers_sublist {ts : List Token} {p : Program}
    (h : Program.ofTokens ts = .ok p) : p.identifiers.Sublist (ts.filterMap Token.identifier?) := by
  unfold Program.ofTokens at h
  split at h
  · rename_i q rest hread
    cases h
    obtain ⟨us, _, rfl, hus, rfl⟩ := Reader.picks_program hread
    exact hus.trans ((List.sublist_append_left us rest).filterMap _)
  · cases h

theorem Token.mem_of_mem_identifiers {ts : List Token} {id : Identifier}
    (h : id ∈ ts.filterMap Token.identifier?) : ⟨.word id.name, id.span⟩ ∈ ts := by
  obtain ⟨⟨l, span⟩, ht, hid⟩ := List.mem_filterMap.1 h
  cases l <;> cases hid
  exact ht

/-- Each identifier of a program that is read is a token of the text. -/
theorem Program.exists_token_of_ofText {source : String} {p : Program}
    (h : Program.ofText source = .ok p) : ∃ ts, Token.ofText (Layout.canonical source) = .ok ts ∧
      p.identifiers.Sublist (ts.filterMap Token.identifier?) ∧
      ∀ id ∈ p.identifiers, ⟨.word id.name, id.span⟩ ∈ ts := by
  obtain ⟨ts, hts, h⟩ := bind_eq_ok_iff.1 h
  have hsublist := Program.identifiers_sublist h
  exact ⟨ts, hts, hsublist, fun id hid => Token.mem_of_mem_identifiers (hsublist.subset hid)⟩

theorem Span.Covers.start_lt_stop {s : Span} {text piece : String} (h : s.Covers text piece)
    (hne : piece ≠ "") : s.start < s.stop := by
  obtain ⟨before, behind, _, hstart, hstop, _⟩ := h
  have hsize : 0 < piece.utf8ByteSize :=
    Nat.pos_of_ne_zero fun hzero => hne (String.utf8ByteSize_eq_zero_iff.1 hzero)
  omega

/-- The identifiers of a program that is read follow one another in the text. -/
theorem Program.pairwise_of_ofText {source : String} {p : Program}
    (h : Program.ofText source = .ok p) :
    p.identifiers.Pairwise fun id id' => id.span.stop ≤ id'.span.start := by
  obtain ⟨ts, hts, hsublist, _⟩ := Program.exists_token_of_ofText h
  refine List.Pairwise.sublist hsublist ((Token.pairwise_of_ofText hts).filterMap _ ?_)
  rintro ⟨l, s⟩ ⟨l', s'⟩ hle id hid id' hid'
  cases l <;> cases hid
  cases l' <;> cases hid'
  exact hle

/-- A word of the tokens is no empty text, and stands where its span says. -/
theorem Token.covers_of_word_mem {source name : String} {span : Span} {ts : List Token}
    (hts : Token.ofText source = .ok ts) (h : ⟨.word name, span⟩ ∈ ts) :
    span.start < span.stop ∧ span.Covers source name := by
  have hcovers : span.Covers source name := by
    have := Token.covers_of_mem hts h
    rwa [Lexeme.text, String.ofList_toList] at this
  refine ⟨hcovers.start_lt_stop fun hempty => ?_, hcovers⟩
  have hword := Token.isScanned_of_scan hts _ h
  simp [Lexeme.isScanned, hempty] at hword

/-- The identifiers of a program that is read follow one another in the text: each
ends before the next one begins, is not empty, and stands where its span says. -/
theorem Program.covers_of_ofText {source : String} {p : Program}
    (h : Program.ofText source = .ok p) :
    (p.identifiers.Pairwise fun id id' => id.span.stop ≤ id'.span.start) ∧
      ∀ id ∈ p.identifiers, id.span.start < id.span.stop ∧
        id.span.Covers (Layout.canonical source) id.name := by
  obtain ⟨ts, hts, _, hmem⟩ := Program.exists_token_of_ofText h
  exact ⟨Program.pairwise_of_ofText h, fun id hid => Token.covers_of_word_mem hts (hmem id hid)⟩

/-- A comment, a template with members of several kinds, and an instance of it in a
relation. -/
def placedText : String :=
  "% T\npattern T(a,b) extends B:\n\tshared: T2(b, a): m mapto many a.b<-c\n" ++
    "  x represents y with z as v with w\nend\n T(p,q):i cover j along k"

theorem covers_of_ofText_placedText : ∃ p, Program.ofText placedText = .ok p ∧
    (p.identifiers.Pairwise fun id id' => id.span.stop ≤ id'.span.start) ∧
      ∀ id ∈ p.identifiers, id.span.start < id.span.stop ∧
        id.span.Covers (Layout.canonical placedText) id.name := by
  have hread : (Program.ofText placedText).isOk = true := by decide +kernel
  cases h : Program.ofText placedText with
  | ok p => exact ⟨p, rfl, Program.covers_of_ofText h⟩
  | error e =>
    rw [h] at hread
    cases hread

end InterfaceSchema
