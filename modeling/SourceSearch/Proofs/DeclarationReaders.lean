import SourceSearch.Proofs.ExpressionReaders

/-!
# What the readers of statements and declarations give

Statements and declarations are read like expressions: from the text, between the place where their
reader starts and the end of the last token that it reads. Their parts are read one behind the
other, which is what makes types disjoint from what stands beside them, and keeps nodes apart; the
variables and the fields of one declaration all stand behind one type, and the value of an enum
constant is typed at the name of the constant. One level of the grammar keeps what the levels below
it give (`Grammar.GivesNodes.step`), so all of a text is read this way (`parse_readIn`).
-/

set_option autoImplicit false

namespace SourceSearch

variable {text : String} {lo m start : Nat}

namespace Parser

variable {g : Grammar}

/-! ## Statements -/

theorem gives_parenExpr (hg : g.GivesNodes text) :
    Gives text lo m (parenExpr g) fun e x => LaidIn text lo e (Walk.expr x) :=
  (gives_expect _).pass fun _ _ _ => hg.expr.bind fun _ _ _ h =>
    (gives_expect _).pass fun _ _ _ => gives_pure h

/-- What a reader of variables of one declaration gives: a variable of the type that stands before
all of them, with its value. -/
structure LocalVarIn (text : String) (type : TypeRef) (lo hi : Nat) (v : LocalVar) :
    Prop where
  range_eq : v.type.range = type.range
  segments_eq : v.type.segments = type.segments
  laid : LaidIn text lo hi (.localVar v :: Walk.exprOpt v.init)

theorem gives_localVar (hg : g.GivesNodes text) (type : TypeRef) :
    Gives text lo m (localVar g type) (LocalVarIn text type lo) := by
  refine gives_ident.bind fun name e₁ _ hname => gives_dims.pass fun extra _ _ => ?_
  refine (gives_eat _).pass fun _ _ _ => ?_
  refine .ite_bind (P := fun e init => LaidIn text lo e (Walk.exprOpt init))
    (fun _ => hg.initializer.map fun _ _ h => h) (fun _ => gives_pure .nil)
    fun init e hle hinit => .pure fun e' he => ⟨rfl, rfl, .localVar ?_ (hinit.upTo he)⟩
  exact hname.toSpelledIn.widen (Nat.le_refl _) (Nat.le_trans hle he)

/-- **Variables of one declaration** were read behind their type. -/
theorem laidIn_localVars {type : TypeRef} {mid hi : Nat} {vs : List LocalVar}
    (htype : type.ReadIn text lo mid)
    (h : Rounds (LocalVarIn text type) (max lo mid) hi vs) (hle : mid ≤ hi) :
    LaidIn text lo hi (Walk.localVars vs) := by
  have hvs := (h.imp fun hv => And.intro hv.range_eq hv.segments_eq).forall_mem
  rw [Walk.localVars_eq_flatMap, funext Walk.localVar_eq]
  exact .declaredTogether htype (fun _ _ => rfl) (fun v hv => (hvs v hv).1)
    (fun v hv => (hvs v hv).2) (.flatMap (h.imp LocalVarIn.laid)) hle

theorem gives_localVars (hg : g.GivesNodes text) :
    Gives text lo m (localVars g) fun e vs => LaidIn text lo e (Walk.localVars vs) := by
  refine gives_typeRef.bind fun type e _ htype => ?_
  have hvars : Gives text (max lo e) e (sepByComma (localVar g type))
      (Rounds (LocalVarIn text type) (max lo e)) :=
    gives_sepByComma (fun _ => ⟨fun he h => ⟨h.range_eq, h.segments_eq, h.laid.upTo he⟩⟩)
      fun _ _ => gives_localVar hg type
  exact hvars.behind.imp_of_le fun e' vs hle hvs => laidIn_localVars htype hvs hle

theorem gives_modifiersRead : GivesAny text modifiersRead :=
  .get_pass fun _ => gives_modifiers.pass fun _ _ _ => .get_pass fun _ =>
    .pure fun _ _ => True.intro

theorem gives_forEachVar :
    Gives text lo m forEachVar fun e v => LaidIn text lo e (Walk.localVar v) := by
  refine gives_modifiers.pass fun _ _ _ => gives_typeRef.bind fun type _ _ htype => ?_
  refine gives_ident.behind.bind fun name e hle hname => gives_pure ?_
  have hspelled := hname.toSpelledIn.widen (Nat.le_max_left _ _) (Nat.le_refl e)
  rw [Walk.localVar]
  exact .localVar hspelled ((LaidIn.typeRef htype).upTo hle)

theorem gives_exprs (hg : g.GivesNodes text) :
    Gives text lo m (sepByComma g.expr) fun e xs => LaidIn text lo e (Walk.exprs xs) :=
  (gives_sepByComma (fun _ => lasting_laidIn) fun _ _ => hg.expr).imp fun _ _ h => laidIn_exprs h

/-- Statements that were read one behind the other. -/
theorem laidIn_stmts {ss : List Stmt} {hi : Nat}
    (h : Rounds (fun lo hi s => LaidIn text lo hi (Walk.stmt s)) lo hi ss) :
    LaidIn text lo hi (Walk.stmts ss) := by
  rw [Walk.stmts_eq_flatMap]
  exact .flatMap h

/-- Expressions as statements. -/
theorem gives_exprStmts (hg : g.GivesNodes text) :
    Gives text lo m (sepByComma g.expr)
      fun e xs => LaidIn text lo e (Walk.stmts (xs.map .expr)) := by
  have hexpr : ∀ lo m, Gives text lo m g.expr fun e x => LaidIn text lo e (Walk.stmt (.expr x)) :=
    fun _ _ => hg.expr.imp fun _ _ h => h.stmt rfl
  refine (gives_sepByComma (fun _ => lasting_laidIn) hexpr).imp fun e xs h => ?_
  rw [Walk.stmts_eq_flatMap, List.flatMap_map]
  exact .flatMap h

theorem gives_forInit (hg : g.GivesNodes text) (isDecl : Bool) :
    Gives text lo m (forInit g isDecl) fun e ss => LaidIn text lo e (Walk.stmts ss) := by
  refine .ite (fun _ => ?_) fun _ => (gives_exprStmts hg).bind fun xs _ _ hxs => gives_pure hxs
  refine gives_modifiers.pass fun _ _ _ => (gives_localVars hg).bind fun vs _ _ hvs => ?_
  refine gives_pure ?_
  rw [Walk.stmts, Walk.stmts, List.append_nil]
  exact hvs.stmt rfl

theorem gives_countingLoop (hg : g.GivesNodes text) (isDecl : Bool) :
    Gives text lo m (countingLoop g isDecl) fun e s => LaidIn text lo e (Walk.stmt s) := by
  refine (gives_nextIs _).pass fun _ _ _ => ?_
  refine .ite_bind (P := fun e ss => LaidIn text lo e (Walk.stmts ss))
    (fun _ => gives_pure .nil) (fun _ => gives_forInit hg isDecl) fun init e₁ _ hinit => ?_
  refine (gives_expect _).pass fun _ _ _ => (gives_nextIs _).pass fun _ _ _ => ?_
  refine .ite_bind (P := fun e cond => LaidIn text (max lo e₁) e (Walk.exprOpt cond))
    (fun _ => gives_pure .nil) (fun _ => hg.expr.behind.map fun _ _ h => h)
    fun cond e₂ hle₂ hcond => ?_
  refine (gives_expect _).pass fun _ _ _ => (gives_nextIs _).pass fun _ _ _ => ?_
  refine .ite_bind (P := fun e update => LaidIn text (max lo e₂) e (Walk.exprs update))
    (fun _ => gives_pure .nil) (fun _ => (gives_exprs hg).behind) fun update e₃ hle₃ hupdate => ?_
  refine (gives_expect _).pass fun _ _ _ => hg.stmt.behind.bind fun body e₄ hle₄ hbody => ?_
  refine gives_pure (LaidIn.stmt ?_ rfl)
  exact ((hinit.append hcond hle₂).append hupdate hle₃).append hbody hle₄

theorem gives_forLoop (hg : g.GivesNodes text) :
    Gives text lo m (forLoop g) fun e s => LaidIn text lo e (Walk.stmt s) := by
  refine (gives_expect _).pass fun _ _ _ => (gives_nextIs _).pass fun _ _ _ => ?_
  refine .ite (fun _ => gives_countingLoop hg false) fun _ => ?_
  -- the reading comes back to this place, to read the head of the loop again
  refine ⟨fun {c} hlo hm => .get_bind fun hc => ?_⟩
  refine (gives_modifiersRead.at_cursor c).bind fun _ mid hmid _ => ?_
  refine (gives_nextIsLocalDecl.at_cursor mid).bind fun _ mid' hmid' _ => ?_
  have hbefore := hmid.trans hmid'
  refine .ite (fun _ => .set_bind hc ?_) fun _ => .of_before hbefore ?_
  · refine (gives_forEachVar.at_cursor hlo hm).bind fun var after hafter hvar => ?_
    refine (GivesAny.at_cursor (gives_eat _) after).bind fun _ next hnext _ => ?_
    refine .ite (fun _ => .of_before (hafter.trans hnext) ?_) fun _ => .set_bind hc ?_
    · refine Gives.at_cursor (?_ : Gives text lo after.lastEnd _ _)
        (Nat.le_trans hlo (hafter.trans hnext).offset_le) hnext.lastEnd_le
      refine hg.expr.behind.bind fun iterable e hle hiterable => ?_
      refine (gives_expect _).pass fun _ _ _ => ?_
      refine hg.stmt.behind.bind fun body e' hle' hbody => gives_pure ?_
      exact ((hvar.append_swapped hiterable hle).append hbody hle').stmt rfl
    · exact (gives_countingLoop hg true).at_cursor hlo hm
  · exact (gives_countingLoop hg false).at_cursor (Nat.le_trans hlo hbefore.offset_le)
      (Nat.le_trans hm hbefore.lastEnd_le)

theorem gives_resources (hg : g.GivesNodes text) :
    Gives text lo m (resources g) fun e ss => LaidIn text lo e (Walk.stmts ss) := by
  refine (gives_eat _).pass fun _ _ _ => .ite (fun _ => ?_) fun _ => gives_pure .nil
  refine (gives_many (R := fun lo e s => LaidIn text lo e (Walk.stmt s)) fun _ _ => ?_).bind
    fun ss _ _ hss => (gives_expect _).pass fun _ _ _ => gives_pure (laidIn_stmts hss)
  refine (gives_nextIs _).pass fun _ _ _ => .ite (fun _ => .none) fun _ => ?_
  refine gives_modifiers.pass fun _ _ _ => (gives_localVars hg).bind fun vs _ _ hvs => ?_
  refine (gives_eat _).pass fun _ _ _ => (gives_nextIs _).pass fun _ _ _ => ?_
  refine .ite (fun _ => ?_) fun _ => gives_pure_some Walk.stmt (hvs.stmt rfl)
  exact (gives_expect _).pass fun _ _ _ => gives_pure_some Walk.stmt (hvs.stmt rfl)

/-- A handler was read from the text, between two offsets. -/
structure CatchIn (text : String) (lo hi : Nat) (clause : CatchClause) : Prop where
  laid : LaidIn text lo hi (.typeRef clause.param.type :: Walk.block clause.body)
  name : clause.param.name.SpelledIn text lo hi

theorem gives_catchClause? (hg : g.GivesNodes text) :
    Gives text lo m (catchClause? g) (IfAny (CatchIn text lo)) := by
  refine (gives_eat _).pass fun _ _ _ => .ite (fun _ => ?_) fun _ => .none
  refine (gives_expect _).pass fun _ _ _ => gives_modifiers.pass fun _ _ _ => ?_
  refine gives_typeRef.bind fun type _ _ htype => ?_
  refine (gives_many_any (P := fun _ => True) ?_).pass fun _ _ _ => ?_
  · intro lo m
    refine (gives_eat _).pass fun _ _ _ => .ite (fun _ => ?_) fun _ => .none
    exact gives_typeRef.pass fun _ _ _ => .pure_some fun _ _ => True.intro
  · refine gives_ident.behind.bind fun name e₁ hle₁ hname => (gives_expect _).pass fun _ _ _ => ?_
    refine (gives_block hg).behind.bind fun body e₂ hle₂ hbody => .pure_some fun e₃ hle₃ => ?_
    refine ⟨(((LaidIn.typeRef htype).upTo hle₁).append (laidIn_block hbody.2) hle₂).upTo hle₃, ?_⟩
    exact hname.toSpelledIn.widen (Nat.le_max_left _ _) (Nat.le_trans hle₂ hle₃)

theorem gives_tryStmt (hg : g.GivesNodes text) :
    Gives text lo m (tryStmt g) fun e s => LaidIn text lo e (Walk.stmt s) := by
  refine (gives_resources hg).bind fun declared e₁ _ hdeclared => ?_
  refine (gives_block hg).behind.bind fun body e₂ hle₂ hbody => ?_
  refine (gives_many fun _ _ => gives_catchClause? hg).behind.bind
    fun catches e₃ hle₃ hcatches => (gives_eat _).pass fun _ _ _ => ?_
  refine .ite_bind (P := fun e cleanup => LaidIn text (max lo e₃) e (Walk.blockOpt cleanup))
    (fun _ => (gives_block hg).behind.map fun _ _ h => laidIn_block h.2) (fun _ => gives_pure .nil)
    fun cleanup e₄ hle₄ hcleanup => .ite (fun _ => .fail _) fun _ => gives_pure ?_
  have hstmts := hdeclared.append hbody.2 hle₂
  have hhandlers := LaidIn.flatMap (hcatches.imp CatchIn.laid)
  have hnames := (hcatches.imp CatchIn.name).all fun hlo hhi hname => hname.widen hlo hhi
  rw [Walk.stmts_eq_flatMap, Walk.stmts_eq_flatMap, ← List.flatMap_append,
    ← Walk.stmts_eq_flatMap] at hstmts
  rw [← Walk.catches_eq_flatMap] at hhandlers
  refine .tryStmt ((hstmts.block.append hhandlers hle₃).append hcleanup hle₄) fun c hc => ?_
  exact (hnames c hc).widen (Nat.le_max_left _ _) hle₄

/-- The groups of a switch, the last one first, in the order in which they were read. -/
theorem gives_switchPart? (hg : g.GivesNodes text) {groups : List SwitchCase}
    (hgroups : LaidIn text lo m (Walk.cases groups.reverse)) :
    Gives text lo m (switchPart? g groups)
      (IfAny fun e groups => LaidIn text lo e (Walk.cases groups.reverse)) := by
  -- what is added to the groups stands behind them
  have hcases : ∀ (group : SwitchCase) (groups : List SwitchCase),
      Walk.cases (group :: groups).reverse =
        Walk.cases groups.reverse ++ (Walk.exprs group.labels ++ Walk.stmts group.body) := by
    intro group groups
    rw [Walk.cases_eq_flatMap, Walk.cases_eq_flatMap, List.reverse_cons, List.flatMap_append,
      List.flatMap_singleton]
  refine (gives_eat _).pass fun _ _ _ => .ite (fun _ => .none) fun _ => ?_
  refine (gives_eat _).pass fun _ _ _ => .ite (fun _ => ?_) fun _ => ?_
  · refine (gives_sepByComma (fun _ => lasting_laidIn) fun _ _ => hg.conditional).behind.bind
      fun labels e hle hlabels => (gives_expect _).pass fun _ _ _ =>
        gives_pure_some (fun groups => Walk.cases (List.reverse groups)) ?_
    rw [hcases, Walk.stmts, List.append_nil]
    exact hgroups.append (laidIn_exprs hlabels) hle
  · refine (gives_eat _).pass fun _ _ _ => .ite (fun _ => ?_) fun _ => ?_
    · refine (gives_expect _).pass fun _ _ _ =>
        gives_pure_some (fun groups => Walk.cases (List.reverse groups)) ?_
      rw [hcases, Walk.exprs, Walk.stmts, List.append_nil, List.append_nil]
      exact hgroups
    · refine hg.stmt.behind.bind fun s e hle hs => ?_
      split
      next => exact .fail _
      next last others =>
        refine gives_pure_some (fun groups => Walk.cases (List.reverse groups)) ?_
        have hall := hgroups.append hs hle
        rw [hcases, List.append_assoc, List.append_assoc] at hall
        rw [hcases, Walk.stmts_eq_flatMap, List.flatMap_append, List.flatMap_singleton,
          ← Walk.stmts_eq_flatMap]
        exact hall

theorem gives_switchStmt (hg : g.GivesNodes text) :
    Gives text lo m (switchStmt g) fun e s => LaidIn text lo e (Walk.stmt s) := by
  refine (gives_parenExpr hg).bind fun selector e _ hselector => ?_
  refine (gives_expect _).pass fun _ _ _ => ?_
  have hgroups : Gives text (max lo e) e (grow (switchPart? g) [])
      fun e' groups => LaidIn text (max lo e) e' (Walk.cases groups.reverse) :=
    gives_grow lasting_laidIn (fun _ groups hgroups => gives_switchPart? hg hgroups) .nil
  exact hgroups.behind.bind fun groups e' hle hgroups =>
    gives_pure ((hselector.append hgroups hle).stmt rfl)

theorem gives_jumpEnd : GivesAny text jumpEnd :=
  (gives_eat _).pass fun _ _ _ => (gives_expect _).pass fun _ _ _ => .pure fun _ _ => True.intro

theorem gives_keywordStmt? (hg : g.GivesNodes text) {k : Keyword} {p : Parser Stmt}
    (h : keywordStmt? g k = some p) :
    Gives text lo m p fun e s => LaidIn text lo e (Walk.stmt s) := by
  unfold keywordStmt? at h
  split at h <;> cases h
  · refine (gives_parenExpr hg).bind fun cond e₁ _ hcond => ?_
    refine hg.stmt.behind.bind fun yes e₂ hle₂ hyes => (gives_eat _).pass fun _ _ _ => ?_
    refine .ite_bind (P := fun e no => LaidIn text (max lo e₂) e (Walk.stmtOpt no))
      (fun _ => hg.stmt.behind.map fun _ _ h => h) (fun _ => gives_pure .nil)
      fun no e₃ hle₃ hno => gives_pure ?_
    exact ((hcond.append hyes hle₂).append hno hle₃).stmt rfl
  · refine (gives_parenExpr hg).bind fun cond _ _ hcond => ?_
    exact hg.stmt.behind.bind fun body _ hle hbody =>
      gives_pure ((hcond.append hbody hle).stmt rfl)
  · refine hg.stmt.bind fun body _ _ hbody => (gives_expect _).pass fun _ _ _ => ?_
    refine (gives_parenExpr hg).behind.bind fun cond _ hle hcond => ?_
    exact (gives_expect _).pass fun _ _ _ =>
      gives_pure ((hbody.append_swapped hcond hle).stmt rfl)
  · exact gives_forLoop hg
  · refine (gives_nextIs _).pass fun _ _ _ => ?_
    refine .ite_bind (P := fun e value => LaidIn text lo e (Walk.exprOpt value))
      (fun _ => gives_pure .nil) (fun _ => hg.expr.map fun _ _ h => h)
      fun value _ _ hvalue => (gives_expect _).pass fun _ _ _ => gives_pure (hvalue.stmt rfl)
  · exact hg.expr.bind fun value _ _ hvalue => (gives_expect _).pass fun _ _ _ =>
      gives_pure (hvalue.stmt rfl)
  · exact gives_jumpEnd.pass fun _ _ _ => gives_pure (LaidIn.nil.stmt rfl)
  · exact gives_jumpEnd.pass fun _ _ _ => gives_pure (LaidIn.nil.stmt rfl)
  · exact gives_tryStmt hg
  · exact gives_switchStmt hg
  · refine hg.expr.bind fun cond e _ hcond => (gives_eat _).pass fun _ _ _ => ?_
    refine .ite_bind (P := fun e' message => LaidIn text (max lo e) e' (Walk.exprOpt message))
      (fun _ => hg.expr.behind.map fun _ _ h => h) (fun _ => gives_pure .nil)
      fun message _ hle hmessage => (gives_expect _).pass fun _ _ _ => ?_
    exact gives_pure ((hcond.append hmessage hle).stmt rfl)

theorem gives_plainStmt (hg : g.GivesNodes text)
    {typeDecl : Modifiers → Nat → Parser TypeDecl} (htypeDecl : ∀ {m start} mods,
      MayStart text start → Gives text start m (typeDecl mods start)
        fun e decl => LaidIn text start e (Walk.typeDecl decl)) :
    Gives text lo m (plainStmt g typeDecl) fun e s => LaidIn text lo e (Walk.stmt s) := by
  refine gives_fromOffset fun start hstart => gives_modifiersRead.pass fun _ _ _ => ?_
  refine gives_nextIsTypeDecl.pass fun _ _ _ => .ite (fun _ => ?_) fun _ => ?_
  · exact (htypeDecl _ hstart).bind fun decl _ _ hdecl => gives_pure (hdecl.stmt rfl)
  · refine gives_nextIsLocalDecl.pass fun _ _ _ => .ite (fun _ => ?_) fun _ => ?_
    · exact (gives_localVars hg).bind fun vs _ _ hvs => (gives_expect _).pass fun _ _ _ =>
        gives_pure (hvs.stmt rfl)
    · exact hg.expr.bind fun x _ _ hx => (gives_expect _).pass fun _ _ _ =>
        gives_pure (hx.stmt rfl)

/-! ## Members -/

/-- **The value of an enum constant** is typed where the name of the constant stands, and ends
behind that name. -/
theorem spacedIn_constantValue {type : TypeRef} {args : List Expr} {body : Option (List Member)}
    {mid hi : Nat} (htype : type.StandsIn text lo mid)
    (hparts : SpacedIn text (max lo mid) hi (Walk.exprs args ++ Walk.membersOpt body))
    (hbody : BodyIn text lo hi body) (hlt : mid < hi) :
    (ExprKind.new type args body).SpacedIn text lo hi := by
  have hle := Nat.le_of_lt hlt
  have hlo := htype.lies.lt
  refine ⟨True.intro, fun _ => nofun, (SpacedIn.typeRef htype).append hparts hle,
    fun range hstart hstop node hnode used hused hmem => ?_, nofun, hbody.fits⟩
  obtain rfl := List.mem_singleton.1 hused
  rcases List.mem_cons.1 hnode with rfl | hnode
  · obtain rfl := List.mem_singleton.1 hmem
    exact absurd (Nat.lt_of_lt_of_le hlt hstop) (Nat.not_lt.2 htype.lies.le_stop)
  · have hbehind := ((hparts.read node hnode).lies.used hmem).start_le
    omega

/-- **A constant with a value** declares its name before its value, which declares nothing but what
stands in a class body behind the name. -/
theorem laidIn_constant {head : FieldHead} {enumName : String} {args : List Expr}
    {body : Option (List Member)} {mid last hi : Nat} {range : TextRange}
    (hname : WordOf text enumName) (hconstant : head.isEnumConstant = true)
    (hident : head.name.ReadIn text lo mid)
    (hparts : LaidIn text (max lo mid) last (Walk.exprs args ++ Walk.membersOpt body))
    (hbody : BodyIn text lo last body) (hlt : mid < last) (hle : last ≤ hi)
    (hrange : range.Spans lo hi) (htokens : range.OnTokens text) :
    let value : Expr := ⟨.new ⟨[enumName], 0, head.name.range⟩ args body, range⟩
    LaidIn text lo hi (.field head (some value) :: Walk.expr value) := by
  intro value
  have hmid : mid ≤ hi := Nat.le_trans (Nat.le_of_lt hlt) hle
  have htype : (TypeRef.mk [enumName] 0 head.name.range).StandsIn text lo mid :=
    ⟨Or.inr ⟨by simp, by simpa using hname⟩, hident.lies, hident.onTokens⟩
  have hkind := spacedIn_constantValue htype hparts.toSpacedIn hbody hlt
  have hvalue := spacedIn_expr (hkind.upTo (hrange.stop_eq ▸ hle)) hrange.start_eq hrange.liesIn
    htokens
  refine ⟨SpacedIn.cons (readIn_field (hident.upTo hmid)) hvalue fun other hother => ?_,
    fun ref href => ?_⟩
  · refine ⟨fun range hrange hdeclared => ?_, fun _ => nofun⟩
    obtain rfl := Option.some.inj hrange
    rcases List.mem_cons.1 hother with rfl | hother
    · cases hdeclared
    rcases List.mem_cons.1 hother with rfl | hother
    · cases hdeclared
    have hbehind : max lo mid ≤ head.name.range.start :=
      ((hparts.read other hother).declared hdeclared).start_le
    have hpos := hident.lies.pos
    have hstop := hident.lies.le_stop
    omega
  · -- the type of the value is where the name of the constant stands
    rcases List.mem_cons.1 href with heq | href
    · cases heq
    rcases List.mem_cons.1 href with heq | href
    · cases heq
    rcases List.mem_cons.1 href with heq | href
    · cases heq
      exact Or.inr ⟨head, args, body, range, List.mem_cons_self, hconstant, rfl⟩
    · refine (hparts.there ref href).imp_right ?_
      rintro ⟨other, args', body', range', hfield, hother⟩
      exact ⟨other, args', body', range', List.mem_cons_of_mem _ (List.mem_cons_of_mem _
        (List.mem_cons_of_mem _ hfield)), hother⟩

theorem gives_enumConstant (hg : g.GivesNodes text) {enumName : String}
    (hname : WordOf text enumName) :
    Gives text lo m (enumConstant g enumName) (Member.PlainIn text lo) := by
  refine .offset_bind fun start hlo hstart => ?_
  refine (gives_many_any (P := fun _ => True) ?_).pass fun _ _ _ => ?_
  · intro lo m
    refine (gives_nextIs _).pass fun _ _ _ => .ite (fun _ => ?_) fun _ => .none
    exact gives_annotation.pass fun _ _ _ => .pure_some fun _ _ => True.intro
  · refine gives_ident.bind fun name e₁ _ hident => (gives_nextIs _).pass fun _ _ _ => ?_
    have hlt := hident.lies.lt
    refine .ite_bind (P := fun e args => LaidIn text (max start e₁) e (Walk.exprs args) ∧
        (args = [] ∨ e₁ < e))
      (fun _ => (gives_arguments hg).behind.imp fun _ _ h => ⟨h.2, Or.inr (by omega)⟩)
      (fun _ => .pure fun _ _ => ⟨.nil, Or.inl rfl⟩)
      fun args e₂ hle₂ hargs => (gives_nextIs _).pass fun _ _ _ => ?_
    refine .ite_bind (P := fun e body => BodyIn text (max start e₂) e body ∧
        (body = none ∨ e₂ < e))
      (fun _ => (gives_classBody hg "").behind.map fun _ _ h =>
        ⟨⟨h.2.laid, h.2.fits⟩, Or.inr (by omega)⟩)
      (fun _ => .pure fun _ _ => ⟨.none, Or.inl rfl⟩)
      fun body e₃ hle₃ hbody => ?_
    refine .rangeFrom_bind hstart (by omega) fun range e₄ hle₄ hrange htokens =>
      .pure fun e₅ he => ?_
    refine ⟨(Member.LaidIn.of_spans ?_ hrange htokens).widen hlo he, id⟩
    rw [Walk.member, if_pos rfl]
    split
    · have hident₄ := hident.upTo (Nat.le_trans hle₂ (Nat.le_trans hle₃ hle₄))
      exact LaidIn.cons (readIn_field hident₄) .nil fun _ => nofun
    next hvalue =>
      have hborder : max (max start e₁) e₂ ≤ max start e₂ := by omega
      have hparts := hargs.1.append (hbody.1.laid.widen hborder (Nat.le_refl _)) hle₃
      have hmembers := hbody.1.widen (Nat.le_max_left start e₂) (Nat.le_refl _)
      have hlt₃ : e₁ < e₃ := by
        rcases hargs.2 with rfl | h
        · rcases hbody.2 with rfl | h
          · exact absurd rfl hvalue
          · omega
        · omega
      exact laidIn_constant hname rfl hident hparts hmembers hlt₃ hle₄ hrange htokens

theorem gives_enumConstants (hg : g.GivesNodes text) {enumName : String}
    (hname : WordOf text enumName) :
    Gives text lo m (enumConstants g enumName) (MembersIn text lo) := by
  refine (gives_many (R := Member.PlainIn text) fun lo m => ?_).bind fun ms _ _ hms => ?_
  · refine (gives_nextIs _).pass fun _ _ _ => (gives_nextIs _).pass fun _ _ _ => ?_
    refine .ite (fun _ => .none) fun _ => (gives_enumConstant hg hname).bind fun c _ _ hc => ?_
    refine (gives_eat _).pass fun _ _ _ => (gives_nextIs _).pass fun _ _ _ => ?_
    refine (gives_nextIs _).pass fun _ _ _ => .ite (fun _ => ?_) fun _ => ?_
    · exact (gives_expect _).pass fun _ _ _ => .pure_some fun _ he => hc.upTo he
    · exact .pure_some fun _ he => hc.upTo he
  · refine (gives_eat _).pass fun _ _ _ => .pure fun _ he => .of_plain ?_ ?_ ?_
    · rw [Walk.members_eq_flatMap]
      exact .flatMap ((hms.upTo he).imp fun hm => hm.laid)
    · exact ((hms.upTo he).imp fun hm => hm.fits).all fun hlo hhi hfits => hfits.widen hlo hhi
    · exact (hms.imp Member.PlainIn.plain).forall_mem

theorem gives_enumBody (hg : g.GivesNodes text) {enumName : String} (hname : WordOf text enumName) :
    Gives text lo m (enumBody g enumName) (MembersIn text lo) := by
  refine (gives_expect _).pass fun _ _ _ => ?_
  refine (gives_enumConstants hg hname).bind fun constants e _ hconstants => ?_
  refine (gives_membersUntil hg enumName).behind.bind fun rounds e' hle hrounds => ?_
  exact .pure fun e'' he => (hconstants.append hrounds hle).widen (Nat.le_refl _) he

theorem gives_typeDeclKind : GivesAny text typeDeclKind := by
  refine .get_pass fun c => ?_
  split
  · exact (gives_skip 1).pass fun _ _ _ => .pure fun _ _ => True.intro
  · exact (gives_skip 1).pass fun _ _ _ => .pure fun _ _ => True.intro
  · exact (gives_skip 1).pass fun _ _ _ => .pure fun _ _ => True.intro
  · exact (gives_skip 1).pass fun _ _ _ => (gives_expect _).pass fun _ _ _ =>
      .pure fun _ _ => True.intro
  · exact (gives_skip 1).pass fun _ _ _ => .fail _

/-- The supertypes of a type were read one behind the other. -/
def SupertypesIn (text : String) (lo hi : Nat) (types : Option TypeRef × List TypeRef) :
    Prop :=
  LaidIn text lo hi ((types.1.toList ++ types.2).map .typeRef)

theorem gives_supertypes (kind : TypeDeclKind) :
    Gives text lo m (supertypes kind) (SupertypesIn text lo) := by
  -- what follows the word `extends`, whatever stood behind it
  have hrest : ∀ types e, m ≤ e → SupertypesIn text lo e types → Gives text lo e (do
      let implemented ← if ← eat Keyword.implementsKw then typeList else pure []
      return (types.1, types.2 ++ implemented)) (SupertypesIn text lo) := by
    intro types e _ htypes
    refine (gives_eat _).pass fun _ _ _ => ?_
    refine .ite_bind (P := fun e' refs => LaidIn text (max lo e) e' (refs.map .typeRef))
      (fun _ => gives_typeList.behind) (fun _ => gives_pure .nil)
      fun implemented e' hle himplemented => .pure fun e'' he => ?_
    rw [SupertypesIn, ← List.append_assoc, List.map_append]
    exact (htypes.append himplemented hle).upTo he
  refine (gives_eat _).pass fun _ _ _ => .ite (fun _ => .ite (fun _ => ?_) fun _ => ?_) fun _ => ?_
  · refine Gives.bind (P := SupertypesIn text lo) ?_ hrest
    exact gives_typeList.map fun _ _ hrefs => hrefs
  · refine Gives.bind (P := SupertypesIn text lo) ?_ hrest
    exact gives_typeRef.map fun _ _ href => .typeRef href
  · refine Gives.bind (P := SupertypesIn text lo) ?_ hrest
    exact .pure fun _ _ => .nil

/-- **A type** has its head before its body. -/
theorem gives_typeDecl (hg : g.GivesNodes text) (mods : Modifiers) (hstart : MayStart text start) :
    Gives text start m (typeDecl g mods start)
      fun e decl => LaidIn text start e (Walk.typeDecl decl) := by
  refine gives_typeDeclKind.pass fun kind _ _ => gives_ident.bind fun name e₁ _ hname => ?_
  refine gives_typeArguments.pass fun _ _ _ => ?_
  refine (gives_supertypes kind).bind fun types e₂ hle₂ htypes => ?_
  refine .ite_bind (P := MembersIn text (max start e₂))
    (fun _ => (gives_enumBody hg hname.written).behind)
    (fun _ => (gives_classBody hg _).behind.imp fun _ _ h => h.2) fun members e₃ hle₃ hmembers => ?_
  have hname₂ := hname.upTo hle₂
  refine .rangeFrom_bind hstart (Nat.lt_of_lt_of_le hname₂.lies.lt hle₃)
    fun range e₄ hle₄ hrange htokens => gives_pure ?_
  obtain ⟨rfl, rfl, -⟩ := id hrange
  exact laidIn_typeDecl hrange.liesIn htokens (Nat.le_trans hle₃ hle₄) hname₂ htypes
    (hmembers.widen (Nat.le_max_right _ _) hle₄)

theorem gives_methodBody (hg : g.GivesNodes text) :
    Gives text lo m (methodBody g) fun e body => LaidIn text lo e (Walk.methodBody body) := by
  refine (gives_eat _).pass fun _ _ _ => .ite (fun _ => gives_pure .nil) fun _ => ?_
  refine (gives_eat _).pass fun _ _ _ => .ite (fun _ => ?_) fun _ => ?_
  · refine gives_skipToDeclaratorEnd.pass fun _ _ _ => ?_
    exact (gives_expect _).pass fun _ _ _ => gives_pure .nil
  · refine gives_orElse ((gives_block hg).map fun _ _ h => laidIn_block h.2) ?_
    refine gives_fromOffset fun start _ => (gives_skipBalanced _ _).pass fun _ _ _ => ?_
    exact .rangeFrom_pass fun range => gives_pure .nil

theorem gives_methodRest (hg : g.GivesNodes text) (mods : Modifiers)
    (returnType : Option TypeRef) (htype : ∀ ref, returnType = some ref → ref.ReadIn text start m)
    {name : Ident} (hname : name.ReadIn text start m) (hstart : MayStart text start) :
    Gives text start m (methodRest g mods returnType name start) (Member.LaidIn text start) := by
  refine gives_params.behind.bind fun parameters e₁ hle₁ hparameters => ?_
  refine gives_dims.pass fun extra _ _ => (gives_eat _).pass fun _ _ _ => ?_
  refine .ite_bind (P := fun e refs => LaidIn text (max start e₁) e (refs.map .typeRef))
    (fun _ => gives_typeList.behind) (fun _ => gives_pure .nil) fun throws e₂ hle₂ hthrows => ?_
  refine (gives_methodBody hg).behind.bind fun body e₃ hle₃ hbody => ?_
  have hle := Nat.le_trans hle₁ (Nat.le_trans hle₂ hle₃)
  refine .rangeFrom_bind hstart (Nat.lt_of_lt_of_le hname.lies.lt hle)
    fun range e₄ hle₄ hrange htokens => .pure fun e₅ he => ?_
  refine (Member.LaidIn.of_spans (LaidIn.upTo ?_ hle₄) hrange htokens).upTo he
  refine laidIn_method (hname.upTo (Nat.le_trans hle₁ hle₂)) (fun p hp => ?_) ?_ hbody hle₃
  · exact (hparameters.2 p hp).widen (Nat.le_max_left _ _) hle₂
  · have hreturn : LaidIn text start m
        ((returnType.map (·.addDims extra)).toList.map .typeRef) := by
      cases returnType with
      | none => exact .nil
      | some ref => exact .typeRef ((htype ref rfl).of_eq rfl rfl)
    rw [List.map_append, List.map_append]
    exact (hreturn.append hparameters.1 hle₁).append hthrows hle₂

theorem gives_fieldValue (hg : g.GivesNodes text) :
    Gives text lo m (fieldValue g) fun e init => LaidIn text lo e (Walk.exprOpt init) :=
  gives_orElse (hg.initializer.map fun _ _ h => h)
    (gives_skipToDeclaratorEnd.pass fun _ _ _ => gives_pure .nil)

/-- What a reader of fields of one declaration gives: a field of the type that stands before all of
them, with its value. The field takes the text from the start of the declaration on. -/
structure FieldIn (text : String) (start : Nat) (type : TypeRef) (lo hi : Nat)
    (field : FieldHead × Option Expr) : Prop where
  plain : field.1.isEnumConstant = false
  range_eq : field.1.type.range = type.range
  segments_eq : field.1.type.segments = type.segments
  laid : LaidIn text lo hi (.field field.1 field.2 :: Walk.exprOpt field.2)
  fits : (Part.member (.field field.1 field.2)).FitsIn text start hi

/-- A member is a field of the type. -/
def IsFieldIn (text : String) (start : Nat) (type : TypeRef) (lo hi : Nat) (mem : Member) : Prop :=
  ∃ field : FieldHead × Option Expr, mem = .field field.1 field.2 ∧
    FieldIn text start type lo hi field

theorem lasting_isFieldIn {type : TypeRef} : Lasting (IsFieldIn text start type lo) := by
  refine ⟨fun he ⟨field, hmem, h⟩ => ⟨field, hmem, ?_⟩⟩
  exact ⟨h.plain, h.range_eq, h.segments_eq, h.laid.upTo he, h.fits.widen (Nat.le_refl _) he⟩

/-- A field that is declared holds its name and its value; its type is no part. -/
theorem fitsIn_field {head : FieldHead} {init : Option Expr} {border hi : Nat}
    (hle : start ≤ border)
    (hnodes : LaidIn text border hi (.field head init :: Walk.exprOpt init))
    (hspans : head.range.Spans start hi) (htokens : head.range.OnTokens text) :
    (Part.member (.field head init)).FitsIn text start hi := by
  refine ⟨hspans.liesIn, htokens, fun node hnode range hrange => ?_⟩
  obtain ⟨hstart, hstop, -⟩ := hspans
  have hread := hnodes.read.widen hle (Nat.le_refl hi)
  rw [Part.range, Member.range, hstart, hstop]
  rcases List.mem_append.1 hnode with hnode | hnode
  · rcases List.mem_cons.1 hnode with rfl | hnode
    · exact (hread _ List.mem_cons_self).fits.ranges range hrange
    · obtain ⟨-, hnode⟩ := List.mem_ite_nil_left.1 hnode
      obtain rfl := List.mem_singleton.1 hnode
      cases hrange
  · exact (hread node (List.mem_cons_of_mem _ hnode)).fits.ranges range hrange

/-- A field whose name has been read behind an offset, and behind the start of its declaration. -/
theorem gives_fieldRest (hg : g.GivesNodes text) (mods : Modifiers) (type : TypeRef)
    (hstart : MayStart text start) {border : Nat} {name : Ident}
    (hname : name.ReadIn text border m) :
    Gives text lo m (fieldRest g mods type start name)
      fun e mem => start ≤ border → IsFieldIn text start type border e mem := by
  refine gives_dims.pass fun extra _ _ => (gives_eat _).pass fun _ _ _ => ?_
  refine .ite_bind (P := fun e init => LaidIn text (max border m) e (Walk.exprOpt init))
    (fun _ => ?_) (fun _ => gives_pure .nil) fun init e hle hinit => ?_
  · refine (gives_fieldValue hg).behind.imp fun e init h => h.widen ?_ (Nat.le_refl e)
    exact max_le (Nat.le_trans (Nat.le_of_lt hname.lies.lt) (Nat.le_max_right lo m))
      (Nat.le_max_right lo m)
  by_cases hborder : start ≤ border
  · have hpos : start < e :=
      Nat.lt_of_le_of_lt hborder (Nat.lt_of_lt_of_le hname.lies.lt hle)
    refine .rangeFrom_bind hstart hpos fun range e' hle' hrange htokens => ?_
    refine .pure fun e'' he _ => lasting_isFieldIn.upTo he ?_
    have hlaid : LaidIn text border e' (.field ⟨mods, type.addDims extra, name, false, range⟩
        init :: Walk.exprOpt init) :=
      (laidIn_field hname hinit hle).upTo hle'
    exact ⟨(_, init), rfl, rfl, rfl, rfl, hlaid, fitsIn_field hborder hlaid hrange htokens⟩
  · exact .rangeFrom_pass fun _ => .pure fun _ _ hle => absurd hle hborder

/-- **Fields of one declaration** were read behind their type. -/
theorem membersIn_fields {type : TypeRef} {mid hi : Nat} {ms : List Member}
    (htype : type.ReadIn text lo mid) (h : Rounds (IsFieldIn text lo type) (max lo mid) hi ms)
    (hle : mid ≤ hi) : MembersIn text lo hi ms := by
  obtain ⟨fields, rfl, hfields⟩ := Rounds.exists_map h
  have hall := (hfields.imp fun hf =>
    And.intro hf.plain (And.intro hf.range_eq hf.segments_eq)).forall_mem
  have hfits := (hfields.imp FieldIn.fits).all fun _ hhi hfits => hfits.widen (Nat.le_refl _) hhi
  have hwalk : Walk.members (fields.map fun field => .field field.1 field.2) =
      fields.flatMap fun field =>
        .field field.1 field.2 :: .typeRef field.1.type :: Walk.exprOpt field.2 := by
    rw [Walk.members_eq_flatMap, List.flatMap_map]
    refine List.flatMap_congr fun field hfield => ?_
    rw [Walk.member, (hall field hfield).1]
    rfl
  refine .of_plain ?_ (fun m hm => ?_) fun m hm => ?_
  · rw [hwalk]
    refine .declaredTogether htype (fun field hfield => ?_) (fun field hfield => ?_)
      (fun field hfield => ?_) (.flatMap (hfields.imp FieldIn.laid)) hle
    · rw [Node.typed?, (hall field hfield).1]
      rfl
    · exact (hall field hfield).2.1
    · exact (hall field hfield).2.2
  · obtain ⟨field, hfield, rfl⟩ := List.mem_map.1 hm
    exact hfits field hfield
  · obtain ⟨field, -, rfl⟩ := List.mem_map.1 hm
    exact id

theorem gives_fieldsRest (hg : g.GivesNodes text) (mods : Modifiers) {type : TypeRef} {mid : Nat}
    (htype : type.ReadIn text start mid) (hstart : MayStart text start) {name : Ident}
    (hname : name.ReadIn text (max start mid) m) :
    Gives text start m (fieldsRest g mods type start name) (MembersIn text start) := by
  have hmid : mid < m := Nat.lt_of_le_of_lt (Nat.le_max_right start mid) hname.lies.lt
  refine (gives_fieldRest hg mods type hstart hname).bind fun first e hle hfirst => ?_
  -- the fields that follow are read behind the first one, but start where the first one does
  refine (gives_many (R := fun lo hi mem => start ≤ lo → IsFieldIn text start type lo hi mem)
    fun lo m => ?_).behind.bind fun others e' hle' hothers => ?_
  · refine (gives_eat _).pass fun _ _ _ => .ite (fun _ => ?_) fun _ => .none
    refine gives_ident.bind fun other _ _ hother => ?_
    exact (gives_fieldRest hg mods type hstart hother).bind fun c _ _ hc =>
      .pure_some fun _ he hle => lasting_isFieldIn.upTo he (hc hle)
  · refine (gives_expect _).pass fun _ _ _ => .pure fun e'' he => ?_
    have hfields := hothers.imp_of_le fun hle hfield =>
      hfield (Nat.le_trans (Nat.le_max_left start e) hle)
    have hborder : max start e = max (max start mid) e := by omega
    rw [hborder] at hfields
    exact membersIn_fields htype
      (.cons (hfirst (Nat.le_max_left start mid)) (by omega) (hfields.upTo he)) (by omega)

theorem gives_nextIsConstructor (typeName : String) : GivesAny text (nextIsConstructor typeName) :=
  (gives_nextAre _ _).pass fun _ _ _ => .get_pass fun _ => .pure fun _ _ => True.intro

/-- A list of one member. -/
theorem gives_pure_member {mem : Member} (h : mem.LaidIn text lo m) :
    Gives text lo m (pure [mem]) (MembersIn text lo) :=
  .pure fun _ he => .singleton (h.upTo he)

theorem gives_member (hg : g.GivesNodes text) (typeName : String) :
    Gives text lo m (member g typeName) (MembersIn text lo) := by
  refine (gives_eat _).pass fun _ _ _ => .ite (fun _ => .pure fun _ _ => .nil) fun _ => ?_
  refine .offset_bind fun start hlo hstart => Gives.imp (P := MembersIn text start) ?_
    fun _ _ h => h.widen hlo (Nat.le_refl _)
  refine (gives_nextIs _).pass fun _ _ _ => ?_
  refine (gives_nextAre _ _).pass fun _ _ _ => .ite (fun _ => ?_) fun _ => ?_
  · refine (gives_eat _).pass fun isStatic _ _ => (gives_block hg).bind fun body _ _ hbody => ?_
    refine .rangeFrom_bind hstart hbody.1 fun range _ hle hrange htokens => gives_pure_member ?_
    refine .of_spans ?_ hrange htokens
    obtain ⟨stmts, blockRange⟩ := body
    exact (hbody.2.upTo hle).initializer
  · refine gives_modifiers.pass fun mods _ _ => gives_nextIsTypeDecl.pass fun _ _ _ => ?_
    refine .ite (fun _ => ?_) fun _ => gives_typeArguments.pass fun _ _ _ => ?_
    · exact (gives_typeDecl hg mods hstart).bind fun decl _ _ hdecl =>
        gives_pure_member (.of_type hdecl)
    · refine (gives_nextIsConstructor typeName).pass fun _ _ _ => .ite (fun _ => ?_) fun _ => ?_
      · refine gives_ident.bind fun name _ _ hname => ?_
        exact (gives_methodRest hg mods none nofun hname hstart).bind
          fun c _ _ hc => gives_pure_member hc
      · refine gives_typeRef.bind fun type e _ htype => ?_
        refine gives_ident.behind.bind fun name e' hle hname => ?_
        refine (gives_nextIs _).pass fun _ _ _ => .ite (fun _ => ?_) fun _ => ?_
        · exact (gives_methodRest hg mods (some type)
            (fun ref href => Option.some.inj href ▸ htype.upTo hle)
            (hname.widen (Nat.le_max_left _ _) (Nat.le_refl _)) hstart).bind
            fun c _ _ hc => gives_pure_member hc
        · exact gives_fieldsRest hg mods htype hstart hname

theorem gives_stmt (hg : g.GivesNodes text) :
    Gives text lo m (stmt g) fun e s => LaidIn text lo e (Walk.stmt s) := by
  refine .get_pass fun c => ?_
  split
  · exact .fail _
  · exact (gives_block hg).bind fun body _ _ hbody => gives_pure ((laidIn_block hbody.2).stmt rfl)
  · exact (gives_skip 1).pass fun _ _ _ => gives_pure (LaidIn.nil.stmt rfl)
  · split
    next hrest => exact (gives_skip 1).pass fun _ _ _ => gives_keywordStmt? hg hrest
    next => exact gives_plainStmt hg (gives_typeDecl hg)
  · refine .ite (fun _ => (gives_skip 2).pass fun _ _ _ => hg.stmt) fun _ => ?_
    refine .ite (fun _ => ?_) fun _ => gives_plainStmt hg (gives_typeDecl hg)
    refine (gives_skip 1).pass fun _ _ _ => (gives_parenExpr hg).bind fun lock _ _ hlock => ?_
    exact (gives_block hg).behind.bind fun body _ hle hbody =>
      gives_pure ((hlock.append (laidIn_block hbody.2) hle).stmt rfl)

/-! ## Texts -/

theorem Grammar.givesNodes_empty : Grammar.empty.GivesNodes text where
  expr := .fail _
  conditional := .fail _
  binary _ := .fail _
  unary := .fail _
  initializer := .fail _
  stmt := .fail _
  member _ := .fail _

/-- **One level** of the grammar keeps what the levels below it give. -/
theorem Grammar.GivesNodes.step (hg : g.GivesNodes text) : g.step.GivesNodes text where
  expr := gives_expr hg
  conditional := gives_conditional hg
  binary := gives_binary hg
  unary := gives_unary hg
  initializer := gives_initializer hg
  stmt := gives_stmt hg
  member := gives_member hg

theorem Grammar.givesNodes_ofDepth (text : String) (depth : Nat) :
    (Grammar.ofDepth depth).GivesNodes text := by
  induction depth with
  | zero => exact givesNodes_empty
  | succ depth ih => exact ih.step

end Parser

/-- An import was read from the text, between two offsets. -/
structure ImportDecl.ReadIn (text : String) (lo hi : Nat) (i : ImportDecl) : Prop where
  there : ∀ segment ∈ i.segments, Writes text i.range.start i.range.stop segment
  lies : i.range.LiesIn lo hi
  onTokens : i.range.OnTokens text

theorem ImportDecl.ReadIn.written {lo hi : Nat} {i : ImportDecl} (h : i.ReadIn text lo hi) :
    ∀ segment ∈ i.segments, WordOf text segment :=
  fun segment hmem => (h.there segment hmem).wordOf

theorem ImportDecl.ReadIn.widen {lo' hi hi' : Nat} {i : ImportDecl} (h : i.ReadIn text lo hi)
    (hlo : lo' ≤ lo) (hhi : hi ≤ hi') : i.ReadIn text lo' hi' :=
  ⟨h.there, h.lies.widen hlo hhi, h.onTokens⟩

/-- A unit was read from the text: its package, then its imports, then its types. -/
structure CompilationUnit.ReadIn (text : String) (border hi : Nat)
    (unit : CompilationUnit) : Prop where
  package : ∀ segment ∈ unit.packageSegments, WordOf text segment
  imports : ∀ i ∈ unit.imports, i.ReadIn text 0 border
  importsApart : unit.imports.Pairwise fun i j => i.range ≠ j.range
  types : MembersIn text border hi (unit.types.map .type)

/-- **The nodes of a unit** are apart from each other. -/
theorem CompilationUnit.ReadIn.spaced {border hi : Nat} {unit : CompilationUnit}
    (h : unit.ReadIn text border hi) : Spaced (Walk.unit unit) := by
  have htypes := h.types.laid.spaced
  rw [Walk.members_eq_flatMap, List.flatMap_map] at htypes
  exact htypes

/-- **The types in a unit** have their words where they stand, but for those of enum constants. -/
theorem CompilationUnit.ReadIn.typesThere {border hi : Nat} {unit : CompilationUnit}
    (h : unit.ReadIn text border hi) : TypesThere text (Walk.unit unit) := by
  have htypes := h.types.laid.there
  rw [Walk.members_eq_flatMap, List.flatMap_map] at htypes
  exact htypes

/-- The nodes of a unit were read behind its imports. -/
theorem CompilationUnit.ReadIn.nodes {border hi : Nat} {unit : CompilationUnit}
    (h : unit.ReadIn text border hi) : SourceSearch.ReadIn text border hi (Walk.unit unit) := by
  have htypes := h.types.read
  rw [Walk.members_eq_flatMap, List.flatMap_map] at htypes
  exact htypes

theorem CompilationUnit.ReadIn.writtenIn {border hi : Nat} {unit : CompilationUnit}
    (h : unit.ReadIn text border hi) : unit.WrittenIn (WordOf text) :=
  ⟨h.package, fun i hi => (h.imports i hi).written, h.nodes.writtenIn⟩

/-- An expression of a unit, and all that is under it, are written in the words. -/
theorem CompilationUnit.ReadIn.writtenIn_expr {border hi : Nat} {unit : CompilationUnit}
    (h : unit.ReadIn text border hi) {e : Expr} (he : .expr e ∈ Walk.unit unit) :
    SourceSearch.WrittenIn (WordOf text) (Walk.expr e) := by
  have hread := h.nodes _ he
  obtain ⟨kind, range⟩ := e
  rw [Walk.expr, writtenIn_cons]
  exact ⟨hread.written, hread.ordered⟩

namespace Parser

variable {g : Grammar}

theorem gives_packageDecl? :
    Gives text lo m packageDecl?
      (IfAny fun _ decl => ∀ segment ∈ decl.segments, WordOf text segment) := by
  refine ⟨fun {c} hlo hm => .get_bind fun hc => ?_⟩
  refine (gives_modifiers.at_cursor c).bind fun _ mid hmid _ => ?_
  refine (GivesAny.at_cursor (gives_eat _) mid).bind fun _ next hnext _ => ?_
  have hbefore := hmid.trans hnext
  refine .ite (fun _ => .of_before hbefore ?_) fun _ => .set_bind hc ?_
  · refine Gives.at_cursor (?_ : Gives text lo m _ _) (Nat.le_trans hlo hbefore.offset_le)
      (Nat.le_trans hm hbefore.lastEnd_le)
    refine .offset_bind fun start _ _ => gives_qualifiedName.pass fun segments _ hsegments => ?_
    refine .rangeFrom_pass fun range => (gives_expect _).pass fun _ _ _ => ?_
    exact .pure_some fun _ _ segment hmem => (hsegments.2.2 segment hmem).wordOf
  · exact Gives.none.at_cursor hlo hm

theorem gives_importDecl? :
    Gives text lo m importDecl? (IfAny (ImportDecl.ReadIn text lo)) := by
  refine (gives_eat _).pass fun _ _ _ => .ite (fun _ => ?_) fun _ => .none
  refine (gives_eat _).pass fun _ _ _ => .offset_bind fun start hlo hstart => ?_
  refine gives_qualifiedName.bind fun segments e _ hsegments => ?_
  refine (gives_nextAre _ _).pass fun _ _ _ => ?_
  refine .ite (fun _ => (gives_skip 2).pass fun _ _ _ => ?_) fun _ => ?_ <;>
  · refine .rangeFrom_bind hstart hsegments.1 fun range e' hle hrange htokens => ?_
    refine (gives_expect _).pass fun _ _ _ => ?_
    refine .pure_some fun _ he =>
      ⟨fun segment hmem => ?_, hrange.liesIn.widen hlo he, htokens⟩
    rw [hrange.start_eq, hrange.stop_eq]
    exact (hsegments.2.2 segment hmem).widen (Nat.le_refl _) hle

/-- Imports that were read one behind the other. -/
theorem importsIn {is : List ImportDecl} {hi : Nat}
    (h : Rounds (ImportDecl.ReadIn text) lo hi is) :
    (∀ i ∈ is, i.ReadIn text lo hi) ∧ is.Pairwise fun i j => i.range ≠ j.range := by
  induction h with
  | nil => exact ⟨by simp, .nil⟩
  | cons hi hmid _ ih =>
    obtain ⟨hall, hapart⟩ := ih
    refine ⟨List.forall_mem_cons.2 ⟨hi.widen (Nat.le_refl _) hmid, fun j hj => ?_⟩,
      List.pairwise_cons.2 ⟨fun j hj => ?_, hapart⟩⟩
    · exact (hall j hj).widen (Nat.le_max_left _ _) (Nat.le_refl _)
    · exact TextRange.ne_of_liesIn (hi.lies.widen (Nat.le_refl _) (Nat.le_max_right _ _))
        (hall j hj).lies

theorem gives_topLevel? (hg : g.GivesNodes text) :
    Gives text lo m (topLevel? g)
      (IfAny fun e decls => MembersIn text lo e (decls.map .type)) := by
  refine .get_pass fun c => .ite (fun _ => .none) fun _ => ?_
  refine (gives_eat _).pass fun _ _ _ => .ite (fun _ => .pure_some fun _ _ => .nil) fun _ => ?_
  refine .offset_bind fun start hlo hstart => gives_modifiers.pass fun mods _ _ => ?_
  refine (gives_typeDecl hg mods hstart).bind fun decl _ _ hdecl => .pure_some fun _ he => ?_
  exact .singleton (.of_type (hdecl.widen hlo he))

/-- **A unit** is read from its start to its end. -/
theorem gives_compilationUnit (hg : g.GivesNodes text) :
    Gives text 0 0 (compilationUnit g) fun e unit => ∃ border, unit.ReadIn text border e := by
  refine gives_packageDecl?.pass fun package _ hpackage => ?_
  refine (gives_many fun _ _ => gives_importDecl?).bind fun imports border _ himports => ?_
  refine (gives_many fun _ _ => gives_topLevel? hg).behind.bind
    fun types e _ htypes => .pure fun e' he => ?_
  obtain ⟨hall, hapart⟩ := importsIn himports
  refine ⟨border, ?_, hall, hapart, ?_⟩
  · intro segment hmem
    unfold CompilationUnit.packageSegments at hmem
    split at hmem
    next decl heq => exact hpackage decl heq segment hmem
    next => simp at hmem
  · have hmembers : MembersIn text (max 0 border) e (types.flatMap (List.map Member.type)) :=
      MembersIn.flatMap htypes
    rw [List.flatMap_def, ← List.map_flatten] at hmembers
    exact hmembers.widen (Nat.le_max_right 0 border) he

end Parser

/-- **The tree of a text** was read from the text, its imports before its types. -/
theorem parse_readIn {unit : CompilationUnit} (h : parse text = .ok unit) :
    ∃ border hi, unit.ReadIn text border hi := by
  unfold parse at h
  split at h
  next => cases h
  next tokens htokens =>
    rw [StateT.run'_eq] at h
    cases hrun : (Parser.compilationUnit (.ofDepth (tokens.length + 1))).run
        ⟨tokens, 0, text.utf8ByteSize⟩ with
    | error e =>
      rw [hrun] at h
      cases h
    | ok pair =>
      rw [hrun] at h
      obtain rfl : pair.1 = unit := Except.ok.inj h
      have hgives := Parser.gives_compilationUnit
        (Parser.Grammar.givesNodes_ofDepth text (tokens.length + 1))
      obtain ⟨-, -, border, hunit⟩ :=
        (hgives.at_cursor (Nat.zero_le _) (Nat.zero_le _)).of_ok (Cursor.sound_start htokens) hrun
      exact ⟨border, _, hunit⟩

/-- The tree of a text is written in the words that the index keeps of the text. -/
theorem parse_written {unit : CompilationUnit} (h : parse text = .ok unit) :
    unit.WrittenIn (WordOf text) := by
  obtain ⟨border, hi, hunit⟩ := parse_readIn h
  exact hunit.writtenIn

end SourceSearch
