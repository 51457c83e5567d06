import SourceSearch.Parser.Declarations
import SourceSearch.Proofs.TreeRanges

/-!
# What the readers of expressions give

Names, written types and expressions are read from the text, between the place where their reader
starts and the end of the last token that it reads. The readers of expressions, statements and
members are given the readers that go further inside, so each of them is looked at once, for all
depths (`Grammar.GivesNodes`).
-/

set_option autoImplicit false

namespace SourceSearch.Parser

variable {text : String} {lo m start : Nat} {α β : Type}

/-! ## Lasting answers -/

theorem lasting_const {P : α → Prop} : Lasting fun _ (a : α) => P a := ⟨fun _ h => h⟩

theorem lasting_laidIn {nodes : α → List Node} : Lasting fun e a => LaidIn text lo e (nodes a) :=
  ⟨fun he h => h.upTo he⟩

theorem lasting_typeRef : Lasting (TypeRef.ReadIn text lo) := ⟨fun he h => h.upTo he⟩

theorem gives_pure {border : Nat} {nodes : α → List Node} {a : α}
    (h : LaidIn text border m (nodes a)) :
    Gives text lo m (pure a) fun e a => LaidIn text border e (nodes a) :=
  .pure fun _ he => h.upTo he

theorem gives_pure_some (nodes : α → List Node) {a : α} (h : LaidIn text lo m (nodes a)) :
    Gives text lo m (pure (some a)) (IfAny fun e a => LaidIn text lo e (nodes a)) :=
  .pure_some fun _ he => h.upTo he

/-- What is read from the next token on is read behind everything that was read before. -/
theorem gives_fromOffset {nodes : α → List Node} {f : Nat → Parser α}
    (h : ∀ start, MayStart text start →
      Gives text start m (f start) fun e a => LaidIn text start e (nodes a)) :
    Gives text lo m (offset >>= f) fun e a => LaidIn text lo e (nodes a) :=
  .offset_bind fun start hlo hstart =>
    (h start hstart).imp fun _ _ ha => ha.widen hlo (Nat.le_refl _)

/-- A loop whose rounds have no place. -/
theorem gives_many_any {p : Parser (Option α)} {P : α → Prop}
    (h : ∀ {lo m}, Gives text lo m p (IfAny fun _ a => P a)) :
    Gives text lo m (many p) fun _ as => ∀ a ∈ as, P a :=
  (gives_many fun _ _ => h).imp fun _ _ has => has.forall_mem

/-! ## Names and written types -/

theorem gives_dottedName? :
    Gives text lo m dottedName? (IfAny fun e name => Writes text lo e name) := by
  refine (gives_nextAre _ _).pass fun _ _ _ => .ite (fun _ => ?_) fun _ => .none
  exact (gives_skip 1).pass fun _ _ _ => gives_ident.bind fun _ _ _ hname =>
    .pure_some fun _ he => hname.writes.widen (Nat.le_refl _) he

/-- Words that were read one behind the other. -/
theorem writes_of_rounds {names : List String} {hi : Nat}
    (h : Rounds (fun lo hi name => Writes text lo hi name) lo hi names) :
    ∀ name ∈ names, Writes text lo hi name :=
  h.all fun hlo hhi hname => hname.widen hlo hhi

theorem gives_qualifiedName :
    Gives text lo m qualifiedName fun e names =>
      lo < e ∧ names ≠ [] ∧ ∀ name ∈ names, Writes text lo e name := by
  refine gives_ident.bind fun first e _ hfirst => ?_
  refine (gives_many fun _ _ => gives_dottedName?).bind fun others e' hle hothers => ?_
  refine .pure fun e'' he => ⟨?_, by simp, List.forall_mem_cons.2 ⟨?_, fun name hname => ?_⟩⟩
  · exact Nat.lt_of_lt_of_le hfirst.lies.lt (Nat.le_trans hle he)
  · exact hfirst.writes.widen (Nat.le_refl _) (Nat.le_trans hle he)
  · exact (writes_of_rounds hothers name hname).widen (Nat.le_refl _) he

theorem gives_dims : GivesAny text dims := by
  refine (gives_many_any (P := fun _ => True) ?_).pass fun _ _ _ => .pure fun _ _ => True.intro
  intro lo m
  refine (gives_nextAre _ _).pass fun _ _ _ => .ite (fun _ => ?_) fun _ => .none
  exact (gives_skip 2).pass fun _ _ _ => .pure_some fun _ _ => True.intro

theorem gives_elementType : Gives text lo m elementType (TypeRef.ReadIn text lo) := by
  refine ⟨fun {c} hlo hm => .offset_bind (.get_bind fun hc => ?_)⟩
  split
  next p spelling range rest hrest =>
    refine .skip_bind hrest fun htoken hlies => .pure fun e he => ?_
    exact .of_there (Or.inl ⟨p, congrArg ([·]) (htoken.from.primitive p rfl)⟩) (hlies.widen hlo he)
      (htoken.onTokens hlies.pos)
  next =>
    refine Gives.at_cursor (?_ : Gives text c.offset m _ _) (Nat.le_refl _) hm
    refine gives_ident.bind fun first e _ hfirst => gives_typeArguments.pass fun _ _ _ => ?_
    refine (gives_many (R := fun lo e name => Writes text lo e name) fun lo m => ?_).bind
      fun others e' hle hothers => ?_
    · refine gives_dottedName?.bind fun o _ _ ho => ?_
      split
      next name =>
        refine gives_typeArguments.pass fun _ _ _ => .pure_some fun _ he => ?_
        exact (ho name rfl).widen (Nat.le_refl _) he
      next => exact .none
    · have hlt : c.offset < e' := Nat.lt_of_lt_of_le hfirst.lies.lt hle
      refine .rangeFrom_bind hc.mayStart hlt fun range e'' hle' hrange htokens => ?_
      refine .pure fun last he =>
        .of_there (Or.inr ⟨by simp, ?_⟩) (hrange.liesIn.widen hlo he) htokens
      rw [hrange.start_eq, hrange.stop_eq]
      refine List.forall_mem_cons.2 ⟨?_, fun name hname => ?_⟩
      · exact hfirst.writes.widen (Nat.le_refl _) (Nat.le_trans hle hle')
      · exact (writes_of_rounds hothers name hname).widen (Nat.le_refl _) hle'

/-- **A written type** is a primitive type or is made of words. -/
theorem gives_typeRef : Gives text lo m typeRef (TypeRef.ReadIn text lo) :=
  gives_elementType.bind fun _ _ _ h => gives_dims.pass fun _ _ _ => .pure fun _ he =>
    (h.upTo he).of_eq rfl rfl

theorem gives_typeList :
    Gives text lo m typeList fun e refs => LaidIn text lo e (refs.map .typeRef) :=
  (gives_sepByComma (fun _ => lasting_typeRef) fun _ _ => gives_typeRef).imp fun _ _ h =>
    .map_typeRef h

theorem gives_annotation : GivesAny text annotation := by
  refine (gives_expect _).pass fun _ _ _ => gives_qualifiedName.pass fun _ _ _ => ?_
  refine (gives_nextIs _).pass fun _ _ _ => .ite (fun _ => ?_) fun _ => .pure fun _ _ => True.intro
  exact (gives_skipBalanced _ _).imp fun _ _ _ => True.intro

theorem gives_modifier? (mods : Modifiers) :
    Gives text lo m (modifier? mods) (IfAny fun _ _ => True) := by
  refine .get_pass fun c => ?_
  split
  · refine .ite (fun _ => .none) fun _ => ?_
    exact gives_annotation.pass fun _ _ _ => .pure_some fun _ _ => True.intro
  · refine .ite (fun _ => .none) fun _ => ?_
    exact (gives_skip 1).pass fun _ _ _ => .pure_some fun _ _ => True.intro
  · exact .none

theorem gives_modifiers : GivesAny text modifiers :=
  gives_grow lasting_const (fun _ mods _ => gives_modifier? mods) True.intro

theorem gives_nextIsTypeDecl : GivesAny text nextIsTypeDecl := by
  refine .get_pass fun c => ?_
  split <;> exact .pure fun _ _ => True.intro

/-- A parameter was read from the text, between two offsets. -/
structure ParamIn (text : String) (lo hi : Nat) (p : Param) : Prop where
  type : p.type.ReadIn text lo hi
  name : p.name.SpelledIn text lo hi

theorem gives_param : Gives text lo m param (ParamIn text lo) := by
  refine gives_modifiers.pass fun _ _ _ => gives_typeRef.bind fun type _ _ htype => ?_
  refine (gives_eat _).pass fun _ _ _ => gives_ident.behind.bind fun name e hle hname => ?_
  refine gives_dims.pass fun _ _ _ => .pure fun _ he => ⟨?_, ?_⟩
  · exact (htype.upTo (by omega)).of_eq rfl rfl
  · exact hname.toSpelledIn.widen (Nat.le_max_left _ _) he

theorem gives_params :
    Gives text lo m params fun e ps => LaidIn text lo e ((ps.map (·.type)).map .typeRef) ∧
      ∀ p ∈ ps, p.name.SpelledIn text lo e := by
  refine (gives_parenthesized (R := ParamIn text)
    (fun _ => ⟨fun he h => ⟨h.type.upTo he, h.name.widen (Nat.le_refl _) he⟩⟩)
    fun _ _ => gives_param).imp fun e ps h => ⟨?_, ?_⟩
  · rw [List.map_map, List.map_eq_flatMap]
    exact .flatMap (h.2.imp fun hp => LaidIn.typeRef hp.type)
  · exact (h.2.imp ParamIn.name).all fun hlo hhi hname => hname.widen hlo hhi

theorem gives_nextIsLocalDecl : GivesAny text nextIsLocalDecl := gives_succeeds

/-! ## The recursive part of the grammar -/

/-- All readers that go further inside give nodes that were read where the readers have been, apart
from each other. -/
structure Grammar.GivesNodes (text : String) (g : Grammar) : Prop where
  expr : ∀ {lo m}, Gives text lo m g.expr fun e x => LaidIn text lo e (Walk.expr x)
  conditional : ∀ {lo m}, Gives text lo m g.conditional fun e x => LaidIn text lo e (Walk.expr x)
  binary : ∀ {lo m} least,
    Gives text lo m (g.binary least) fun e x => LaidIn text lo e (Walk.expr x)
  unary : ∀ {lo m}, Gives text lo m g.unary fun e x => LaidIn text lo e (Walk.expr x)
  initializer : ∀ {lo m}, Gives text lo m g.initializer fun e x => LaidIn text lo e (Walk.expr x)
  stmt : ∀ {lo m}, Gives text lo m g.stmt fun e s => LaidIn text lo e (Walk.stmt s)
  member : ∀ {lo m} typeName, Gives text lo m (g.member typeName) (MembersIn text lo)

variable {g : Grammar}

/-! ## Expressions -/

/-- **An expression ends** with the last token read. -/
theorem gives_exprEnd {kind : ExprKind} (hstart : MayStart text start)
    (hkind : kind.LaidIn text start m) (hpos : start < m) {f : Expr → Parser β}
    {Q : Nat → β → Prop}
    (hf : ∀ x e, m ≤ e → LaidIn text start e (Walk.expr x) → Gives text start e (f x) Q) :
    Gives text start m (rangeFrom start >>= fun range => f ⟨kind, range⟩) Q := by
  refine .rangeFrom_bind hstart hpos fun range e hle hrange htokens => hf _ e hle ?_
  exact laidIn_expr (hkind.upTo (hrange.stop_eq ▸ hle)) hrange.start_eq hrange.liesIn htokens

theorem gives_exprAt (kind : ExprKind) (hstart : MayStart text start)
    (hkind : kind.LaidIn text start m) (hpos : start < m) :
    Gives text start m (do return ⟨kind, ← rangeFrom start⟩)
      fun e x => LaidIn text start e (Walk.expr x) :=
  gives_exprEnd hstart hkind hpos fun _ _ _ => gives_pure

theorem gives_exprAt? (kind : ExprKind) (hstart : MayStart text start)
    (hkind : kind.LaidIn text start m) (hpos : start < m) :
    Gives text start m (do return some ⟨kind, ← rangeFrom start⟩)
      (IfAny fun e x => LaidIn text start e (Walk.expr x)) :=
  gives_exprEnd hstart hkind hpos (f := fun x => pure (some x)) fun _ _ _ => gives_pure_some _

/-- Expressions that were read one behind the other. -/
theorem laidIn_exprs {xs : List Expr} {hi : Nat}
    (h : Rounds (fun lo hi x => LaidIn text lo hi (Walk.expr x)) lo hi xs) :
    LaidIn text lo hi (Walk.exprs xs) := by
  rw [Walk.exprs_eq_flatMap]
  exact .flatMap h

theorem gives_arguments (hg : g.GivesNodes text) :
    Gives text lo m (arguments g) fun e xs => lo < e ∧ LaidIn text lo e (Walk.exprs xs) :=
  (gives_parenthesized (fun _ => lasting_laidIn) fun _ _ => hg.expr).imp fun _ _ h =>
    ⟨h.1, laidIn_exprs h.2⟩

/-- The statements of a block, which is not empty itself. -/
theorem gives_block (hg : g.GivesNodes text) :
    Gives text lo m (block g) fun e b => lo < e ∧ LaidIn text lo e (Walk.stmts b.stmts) := by
  refine .offset_bind fun start hlo _ => (gives_expect _).bind fun brace e _ hbrace => ?_
  refine (gives_manyUntil (fun _ => lasting_laidIn) fun _ _ => hg.stmt).bind
    fun stmts e' hle hstmts => .rangeFrom_pass fun range => .pure fun e'' he => ⟨?_, ?_⟩
  · have hlt := hbrace.2.2.lt
    omega
  · rw [Walk.stmts_eq_flatMap]
    exact (LaidIn.flatMap (hstmts.upTo he)).widen hlo (Nat.le_refl _)

theorem laidIn_block {b : Block} (h : LaidIn text lo m (Walk.stmts b.stmts)) :
    LaidIn text lo m (Walk.block b) := by
  obtain ⟨stmts, range⟩ := b
  rw [Walk.block]
  exact h.block

theorem gives_arrayItems (hg : g.GivesNodes text) :
    Gives text lo m (arrayItems g) fun e xs => lo < e ∧ LaidIn text lo e (Walk.exprs xs) := by
  refine (gives_expect _).bind fun brace e _ hbrace => ?_
  refine (gives_many (R := fun lo e x => LaidIn text lo e (Walk.expr x)) fun _ _ => ?_).bind
    fun items e' hle hitems => ?_
  · refine (gives_nextIs _).pass fun _ _ _ => .ite (fun _ => .none) fun _ => ?_
    refine hg.initializer.bind fun x _ _ hx => (gives_eat _).pass fun _ _ _ => ?_
    refine (gives_nextIs _).pass fun _ _ _ => .ite (fun _ => ?_) fun _ => ?_
    · exact (gives_expect _).pass fun _ _ _ => gives_pure_some _ hx
    · exact gives_pure_some _ hx
  · refine (gives_expect _).pass fun _ _ _ => .pure fun e'' he => ⟨?_, ?_⟩
    · exact Nat.lt_of_lt_of_le hbrace.2.2.lt (Nat.le_trans hle he)
    · exact laidIn_exprs (hitems.upTo he)

theorem gives_arrayInit (hg : g.GivesNodes text) :
    Gives text lo m (arrayInit g) fun e x => LaidIn text lo e (Walk.expr x) := by
  refine gives_fromOffset fun start hstart =>
    (gives_arrayItems hg).bind fun items e _ hitems => ?_
  exact gives_exprAt _ hstart (.of_unused (fun _ => rfl) nofun hitems.2) hitems.1

/-- **The members of a body** are read one behind the other. -/
theorem gives_membersUntil (hg : g.GivesNodes text) (typeName : String) {close : TokenKind}
    {message : String} :
    Gives text lo m (manyUntil close message (g.member typeName))
      fun e rounds => MembersIn text lo e rounds.flatten := by
  refine (gives_manyUntil (fun _ => ⟨fun he h => h.widen (Nat.le_refl _) he⟩)
    fun _ _ => hg.member typeName).imp fun e rounds hrounds => ?_
  have hflat : MembersIn text lo e (rounds.flatMap id) := MembersIn.flatMap hrounds
  rw [List.flatMap_id] at hflat
  exact hflat

theorem gives_classBody (hg : g.GivesNodes text) (typeName : String) :
    Gives text lo m (classBody g typeName) fun e ms => lo < e ∧ MembersIn text lo e ms := by
  refine (gives_expect _).bind fun brace e _ hbrace => ?_
  refine (gives_membersUntil hg typeName).bind fun rounds e' hle hrounds => .pure fun e'' he => ?_
  exact ⟨Nat.lt_of_lt_of_le hbrace.2.2.lt (Nat.le_trans hle he),
    hrounds.widen (Nat.le_refl _) he⟩

/-- The body of a class without a name, if there is one, was read between two offsets. -/
structure BodyIn (text : String) (lo hi : Nat) (body : Option (List Member)) : Prop where
  laid : LaidIn text lo hi (Walk.membersOpt body)
  fits : ∀ {type args}, ∀ m ∈ (ExprKind.new type args body).members,
    (Part.member m).FitsIn text lo hi

theorem BodyIn.none {lo hi : Nat} : BodyIn text lo hi none := ⟨.nil, nofun⟩

theorem BodyIn.widen {lo' hi hi' : Nat} {body : Option (List Member)} (h : BodyIn text lo hi body)
    (hlo : lo' ≤ lo) (hhi : hi ≤ hi') : BodyIn text lo' hi' body :=
  ⟨h.laid.widen hlo hhi, fun m hm => (h.fits m hm).widen hlo hhi⟩

theorem gives_body (hg : g.GivesNodes text) :
    Gives text lo m (some <$> classBody g "") (BodyIn text lo) :=
  (gives_classBody hg "").map fun _ _ h => ⟨h.2.laid, h.2.fits⟩

/-- A walk through the lengths that are there. -/
theorem exprs_filterMap_id (lengths : List (Option Expr)) :
    Walk.exprs (lengths.filterMap id) = lengths.flatMap Walk.exprOpt := by
  induction lengths with
  | nil => rfl
  | cons length lengths ih =>
    cases length with
    | none => exact ih
    | some length => exact congrArg (Walk.expr length ++ ·) ih

/-- The lengths of a new array, some of which are left out. -/
theorem gives_arrayLengths (hg : g.GivesNodes text) :
    Gives text lo m (many do
        if ← eat Symbol.lBracket then
          if ← eat Symbol.rBracket then return some none
          else
            let length ← g.expr
            let _ ← expect Symbol.rBracket
            return some (some length)
        else return none)
      fun e lengths => LaidIn text lo e (Walk.exprs (lengths.filterMap id)) := by
  refine (gives_many (R := fun lo e length => LaidIn text lo e (Walk.exprOpt length))
    fun lo m => ?_).imp fun e lengths h => ?_
  · refine (gives_eat _).pass fun _ _ _ => .ite (fun _ => ?_) fun _ => .none
    refine (gives_eat _).pass fun _ _ _ => .ite (fun _ => .pure_some fun _ _ => .nil) ?_
    refine fun _ => hg.expr.bind fun length _ _ hlength => (gives_expect _).pass fun _ _ _ => ?_
    exact gives_pure_some Walk.exprOpt hlength
  · rw [exprs_filterMap_id]
    exact .flatMap h

/-- **A creation** starts with the word `new`, and all of its parts stand behind that word. -/
theorem gives_creation (hg : g.GivesNodes text) (hstart : MayStart text start) (hpos : start < m) :
    Gives text start m (creation g start) fun e x => LaidIn text start e (Walk.expr x) := by
  refine gives_elementType.behind.bind fun type e hle htype => (gives_nextIs _).pass fun _ _ _ => ?_
  -- what stands behind the type stands behind the word too
  have hlt : start < max start m := by omega
  have hborder : ∀ {border}, e ≤ border → max (max start m) border ≤ max start border := by omega
  refine .ite (fun _ => ?_) fun _ => ?_
  · refine (gives_arrayLengths hg).behind.bind fun lengths e' hle' hlengths => ?_
    refine (gives_nextIs _).pass fun _ _ _ => ?_
    refine .ite_bind (P := fun e'' init => LaidIn text (max start e') e'' (Walk.exprsOpt init))
      (fun _ => (gives_arrayItems hg).behind.map fun _ _ h => h.2)
      (fun _ => .pure fun _ _ => .nil) fun init e'' hle'' hinit =>
        gives_exprAt _ hstart ?_ (by omega)
    have hlengths := hlengths.widen (hborder (Nat.le_refl e)) (Nat.le_refl _)
    have hinit := hinit.widen (hborder hle') (Nat.le_refl _)
    have htype : TypeRef.ReadIn text (max start m) e { type with dims := lengths.length } :=
      htype.of_eq rfl rfl
    refine .of_unused (fun _ => rfl) nofun (LaidIn.widen ?_ (Nat.le_of_lt hlt)
      (Nat.le_refl _))
    exact ((LaidIn.typeRef htype).append hlengths hle').append hinit hle''
  · refine (gives_arguments hg).behind.bind fun args e' hle' hargs => ?_
    refine (gives_nextIs _).pass fun _ _ _ => ?_
    refine .ite_bind (P := BodyIn text (max start e')) (fun _ => (gives_body hg).behind)
      (fun _ => .pure fun _ _ => .none) fun body e'' hle'' hbody =>
        gives_exprAt _ hstart ?_ (by omega)
    have hargs := hargs.2.widen (hborder (Nat.le_refl e)) (Nat.le_refl _)
    have hbody := hbody.widen (hborder hle') (Nat.le_refl _)
    refine .of_behind True.intro rfl (fun _ => rfl) rfl ?_ ?_ hlt
    · exact (hbody.widen (Nat.le_max_left _ _) (Nat.le_refl _)).fits
    · exact ((LaidIn.typeRef htype).append hargs hle').append hbody.laid hle''

/-- `this` and `super` are expressions, and with arguments they call a constructor. -/
theorem gives_selfExpr (hg : g.GivesNodes text) (onSuper : Bool) (kind : ExprKind)
    (hstart : MayStart text start) (hkind : kind.LaidIn text start m) (hpos : start < m) :
    Gives text start m (do
        if ← nextIs Symbol.lParen then
          let args ← arguments g
          return ⟨.constructorCall onSuper args, ← rangeFrom start⟩
        else return ⟨kind, ← rangeFrom start⟩) fun e x => LaidIn text start e (Walk.expr x) := by
  refine (gives_nextIs _).pass fun _ _ _ => .ite (fun _ => ?_) fun _ =>
    gives_exprAt _ hstart hkind hpos
  refine (gives_arguments hg).behind.bind fun args e hle hargs =>
    gives_exprAt _ hstart ?_ (by omega)
  exact .of_behind True.intro rfl (fun _ => rfl) rfl nofun hargs.2 (by omega)

theorem gives_primary (hg : g.GivesNodes text) :
    Gives text lo m (primary g) fun e x => LaidIn text lo e (Walk.expr x) := by
  refine ⟨fun {c} hlo hm => .offset_bind (.get_bind fun hc => GivesAt.imp
    (P := fun e x => LaidIn text c.offset e (Walk.expr x)) ?_
    fun _ _ hx => hx.widen hlo (Nat.le_refl _))⟩
  have hstart := hc.mayStart
  split
  next => exact .fail _
  next kind spelling range rest hrest =>
    -- an expression of one token
    have hleaf : ∀ kind : ExprKind, kind.LaidIn text c.offset range.stop →
        GivesAt text c c (do skip 1; return ⟨kind, ← rangeFrom c.offset⟩)
          fun e x => LaidIn text c.offset e (Walk.expr x) :=
      fun kind hkind => .skip_bind hrest fun _ hlies => gives_exprAt _ hstart hkind hlies.lt
    split
    · exact hleaf (.literal (.ofNumber spelling)) (.of_unused (fun _ => rfl) nofun .nil)
    · exact hleaf (.literal .string) (.of_unused (fun _ => rfl) nofun .nil)
    · exact hleaf (.literal .char) (.of_unused (fun _ => rfl) nofun .nil)
    · exact hleaf (.literal .boolean) (.of_unused (fun _ => rfl) nofun .nil)
    · exact hleaf (.literal .boolean) (.of_unused (fun _ => rfl) nofun .nil)
    · exact hleaf (.literal .null) (.of_unused (fun _ => rfl) nofun .nil)
    · exact .skip_bind hrest fun _ hlies =>
        gives_selfExpr hg false .this hstart (.of_unused (fun _ => rfl) nofun .nil) hlies.lt
    · exact .skip_bind hrest fun _ hlies =>
        gives_selfExpr hg true .super hstart (.of_unused (fun _ => rfl) nofun .nil) hlies.lt
    · refine .skip_bind hrest fun _ hlies => hg.expr.bind fun inner e _ hinner => ?_
      refine (gives_expect _).pass fun _ _ _ => ?_
      exact gives_exprAt (.paren inner) hstart (.of_unused (fun _ => rfl) nofun hinner)
        (lt_of_laidIn_expr hinner)
    · exact .skip_bind hrest fun _ hlies => gives_creation hg hstart hlies.lt
    · refine .skip_bind hrest fun htoken hlies => ?_
      have hname : Ident.ReadIn text c.offset range.stop ⟨spelling, range⟩ :=
        htoken.readIn rfl hlies
      refine (gives_nextIs _).pass fun _ _ _ => .ite (fun _ => ?_) fun _ => ?_
      · refine (gives_arguments hg).behind.bind fun args e hle hargs => ?_
        have hnone : LaidIn text c.offset c.offset (Walk.exprOpt none) := .nil
        refine gives_exprAt _ hstart (.of_call hnone ?_ hargs.2 hle) (by omega)
        rw [Nat.max_self]
        exact hname
      · exact gives_exprAt _ hstart (.of_name hname) hlies.lt
    · refine Gives.at_cursor (?_ : Gives text c.offset m _ _) (Nat.le_refl _) hm
      refine gives_typeRef.bind fun type e _ htype => (gives_expect _).pass fun _ _ _ => ?_
      refine (gives_expect _).pass fun _ _ _ => ?_
      exact gives_exprAt (.classLiteral type) hstart
        (.of_unused (fun _ => rfl) nofun (.typeRef htype)) htype.lies.lt
    · exact .fail _

/-- **The segments of a chain of names** are written where the chain stands. -/
theorem nameChain?_writes {kind : ExprKind} {range : TextRange} {segments : List String} {hi : Nat}
    (hchain : kind.nameChain? = some segments) (h : ReadIn text lo hi (Walk.expr ⟨kind, range⟩)) :
    segments ≠ [] ∧ ∀ segment ∈ segments, Writes text range.start range.stop segment := by
  induction kind using ExprKind.nameChain?.induct generalizing range segments lo hi with
  | case1 ident =>
    obtain ⟨hname, -⟩ := readIn_cons.1 h
    obtain rfl : [ident.text] = segments := by simpa [ExprKind.nameChain?] using hchain
    refine ⟨by simp, fun segment hmem => ?_⟩
    rw [List.mem_singleton.1 hmem]
    obtain ⟨-, -, hholds⟩ := hname.fits.parts _ List.mem_cons_self
    have hlies := hholds _ List.mem_cons_self ident.range List.mem_cons_self
    exact ((hname.fits.idents ident List.mem_cons_self).writes hname.written).widen
      hlies.start_le hlies.le_stop
  | case2 target targetRange field ih =>
    obtain ⟨hfield, htarget⟩ := readIn_cons.1 h
    rw [ExprKind.nameChain?] at hchain
    obtain ⟨before, hbefore, rfl⟩ := Option.map_eq_some_iff.1 hchain
    obtain ⟨-, -, hholds⟩ := hfield.fits.parts _ List.mem_cons_self
    refine ⟨by simp, fun segment hmem => ?_⟩
    rcases List.mem_append.1 hmem with hmem | hmem
    · have hlies := hholds _ (List.mem_cons_of_mem _ List.mem_cons_self) targetRange
        (by simp [Node.ranges, Node.parts, Part.range])
      exact ((ih hbefore htarget).2 segment hmem).widen hlies.start_le hlies.le_stop
    · rw [List.mem_singleton.1 hmem]
      have hlies := hholds _ List.mem_cons_self field.range List.mem_cons_self
      exact ((hfield.fits.idents field List.mem_cons_self).writes hfield.written).widen
        hlies.start_le hlies.le_stop
  | case3 kind hname haccess =>
    rw [ExprKind.nameChain?] at hchain
    · cases hchain
    · exact hname
    · exact haccess

theorem gives_selection (hg : g.GivesNodes text) (hstart : MayStart text start) {target : Expr}
    (htarget : LaidIn text start m (Walk.expr target)) :
    Gives text start m (selection g start target)
      fun e x => LaidIn text start e (Walk.expr x) := by
  have hpos := lt_of_laidIn_expr htarget
  -- a call on the target
  have hcall : ∀ {m' name}, m ≤ m' → name.ReadIn text (max start m) m' →
      Gives text start m' (do
        let args ← arguments g
        return ⟨.call (some target) name args, ← rangeFrom start⟩)
        fun e x => LaidIn text start e (Walk.expr x) := by
    intro m' name hm hname
    refine (gives_arguments hg).behind.bind fun args e hle hargs => ?_
    exact gives_exprAt _ hstart (.of_call htarget hname hargs.2 hle) (by omega)
  refine .get_pass fun c => ?_
  split
  · refine gives_typeArguments.pass fun _ _ _ => gives_ident.behind.bind fun name e hle hname => ?_
    exact hcall hle hname
  · refine gives_ident.behind.bind fun name e hle hname => (gives_nextIs _).pass fun _ _ _ => ?_
    refine .ite (fun _ => hcall hle hname) fun _ => ?_
    exact gives_exprAt _ hstart (.of_fieldAccess htarget hname) (by omega)
  · refine (gives_skip 1).pass fun _ _ _ => ?_
    split
    next segments hchain =>
      obtain ⟨kind, range⟩ := target
      have hsegments := nameChain?_writes hchain htarget.read
      have hexpr := (readIn_cons.1 htarget.read).1
      have htype : TypeRef.ReadIn text start m ⟨segments, 0, range⟩ :=
        .of_there (Or.inr hsegments) hexpr.lies.1 (hexpr.fits.parts _ List.mem_cons_self).onTokens
      exact gives_exprAt (.classLiteral ⟨segments, 0, range⟩) hstart
        (.of_unused (fun _ => rfl) nofun (.typeRef htype)) hpos
    next => exact .fail _
  · exact (gives_skip 1).pass fun _ _ _ =>
      gives_exprAt .this hstart (.of_unused (fun _ => rfl) nofun .nil) hpos
  · exact gives_primary hg
  · exact .fail _

theorem gives_suffix? (hg : g.GivesNodes text) (hstart : MayStart text start) {x : Expr}
    (hx : LaidIn text start m (Walk.expr x)) :
    Gives text start m (suffix? g start x)
      (IfAny fun e x => LaidIn text start e (Walk.expr x)) := by
  have hpos := lt_of_laidIn_expr hx
  refine .get_pass fun c => ?_
  split
  · exact (gives_skip 1).pass fun _ _ _ => (gives_selection hg hstart hx).some
  · refine (gives_skip 1).pass fun _ _ _ => hg.expr.behind.bind fun index e hle hindex => ?_
    refine (gives_expect _).pass fun _ _ _ => ?_
    exact gives_exprAt? (.arrayAccess x index) hstart
      (.of_unused (fun _ => rfl) nofun (hx.append hindex hle)) (by omega)
  · exact (gives_skip 1).pass fun _ _ _ =>
      gives_exprAt? (.unary .postInc x) hstart (.of_unused (fun _ => rfl) nofun hx) hpos
  · exact (gives_skip 1).pass fun _ _ _ =>
      gives_exprAt? (.unary .postDec x) hstart (.of_unused (fun _ => rfl) nofun hx) hpos
  · refine (gives_skip 1).pass fun _ _ _ => gives_typeArguments.pass fun _ _ _ => ?_
    refine ⟨fun {after} hlo hm => .get_bind fun hafter => ?_⟩
    split
    next spelling range rest hnew =>
      refine .skip_bind hnew fun htoken hlies => ?_
      have hafter : max start m ≤ after.offset :=
        max_le hlo (Nat.le_trans hm hafter.lastEnd_le_offset)
      have hspelled : Ident.SpelledIn text (max start m) range.stop ⟨"new", range⟩ := by
        have hkeyword := htoken.from.keyword .newKw rfl
        rw [show "new" = spelling from hkeyword.symm]
        exact (htoken.spelledIn hlies (Or.inr hkeyword)).widen hafter (Nat.le_refl _)
      refine Gives.later ?_ hlo (Nat.le_refl _)
      exact gives_exprAt? (.methodRef x ⟨"new", range⟩) hstart
        (.of_methodRef (Or.inr rfl) hx hspelled)
        (Nat.lt_of_le_of_lt (Nat.le_max_left start m) hspelled.lies.lt)
    next =>
      refine Gives.at_cursor (gives_ident.behind.bind fun name e hle hname => ?_) hlo hm
      exact gives_exprAt? (.methodRef x name) hstart
        (.of_methodRef (Or.inl hname.written) hx hname.toSpelledIn)
        (Nat.lt_of_le_of_lt (Nat.le_max_left start m) hname.lies.lt)
  · exact .none

theorem gives_operand (hg : g.GivesNodes text) :
    Gives text lo m (operand g) fun e x => LaidIn text lo e (Walk.expr x) :=
  gives_fromOffset fun _ hstart => (gives_primary hg).bind fun _ _ _ hx =>
    gives_grow lasting_laidIn (fun _ _ hx => gives_suffix? hg hstart hx) hx

/-- A lambda parameter was read from the text, between two offsets. -/
structure LambdaParamIn (text : String) (lo hi : Nat) (p : LambdaParam) : Prop where
  laid : LaidIn text lo hi (p.type.toList.map .typeRef)
  name : p.name.SpelledIn text lo hi

theorem lasting_lambdaParam : Lasting (LambdaParamIn text lo) :=
  ⟨fun he h => ⟨h.laid.upTo he, h.name.widen (Nat.le_refl _) he⟩⟩

theorem gives_lambdaParam : Gives text lo m lambdaParam (LambdaParamIn text lo) := by
  refine (gives_nextAre _ _).pass fun _ _ _ => (gives_nextAre _ _).pass fun _ _ _ => ?_
  refine .ite (fun _ => ?_) fun _ => ?_
  · refine gives_ident.bind fun name _ _ hname => .pure fun _ he => ⟨.nil, ?_⟩
    exact hname.toSpelledIn.widen (Nat.le_refl _) he
  · refine gives_modifiers.pass fun _ _ _ => gives_typeRef.bind fun type _ _ htype => ?_
    refine gives_ident.behind.bind fun name e hle hname => gives_dims.pass fun _ _ _ => ?_
    refine .pure fun _ he => ⟨.typeRef ?_, ?_⟩
    · exact (htype.upTo (by omega)).of_eq rfl rfl
    · exact hname.toSpelledIn.widen (Nat.le_max_left _ _) he

/-- Parameters that were read one behind the other. -/
theorem laidIn_lambdaParams {ps : List LambdaParam} {hi : Nat}
    (h : Rounds (LambdaParamIn text) lo hi ps) :
    LaidIn text lo hi ((ps.filterMap (·.type)).map .typeRef) ∧
      ∀ p ∈ ps, p.name.SpelledIn text lo hi := by
  rw [List.filterMap_eq_flatMap_toList, List.map_flatMap]
  exact ⟨.flatMap (h.imp LambdaParamIn.laid),
    (h.imp LambdaParamIn.name).all fun hlo hhi hname => hname.widen hlo hhi⟩

theorem gives_lambda (hg : g.GivesNodes text) :
    Gives text lo m (lambda g) fun e x => LaidIn text lo e (Walk.expr x) := by
  refine gives_fromOffset fun start hstart => (gives_nextIs _).pass fun _ _ _ => ?_
  refine .ite_bind (P := fun e ps => start < e ∧
      LaidIn text start e ((ps.filterMap (·.type)).map .typeRef) ∧
      ∀ p ∈ ps, p.name.SpelledIn text start e)
    (fun _ => gives_ident.map fun _ _ hname =>
      ⟨hname.lies.lt, .nil, by simpa using hname.toSpelledIn⟩)
    (fun _ => (gives_parenthesized (fun _ => lasting_lambdaParam) fun _ _ =>
      gives_lambdaParam).imp fun _ _ h => ⟨h.1, laidIn_lambdaParams h.2⟩)
    fun params e _ hparams => ?_
  obtain ⟨hlt, htypes, hnames⟩ := hparams
  refine (gives_expect _).pass fun _ _ _ => (gives_nextIs _).pass fun _ _ _ => ?_
  refine .ite_bind (P := fun e' body => LaidIn text (max start e) e' (Walk.lambdaBody body))
    (fun _ => (gives_block hg).behind.map fun _ _ h => laidIn_block h.2)
    (fun _ => hg.expr.behind.map fun _ _ h => h) fun body e' hle hbody => ?_
  refine gives_exprAt _ hstart (.of_unused (fun _ => rfl) ?_ (htypes.append hbody hle))
    (Nat.lt_of_lt_of_le hlt hle)
  intro name hname
  obtain ⟨p, hp, rfl⟩ := List.mem_map.1 hname
  exact (hnames p hp).widen (Nat.le_refl _) hle

theorem gives_castType : Gives text lo m castType (TypeRef.ReadIn text lo) :=
  (gives_expect _).pass fun _ _ _ => gives_typeRef.bind fun _ _ _ h =>
    (gives_expect _).pass fun _ _ _ => .pure fun _ he => h.upTo he

/-- A cast that is not there leaves the tokens as they are. -/
theorem gives_castType? : Gives text lo m castType? (IfAny (TypeRef.ReadIn text lo)) := by
  refine ⟨fun {c} hlo hm => ⟨fun {o next} hc h => ?_⟩⟩
  have hcast : ∀ {ref after}, castType c = .ok (ref, after) → after.Sound text ∧
      c.Before after ∧ IfAny (TypeRef.ReadIn text lo) after.lastEnd (some ref) := by
    intro ref after hok
    obtain ⟨hafter, hbefore, href⟩ := (gives_castType.at_cursor hlo hm).of_ok hc hok
    exact ⟨hafter, hbefore, fun _ heq => Option.some.inj heq ▸ href⟩
  unfold castType? at h
  split at h
  · cases hok : castType c with
    | error e => simp [hok, Except.map] at h
    | ok pair =>
      simp only [hok, Except.map, Except.ok.injEq, Prod.mk.injEq] at h
      obtain ⟨rfl, rfl⟩ := h
      exact hcast hok
  · split at h
    next ref after hok =>
      split at h <;> cases h
      · exact hcast hok
      · exact ⟨hc, .refl _, nofun⟩
    next =>
      cases h
      exact ⟨hc, .refl _, nofun⟩
  · cases h
    exact ⟨hc, .refl _, nofun⟩

theorem gives_unary (hg : g.GivesNodes text) :
    Gives text lo m (unary g) fun e x => LaidIn text lo e (Walk.expr x) := by
  refine gives_fromOffset fun start hstart => .get_pass fun c => ?_
  split
  next op _ =>
    refine (gives_skip 1).pass fun _ _ _ => hg.unary.bind fun x e _ hx => ?_
    exact gives_exprAt (.unary op x) hstart (.of_unused (fun _ => rfl) nofun hx)
      (lt_of_laidIn_expr hx)
  next =>
    refine (gives_nextIs _).pass fun _ _ _ => .ite (fun _ => ?_) fun _ => gives_operand hg
    refine gives_castType?.bind fun o e _ ho => ?_
    split
    next type =>
      have htype := ho type rfl
      refine .get_pass fun after => ?_
      refine .ite_bind (fun _ => (gives_lambda hg).behind) (fun _ => hg.unary.behind)
        fun x e' hle hx => ?_
      exact gives_exprAt (.cast type x) hstart
        (.of_unused (fun _ => rfl) nofun ((LaidIn.typeRef htype).append hx hle))
        (Nat.lt_of_lt_of_le htype.lies.lt hle)
    next => exact gives_operand hg

theorem gives_operatorTail? (hg : g.GivesNodes text) (least : Nat) (hstart : MayStart text start)
    {lhs : Expr} (hlhs : LaidIn text start m (Walk.expr lhs)) :
    Gives text start m (operatorTail? g least start lhs)
      (IfAny fun e x => LaidIn text start e (Walk.expr x)) := by
  have hpos := lt_of_laidIn_expr hlhs
  refine .get_pass fun c => ?_
  split
  next => exact .none
  next operator level width _ =>
    refine .ite (fun _ => .none) fun _ => (gives_skip width).pass fun _ _ _ => ?_
    split
    next =>
      refine gives_typeRef.behind.bind fun type e hle htype => (gives_eat _).pass fun _ _ _ => ?_
      exact gives_exprAt? (.instanceOf lhs type) hstart
        (.of_unused (fun _ => rfl) nofun (hlhs.append (.typeRef htype) hle))
        (Nat.lt_of_lt_of_le hpos hle)
    next op _ =>
      refine (hg.binary _).behind.bind fun rhs e hle hrhs => ?_
      exact gives_exprAt? (.binary op lhs rhs) hstart
        (.of_unused (fun _ => rfl) nofun (hlhs.append hrhs hle))
        (Nat.lt_of_lt_of_le hpos hle)

theorem gives_binary (hg : g.GivesNodes text) (least : Nat) :
    Gives text lo m (binary g least) fun e x => LaidIn text lo e (Walk.expr x) :=
  gives_fromOffset fun _ hstart => (gives_unary hg).bind fun _ _ _ hx =>
    gives_grow lasting_laidIn (fun _ _ hx => gives_operatorTail? hg least hstart hx) hx

theorem gives_conditional (hg : g.GivesNodes text) :
    Gives text lo m (conditional g) fun e x => LaidIn text lo e (Walk.expr x) := by
  refine gives_fromOffset fun start hstart => (gives_binary hg 0).bind fun cond e _ hcond => ?_
  refine (gives_eat _).pass fun _ _ _ => .ite (fun _ => ?_) fun _ => gives_pure hcond
  refine hg.expr.behind.bind fun yes e' hle hyes => (gives_expect _).pass fun _ _ _ => ?_
  refine hg.conditional.behind.bind fun no e'' hle' hno => ?_
  refine gives_exprAt (.conditional cond yes no) hstart (.of_unused (fun _ => rfl) nofun ?_)
    (Nat.lt_of_lt_of_le (lt_of_laidIn_expr hcond) (Nat.le_trans hle hle'))
  exact (hcond.append hyes hle).append hno hle'

theorem gives_expr (hg : g.GivesNodes text) :
    Gives text lo m (expr g) fun e x => LaidIn text lo e (Walk.expr x) := by
  refine .get_pass fun c => .ite (fun _ => gives_lambda hg) fun _ => ?_
  refine gives_fromOffset fun start hstart =>
    (gives_conditional hg).bind fun target e _ htarget => ?_
  refine .get_pass fun after => .ite (fun _ => ?_) fun _ => ?_
  · refine (gives_skip _).pass fun _ _ _ => hg.expr.behind.bind fun value e' hle hvalue => ?_
    exact gives_exprAt (.assign target value) hstart
      (.of_unused (fun _ => rfl) nofun (htarget.append hvalue hle))
      (Nat.lt_of_lt_of_le (lt_of_laidIn_expr htarget) hle)
  · refine (gives_nextIs _).pass fun _ _ _ => .ite (fun _ => .fail _) fun _ => ?_
    exact gives_pure htarget

theorem gives_initializer (hg : g.GivesNodes text) :
    Gives text lo m (initializer g) fun e x => LaidIn text lo e (Walk.expr x) :=
  (gives_nextIs _).pass fun _ _ _ => .ite (fun _ => gives_arrayInit hg) fun _ => gives_expr hg

end SourceSearch.Parser
