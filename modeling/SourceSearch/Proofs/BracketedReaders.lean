import SourceSearch.Proofs.Regions

/-!
# Readers keep to brackets

Two runs of a reader of the grammar that start at the same token of a region meet inside of the same
brackets, or both fail: `Parser.Leads v closings closings p` for every reader `p`. What stands
behind the region is not looked at, since a reader goes past no bracket that it has not opened.

Four readers go by other marks. Type arguments are skipped from one angle bracket to the other, the
arguments of an annotation from one parenthesis to the other, a body from brace to brace, and the
value of a field by a count of brackets of any kind. Of them it has to be asked that they keep to
the brackets that they start in (`Region.Skips`).

The heads of declarations are read without a second try, and so nothing is lost on them in a region
that is loose.
-/

set_option autoImplicit false

namespace SourceSearch

/-- Readers that skip tokens keep to the brackets that they start in, and do the same in both
texts. Arguments of an annotation stand behind a name, and values that are skipped behind a sign or
a word. -/
structure Region.Skips (v : Region) : Prop where
  typeArguments : ∀ {closing closings},
    Parser.Leads v (closing :: closings) (closing :: closings) Parser.typeArguments
  arguments : ∀ {closing closings c c' d d' n}, v.At (closing :: closings) c c' →
    v.At (closing :: closings) d d' → c.kindAt n = some .ident → d = c.skip (n + 1) →
      Parser.LeadsAt v d d' (closing :: closings)
        (Parser.skipBalanced Symbol.lParen Symbol.rParen)
  value : ∀ {closing closings c c'}, v.At (closing :: closings) c c' →
    c.kind? = some Symbol.eq ∨ c.kind? = some Modifier.defaultMod →
      closing = .rBrace ∨ closing :: closings = [.semi] →
        Parser.LeadsAt v c.advance c'.advance (closing :: closings) Parser.skipToDeclaratorEnd
  body : ∀ {closing closings},
    Parser.Leads v (closing :: closings) (closing :: closings)
      (Parser.skipBalanced Symbol.lBrace Symbol.rBrace)

namespace Parser

variable {α β : Type} {v : Region} {c c' : Cursor} {closing : Symbol}
  {closings inner mid outer : List Symbol} {kind : TokenKind}

/-! ## Names and types -/

/-- Two tokens that come next are read one after the other. -/
theorem leads_nextAre_bind {first second : TokenKind} {f : Bool → Parser β}
    (hborder : ¬first.IsBorder) (hname : v.loose → first = .ident → second = Symbol.lParen)
    (hleaves : ∀ n, Leaves n n (nextAre first second >>= f))
    (htrue : ∀ {c c' : Cursor}, v.At (closing :: closings) c c' → c.kind? = some first →
      c.kindAt 1 = some second → LeadsAt v c c' outer (f true))
    (hfalse : Leads v (closing :: closings) outer (f false)) :
    Leads v (closing :: closings) outer (nextAre first second >>= f) := by
  refine .of_leaves hleaves fun {c c'} hc => ?_
  refine LeadsAt.of_eq (q := f (c.nextIs first && c.kindAt 1 == some second)) ?_ rfl
    (congrFun (congrArg f (hc.nextAre_eq hborder hname)) c')
  cases hnext : c.nextIs first && c.kindAt 1 == some second with
  | false => exact hfalse.at_cursor hc
  | true =>
    obtain ⟨hfirst, hsecond⟩ := Bool.and_eq_true_iff.1 hnext
    exact htrue hc (eq_of_beq hfirst) (eq_of_beq hsecond)

theorem leads_dottedName? : Leads v (closing :: closings) (closing :: closings) dottedName? :=
  leads_nextAre_bind (by decide) (fun _ => nofun) (fun _ => leaves_dottedName?)
    (fun hc hfirst _ => .skip_bind hc hfirst rfl (leads_ident.bind fun _ => .pure _)) (.pure _)

theorem leads_qualifiedName :
    Leads v (closing :: closings) (closing :: closings) qualifiedName :=
  leads_ident.bind fun _ => (leads_many advances_dottedName? leads_dottedName?).bind fun _ =>
    .pure _

/-- A name that is read is one token. -/
theorem of_ident_eq_ok {name : Ident} {d : Cursor} (h : ident c = .ok (name, d)) :
    c.kindAt 0 = some .ident ∧ d = c.skip 1 := by
  obtain ⟨t, mid, hexpect, hok⟩ := of_bind_eq_ok h
  cases hok
  obtain ⟨hnext, rfl⟩ := of_expect_eq_ok hexpect
  refine ⟨?_, rfl⟩
  rw [← eq_of_beq hnext, Cursor.kindAt, Cursor.kind?, List.head?_eq_getElem?]

/-- A point and a name are two tokens, and where they do not come next nothing is read. -/
theorem of_dottedName?_eq_ok {o : Option String} {d : Cursor} (h : dottedName? c = .ok (o, d)) :
    d = c ∨ c.kindAt 1 = some .ident ∧ d = c.skip 2 := by
  replace h : (if c.nextIs Symbol.dot && c.kindAt 1 == some .ident then (do
      skip 1
      return some (← ident).text)
    else return none : Parser (Option String)) c = .ok (o, d) := h
  split at h
  next hnext =>
    obtain ⟨_, mid, hskip, h⟩ := of_bind_eq_ok h
    cases hskip
    obtain ⟨name, mid, hname, h⟩ := of_bind_eq_ok h
    cases h
    exact .inr ⟨eq_of_beq (Bool.and_eq_true_iff.1 hnext).2, (of_ident_eq_ok hname).2⟩
  next =>
    cases h
    exact .inl rfl

/-- The last token of a name with points in it is an identifier. -/
theorem exists_kindAt_of_qualifiedName {names : List String} {d : Cursor}
    (h : qualifiedName c = .ok (names, d)) :
    ∃ n, c.kindAt n = some .ident ∧ d = c.skip (n + 1) := by
  -- every round that reads something ends with a name
  have hround : ∀ {mid next : Cursor} {o : Option String},
      (∃ n, c.kindAt n = some .ident ∧ mid = c.skip (n + 1)) → dottedName? mid = .ok (o, next) →
        ∃ n, c.kindAt n = some .ident ∧ next = c.skip (n + 1) := by
    rintro mid next o ⟨n, hkind, rfl⟩ hok
    obtain rfl | ⟨hname, rfl⟩ := of_dottedName?_eq_ok hok
    · exact ⟨n, hkind, rfl⟩
    · refine ⟨n + 2, ?_, c.skip_skip _ _⟩
      rwa [Cursor.kindAt, Cursor.rest_skip, List.getElem?_drop] at hname
  have hrounds : ∀ {others : List String} {mid : Cursor},
      (∃ n, c.kindAt n = some .ident ∧ mid = c.skip (n + 1)) →
        many dottedName? mid = .ok (others, d) →
          ∃ n, c.kindAt n = some .ident ∧ d = c.skip (n + 1) := by
    intro others
    induction others with
    | nil => exact fun hmid hok => hround hmid (advances_dottedName?.many_eq_nil_iff.1 hok)
    | cons name others ih =>
      intro mid hmid hok
      obtain ⟨next, hname, hrest⟩ := advances_dottedName?.many_eq_cons_iff.1 hok
      exact ih (hround hmid hname) hrest
  obtain ⟨first, mid, hfirst, h⟩ := of_bind_eq_ok h
  obtain ⟨others, last, hothers, h⟩ := of_bind_eq_ok h
  cases h
  exact hrounds ⟨0, of_ident_eq_ok hfirst⟩ hothers

theorem leads_emptyPair? : Leads v (closing :: closings) (closing :: closings) emptyPair? := by
  refine leads_nextAre_bind (by decide) (fun _ => nofun) (fun _ => ?_)
    (fun hc hfirst hsecond => .skip_two_bind hc hfirst rfl hsecond rfl (.pure _)) (.pure _)
  exact (leaves_nextAre _ _).bind fun _ => .ite ((leaves_skip 2).bind fun _ => .done) .done

theorem leads_dims : Leads v (closing :: closings) (closing :: closings) dims := by
  rw [dims_eq]
  exact (leads_many advances_emptyPair? leads_emptyPair?).bind fun _ => .pure _

section Types

variable (hv : v.Skips)

include hv

theorem leads_typeSegment? : Leads v (closing :: closings) (closing :: closings) typeSegment? := by
  refine leads_dottedName?.bind fun o => ?_
  split
  · exact hv.typeArguments.bind fun _ => .pure _
  · exact .pure _

theorem leads_elementType : Leads v (closing :: closings) (closing :: closings) elementType := by
  have hnamed : ∀ start, Leads v (closing :: closings) (closing :: closings) (do
      let first ← ident
      typeArguments
      let others ← many typeSegment?
      return (⟨first.text :: others, 0, ← rangeFrom start⟩ : TypeRef)) := fun start =>
    leads_ident.bind fun _ => hv.typeArguments.bind fun _ =>
      (leads_many advances_typeSegment? (leads_typeSegment? hv)).bind fun _ => leads_ranged _ _
  refine .of_leaves (fun _ => leaves_elementType.of_read) fun {c c'} hc => .offset_bind hc ?_
  obtain ⟨hrest, hrest'⟩ | ⟨⟨kind, text, range⟩, later, later', hrest, hrest', -⟩ := hc.exists_heads
  · refine .get_bind (by rw [hrest, hrest']) ?_
    rw [hrest]
    exact (hnamed _).at_cursor hc
  · have hnext : c.kind? = some kind := by rw [Cursor.kind?, hrest]; rfl
    refine .get_bind (by rw [hrest, hrest']; cases kind <;> rfl) ?_
    rw [hrest]
    split
    next heq =>
      cases heq
      exact .skip_bind hc hnext rfl (.pure _)
    next => exact (hnamed _).at_cursor hc

theorem leads_typeRef : Leads v (closing :: closings) (closing :: closings) typeRef :=
  (leads_elementType hv).bind fun _ => leads_dims.bind fun _ => .pure _

theorem leads_typeList :
    Leads v (.rBrace :: closings) (.rBrace :: closings) typeList :=
  leads_sepByComma rfl (fun _ => leaves_typeRef.of_read) (leads_typeRef hv)

theorem leads_annotation : Leads v (closing :: closings) (closing :: closings) annotation := by
  refine (leads_expect rfl).bind fun _ => .of_leaves (fun _ => ?_) fun {c c'} hc => ⟨?_⟩
  · refine leaves_qualifiedName.pass fun _ => (leaves_nextIs _).bind fun _ => ?_
    exact .ite (leaves_skipBalanced _ _).of_read .done
  · refine (leads_qualifiedName.at_cursor hc).meets.bind (fun hok hat => ?_)
      fun _ _ _ _ _ _ hok => ?_
    · obtain ⟨n, hkind, hd⟩ := exists_kindAt_of_qualifiedName hok
      refine LeadsAt.meets (.nextIs_bind hat (.ite (fun _ => ?_) fun _ => ?_))
      · exact hv.arguments hc hat hkind hd
      · exact (Leads.pure _).at_cursor hat
    · have hleaves : ∀ n, Leaves n n (do
          if ← nextIs Symbol.lParen then skipBalanced Symbol.lParen Symbol.rParen) := fun _ =>
        (leaves_nextIs _).bind fun _ => .ite (leaves_skipBalanced _ _).of_read .done
      exact Nat.le_of_lt_succ (((hleaves _).at_cursor (Nat.lt_succ_self _)).lt_of_ok hok)

theorem leads_modifier? (mods : Modifiers) :
    Leads v (closing :: closings) (closing :: closings) (modifier? mods) := by
  refine .of_leaves (fun _ => leaves_modifier? mods) fun {c c'} hc => .get_bind ?_ ?_
  · rw [hc.kind?_eq]
    split
    next hnext => rw [hc.kindAt_one_eq hnext (by decide) fun _ => nofun]
    next hnext => rw [hc.kindAt_one_eq hnext (by rintro (h | h | h) <;> cases h) fun _ => nofun]
    next => rfl
  · split
    · refine .ite (fun _ => (Leads.pure _).at_cursor hc) fun _ => Leads.at_cursor ?_ hc
      refine Leads.bind ?_ fun _ => .pure _
      exact leads_annotation hv
    next hnext =>
      refine .ite (fun _ => (Leads.pure _).at_cursor hc) fun _ => ?_
      exact .skip_bind hc hnext rfl (.pure _)
    · exact (Leads.pure _).at_cursor hc

theorem leads_modifiers : Leads v (closing :: closings) (closing :: closings) modifiers :=
  leads_grow advances_modifier? (leads_modifier? hv) _

theorem leads_param : Leads v (closing :: closings) (closing :: closings) param := by
  refine (leads_modifiers hv).bind fun _ => (leads_typeRef hv).bind fun _ =>
    (leads_eat rfl).bind fun _ => ?_
  exact leads_ident.bind fun _ => leads_dims.bind fun _ => .pure _

theorem leads_params : Leads v (closing :: closings) (closing :: closings) params :=
  leads_parenthesized (fun _ => leaves_param.of_read) (leads_param hv)

end Types

theorem leads_nextIsTypeDecl :
    Leads v (closing :: closings) (closing :: closings) nextIsTypeDecl := by
  refine .of_leaves (fun _ => leaves_nextIsTypeDecl) fun {c c'} hc => .get_bind ?_ ?_
  · rw [hc.kind?_eq]
    split
    next => rfl
    next => rfl
    next => rfl
    next hnext => rw [hc.kindAt_one_eq hnext (by decide) fun _ => nofun]
    next => rfl
  · split <;> exact (Leads.pure _).at_cursor hc

theorem leads_nextIsLocalDecl (hv : v.Skips) (hsettled : ¬v.loose) :
    Leads v (closing :: closings) (closing :: closings) nextIsLocalDecl := by
  have hsucceeds : ∀ {p : Parser Unit}, Leads v (closing :: closings) (closing :: closings) p →
      Leads v (closing :: closings) (closing :: closings) (succeeds p) := leads_succeeds hsettled
  refine hsucceeds ((leads_typeRef hv).bind fun _ => leads_ident.bind fun _ => ?_)
  refine .of_settled hsettled fun {c c'} hc => .get_bind (by rw [hc.kind?_eq]) ?_
  split <;> first | exact (Leads.pure _).at_cursor hc | exact .fail _

/-! ## What expressions look at -/

section Looks

variable (hv : ¬v.loose) (hc : v.At (closing :: closings) c c')

include hc

theorem signOp?_eq : c'.signOp? = c.signOp? := by
  rw [Cursor.signOp?, Cursor.signOp?, hc.kind?_eq]

theorem nextIsCastOperand_eq : c'.nextIsCastOperand = c.nextIsCastOperand := by
  rw [Cursor.nextIsCastOperand, Cursor.nextIsCastOperand, hc.kind?_eq]

include hv

/-- An arrow is not looked for behind a brace or a semicolon. -/
theorem arrowFollows_eq (depth : Nat) :
    Cursor.arrowFollows depth c'.rest = Cursor.arrowFollows depth c.rest := by
  obtain rfl | ⟨left, hrest, hrest', last, hlast, hborder⟩ := hc.eq_or_sealed hv
  · rfl
  rw [hrest, hrest']
  clear hc hrest hrest'
  induction left generalizing depth with
  | nil => cases hlast
  | cons t left ih =>
    cases left with
    | nil =>
      cases hlast
      obtain ⟨kind, text, range⟩ := t
      obtain rfl | rfl | rfl := hborder <;> rfl
    | cons u left =>
      have hrest := fun depth => ih depth (by simpa using hlast)
      show Cursor.arrowFollows depth (t :: (u :: left ++ v.after')) =
        Cursor.arrowFollows depth (t :: (u :: left ++ v.after))
      rw [Cursor.arrowFollows.eq_2 depth t, Cursor.arrowFollows.eq_2 depth t]
      split
      · exact hrest _
      · split
        · rfl
        · exact hrest _
      · rfl
      · rfl
      · rfl
      · exact hrest _

theorem nextIsLambda_eq : c'.nextIsLambda = c.nextIsLambda := by
  rw [Cursor.nextIsLambda, Cursor.nextIsLambda, hc.kind?_eq]
  split
  next hnext => rw [hc.kindAt_one_eq hnext (by decide) fun hloose => absurd hloose hv]
  next => exact arrowFollows_eq hv hc 0
  next => rfl

/-- Adjacent brackets are looked at one after the other. -/
theorem adjacent_zero_eq (hnext : c.kind? = some kind) (hborder : ¬kind.IsBorder) :
    c'.adjacent 0 = c.adjacent 0 := by
  rw [Cursor.adjacent, Cursor.adjacent, hc.getElem?_one_eq hv hnext hborder,
    ← List.head?_eq_getElem?, ← List.head?_eq_getElem?, hc.head?_eq]

theorem adjacent_one_eq (hnext : c.kind? = some kind) (hborder : ¬kind.IsBorder)
    {second : TokenKind} (hsecond : c.kindAt 1 = some second) (hborder' : ¬second.IsBorder) :
    c'.adjacent 1 = c.adjacent 1 ∧ c'.kindAt 2 = c.kindAt 2 := by
  have htwo := hc.getElem?_two_eq hv hnext hborder hsecond hborder'
  rw [Cursor.adjacent, Cursor.adjacent, hc.getElem?_one_eq hv hnext hborder, htwo,
    Cursor.kindAt, Cursor.kindAt, htwo]
  exact ⟨rfl, rfl⟩

theorem shiftAssignWidth?_eq : c'.shiftAssignWidth? = c.shiftAssignWidth? := by
  unfold Cursor.shiftAssignWidth?
  rw [hc.nextIs_eq]
  cases hgt : c.nextIs Symbol.gt with
  | false => rfl
  | true =>
    have hnext : c.kind? = some (.symbol .gt) := eq_of_beq hgt
    have hone : c'.kindAt 1 = c.kindAt 1 :=
      hc.kindAt_one_eq hnext (by decide) fun hloose => absurd hloose hv
    rw [adjacent_zero_eq hv hc hnext (by decide), hone]
    by_cases hsecond : c.kindAt 1 = some (.symbol .gt)
    · obtain ⟨hadjacent, htwo⟩ := adjacent_one_eq hv hc hnext (by decide) hsecond (by decide)
      rw [hadjacent, htwo]
    · simp [hsecond]

theorem operator?_eq : c'.operator? = c.operator? := by
  unfold Cursor.operator?
  rw [shiftAssignWidth?_eq hv hc, hc.kind?_eq]
  split
  · rfl
  · split
    · rfl
    next s hnext =>
      by_cases hgt : s = .gt
      · subst hgt
        have hone : c'.kindAt 1 = c.kindAt 1 :=
          hc.kindAt_one_eq hnext (by decide) fun hloose => absurd hloose hv
        dsimp only
        rw [adjacent_zero_eq hv hc hnext (by decide), hone]
        by_cases hsecond : c.kindAt 1 = some (.symbol .gt)
        · obtain ⟨hadjacent, htwo⟩ := adjacent_one_eq hv hc hnext (by decide) hsecond (by decide)
          rw [hadjacent, htwo]
        · simp [hsecond]
      · cases s <;> first | exact absurd rfl hgt | rfl
    · rfl

theorem assignWidth_eq : c'.assignWidth = c.assignWidth := by
  rw [Cursor.assignWidth, Cursor.assignWidth, shiftAssignWidth?_eq hv hc, hc.kind?_eq]

end Looks

/-! ## The recursive part of the grammar -/

/-- All readers that go further inside keep to the brackets that they are in; statements and members
stand in braces. -/
structure Grammar.KeepsTo (v : Region) (g : Grammar) : Prop where
  settled : ¬v.loose
  skips : v.Skips
  readsOn : g.ReadsOn
  expr : ∀ {closing closings}, Leads v (closing :: closings) (closing :: closings) g.expr
  conditional : ∀ {closing closings},
    Leads v (closing :: closings) (closing :: closings) g.conditional
  binary : ∀ {closing closings} least,
    Leads v (closing :: closings) (closing :: closings) (g.binary least)
  unary : ∀ {closing closings}, Leads v (closing :: closings) (closing :: closings) g.unary
  initializer : ∀ {closing closings},
    Leads v (closing :: closings) (closing :: closings) g.initializer
  stmt : ∀ {closings}, Leads v (.rBrace :: closings) (.rBrace :: closings) g.stmt
  member : ∀ {closings} typeName,
    Leads v (.rBrace :: closings) (.rBrace :: closings) (g.member typeName)

variable {g : Grammar}

/-! ## Expressions -/

/-- Reads a block from behind its opening brace. -/
def blockRest (g : Grammar) (start : Nat) : Parser Block := do
  let stmts ← manyUntil Symbol.rBrace "unterminated block" g.stmt
  return ⟨stmts, ← rangeFrom start⟩

theorem block_eq : block g = (do
    let start ← offset
    let _ ← expect Symbol.lBrace
    blockRest g start) := rfl

section Expressions

variable (hg : g.KeepsTo v)

include hg

theorem leads_arguments : Leads v (closing :: closings) (closing :: closings) (arguments g) :=
  leads_parenthesized (fun _ => hg.readsOn.expr.of_read) hg.expr

theorem leads_blockRest (start : Nat) :
    Leads v (.rBrace :: closings) closings (blockRest g start) :=
  (leads_manyUntil rfl (fun _ => hg.readsOn.stmt) hg.stmt).bind fun _ => leads_ranged _ _

theorem leads_block : Leads v (closing :: closings) (closing :: closings) (block g) :=
  leads_offset.bind fun start => (leads_expect rfl).bind fun _ => leads_blockRest hg start

theorem leads_arrayItems : Leads v (closing :: closings) (closing :: closings) (arrayItems g) := by
  rw [arrayItems_eq]
  refine (leads_expect rfl).bind fun _ => (leads_many (advances_arrayItem? hg.readsOn) ?_).bind
    fun _ => (leads_expect rfl).bind fun _ => .pure _
  refine (leads_nextIs _).bind fun _ => .ite (.pure _) ?_
  exact hg.initializer.bind fun _ => leads_separator rfl

theorem leads_arrayInit : Leads v (closing :: closings) (closing :: closings) (arrayInit g) :=
  leads_offset.bind fun _ => (leads_arrayItems hg).bind fun _ => leads_ranged _ _

theorem leads_classBody (typeName : String) :
    Leads v (closing :: closings) (closing :: closings) (classBody g typeName) := by
  refine (leads_expect rfl).bind fun _ => ?_
  exact (leads_manyUntil rfl (fun _ => hg.readsOn.member typeName) (hg.member typeName)).bind
    fun _ => .pure _

theorem leads_bracketPair? :
    Leads v (closing :: closings) (closing :: closings) (bracketPair? g) := by
  refine .eat_bind rfl ?_ (.pure _)
  refine .eat_bind rfl (.pure _) ?_
  exact hg.expr.bind fun _ => (leads_expect rfl).bind fun _ => .pure _

theorem leads_creation (start : Nat) :
    Leads v (closing :: closings) (closing :: closings) (creation g start) := by
  refine (leads_elementType hg.skips).bind fun _ => (leads_nextIs _).bind fun _ => .ite ?_ ?_
  · refine (leads_many (advances_bracketPair? fun _ => hg.readsOn.expr)
      (leads_bracketPair? hg)).bind fun _ => (leads_nextIs _).bind fun _ => ?_
    exact .ite_bind ((leads_arrayItems hg).map _) (.pure _) fun _ => leads_ranged _ _
  · refine (leads_arguments hg).bind fun _ => (leads_nextIs _).bind fun _ => ?_
    exact .ite_bind ((leads_classBody hg "").map _) (.pure _) fun _ => leads_ranged _ _

/-- `this` and `super` are expressions, and with arguments they call a constructor. -/
theorem leads_selfExpr (onSuper : Bool) (kind : ExprKind) (start : Nat) :
    Leads v (closing :: closings) (closing :: closings) (do
        if ← nextIs Symbol.lParen then
          let args ← arguments g
          return (⟨.constructorCall onSuper args, ← rangeFrom start⟩ : Expr)
        else return ⟨kind, ← rangeFrom start⟩) :=
  (leads_nextIs _).bind fun _ =>
    .ite ((leads_arguments hg).bind fun _ => leads_ranged _ _) (leads_ranged _ _)

theorem leads_primary : Leads v (closing :: closings) (closing :: closings) (primary g) := by
  refine .of_settled hg.settled fun {c c'} hc => .offset_bind hc ?_
  obtain ⟨hrest, hrest'⟩ | ⟨⟨kind, text, range⟩, later, later', hrest, hrest', -⟩ := hc.exists_heads
  · refine .get_bind (by rw [hrest, hrest']) ?_
    rw [hrest]
    exact .fail _
  · have hnext : c.kind? = some kind := by rw [Cursor.kind?, hrest]; rfl
    refine .get_bind (by rw [hrest, hrest']) ?_
    rw [hrest]
    -- an expression of one token
    have hleaf : ∀ kind' : ExprKind,
        closingsPast (closing :: closings) kind = some (closing :: closings) →
        LeadsAt v c c' (closing :: closings) (do
          skip 1
          return (⟨kind', ← rangeFrom c.offset⟩ : Expr)) :=
      fun _ hkind => .skip_bind hc hnext hkind (leads_ranged _ _)
    dsimp only
    split
    · exact hleaf _ rfl
    · exact hleaf _ rfl
    · exact hleaf _ rfl
    · exact hleaf _ rfl
    · exact hleaf _ rfl
    · exact hleaf _ rfl
    · exact .skip_bind hc hnext rfl (leads_selfExpr hg _ _ _)
    · exact .skip_bind hc hnext rfl (leads_selfExpr hg _ _ _)
    · refine .skip_bind hc hnext rfl ?_
      exact hg.expr.bind fun _ => (leads_expect rfl).bind fun _ => leads_ranged _ _
    · exact .skip_bind hc hnext rfl (leads_creation hg _)
    · refine .skip_bind hc hnext rfl ((leads_nextIs _).bind fun _ => .ite ?_ ?_)
      · exact (leads_arguments hg).bind fun _ => leads_ranged _ _
      · exact leads_ranged _ _
    · refine ((leads_typeRef hg.skips).bind fun _ =>
        (leads_expect rfl).bind fun _ => ?_).at_cursor hc
      exact (leads_expect rfl).bind fun _ => leads_ranged _ _
    · exact .fail _

theorem leads_selection (start : Nat) (target : Expr) :
    Leads v (closing :: closings) (closing :: closings) (selection g start target) := by
  -- a call on the target
  have hcall : ∀ name : Ident, Leads v (closing :: closings) (closing :: closings) (do
      let args ← arguments g
      return (⟨.call (some target) name args, ← rangeFrom start⟩ : Expr)) :=
    fun name => (leads_arguments hg).bind fun _ => leads_ranged _ _
  refine .of_settled hg.settled fun {c c'} hc => .get_bind (by rw [hc.kind?_eq]) ?_
  split
  · exact (hg.skips.typeArguments.bind fun _ => leads_ident.bind hcall).at_cursor hc
  · refine (leads_ident.bind fun name => (leads_nextIs _).bind fun _ => ?_).at_cursor hc
    exact .ite (hcall name) (leads_ranged _ _)
  next hnext =>
    refine .skip_bind hc hnext rfl ?_
    split
    · exact leads_ranged _ _
    · exact .fail _
  next hnext => exact .skip_bind hc hnext rfl (leads_ranged _ _)
  · exact (leads_primary hg).at_cursor hc
  · exact .fail _

theorem leads_suffix? (start : Nat) (x : Expr) :
    Leads v (closing :: closings) (closing :: closings) (suffix? g start x) := by
  refine .of_settled hg.settled fun {c c'} hc => .get_bind (by rw [hc.kind?_eq]) ?_
  split
  next hnext => exact .skip_bind hc hnext rfl ((leads_selection hg start x).map _)
  next hnext =>
    refine .skip_bind hc hnext rfl ?_
    exact hg.expr.bind fun _ => (leads_expect rfl).bind fun _ => leads_ranged _ _
  next hnext => exact .skip_bind hc hnext rfl (leads_ranged _ _)
  next hnext => exact .skip_bind hc hnext rfl (leads_ranged _ _)
  next hnext =>
    refine .skip_bind hc hnext rfl (hg.skips.typeArguments.bind fun _ => ?_)
    refine .of_settled hg.settled fun {d d'} hd => ?_
    have hnamed := (leads_ident.bind fun name =>
      leads_ranged start fun range => some (⟨.methodRef x name, range⟩ : Expr)).at_cursor hd
    obtain ⟨hrest, hrest'⟩ | ⟨⟨kind, text, range⟩, later, later', hrest, hrest', -⟩ :=
      hd.exists_heads
    · refine .get_bind (by rw [hrest, hrest']) ?_
      rw [hrest]
      exact hnamed
    · have hnext : d.kind? = some kind := by rw [Cursor.kind?, hrest]; rfl
      refine .get_bind ?_ ?_
      · rw [hrest, hrest']
        cases kind <;> first | rfl | rename_i k; cases k <;> rfl
      rw [hrest]
      split
      next heq =>
        cases heq
        exact .skip_bind hd hnext rfl (leads_ranged _ _)
      next => exact hnamed
  · exact (Leads.pure _).at_cursor hc

theorem leads_operand : Leads v (closing :: closings) (closing :: closings) (operand g) :=
  leads_offset.bind fun start => (leads_primary hg).bind fun _ =>
    leads_grow (advances_suffix? hg.readsOn start) (leads_suffix? hg start) _

theorem leads_lambdaParam : Leads v (closing :: closings) (closing :: closings) lambdaParam := by
  have hsettled : v.loose → TokenKind.ident = .ident → ∀ {p : Prop}, p :=
    fun hloose => absurd hloose hg.settled
  refine (leads_nextAre (by decide) fun hl h => hsettled hl h).bind fun _ =>
    (leads_nextAre (by decide) fun hl h => hsettled hl h).bind fun _ => .ite ?_ ?_
  · exact leads_ident.bind fun _ => .pure _
  · refine (leads_modifiers hg.skips).bind fun _ => (leads_typeRef hg.skips).bind fun _ => ?_
    exact leads_ident.bind fun _ => leads_dims.bind fun _ => .pure _

theorem leads_lambda : Leads v (closing :: closings) (closing :: closings) (lambda g) := by
  refine leads_offset.bind fun _ => (leads_nextIs _).bind fun _ => ?_
  refine .ite_bind (leads_ident.map _)
    (leads_parenthesized (fun _ => leaves_lambdaParam.of_read) (leads_lambdaParam hg)) fun _ => ?_
  refine (leads_expect rfl).bind fun _ => (leads_nextIs _).bind fun _ => ?_
  exact .ite_bind ((leads_block hg).map _) (hg.expr.map _) fun _ => leads_ranged _ _

theorem leads_castType : Leads v (closing :: closings) (closing :: closings) castType := by
  refine (leads_expect rfl).bind fun _ => (leads_typeRef hg.skips).bind fun _ => ?_
  exact (leads_expect rfl).bind fun _ => .pure _

/-- Whether parentheses make a cast is told by what is in them and by what stands behind. -/
theorem leads_castType? (hc : v.At (closing :: closings) c c')
    (hnext : c.kind? = some (.symbol .lParen)) :
    LeadsAt v c c' (closing :: closings) castType? := by
  refine ⟨?_⟩
  have hmeets := ((leads_castType hg).at_cursor hc).meets
  unfold castType?
  rw [hc.kindAt_one_eq hnext (by decide) fun hloose => absurd hloose hg.settled]
  split
  · generalize castType c = r, castType c' = r' at hmeets
    cases hmeets with
    | inside hat => exact .inside hat
    | fails => exact .fails
    | leaves hloose _ => exact absurd hloose hg.settled
  · generalize castType c = r, castType c' = r' at hmeets
    cases hmeets with
    | inside hat =>
      dsimp only
      rw [nextIsCastOperand_eq hat]
      split
      · exact .inside hat
      · exact .inside hc
    | fails => exact .inside hc
    | leaves hloose _ => exact absurd hloose hg.settled
  · exact .inside hc

/-- The operator before an operand is one token. -/
theorem advance_of_signOp? {op : UnaryOp} (hc : v.At (closing :: closings) c c')
    (h : c.signOp? = some op) : v.At (closing :: closings) (c.skip 1) (c'.skip 1) := by
  unfold Cursor.signOp? at h
  split at h
  all_goals first | exact hc.advance_of_kind? hg.settled ‹_› rfl | cases h

theorem leads_unary : Leads v (closing :: closings) (closing :: closings) (unary g) := by
  refine .of_settled hg.settled fun {c c'} hc => .offset_bind hc (.get_bind ?_ ?_)
  · rw [signOp?_eq hc]
  split
  next op hop =>
    exact .skip_bind_of_at (advance_of_signOp? hg hc hop)
      (hg.unary.bind fun _ => leads_ranged _ _)
  next =>
    refine .nextIs_bind hc (.ite (fun hparen => ?_) fun _ => (leads_operand hg).at_cursor hc)
    refine (leads_castType? hg hc (eq_of_beq hparen)).bind fun o => ?_
    split
    · refine .of_settled hg.settled fun {d d'} hd => .get_bind ?_ ?_
      · rw [nextIsLambda_eq hg.settled hd]
      · exact (Leads.ite_bind (leads_lambda hg) hg.unary fun _ => leads_ranged _ _).at_cursor hd
    · exact leads_operand hg

/-- The tokens of an operator are no brackets. -/
theorem skip_of_operator? {operator : Cursor.Operator} {level width : Nat}
    (hc : v.At (closing :: closings) c c') (h : c.operator? = some (operator, level, width)) :
    v.At (closing :: closings) (c.skip width) (c'.skip width) := by
  unfold Cursor.operator? at h
  split at h
  · cases h
  · split at h
    next hnext =>
      cases h
      exact hc.advance_of_kind? hg.settled hnext rfl
    next s hnext =>
      by_cases hgt : s = .gt
      · -- one, two or three adjacent brackets
        subst hgt
        have hone : v.At (closing :: closings) (c.skip 1) (c'.skip 1) :=
          hc.advance_of_kind? hg.settled hnext rfl
        dsimp only at h
        split at h
        next htwo =>
          have htwo := hone.skip_succ hg.settled (eq_of_beq (Bool.and_eq_true_iff.1 htwo).1) rfl
          split at h
          next hthree =>
            cases h
            exact htwo.skip_succ hg.settled (eq_of_beq (Bool.and_eq_true_iff.1 hthree).1) rfl
          next =>
            cases h
            exact htwo
        next =>
          cases h
          exact hone
      · split at h
        all_goals first
          | exact absurd rfl hgt
          | cases h; exact hc.advance_of_kind? hg.settled hnext rfl
          | cases h
    next => cases h

theorem leads_operatorTail? (least start : Nat) (lhs : Expr) :
    Leads v (closing :: closings) (closing :: closings) (operatorTail? g least start lhs) := by
  refine .of_settled hg.settled fun {c c'} hc => .get_bind ?_ ?_
  · rw [operator?_eq hg.settled hc]
  split
  next => exact (Leads.pure _).at_cursor hc
  next hop =>
    refine .ite (fun _ => (Leads.pure _).at_cursor hc) fun _ => ?_
    refine .skip_bind_of_at (skip_of_operator? hg hc hop) ?_
    split
    · exact (leads_typeRef hg.skips).bind fun _ => (leads_eat rfl).bind fun _ => leads_ranged _ _
    · exact (hg.binary _).bind fun _ => leads_ranged _ _

theorem leads_binary (least : Nat) :
    Leads v (closing :: closings) (closing :: closings) (binary g least) :=
  leads_offset.bind fun start => (leads_unary hg).bind fun _ =>
    leads_grow (advances_operatorTail? hg.readsOn least start)
      (leads_operatorTail? hg least start) _

theorem leads_conditional :
    Leads v (closing :: closings) (closing :: closings) (conditional g) := by
  refine leads_offset.bind fun _ => (leads_binary hg 0).bind fun _ => ?_
  refine (leads_eat rfl).bind fun _ => .ite ?_ (.pure _)
  refine hg.expr.bind fun _ => (leads_expect rfl).bind fun _ => ?_
  exact hg.conditional.bind fun _ => leads_ranged _ _

theorem skip_of_shiftAssignWidth? {width : Nat} (hc : v.At (closing :: closings) c c')
    (h : c.shiftAssignWidth? = some width) :
    v.At (closing :: closings) (c.skip width) (c'.skip width) := by
  unfold Cursor.shiftAssignWidth? at h
  split at h
  next hfirst =>
    have hone : v.At (closing :: closings) (c.skip 1) (c'.skip 1) :=
      hc.advance_of_nextIs hg.settled (Bool.and_eq_true_iff.1 hfirst).1 rfl
    split at h
    next htwo =>
      cases h
      exact hone.skip_succ hg.settled (eq_of_beq htwo) rfl
    next =>
      split at h
      next hthree =>
        cases h
        obtain ⟨htwo, hthree⟩ := Bool.and_eq_true_iff.1 hthree
        have htwo := hone.skip_succ hg.settled (eq_of_beq (Bool.and_eq_true_iff.1 htwo).1) rfl
        exact htwo.skip_succ hg.settled (eq_of_beq hthree) rfl
      next => cases h
  next => cases h

/-- The tokens of an assignment are no brackets. -/
theorem skip_assignWidth (hc : v.At (closing :: closings) c c') :
    v.At (closing :: closings) (c.skip c.assignWidth) (c'.skip c.assignWidth) := by
  unfold Cursor.assignWidth
  split
  next width _ hshift => exact skip_of_shiftAssignWidth? hg hc hshift
  next s _ hnext =>
    split
    all_goals first
      | exact hc.advance_of_kind? hg.settled hnext rfl
      | exact hc
  next => exact hc

theorem leads_expr : Leads v (closing :: closings) (closing :: closings) (expr g) := by
  refine .of_settled hg.settled fun {c c'} hc => .get_bind ?_ (.ite (fun _ => ?_) fun _ => ?_)
  · rw [nextIsLambda_eq hg.settled hc]
  · exact (leads_lambda hg).at_cursor hc
  refine (leads_offset.bind fun _ => (leads_conditional hg).bind fun _ => ?_).at_cursor hc
  refine .of_settled hg.settled fun {d d'} hd => .get_bind ?_ (.ite (fun _ => ?_) fun _ => ?_)
  · rw [assignWidth_eq hg.settled hd]
  · exact .skip_bind_of_at (skip_assignWidth hg hd) (hg.expr.bind fun _ => leads_ranged _ _)
  · exact ((leads_nextIs _).bind fun _ => .ite (.fail _) (.pure _)).at_cursor hd

theorem leads_initializer :
    Leads v (closing :: closings) (closing :: closings) (initializer g) :=
  (leads_nextIs _).bind fun _ => .ite (leads_arrayInit hg) (leads_expr hg)

end Expressions

/-! ## Statements -/

section Statements

variable (hg : g.KeepsTo v)

include hg

theorem leads_parenExpr : Leads v (closing :: closings) (closing :: closings) (parenExpr g) := by
  refine (leads_expect rfl).bind fun _ => ?_
  exact hg.expr.bind fun _ => (leads_expect rfl).bind fun _ => .pure _

theorem leads_localVar (type : TypeRef) :
    Leads v (closing :: closings) (closing :: closings) (localVar g type) := by
  refine leads_ident.bind fun _ => leads_dims.bind fun _ => (leads_eat rfl).bind fun _ => ?_
  exact .ite_bind (hg.initializer.map _) (.pure _) fun _ => .pure _

theorem leads_localVars
    (hcomma : closingsPast (closing :: closings) Symbol.comma = some (closing :: closings)) :
    Leads v (closing :: closings) (closing :: closings) (localVars g) := by
  refine (leads_typeRef hg.skips).bind fun type => ?_
  exact leads_sepByComma hcomma
    (fun n => (agree_localVar (hg.readsOn n) (Nat.le_refl n) type).of_read) (leads_localVar hg type)

/-- Both runs see whether they have gone past a token. -/
theorem leads_modifiersRead :
    Leads v (closing :: closings) (closing :: closings) modifiersRead := by
  refine .of_settled hg.settled fun {c c'} hc => ⟨?_⟩
  rw [modifiersRead, get_bind_eq, get_bind_eq]
  refine ((leads_modifiers hg.skips).at_cursor hc).meets.bind (fun {mods d d'} _ hat => ?_)
    fun hloose => absurd hloose hg.settled
  have hread : (d'.rest.length != c'.rest.length) = (d.rest.length != c.rest.length) := by
    obtain ⟨left, hrest, hrest', -⟩ := hc
    obtain ⟨left', hleft, hleft', -⟩ := hat
    rw [hrest, hrest', hleft, hleft', Bool.eq_iff_iff, bne_iff_ne, bne_iff_ne]
    simp only [List.length_append]
    omega
  show Meets v _ (.ok ((mods, d.rest.length != c.rest.length), d))
    (.ok ((mods, d'.rest.length != c'.rest.length), d'))
  rw [hread]
  exact .inside hat

theorem leads_forEachVar :
    Leads v (closing :: closings) (closing :: closings) forEachVar := by
  refine (leads_modifiers hg.skips).bind fun _ => (leads_typeRef hg.skips).bind fun _ => ?_
  exact leads_ident.bind fun _ => .pure _

theorem leads_forInit (isDecl : Bool) :
    Leads v (.rParen :: closings) (.rParen :: closings) (forInit g isDecl) := by
  refine .ite ?_ ?_
  · exact (leads_modifiers hg.skips).bind fun _ => (leads_localVars hg rfl).bind fun _ => .pure _
  · exact (leads_sepByComma rfl (fun _ => hg.readsOn.expr.of_read) hg.expr).bind fun _ => .pure _

theorem leads_countingLoop (isDecl : Bool) :
    Leads v (.rParen :: .rBrace :: closings) (.rBrace :: closings) (countingLoop g isDecl) := by
  refine (leads_nextIs _).bind fun _ => ?_
  refine .ite_bind (.pure _) (leads_forInit hg isDecl) fun _ => ?_
  refine (leads_expect rfl).bind fun _ => (leads_nextIs _).bind fun _ => ?_
  refine .ite_bind (.pure _) (hg.expr.map _) fun _ => ?_
  refine (leads_expect rfl).bind fun _ => (leads_nextIs _).bind fun _ => ?_
  refine .ite_bind (.pure _)
    (leads_sepByComma rfl (fun _ => hg.readsOn.expr.of_read) hg.expr) fun _ => ?_
  exact (leads_expect rfl).bind fun _ => hg.stmt.bind fun _ => .pure _

theorem leads_forLoop :
    Leads v (.rBrace :: closings) (.rBrace :: closings) (forLoop g) := by
  refine (leads_expect rfl).bind fun _ => ?_
  refine (leads_nextIs _).bind fun _ => .ite (leads_countingLoop hg false) ?_
  have hloose : ∀ {p : Prop}, v.loose → p := fun hloose => absurd hloose hg.settled
  -- each run comes back to its own place, to read the head of the loop again
  refine .of_settled hg.settled fun {c c'} hc => ⟨?_⟩
  rw [get_bind_eq, get_bind_eq]
  refine ((leads_modifiersRead hg).at_cursor hc).meets.bind (fun _ hat => ?_) hloose
  refine ((leads_nextIsLocalDecl hg.skips hg.settled).at_cursor hat).meets.bind
    (fun _ hat' => ?_) hloose
  split
  · rw [set_bind_eq, set_bind_eq]
    refine ((leads_forEachVar hg).at_cursor hc).meets.bind (fun _ hat => ?_) hloose
    refine ((leads_eat rfl).at_cursor hat).meets.bind (fun _ hat => ?_) hloose
    split
    · refine ((hg.expr.bind fun _ => (leads_expect rfl).bind fun _ => ?_).at_cursor hat).meets
      exact hg.stmt.bind fun _ => .pure _
    · rw [set_bind_eq, set_bind_eq]
      exact ((leads_countingLoop hg true).at_cursor hc).meets
  · exact ((leads_countingLoop hg false).at_cursor hat').meets

theorem leads_resource? : Leads v (.rParen :: .rBrace :: closings) (.rParen :: .rBrace :: closings)
    (resource? g) := by
  refine (leads_nextIs _).bind fun _ => .ite (.pure _) ?_
  exact (leads_modifiers hg.skips).bind fun _ => (leads_localVars hg rfl).bind fun _ =>
    leads_separator rfl

theorem leads_resources : Leads v (.rBrace :: closings) (.rBrace :: closings) (resources g) := by
  rw [resources_eq]
  refine .eat_bind rfl ?_ (.pure _)
  exact (leads_many (advances_resource? hg.readsOn) (leads_resource? hg)).bind fun _ =>
    (leads_expect rfl).bind fun _ => .pure _

theorem leads_catchClause? :
    Leads v (.rBrace :: closings) (.rBrace :: closings) (catchClause? g) := by
  rw [catchClause?_eq]
  refine (leads_eat rfl).bind fun _ => .ite ?_ (.pure _)
  refine (leads_expect rfl).bind fun _ => (leads_modifiers hg.skips).bind fun _ =>
    (leads_typeRef hg.skips).bind fun _ => (leads_many
      (advances_itemAfter? fun _ => leaves_typeRef.of_read)
      (leads_itemAfter? rfl (leads_typeRef hg.skips))).bind fun _ => ?_
  refine leads_ident.bind fun _ => (leads_expect rfl).bind fun _ => ?_
  exact (leads_block hg).bind fun _ => .pure _

theorem leads_tryStmt : Leads v (.rBrace :: closings) (.rBrace :: closings) (tryStmt g) := by
  refine (leads_resources hg).bind fun _ => (leads_block hg).bind fun _ => ?_
  refine (leads_many (advances_catchClause? hg.readsOn) (leads_catchClause? hg)).bind fun _ =>
    (leads_eat rfl).bind fun _ => ?_
  exact .ite_bind ((leads_block hg).map _) (.pure _) fun _ => .ite (.fail _) (.pure _)

end Statements

/-! ## Declarations -/

/-- The parts of declarations that are read with a second try, or that go further inside. -/
structure Grammar.Declares (v : Region) (g : Grammar) : Prop where
  skips : v.Skips
  readsOn : g.ReadsOn
  block : ∀ {closings}, Leads v (.rBrace :: closings) (.rBrace :: closings) (block g)
  methodBody : ∀ {closings}, Leads v (.rBrace :: closings) (.rBrace :: closings) (methodBody g)
  fieldsRest : ∀ {closings} mods type start name,
    Leads v (.rBrace :: closings) (.rBrace :: closings) (fieldsRest g mods type start name)
  enumConstants : ∀ {closings} enumName,
    Leads v (.rBrace :: closings) (.rBrace :: closings) (enumConstants g enumName)
  member : ∀ {closings} typeName,
    Leads v (.rBrace :: closings) (.rBrace :: closings) (g.member typeName)

section Parts

variable (hg : g.KeepsTo v)

include hg

theorem leads_enumConstant (enumName : String) :
    Leads v (closing :: closings) (closing :: closings) (enumConstant g enumName) := by
  rw [enumConstant_eq]
  refine leads_offset.bind fun _ => (leads_many advances_annotation? ?_).bind fun _ => ?_
  · refine (leads_nextIs _).bind fun _ => .ite ?_ (.pure _)
    refine Leads.bind ?_ fun _ => .pure _
    exact leads_annotation hg.skips
  · refine leads_ident.bind fun _ => (leads_nextIs _).bind fun _ => ?_
    refine .ite_bind (leads_arguments hg) (.pure _) fun _ => (leads_nextIs _).bind fun _ => ?_
    exact .ite_bind ((leads_classBody hg "").map _) (.pure _) fun _ => leads_ranged _ _

/-- Commas stand between the constants of an enum, and nothing else behind one of them is read. -/
theorem leads_constants (enumName : String)
    (hcomma : closingsPast (closing :: closings) Symbol.comma = some (closing :: closings)) :
    Leads v (closing :: closings) (closing :: closings) (many (constant? g enumName)) := by
  refine leads_many (advances_constant? hg.readsOn enumName) ?_
  refine (leads_nextIs _).bind fun _ => (leads_nextIs _).bind fun _ => .ite (.pure _) ?_
  refine (leads_enumConstant hg enumName).bind fun constant => (leads_eat hcomma).bind fun _ => ?_
  refine (leads_nextIs _).bind fun _ => .of_settled hg.settled fun {c c'} hc => ?_
  refine .nextIs_bind hc (.ite (fun hnot => ?_) fun _ => (Leads.pure _).at_cursor hc)
  have hnext : c.nextIs Symbol.semi = false := by simp_all
  exact .of_error (bind_of_error (expect_of_not hnext) _)
    (bind_of_error (expect_of_not (hc.nextIs_eq Symbol.semi ▸ hnext)) _)

/-- A value is read, or skipped from behind its sign. -/
theorem leads_fieldValue (hc : v.At (closing :: closings) c c')
    (hnext : c.kind? = some (.symbol .eq))
    (hclosing : closing = .rBrace ∨ closing :: closings = [.semi]) :
    LeadsAt v c.advance c'.advance (closing :: closings) (fieldValue g) := by
  have hat : v.At (closing :: closings) c.advance c'.advance :=
    hc.advance_of_kind? hg.settled hnext rfl
  refine .orElse hg.settled ((hg.initializer.map _).at_cursor hat) ?_
  exact (hg.skips.value hc (.inl hnext) hclosing).bind fun _ => .pure _

theorem leads_fieldRest (hclosing : closing = .rBrace ∨ closing :: closings = [.semi])
    (mods : Modifiers) (type : TypeRef) (start : Nat) (name : Ident) :
    Leads v (closing :: closings) (closing :: closings) (fieldRest g mods type start name) := by
  refine leads_dims.bind fun extra => .of_settled hg.settled fun {c c'} hc => ?_
  cases hnext : c.nextIs Symbol.eq with
  | true =>
    have hvalue := leads_fieldValue hg hc (eq_of_beq hnext) hclosing
    exact (hvalue.bind fun _ => leads_ranged _ _).of_eq (eat_bind_of_next hnext _)
      (eat_bind_of_next (hc.nextIs_eq Symbol.eq ▸ hnext) _)
  | false =>
    exact (((Leads.pure none).bind fun _ => leads_ranged _ _).at_cursor hc).of_eq
      (eat_bind_of_not hnext _) (eat_bind_of_not (hc.nextIs_eq Symbol.eq ▸ hnext) _)

/-- Fields of one declaration stand in the braces of a class, or the semicolon behind them closes
the region. -/
theorem leads_fieldsRest (hclosing : closing = .rBrace ∨ closing :: closings = [.semi])
    (hcomma : closingsPast (closing :: closings) Symbol.comma = some (closing :: closings))
    (hsemi : closingsPast (closing :: closings) Symbol.semi = some outer)
    (mods : Modifiers) (type : TypeRef) (start : Nat) (name : Ident) :
    Leads v (closing :: closings) outer (fieldsRest g mods type start name) := by
  rw [fieldsRest_eq_many]
  refine (leads_fieldRest hg hclosing mods type start name).bind fun _ =>
    (leads_many (advances_itemAfter? fun n => ?_) (leads_itemAfter? hcomma ?_)).bind fun _ =>
      (leads_expect hsemi).bind fun _ => .pure _
  · exact leaves_ident.pass fun name =>
      agree_fieldRest (hg.readsOn n) (Nat.le_refl n) mods type start name
  · exact leads_ident.bind fun name => leads_fieldRest hg hclosing mods type start name

/-- A body in braces is read, or skipped to the brace that closes it. -/
theorem leads_methodBody :
    Leads v (.rBrace :: closings) (.rBrace :: closings) (methodBody g) := by
  refine (leads_eat rfl).bind fun _ => .ite (.pure _) (.of_settled hg.settled fun {c c'} hc => ?_)
  cases hnext : c.nextIs Modifier.defaultMod with
  | true =>
    have hvalue := hg.skips.value hc (.inr (eq_of_beq hnext)) (.inl rfl)
    exact (hvalue.bind fun _ => (leads_expect rfl).bind fun _ => .pure MethodBody.absent).of_eq
      (eat_bind_of_next hnext _)
      (eat_bind_of_next (hc.nextIs_eq Modifier.defaultMod ▸ hnext) _)
  | false =>
    have hskip := (leads_offset.bind fun start => hg.skips.body.bind fun _ =>
      leads_ranged start MethodBody.unparsed).at_cursor hc
    exact (LeadsAt.orElse hg.settled (((leads_block hg).map _).at_cursor hc) hskip).of_eq
      (eat_bind_of_not hnext _)
      (eat_bind_of_not (hc.nextIs_eq Modifier.defaultMod ▸ hnext) _)

/-- Readers that keep to brackets keep to them in declarations. -/
theorem Grammar.KeepsTo.declares : g.Declares v where
  skips := hg.skips
  readsOn := hg.readsOn
  block := leads_block hg
  methodBody := leads_methodBody hg
  fieldsRest := leads_fieldsRest hg (.inl rfl) rfl rfl
  enumConstants enumName := by
    rw [enumConstants_eq]
    exact (leads_constants hg enumName rfl).bind fun _ => (leads_eat rfl).bind fun _ => .pure _
  member := hg.member

end Parts

theorem leads_typeDeclKind :
    Leads v (closing :: closings) (closing :: closings) typeDeclKind := by
  refine .of_leaves (fun _ => leaves_typeDeclKind) fun {c c'} hc =>
    .get_bind (by rw [hc.kind?_eq]) ?_
  split
  next hnext => exact .skip_bind hc hnext rfl (.pure _)
  next hnext => exact .skip_bind hc hnext rfl (.pure _)
  next hnext => exact .skip_bind hc hnext rfl (.pure _)
  next hnext => exact .skip_bind hc hnext rfl ((leads_expect rfl).bind fun _ => .pure _)
  next => exact .of_error rfl rfl

theorem leads_nextIsConstructor (typeName : String) :
    Leads v (closing :: closings) (closing :: closings) (nextIsConstructor typeName) := by
  refine (leads_nextAre (by decide) fun _ _ => rfl).bind fun _ =>
    .of_leaves (fun _ => .get_bind fun _ => .done) fun {c c'} hc => .get_bind ?_
      ((Leads.pure _).at_cursor hc)
  rw [hc.head?_eq]

section Declarations

variable (hg : g.Declares v)

include hg

theorem leads_supertypes (kind : TypeDeclKind) :
    Leads v (.rBrace :: closings) (.rBrace :: closings) (supertypes kind) := by
  -- what follows the word of the superclass, whatever stood behind it
  have himplemented : ∀ inherited : Option TypeRef × List TypeRef,
      Leads v (.rBrace :: closings) (.rBrace :: closings) (do
        let implemented ← if ← eat Keyword.implementsKw then typeList else pure []
        return (inherited.1, inherited.2 ++ implemented)) :=
    fun _ => (leads_eat rfl).bind fun _ =>
      .ite_bind (leads_typeList hg.skips) (.pure _) fun _ => .pure _
  refine (leads_eat rfl).bind fun _ => .ite (.ite ?_ ?_) ?_
  · exact ((leads_typeList hg.skips).map _).bind himplemented
  · exact ((leads_typeRef hg.skips).map _).bind himplemented
  · exact (Leads.pure _).bind himplemented

theorem leads_openType (mods : Modifiers) (start : Nat) :
    Leads v (.rBrace :: closings) (.rBrace :: .rBrace :: closings) (openType g mods start) := by
  refine leads_typeDeclKind.bind fun kind => leads_ident.bind fun name => ?_
  refine hg.skips.typeArguments.bind fun _ => (leads_supertypes hg kind).bind fun _ => ?_
  exact (leads_expect rfl).bind fun _ =>
    .ite_bind (hg.enumConstants _) (.pure _) fun _ => .pure _

/-- The members of a type end with its closing brace. -/
theorem leads_typeRest (type : OpenType) :
    Leads v (.rBrace :: closings) closings (typeRest g type) := by
  refine (leads_manyUntil rfl (fun _ => hg.readsOn.member _) (hg.member _)).bind fun _ => ?_
  exact leads_ranged _ _

theorem leads_typeDecl (mods : Modifiers) (start : Nat) :
    Leads v (.rBrace :: closings) (.rBrace :: closings) (typeDecl g mods start) := by
  rw [typeDecl_eq]
  exact (leads_openType hg mods start).bind fun _ => leads_typeRest hg _

theorem leads_openMethod (mods : Modifiers) (returnType : Option TypeRef) (name : Ident)
    (start : Nat) : Leads v (.rBrace :: closings) (.rBrace :: closings)
      (openMethod mods returnType name start) := by
  refine (leads_params hg.skips).bind fun _ => leads_dims.bind fun _ => (leads_eat rfl).bind
    fun _ => ?_
  exact .ite_bind (leads_typeList hg.skips) (.pure _) fun _ => .pure _

theorem leads_methodRest (mods : Modifiers) (returnType : Option TypeRef) (name : Ident)
    (start : Nat) : Leads v (.rBrace :: closings) (.rBrace :: closings)
      (methodRest g mods returnType name start) := by
  rw [methodRest_eq]
  exact (leads_openMethod hg mods returnType name start).bind fun _ =>
    hg.methodBody.bind fun _ => leads_ranged _ _

theorem leads_member (typeName : String) :
    Leads v (.rBrace :: closings) (.rBrace :: closings) (member g typeName) := by
  refine (leads_eat rfl).bind fun _ => .ite (.pure _) (leads_offset.bind fun start => ?_)
  refine (leads_nextIs _).bind fun _ => (leads_nextAre (by decide) fun _ h => by cases h).bind
    fun _ => .ite ?_ ?_
  · exact (leads_eat rfl).bind fun _ => hg.block.bind fun _ => leads_ranged _ _
  · refine (leads_modifiers hg.skips).bind fun mods => leads_nextIsTypeDecl.bind fun _ => .ite ?_ ?_
    · exact (leads_typeDecl hg mods start).bind fun _ => .pure _
    · refine hg.skips.typeArguments.bind fun _ =>
        (leads_nextIsConstructor typeName).bind fun _ => ?_
      refine .ite (leads_ident.bind fun name => ?_) ((leads_typeRef hg.skips).bind fun type => ?_)
      · exact (leads_methodRest hg mods none name start).bind fun _ => .pure _
      · refine leads_ident.bind fun name => (leads_nextIs _).bind fun _ => .ite ?_ ?_
        · exact (leads_methodRest hg mods (some type) name start).bind fun _ => .pure _
        · exact hg.fieldsRest mods type start name

end Declarations

/-! ## Statements and local classes -/

section LocalClasses

variable (hg : g.KeepsTo v)

include hg

/-- Reads a label of a switch or one more statement of its last group. -/
def switchItem (g : Grammar) (cases : List SwitchCase) : Parser (List SwitchCase) := do
  if ← eat Keyword.caseKw then
    let labels ← sepByComma g.conditional
    let _ ← expect Symbol.colon
    return ⟨labels, []⟩ :: cases
  else if ← eat Modifier.defaultMod then
    let _ ← expect Symbol.colon
    return ⟨[], []⟩ :: cases
  else
    let stmt ← g.stmt
    match cases with
    | [] => fail "statement before first case label"
    | last :: others => return ⟨last.labels, last.body ++ [stmt]⟩ :: others

omit hg in
/-- A part of a switch is an item, if the switch does not end. -/
theorem switchPart?_eq (cases : List SwitchCase) : switchPart? g cases = (do
    if ← eat Symbol.rBrace then return none
    else some <$> switchItem g cases) := by
  unfold switchPart? switchItem
  refine bind_congr fun closed => ?_
  split
  · rfl
  · simp only [map_bind]
    refine bind_congr fun isCase => ?_
    split
    · simp only [map_bind, map_pure]
    · simp only [map_bind]
      refine bind_congr fun isDefault => ?_
      split
      · simp only [map_bind, map_pure]
      · simp only [map_bind]
        refine bind_congr fun stmt => ?_
        split <;> rfl

theorem leads_switchItem (cases : List SwitchCase) :
    Leads v (.rBrace :: closings) (.rBrace :: closings) (switchItem g cases) := by
  refine (leads_eat rfl).bind fun _ => .ite ?_ ((leads_eat rfl).bind fun _ => .ite ?_ ?_)
  · exact (leads_sepByComma rfl (fun _ => hg.readsOn.conditional.of_read) hg.conditional).bind
      fun _ => (leads_expect rfl).bind fun _ => .pure _
  · exact (leads_expect rfl).bind fun _ => .pure _
  · refine hg.stmt.bind fun stmt => ?_
    split
    · exact .fail _
    · exact .pure _

theorem leads_switchStmt : Leads v (.rBrace :: closings) (.rBrace :: closings) (switchStmt g) := by
  refine (leads_parenExpr hg).bind fun _ => (leads_expect rfl).bind fun _ => ?_
  refine (leads_grow_of_leadsOut (advances_switchPart? hg.readsOn) (fun cases => ?_) _).bind
    fun _ => .pure _
  rw [switchPart?_eq]
  exact leadsOut_of_item rfl (leads_switchItem hg cases)

omit hg in
theorem leads_jumpEnd : Leads v (.rBrace :: closings) (.rBrace :: closings) jumpEnd :=
  (leads_eat rfl).bind fun _ => (leads_expect rfl).bind fun _ => .pure _

theorem leads_keywordStmt? {k : Keyword} {p : Parser Stmt} (h : keywordStmt? g k = some p) :
    Leads v (.rBrace :: closings) (.rBrace :: closings) p := by
  have hcond : Leads v (.rBrace :: closings) (.rBrace :: closings) (parenExpr g) :=
    leads_parenExpr hg
  have hsemi : Leads v (.rBrace :: closings) (.rBrace :: closings) (expect Symbol.semi) :=
    leads_expect rfl
  unfold keywordStmt? at h
  split at h <;> cases h
  · refine hcond.bind fun _ => hg.stmt.bind fun _ => (leads_eat rfl).bind fun _ => ?_
    exact .ite_bind (hg.stmt.map _) (.pure _) fun _ => .pure _
  · exact hcond.bind fun _ => hg.stmt.bind fun _ => .pure _
  · refine hg.stmt.bind fun _ => (leads_expect rfl).bind fun _ => hcond.bind fun _ => ?_
    exact hsemi.bind fun _ => .pure _
  · exact leads_forLoop hg
  · refine (leads_nextIs _).bind fun _ => ?_
    exact .ite_bind (.pure _) (hg.expr.map _) fun _ => hsemi.bind fun _ => .pure _
  · exact hg.expr.bind fun _ => hsemi.bind fun _ => .pure _
  · exact leads_jumpEnd.bind fun _ => .pure _
  · exact leads_jumpEnd.bind fun _ => .pure _
  · exact leads_tryStmt hg
  · exact leads_switchStmt hg
  · refine hg.expr.bind fun _ => (leads_eat rfl).bind fun _ => ?_
    exact .ite_bind (hg.expr.map _) (.pure _) fun _ => hsemi.bind fun _ => .pure _

theorem leads_plainStmt :
    Leads v (.rBrace :: closings) (.rBrace :: closings) (plainStmt g (typeDecl g)) := by
  refine leads_offset.bind fun start => (leads_modifiersRead hg).bind fun _ => ?_
  refine leads_nextIsTypeDecl.bind fun _ => .ite ?_
    ((leads_nextIsLocalDecl hg.skips hg.settled).bind fun _ => .ite ?_ ?_)
  · exact (leads_typeDecl hg.declares _ start).bind fun _ => .pure _
  · exact (leads_localVars hg rfl).bind fun _ => (leads_expect rfl).bind fun _ => .pure _
  · exact hg.expr.bind fun _ => (leads_expect rfl).bind fun _ => .pure _

theorem leads_stmt : Leads v (.rBrace :: closings) (.rBrace :: closings) (stmt g) := by
  refine .of_settled hg.settled fun {c c'} hc => .get_bind ?_ ?_
  · rw [hc.kind?_eq]
    split
    · rfl
    · rfl
    · rfl
    · rfl
    next kind _ _ _ hnext =>
      by_cases hlooks : kind = .ident ∨ kind = .modifier .synchronizedMod
      · rw [hc.kindAt_one_eq hnext ?_ fun hloose => absurd hloose hg.settled]
        obtain rfl | rfl := hlooks <;> decide
      · obtain ⟨hlabel, hlock⟩ := not_or.1 hlooks
        simp only [hlabel, hlock, false_and, if_false]
  have hplain := (leads_plainStmt hg).at_cursor hc
  split
  · exact .fail _
  · exact ((leads_block hg).bind fun _ => .pure _).at_cursor hc
  next hnext => exact .skip_bind hc hnext rfl (.pure _)
  next k hnext =>
    split
    next hrest => exact .skip_bind hc hnext rfl (leads_keywordStmt? hg hrest)
    next => exact hplain
  next kind _ _ _ hnext =>
    refine .ite (fun hlabel => ?_) fun _ => .ite (fun hlock => ?_) fun _ => hplain
    · obtain ⟨rfl, hcolon⟩ := hlabel
      exact .skip_two_bind hc hnext rfl hcolon rfl hg.stmt
    · obtain ⟨rfl, -⟩ := hlock
      refine .skip_bind hc hnext rfl ((leads_parenExpr hg).bind fun _ => ?_)
      exact (leads_block hg).bind fun _ => .pure _

end LocalClasses

/-! ## Depths -/

/-- The grammar that reads nothing keeps to all brackets. -/
theorem Grammar.keepsTo_empty (hv : ¬v.loose) (hskips : v.Skips) : Grammar.empty.KeepsTo v where
  settled := hv
  skips := hskips
  readsOn := readsOn_ofDepth 0
  expr := .fail _
  conditional := .fail _
  binary _ := .fail _
  unary := .fail _
  initializer := .fail _
  stmt := .fail _
  member _ := .fail _

/-- **One level** of the grammar keeps to brackets if the level below does. -/
theorem Grammar.KeepsTo.step (hg : g.KeepsTo v) : g.step.KeepsTo v where
  settled := hg.settled
  skips := hg.skips
  readsOn
    | 0 => (hg.readsOn 0).step.mono (Nat.zero_le 1)
    | d + 1 => (hg.readsOn d).step
  expr := leads_expr hg
  conditional := leads_conditional hg
  binary := leads_binary hg
  unary := leads_unary hg
  initializer := leads_initializer hg
  stmt := leads_stmt hg
  member := leads_member hg.declares

theorem Grammar.keepsTo_ofDepth (hv : ¬v.loose) (hskips : v.Skips) (depth : Nat) :
    (Grammar.ofDepth depth).KeepsTo v := by
  induction depth with
  | zero => exact Grammar.keepsTo_empty hv hskips
  | succ depth ih => exact ih.step

/-- A reader keeps to brackets if from every depth on readers do that agree with it. -/
theorem Leads.of_agree {p : Parser α}
    (h : ∀ n, ∃ q, Agree n (n - 1) q p ∧ Leads v closings outer q) : Leads v closings outer p := by
  refine ⟨fun {c c'} hc => ?_, fun hloose c a d hok => ?_⟩
  · obtain ⟨q, hagree, hq⟩ := h (max c.rest.length c'.rest.length + 1)
    exact (hq.at_cursor hc).of_eq (hagree.at_cursor (by omega)).run_eq.symm
      (hagree.at_cursor (by omega)).run_eq.symm
  · obtain ⟨q, hagree, hq⟩ := h (c.rest.length + 1)
    exact hq.onward hloose ((hagree.at_cursor (Nat.lt_succ_self _)).run_eq.trans hok)

/-- **The grammar of any depth** keeps to brackets if the readers that skip tokens do. -/
theorem Grammar.keepsTo_unbounded (hv : ¬v.loose) (hskips : v.Skips) :
    Grammar.unbounded.KeepsTo v := by
  have hkeeps := Grammar.keepsTo_ofDepth hv hskips
  have hagrees := Grammar.agreesUpTo_unbounded
  exact {
    settled := hv
    skips := hskips
    readsOn := readsOn_unbounded
    expr := .of_agree fun n => ⟨_, (hagrees n).expr (Nat.le_refl n), (hkeeps n).expr⟩
    conditional :=
      .of_agree fun n => ⟨_, (hagrees n).conditional (Nat.le_refl n), (hkeeps n).conditional⟩
    binary := fun least =>
      .of_agree fun n => ⟨_, (hagrees n).binary least (Nat.le_refl n), (hkeeps n).binary least⟩
    unary := .of_agree fun n => ⟨_, (hagrees n).unary (Nat.le_refl n), (hkeeps n).unary⟩
    initializer :=
      .of_agree fun n => ⟨_, (hagrees n).initializer (Nat.le_refl n), (hkeeps n).initializer⟩
    stmt := .of_agree fun n =>
      ⟨_, (hagrees (n + 1)).stmt (Nat.le_refl n), (hkeeps (n + 1)).stmt⟩
    member := fun typeName => .of_agree fun n =>
      ⟨_, (hagrees (n + 1)).member typeName (Nat.le_refl n), (hkeeps (n + 1)).member typeName⟩ }

end Parser

end SourceSearch
