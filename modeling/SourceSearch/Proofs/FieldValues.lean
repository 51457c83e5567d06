import SourceSearch.Proofs.CommonStarts
import SourceSearch.Proofs.ValueRegions

/-!
# Values of fields that are left out

A value that does not parse is skipped to the end of its declarator, and a value that parses should
end there too. Then what the reading of a unit comes to behind a field does not depend on the value,
and to leave it out changes neither whether the unit parses nor any declaration but the value itself
(`Parser.parse_without_value`).

There is a third case. A value can start with an expression that is not all of it, as `1 2` does.
Such a value parses, so that nothing is skipped, but the declaration ends in the middle of it, and
with the declaration the whole text is lost (`Parser.parse_of_value_left`). This is the only case in
which a value cannot be left out (`Parser.sameButValue_iff`), as long as the reading comes to the
field with the same open declarations in both texts and stops outside of the brackets of the value.
It does the latter for all values whose angle brackets stand in the same brackets as those which
close them (`Parser.initializer_within`), and it comes to the first field of a declaration in all
texts in which readers that skip tokens keep to braces
(`Parser.sameButValue_iff_of_skipsKeepBraces`).
-/

set_option autoImplicit false

namespace SourceSearch

/-! ## Fields that are still open -/

/-- What has been read of a declaration of fields up to the value of one of them: what all of the
fields have in common, the fields before this one, and its name with its own brackets. -/
structure OpenField where
  mods : Modifiers
  type : TypeRef
  start : Nat
  earlier : List Member
  name : Ident
  extra : Nat

/-- The field when its value is read. -/
def OpenField.close (field : OpenField) (range : TextRange) (init : Option Expr) : Member :=
  .field ⟨field.mods, field.type.addDims field.extra, field.name, false, range⟩ init

/-- The declarations that are open at the value of a field. -/
structure OpenValue where
  unit : OpenUnit
  type : OpenType
  outer : List OpenType
  field : OpenField

/-- **Two texts declare the same but for the value of a field**: either neither parses, or both do,
and their trees differ only in the value of this field and in where the field ends. The second text
has no value. -/
def SameButValue (text blank : String) (field : OpenField) : Prop :=
  ((∃ e, parse text = .error e) ∧ ∃ e, parse blank = .error e) ∨
    ∃ (place : MemberPlace) (range range' : TextRange) (init : Option Expr),
      parse text = .ok (place.fill (field.close range init)) ∧
        parse blank = .ok (place.fill (field.close range' none))

/-- The place with more members behind it. -/
def MemberPlace.before (place : MemberPlace) (members : List Member) : MemberPlace :=
  { place with inner := { place.inner with later := members ++ place.inner.later } }

namespace Parser

open Grammar (unbounded)

variable {c d : Cursor} {g : Grammar}

/-- Reads a field from the brackets behind its name up to its value. -/
def openField (mods : Modifiers) (type : TypeRef) (start : Nat) (earlier : List Member)
    (name : Ident) : Parser OpenField := do
  return ⟨mods, type, start, earlier, name, ← dims⟩

/-- Reads the value of a field, if it has one. -/
def fieldEnd (g : Grammar) (field : OpenField) : Parser Member := do
  let init ← if ← eat Symbol.eq then fieldValue g else pure none
  return field.close (← rangeFrom field.start) init

theorem fieldRest_eq (mods : Modifiers) (type : TypeRef) (start : Nat) (earlier : List Member)
    (name : Ident) : fieldRest g mods type start name =
      openField mods type start earlier name >>= fieldEnd g := by
  unfold fieldRest openField
  simp only [bind_assoc, pure_bind]
  refine bind_congr fun extra => bind_congr fun eaten => ?_
  cases eaten <;> rfl

/-- Reads the next field of a declaration up to its value, if there is one, the field before it
being read. -/
def nextField? (field : OpenField) (member : Member) : Parser (Option OpenField) := do
  if ← eat Symbol.comma then
    return some (← openField field.mods field.type field.start (field.earlier ++ [member])
      (← ident))
  else return none

/-- Reads one more field of a declaration, if there is one. -/
def laterField? (g : Grammar) (field : OpenField) : Parser (Option Member) := do
  if ← eat Symbol.comma then
    return some (← fieldRest g field.mods field.type field.start (← ident))
  else return none

theorem laterField?_eq (field : OpenField) (member : Member) :
    laterField? g field = (do
      match ← nextField? field member with
      | none => return none
      | some next => some <$> fieldEnd g next) := by
  unfold laterField? nextField?
  rw [bind_assoc]
  refine bind_congr fun comma => ?_
  split
  · simp only [fieldRest_eq _ _ _ (field.earlier ++ [member]), bind_assoc, pure_bind,
      map_eq_pure_bind]
  · rfl

/-- Reads the fields that are left of a declaration, and the semicolon behind them. -/
def laterFields (g : Grammar) (field : OpenField) : Parser (List Member) := do
  let later ← many (laterField? g field)
  let _ ← expect Symbol.semi
  return later

/-- Reads the fields of a declaration from the value of one of them on. -/
def fieldsEnd (g : Grammar) (field : OpenField) : Parser (List Member) := do
  let member ← fieldEnd g field
  let later ← laterFields g field
  return field.earlier ++ member :: later

theorem fieldsRest_eq (mods : Modifiers) (type : TypeRef) (start : Nat) (name : Ident) :
    fieldsRest g mods type start name = openField mods type start [] name >>= fieldsEnd g := by
  unfold fieldsRest
  rw [fieldRest_eq mods type start [] name]
  simp only [openField, fieldsEnd, laterFields, laterField?, bind_assoc, pure_bind,
    List.nil_append]

/-- The head of a declaration in the body of a type, if it declares fields; otherwise the
declaration as a whole. -/
inductive FieldsHead
  | other (members : List Member)
  | fields (field : OpenField)

/-- What stands before the name of a field or of a method with a result; a declaration that has no
such name is read as a whole. -/
inductive MemberStart
  | other (members : List Member)
  | typed (mods : Modifiers) (type : TypeRef) (start : Nat)

/-- Reads a declaration in the body of a type up to the name behind its type, if it has one. -/
def memberStart (g : Grammar) (typeName : String) : Parser MemberStart := do
  if ← eat Symbol.semi then return .other []
  else
    let start ← offset
    if (← nextIs Symbol.lBrace) || (← nextAre Modifier.staticMod Symbol.lBrace) then
      let isStatic ← eat Modifier.staticMod
      let body ← block g
      return .other [.initializer isStatic body (← rangeFrom start)]
    else
      let mods ← modifiers
      if ← nextIsTypeDecl then return .other [.type (← typeDecl g mods start)]
      else
        typeArguments
        if ← nextIsConstructor typeName then
          let name ← ident
          return .other [← methodRest g mods none name start]
        else return .typed mods (← typeRef) start

/-- Reads the head of a declaration of fields, or a method, from the name on. -/
def namedHead (g : Grammar) (mods : Modifiers) (type : TypeRef) (start : Nat) :
    Parser FieldsHead := do
  let name ← ident
  if ← nextIs Symbol.lParen then return .other [← methodRest g mods (some type) name start]
  else return .fields (← openField mods type start [] name)

/-- Reads the head of a declaration from where its start ends. -/
def startRest (g : Grammar) : MemberStart → Parser FieldsHead
  | .other members => return .other members
  | .typed mods type start => namedHead g mods type start

/-- Reads a declaration in the body of a type up to the value of its first field, if it declares
fields. -/
def fieldsHead (g : Grammar) (typeName : String) : Parser FieldsHead :=
  memberStart g typeName >>= startRest g

/-- Reads what follows the head of a declaration of fields. -/
def fieldsHeadEnd (g : Grammar) : FieldsHead → Parser (List Member)
  | .other members => return members
  | .fields field => fieldsEnd g field

/-- **A declaration in the body of a type** that declares fields is its head and what follows. -/
theorem member_eq_fieldsHead (typeName : String) :
    member g typeName = fieldsHead g typeName >>= fieldsHeadEnd g := by
  unfold member fieldsHead memberStart
  rw [bind_assoc, bind_assoc]
  refine bind_congr fun semi => ?_
  split
  · rfl
  · simp only [bind_assoc]
    refine bind_congr fun start => bind_congr fun braced => bind_congr fun staticBraced => ?_
    split
    · simp only [bind_assoc]
      rfl
    · simp only [bind_assoc]
      refine bind_congr fun mods => bind_congr fun isType => ?_
      split
      · simp only [bind_assoc, pure_bind, startRest, fieldsHeadEnd]
      · simp only [bind_assoc]
        refine bind_congr fun _ => bind_congr fun isConstructor => ?_
        split
        · simp only [bind_assoc, pure_bind, startRest, fieldsHeadEnd]
        · simp only [bind_assoc, pure_bind, startRest, namedHead]
          refine bind_congr fun type => bind_congr fun name => bind_congr fun isMethod => ?_
          split
          · simp only [bind_assoc, pure_bind, fieldsHeadEnd]
          · simp only [fieldsRest_eq, bind_assoc, pure_bind, fieldsHeadEnd]

/-! ## The reading comes to a value -/

/-- Every field behind the first one takes a token. -/
theorem advances_laterField? (field : OpenField) : Advances (laterField? unbounded field) := by
  refine advances_of_at fun c => .eat_bind (leaves_ident.pass fun name => ?_) .none
  have hself := Grammar.agreesUpTo_unbounded c.rest.length
  exact (agree_fieldRest hself (Nat.le_refl _) field.mods field.type field.start name).right.bind
    fun _ => .done

/-- **Where the next field is open**, the fields of its declaration are read from there on. -/
theorem fieldsEnd_of_next {field next : OpenField} {member : Member} {mid : Cursor}
    (hmember : fieldEnd unbounded field c = .ok (member, mid))
    (hnext : nextField? field member mid = .ok (some next, d)) :
    fieldsEnd unbounded field c = fieldsEnd unbounded next d := by
  -- what is common to the fields of a declaration does not change from one to the next
  have hsame : laterField? unbounded next = laterField? unbounded field ∧
      next.earlier = field.earlier ++ [member] := by
    unfold nextField? at hnext
    obtain ⟨comma, mid', -, hnext⟩ := of_bind_eq_ok hnext
    split at hnext
    · obtain ⟨name, mid'', -, hnext⟩ := of_bind_eq_ok hnext
      obtain ⟨opened, mid''', hopen, hnext⟩ := of_bind_eq_ok hnext
      obtain ⟨extra, mid4, -, hopen⟩ := of_bind_eq_ok hopen
      cases hopen
      cases hnext
      exact ⟨rfl, rfl⟩
    · cases hnext
  have hround : laterField? unbounded field mid = (some <$> fieldEnd unbounded next) d := by
    rw [laterField?_eq field member]
    exact bind_of_ok hnext _
  have hadvances : Advances (laterField? unbounded field) := advances_laterField? field
  rw [fieldsEnd, bind_of_ok hmember, laterFields, hadvances.many_eq]
  simp only [bind_assoc]
  refine (bind_of_run_eq hround _).trans ?_
  simp only [fieldsEnd, laterFields, hsame.1, hsame.2, map_eq_pure_bind, bind_assoc, pure_bind,
    List.append_assoc, List.singleton_append]

/-- **The reading of a unit comes to the value of a field**: to the types around the field, from
there to the value of the first field of its declaration, and from one field of the declaration to
the next. -/
inductive ReachesValue (c : Cursor) : OpenValue → Cursor → Prop
  | first {unit : OpenUnit} {type : OpenType} {outer : List OpenType} {field : OpenField}
      {mid d : Cursor} :
      ComesTo unbounded c unit (type :: outer) mid →
      inBody (fieldsHead unbounded type.name.text) mid = .ok (some (.fields field), d) →
      ReachesValue c ⟨unit, type, outer, field⟩ d
  | next {o : OpenValue} {next : OpenField} {member : Member} {d mid e : Cursor} :
      ReachesValue c o d → fieldEnd unbounded o.field d = .ok (member, mid) →
      nextField? o.field member mid = .ok (some next, e) →
      ReachesValue c { o with field := next } e

/-- Where its first field is open, a declaration is read from there on. -/
theorem inBody_member_of_fieldsHead {typeName : String} {field : OpenField}
    (h : inBody (fieldsHead unbounded typeName) c = .ok (some (.fields field), d)) :
    inBody (unbounded.member typeName) c = (some <$> fieldsEnd unbounded field) d := by
  obtain ⟨hnext, hempty, hhead⟩ := of_untilClosed_eq_ok h
  rw [inBody, untilClosed_of_open hnext hempty, member_unbounded, member_eq_fieldsHead, map_bind]
  exact bind_of_ok hhead _

/-- Reads all that is left, the fields of the innermost declaration first. -/
def fieldsThenRest (g : Grammar) (o : OpenValue) : Parser CompilationUnit := do
  let members ← fieldsEnd g o.field
  rest g o.unit (o.type.add members :: o.outer)

/-- From the value of a field on, the unit is read as the fields that are left and what is behind
them. -/
theorem ReachesValue.compilationUnit_eq_fieldsThenRest {o : OpenValue} (h : ReachesValue c o d) :
    compilationUnit unbounded c = fieldsThenRest unbounded o d := by
  induction h with
  | first hcomes hhead =>
    refine hcomes.compilationUnit_eq.trans ?_
    rw [rest, typeRest_eq, bind_assoc]
    refine (bind_of_run_eq (inBody_member_of_fieldsHead hhead) _).trans ?_
    simp only [map_eq_pure_bind, bind_assoc, pure_bind]
    rfl
  | next _ hmember hnext ih =>
    rw [ih, fieldsThenRest, fieldsThenRest]
    exact bind_of_run_eq (fieldsEnd_of_next hmember hnext) _

/-- Reads what stands around a field from its end to the end of the unit. -/
def fieldPlace (g : Grammar) (o : OpenValue) : Parser MemberPlace := do
  let later ← laterFields g o.field
  (·.before later) <$> memberPlace g o.unit (o.type.add o.field.earlier) o.outer

/-- A type is its frame with the member in it, among other members. -/
theorem typeRest_add_among (type : OpenType) (earlier later : List Member) (member : Member) :
    typeRest g (type.add (earlier ++ member :: later)) =
      (fun frame => TypeFrame.fill { frame with later := later ++ frame.later } member) <$>
        typeFrame g (type.add earlier) := by
  unfold typeRest typeFrame
  simp only [map_eq_pure_bind, bind_assoc, pure_bind, OpenType.add, OpenType.close,
    TypeFrame.fill, List.append_assoc, List.cons_append]

/-- **What stands around one of several members** is read without a look at the member. -/
theorem rest_add_among (unit : OpenUnit) (type : OpenType) (outer : List OpenType)
    (earlier later : List Member) (member : Member) :
    rest g unit (type.add (earlier ++ member :: later) :: outer) =
      (fun place => (place.before later).fill member) <$>
        memberPlace g unit (type.add earlier) outer := by
  rw [rest, typeRest_add_among]
  simp only [memberPlace, restBehind_eq, map_eq_pure_bind, bind_assoc, pure_bind,
    MemberPlace.fill, MemberPlace.before]

/-- **From the value of a field on**, the unit is read as the field and what stands around it. -/
theorem ReachesValue.compilationUnit_eq {o : OpenValue} (h : ReachesValue c o d) :
    compilationUnit unbounded c = (do
      let member ← fieldEnd unbounded o.field
      let place ← fieldPlace unbounded o
      return place.fill member) d := by
  rw [h.compilationUnit_eq_fieldsThenRest]
  simp only [fieldsThenRest, fieldsEnd, fieldPlace, rest_add_among, map_eq_pure_bind, bind_assoc,
    pure_bind]

/-! ## The value itself -/

variable {value later : List Token} {eq ending : Token} {lastEnd lastEnd' textEnd : Nat}

/-- What follows a field does not depend on where the last token of the field ends. -/
theorem fieldPlace_of_ending (o : OpenValue)
    (hending : ending.kind = Symbol.semi ∨ ending.kind = Symbol.comma) :
    fieldPlace unbounded o ⟨ending :: later, lastEnd, textEnd⟩ =
      fieldPlace unbounded o ⟨ending :: later, lastEnd', textEnd⟩ := by
  have hfields : laterFields unbounded o.field ⟨ending :: later, lastEnd, textEnd⟩ =
      laterFields unbounded o.field ⟨ending :: later, lastEnd', textEnd⟩ := by
    obtain hsemi | hcomma := hending
    · have hnone : ∀ e, many (laterField? unbounded o.field) ⟨ending :: later, e, textEnd⟩ =
          .ok ([], ⟨ending :: later, e, textEnd⟩) := by
        refine fun e => many_of_none (eat_bind_of_not (beq_eq_false_iff_ne.2 ?_) _)
        rw [Cursor.kind?, List.head?_cons, Option.map_some, hsemi]
        decide
      rw [laterFields, bind_of_ok (hnone _), bind_of_ok (hnone _),
        bind_of_ok (expect_of_kind hsemi), bind_of_ok (expect_of_kind hsemi)]
    · have hround : laterField? unbounded o.field ⟨ending :: later, lastEnd, textEnd⟩ =
          laterField? unbounded o.field ⟨ending :: later, lastEnd', textEnd⟩ := by
        unfold laterField?
        rw [eat_bind_of_next (Cursor.nextIs_of_kind hcomma),
          eat_bind_of_next (Cursor.nextIs_of_kind hcomma)]
        rfl
      have hadvances : Advances (laterField? unbounded o.field) := advances_laterField? o.field
      rw [laterFields, hadvances.many_eq, bind_assoc]
      exact bind_of_run_eq hround _
  exact bind_of_run_eq hfields _

/-- The value of a field is read behind its sign. -/
theorem fieldEnd_of_eq (field : OpenField) (tokens : List Token) (heq : eq.kind = Symbol.eq) :
    fieldEnd unbounded field ⟨eq :: tokens, lastEnd, textEnd⟩ = (do
      let init ← fieldValue unbounded
      return field.close (← rangeFrom field.start) init) ⟨tokens, eq.range.stop, textEnd⟩ := by
  rw [fieldEnd, eat_bind_of_next (Cursor.nextIs_of_kind heq)]
  rfl

/-- **A value that does not parse is skipped**, all of it and no more, if it is balanced. -/
theorem skipToDeclaratorEnd_of_closes {start : Cursor}
    (hstart : start.rest = value ++ ending :: later)
    (hending : ending.kind = Symbol.semi ∨ ending.kind = Symbol.comma)
    (hvalue : closes [] value = true) :
    skipToDeclaratorEnd start = .ok ((), start.skip value.length) := by
  obtain ⟨tokens, lastEnd, textEnd⟩ := start
  obtain rfl : tokens = value ++ ending :: later := hstart
  obtain ⟨stop, left, hcloses, hnil, hend⟩ := declaratorEnd_of_closes hending (.inl rfl) []
    hvalue lastEnd later
  obtain rfl := hnil rfl
  have hrest := congrArg Prod.snd hend
  have hwithin := (Within.at_start hvalue).of_skip rfl (List.cons_ne_nil ending later)
    (exists_skip_declaratorEnd lastEnd 0 textEnd (value ++ ending :: later)) hrest hcloses
  exact congrArg (fun c => Except.ok ((), c)) (hwithin.eq_skip_length rfl hrest)

/-- **A value is left where it ends**, read or skipped, if it is left there when it parses. -/
theorem exists_fieldEnd_of_closes (field : OpenField) (lastEnd : Nat) {start : Cursor}
    (hstart : start = ⟨value ++ ending :: later, eq.range.stop, textEnd⟩)
    (heq : eq.kind = Symbol.eq)
    (hending : ending.kind = Symbol.semi ∨ ending.kind = Symbol.comma)
    (hvalue : closes [] value = true)
    (hwhole : ∀ init d, unbounded.initializer start = .ok (init, d) →
      d = start.skip value.length) :
    ∃ init, fieldEnd unbounded field ⟨eq :: (value ++ ending :: later), lastEnd, textEnd⟩ =
      .ok (field.close (.upTo field.start (start.skip value.length).lastEnd) init,
        start.skip value.length) := by
  obtain ⟨init, hread⟩ : ∃ init, fieldValue unbounded start =
      .ok (init, start.skip value.length) := by
    rw [fieldValue, orElse, map_eq_pure_bind]
    cases hinit : unbounded.initializer start with
    | ok pair =>
      obtain ⟨init, d⟩ := pair
      rw [bind_of_ok hinit, hwhole init d hinit]
      exact ⟨_, rfl⟩
    | error e =>
      have hskip := skipToDeclaratorEnd_of_closes (congrArg Cursor.rest hstart) hending hvalue
      rw [bind_of_error hinit]
      dsimp only
      rw [bind_of_ok hskip]
      exact ⟨_, rfl⟩
  refine ⟨init, ?_⟩
  rw [fieldEnd_of_eq field _ heq, ← hstart, bind_of_ok hread]
  rfl

/-- A field without a value ends with its name, or with the brackets behind it. -/
theorem fieldEnd_of_ending (field : OpenField)
    (hending : ending.kind = Symbol.semi ∨ ending.kind = Symbol.comma) :
    fieldEnd unbounded field ⟨ending :: later, lastEnd, textEnd⟩ =
      .ok (field.close (.upTo field.start lastEnd) none, ⟨ending :: later, lastEnd, textEnd⟩) := by
  have hnot : Cursor.nextIs ⟨ending :: later, lastEnd, textEnd⟩ Symbol.eq = false := by
    refine beq_eq_false_iff_ne.2 ?_
    rw [Cursor.kind?, List.head?_cons, Option.map_some]
    obtain hkind | hkind := hending <;> rw [hkind] <;> decide
  rw [fieldEnd, eat_bind_of_not hnot]
  rfl

/-- **A value that is read in part** lets the declaration fail: the token behind the part that is
read should be a semicolon. -/
theorem laterFields_of_left (field : OpenField) {left after : List Token}
    (hleft : closes [] left = true) (hne : left ≠ []) (hrest : d.rest = left ++ after) :
    laterFields unbounded field d =
      .error ⟨"expected " ++ TokenKind.name Symbol.semi, d.offset⟩ := by
  obtain ⟨t, left, rfl⟩ := List.exists_cons_of_ne_nil hne
  obtain ⟨inner, hbehind, -⟩ := closes_cons.1 hleft
  have hkind : d.kind? = some t.kind := by rw [Cursor.kind?, hrest]; rfl
  have hnot : ∀ kind, closingsBehind [] kind = none → d.nextIs kind = false := by
    refine fun kind hnone => beq_eq_false_iff_ne.2 fun heq => ?_
    obtain rfl := Option.some.inj (hkind.symm.trans heq)
    cases hbehind.symm.trans hnone
  have hlater : many (laterField? unbounded field) d = .ok ([], d) :=
    many_of_none (eat_bind_of_not (hnot _ rfl) _)
  rw [laterFields, bind_of_ok hlater]
  exact bind_of_error (expect_of_not (hnot _ rfl)) _

/-- A unit is what is read from the value of a field on. -/
theorem parse_of_reachesValue {text : String} {tokens : List Token} {o : OpenValue}
    (htext : tokenize text = .ok tokens)
    (hreaches : ReachesValue ⟨tokens, 0, text.utf8ByteSize⟩ o d) :
    parse text = Except.map Prod.fst ((do
      let member ← fieldEnd unbounded o.field
      let place ← fieldPlace unbounded o
      return place.fill member : Parser CompilationUnit) d) := by
  rw [parse_eq_unbounded htext, StateT.run'_eq, StateT.run, hreaches.compilationUnit_eq]
  rfl

/-! ## Texts without the value -/

section Texts

variable {text blank : String} {before : List Token} {o : OpenValue}

/-- **A value that is left out changes nothing but itself**, if it ends where the declarator does
when it parses: neither text parses, for the same reason, or both do, and their trees are the same
but for the value of this field and where the field ends. -/
theorem parse_without_value
    (htext : tokenize text = .ok (before ++ eq :: (value ++ ending :: later)))
    (hblank : tokenize blank = .ok (before ++ ending :: later))
    (hsize : blank.utf8ByteSize = text.utf8ByteSize) (heq : eq.kind = Symbol.eq)
    (hending : ending.kind = Symbol.semi ∨ ending.kind = Symbol.comma)
    (hvalue : closes [] value = true)
    (hreaches : ReachesValue ⟨before ++ eq :: (value ++ ending :: later), 0,
      text.utf8ByteSize⟩ o ⟨eq :: (value ++ ending :: later), lastEnd, text.utf8ByteSize⟩)
    (hreaches' : ReachesValue ⟨before ++ ending :: later, 0, text.utf8ByteSize⟩ o
      ⟨ending :: later, lastEnd', text.utf8ByteSize⟩)
    {start : Cursor}
    (hstart : start = ⟨value ++ ending :: later, eq.range.stop, text.utf8ByteSize⟩)
    (hwhole : ∀ init d, unbounded.initializer start = .ok (init, d) →
      d = start.skip value.length) :
    (∃ e, parse text = .error e ∧ parse blank = .error e) ∨
      ∃ (place : MemberPlace) (init : Option Expr),
        parse text = .ok (place.fill (o.field.close
          (.upTo o.field.start (start.skip value.length).lastEnd) init)) ∧
        parse blank = .ok (place.fill (o.field.close (.upTo o.field.start lastEnd') none)) := by
  obtain ⟨init, hfield⟩ := exists_fieldEnd_of_closes o.field lastEnd hstart heq hending hvalue
    hwhole
  have hend : start.skip value.length =
      ⟨ending :: later, (start.skip value.length).lastEnd, text.utf8ByteSize⟩ := by
    rw [Cursor.skip_length (congrArg Cursor.rest hstart), congrArg Cursor.textEnd hstart]
  have hplaces : fieldPlace unbounded o (start.skip value.length) =
      fieldPlace unbounded o ⟨ending :: later, lastEnd', text.utf8ByteSize⟩ := by
    rw [hend]
    exact fieldPlace_of_ending o hending
  have hreaches'' : ReachesValue ⟨before ++ ending :: later, 0, blank.utf8ByteSize⟩ o
      ⟨ending :: later, lastEnd', text.utf8ByteSize⟩ := by
    rw [hsize]
    exact hreaches'
  rw [parse_of_reachesValue htext hreaches, parse_of_reachesValue hblank hreaches'',
    bind_of_ok hfield, bind_of_ok (fieldEnd_of_ending o.field hending)]
  cases hplace : fieldPlace unbounded o ⟨ending :: later, lastEnd', text.utf8ByteSize⟩ with
  | error e =>
    rw [bind_of_error (hplaces.trans hplace), bind_of_error hplace]
    exact .inl ⟨e, rfl, rfl⟩
  | ok pair =>
    rw [bind_of_ok (hplaces.trans hplace), bind_of_ok hplace]
    exact .inr ⟨pair.1, init, rfl, rfl⟩

/-- **A value of which only a part is read** loses the whole text: behind the part that is read a
semicolon is missing. -/
theorem parse_of_value_left {tokens left after : List Token} {init : Expr}
    (htext : tokenize text = .ok tokens) (heq : eq.kind = Symbol.eq)
    (hreaches : ReachesValue ⟨tokens, 0, text.utf8ByteSize⟩ o
      ⟨eq :: later, lastEnd, text.utf8ByteSize⟩)
    (hinit : unbounded.initializer ⟨later, eq.range.stop, text.utf8ByteSize⟩ = .ok (init, d))
    (hleft : closes [] left = true) (hne : left ≠ []) (hrest : d.rest = left ++ after) :
    parse text = .error ⟨"expected " ++ TokenKind.name Symbol.semi, d.offset⟩ := by
  have hvalue : fieldValue unbounded ⟨later, eq.range.stop, text.utf8ByteSize⟩ =
      .ok (some init, d) := by
    rw [fieldValue, orElse, map_eq_pure_bind, bind_of_ok hinit]
    rfl
  have hfield : fieldEnd unbounded o.field ⟨eq :: later, lastEnd, text.utf8ByteSize⟩ =
      .ok (o.field.close (d.rangeFrom o.field.start) (some init), d) := by
    rw [fieldEnd_of_eq o.field _ heq, bind_of_ok hvalue]
    rfl
  have hplace : fieldPlace unbounded o d =
      .error ⟨"expected " ++ TokenKind.name Symbol.semi, d.offset⟩ :=
    bind_of_error (laterFields_of_left o.field hleft hne hrest) _
  rw [parse_of_reachesValue htext hreaches, bind_of_ok hfield, bind_of_error hplace]
  rfl

/-- **When the value of a field can be left out.** Let the brackets of the value be balanced, no
semicolon and no comma outside of them, let the reading come to this field with the same open
declarations whether the value is there or not, and let it stop outside of the value's brackets if
the value parses. Then the two texts declare the same, but for this value, if and only if the value
does not parse, or it parses as a whole, or the text does not parse without it either. -/
theorem sameButValue_iff
    (htext : tokenize text = .ok (before ++ eq :: (value ++ ending :: later)))
    (hblank : tokenize blank = .ok (before ++ ending :: later))
    (hsize : blank.utf8ByteSize = text.utf8ByteSize) (heq : eq.kind = Symbol.eq)
    (hending : ending.kind = Symbol.semi ∨ ending.kind = Symbol.comma)
    (hvalue : closes [] value = true)
    (hreaches : ReachesValue ⟨before ++ eq :: (value ++ ending :: later), 0,
      text.utf8ByteSize⟩ o ⟨eq :: (value ++ ending :: later), lastEnd, text.utf8ByteSize⟩)
    (hreaches' : ReachesValue ⟨before ++ ending :: later, 0, text.utf8ByteSize⟩ o
      ⟨ending :: later, lastEnd', text.utf8ByteSize⟩)
    {start : Cursor}
    (hstart : start = ⟨value ++ ending :: later, eq.range.stop, text.utf8ByteSize⟩)
    (hstops : ∀ init d, unbounded.initializer start = .ok (init, d) → Within value start [] d) :
    SameButValue text blank o.field ↔
      (∀ init d, unbounded.initializer start = .ok (init, d) → d.rest = ending :: later) ∨
        ∃ e, parse blank = .error e := by
  have hrest : start.rest = value ++ ending :: later := congrArg Cursor.rest hstart
  by_cases hwhole : ∀ init d, unbounded.initializer start = .ok (init, d) →
      d.rest = ending :: later
  · refine iff_of_true ?_ (.inl hwhole)
    obtain ⟨e, hfails, hfails'⟩ | ⟨place, init, hparse, hparse'⟩ := parse_without_value htext hblank
      hsize heq hending hvalue hreaches hreaches' hstart fun init d hinit =>
        (hstops init d hinit).eq_skip_length hrest (hwhole init d hinit)
    · exact .inl ⟨⟨e, hfails⟩, e, hfails'⟩
    · exact .inr ⟨place, _, _, init, hparse, hparse'⟩
  · -- a part of the value is read, and the text is lost
    rw [or_iff_right hwhole]
    simp only [not_forall] at hwhole
    obtain ⟨init, d, hinit, hpart⟩ := hwhole
    obtain ⟨left, hcloses, hleft⟩ := (hstops init d hinit).exists_left hrest
    have hne : left ≠ [] := fun hnil => hpart (by rw [hleft, hnil, List.nil_append])
    have hfails := parse_of_value_left htext heq hreaches (hstart ▸ hinit) hcloses hne hleft
    constructor
    · rintro (⟨-, hfails'⟩ | ⟨place, range, range', init', hparse, -⟩)
      · exact hfails'
      · cases hfails.symm.trans hparse
    · exact fun hfails' => .inl ⟨⟨_, hfails⟩, hfails'⟩

end Texts

/-! ## Values in texts whose skips keep to braces -/

/-- **The reading of a unit comes to the value of the first field of a declaration.** -/
def ReachesFirstValue (c : Cursor) (o : OpenValue) (d : Cursor) : Prop :=
  ∃ mid, ComesTo unbounded c o.unit (o.type :: o.outer) mid ∧
    inBody (fieldsHead unbounded o.type.name.text) mid = .ok (some (.fields o.field), d)

theorem ReachesFirstValue.reachesValue {o : OpenValue} (h : ReachesFirstValue c o d) :
    ReachesValue c o d := by
  obtain ⟨mid, hcomes, hhead⟩ := h
  exact .first hcomes hhead

theorem leaves_memberStart (hg : g.ReadsOn) {n : Nat} (typeName : String) :
    Leaves n n (memberStart g typeName) := by
  refine (leaves_eat _).bind fun _ => .ite .done (leaves_offset.bind fun start => ?_)
  refine (leaves_nextIs _).bind fun _ => (leaves_nextAre _ _).bind fun _ => .ite ?_ ?_
  · refine (leaves_eat _).bind fun _ => ?_
    exact (agree_block (hg n) (Nat.le_refl n)).pass fun _ => leaves_ranged _ _
  · refine leaves_modifiers.bind fun mods => leaves_nextIsTypeDecl.bind fun _ => .ite ?_ ?_
    · exact (agree_typeDecl (hg n) (Nat.le_succ n) mods start).pass fun _ => .done
    · refine leaves_typeArguments.bind fun _ => (leaves_nextIsConstructor _).bind fun _ => ?_
      refine .ite (leaves_ident.pass fun name => ?_) (leaves_typeRef.pass fun _ => .done)
      exact (agree_methodRest (hg n) (Nat.le_refl n) mods none name start).bind fun _ => .done

theorem leads_memberStart {v : Region} (hg : g.Declares v) {closings : List Symbol}
    (typeName : String) :
    Leads v (.rBrace :: closings) (.rBrace :: closings) (memberStart g typeName) := by
  refine (leads_eat rfl).bind fun _ => .ite (.pure _) (leads_offset.bind fun start => ?_)
  refine (leads_nextIs _).bind fun _ => (leads_nextAre (by decide) fun _ h => by cases h).bind
    fun _ => .ite ?_ ?_
  · exact (leads_eat rfl).bind fun _ => hg.block.bind fun _ => leads_ranged _ _
  · refine (leads_modifiers hg.skips).bind fun mods => leads_nextIsTypeDecl.bind fun _ => .ite ?_ ?_
    · exact (leads_typeDecl hg mods start).bind fun _ => .pure _
    · refine hg.skips.typeArguments.bind fun _ =>
        (leads_nextIsConstructor typeName).bind fun _ => ?_
      refine .ite (leads_ident.bind fun name => ?_) ((leads_typeRef hg.skips).bind fun _ => .pure _)
      exact (leads_methodRest hg mods none name start).bind fun _ => .pure _

/-- A pair of brackets that comes next is read. -/
theorem emptyPair?_eq (opening closing : Token) (tokens : List Token) (lastEnd textEnd : Nat)
    (hopening : opening.kind = Symbol.lBracket) (hclosing : closing.kind = Symbol.rBracket) :
    emptyPair? ⟨opening :: closing :: tokens, lastEnd, textEnd⟩ =
      .ok (some (), ⟨tokens, closing.range.stop, textEnd⟩) := by
  obtain ⟨kind, text, range⟩ := opening
  obtain ⟨kind', text', range'⟩ := closing
  obtain rfl : kind = Symbol.lBracket := hopening
  obtain rfl : kind' = Symbol.rBracket := hclosing
  rfl

/-- What is read of brackets: a pair of them, or nothing. -/
theorem of_emptyPair?_eq_ok {o : Option Unit} {mid : Cursor} (h : emptyPair? c = .ok (o, mid)) :
    (o = none ∧ mid = c) ∨ ∃ opening closing tokens, o = some () ∧
      c.rest = opening :: closing :: tokens ∧ opening.kind = Symbol.lBracket ∧
        closing.kind = Symbol.rBracket ∧ mid = ⟨tokens, closing.range.stop, c.textEnd⟩ := by
  obtain ⟨found, next, hfound, hread⟩ := of_bind_eq_ok h
  cases hfound
  split at hread
  next hnext =>
    obtain ⟨hopening, hclosing⟩ := Bool.and_eq_true_iff.1 hnext
    obtain ⟨rest, lastEnd, textEnd⟩ := c
    match rest with
    | [] => cases hopening
    | [_] => cases hclosing
    | opening :: closing :: tokens =>
      cases hread
      exact .inr ⟨opening, closing, tokens, rfl, rfl, Option.some.inj (eq_of_beq hopening),
        Option.some.inj (eq_of_beq hclosing), rfl⟩
  next =>
    cases hread
    exact .inl ⟨rfl, rfl⟩

/-- **Brackets behind a name** are read whatever stands behind them, if it is no bracket. -/
theorem exists_of_emptyPairs_eq_ok {pairs : List Unit}
    (h : many emptyPair? c = .ok (pairs, d)) :
    ∃ brackets, c.rest = brackets ++ d.rest ∧
      (∀ t ∈ brackets.head?, t.kind = Symbol.lBracket) ∧
      ∀ {t : Token} {tokens : List Token}, t.kind ≠ Symbol.lBracket →
        many emptyPair? ⟨brackets ++ t :: tokens, c.lastEnd, c.textEnd⟩ =
          .ok (pairs, ⟨t :: tokens, d.lastEnd, c.textEnd⟩) := by
  induction pairs generalizing c with
  | nil =>
    obtain ⟨-, rfl⟩ | ⟨_, _, _, ho, -⟩ :=
      of_emptyPair?_eq_ok (advances_emptyPair?.many_eq_nil_iff.1 h)
    · refine ⟨[], rfl, nofun, fun {t tokens} hkind => advances_emptyPair?.many_eq_nil_iff.2 ?_⟩
      have hnext : Cursor.nextIs ⟨t :: tokens, d.lastEnd, d.textEnd⟩ Symbol.lBracket = false :=
        beq_eq_false_iff_ne.2 fun heq => hkind (Option.some.inj heq)
      have hnone : nextAre Symbol.lBracket Symbol.rBracket ⟨t :: tokens, d.lastEnd, d.textEnd⟩ =
          .ok (false, ⟨t :: tokens, d.lastEnd, d.textEnd⟩) :=
        congrArg (fun found => Except.ok (found, _)) (by rw [hnext, Bool.false_and])
      exact bind_of_ok hnone _
    · cases ho
  | cons pair pairs ih =>
    obtain ⟨mid, hround, hrest⟩ := advances_emptyPair?.many_eq_cons_iff.1 h
    obtain ⟨ho, -⟩ | ⟨opening, closing, tokens, -, htokens, hopening, hclosing, rfl⟩ :=
      of_emptyPair?_eq_ok hround
    · cases ho
    · obtain ⟨brackets, hbrackets, -, hread⟩ := ih hrest
      refine ⟨opening :: closing :: brackets, ?_, ?_, fun hkind => ?_⟩
      · rw [htokens]
        exact congrArg (opening :: closing :: ·) hbrackets
      · rintro t ⟨⟩
        exact hopening
      · exact advances_emptyPair?.many_eq_cons_iff.2
          ⟨_, emptyPair?_eq opening closing _ _ _ hopening hclosing, hread hkind⟩

/-- Behind a name and brackets no parameters come next unless they stand there. -/
theorem kind_head?_ne_lParen {brackets tokens : List Token} {t : Token}
    (hbrackets : ∀ t ∈ brackets.head?, t.kind = Symbol.lBracket) (ht : t.kind ≠ Symbol.lParen) :
    (brackets ++ t :: tokens).head?.map (·.kind) ≠ some (.symbol .lParen) := by
  intro heq
  cases brackets with
  | nil => exact ht (Option.some.inj heq)
  | cons u brackets => cases (hbrackets u rfl).symm.trans (Option.some.inj heq)

/-- Two texts that part behind a name and brackets are alike from the name on, if no parameters come
next in either. -/
theorem alike_of_brackets {name t t' : Token} {brackets tokens tokens' : List Token}
    (hname : name.kind = .ident) (hbrackets : ∀ t ∈ brackets.head?, t.kind = Symbol.lBracket)
    (ht : t.kind ≠ Symbol.lParen) (ht' : t'.kind ≠ Symbol.lParen) :
    Alike (name :: (brackets ++ t :: tokens)) (name :: (brackets ++ t' :: tokens')) name
      (brackets ++ t :: tokens) (brackets ++ t' :: tokens') :=
  ⟨rfl, rfl, .inr ⟨hname, kind_head?_ne_lParen hbrackets ht, kind_head?_ne_lParen hbrackets ht'⟩⟩

/-- Dimensions behind a name are read whatever stands behind them, if it is no bracket. -/
theorem exists_of_dims_eq_ok {extra : Nat} (h : dims c = .ok (extra, d)) :
    ∃ brackets, c.rest = brackets ++ d.rest ∧
      (∀ t ∈ brackets.head?, t.kind = Symbol.lBracket) ∧
      ∀ {t : Token} {tokens : List Token}, t.kind ≠ Symbol.lBracket →
        dims ⟨brackets ++ t :: tokens, c.lastEnd, c.textEnd⟩ =
          .ok (extra, ⟨t :: tokens, d.lastEnd, c.textEnd⟩) := by
  rw [dims_eq] at h
  obtain ⟨pairs, mid, hpairs, h⟩ := of_bind_eq_ok h
  cases h
  obtain ⟨brackets, hrest, hbrackets, hread⟩ := exists_of_emptyPairs_eq_ok hpairs
  refine ⟨brackets, hrest, hbrackets, fun hkind => ?_⟩
  rw [dims_eq]
  exact bind_of_ok (hread hkind) _

theorem ident_of_kind {name : Token} {tokens : List Token} (hname : name.kind = .ident)
    (lastEnd textEnd : Nat) :
    ident ⟨name :: tokens, lastEnd, textEnd⟩ =
      .ok (⟨name.text, name.range⟩, ⟨tokens, name.range.stop, textEnd⟩) :=
  bind_of_ok (expect_of_kind hname) _

/-- A name that is read. -/
theorem exists_of_ident_eq_ok {name : Ident} (h : ident c = .ok (name, d)) :
    ∃ t tokens, c.rest = t :: tokens ∧ t.kind = .ident ∧ name = ⟨t.text, t.range⟩ ∧
      d = ⟨tokens, t.range.stop, c.textEnd⟩ := by
  obtain ⟨t, mid, hexpect, h⟩ := of_bind_eq_ok h
  cases h
  obtain ⟨hnext, -⟩ := of_expect_eq_ok hexpect
  obtain ⟨rest, lastEnd, textEnd⟩ := c
  cases rest with
  | nil => cases hnext
  | cons first tokens =>
    have hkind : first.kind = .ident := Option.some.inj (eq_of_beq hnext)
    cases (expect_of_kind hkind).symm.trans hexpect
    exact ⟨_, tokens, rfl, hkind, rfl, rfl⟩

/-- **Where the first field of a declaration is open**: behind its name, and the brackets of its
own. Whatever stands behind these in another text, the field is open there too. -/
theorem exists_name_of_namedHead {mods : Modifiers} {type : TypeRef} {start : Nat}
    {field : OpenField} (h : namedHead g mods type start c = .ok (.fields field, d)) :
    ∃ (name : Token) (brackets : List Token), name.kind = .ident ∧
      c.rest = name :: (brackets ++ d.rest) ∧
      (∀ t ∈ brackets.head?, t.kind = Symbol.lBracket) ∧
      ∀ {t : Token} {tokens : List Token} {lastEnd : Nat}, t.kind ≠ Symbol.lBracket →
        t.kind ≠ Symbol.lParen →
        namedHead g mods type start ⟨name :: (brackets ++ t :: tokens), lastEnd, c.textEnd⟩ =
          .ok (.fields field, ⟨t :: tokens, d.lastEnd, c.textEnd⟩) := by
  obtain ⟨ident, behind, hname, h⟩ := of_bind_eq_ok h
  obtain ⟨name, rest, hrest, hkind, rfl, rfl⟩ := exists_of_ident_eq_ok hname
  rw [nextIs_bind_eq] at h
  split at h
  next =>
    obtain ⟨_, _, -, h⟩ := of_bind_eq_ok h
    cases h
  next =>
    obtain ⟨_, _, hfield, h⟩ := of_bind_eq_ok h
    obtain ⟨extra, _, hdims, hfield⟩ := of_bind_eq_ok hfield
    cases hfield
    cases h
    obtain ⟨brackets, hbrackets, hhead, hread⟩ := exists_of_dims_eq_ok hdims
    refine ⟨name, brackets, hkind, hrest.trans (congrArg (name :: ·) hbrackets), hhead, ?_⟩
    intro t tokens lastEnd hbracket hparen
    have hnot : Cursor.nextIs ⟨brackets ++ t :: tokens, name.range.stop, c.textEnd⟩
        Symbol.lParen = false :=
      beq_eq_false_iff_ne.2 (kind_head?_ne_lParen hhead hparen)
    rw [namedHead, bind_of_ok (ident_of_kind hkind _ _), nextIs_bind_eq, hnot,
      if_neg Bool.false_ne_true]
    exact bind_of_ok (bind_of_ok (hread hbracket) _) _

/-- A declaration of fields has a type before the name of the first one. -/
theorem exists_memberStart_of_fieldsHead {typeName : String} {field : OpenField}
    (h : fieldsHead g typeName c = .ok (.fields field, d)) :
    ∃ mods type start named, memberStart g typeName c = .ok (.typed mods type start, named) ∧
      namedHead g mods type start named = .ok (.fields field, d) := by
  obtain ⟨head, named, hstart, h⟩ := of_bind_eq_ok h
  cases head with
  | other members => cases h
  | typed mods type start => exact ⟨mods, type, start, named, hstart, h⟩

/-- The name of a field comes next where two texts part: the reading of both texts comes to the
declaration of the field, and from there to its name. -/
theorem ComesTo.exists_memberStart_eq_ok {before after after' : List Token} {t : Token}
    {rest rest' : List Token} {unit : OpenUnit} {types : List OpenType} {mid named : Cursor}
    {typeName : String} {head : MemberStart} (halike : Alike after after' t rest rest')
    (hident : t.kind = .ident) (hkeeps : skipsKeepBraces (before ++ after) = true)
    (hkeeps' : skipsKeepBraces (before ++ after') = true)
    (h : ComesTo unbounded ⟨before ++ after, 0, textEnd⟩ unit types mid) (htypes : types ≠ [])
    (hhead : memberStart unbounded typeName mid = .ok (head, named)) (hafter : named.rest = after) :
    ∃ mid' lastEnd', ComesTo unbounded ⟨before ++ after', 0, textEnd⟩ unit types mid' ∧
      (commonStart halike).At [.rBrace] mid mid' ∧
      memberStart unbounded typeName mid' = .ok (head, ⟨after', lastEnd', named.textEnd⟩) := by
  have hsemi : t.kind ≠ Symbol.semi := by rw [hident]; decide
  have hbrace : t.kind ≠ Symbol.rBrace := by rw [hident]; decide
  have hleads : Leads (commonStart halike) [.rBrace] [.rBrace] (memberStart unbounded typeName) :=
    leads_memberStart (Grammar.declares_unbounded hsemi hbrace) typeName
  have hin : after.length ≤ named.rest.length := Nat.le_of_eq (congrArg List.length hafter.symm)
  obtain ⟨mid', hcomes, hat⟩ := h.exists_of_skipsKeepBraces halike hsemi hbrace hkeeps hkeeps'
    htypes (Nat.le_trans hin (hleads.onward trivial hhead))
  obtain ⟨⟨_, lastEnd', _⟩, hhead', left, hleft, hrest', -, rfl, -⟩ :=
    (hleads.at_cursor hat).exists_of_ok hhead hin
  obtain rfl : left = [] := List.append_left_eq_self.1 (hleft.symm.trans hafter)
  obtain rfl := hrest'
  exact ⟨mid', lastEnd', hcomes, hat, hhead'⟩

/-- **The reading comes to a first field without its value** as it does with the value, in texts
in which readers that skip tokens keep to braces. -/
theorem ReachesFirstValue.without_value {before : List Token} {o : OpenValue}
    (heq : eq.kind = Symbol.eq) (hending : ending.kind = Symbol.semi ∨ ending.kind = Symbol.comma)
    (hkeeps : skipsKeepBraces (before ++ eq :: (value ++ ending :: later)) = true)
    (hkeeps' : skipsKeepBraces (before ++ ending :: later) = true)
    (h : ReachesFirstValue ⟨before ++ eq :: (value ++ ending :: later), 0, textEnd⟩ o
      ⟨eq :: (value ++ ending :: later), lastEnd, textEnd⟩) :
    ReachesFirstValue ⟨before ++ ending :: later, 0, textEnd⟩ o
      ⟨ending :: later, lastEnd, textEnd⟩ := by
  obtain ⟨mid, hcomes, hhead⟩ := h
  obtain ⟨hopen, hempty, hhead⟩ := of_untilClosed_eq_ok hhead
  obtain ⟨mods, type, start, named, hhead, hnamed⟩ := exists_memberStart_of_fieldsHead hhead
  obtain ⟨name, brackets, hname, hrest, hbrackets, hread⟩ := exists_name_of_namedHead hnamed
  -- the texts have the same tokens up to the name of the field and its brackets
  have honward := hcomes.onward.trans
    (((leaves_memberStart Grammar.readsOn_unbounded _).at_cursor (Nat.lt_succ_self _)).onward hhead)
  obtain ⟨earlier, hearlier⟩ := honward.exists_rest_eq
  have hbefore : before ++ eq :: (value ++ ending :: later) =
      (earlier ++ name :: brackets) ++ eq :: (value ++ ending :: later) := by
    rw [List.append_assoc]
    exact hearlier.trans (congrArg (earlier ++ ·) hrest)
  obtain rfl := List.append_cancel_right hbefore
  have hparen : ending.kind ≠ Symbol.lParen := by
    obtain hkind | hkind := hending <;> rw [hkind] <;> decide
  have hbracket : ending.kind ≠ Symbol.lBracket := by
    obtain hkind | hkind := hending <;> rw [hkind] <;> decide
  have halike : Alike (name :: (brackets ++ eq :: (value ++ ending :: later)))
      (name :: (brackets ++ ending :: later)) name _ _ :=
    alike_of_brackets hname hbrackets (by rw [heq]; decide) hparen
  rw [List.append_assoc, List.cons_append] at hkeeps hkeeps' hcomes ⊢
  obtain ⟨mid', lastEnd', hcomes', hat, hhead'⟩ := hcomes.exists_memberStart_eq_ok halike hname
    hkeeps hkeeps' (List.cons_ne_nil _ _) hhead hrest
  obtain ⟨n, rfl⟩ := honward
  rw [Cursor.textEnd_skip] at hread hhead'
  refine ⟨mid', hcomes', ?_⟩
  rw [inBody, untilClosed_of_open (hat.nextIs_eq _ ▸ hopen) (hat.isEmpty_eq ▸ hempty),
    map_eq_pure_bind]
  exact bind_of_ok ((bind_of_ok hhead' _).trans (hread hbracket hparen)) _

/-- **When the value of a field can be left out**, in texts in which readers that skip tokens keep
to braces. Let the brackets of the value be balanced, no semicolon and no comma outside of them, and
let no angle bracket in it be closed in other brackets than its own. Wherever the reading of the
text comes to this field as the first one of its declaration, the text and the one without the value
declare the same, but for this value, if and only if the value does not parse, or it parses as a
whole, or the text does not parse without it either. -/
theorem sameButValue_iff_of_skipsKeepBraces {text blank : String} {before : List Token}
    {o : OpenValue} {start : Cursor}
    (htext : tokenize text = .ok (before ++ eq :: (value ++ ending :: later)))
    (hblank : tokenize blank = .ok (before ++ ending :: later))
    (hsize : blank.utf8ByteSize = text.utf8ByteSize) (heq : eq.kind = Symbol.eq)
    (hending : ending.kind = Symbol.semi ∨ ending.kind = Symbol.comma)
    (hvalue : closes [] value = true) (hangles : AnglesWithin value (ending :: later))
    (hkeeps : skipsKeepBraces (before ++ eq :: (value ++ ending :: later)) = true)
    (hkeeps' : skipsKeepBraces (before ++ ending :: later) = true)
    (hreaches : ReachesFirstValue ⟨before ++ eq :: (value ++ ending :: later), 0,
      text.utf8ByteSize⟩ o ⟨eq :: (value ++ ending :: later), lastEnd, text.utf8ByteSize⟩)
    (hstart : start = ⟨value ++ ending :: later, eq.range.stop, text.utf8ByteSize⟩) :
    SameButValue text blank o.field ↔
      (∀ init d, unbounded.initializer start = .ok (init, d) → d.rest = ending :: later) ∨
        ∃ e, parse blank = .error e := by
  have hreaches' := hreaches.without_value heq hending hkeeps hkeeps'
  exact sameButValue_iff htext hblank hsize heq hending hvalue hreaches.reachesValue
    hreaches'.reachesValue hstart fun _ _ hinit =>
      initializer_within (congrArg Cursor.rest hstart) hending hvalue hangles hinit

/-! ## A value out of the grammar -/

/-- A class with a field whose value does not parse. -/
def valueText : String := "class A \x7b int f = if (1, 2); int g; \x7d"

/-- The same class without the value. -/
def noValueText : String := "class A \x7b int f            ; int g; \x7d"

/-- The tokens before the value. -/
def valueHead : List Token :=
  [tokenAt Keyword.classKw "class" 0, tokenAt .ident "A" 6, tokenAt Symbol.lBrace "\x7b" 8,
    tokenAt (.primitive .int) "int" 10, tokenAt .ident "f" 14]

/-- The tokens of the value. -/
def ifValue : List Token :=
  [tokenAt Keyword.ifKw "if" 18, tokenAt Symbol.lParen "(" 21, tokenAt .number "1" 22,
    tokenAt Symbol.comma "," 23, tokenAt .number "2" 25, tokenAt Symbol.rParen ")" 26]

/-- The tokens behind the declaration. -/
def valueTail : List Token :=
  [tokenAt (.primitive .int) "int" 29, tokenAt .ident "g" 33, tokenAt Symbol.semi ";" 34,
    tokenAt Symbol.rBrace "\x7d" 36]

/-- What is open at the value. -/
def valueOpen : OpenValue where
  unit := ⟨none, [], []⟩
  type := ⟨.classDecl, {}, ⟨"A", .upTo 6 7⟩, none, [], 0, []⟩
  outer := []
  field := ⟨{}, ⟨["int"], 0, .upTo 10 13⟩, 10, [], ⟨"f", .upTo 14 15⟩, 0⟩

/-- The class is open, whatever stands in it. -/
theorem comesTo_valueOpen (tokens : List Token) :
    ComesTo unbounded ⟨valueHead ++ tokens, 0, 37⟩ valueOpen.unit [valueOpen.type]
      ⟨valueHead.drop 3 ++ tokens, 9, 37⟩ := by
  have hstart : ComesTo unbounded ⟨valueHead ++ tokens, 0, 37⟩ valueOpen.unit []
      ⟨valueHead ++ tokens, 0, 37⟩ := .start rfl rfl
  exact .openTop hstart rfl

/-- **A value that does not parse**, left out: the field stays, and so does the field behind it. -/
theorem parse_valueText_and_noValueText :
    ∃ (place : MemberPlace) (range range' : TextRange) (init : Option Expr),
      parse valueText = .ok (place.fill (valueOpen.field.close range init)) ∧
        parse noValueText = .ok (place.fill (valueOpen.field.close range' none)) := by
  have htext : tokenize valueText = .ok (valueHead ++ tokenAt Symbol.eq "=" 16 ::
      (ifValue ++ tokenAt Symbol.semi ";" 27 :: valueTail)) := by
    decide +kernel
  have hblank : tokenize noValueText = .ok (valueHead ++ tokenAt Symbol.semi ";" 27 ::
      valueTail) := by
    decide +kernel
  have hvalue : closes [] ifValue = true := by decide
  have hsame := (sameButValue_iff_of_skipsKeepBraces htext hblank rfl rfl (.inl rfl) hvalue
    (.of_forall_ne (by decide)) (by decide) (by decide) ⟨_, comesTo_valueOpen _, rfl⟩ rfl).2
      (.inl fun init d hinit => by cases hinit)
  have hparses : (parse valueText).toOption.isSome = true := by decide +kernel
  obtain ⟨⟨e, hfails⟩, -⟩ | hok := hsame
  · rw [hfails] at hparses
    cases hparses
  · exact hok

end Parser

end SourceSearch
