import SourceSearch.Binding.Expressions
import SourceSearch.Proofs.LoopRounds

/-!
# Creations of arrays

Behind `new` and the type of the elements stand pairs of brackets, sized or empty, and perhaps the
items (`Parser.NewArrayAt`). Such tokens, and no others, are read as the creation of an array
(`Parser.creation_newArray_iff`). The tree counts all pairs as dimensions of the type and keeps the
sizes besides, and binding adds a dimension for each size to those of the type, at least one. So the
creation has more dimensions than it has pairs of brackets, and indexing it once for each pair
gives an array still (`typeOf_newArrayAt`).
-/

set_option autoImplicit false

namespace SourceSearch

/-! ## Dimensions -/

namespace StaticType

theorem arrayOf_arrayOf (type : StaticType) (m n : Nat) :
    (type.arrayOf m).arrayOf n = type.arrayOf (m + n) := by
  induction n with
  | zero => rfl
  | succ n ih => rw [arrayOf, ih, ← Nat.add_assoc, arrayOf]

theorem sizeOf_arrayOf (type : StaticType) (n : Nat) :
    sizeOf (type.arrayOf n) = sizeOf type + n := by
  induction n with
  | zero => rfl
  | succ n ih =>
    rw [arrayOf, array.sizeOf_spec, ih]
    omega

/-- An array is not its own element. -/
theorem arrayOf_ne_self {n : Nat} (h : 0 < n) (type : StaticType) : type.arrayOf n ≠ type := by
  intro heq
  have hsize := type.sizeOf_arrayOf n
  rw [heq] at hsize
  omega

end StaticType

namespace BoundWorkspace

variable (s : BoundWorkspace) (scope : NameScope)

theorem staticTypeOf_addDims (ref : TypeRef) (key : Option TypeKey) (dims : Nat) :
    staticTypeOf (ref.addDims dims) key = (staticTypeOf ref key).arrayOf dims := by
  have hprimitive : (ref.addDims dims).isPrimitive = ref.isPrimitive := rfl
  have hname : (ref.addDims dims).simpleName = ref.simpleName := rfl
  have hdims : (ref.addDims dims).dims = ref.dims + dims := rfl
  unfold staticTypeOf
  rw [hprimitive, hname, hdims]
  split
  · exact (StaticType.arrayOf_arrayOf _ _ _).symm
  · cases key <;> exact (StaticType.arrayOf_arrayOf _ _ _).symm

/-- **A written type with brackets** behind it is an array of the type without them. -/
theorem staticTypeOfRef_addDims (ref : TypeRef) (dims : Nat) :
    s.staticTypeOfRef scope (ref.addDims dims) = (s.staticTypeOfRef scope ref).arrayOf dims :=
  staticTypeOf_addDims ref (s.typeOfRef? scope ref) dims

/-- **A creation** has the dimensions of its type and besides one for each size, at least one. -/
theorem typeOf_newArray (locals : Locals) (type : TypeRef) (sizes : List Expr)
    (init : Option (List Expr)) (range : TextRange) :
    s.typeOf scope locals ⟨.newArray type sizes init, range⟩ =
      (s.staticTypeOfRef scope type).arrayOf (max sizes.length 1) := by
  rw [typeOf, meaning, meaningOfKind, Meaning.staticType]

end BoundWorkspace

/-- An expression with indices behind it, each in brackets and with the range of the whole. -/
def Expr.indexed (array : Expr) : List (Expr × TextRange) → Expr
  | [] => array
  | (index, range) :: rest => indexed ⟨.arrayAccess array index, range⟩ rest

/-- **Each index** takes one dimension off. -/
theorem BoundWorkspace.typeOf_indexed (s : BoundWorkspace) (scope : NameScope) (locals : Locals)
    {array : Expr} {element : StaticType} {dims : Nat} (indices : List (Expr × TextRange))
    (h : s.typeOf scope locals array = element.arrayOf (dims + indices.length)) :
    s.typeOf scope locals (array.indexed indices) = element.arrayOf dims := by
  induction indices generalizing array with
  | nil => exact h
  | cons first rest ih =>
    refine ih ?_
    rw [typeOf, meaning, meaningOfKind, ← typeOf, h, List.length_cons, ← Nat.add_assoc,
      StaticType.arrayOf]
    rfl

namespace Parser

variable {g : Grammar}

/-! ## Pairs of brackets -/

/-- From the one cursor to the other stand pairs of brackets, each empty or with a size, and no
bracket opens behind them. -/
inductive BracketPairs (g : Grammar) : Cursor → List (Option Expr) → Cursor → Prop
  | done {c : Cursor} : c.nextIs Symbol.lBracket = false → BracketPairs g c [] c
  | empty {c d : Cursor} {pairs : List (Option Expr)} : c.nextIs Symbol.lBracket = true →
      c.advance.nextIs Symbol.rBracket = true → BracketPairs g c.advance.advance pairs d →
      BracketPairs g c (none :: pairs) d
  | sized {c mid d : Cursor} {size : Expr} {pairs : List (Option Expr)} :
      c.nextIs Symbol.lBracket = true → c.advance.nextIs Symbol.rBracket = false →
      g.expr c.advance = .ok (size, mid) → mid.nextIs Symbol.rBracket = true →
      BracketPairs g mid.advance pairs d → BracketPairs g c (some size :: pairs) d

/-- **A round** reads a pair that is there, and reads nothing where no bracket opens. -/
theorem bracketPair?_eq_ok_iff {c d : Cursor} {o : Option (Option Expr)} :
    bracketPair? g c = .ok (o, d) ↔
      (o = none ∧ c.nextIs Symbol.lBracket = false ∧ d = c) ∨
      (o = some none ∧ c.nextIs Symbol.lBracket = true ∧
        c.advance.nextIs Symbol.rBracket = true ∧ d = c.advance.advance) ∨
      ∃ size mid, o = some (some size) ∧ c.nextIs Symbol.lBracket = true ∧
        c.advance.nextIs Symbol.rBracket = false ∧ g.expr c.advance = .ok (size, mid) ∧
        mid.nextIs Symbol.rBracket = true ∧ d = mid.advance := by
  unfold bracketPair?
  cases hopened : c.nextIs Symbol.lBracket with
  | false =>
    rw [eat_bind_of_not hopened, if_neg Bool.false_ne_true]
    constructor
    · rintro ⟨⟩
      exact .inl ⟨rfl, rfl, rfl⟩
    · rintro (⟨rfl, -, rfl⟩ | ⟨-, h, -⟩ | ⟨_, _, -, h, -⟩)
      · rfl
      · cases h
      · cases h
  | true =>
    rw [eat_bind_of_next hopened, if_pos rfl]
    cases hclosed : c.advance.nextIs Symbol.rBracket with
    | true =>
      rw [eat_bind_of_next hclosed, if_pos rfl]
      constructor
      · rintro ⟨⟩
        exact .inr (.inl ⟨rfl, rfl, rfl, rfl⟩)
      · rintro (⟨-, h, -⟩ | ⟨rfl, -, -, rfl⟩ | ⟨_, _, -, -, h, -⟩)
        · cases h
        · rfl
        · cases h
    | false =>
      rw [eat_bind_of_not hclosed, if_neg Bool.false_ne_true]
      constructor
      · intro h
        obtain ⟨size, mid, hsize, h⟩ := of_bind_eq_ok h
        obtain ⟨t, after, hexpect, h⟩ := of_bind_eq_ok h
        obtain ⟨hnext, rfl⟩ := of_expect_eq_ok hexpect
        cases h
        exact .inr (.inr ⟨size, mid, rfl, rfl, rfl, hsize, hnext, rfl⟩)
      · rintro (⟨-, h, -⟩ | ⟨-, -, h, -⟩ | ⟨size, mid, rfl, -, -, hsize, hnext, rfl⟩)
        · cases h
        · cases h
        · obtain ⟨t, hexpect⟩ := exists_expect_eq_ok hnext
          rw [bind_of_ok hsize, bind_of_ok hexpect]
          rfl

/-- **The loop over brackets** reads the pairs that are there. -/
theorem many_bracketPair?_eq_ok_iff (hg : ∀ n, Leaves n (n - 1) g.expr) {c d : Cursor}
    {pairs : List (Option Expr)} :
    many (bracketPair? g) c = .ok (pairs, d) ↔ BracketPairs g c pairs d := by
  have hadvances : Advances (bracketPair? g) := advances_bracketPair? hg
  constructor
  · intro h
    induction pairs generalizing c with
    | nil =>
      rcases bracketPair?_eq_ok_iff.1 (hadvances.many_eq_nil_iff.1 h) with
        ⟨-, hnext, rfl⟩ | ⟨hsome, -⟩ | ⟨_, _, hsome, -⟩
      · exact .done hnext
      · cases hsome
      · cases hsome
    | cons pair pairs ih =>
      obtain ⟨mid, hround, hrest⟩ := hadvances.many_eq_cons_iff.1 h
      rcases bracketPair?_eq_ok_iff.1 hround with ⟨hnone, -⟩ | ⟨hpair, hnext, hclosed, rfl⟩ |
        ⟨size, after, hpair, hnext, hclosed, hsize, hend, rfl⟩
      · cases hnone
      · cases hpair
        exact .empty hnext hclosed (ih hrest)
      · cases hpair
        exact .sized hnext hclosed hsize hend (ih hrest)
  · intro h
    induction h with
    | done hnext => exact many_of_none (bracketPair?_eq_ok_iff.2 (.inl ⟨rfl, hnext, rfl⟩))
    | empty hnext hclosed _ ih =>
      refine hadvances.many_eq_cons_iff.2 ⟨_, bracketPair?_eq_ok_iff.2 (.inr (.inl ?_)), ih⟩
      exact ⟨rfl, hnext, hclosed, rfl⟩
    | sized hnext hclosed hsize hend _ ih =>
      refine hadvances.many_eq_cons_iff.2 ⟨_, bracketPair?_eq_ok_iff.2 (.inr (.inr ?_)), ih⟩
      exact ⟨_, _, rfl, hnext, hclosed, hsize, hend, rfl⟩

/-! ## Creations -/

/-- The items of an array stand from the one cursor to the other, or no brace opens there. -/
def ItemsAt (g : Grammar) (c : Cursor) (items : Option (List Expr)) (d : Cursor) : Prop :=
  match items with
  | none => c.nextIs Symbol.lBrace = false ∧ d = c
  | some items => c.nextIs Symbol.lBrace = true ∧ arrayItems g c = .ok (items, d)

/-- From the one cursor to the other stand the type of the elements of an array, pairs of brackets,
and perhaps the items. -/
structure NewArrayAt (g : Grammar) (c : Cursor) (element : TypeRef) (pairs : List (Option Expr))
    (items : Option (List Expr)) (d : Cursor) : Prop where
  reads : ∃ afterType afterPairs, elementType c = .ok (element, afterType) ∧
    BracketPairs g afterType pairs afterPairs ∧ ItemsAt g afterPairs items d
  pairs_ne_nil : pairs ≠ []

theorem bracketPairs_ne_nil_iff {c d : Cursor} {pairs : List (Option Expr)}
    (h : BracketPairs g c pairs d) : pairs ≠ [] ↔ c.nextIs Symbol.lBracket = true := by
  cases h with
  | done hnext => simp [hnext]
  | empty hnext _ _ => simp [hnext]
  | sized hnext _ _ _ _ => simp [hnext]

/-- **What is read as the creation of an array** are pairs of brackets behind the type of the
elements. All pairs are dimensions of the type, and the sizes are kept besides. -/
theorem creation_newArray_iff (hg : ∀ n, Leaves n (n - 1) g.expr) {start : Nat} {c d : Cursor}
    {type : TypeRef} {sizes : List Expr} {items : Option (List Expr)} :
    (∃ range, creation g start c = .ok (⟨.newArray type sizes items, range⟩, d)) ↔
      ∃ element pairs, NewArrayAt g c element pairs items d ∧
        type = { element with dims := pairs.length } ∧ sizes = pairs.filterMap id := by
  unfold creation
  constructor
  · rintro ⟨range, h⟩
    obtain ⟨element, afterType, htype, h⟩ := of_bind_eq_ok h
    rw [nextIs_bind_eq] at h
    cases hopened : afterType.nextIs Symbol.lBracket with
    | false =>
      rw [hopened, if_neg Bool.false_ne_true] at h
      obtain ⟨args, afterArgs, -, h⟩ := of_bind_eq_ok h
      rw [nextIs_bind_eq] at h
      split at h
      all_goals
        obtain ⟨_, _, -, h⟩ := of_bind_eq_ok h
        cases h
    | true =>
      rw [hopened, if_pos rfl] at h
      obtain ⟨pairs, afterPairs, hmany, h⟩ := of_bind_eq_ok h
      have hpairs : BracketPairs g afterType pairs afterPairs :=
        (many_bracketPair?_eq_ok_iff hg).1 hmany
      have hne := (bracketPairs_ne_nil_iff hpairs).2 hopened
      rw [nextIs_bind_eq] at h
      cases hitems : afterPairs.nextIs Symbol.lBrace with
      | false =>
        rw [hitems, if_neg Bool.false_ne_true] at h
        cases h
        exact ⟨element, pairs, ⟨⟨afterType, _, htype, hpairs, hitems, rfl⟩, hne⟩, rfl, rfl⟩
      | true =>
        rw [hitems, if_pos rfl, map_eq_pure_bind, bind_assoc] at h
        obtain ⟨found, after, hfound, h⟩ := of_bind_eq_ok h
        cases h
        exact ⟨element, pairs, ⟨⟨afterType, afterPairs, htype, hpairs, hitems, hfound⟩, hne⟩,
          rfl, rfl⟩
  · rintro ⟨element, pairs, ⟨⟨afterType, afterPairs, htype, hpairs, hitems⟩, hne⟩, rfl, rfl⟩
    have hmany := (many_bracketPair?_eq_ok_iff hg).2 hpairs
    rw [bind_of_ok htype, nextIs_bind_eq, (bracketPairs_ne_nil_iff hpairs).1 hne, if_pos rfl]
    change ∃ range, (many (bracketPair? g) >>= _) afterType = _
    rw [bind_of_ok hmany, nextIs_bind_eq]
    cases items with
    | none =>
      obtain ⟨hnext, rfl⟩ := hitems
      rw [hnext, if_neg Bool.false_ne_true]
      exact ⟨_, rfl⟩
    | some items =>
      obtain ⟨hnext, hread⟩ := hitems
      rw [hnext, if_pos rfl, map_eq_pure_bind, bind_assoc, bind_of_ok hread]
      exact ⟨_, rfl⟩

/-- A type that is read from this cursor has no brackets. -/
def IsBareAt (c : Cursor) (p : Parser TypeRef) : Prop :=
  ∀ {d : Cursor} {type : TypeRef}, p c = .ok (type, d) → type.dims = 0

/-- The type of the elements has no brackets of its own. -/
theorem dims_of_elementType {c d : Cursor} {element : TypeRef}
    (h : elementType c = .ok (element, d)) : element.dims = 0 := by
  obtain ⟨start, mid, -, h⟩ := of_bind_eq_ok h
  rw [get_bind_eq] at h
  refine (show IsBareAt mid _ from ?_) h
  split
  · intro _ _ hprimitive
    cases hprimitive
    rfl
  · intro _ _ hnamed
    obtain ⟨first, _, -, hnamed⟩ := of_bind_eq_ok hnamed
    obtain ⟨_, _, -, hnamed⟩ := of_bind_eq_ok hnamed
    obtain ⟨others, _, -, hnamed⟩ := of_bind_eq_ok hnamed
    cases hnamed
    rfl

theorem primary_of_new {c : Cursor} (h : c.nextIs Keyword.newKw = true) :
    primary g c = creation g c.offset c.advance := by
  obtain ⟨tokens, lastEnd, textEnd⟩ := c
  obtain ⟨text, range, rest, rfl⟩ := Cursor.exists_cons_of_kind? (eq_of_beq h)
  rfl

open Grammar (unbounded)

/-- **The creation of an array** is read, and it has more dimensions than it has pairs of brackets:
one more for each size, one more at least. So it has not the type that is written with these
brackets, and indexing it once for each of them does not come down to the type of its elements. -/
theorem typeOf_newArrayAt {c d : Cursor} {element : TypeRef} {pairs : List (Option Expr)}
    {items : Option (List Expr)} (hnew : c.nextIs Keyword.newKw = true)
    (h : NewArrayAt unbounded c.advance element pairs items d) :
    ∃ e, primary unbounded c = .ok (e, d) ∧
      ∀ (s : BoundWorkspace) (scope : NameScope) (locals : Locals),
        let written := s.staticTypeOfRef scope (element.addDims pairs.length)
        let surplus := max (pairs.filterMap id).length 1
        s.typeOf scope locals e = written.arrayOf surplus ∧
        s.typeOf scope locals e ≠ written ∧
        ∀ (indices : List (Expr × TextRange)) (outer : TextRange),
          indices.length = pairs.length →
            s.typeOf scope locals (Expr.indexed ⟨.paren e, outer⟩ indices) =
              (s.staticTypeOfRef scope element).arrayOf surplus := by
  have hg : ∀ n, Leaves n (n - 1) unbounded.expr := fun n =>
    ((Grammar.agreesUpTo_unbounded n).expr (Nat.le_refl n)).right
  obtain ⟨_, _, htype, -⟩ := h.reads
  have hdims : ({ element with dims := pairs.length } : TypeRef) = element.addDims pairs.length := by
    rw [TypeRef.addDims, dims_of_elementType htype, Nat.zero_add]
  obtain ⟨range, hread⟩ : ∃ range, creation unbounded c.offset c.advance = .ok
      (⟨.newArray (element.addDims pairs.length) (pairs.filterMap id) items, range⟩, d) :=
    (creation_newArray_iff hg).2 ⟨element, pairs, h, hdims.symm, rfl⟩
  refine ⟨_, (primary_of_new hnew).trans hread, fun s scope locals => ?_⟩
  intro written surplus
  have hcreated := s.typeOf_newArray scope locals (element.addDims pairs.length)
    (pairs.filterMap id) items range
  refine ⟨hcreated, ?_, fun indices outer hlength => s.typeOf_indexed scope locals indices ?_⟩
  · rw [hcreated]
    exact StaticType.arrayOf_ne_self (by omega) _
  · have hparen : ∀ e : Expr, s.typeOf scope locals ⟨.paren e, outer⟩ = s.typeOf scope locals e := by
      intro e
      rw [BoundWorkspace.typeOf, BoundWorkspace.meaning, BoundWorkspace.meaningOfKind,
        ← BoundWorkspace.typeOf]
    rw [hparen, hcreated, s.staticTypeOfRef_addDims, StaticType.arrayOf_arrayOf, hlength,
      Nat.add_comm]

/-- The tokens of `new int[3]`. -/
def sizedCreation : List Token :=
  [tokenAt Keyword.newKw "new" 0, tokenAt (.primitive .int) "int" 4, tokenAt Symbol.lBracket "[" 7,
    tokenAt .number "3" 8, tokenAt Symbol.rBracket "]" 9]

/-- It has two dimensions, and what it holds is an array. -/
theorem typeOf_sizedCreation :
    tokenize "new int[3]" = .ok sizedCreation ∧
    ∃ e d, primary unbounded ⟨sizedCreation, 0, 10⟩ = .ok (e, d) ∧
      ∀ (s : BoundWorkspace) (scope : NameScope) (locals : Locals),
        s.typeOf scope locals e = .array (.array (.primitive "int")) ∧
        ∀ index range outer, s.typeOf scope locals ⟨.arrayAccess ⟨.paren e, outer⟩ index, range⟩ =
          .array (.primitive "int") := by
  refine ⟨by decide +kernel, ?_⟩
  have hat : NewArrayAt unbounded (Cursor.advance ⟨sizedCreation, 0, 10⟩)
      ⟨["int"], 0, .upTo 4 7⟩ [some ⟨.literal .int, .upTo 8 9⟩] none ⟨[], 10, 10⟩ :=
    ⟨⟨_, _, rfl, .sized rfl rfl rfl rfl (.done rfl), rfl, rfl⟩, List.cons_ne_nil _ _⟩
  obtain ⟨e, hread, htypes⟩ := typeOf_newArrayAt rfl hat
  refine ⟨e, _, hread, fun s scope locals => ?_⟩
  obtain ⟨htype, -, hindexed⟩ := htypes s scope locals
  exact ⟨htype, fun index range outer => hindexed [(index, range)] outer rfl⟩

end Parser

end SourceSearch
