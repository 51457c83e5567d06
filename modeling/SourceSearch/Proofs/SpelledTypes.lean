import SourceSearch.Proofs.ParsingEnds

/-!
# Types as they are spelled

What a reader of written types does depends on the kinds and the texts of the tokens, and only the
ranges that it answers on where they stand. `Parser.ReadsSpelled` says what a reader does with
tokens that are spelled in some way, when others follow, and there is one rule for each reader. A
parameter is read with the last name of its type, whether or not type arguments stand behind it, and
with one array dimension for each pair of brackets and one for its three points
(`Parser.readsSpelled_param`).
-/

set_option autoImplicit false

namespace SourceSearch

/-- The kind of a token and its text. -/
def Token.spelling (t : Token) : TokenKind × String := (t.kind, t.text)

/-- The spelling of a symbol. -/
def Symbol.token (s : Symbol) : TokenKind × String := (s, s.spelling)

/-- The angle brackets that are open are closed by the last of these tokens, and not before. -/
def closesAngles : (depth : Nat) → List (TokenKind × String) → Bool
  | 0, tokens => tokens.isEmpty
  | _ + 1, [] => false
  | depth + 1, (kind, _) :: tokens =>
    if kind = Symbol.lt then closesAngles (depth + 2) tokens
    else if kind = Symbol.gt then closesAngles depth tokens
    else closesAngles (depth + 1) tokens

/-- Tokens of type arguments: an angle bracket and what follows it up to that which closes it. -/
structure SpellsTypeArguments (tokens : List (TokenKind × String)) : Prop where
  opens_and_closes : ∃ inner, tokens = Symbol.lt.token :: inner ∧ closesAngles 1 inner = true

namespace Parser

variable {α β : Type} {read read' after : List (TokenKind × String)} {p : Parser α} {c : Cursor}

/-- Wherever tokens are spelled like this and others like that follow, the reader goes past the
former and gives such an answer. -/
structure ReadsSpelled (read after : List (TokenKind × String)) (p : Parser α)
    (answer : α → Prop) : Prop where
  exists_run : ∀ {c : Cursor}, c.rest.map (·.spelling) = read ++ after →
    ∃ a next, p c = .ok (a, next) ∧ next.rest.map (·.spelling) = after ∧ answer a

/-! ## Rules -/

theorem kind?_of_spelled (h : c.rest.map (·.spelling) = read) :
    c.kind? = read.head?.map Prod.fst := by
  rw [← h, List.head?_map, Option.map_map]
  rfl

theorem kindAt_of_spelled (h : c.rest.map (·.spelling) = read) (n : Nat) :
    c.kindAt n = read[n]?.map Prod.fst := by
  rw [← h, List.getElem?_map, Option.map_map]
  rfl

theorem nextIs_of_spelled (h : c.rest.map (·.spelling) = read) (kind : TokenKind) :
    c.nextIs kind = (read.head?.map Prod.fst == some kind) := by
  rw [Cursor.nextIs, kind?_of_spelled h]

namespace ReadsSpelled

variable {A : α → Prop} {B : β → Prop} {f : α → Parser β}

theorem pure {a : α} (ha : A a) : ReadsSpelled [] after (Pure.pure a) A :=
  ⟨fun {c} hc => ⟨a, c, rfl, hc, ha⟩⟩

/-- **A reader goes on** with what is spelled behind. -/
theorem bind (h : ReadsSpelled read (read' ++ after) p A)
    (hf : ∀ a, A a → ReadsSpelled read' after (f a) B) :
    ReadsSpelled (read ++ read') after (p >>= f) B := by
  refine ⟨fun hc => ?_⟩
  rw [List.append_assoc] at hc
  obtain ⟨a, mid, hok, hmid, ha⟩ := h.exists_run hc
  obtain ⟨b, next, hok', hnext, hb⟩ := (hf a ha).exists_run hmid
  exact ⟨b, next, (bind_of_ok hok f).trans hok', hnext, hb⟩

/-- A reader that looks at something first. -/
theorem look (h : ReadsSpelled [] (read ++ after) p A)
    (hf : ∀ a, A a → ReadsSpelled read after (f a) B) : ReadsSpelled read after (p >>= f) B :=
  bind h hf

/-- A reader behind which nothing more is read. -/
theorem finish (h : ReadsSpelled read after p A)
    (hf : ∀ a, A a → ReadsSpelled [] after (f a) B) : ReadsSpelled read after (p >>= f) B :=
  List.append_nil read ▸ bind h hf

theorem mono {A' : α → Prop} (h : ReadsSpelled read after p A) (hA : ∀ a, A a → A' a) :
    ReadsSpelled read after p A' := by
  refine ⟨fun hc => ?_⟩
  obtain ⟨a, next, hok, hnext, ha⟩ := h.exists_run hc
  exact ⟨a, next, hok, hnext, hA a ha⟩

/-- A loop that ends at once. -/
theorem many_nil {p : Parser (Option α)} (h : ReadsSpelled [] after p (· = none)) :
    ReadsSpelled [] after (many p) (· = []) := by
  refine ⟨fun hc => ?_⟩
  obtain ⟨o, next, hok, hnext, rfl⟩ := h.exists_run hc
  exact ⟨[], next, many_of_none hok, hnext, rfl⟩

/-- A round of a loop and the loop from there. -/
theorem many_cons {p : Parser (Option α)} (hp : Advances p) {a : α} {as : List α}
    (h : ReadsSpelled read (read' ++ after) p (· = some a))
    (hrest : ReadsSpelled read' after (many p) (· = as)) :
    ReadsSpelled (read ++ read') after (many p) (· = a :: as) := by
  refine ⟨fun hc => ?_⟩
  rw [List.append_assoc] at hc
  obtain ⟨o, mid, hok, hmid, rfl⟩ := h.exists_run hc
  obtain ⟨_, next, hok', hnext, rfl⟩ := hrest.exists_run hmid
  exact ⟨_, next, hp.many_eq_cons_iff.2 ⟨mid, hok, hok'⟩, hnext, rfl⟩

end ReadsSpelled

/-! ## Tokens -/

theorem exists_cons_of_spelled {kind : TokenKind} {text : String}
    (h : c.rest.map (·.spelling) = (kind, text) :: after) :
    ∃ range rest, c.rest = ⟨kind, text, range⟩ :: rest ∧ rest.map (·.spelling) = after := by
  obtain ⟨t, rest, hrest, ht, hafter⟩ := List.map_eq_cons_iff.1 h
  obtain ⟨kind', text', range⟩ := t
  cases ht
  exact ⟨range, rest, hrest, hafter⟩

theorem spelled_advance {kind : TokenKind} {text : String}
    (h : c.rest.map (·.spelling) = (kind, text) :: after) :
    c.advance.rest.map (·.spelling) = after := by
  obtain ⟨range, rest, hrest, hafter⟩ := exists_cons_of_spelled h
  rw [Cursor.advance_of_rest hrest]
  exact hafter

theorem readsSpelled_expect (kind : TokenKind) (text : String) :
    ReadsSpelled [(kind, text)] after (expect kind) fun t => t.text = text := by
  refine ⟨fun {c} hc => ?_⟩
  obtain ⟨range, rest, hrest, hafter⟩ := exists_cons_of_spelled hc
  obtain ⟨tokens, lastEnd, textEnd⟩ := c
  cases hrest
  exact ⟨_, _, expect_of_kind rfl, hafter, rfl⟩

theorem readsSpelled_ident (name : String) :
    ReadsSpelled [(.ident, name)] after ident (·.text = name) := by
  exact (readsSpelled_expect .ident name).bind fun t ht => .pure ht

theorem readsSpelled_nextIs (kind : TokenKind) :
    ReadsSpelled [] after (nextIs kind) (· = (after.head?.map Prod.fst == some kind)) :=
  ⟨fun {c} hc => ⟨_, c, rfl, hc, nextIs_of_spelled hc kind⟩⟩

theorem readsSpelled_nextAre (first second : TokenKind) :
    ReadsSpelled [] after (nextAre first second)
      (· = (after.head?.map Prod.fst == some first && after[1]?.map Prod.fst == some second)) :=
  ⟨fun {c} hc => ⟨_, c, rfl, hc, by rw [nextIs_of_spelled hc, kindAt_of_spelled hc]; rfl⟩⟩

theorem readsSpelled_offset : ReadsSpelled [] after offset fun _ => True :=
  ⟨fun {c} hc => ⟨_, c, rfl, hc, trivial⟩⟩

theorem readsSpelled_rangeFrom (start : Nat) :
    ReadsSpelled [] after (rangeFrom start) fun _ => True :=
  ⟨fun {c} hc => ⟨_, c, rfl, hc, trivial⟩⟩

theorem readsSpelled_skip (read : List (TokenKind × String)) :
    ReadsSpelled read after (skip read.length) fun _ => True := by
  refine ⟨fun {c} hc => ?_⟩
  refine ⟨(), c.skip read.length, rfl, ?_, trivial⟩
  rw [Cursor.rest_skip, List.map_drop, hc, List.drop_left]

/-- A token that comes next is eaten. -/
theorem readsSpelled_eat (kind : TokenKind) (text : String) :
    ReadsSpelled [(kind, text)] after (eat kind) (· = true) := by
  refine ⟨fun {c} hc => ?_⟩
  have hnext : c.nextIs kind = true := by rw [nextIs_of_spelled hc]; simp
  exact ⟨true, c.advance, by rw [eat_eq, hnext]; rfl, spelled_advance hc, rfl⟩

/-- No other token is eaten. -/
theorem readsSpelled_eat_of_not {kind : TokenKind} (h : after.head?.map Prod.fst ≠ some kind) :
    ReadsSpelled [] after (eat kind) (· = false) := by
  refine ⟨fun {c} hc => ?_⟩
  have hnext : c.nextIs kind = false := by
    rw [nextIs_of_spelled hc]
    exact beq_eq_false_iff_ne.2 h
  exact ⟨false, c, by rw [eat_eq, hnext]; rfl, hc, rfl⟩

/-! ## Type arguments -/

/-- The kind of the first of the tokens that follow. -/
def headKind (after : List (TokenKind × String)) : Option TokenKind := after.head?.map Prod.fst

/-- The angle bracket that closes the one that is open is the last of its tokens. -/
theorem exists_afterClosing_eq {depth : Nat} (hread : closesAngles (depth + 1) read = true)
    {tokens : List Token} (htokens : tokens.map (·.spelling) = read ++ after) :
    ∃ stop rest, afterClosing Symbol.lt Symbol.gt (depth + 1) tokens = some (stop, rest) ∧
      rest.map (·.spelling) = after := by
  induction read generalizing depth tokens with
  | nil => cases hread
  | cons first read ih =>
    obtain ⟨t, rest, rfl, ht, hrest⟩ := List.map_eq_cons_iff.1 htokens
    obtain ⟨kind, text⟩ := first
    obtain rfl : t.kind = kind := congrArg Prod.fst ht
    rw [closesAngles] at hread
    rw [afterClosing]
    split at hread
    next hopens =>
      rw [if_pos hopens]
      exact ih hread hrest
    next hopens =>
      rw [if_neg hopens]
      split at hread
      next hcloses =>
        rw [if_pos hcloses]
        cases depth with
        | zero =>
          obtain rfl : read = [] := by simpa [closesAngles] using hread
          exact ⟨_, rest, if_pos (Nat.le_refl 1), hrest⟩
        | succ depth =>
          rw [if_neg (by omega)]
          exact ih hread hrest
      next hcloses =>
        rw [if_neg hcloses]
        exact ih hread hrest

/-- **Type arguments are gone past.** -/
theorem readsSpelled_typeArguments (h : SpellsTypeArguments read) :
    ReadsSpelled read after typeArguments fun _ => True := by
  obtain ⟨inner, rfl, hinner⟩ := h.opens_and_closes
  refine ⟨fun {c} hc => ?_⟩
  have hnext : c.nextIs Symbol.lt = true := by
    rw [nextIs_of_spelled hc]
    rfl
  obtain ⟨t, hexpect⟩ := exists_expect_eq_ok hnext
  obtain ⟨stop, rest, hclosing, hrest⟩ := exists_afterClosing_eq hinner (spelled_advance hc)
  refine ⟨(), { c.advance with rest := rest, lastEnd := stop }, ?_, hrest, trivial⟩
  rw [typeArguments, nextIs_bind_eq, hnext, if_pos rfl, skipBalanced, bind_of_ok hexpect,
    get_bind_eq, hclosing]
  rfl

/-- Where there are none nothing is read. -/
theorem readsSpelled_typeArguments_of_not (h : headKind after ≠ some Symbol.lt) :
    ReadsSpelled [] after typeArguments fun _ => True := by
  refine (readsSpelled_nextIs _).look fun next hnext => ?_
  rw [hnext, if_neg (by simpa [headKind] using h)]
  exact .pure trivial

/-! ## Types -/

/-- Names with a point before each. -/
def dottedTokens (names : List String) : List (TokenKind × String) :=
  names.flatMap fun name => [Symbol.dot.token, (.ident, name)]

/-- Pairs of empty brackets. -/
def bracketTokens (dims : Nat) : List (TokenKind × String) :=
  (List.replicate dims [Symbol.lBracket.token, Symbol.rBracket.token]).flatten

theorem readsSpelled_dottedName? (name : String) :
    ReadsSpelled (dottedTokens [name]) after dottedName? (· = some name) := by
  refine (readsSpelled_nextAre _ _).look fun next hnext => ?_
  rw [hnext, if_pos (by rfl)]
  show ReadsSpelled ([Symbol.dot.token] ++ [(.ident, name)]) after _ _
  refine .bind (readsSpelled_skip [Symbol.dot.token]) fun _ _ => ?_
  exact .bind (readsSpelled_ident name) fun i hi => .pure (congrArg some hi)

theorem readsSpelled_dottedName?_of_not (h : headKind after ≠ some Symbol.dot) :
    ReadsSpelled [] after dottedName? (· = none) := by
  refine (readsSpelled_nextAre _ _).look fun next hnext => ?_
  rw [hnext, if_neg (by simp [headKind] at h; simp [h])]
  exact .pure rfl

theorem typeSegment?_bind (f : Option String → Parser β) : typeSegment? >>= f = (do
    match ← dottedName? with
    | none => f none
    | some name =>
      typeArguments
      f (some name)) := by
  unfold typeSegment?
  rw [bind_assoc]
  refine bind_congr fun o => ?_
  cases o with
  | none => rfl
  | some name => simp only [bind_assoc, pure_bind]

/-- Type arguments and the names behind them, which may have type arguments too. -/
def segmentsBehind : Parser (List String) := do
  typeArguments
  many typeSegment?

/-- A loop over names is a point, a name and what stands behind it. -/
theorem many_typeSegment?_eq : many typeSegment? = (do
    match ← dottedName? with
    | none => return []
    | some name => return name :: (← segmentsBehind)) := by
  refine advances_typeSegment?.many_eq.trans ?_
  rw [typeSegment?_bind]
  refine bind_congr fun o => ?_
  cases o with
  | none => rfl
  | some name => simp only [segmentsBehind, bind_assoc]

/-- Type arguments, or none where no angle bracket follows. -/
structure ArgumentsBefore (args after : List (TokenKind × String)) : Prop where
  spelled : args = [] ∧ headKind after ≠ some Symbol.lt ∨ SpellsTypeArguments args

theorem ArgumentsBefore.reads {args : List (TokenKind × String)} (h : ArgumentsBefore args after) :
    ReadsSpelled args after typeArguments fun _ => True := by
  rcases h.spelled with ⟨rfl, hnot⟩ | hargs
  · exact readsSpelled_typeArguments_of_not hnot
  · exact readsSpelled_typeArguments hargs

/-- **The names of a type** are read, with type arguments behind the last one. -/
theorem readsSpelled_segmentsBehind {args : List (TokenKind × String)} (names : List String)
    (hargs : ArgumentsBefore args after) (hdot : headKind after ≠ some Symbol.dot) :
    ReadsSpelled (dottedTokens names ++ args) after segmentsBehind (· = names) := by
  induction names with
  | nil =>
    refine hargs.reads.finish fun _ _ => .many_nil ?_
    rw [← bind_pure typeSegment?, typeSegment?_bind]
    refine (readsSpelled_dottedName?_of_not hdot).finish fun o ho => ?_
    rw [ho]
    exact .pure rfl
  | cons name names ih =>
    have hsplit : dottedTokens (name :: names) ++ args =
        dottedTokens [name] ++ (dottedTokens names ++ args) := by
      simp [dottedTokens]
    rw [hsplit]
    refine (readsSpelled_typeArguments_of_not ?_).look fun _ _ => ?_
    · simp [dottedTokens, headKind, Symbol.token]
    · rw [many_typeSegment?_eq]
      refine .bind (readsSpelled_dottedName? name) fun o ho => ?_
      rw [ho]
      exact ih.finish fun as has => .pure (congrArg (name :: ·) has)

/-- **Pairs of brackets are counted.** -/
theorem readsSpelled_dims (dims : Nat) (h : headKind after ≠ some Symbol.lBracket) :
    ReadsSpelled (bracketTokens dims) after Parser.dims (· = dims) := by
  have hpairs : ReadsSpelled (bracketTokens dims) after (many emptyPair?)
      (· = List.replicate dims ()) := by
    induction dims with
    | zero =>
      refine .many_nil ((readsSpelled_nextAre _ _).look fun next hnext => ?_)
      rw [hnext, if_neg (by simp [headKind] at h; simp [h])]
      exact .pure rfl
    | succ dims ih =>
      refine .many_cons advances_emptyPair? ?_ ih
      refine (readsSpelled_nextAre _ _).look fun next hnext => ?_
      rw [hnext, if_pos (by rfl)]
      exact (readsSpelled_skip [Symbol.lBracket.token, Symbol.rBracket.token]).finish
        fun _ _ => .pure rfl
  rw [dims_eq]
  refine hpairs.finish fun pairs hlength => .pure ?_
  rw [hlength, List.length_replicate]

/-- A type that starts with a name is read name by name. -/
theorem elementType_of_ident (h : c.nextIs .ident = true) : elementType c = (do
    let start ← offset
    let first ← ident
    let others ← segmentsBehind
    return (⟨first.text :: others, 0, ← rangeFrom start⟩ : TypeRef)) c := by
  obtain ⟨tokens, lastEnd, textEnd⟩ := c
  obtain ⟨text, range, rest, rfl⟩ := Cursor.exists_cons_of_kind? (eq_of_beq h)
  rw [elementType_eq]
  simp only [segmentsBehind, bind_assoc]
  rfl

theorem headKind_bracketTokens_append (dims : Nat) (after : List (TokenKind × String)) :
    headKind (bracketTokens dims ++ after) = headKind after ∨
      headKind (bracketTokens dims ++ after) = some Symbol.lBracket := by
  cases dims with
  | zero => exact .inl rfl
  | succ dims => exact .inr rfl

/-- **A type is read** with its names and one array dimension for each pair of brackets. -/
theorem readsSpelled_typeRef {args : List (TokenKind × String)} (first : String)
    (others : List String) (dims : Nat) (hargs : ArgumentsBefore args (bracketTokens dims ++ after))
    (hdot : headKind after ≠ some Symbol.dot) (hbracket : headKind after ≠ some Symbol.lBracket) :
    ReadsSpelled ((.ident, first) :: (dottedTokens others ++ args) ++ bracketTokens dims) after
      typeRef fun type => type.segments = first :: others ∧ type.dims = dims := by
  have hdot' : headKind (bracketTokens dims ++ after) ≠ some Symbol.dot := by
    rcases headKind_bracketTokens_append dims after with heq | heq <;> rw [heq]
    · exact hdot
    · nofun
  have helement : ReadsSpelled ((.ident, first) :: (dottedTokens others ++ args))
      (bracketTokens dims ++ after) elementType fun type => type.segments = first :: others := by
    refine ⟨fun {c} hc => ?_⟩
    have hnext : c.nextIs .ident = true := by
      rw [nextIs_of_spelled hc]
      rfl
    rw [elementType_of_ident hnext]
    refine ReadsSpelled.exists_run ?_ hc
    refine readsSpelled_offset.look fun start _ => ?_
    refine .bind (readsSpelled_ident first) fun i hi => ?_
    refine (readsSpelled_segmentsBehind others hargs hdot').finish fun segments hsegments => ?_
    refine (readsSpelled_rangeFrom start).finish fun range _ => .pure ?_
    rw [hi, hsegments]
  exact helement.bind fun element hsegments =>
    (readsSpelled_dims dims hbracket).finish fun count hcount => .pure ⟨hsegments, hcount⟩

/-! ## Parameters -/

/-- A name is no modifier. -/
theorem readsSpelled_modifiers (h : headKind after = some .ident) :
    ReadsSpelled [] after modifiers (· = {}) := by
  refine ⟨fun {c} hc => ⟨{}, c, ?_, hc, rfl⟩⟩
  have hkind : c.kind? = some .ident := (kind?_of_spelled hc).trans h
  have hnone : modifier? {} c = .ok (none, c) := by
    rw [modifier?, get_bind_eq, hkind]
    rfl
  show growUpTo modifier? (c.rest.length + 1) {} c = _
  rw [growUpTo, bind_of_ok hnone]
  rfl

/-- Three points, or none. -/
def pointTokens (isVarargs : Bool) : List (TokenKind × String) :=
  if isVarargs then [Symbol.ellipsis.token] else []

/-- The tokens of a parameter: the names of its type with type arguments behind the last one, or
none, pairs of brackets, three points where it takes any number of arguments, and its name. -/
def paramTokens (first : String) (others : List String) (args : List (TokenKind × String))
    (dims : Nat) (isVarargs : Bool) (name : String) : List (TokenKind × String) :=
  (.ident, first) :: (dottedTokens others ++ args) ++ bracketTokens dims ++
    (pointTokens isVarargs ++ [(.ident, name)])

/-- **A parameter is read** with the names of its type, with an array dimension for each pair of
brackets, and with one more for its three points. -/
theorem readsSpelled_param {args : List (TokenKind × String)} (first : String)
    (others : List String) (dims : Nat) (isVarargs : Bool) (name : String)
    (hargs : args = [] ∨ SpellsTypeArguments args) :
    ReadsSpelled (paramTokens first others args dims isVarargs name) [] param fun p =>
      p.type.segments = first :: others ∧ p.type.dims = dims + isVarargs.toNat ∧
        p.name.text = name ∧ p.isVarargs = isVarargs := by
  have hhead : headKind (pointTokens isVarargs ++ [(.ident, name)]) =
      some (if isVarargs then (Symbol.ellipsis : TokenKind) else .ident) := by
    cases isVarargs <;> rfl
  have hnot : ∀ s : Symbol, s ≠ .ellipsis →
      headKind (pointTokens isVarargs ++ [(.ident, name)]) ≠ some (s : TokenKind) := by
    intro s hs heq
    rw [hhead] at heq
    cases isVarargs with
    | false => cases heq
    | true => exact hs (TokenKind.symbol.inj (Option.some.inj heq)).symm
  have hbefore : ArgumentsBefore args
      (bracketTokens dims ++ (pointTokens isVarargs ++ [(.ident, name)] ++ [])) := by
    refine ⟨hargs.imp_left fun hnil => ⟨hnil, ?_⟩⟩
    rw [List.append_nil]
    rcases headKind_bracketTokens_append dims _ with heq | heq <;> rw [heq]
    · exact hnot .lt nofun
    · nofun
  have hpoints : ReadsSpelled (pointTokens isVarargs) [(.ident, name)] (eat Symbol.ellipsis)
      (· = isVarargs) := by
    cases isVarargs with
    | false => exact readsSpelled_eat_of_not nofun
    | true => exact readsSpelled_eat _ _
  refine (readsSpelled_modifiers rfl).look fun _ _ => ?_
  refine .bind (readsSpelled_typeRef first others dims hbefore ?_ ?_) fun type htype => ?_
  · rw [List.append_nil]
    exact hnot .dot nofun
  · rw [List.append_nil]
    exact hnot .lBracket nofun
  refine .bind hpoints fun points hpoints => (readsSpelled_ident name).finish fun i hi => ?_
  refine (readsSpelled_dims 0 (by rintro ⟨⟩)).finish fun extra hextra => ?_
  refine .pure ⟨htype.1, ?_, hi, hpoints⟩
  rw [hextra, hpoints, TypeRef.addDims, htype.2]
  cases isVarargs <;> rfl

end Parser

end SourceSearch
