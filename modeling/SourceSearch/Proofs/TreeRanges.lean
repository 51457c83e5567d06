import Mathlib.Data.List.Basic
import SourceSearch.Proofs.NodeRanges
import SourceSearch.Proofs.Readers
import SourceSearch.Proofs.TreeParts
import SourceSearch.Proofs.TreeWords

/-!
# The ranges of a tree

What a reader reads last lies behind what it has read before. `ReadIn text lo hi nodes` says of the
nodes that a walk meets that they were read from the text, between two offsets, and that each of
them is in order: a type has its name and its supertypes before its body, and nothing else lies
where a type nested in it does (`TypeDecl.LaidOut`). The parts of a node go from token to token and
have all that they hold in their ranges (`Part.FitsIn`), since a reader takes the range of a part
from where it started to the end of the last token. `LaidIn` adds that the nodes are apart from
each other, which follows for nodes that were read one behind the other (`LaidIn.append`).

`MembersIn` is the form that this takes for lists of members, which readers put together from
several rounds (`MembersIn.append`).
-/

set_option autoImplicit false

namespace SourceSearch

variable {text : String} {lo lo' mid hi hi' : Nat}

/-! ## Where nodes lie -/

/-- The name that a search can report for an expression. -/
def ExprKind.name? : ExprKind → Option Ident
  | .name ident => some ident
  | .fieldAccess _ member => some member
  | .call _ callee _ => some callee
  | _ => none

/-- The ranges of a node that a search can report lie between two offsets, the name of an expression
before its end. Statements and variables have none. -/
def Node.LiesIn (lo hi : Nat) : Node → Prop
  | .type decl => decl.head.range.LiesIn lo hi
  | .method head _ => head.name.range.LiesIn lo hi
  | .field head _ => head.name.range.LiesIn lo hi
  | .expr e => e.range.LiesIn lo hi ∧
      ∀ name, e.kind.name? = some name → name.range.LiesIn lo e.range.stop
  | .typeRef ref => ref.range.LiesIn lo hi
  | _ => True

/-- All nodes lie between two offsets. -/
def LieIn (lo hi : Nat) (nodes : List Node) : Prop := ∀ node ∈ nodes, node.LiesIn lo hi

theorem Node.LiesIn.widen {node : Node} (h : node.LiesIn lo hi) (hlo : lo' ≤ lo) (hhi : hi ≤ hi') :
    node.LiesIn lo' hi' := by
  cases node with
  | type decl => exact TextRange.LiesIn.widen h hlo hhi
  | method head body => exact TextRange.LiesIn.widen h hlo hhi
  | field head init => exact TextRange.LiesIn.widen h hlo hhi
  | expr e =>
    exact ⟨h.1.widen hlo hhi, fun name hname => (h.2 name hname).widen hlo (Nat.le_refl _)⟩
  | typeRef ref => exact TextRange.LiesIn.widen h hlo hhi
  | _ => exact True.intro

/-! ## The layout of a type -/

/-- Whether a member is a type. -/
def Member.IsType : Member → Prop
  | .type _ => True
  | _ => False

/-- Of two members of a type one of which is itself a type, the first ends before the second. -/
def Member.Before (m m' : Member) : Prop :=
  m.IsType ∨ m'.IsType →
    ∃ lo border hi, LieIn lo border (Walk.member m) ∧ LieIn border hi (Walk.member m')

/-- A type has its name and its supertypes before its body, and its members one behind the other;
only fields of one declaration share some of their nodes. -/
structure TypeDecl.LaidOut (decl : TypeDecl) (opening : Nat) : Prop where
  opening_le : opening ≤ decl.head.range.stop
  name : decl.head.name.range.LiesIn decl.head.range.start opening
  supertypes : ∀ ref ∈ decl.head.superclass.toList ++ decl.head.interfaces,
    ref.range.LiesIn decl.head.range.start opening
  supertypesApart : (decl.head.superclass.toList ++ decl.head.interfaces).Pairwise
    fun ref ref' => ref.range ≠ ref'.range
  members : LieIn opening decl.head.range.stop (Walk.members decl.members)
  apart : decl.members.Pairwise Member.Before

/-! ## Parts from token to token -/

/-- A part goes from token to token between two offsets, and what it holds lies in its range. -/
structure Part.FitsIn (text : String) (lo hi : Nat) (part : Part) : Prop where
  lies : part.range.LiesIn lo hi
  onTokens : part.range.OnTokens text
  holds : ∀ node ∈ part.nodes, ∀ range ∈ node.ranges,
    range.LiesIn part.range.start part.range.stop

theorem Part.FitsIn.widen {part : Part} (h : part.FitsIn text lo hi) (hlo : lo' ≤ lo)
    (hhi : hi ≤ hi') : part.FitsIn text lo' hi' :=
  ⟨h.lies.widen hlo hhi, h.onTokens, h.holds⟩

/-- The identifiers of a node are spelled between two offsets, its parts go from token to token
between them, and so do its uses. -/
structure Node.FitsIn (text : String) (lo hi : Nat) (node : Node) : Prop where
  idents : ∀ name ∈ node.idents, name.SpelledIn text lo hi
  parts : ∀ part ∈ node.parts, part.FitsIn text lo hi
  used : ∀ range ∈ node.used, range.OnTokens text

namespace Node.FitsIn

variable {node : Node}

theorem widen (h : node.FitsIn text lo hi) (hlo : lo' ≤ lo) (hhi : hi ≤ hi') :
    node.FitsIn text lo' hi' :=
  ⟨fun name hname => (h.idents name hname).widen hlo hhi,
    fun part hpart => (h.parts part hpart).widen hlo hhi, h.used⟩

/-- A node that is no part and no use. -/
theorem of_idents (hparts : node.parts = []) (hused : node.used = [])
    (h : ∀ name ∈ node.idents, name.SpelledIn text lo hi) : node.FitsIn text lo hi :=
  ⟨h, by simp [hparts], by simp [hused]⟩

theorem ranges (h : node.FitsIn text lo hi) : ∀ range ∈ node.ranges, range.LiesIn lo hi := by
  intro range hrange
  rcases List.mem_append.1 hrange with hrange | hrange
  · obtain ⟨name, hname, rfl⟩ := List.mem_map.1 hrange
    exact (h.idents name hname).lies
  · obtain ⟨part, hpart, rfl⟩ := List.mem_map.1 hrange
    exact (h.parts part hpart).lies

end Node.FitsIn

/-! ## Nodes that were read -/

/-- What is under a type is laid out, and what is under an expression is written in the words. -/
def Node.Ordered (text : String) : Node → Prop
  | .type decl => ∃ opening, decl.LaidOut opening
  | .expr e => SourceSearch.WrittenIn (WordOf text) (Walk.exprKind e.kind)
  | _ => True

/-- A node was read from the text, between two offsets. -/
structure Node.ReadIn (text : String) (lo hi : Nat) (node : Node) : Prop where
  written : node.WrittenIn (WordOf text)
  lies : node.LiesIn lo hi
  ordered : node.Ordered text
  fits : node.FitsIn text lo hi

/-- All nodes were read from the text, between two offsets. -/
def ReadIn (text : String) (lo hi : Nat) (nodes : List Node) : Prop :=
  ∀ node ∈ nodes, node.ReadIn text lo hi

theorem ReadIn.widen {nodes : List Node} (h : ReadIn text lo hi nodes) (hlo : lo' ≤ lo)
    (hhi : hi ≤ hi') : ReadIn text lo' hi' nodes := by
  intro node hnode
  obtain ⟨hwritten, hlies, hordered, hfits⟩ := h node hnode
  exact ⟨hwritten, hlies.widen hlo hhi, hordered, hfits.widen hlo hhi⟩

theorem ReadIn.upTo {nodes : List Node} (h : ReadIn text lo hi nodes) (hhi : hi ≤ hi') :
    ReadIn text lo hi' nodes :=
  h.widen (Nat.le_refl _) hhi

theorem ReadIn.writtenIn {nodes : List Node} (h : ReadIn text lo hi nodes) :
    WrittenIn (WordOf text) nodes :=
  fun node hnode => (h node hnode).written

theorem ReadIn.lieIn {nodes : List Node} (h : ReadIn text lo hi nodes) : LieIn lo hi nodes :=
  fun node hnode => (h node hnode).lies

@[simp] theorem readIn_nil : ReadIn text lo hi [] := by simp [ReadIn]

@[simp] theorem readIn_cons {node : Node} {nodes : List Node} :
    ReadIn text lo hi (node :: nodes) ↔
      node.ReadIn text lo hi ∧ ReadIn text lo hi nodes := by
  simp [ReadIn]

@[simp] theorem readIn_append {nodes others : List Node} :
    ReadIn text lo hi (nodes ++ others) ↔
      ReadIn text lo hi nodes ∧ ReadIn text lo hi others := by
  simp [ReadIn, or_imp, forall_and]

@[simp] theorem readIn_flatMap {α : Type} {as : List α} {nodes : α → List Node} :
    ReadIn text lo hi (as.flatMap nodes) ↔ ∀ a ∈ as, ReadIn text lo hi (nodes a) := by
  simp only [ReadIn, List.mem_flatMap]
  constructor
  · rintro h a ha node hnode
    exact h node ⟨a, ha, hnode⟩
  · rintro h node ⟨a, ha, hnode⟩
    exact h a ha node hnode

/-! ## Nodes without a range -/

theorem readIn_stmt {s : Stmt} (h : ∀ name ∈ s.idents, name.SpelledIn text lo hi) :
    (Node.stmt s).ReadIn text lo hi :=
  ⟨True.intro, True.intro, True.intro, .of_idents rfl rfl h⟩

@[simp] theorem readIn_block {b : Block} : (Node.block b).ReadIn text lo hi :=
  ⟨True.intro, True.intro, True.intro, .of_idents rfl rfl (by simp [Node.idents])⟩

theorem readIn_localVar {v : LocalVar} (h : v.name.SpelledIn text lo hi) :
    (Node.localVar v).ReadIn text lo hi :=
  ⟨True.intro, True.intro, True.intro, .of_idents rfl rfl (by simpa [Node.idents] using h)⟩

@[simp] theorem readIn_initializer {isStatic : Bool} {body : Block} :
    (Node.initializer isStatic body).ReadIn text lo hi :=
  ⟨True.intro, True.intro, True.intro, .of_idents rfl rfl (by simp [Node.idents])⟩

/-! ## Written types -/

/-- A type is made of words of the text and stands between two offsets, where the text may have
other words. -/
structure TypeRef.StandsIn (text : String) (lo hi : Nat) (ref : TypeRef) : Prop where
  written : ref.WrittenIn (WordOf text)
  lies : ref.range.LiesIn lo hi
  onTokens : ref.range.OnTokens text

/-- A type is primitive, or has its words where it stands. -/
def TypeRef.WrittenThere (text : String) (ref : TypeRef) : Prop :=
  ref.WrittenIn (Writes text ref.range.start ref.range.stop)

/-- A type was read from the text, between two offsets. -/
structure TypeRef.ReadIn (text : String) (lo hi : Nat) (ref : TypeRef) : Prop
    extends TypeRef.StandsIn text lo hi ref where
  there : ref.WrittenThere text

/-- A type that has its words where it stands is made of words of the text. -/
theorem TypeRef.ReadIn.of_there {ref : TypeRef} (h : ref.WrittenThere text)
    (hlies : ref.range.LiesIn lo hi) (htokens : ref.range.OnTokens text) :
    ref.ReadIn text lo hi :=
  ⟨⟨h.imp fun _ => Writes.wordOf, hlies, htokens⟩, h⟩

theorem TypeRef.ReadIn.upTo {ref : TypeRef} (h : ref.ReadIn text lo hi) (hhi : hi ≤ hi') :
    ref.ReadIn text lo hi' :=
  .of_there h.there (h.lies.widen (Nat.le_refl _) hhi) h.onTokens

/-- Array brackets behind a type change nothing of what was read. -/
theorem TypeRef.ReadIn.of_eq {ref ref' : TypeRef} (h : ref.ReadIn text lo hi)
    (hrange : ref'.range = ref.range) (hsegments : ref'.segments = ref.segments) :
    ref'.ReadIn text lo hi := by
  refine .of_there ?_ (hrange ▸ h.lies) (hrange ▸ h.onTokens)
  rw [TypeRef.WrittenThere, TypeRef.WrittenIn, hsegments, hrange]
  exact h.there

theorem readIn_typeRef {ref : TypeRef} :
    (Node.typeRef ref).ReadIn text lo hi ↔ ref.StandsIn text lo hi := by
  constructor
  · rintro ⟨hwritten, hlies, -, hfits⟩
    exact ⟨hwritten, hlies, hfits.used ref.range List.mem_cons_self⟩
  · rintro ⟨hwritten, hlies, htokens⟩
    refine ⟨hwritten, hlies, True.intro, by simp [Node.idents], by simp [Node.parts], ?_⟩
    intro range hrange
    rw [List.mem_singleton.1 hrange]
    exact htokens

@[simp] theorem readIn_map_typeRef {refs : List TypeRef} :
    ReadIn text lo hi (refs.map .typeRef) ↔ ∀ ref ∈ refs, ref.StandsIn text lo hi := by
  simp [SourceSearch.ReadIn, readIn_typeRef]

/-! ## Reported ranges -/

/-- What a node uses lies where the node does. -/
theorem Node.LiesIn.used {node : Node} (h : node.LiesIn lo hi) {range : TextRange}
    (hrange : range ∈ node.used) : range.LiesIn lo hi := by
  cases node with
  | typeRef ref =>
    obtain rfl := List.mem_singleton.1 hrange
    exact h
  | expr e =>
    have hname : ∀ {name}, e.kind.name? = some name → name.range.LiesIn lo hi :=
      fun hname => (h.2 _ hname).widen (Nat.le_refl _) h.1.le_stop
    obtain ⟨kind, whole⟩ := e
    cases kind with
    | name ident =>
      obtain rfl := List.mem_singleton.1 hrange
      exact hname rfl
    | fieldAccess target member =>
      rcases List.mem_cons.1 hrange with rfl | hrange
      · exact h.1
      · obtain rfl := List.mem_singleton.1 hrange
        exact hname rfl
    | call target callee args =>
      -- a call is reported from its name to its end
      obtain rfl := List.mem_singleton.1 hrange
      have hcallee := h.2 callee rfl
      have hspans := TextRange.Spans.upTo (Nat.lt_of_lt_of_le hcallee.pos hcallee.le_stop)
      exact hspans.liesIn.widen hcallee.start_le h.1.le_stop
    | new type args body =>
      obtain rfl := List.mem_singleton.1 hrange
      exact h.1
    | constructorCall isSuper args =>
      obtain rfl := List.mem_singleton.1 hrange
      exact h.1
    | methodRef target member =>
      obtain rfl := List.mem_singleton.1 hrange
      exact h.1
    | _ => cases hrange
  | _ => cases hrange

/-- What a node declares lies where the node does. -/
theorem Node.ReadIn.declared {node : Node} (h : node.ReadIn text lo hi) {range : TextRange}
    (hrange : node.declared? = some range) : range.LiesIn lo hi := by
  cases node with
  | type decl =>
    obtain rfl := Option.some.inj hrange
    obtain ⟨opening, hlaid⟩ := h.ordered
    have hdecl : decl.head.range.LiesIn lo hi := h.lies
    exact hlaid.name.widen hdecl.start_le (Nat.le_trans hlaid.opening_le hdecl.le_stop)
  | method head body =>
    obtain rfl := Option.some.inj hrange
    exact h.lies
  | field head init =>
    obtain rfl := Option.some.inj hrange
    exact h.lies
  | _ => cases hrange

/-- A range ends before another one that lies behind it does. -/
theorem TextRange.ne_of_liesIn {range other : TextRange} (h : range.LiesIn lo mid)
    (h' : other.LiesIn mid hi) : range ≠ other := by
  rintro rfl
  exact absurd (Nat.lt_of_le_of_lt h'.start_le h'.pos) (Nat.not_lt.2 h.le_stop)

/-- **Nodes that were read one behind the other** are clear of each other. -/
theorem Node.Clear.of_readIn {a b : Node} (ha : a.ReadIn text lo mid)
    (hb : b.ReadIn text mid hi) : a.Clear b := by
  refine ⟨fun range hrange hrange' => ?_, fun range hrange hrange' => ?_⟩
  · exact TextRange.ne_of_liesIn (ha.declared hrange) (hb.declared hrange') rfl
  · exact TextRange.ne_of_liesIn (ha.lies.used hrange) (hb.lies.used hrange') rfl

/-- A node that declares nothing and uses nothing is clear of all others. -/
theorem Node.Clear.of_none {a b : Node} (hdeclared : a.declared? = none) (hused : a.used = []) :
    a.Clear b := by
  refine ⟨fun range hrange => ?_, fun range hrange => ?_⟩
  · rw [hdeclared] at hrange
    cases hrange
  · rw [hused] at hrange
    cases hrange

/-! ## Nodes that were read apart -/

/-- Nodes were read from the text, between two offsets, and are apart from each other. -/
structure SpacedIn (text : String) (lo hi : Nat) (nodes : List Node) : Prop where
  read : ReadIn text lo hi nodes
  spaced : Spaced nodes

namespace SpacedIn

variable {nodes others : List Node}

theorem widen (h : SpacedIn text lo hi nodes) (hlo : lo' ≤ lo) (hhi : hi ≤ hi') :
    SpacedIn text lo' hi' nodes :=
  ⟨h.read.widen hlo hhi, h.spaced⟩

theorem upTo (h : SpacedIn text lo hi nodes) (hhi : hi ≤ hi') : SpacedIn text lo hi' nodes :=
  h.widen (Nat.le_refl _) hhi

theorem nil : SpacedIn text lo hi [] := ⟨readIn_nil, .nil⟩

theorem cons {node : Node} (hnode : node.ReadIn text lo hi) (h : SpacedIn text lo hi nodes)
    (hclear : ∀ other ∈ nodes, node.Clear other) : SpacedIn text lo hi (node :: nodes) :=
  ⟨readIn_cons.2 ⟨hnode, h.read⟩, h.spaced.cons hclear⟩

/-- **Nodes that were read behind others** are apart from them. -/
theorem append (h : SpacedIn text lo mid nodes) (h' : SpacedIn text (max lo mid) hi others)
    (hle : mid ≤ hi) : SpacedIn text lo hi (nodes ++ others) := by
  refine ⟨readIn_append.2 ⟨h.read.upTo hle, h'.read.widen (Nat.le_max_left _ _) (Nat.le_refl _)⟩,
    h.spaced.append h'.spaced fun node hnode other hother => ?_⟩
  exact .of_readIn ((h.upTo (Nat.le_max_right lo mid)).read node hnode) (h'.read other hother)

/-- Nodes that were read behind others can be listed before them. -/
theorem append_swapped (h : SpacedIn text lo mid nodes) (h' : SpacedIn text (max lo mid) hi others)
    (hle : mid ≤ hi) : SpacedIn text lo hi (others ++ nodes) := by
  refine ⟨readIn_append.2 ⟨h'.read.widen (Nat.le_max_left _ _) (Nat.le_refl _), h.read.upTo hle⟩,
    h'.spaced.append h.spaced fun other hother node hnode => Node.Clear.symm ?_⟩
  exact .of_readIn ((h.upTo (Nat.le_max_right lo mid)).read node hnode) (h'.read other hother)

theorem typeRef {ref : TypeRef} (h : ref.StandsIn text lo hi) :
    SpacedIn text lo hi [.typeRef ref] :=
  cons (readIn_typeRef.2 h) nil (by simp)

end SpacedIn

/-- An enum constant among the nodes has a value of the type, which stands where the name of the
constant does. -/
def TypeRef.IsOfConstant (nodes : List Node) (ref : TypeRef) : Prop :=
  ∃ head args body range, Node.field head (some ⟨.new ref args body, range⟩) ∈ nodes ∧
    head.isEnumConstant = true ∧ ref.range = head.name.range

/-- Among the nodes all types but those of enum constants have their words where they stand. -/
def TypesThere (text : String) (nodes : List Node) : Prop :=
  ∀ ref, Node.typeRef ref ∈ nodes → ref.WrittenThere text ∨ ref.IsOfConstant nodes

namespace TypesThere

variable {nodes others : List Node}

theorem nil : TypesThere text [] := nofun

theorem cons {node : Node} (hnode : ∀ ref, node ≠ .typeRef ref) (h : TypesThere text nodes) :
    TypesThere text (node :: nodes) := by
  intro ref href
  have hmem := (List.mem_cons.1 href).resolve_left fun heq => hnode ref heq.symm
  exact (h ref hmem).imp_right fun ⟨head, args, body, range, hfield, hconstant⟩ =>
    ⟨head, args, body, range, List.mem_cons_of_mem _ hfield, hconstant⟩

theorem cons_typeRef {ref : TypeRef} (href : ref.WrittenThere text) (h : TypesThere text nodes) :
    TypesThere text (.typeRef ref :: nodes) := by
  intro other hother
  rcases List.mem_cons.1 hother with heq | hmem
  · cases heq
    exact Or.inl href
  · exact (h other hmem).imp_right fun ⟨head, args, body, range, hfield, hconstant⟩ =>
      ⟨head, args, body, range, List.mem_cons_of_mem _ hfield, hconstant⟩

/-- Lists whose types have their words there can be put together in any way. -/
theorem flatMap {α : Type} {as : List α} {nodes : α → List Node}
    (h : ∀ a ∈ as, TypesThere text (nodes a)) : TypesThere text (as.flatMap nodes) := by
  intro ref href
  obtain ⟨a, ha, hmem⟩ := List.mem_flatMap.1 href
  exact (h a ha ref hmem).imp_right fun ⟨head, args, body, range, hfield, hconstant⟩ =>
    ⟨head, args, body, range, List.mem_flatMap.2 ⟨a, ha, hfield⟩, hconstant⟩

theorem append (h : TypesThere text nodes) (h' : TypesThere text others) :
    TypesThere text (nodes ++ others) := by
  have hboth : TypesThere text ([nodes, others].flatMap id) := flatMap (by simp [h, h'])
  simpa using hboth

end TypesThere

/-- Nodes were read from the text, between two offsets, and are apart from each other; but for enum
constants, types have their words where they stand. -/
structure LaidIn (text : String) (lo hi : Nat) (nodes : List Node) : Prop
    extends SpacedIn text lo hi nodes where
  there : TypesThere text nodes

namespace LaidIn

variable {nodes others : List Node}

theorem widen (h : LaidIn text lo hi nodes) (hlo : lo' ≤ lo) (hhi : hi ≤ hi') :
    LaidIn text lo' hi' nodes :=
  ⟨h.toSpacedIn.widen hlo hhi, h.there⟩

theorem upTo (h : LaidIn text lo hi nodes) (hhi : hi ≤ hi') : LaidIn text lo hi' nodes :=
  h.widen (Nat.le_refl _) hhi

theorem nil : LaidIn text lo hi [] := ⟨.nil, .nil⟩

/-- What is no type itself can stand before nodes that it is clear of. -/
theorem cons {node : Node} (hnode : node.ReadIn text lo hi) (h : LaidIn text lo hi nodes)
    (hclear : ∀ other ∈ nodes, node.Clear other)
    (hplain : ∀ ref, node ≠ .typeRef ref := by simp) : LaidIn text lo hi (node :: nodes) :=
  ⟨.cons hnode h.toSpacedIn hclear, h.there.cons hplain⟩

/-- **Nodes that were read behind others** are apart from them. -/
theorem append (h : LaidIn text lo mid nodes) (h' : LaidIn text (max lo mid) hi others)
    (hle : mid ≤ hi) : LaidIn text lo hi (nodes ++ others) :=
  ⟨h.toSpacedIn.append h'.toSpacedIn hle, h.there.append h'.there⟩

/-- Nodes that were read behind others can be listed before them. -/
theorem append_swapped (h : LaidIn text lo mid nodes) (h' : LaidIn text (max lo mid) hi others)
    (hle : mid ≤ hi) : LaidIn text lo hi (others ++ nodes) :=
  ⟨h.toSpacedIn.append_swapped h'.toSpacedIn hle, h'.there.append h.there⟩

/-- **Nodes that were read in several rounds**, one behind the other. -/
theorem flatMap {α : Type} {as : List α} {nodes : α → List Node}
    (h : Parser.Rounds (fun lo hi a => LaidIn text lo hi (nodes a)) lo hi as) :
    LaidIn text lo hi (as.flatMap nodes) := by
  induction h with
  | nil => exact nil
  | cons ha hmid _ ih => exact append ha ih hmid

/-- A statement that writes no identifiers itself. -/
theorem stmt {s : Stmt} (h : LaidIn text lo hi nodes) (hidents : s.idents = []) :
    LaidIn text lo hi (.stmt s :: nodes) :=
  cons (readIn_stmt (by simp [hidents])) h fun _ _ => .of_none rfl rfl

/-- A statement writes the names in its handlers. -/
theorem tryStmt {body : Block} {catches : List CatchClause} {cleanup : Option Block}
    (h : LaidIn text lo hi nodes)
    (hnames : ∀ c ∈ catches, c.param.name.SpelledIn text lo hi) :
    LaidIn text lo hi (.stmt (.try body catches cleanup) :: nodes) := by
  refine cons (readIn_stmt fun name hname => ?_) h fun _ _ => .of_none rfl rfl
  obtain ⟨c, hc, rfl⟩ := List.mem_map.1 hname
  exact hnames c hc

theorem block {b : Block} (h : LaidIn text lo hi nodes) :
    LaidIn text lo hi (.block b :: nodes) :=
  cons readIn_block h fun _ _ => .of_none rfl rfl

theorem localVar {v : LocalVar} (hname : v.name.SpelledIn text lo hi)
    (h : LaidIn text lo hi nodes) : LaidIn text lo hi (.localVar v :: nodes) :=
  cons (readIn_localVar hname) h fun _ _ => .of_none rfl rfl

theorem initializer {isStatic : Bool} {b : Block} (h : LaidIn text lo hi nodes) :
    LaidIn text lo hi (.initializer isStatic b :: nodes) :=
  cons readIn_initializer h fun _ _ => .of_none rfl rfl

theorem typeRef {ref : TypeRef} (h : ref.ReadIn text lo hi) :
    LaidIn text lo hi [.typeRef ref] :=
  ⟨.typeRef h.toStandsIn, .cons_typeRef h.there .nil⟩

/-- **Types that are written one behind the other**. -/
theorem map_typeRef {refs : List TypeRef} (h : Parser.Rounds (TypeRef.ReadIn text) lo hi refs) :
    LaidIn text lo hi (refs.map .typeRef) := by
  rw [List.map_eq_flatMap]
  exact flatMap (h.imp typeRef)

/-- **Variables and fields of one declaration** were read behind their type, one behind the other.
-/
theorem declaredTogether {α : Type} {ds : List α} {declarator : α → Node} {type : α → TypeRef}
    {value : α → List Node} {written : TypeRef} (hwritten : written.ReadIn text lo mid)
    (htyped : ∀ d ∈ ds, (declarator d).typed? = some (type d))
    (hrange : ∀ d ∈ ds, (type d).range = written.range)
    (hsegments : ∀ d ∈ ds, (type d).segments = written.segments)
    (h : LaidIn text (max lo mid) hi (ds.flatMap fun d => declarator d :: value d))
    (hle : mid ≤ hi) :
    LaidIn text lo hi (ds.flatMap fun d => declarator d :: .typeRef (type d) :: value d) := by
  have htypes : ∀ d ∈ ds, (type d).ReadIn text lo hi := fun d hd =>
    (hwritten.upTo hle).of_eq (hrange d hd) (hsegments d hd)
  refine ⟨⟨?_, ?_⟩, ?_⟩
  · have hread := readIn_flatMap.1 (h.read.widen (Nat.le_max_left lo mid) (Nat.le_refl hi))
    refine readIn_flatMap.2 fun d hd => ?_
    obtain ⟨hdeclarator, hvalue⟩ := readIn_cons.1 (hread d hd)
    exact readIn_cons.2
      ⟨hdeclarator, readIn_cons.2 ⟨readIn_typeRef.2 (htypes d hd).toStandsIn, hvalue⟩⟩
  · refine h.spaced.declaredTogether htyped hrange hsegments fun node hnode => ?_
    exact .of_readIn (readIn_typeRef.2 (hwritten.upTo (Nat.le_max_right lo mid)).toStandsIn)
      (h.read node hnode)
  · intro ref href
    obtain ⟨d, hd, hmem⟩ := List.mem_flatMap.1 href
    by_cases heq : ref = type d
    · exact Or.inl (heq ▸ (htypes d hd).there)
    · -- any other type is one of the values
      have hother : Node.typeRef ref ∈ ds.flatMap fun d => declarator d :: value d := by
        refine List.mem_flatMap.2 ⟨d, hd, ?_⟩
        simpa [heq] using hmem
      refine (h.there ref hother).imp_right fun ⟨head, args, body, range, hfield, hconstant⟩ =>
        ⟨head, args, body, range, ?_, hconstant⟩
      obtain ⟨d', hd', hfield⟩ := List.mem_flatMap.1 hfield
      refine List.mem_flatMap.2 ⟨d', hd', ?_⟩
      exact (List.sublist_cons_self _ (value d')).cons_cons (declarator d') |>.subset hfield

end LaidIn

/-! ## Expressions -/

/-- What an expression itself writes was read from the text, between two offsets. If it takes the
text from the first offset on, and up to the second one or further, then none of its parts is
reported where the expression is. -/
structure ExprKind.SpacedIn (text : String) (lo hi : Nat) (kind : ExprKind) : Prop where
  named : kind.NamedIn (WordOf text)
  name : ∀ name, kind.name? = some name → name.range.LiesIn lo hi
  parts : SourceSearch.SpacedIn text lo hi (Walk.exprKind kind)
  clear : ∀ range : TextRange, range.start = lo → hi ≤ range.stop →
    ∀ node ∈ Walk.exprKind kind, ∀ used ∈ kind.used range, used ∉ node.used
  idents : ∀ name ∈ kind.idents, name.SpelledIn text lo hi
  members : ∀ m ∈ kind.members, (Part.member m).FitsIn text lo hi

/-- The types in an expression that was read have their words where they stand. -/
structure ExprKind.LaidIn (text : String) (lo hi : Nat) (kind : ExprKind) : Prop
    extends ExprKind.SpacedIn text lo hi kind where
  there : TypesThere text (Walk.exprKind kind)

theorem ExprKind.SpacedIn.upTo {kind : ExprKind} (h : kind.SpacedIn text lo hi) (hhi : hi ≤ hi') :
    kind.SpacedIn text lo hi' where
  named := h.named
  name name hname := (h.name name hname).widen (Nat.le_refl _) hhi
  parts := h.parts.upTo hhi
  clear range hstart hstop := h.clear range hstart (Nat.le_trans hhi hstop)
  idents name hname := (h.idents name hname).widen (Nat.le_refl _) hhi
  members m hm := (h.members m hm).widen (Nat.le_refl _) hhi

namespace ExprKind

variable {kind : ExprKind}

/-- An expression is reported if it writes a name that can be reported. -/
theorem name?_eq_none_of_used (hused : ∀ range, kind.used range = []) : kind.name? = none := by
  cases kind with
  | name ident => cases hused default
  | fieldAccess target member => cases hused default
  | call target callee args => cases hused default
  | _ => rfl

theorem namedIn_of_used {words : String → Prop} (hused : ∀ range, kind.used range = []) :
    kind.NamedIn words := by
  cases kind with
  | name ident => cases hused default
  | fieldAccess target member => cases hused default
  | call target callee args => cases hused default
  | methodRef target member => cases hused default
  | _ => exact True.intro

/-- An expression with a class body is reported. -/
theorem members_eq_nil_of_used (hused : ∀ range, kind.used range = []) : kind.members = [] := by
  cases kind with
  | new type args body => cases hused default
  | _ => rfl

/-- What an expression uses goes from token to token if its names and its range do. -/
theorem onTokens_of_mem_used {range used : TextRange}
    (hidents : ∀ name ∈ kind.idents, name.SpelledIn text lo range.stop)
    (hrange : range.OnTokens text) (hused : used ∈ kind.used range) : used.OnTokens text := by
  cases kind with
  | name ident =>
    obtain rfl := List.mem_singleton.1 hused
    exact (hidents ident List.mem_cons_self).onTokens
  | fieldAccess target member =>
    rcases List.mem_cons.1 hused with rfl | hused
    · exact hrange
    · obtain rfl := List.mem_singleton.1 hused
      exact (hidents member List.mem_cons_self).onTokens
  | call target callee args =>
    -- a call is used from its name to its end
    obtain rfl := List.mem_singleton.1 hused
    have hcallee := hidents callee List.mem_cons_self
    have hlt := Nat.lt_of_lt_of_le hcallee.lies.pos hcallee.lies.le_stop
    have hstop : (TextRange.upTo callee.range.start range.stop).stop = range.stop :=
      Nat.max_eq_left (Nat.le_of_lt hlt)
    refine ⟨hcallee.onTokens.starts, ?_, ?_⟩ <;> rw [hstop]
    · exact hrange.ends
    · exact hlt
  | new type args body =>
    obtain rfl := List.mem_singleton.1 hused
    exact hrange
  | constructorCall isSuper args =>
    obtain rfl := List.mem_singleton.1 hused
    exact hrange
  | methodRef target member =>
    obtain rfl := List.mem_singleton.1 hused
    exact hrange
  | _ => cases hused

end ExprKind

namespace ExprKind.LaidIn

variable {kind : ExprKind}

theorem upTo (h : kind.LaidIn text lo hi) (hhi : hi ≤ hi') : kind.LaidIn text lo hi' :=
  ⟨h.toSpacedIn.upTo hhi, h.there⟩

/-- An expression that is never reported itself is read with its parts. -/
theorem of_unused (hused : ∀ range, kind.used range = [])
    (hidents : ∀ name ∈ kind.idents, name.SpelledIn text lo hi)
    (hparts : SourceSearch.LaidIn text lo hi (Walk.exprKind kind)) : kind.LaidIn text lo hi := by
  refine ⟨⟨namedIn_of_used hused, fun name h => ?_, hparts.toSpacedIn,
    fun range _ _ node _ used h => ?_, hidents, by simp [members_eq_nil_of_used hused]⟩,
    hparts.there⟩
  · rw [name?_eq_none_of_used hused] at h
    cases h
  · rw [hused] at h
    cases h

/-- An expression that is reported as a whole starts before all of its parts do. -/
theorem of_behind {border : Nat} (hnamed : kind.NamedIn (WordOf text)) (hname : kind.name? = none)
    (hused : ∀ range, kind.used range = [range]) (hidents : kind.idents = [])
    (hmembers : ∀ m ∈ kind.members, (Part.member m).FitsIn text border hi)
    (hparts : SourceSearch.LaidIn text border hi (Walk.exprKind kind)) (hlt : lo < border) :
    kind.LaidIn text lo hi := by
  have hle := Nat.le_of_lt hlt
  refine ⟨⟨hnamed, fun name h => ?_, hparts.toSpacedIn.widen hle (Nat.le_refl _),
    fun range hstart _ node hnode used h hmem => ?_, by simp [hidents],
    fun m hm => (hmembers m hm).widen hle (Nat.le_refl _)⟩, hparts.there⟩
  · rw [hname] at h
    cases h
  · rw [hused, List.mem_singleton] at h
    have hlies := ((hparts.read node hnode).lies.used hmem).start_le
    rw [h, hstart] at hlies
    exact absurd hlt (Nat.not_lt.2 hlies)

theorem of_name {ident : Ident} (h : ident.ReadIn text lo hi) :
    (ExprKind.name ident).LaidIn text lo hi := by
  refine ⟨⟨h.written, fun name hname => ?_, .nil, fun _ _ _ node hnode => (by cases hnode),
    by simpa [ExprKind.idents] using h.toSpelledIn, by simp [ExprKind.members]⟩, .nil⟩
  obtain rfl := Option.some.inj hname
  exact h.lies

/-- A name behind a point ends behind what stands before the point. -/
theorem of_fieldAccess {target : Expr} {member : Ident}
    (htarget : SourceSearch.LaidIn text lo mid (Walk.expr target))
    (hmember : member.ReadIn text (max lo mid) hi) :
    (ExprKind.fieldAccess target member).LaidIn text lo hi := by
  have hlt : mid < member.range.stop :=
    Nat.lt_of_le_of_lt (Nat.le_trans (Nat.le_max_right lo mid) hmember.lies.start_le)
      hmember.lies.pos
  have hstop := hmember.lies.le_stop
  have hspelled := hmember.toSpelledIn.widen (Nat.le_max_left lo mid) (Nat.le_refl hi)
  refine ⟨⟨hmember.written, fun name hname => ?_, htarget.toSpacedIn.upTo ?_,
    fun range _ hrange node hnode used hused hmem => ?_,
    by simpa [ExprKind.idents] using hspelled, by simp [ExprKind.members]⟩, htarget.there⟩
  · obtain rfl := Option.some.inj hname
    exact hspelled.lies
  · exact Nat.le_trans (Nat.le_of_lt hlt) hstop
  · have hbefore := ((htarget.read node hnode).lies.used hmem).le_stop
    rcases List.mem_cons.1 hused with rfl | hused
    · exact absurd (Nat.lt_of_lt_of_le hlt (Nat.le_trans hstop hrange)) (Nat.not_lt.2 hbefore)
    · obtain rfl := List.mem_singleton.1 hused
      exact absurd hlt (Nat.not_lt.2 hbefore)

/-- A call is reported from its name on: behind its receiver, and from before its arguments. -/
theorem of_call {border : Nat} {target : Option Expr} {callee : Ident} {args : List Expr}
    (htarget : SourceSearch.LaidIn text lo mid (Walk.exprOpt target))
    (hcallee : callee.ReadIn text (max lo mid) border)
    (hargs : SourceSearch.LaidIn text (max lo border) hi (Walk.exprs args)) (hle : border ≤ hi) :
    (ExprKind.call target callee args).LaidIn text lo hi := by
  have hstart : mid ≤ callee.range.start :=
    Nat.le_trans (Nat.le_max_right lo mid) hcallee.lies.start_le
  have hpos := hcallee.lies.pos
  have hstop := hcallee.lies.le_stop
  have hmid : mid ≤ border := by omega
  have hspelled := hcallee.toSpelledIn.widen (Nat.le_max_left lo mid) hle
  have hparts := (htarget.upTo hmid).append hargs hle
  refine ⟨⟨hcallee.written, fun name hname => ?_, hparts.toSpacedIn,
    fun range _ hrange node hnode used hused => ?_,
    by simpa [ExprKind.idents] using hspelled, by simp [ExprKind.members]⟩, hparts.there⟩
  · obtain rfl := Option.some.inj hname
    exact hspelled.lies
  · obtain rfl := List.mem_singleton.1 hused
    intro hmem
    have hcall : callee.range.stop ≤ (TextRange.upTo callee.range.start range.stop).stop :=
      Nat.le_trans (Nat.le_trans hstop (Nat.le_trans hle hrange)) (Nat.le_max_left _ _)
    rcases List.mem_append.1 hnode with hnode | hnode
    · have hbefore := ((htarget.read node hnode).lies.used hmem).le_stop
      omega
    · have hbehind : max lo border ≤ callee.range.start :=
        ((hargs.read node hnode).lies.used hmem).start_le
      omega

/-- A method reference ends behind what it is taken from. -/
theorem of_methodRef {target : Expr} {member : Ident}
    (hnamed : WordOf text member.text ∨ member.text = "new")
    (htarget : SourceSearch.LaidIn text lo mid (Walk.expr target))
    (hmember : member.SpelledIn text (max lo mid) hi) :
    (ExprKind.methodRef target member).LaidIn text lo hi := by
  have hlt : mid < hi := Nat.lt_of_le_of_lt (Nat.le_max_right lo mid) hmember.lies.lt
  have hspelled := hmember.widen (Nat.le_max_left lo mid) (Nat.le_refl hi)
  refine ⟨⟨hnamed, fun _ => nofun, htarget.toSpacedIn.upTo (Nat.le_of_lt hlt),
    fun range _ hrange node hnode used hused hmem => ?_,
    by simpa [ExprKind.idents] using hspelled, by simp [ExprKind.members]⟩, htarget.there⟩
  obtain rfl := List.mem_singleton.1 hused
  have hbefore := ((htarget.read node hnode).lies.used hmem).le_stop
  exact absurd (Nat.lt_of_lt_of_le hlt hrange) (Nat.not_lt.2 hbefore)

end ExprKind.LaidIn

/-- **A part that is a node** has in its range what the node writes itself, the members of the node,
and all nodes under it. -/
theorem Part.fitsIn_of_root (part : Part) {node : Node} {nodes : List Node} {ms : List Member}
    (hnodes : part.nodes = node :: nodes) (hparts : node.parts = part :: ms.map .member)
    (hlies : part.range.LiesIn lo hi) (htokens : part.range.OnTokens text)
    (hidents : ∀ name ∈ node.idents, name.SpelledIn text part.range.start part.range.stop)
    (hmembers : ∀ m ∈ ms, (Part.member m).FitsIn text part.range.start part.range.stop)
    (hread : ReadIn text part.range.start part.range.stop nodes) :
    ∀ p ∈ node.parts, p.FitsIn text lo hi := by
  rw [hparts]
  refine List.forall_mem_cons.2 ⟨⟨hlies, htokens, ?_⟩, fun p hp => ?_⟩
  · rw [hnodes]
    refine List.forall_mem_cons.2 ⟨fun range hrange => ?_, fun inner hinner =>
      (hread inner hinner).fits.ranges⟩
    rw [Node.ranges, hparts] at hrange
    rcases List.mem_append.1 hrange with hrange | hrange
    · obtain ⟨name, hname, rfl⟩ := List.mem_map.1 hrange
      exact (hidents name hname).lies
    · rcases List.mem_cons.1 hrange with rfl | hrange
      · exact ⟨Nat.le_refl _, hlies.pos, Nat.le_refl _⟩
      · obtain ⟨p, hp, rfl⟩ := List.mem_map.1 hrange
        obtain ⟨m, hm, rfl⟩ := List.mem_map.1 hp
        exact (hmembers m hm).lies
  · obtain ⟨m, hm, rfl⟩ := List.mem_map.1 hp
    exact (hmembers m hm).widen hlies.start_le hlies.le_stop

/-- **An expression** takes the text from its first token on and ends behind everything in it. -/
theorem spacedIn_expr {kind : ExprKind} {range : TextRange} (h : kind.SpacedIn text lo range.stop)
    (hstart : range.start = lo) (hrange : range.LiesIn lo hi) (htokens : range.OnTokens text) :
    SpacedIn text lo hi (Walk.expr ⟨kind, range⟩) := by
  subst hstart
  have hfits : (Node.expr ⟨kind, range⟩).FitsIn text range.start hi :=
    ⟨fun name hname => (h.idents name hname).widen (Nat.le_refl _) hrange.le_stop,
      Part.fitsIn_of_root (.expr ⟨kind, range⟩) rfl rfl hrange htokens h.idents h.members
        h.parts.read,
      fun used hused => ExprKind.onTokens_of_mem_used h.idents htokens hused⟩
  rw [Walk.expr]
  refine SpacedIn.cons ⟨h.named, ⟨hrange, h.name⟩, h.parts.read.writtenIn, hfits⟩
    (h.parts.upTo hrange.le_stop) fun other hother =>
      ⟨fun declared hdeclared => ?_, fun used hused => ?_⟩
  · cases hdeclared
  · exact h.clear range rfl (Nat.le_refl _) other hother used hused

theorem laidIn_expr {kind : ExprKind} {range : TextRange} (h : kind.LaidIn text lo range.stop)
    (hstart : range.start = lo) (hrange : range.LiesIn lo hi) (htokens : range.OnTokens text) :
    LaidIn text lo hi (Walk.expr ⟨kind, range⟩) :=
  ⟨spacedIn_expr h.toSpacedIn hstart hrange htokens, h.there.cons nofun⟩

/-- An expression is not empty. -/
theorem lt_of_laidIn_expr {e : Expr} (h : LaidIn text lo hi (Walk.expr e)) : lo < hi := by
  obtain ⟨kind, range⟩ := e
  have hread := h.read
  rw [Walk.expr, readIn_cons] at hread
  exact hread.1.lies.1.lt

/-! ## Members -/

theorem readIn_method {head : MethodHead} {body : MethodBody}
    (hname : head.name.ReadIn text lo hi)
    (hparams : ∀ p ∈ head.params, p.name.SpelledIn text lo hi) :
    (Node.method head body).ReadIn text lo hi := by
  refine ⟨hname.written, hname.lies, True.intro, .of_idents rfl rfl ?_⟩
  refine List.forall_mem_cons.2 ⟨hname.toSpelledIn, fun name hmem => ?_⟩
  obtain ⟨p, hp, rfl⟩ := List.mem_map.1 hmem
  exact hparams p hp

theorem readIn_field {head : FieldHead} {init : Option Expr} (hname : head.name.ReadIn text lo hi) :
    (Node.field head init).ReadIn text lo hi :=
  ⟨hname.written, hname.lies, True.intro,
    .of_idents rfl rfl (by simpa [Node.idents] using hname.toSpelledIn)⟩

/-- **A method** has its name and the types in its head before its body. -/
theorem laidIn_method {head : MethodHead} {body : MethodBody}
    (hname : head.name.ReadIn text lo mid)
    (hparams : ∀ p ∈ head.params, p.name.SpelledIn text lo mid)
    (htypes : LaidIn text lo mid
      ((head.returnType.toList ++ head.params.map (·.type) ++ head.throws).map .typeRef))
    (hbody : LaidIn text (max lo mid) hi (Walk.methodBody body)) (hle : mid ≤ hi) :
    LaidIn text lo hi (Walk.member (.method head body)) := by
  have hmethod : ∀ {lo' hi'}, lo' ≤ lo → mid ≤ hi' →
      (Node.method head body).ReadIn text lo' hi' := fun hlo hhi =>
    readIn_method (hname.widen hlo hhi) fun p hp => (hparams p hp).widen hlo hhi
  rw [Walk.member, List.cons_append]
  refine LaidIn.cons (hmethod (Nat.le_refl lo) hle) (htypes.append hbody hle) ?_
  intro other hother
  rcases List.mem_append.1 hother with hother | hother
  · obtain ⟨ref, -, rfl⟩ := List.mem_map.1 hother
    refine ⟨fun range _ hdeclared => ?_, fun range hused => ?_⟩
    · cases hdeclared
    · cases hused
  · exact .of_readIn (hmethod (Nat.le_refl lo) (Nat.le_max_right lo mid)) (hbody.read other hother)

/-- A field that is declared has its name before its value. -/
theorem laidIn_field {head : FieldHead} {init : Option Expr} (hname : head.name.ReadIn text lo mid)
    (hinit : LaidIn text (max lo mid) hi (Walk.exprOpt init)) (hle : mid ≤ hi) :
    LaidIn text lo hi (.field head init :: Walk.exprOpt init) := by
  refine LaidIn.cons (readIn_field (hname.upTo hle))
    (hinit.widen (Nat.le_max_left _ _) (Nat.le_refl _)) fun other hother => ?_
  exact .of_readIn (readIn_field (hname.upTo (Nat.le_max_right lo mid))) (hinit.read other hother)

/-- A member was read from the text, between two offsets. -/
structure Member.LaidIn (text : String) (lo hi : Nat) (m : Member) : Prop where
  laid : SourceSearch.LaidIn text lo hi (Walk.member m)
  fits : (Part.member m).FitsIn text lo hi

namespace Member.LaidIn

variable {m : Member}

theorem widen (h : m.LaidIn text lo hi) (hlo : lo' ≤ lo) (hhi : hi ≤ hi') :
    m.LaidIn text lo' hi' :=
  ⟨h.laid.widen hlo hhi, h.fits.widen hlo hhi⟩

theorem upTo (h : m.LaidIn text lo hi) (hhi : hi ≤ hi') : m.LaidIn text lo hi' :=
  h.widen (Nat.le_refl _) hhi

/-- **A member** takes the text from its first token to its last one. -/
theorem of_spans (h : SourceSearch.LaidIn text lo hi (Walk.member m)) (hspans : m.range.Spans lo hi)
    (htokens : m.range.OnTokens text) : m.LaidIn text lo hi := by
  refine ⟨h, hspans.liesIn, htokens, fun node hnode => ?_⟩
  obtain ⟨hstart, hstop, -⟩ := hspans
  rw [Part.range, hstart, hstop]
  exact (h.read node hnode).fits.ranges

/-- A type that was read as a member. -/
theorem of_type {decl : TypeDecl} (h : SourceSearch.LaidIn text lo hi (Walk.typeDecl decl)) :
    Member.LaidIn text lo hi (.type decl) := by
  have htype : (Part.type decl).FitsIn text lo hi := by
    obtain ⟨head, members⟩ := decl
    have hread := h.read
    rw [Walk.typeDecl, List.cons_append, readIn_cons] at hread
    exact hread.1.fits.parts _ List.mem_cons_self
  exact ⟨h, htype.lies, htype.onTokens, htype.holds⟩

end Member.LaidIn

/-- A member that is no type was read from the text, between two offsets. -/
structure Member.PlainIn (text : String) (lo hi : Nat) (m : Member) : Prop
    extends Member.LaidIn text lo hi m where
  plain : ¬m.IsType

theorem Member.PlainIn.upTo {m : Member} (h : m.PlainIn text lo hi) (hhi : hi ≤ hi') :
    m.PlainIn text lo hi' :=
  ⟨h.toLaidIn.upTo hhi, h.plain⟩

/-- Members were read from the text between two offsets, apart from each other. -/
structure MembersIn (text : String) (lo hi : Nat) (ms : List Member) : Prop where
  laid : LaidIn text lo hi (Walk.members ms)
  fits : ∀ m ∈ ms, (Part.member m).FitsIn text lo hi
  apart : ms.Pairwise Member.Before

namespace MembersIn

theorem read {ms : List Member} (h : MembersIn text lo hi ms) :
    ReadIn text lo hi (Walk.members ms) :=
  h.laid.read

theorem widen {ms : List Member} (h : MembersIn text lo hi ms) (hlo : lo' ≤ lo) (hhi : hi ≤ hi') :
    MembersIn text lo' hi' ms :=
  ⟨h.laid.widen hlo hhi, fun m hm => (h.fits m hm).widen hlo hhi, h.apart⟩

theorem nil : MembersIn text lo hi [] := ⟨.nil, by simp, .nil⟩

theorem singleton {m : Member} (h : m.LaidIn text lo hi) : MembersIn text lo hi [m] := by
  refine ⟨?_, by simpa using h.fits, List.pairwise_singleton _ _⟩
  rw [Walk.members, Walk.members, List.append_nil]
  exact h.laid

/-- Members without a type among them need not be one behind the other. -/
theorem of_plain {ms : List Member} (h : LaidIn text lo hi (Walk.members ms))
    (hfits : ∀ m ∈ ms, (Part.member m).FitsIn text lo hi) (hplain : ∀ m ∈ ms, ¬m.IsType) :
    MembersIn text lo hi ms :=
  ⟨h, hfits, List.pairwise_of_forall_mem_list fun m hm m' hm' htype =>
    absurd htype (not_or.2 ⟨hplain m hm, hplain m' hm'⟩)⟩

/-- **Members that were read behind others** are apart from them. -/
theorem append {ms ms' : List Member} (h : MembersIn text lo mid ms)
    (h' : MembersIn text (max lo mid) hi ms') (hle : mid ≤ hi) :
    MembersIn text lo hi (ms ++ ms') := by
  refine ⟨?_, fun m hm => ?_,
    List.pairwise_append.2 ⟨h.apart, h'.apart, fun m hm m' hm' _ => ?_⟩⟩
  · rw [Walk.members_eq_flatMap, List.flatMap_append, ← Walk.members_eq_flatMap,
      ← Walk.members_eq_flatMap]
    exact h.laid.append h'.laid hle
  · rcases List.mem_append.1 hm with hm | hm
    · exact (h.fits m hm).widen (Nat.le_refl _) hle
    · exact (h'.fits m hm).widen (Nat.le_max_left _ _) (Nat.le_refl _)
  · have hread := h.read
    have hread' := h'.read
    rw [Walk.members_eq_flatMap, readIn_flatMap] at hread hread'
    exact ⟨lo, max lo mid, hi, ((hread m hm).upTo (Nat.le_max_right lo mid)).lieIn,
      (hread' m' hm').lieIn⟩

/-- **Members that were read in several rounds**, one behind the other. -/
theorem flatMap {α : Type} {rounds : List α} {ms : α → List Member}
    (h : Parser.Rounds (fun lo hi round => MembersIn text lo hi (ms round)) lo hi rounds) :
    MembersIn text lo hi (rounds.flatMap ms) := by
  induction h with
  | nil => exact nil
  | cons hms hmid _ ih =>
    rw [List.flatMap_cons]
    exact append hms ih hmid

end MembersIn

/-- **A type** was read between two offsets if its head was read before its members. -/
theorem laidIn_typeDecl {head : TypeHead} {members : List Member} {opening : Nat}
    (hrange : head.range.LiesIn lo hi) (htokens : head.range.OnTokens text)
    (hle : opening ≤ head.range.stop)
    (hname : head.name.ReadIn text head.range.start opening)
    (hsupertypes : LaidIn text head.range.start opening
      ((head.superclass.toList ++ head.interfaces).map .typeRef))
    (hmembers : MembersIn text opening head.range.stop members) :
    LaidIn text lo hi (Walk.typeDecl ⟨head, members⟩) := by
  have hopening : head.range.start ≤ opening := Nat.le_of_lt hname.lies.lt
  have hbody : LaidIn text (max head.range.start opening) head.range.stop
      (Walk.members members) := by
    rw [Nat.max_eq_right hopening]
    exact hmembers.laid
  have hnodes := hsupertypes.append hbody hle
  have hspelled := hname.toSpelledIn.widen (Nat.le_refl _) hle
  have hfits : (Node.type ⟨head, members⟩).FitsIn text lo hi := by
    refine ⟨?_, ?_, by simp [Node.used]⟩
    · simpa [Node.idents] using hspelled.widen hrange.start_le hrange.le_stop
    · exact Part.fitsIn_of_root (.type ⟨head, members⟩) rfl rfl hrange htokens
        (by simpa [Node.idents, Part.range] using hspelled)
        (fun m hm => (hmembers.fits m hm).widen hopening (Nat.le_refl _)) hnodes.read
  rw [Walk.typeDecl, List.cons_append]
  refine LaidIn.cons ⟨hname.written, hrange, ⟨opening, ?_⟩, hfits⟩
    (hnodes.widen hrange.start_le hrange.le_stop) fun other hother => ?_
  · exact ⟨hle, hname.lies, fun ref href => (readIn_map_typeRef.1 hsupertypes.read ref href).lies,
      hsupertypes.spaced.of_map_typeRef, hmembers.read.lieIn, hmembers.apart⟩
  · refine ⟨fun range hname' hdeclared => ?_, fun range hused => ?_⟩
    · obtain rfl := Option.some.inj hname'
      rcases List.mem_append.1 hother with hother | hother
      · obtain ⟨ref, -, rfl⟩ := List.mem_map.1 hother
        cases hdeclared
      · have hother' := hmembers.read other hother
        exact TextRange.ne_of_liesIn hname.lies (hother'.declared hdeclared) rfl
    · cases hused

end SourceSearch
