import SourceSearch.Proofs.Words
import SourceSearch.Walk

/-!
# The words of a tree

The names in a tree are read from identifiers of the text, and so are the segments of written types
that are not primitive. `WrittenIn words nodes` says so of the nodes that a walk meets.
-/

set_option autoImplicit false

namespace SourceSearch

variable {words : String → Prop}

/-! ## Nodes -/

/-- A type is written by the word of a primitive type or by words with dots between them. -/
def TypeRef.WrittenIn (words : String → Prop) (ref : TypeRef) : Prop :=
  (∃ p : Primitive, ref.segments = [p.spelling]) ∨
    ref.segments ≠ [] ∧ ∀ segment ∈ ref.segments, words segment

/-- A type that is written by the word of a primitive type is primitive. -/
theorem TypeRef.isPrimitive_of_spelling {ref : TypeRef} {p : Primitive}
    (h : ref.segments = [p.spelling]) : ref.isPrimitive = true := by
  unfold TypeRef.isPrimitive
  rw [h]
  exact Option.isSome_iff_exists.2 ⟨p, p.ofSpelling?_spelling⟩

/-- The last segment of a type that is not primitive is a word. -/
theorem TypeRef.WrittenIn.word_of_getLast? {ref : TypeRef} (h : ref.WrittenIn words)
    (hprimitive : ref.isPrimitive = false) {word : String}
    (hlast : ref.segments.getLast? = some word) : words word := by
  rcases h with ⟨p, hp⟩ | ⟨-, hall⟩
  · rw [isPrimitive_of_spelling hp] at hprimitive
    cases hprimitive
  · exact hall word (List.mem_of_getLast? hlast)

/-- The name that an expression itself writes is one of the words; the constructor that a method
reference names is not. -/
def ExprKind.NamedIn (words : String → Prop) : ExprKind → Prop
  | .name ident => words ident.text
  | .fieldAccess _ member => words member.text
  | .call _ callee _ => words callee.text
  | .methodRef _ member => words member.text ∨ member.text = "new"
  | _ => True

/-- What a node itself writes is in the words. -/
def Node.WrittenIn (words : String → Prop) : Node → Prop
  | .type decl => words decl.head.name.text
  | .method head _ => words head.name.text
  | .field head _ => words head.name.text
  | .expr e => e.kind.NamedIn words
  | .typeRef ref => ref.WrittenIn words
  | _ => True

/-- All nodes are written in the words. -/
def WrittenIn (words : String → Prop) (nodes : List Node) : Prop :=
  ∀ node ∈ nodes, node.WrittenIn words

section Imp

variable {words' : String → Prop} (himp : ∀ word, words word → words' word)

include himp

theorem TypeRef.WrittenIn.imp {ref : TypeRef} (h : ref.WrittenIn words) : ref.WrittenIn words' :=
  h.imp_right fun ⟨hne, hall⟩ => ⟨hne, fun segment hmem => himp _ (hall segment hmem)⟩

theorem ExprKind.NamedIn.imp {kind : ExprKind} (h : kind.NamedIn words) : kind.NamedIn words' := by
  cases kind with
  | name ident => exact himp _ h
  | fieldAccess target member => exact himp _ h
  | call target callee args => exact himp _ h
  | methodRef target member => exact Or.imp_left (himp _) h
  | _ => exact True.intro

/-- What is written in some words is written in all more words. -/
theorem WrittenIn.imp {nodes : List Node} (h : WrittenIn words nodes) : WrittenIn words' nodes := by
  intro node hnode
  have hwritten := h node hnode
  cases node with
  | type decl => exact himp _ hwritten
  | method head body => exact himp _ hwritten
  | field head init => exact himp _ hwritten
  | expr e => exact ExprKind.NamedIn.imp himp hwritten
  | typeRef ref => exact TypeRef.WrittenIn.imp himp hwritten
  | _ => exact True.intro

end Imp

@[simp] theorem TypeRef.writtenIn_addDims {ref : TypeRef} {dims : Nat} :
    (ref.addDims dims).WrittenIn words ↔ ref.WrittenIn words := Iff.rfl

@[simp] theorem writtenIn_nil : WrittenIn words [] := by simp [WrittenIn]

@[simp] theorem writtenIn_cons {node : Node} {nodes : List Node} :
    WrittenIn words (node :: nodes) ↔ node.WrittenIn words ∧ WrittenIn words nodes := by
  simp [WrittenIn]

@[simp] theorem writtenIn_append {nodes others : List Node} :
    WrittenIn words (nodes ++ others) ↔ WrittenIn words nodes ∧ WrittenIn words others := by
  simp [WrittenIn, or_imp, forall_and]

@[simp] theorem writtenIn_map_typeRef {refs : List TypeRef} :
    WrittenIn words (refs.map .typeRef) ↔ ∀ ref ∈ refs, ref.WrittenIn words := by
  simp [WrittenIn, Node.WrittenIn]

@[simp] theorem writtenIn_flatMap {α : Type} {as : List α} {nodes : α → List Node} :
    WrittenIn words (as.flatMap nodes) ↔ ∀ a ∈ as, WrittenIn words (nodes a) := by
  simp only [WrittenIn, List.mem_flatMap]
  constructor
  · rintro h a ha node hnode
    exact h node ⟨a, ha, hnode⟩
  · rintro h node ⟨a, ha, hnode⟩
    exact h a ha node hnode

/-! ## Walks through lists -/

namespace Walk

theorem members_eq_flatMap (ms : List Member) : members ms = ms.flatMap member := by
  induction ms with
  | nil => rfl
  | cons m ms ih => rw [members, ih, List.flatMap_cons]

theorem stmts_eq_flatMap (ss : List Stmt) : stmts ss = ss.flatMap stmt := by
  induction ss with
  | nil => rfl
  | cons s ss ih => rw [stmts, ih, List.flatMap_cons]

theorem exprs_eq_flatMap (es : List Expr) : exprs es = es.flatMap expr := by
  induction es with
  | nil => rfl
  | cons e es ih => rw [exprs, ih, List.flatMap_cons]

theorem catches_eq_flatMap (cs : List CatchClause) :
    catches cs = cs.flatMap fun c => .typeRef c.param.type :: block c.body := by
  induction cs with
  | nil => rfl
  | cons c cs ih =>
    obtain ⟨param, body⟩ := c
    rw [catches, ih, List.flatMap_cons]

theorem cases_eq_flatMap (cs : List SwitchCase) :
    cases cs = cs.flatMap fun c => exprs c.labels ++ stmts c.body := by
  induction cs with
  | nil => rfl
  | cons c cs ih =>
    obtain ⟨labels, body⟩ := c
    rw [cases, ih, List.flatMap_cons]

theorem localVar_eq (v : LocalVar) :
    localVar v = .localVar v :: .typeRef v.type :: exprOpt v.init := by
  obtain ⟨type, name, init⟩ := v
  rfl

theorem localVars_eq_flatMap (vs : List LocalVar) : localVars vs = vs.flatMap localVar := by
  induction vs with
  | nil => rfl
  | cons v vs ih => rw [localVars, ih, List.flatMap_cons]

end Walk

/-! ## Units -/

/-- A unit is written in the words: its package, its imports and the nodes of its types are. -/
structure CompilationUnit.WrittenIn (words : String → Prop) (unit : CompilationUnit) : Prop where
  package : ∀ segment ∈ unit.packageSegments, words segment
  imports : ∀ i ∈ unit.imports, ∀ segment ∈ i.segments, words segment
  nodes : SourceSearch.WrittenIn words (Walk.unit unit)

theorem CompilationUnit.WrittenIn.imp {words' : String → Prop} {unit : CompilationUnit}
    (h : unit.WrittenIn words) (himp : ∀ word, words word → words' word) :
    unit.WrittenIn words' :=
  ⟨fun segment hmem => himp _ (h.package segment hmem),
    fun i hi segment hmem => himp _ (h.imports i hi segment hmem), h.nodes.imp himp⟩

end SourceSearch
