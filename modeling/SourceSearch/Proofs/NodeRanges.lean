import Mathlib.Data.List.Flatten
import SourceSearch.Walk

/-!
# The ranges at which nodes are reported

A search reports what a node declares at its name, and what it uses at the range that the use takes
in the text. Two nodes are clear of each other if the one declares nothing where the other one
does, and uses nothing where the other one does (`Node.Clear`).

In the tree of a text all nodes are clear of each other, with one exception: the variables or the
fields of one declaration have a written type each, and all of these stand where the type is written
once (`Together`). `Spaced nodes` says that there is no other exception among the nodes.
-/

set_option autoImplicit false

namespace SourceSearch

/-! ## Reported ranges -/

/-- The ranges at which a search can report the use that an expression is. -/
def ExprKind.used (range : TextRange) : ExprKind → List TextRange
  | .name ident => [ident.range]
  | .fieldAccess _ member => [range, member.range]
  | .call _ callee _ => [.upTo callee.range.start range.stop]
  | .new _ _ _ => [range]
  | .constructorCall _ _ => [range]
  | .methodRef _ _ => [range]
  | _ => []

namespace Node

/-- The ranges at which a search can report the use that a node is. -/
def used : Node → List TextRange
  | .expr e => e.kind.used e.range
  | .typeRef ref => [ref.range]
  | _ => []

/-- The range at which a search can report what a node declares. -/
def declared? : Node → Option TextRange
  | .type decl => some decl.head.name.range
  | .method head _ => some head.name.range
  | .field head _ => some head.name.range
  | _ => none

/-- The type that a variable or a field is declared with; that of an enum constant is not written.
-/
def typed? : Node → Option TypeRef
  | .localVar v => some v.type
  | .field head _ => if head.isEnumConstant then none else some head.type
  | _ => none

/-- Two nodes declare nothing at the same range, and use nothing at the same range. -/
structure Clear (a b : Node) : Prop where
  declared : ∀ range, a.declared? = some range → b.declared? ≠ some range
  used : ∀ range ∈ a.used, range ∉ b.used

theorem Clear.symm {a b : Node} (h : a.Clear b) : b.Clear a :=
  ⟨fun range hb ha => h.declared range ha hb, fun range hb ha => h.used range ha hb⟩

end Node

/-! ## Types that are written once -/

/-- Two written types stand at the same range, and are those of two variables or fields among the
nodes. -/
structure Together (nodes : List Node) (a b : TypeRef) : Prop where
  range_eq : a.range = b.range
  segments_eq : a.segments = b.segments
  declared : List.Sublist [a, b] (nodes.filterMap Node.typed?)

/-- Two nodes are clear of each other, or are the types of variables or fields among the nodes which
are declared together. -/
def Node.Apart (nodes : List Node) (a b : Node) : Prop :=
  a.Clear b ∨ ∃ ref ref', a = .typeRef ref ∧ b = .typeRef ref' ∧ Together nodes ref ref'

theorem Node.Apart.mono {nodes more : List Node} {a b : Node} (h : a.Apart nodes b)
    (hsub : nodes.Sublist more) : a.Apart more b := by
  rcases h with hclear | ⟨ref, ref', rfl, rfl, hrange, hsegments, hpair⟩
  · exact Or.inl hclear
  · exact Or.inr ⟨ref, ref', rfl, rfl, hrange, hsegments, hpair.trans (hsub.filterMap _)⟩

/-- Nodes that are apart declare nothing at the same range. -/
theorem Node.Apart.declared {nodes : List Node} {a b : Node} (h : a.Apart nodes b)
    {range : TextRange} (ha : a.declared? = some range) : b.declared? ≠ some range := by
  rcases h with hclear | ⟨ref, -, rfl, -, -⟩
  · exact hclear.declared range ha
  · cases ha

/-- Nodes that are apart but used at the same range are types that are written once. -/
theorem Node.Apart.together {nodes : List Node} {a b : Node} (h : a.Apart nodes b)
    {range : TextRange} (ha : range ∈ a.used) (hb : range ∈ b.used) :
    ∃ ref ref', a = .typeRef ref ∧ b = .typeRef ref' ∧ Together nodes ref ref' :=
  h.resolve_left fun hclear => hclear.used range ha hb

/-- Nodes are apart from each other. -/
def Spaced (nodes : List Node) : Prop := nodes.Pairwise fun a b => a.Apart nodes b

namespace Spaced

variable {nodes others : List Node}

theorem nil : Spaced [] := List.Pairwise.nil

/-- Nodes stay apart when there are more nodes. -/
theorem within (h : Spaced nodes) (hsub : nodes.Sublist others) :
    nodes.Pairwise fun a b => a.Apart others b :=
  h.imp fun hab => hab.mono hsub

theorem cons {node : Node} (h : Spaced nodes) (hclear : ∀ other ∈ nodes, node.Clear other) :
    Spaced (node :: nodes) :=
  List.pairwise_cons.2 ⟨fun other hother => Or.inl (hclear other hother),
    h.within (List.sublist_cons_self node nodes)⟩

/-- **Two nodes that are used at one range** are the same, or both are written types. -/
theorem eq_of_used (h : Spaced nodes) {a b : Node} (ha : a ∈ nodes) (hb : b ∈ nodes)
    {range : TextRange} (hrange : range ∈ a.used) (hrange' : range ∈ b.used) :
    a = b ∨ (∃ ref, a = .typeRef ref) ∧ ∃ ref, b = .typeRef ref := by
  refine List.Pairwise.forall_of_forall_of_flip
    (R := fun a b => range ∈ a.used → range ∈ b.used →
      a = b ∨ (∃ ref, a = .typeRef ref) ∧ ∃ ref, b = .typeRef ref)
    (fun _ _ _ _ => Or.inl rfl) (h.imp fun hapart ha hb => ?_) (h.imp fun hapart hb ha => ?_)
    ha hb hrange hrange'
  · obtain ⟨ref, ref', heq, heq', -⟩ := hapart.together ha hb
    exact Or.inr ⟨⟨ref, heq⟩, ref', heq'⟩
  · obtain ⟨ref, ref', heq, heq', -⟩ := hapart.together ha hb
    exact Or.inr ⟨⟨ref', heq'⟩, ref, heq⟩

theorem append (h : Spaced nodes) (h' : Spaced others)
    (hclear : ∀ node ∈ nodes, ∀ other ∈ others, node.Clear other) : Spaced (nodes ++ others) :=
  List.pairwise_append.2 ⟨h.within (List.sublist_append_left nodes others),
    h'.within (List.sublist_append_right nodes others),
    fun node hnode other hother => Or.inl (hclear node hnode other hother)⟩

/-- Written types alone, without the variables or fields that they are the types of, stand at
different ranges. -/
theorem of_map_typeRef {refs : List TypeRef} (h : Spaced (refs.map .typeRef)) :
    refs.Pairwise fun ref ref' => ref.range ≠ ref'.range := by
  refine (List.pairwise_map.1 h).imp ?_
  rintro ref ref' (hclear | ⟨_, _, _, _, -, -, hpair⟩) heq
  · exact hclear.used ref.range List.mem_cons_self (heq ▸ List.mem_cons_self)
  · obtain ⟨node, hnode, htyped⟩ := List.mem_filterMap.1 (hpair.subset List.mem_cons_self)
    obtain ⟨other, -, rfl⟩ := List.mem_map.1 hnode
    cases htyped

/-- **Variables and fields of one declaration** are apart with their types if they are apart without
them, and what they declare and use is clear of the types. -/
theorem declaredTogether {α : Type} {ds : List α} {declarator : α → Node} {type : α → TypeRef}
    {value : α → List Node} {written : TypeRef}
    (htyped : ∀ d ∈ ds, (declarator d).typed? = some (type d))
    (hrange : ∀ d ∈ ds, (type d).range = written.range)
    (hsegments : ∀ d ∈ ds, (type d).segments = written.segments)
    (hclear : ∀ node ∈ ds.flatMap fun d => declarator d :: value d,
      (Node.typeRef written).Clear node)
    (h : Spaced (ds.flatMap fun d => declarator d :: value d)) :
    Spaced (ds.flatMap fun d => declarator d :: .typeRef (type d) :: value d) := by
  let all := ds.flatMap fun d => declarator d :: .typeRef (type d) :: value d
  have hall : (ds.flatMap fun d => declarator d :: value d).Pairwise fun a b => a.Apart all b :=
    h.within (List.Sublist.flatMap_right ds fun d _ =>
      (List.sublist_cons_self _ (value d)).cons_cons _)
  obtain ⟨hwithin, hacross⟩ := List.pairwise_flatMap.1 hall
  have htype : ∀ d ∈ ds, ∀ d' ∈ ds, ∀ node ∈ declarator d' :: value d',
      (Node.typeRef (type d)).Clear node := by
    intro d hd d' hd' node hnode
    obtain ⟨hdeclared, hused⟩ := hclear node (List.mem_flatMap.2 ⟨d', hd', hnode⟩)
    exact ⟨fun _ => nofun, by rw [Node.used, hrange d hd]; exact hused⟩
  refine List.pairwise_flatMap.2 ⟨fun d hd => ?_, List.pairwise_iff_forall_sublist.2 ?_⟩
  · obtain ⟨hfirst, hvalue⟩ := List.pairwise_cons.1 (hwithin d hd)
    refine List.pairwise_cons.2 ⟨List.forall_mem_cons.2 ⟨?_, hfirst⟩,
      List.pairwise_cons.2 ⟨fun node hnode => ?_, hvalue⟩⟩
    · exact Or.inl (htype d hd d hd _ List.mem_cons_self).symm
    · exact Or.inl (htype d hd d hd node (List.mem_cons_of_mem _ hnode))
  · intro d d' hpair node hnode node' hnode'
    have hd : d ∈ ds := hpair.subset (by simp)
    have hd' : d' ∈ ds := hpair.subset (by simp)
    have hsplit : ∀ {e node}, node ∈ declarator e :: .typeRef (type e) :: value e →
        node = .typeRef (type e) ∨ node ∈ declarator e :: value e := by
      intro e node hmem
      rw [List.mem_cons, List.mem_cons] at hmem
      rw [List.mem_cons]
      exact or_left_comm.1 hmem
    rcases hsplit hnode with rfl | hnode <;> rcases hsplit hnode' with rfl | hnode'
    · refine Or.inr ⟨_, _, rfl, rfl, (hrange d hd).trans (hrange d' hd').symm,
        (hsegments d hd).trans (hsegments d' hd').symm, ?_⟩
      have hboth : [declarator d, declarator d'].filterMap Node.typed? = [type d, type d'] := by
        simp [htyped d hd, htyped d' hd']
      rw [← hboth]
      refine List.Sublist.filterMap _ ((hpair.map declarator).trans ?_)
      rw [List.map_eq_flatMap]
      exact List.Sublist.flatMap_right ds fun d _ => (List.nil_sublist _).cons_cons _
    · exact Or.inl (htype d hd d' hd' node' hnode')
    · exact Or.inl (htype d' hd' d hd node hnode).symm
    · exact List.pairwise_iff_forall_sublist.1 hacross hpair node hnode node' hnode'

end Spaced

end SourceSearch
