import Mathlib.Data.List.Perm.Basic
import SourceSearch.Proofs.DistinctMatches

/-!
# Ranges as slices of a text

In the tree of a text every identifier is spelled where it stands, and every type declaration,
member and expression goes from token to token and has all that is beneath it in its range
(`CompilationUnit.ReadIn.node_slices`). A search reports what nodes declare and use, and imports,
all of which go from token to token as well, a call from its name to its end. So whatever is
reported in a file can be cut out of its text (`exists_source_of_mem_locate`).
-/

set_option autoImplicit false

namespace SourceSearch

variable {text : String} {lo border hi : Nat} {range : TextRange}

/-! ## Trees -/

/-- What a node declares goes from token to token, as the name of the node does. -/
theorem Node.FitsIn.onTokens_of_declared? {node : Node} (h : node.FitsIn text lo hi)
    (hrange : node.declared? = some range) : range.OnTokens text := by
  cases node with
  | type decl =>
    obtain rfl := Option.some.inj hrange
    exact (h.idents decl.head.name List.mem_cons_self).onTokens
  | method head body =>
    obtain rfl := Option.some.inj hrange
    exact (h.idents head.name List.mem_cons_self).onTokens
  | field head init =>
    obtain rfl := Option.some.inj hrange
    exact (h.idents head.name List.mem_cons_self).onTokens
  | _ => cases hrange

/-- **The nodes of a text** spell their identifiers, and their parts go from token to token and hold
what is beneath them. -/
theorem CompilationUnit.ReadIn.node_slices {unit : CompilationUnit}
    (h : unit.ReadIn text border hi) {node : Node} (hnode : node ∈ Walk.unit unit) :
    (∀ name ∈ node.idents, slice text name.range = some name.text) ∧
      ∀ part ∈ node.parts, part.range.OnTokens text ∧
        ∀ inner ∈ part.nodes, ∀ range ∈ inner.ranges, part.range.encloses range = true := by
  obtain ⟨hidents, hparts, -⟩ := (h.nodes node hnode).fits
  refine ⟨fun name hname => (hidents name hname).slice_eq, fun part hpart => ?_⟩
  obtain ⟨-, htokens, hholds⟩ := hparts part hpart
  refine ⟨htokens, fun inner hinner range hrange => ?_⟩
  have hlies := hholds inner hinner range hrange
  exact decide_eq_true ⟨hlies.start_le, hlies.le_stop⟩

/-! ## What is found in a file -/

namespace Target

variable {target : Target} {s : BoundWorkspace} {limitTo : LimitTo} {scope : NameScope}
  {info : DeclaredType} {decl : TypeDecl} {found : Finding}

/-- What is used at a place in a type goes from token to token. -/
theorem onTokens_of_at? (hfits : ∀ node ∈ Walk.typeDecl decl, node.FitsIn text lo hi)
    (place : Place) {inside : NameScope} {o : Occurrence} (hnode : place.node ∈ Walk.typeDecl decl)
    (ho : target.at? s inside place = some o) : o.range.OnTokens text :=
  (hfits _ hnode).used _ (mem_used_of_at? ho)

/-- The declarations of a type go from token to token. -/
theorem onTokens_of_mem_declarations (hfits : ∀ node ∈ Walk.typeDecl decl, node.FitsIn text lo hi)
    (hfound : found ∈ target.declarations info decl) : found.occurrence.range.OnTokens text := by
  obtain ⟨declares?, heq, hdeclares⟩ := exists_declarations_eq target info decl
  rw [heq] at hfound
  rcases List.mem_append.1 hfound with hfound | hfound
  · rw [Finding.range_of_declaration? (Option.mem_toList.1 hfound)]
    exact (hfits _ (Walk.type_mem decl)).onTokens_of_declared? rfl
  · obtain ⟨m, hm, hfound⟩ := List.mem_filterMap.1 hfound
    obtain ⟨node, hnode, hdeclared⟩ := hdeclares m found hfound
    exact (hfits node (Walk.member_subset hm hnode)).onTokens_of_declared? hdeclared

/-- The references in a type go from token to token. -/
theorem onTokens_of_mem_references (hfits : ∀ node ∈ Walk.typeDecl decl, node.FitsIn text lo hi)
    {outside inside : NameScope} (hfound : found ∈ target.references s outside inside info decl) :
    found.occurrence.range.OnTokens text := by
  rw [references_eq] at hfound
  rcases List.mem_append.1 hfound with hfound | hfound
  · obtain ⟨o, ho, rfl⟩ := List.mem_map.1 hfound
    obtain ⟨ref, href, ho⟩ := List.mem_filterMap.1 ho
    exact onTokens_of_at? hfits (.typeRef ref) (supertype_mem href) ho
  · obtain ⟨⟨label, place⟩, hmem, hfound⟩ := List.mem_filterMap.1 hfound
    obtain ⟨o, ho, rfl⟩ := Option.map_eq_some_iff.1 hfound
    have hnode := (labelledPlaces_sublist s inside info decl).subset (List.mem_map_of_mem hmem)
    exact onTokens_of_at? hfits place ((Walk.members_sublist decl).subset hnode) ho

/-- The supertypes that make a type an implementor go from token to token. -/
theorem onTokens_of_mem_implementors (hfits : ∀ node ∈ Walk.typeDecl decl, node.FitsIn text lo hi)
    {outside : NameScope} (hfound : found ∈ target.implementors s outside info decl) :
    found.occurrence.range.OnTokens text := by
  obtain ⟨o, ho, rfl⟩ := List.mem_map.1 hfound
  obtain ⟨ref, href, ho⟩ := List.mem_filterMap.1 ho
  have hused := (hfits _ (supertype_mem href)).used ref.range List.mem_cons_self
  rw [show _ = ref.range from Occurrence.range_of_at? ho]
  exact hused

/-- **What is found in a type** goes from token to token. -/
theorem onTokens_of_mem_inType (h : scope.unit.ReadIn text border hi)
    (hfound : found ∈ target.inType s limitTo scope info) :
    found.occurrence.range.OnTokens text := by
  unfold inType at hfound
  split at hfound
  next => cases hfound
  next decl hdecl =>
    have hfits : ∀ node ∈ Walk.typeDecl decl, node.FitsIn text border hi := fun node hnode =>
      (h.nodes node (DeclaredType.walk_subset hdecl hnode)).fits
    rcases List.mem_append.1 hfound with hfound | hfound
    · rcases List.mem_append.1 hfound with hfound | hfound
      · exact onTokens_of_mem_declarations hfits (List.mem_ite_nil_right.1 hfound).2
      · exact onTokens_of_mem_references hfits (List.mem_ite_nil_right.1 hfound).2
    · exact onTokens_of_mem_implementors hfits (List.mem_ite_nil_right.1 hfound).2

/-- **What is found in a file** goes from token to token of its text. -/
theorem onTokens_of_mem_findings {ws : Workspace} {coverage : Coverage} {id : FileId}
    {file : SourceFile} (hover : s.IsOver ws) (h : ws.FilesInStep)
    (hfile : ws.source? id = some file)
    (hfound : found ∈ target.findings s limitTo coverage file) :
    found.occurrence.range.OnTokens file.text := by
  unfold findings at hfound
  split at hfound
  next => cases hfound
  next scope hscope =>
    obtain ⟨hunit, -⟩ := hover.of_scope? hscope
    obtain ⟨border, hi, hread⟩ := h.unit_readIn hfile hunit
    rcases List.mem_append.1 hfound with hfound | hfound
    · obtain ⟨-, hfound⟩ := List.mem_ite_nil_right.1 hfound
      obtain ⟨i, himport, hfound⟩ := List.mem_filterMap.1 (List.mem_ite_nil_right.1 hfound).2
      rw [range_of_inImport? hfound]
      exact (hread.imports i himport).onTokens
    · obtain ⟨info, -, hfound⟩ := List.mem_flatMap.1 hfound
      exact onTokens_of_mem_inType hread hfound

end Target

/-! ## Searches -/

namespace Searchable

variable {s : BoundWorkspace} {ws : Workspace} {target : Target} {limitTo : LimitTo}
  {doc : Document} {m : Match}

/-- **A match with a range** is in a file of the workspace, and shows what the range cuts out of the
text of the file. -/
theorem exists_source_of_mem_locate (hover : s.IsOver ws) (h : ws.FilesInStep)
    (hm : m ∈ locate s target limitTo doc) (hrange : m.range = some range) :
    ∃ id file inner, m.file = some id ∧ ws.source? id = some file ∧
      file.textAt? range = some inner ∧ m.source = some inner := by
  unfold locate at hm
  split at hm
  next id hid =>
    rw [hover.workspace] at hm
    split at hm
    next file hfile =>
      obtain ⟨found, hfound, rfl⟩ := List.mem_map.1 hm
      obtain rfl := Option.some.inj hrange
      obtain ⟨inner, hinner⟩ :=
        (Target.onTokens_of_mem_findings hover h hfile hfound).exists_slice
      exact ⟨id, file, inner, congrArg some (h.source_id hfile), hfile, hinner, hinner⟩
    next => cases hm
  next id hid =>
    split at hm
    · obtain ⟨info, -, hm⟩ := List.mem_flatMap.1 hm
      obtain ⟨labelled, -, rfl⟩ := List.mem_map.1 hm
      cases hrange
    · cases hm

end Searchable

/-- **Ranges are slices.** In the tree of every text that parses, every identifier is spelled where
it stands; every type declaration, member and expression is a slice of the text that is not empty
and goes from the start of a token to the end of one, and it has in its range all identifiers,
types, members and expressions beneath it. After any edits, and whatever is searched for in
whichever scope, a match with a range shows what its range cuts out of the text of its file. -/
theorem slices_afterAll :
    (∀ (text : String) (unit : CompilationUnit), parse text = .ok unit →
      ∀ node ∈ Walk.unit unit,
        (∀ name ∈ node.idents, slice text name.range = some name.text) ∧
        ∀ part ∈ node.parts,
          part.range.start < part.range.stop ∧ part.range.stop ≤ text.utf8ByteSize ∧
          (∃ inner, slice text part.range = some inner) ∧
          (∃ token : Token, token.IsOf text ∧ token.range.start = part.range.start) ∧
          (∃ token : Token, token.IsOf text ∧ token.range.stop = part.range.stop) ∧
          ∀ inner ∈ part.nodes, ∀ range ∈ inner.ranges, part.range.encloses range = true) ∧
    ∀ (edits : List Edit) (pattern : SearchPattern) (scope : SearchScope) (found : List Match),
      (Searchable.ofWorkspace (Workspace.initial.afterAll edits)).search pattern scope = .ok found →
        ∀ m ∈ found, ∀ range, m.range = some range →
          ∃ id file inner, m.file = some id ∧
            (Workspace.initial.afterAll edits).source? id = some file ∧
            file.textAt? range = some inner ∧ m.source = some inner := by
  refine ⟨fun text unit hunit node hnode => ?_,
    fun edits pattern scope found hfound m hm range => ?_⟩
  · obtain ⟨border, hi, hread⟩ := parse_readIn hunit
    obtain ⟨hidents, hparts⟩ := hread.node_slices hnode
    refine ⟨hidents, fun part hpart => ?_⟩
    obtain ⟨htokens, hholds⟩ := hparts part hpart
    exact ⟨htokens.pos, htokens.stop_le, htokens.exists_slice, htokens.starts, htokens.ends, hholds⟩
  · obtain ⟨target, -, hlocated⟩ := bind_eq_ok_iff.1 hfound
    obtain rfl := Except.ok.inj hlocated
    obtain ⟨doc, -, hm⟩ := List.mem_flatMap.1 hm
    exact Searchable.exists_source_of_mem_locate (BoundWorkspace.isOver_ofWorkspace _)
      (Workspace.inStep_afterAll edits).files (List.mem_mergeSort.1 hm)

/-- A class that is named again after a character of two bytes. -/
def afterAccentText : String := "/* é */ class Y \x7b Y a(Y y) \x7b return y.a(y); \x7d \x7d"

/-- A project with the class. -/
def afterAccent : List Edit :=
  [.createProject ⟨"P", [""], [], none⟩, .createFile "/P/Y.java" afterAccentText]

/-- Both uses of the class show its name. -/
theorem slices_afterAccent :
    let ws := Workspace.initial.afterAll afterAccent
    ∃ unit found, parse afterAccentText = .ok unit ∧
      (Searchable.ofWorkspace ws).search ⟨.name .type none ⟨"Y", true⟩ none, .references⟩
        (.workspace ws) = .ok found ∧
      (found.map (·.source)).Perm [some "Y", some "Y"] ∧
      (∀ node ∈ Walk.unit unit, ∀ name ∈ node.idents,
        slice afterAccentText name.range = some name.text) ∧
      ∀ m ∈ found, ∀ range, m.range = some range →
        ∃ id file inner, m.file = some id ∧ ws.source? id = some file ∧
          file.textAt? range = some inner ∧ m.source = some inner := by
  intro ws
  let searchable := Searchable.ofWorkspace ws
  let target := Target.named .type none ⟨"Y", true⟩ none
  let docs := (SearchScope.workspace ws).documents.filter
    (Searchable.admits searchable.index target)
  have hfound : searchable.search ⟨.name .type none ⟨"Y", true⟩ none, .references⟩
      (.workspace ws) = .ok (Searchable.locateAll searchable.bound target .references docs) := rfl
  have hperm : (Searchable.locateAll searchable.bound target .references docs).Perm
      (docs.flatMap (Searchable.locate searchable.bound target .references)) :=
    .flatMap_left docs fun _ _ => List.mergeSort_perm _ _
  have hshown : (docs.flatMap (Searchable.locate searchable.bound target .references)).map
      (·.source) = [some "Y", some "Y"] := by
    decide +kernel
  obtain ⟨unit, hunit⟩ : ∃ unit, parse afterAccentText = .ok unit :=
    exists_eq_ok_of_isSome (by decide +kernel)
  exact ⟨unit, _, hunit, hfound, hshown ▸ hperm.map _,
    fun node hnode => (slices_afterAll.1 afterAccentText unit hunit node hnode).1,
    slices_afterAll.2 afterAccent _ (.workspace ws) _ hfound⟩

end SourceSearch
