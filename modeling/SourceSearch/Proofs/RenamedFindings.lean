import SourceSearch.Proofs.RenamedTargets
import SourceSearch.Search.Finding

/-!
# Findings under other numbers

At a renamed place a renamed target has the same reference (`at?`), so a renamed file shows the same
findings in the same order (`findings`), and a renamed archive the same labels. A match shows numbers
nowhere but in its file: apart from that the matches in renamed documents are the same (`inSource`,
`inArchive`).
-/

set_option autoImplicit false

namespace SourceSearch

namespace Renaming

variable (r : Renaming)

def coverage : Coverage → Coverage
  | .all => .all
  | .types keys => .types (keys.map r.key)

def documentId : DocumentId → DocumentId
  | .source file => .source (r.file file)
  | .archive id => .archive id

def document (doc : Document) : Document :=
  { doc with id := r.documentId doc.id, coverage := r.coverage doc.coverage }

def found (found : Match) : Match := { found with file := found.file.map r.file }

@[simp] theorem encloses_coverage (coverage : Coverage) (around : List TypeKey) :
    (r.coverage coverage).encloses (around.map r.key) = coverage.encloses around := by
  cases coverage with
  | all => rfl
  | types keys =>
    simp only [Coverage.encloses, Renaming.coverage, List.any_map]
    congr 1
    funext key
    exact r.contains_map_key keys key

theorem declarations_target (target : Target) (info : DeclaredType) (decl : TypeDecl) :
    (r.target target).declarations (r.info info) decl = target.declarations info decl := by
  simp only [Target.declarations, r.info_key, r.isType_target, r.isMethodOf_target,
    r.isFieldOf_target]
  rfl

end Renaming

namespace BoundWorkspace.RenamedBy

variable {r : Renaming} {s s' : BoundWorkspace} {scope scope' : NameScope}

/-! ## References -/

theorem inTypeRef? (h : s.RenamedBy r s') (hscope : scope.RenamedBy r scope') (target : Target)
    (ref : TypeRef) : (r.target target).inTypeRef? s' scope' ref = target.inTypeRef? s scope ref := by
  rw [Target.inTypeRef?, h.typeOfRef? hscope, r.typeAccuracy?_target, Target.inTypeRef?]

theorem inName? (h : s.RenamedBy r s') (hscope : scope.RenamedBy r scope') (target : Target)
    (locals : Locals) (name : Ident) :
    (r.target target).inName? s' scope' (r.locals locals) name =
      target.inName? s scope locals name := by
  simp only [Target.inName?, r.kind_target, h.meaningOfName hscope, h.fieldAround? hscope,
    r.get?_locals, Option.isSome_map]
  congr 1
  generalize target.kind = kind
  cases s.meaningOfName scope locals name.text with
  | value type =>
    cases kind with
    | field =>
      simp only [Renaming.meaning]
      rw [r.fieldAccuracy?_target]
    | _ => rfl
  | type key =>
    cases kind with
    | type => exact r.typeUse?_target target key
    | _ => rfl
  | package package => cases kind <;> rfl
  | unknown =>
    cases kind with
    | type => exact r.typeAccuracy?_target target none [name.text]
    | field => exact r.fieldAccuracy?_target target none name.text true
    | method => rfl

theorem memberUse? (h : s.RenamedBy r s') (target : Target) (before : Meaning) (name : String) :
    (r.target target).memberUse? s' (r.meaning before) name = target.memberUse? s before name := by
  have hbound : ∀ key : TypeKey,
      (r.target target).fieldAccuracy? (s'.field? (r.key key) name) name false =
        target.fieldAccuracy? (s.field? key name) name false := by
    intro key
    rw [h.field?, r.fieldAccuracy?_target]
  have hunbound := r.fieldAccuracy?_target target none name true
  cases before with
  | value type =>
    cases type with
    | named key => exact hbound key
    | unresolved name => exact hunbound
    | unknown => exact hunbound
    | _ => rfl
  | type key => exact hbound key
  | package package => rfl
  | unknown => exact hunbound

theorem inFieldAccess? (h : s.RenamedBy r s') (hscope : scope.RenamedBy r scope')
    (target : Target) (locals : Locals) (range : TextRange) (qualifier : Expr) (name : Ident) :
    (r.target target).inFieldAccess? s' scope' (r.locals locals) range qualifier name =
      target.inFieldAccess? s scope locals range qualifier name := by
  simp only [Target.inFieldAccess?, r.kind_target, h.meaning hscope, h.meaningOfMember hscope,
    h.memberUse?]
  generalize target.kind = kind
  cases s.meaningOfMember scope (s.meaning scope locals qualifier) name.text with
  | type key =>
    cases kind with
    | type => exact congrArg (Occurrence.at? range) (r.typeUse?_target target key)
    | _ => rfl
  | _ => cases kind <;> rfl

theorem inCall? (h : s.RenamedBy r s') (hscope : scope.RenamedBy r scope') (target : Target)
    (locals : Locals) (range : TextRange) (receiver : Option Expr) (name : Ident)
    (args : List Expr) :
    (r.target target).inCall? s' scope' (r.locals locals) range receiver name args =
      target.inCall? s scope locals range receiver name args := by
  rw [Target.inCall?, h.call hscope, r.callAccuracy?_target, Target.inCall?]

theorem constructorUse? (h : s.RenamedBy r s') (hscope : scope.RenamedBy r scope')
    (target : Target) (locals : Locals) (owner : Option TypeKey) (written : String)
    (args : List Expr) :
    (r.target target).constructorUse? s' scope' (r.locals locals) (owner.map r.key) written args =
      target.constructorUse? s scope locals owner written args := by
  have hbinding : ((owner.map r.key).bind fun key =>
      s'.constructor? key (s'.types scope' (r.locals locals) args)) =
      (owner.bind fun key => s.constructor? key (s.types scope locals args)).map
        r.boundMethod := by
    rw [Option.bind_map, Option.map_bind, h.types hscope]
    congr 1
    funext key
    exact h.constructor? key _
  rw [Target.constructorUse?, hbinding, h.constructorAccuracy?, Target.constructorUse?]

theorem calledOwner? (h : s.RenamedBy r s') (hscope : scope.RenamedBy r scope')
    (isSuper : Bool) :
    Target.calledOwner? s' scope' isSuper = (Target.calledOwner? s scope isSuper).map r.key := by
  unfold Target.calledOwner?
  rw [hscope.enclosing]
  split
  · rw [Option.bind_map, Option.map_bind]
    congr 1
    funext key
    exact h.superclass? key
  · rfl

theorem refReceiver? (r : Renaming) (meaning : Meaning) :
    Target.refReceiver? (r.meaning meaning) = (Target.refReceiver? meaning).map r.key := by
  cases meaning with
  | value type => cases type <;> rfl
  | _ => rfl

theorem inExpr? (h : s.RenamedBy r s') (hscope : scope.RenamedBy r scope') (target : Target)
    (locals : Locals) (e : Expr) :
    (r.target target).inExpr? s' scope' (r.locals locals) e = target.inExpr? s scope locals e := by
  obtain ⟨kind, range⟩ := e
  simp only [Target.inExpr?, r.kind_target]
  generalize target.kind = wanted
  cases kind with
  | name name =>
    have hname := h.inName? hscope target locals name
    cases wanted <;> exact hname
  | fieldAccess qualifier name =>
    have haccess := h.inFieldAccess? hscope target locals range qualifier name
    cases wanted <;> exact haccess
  | call receiver name args =>
    cases wanted with
    | method => exact h.inCall? hscope target locals range receiver name args
    | _ => rfl
  | new created args body =>
    cases wanted with
    | method =>
      dsimp only
      rw [h.typeOfRef? hscope, h.constructorUse? hscope]
    | _ => rfl
  | constructorCall isSuper args =>
    cases wanted with
    | method =>
      dsimp only
      rw [h.calledOwner? hscope, h.constructorUse? hscope]
    | _ => rfl
  | methodRef receiver name =>
    cases wanted with
    | method =>
      dsimp only
      rw [h.meaning hscope, refReceiver?, r.methodRefAccuracy?_target]
    | _ => rfl
  | _ => cases wanted <;> rfl

/-- **The reference at a place** is the same. -/
theorem at? (h : s.RenamedBy r s') (hscope : scope.RenamedBy r scope') (target : Target)
    (place : Place) :
    (r.target target).at? s' scope' (r.place place) = target.at? s scope place := by
  cases place with
  | expr locals e => exact h.inExpr? hscope target locals e
  | typeRef ref =>
    simp only [Target.at?, r.place_typeRef, r.kind_target, h.inTypeRef? hscope]

/-! ## Types -/

theorem inHead (h : s.RenamedBy r s') (hscope : scope.RenamedBy r scope') (target : Target)
    (head : TypeHead) : (r.target target).inHead s' scope' head = target.inHead s scope head := by
  simp only [Target.inHead, h.typeOfRef? hscope, r.typeAccuracy?_target]

theorem implementors (h : s.RenamedBy r s') (hscope : scope.RenamedBy r scope') (target : Target)
    (info : DeclaredType) (decl : TypeDecl) :
    (r.target target).implementors s' scope' (r.info info) decl =
      target.implementors s scope info decl := by
  rw [Target.implementors, h.inHead hscope, Target.implementors]
  rfl

theorem findingPlaces (h : s.RenamedBy r s') (hscope : scope.RenamedBy r scope')
    (info : DeclaredType) (kind : TypeDeclKind) (m : Member) :
    Target.memberPlaces s' scope' (r.info info) kind m =
      (Target.memberPlaces s scope info kind m).map fun e => (e.1, e.2.map r.place) := by
  have hplaces := h.memberPlaces hscope .none m
  cases m with
  | type decl => rfl
  | method head body => exact congrArg (fun places => some (_, places)) hplaces
  | field head init => exact congrArg (fun places => some (_, places)) hplaces
  | initializer isStatic body range => exact congrArg (fun places => some (_, places)) hplaces

theorem references (h : s.RenamedBy r s') {outside outside' inside inside' : NameScope}
    (houtside : outside.RenamedBy r outside') (hinside : inside.RenamedBy r inside')
    (target : Target) (info : DeclaredType) (decl : TypeDecl) :
    (r.target target).references s' outside' inside' (r.info info) decl =
      target.references s outside inside info decl := by
  have hheads : ∀ refs : List TypeRef,
      (refs.map Place.typeRef).filterMap ((r.target target).at? s' outside') =
        (refs.map Place.typeRef).filterMap (target.at? s outside) := by
    intro refs
    rw [← r.map_place_typeRef, List.filterMap_map, r.map_place_typeRef]
    exact List.filterMap_congr fun place _ => h.at? houtside target place
  have hplaces : ∀ places : List Place,
      (places.map r.place).filterMap ((r.target target).at? s' inside') =
        places.filterMap (target.at? s inside) := by
    intro places
    rw [List.filterMap_map]
    exact List.filterMap_congr fun place _ => h.at? hinside target place
  have hmembers : decl.members.filterMap (Target.memberPlaces s' inside' (r.info info) decl.head.kind) =
      (decl.members.filterMap (Target.memberPlaces s inside info decl.head.kind)).map
        fun e => (e.1, e.2.map r.place) := by
    rw [List.map_filterMap]
    exact List.filterMap_congr fun m _ => h.findingPlaces hinside info decl.head.kind m
  simp only [Target.references, hheads, hmembers, List.flatMap_map, hplaces]
  rfl

theorem inType (h : s.RenamedBy r s') (hscope : scope.RenamedBy r scope') (target : Target)
    (limitTo : LimitTo) (info : DeclaredType) :
    (r.target target).inType s' limitTo scope' (r.info info) =
      target.inType s limitTo scope info := by
  have houtside : (scope.inside (info.outer.map fun name => ⟨info.key.origin, name⟩)).RenamedBy r
      (scope'.inside ((r.info info).outer.map fun name => ⟨(r.info info).key.origin, name⟩)) := by
    have hrel := hscope.inside (info.outer.map fun name => ⟨info.key.origin, name⟩)
    rw [Option.map_map] at hrel
    exact hrel
  have hinside : (scope.inside (some info.key)).RenamedBy r
      (scope'.inside (some (r.info info).key)) := hscope.inside (some info.key)
  unfold Target.inType
  rw [hscope.unit, show (r.info info).decl? scope.unit = info.decl? scope.unit from rfl]
  cases info.decl? scope.unit with
  | none => rfl
  | some decl =>
    dsimp only
    rw [r.declarations_target, h.references houtside hinside, h.implementors houtside]

/-! ## Source files -/

theorem inImports (hscope : scope.RenamedBy r scope') (target : Target) :
    (r.target target).inImports scope' = target.inImports scope := by
  have himport : ∀ i : ImportDecl,
      (r.target target).inImport? scope' i = target.inImport? scope i := by
    intro i
    simp only [Target.inImport?, hscope.env.lookup?, r.typeAccuracy?_target]
  simp only [Target.inImports, r.kind_target, hscope.unit]
  split
  · exact List.filterMap_congr fun i _ => himport i
  · rfl

/-- The types that count in a document are the same. -/
theorem filter_encloses (h : s.RenamedBy r s') (coverage : Coverage) (infos : List DeclaredType) :
    ((infos.map r.info).filter fun info =>
        (r.coverage coverage).encloses (s'.enclosingChain (some info.key))) =
      (infos.filter fun info => coverage.encloses (s.enclosingChain (some info.key))).map
        r.info := by
  rw [List.filter_map]
  congr 1
  apply List.filter_congr
  intro info _
  have hchain := h.enclosingChain (some info.key)
  rw [Option.map_some] at hchain
  rw [Function.comp, r.info_key, hchain, r.encloses_coverage]

/-- **The findings in a file** are the same. -/
theorem findings (h : s.RenamedBy r s') (target : Target) (limitTo : LimitTo)
    (coverage : Coverage) (file : SourceFile) :
    (r.target target).findings s' limitTo (r.coverage coverage) (r.source file) =
      target.findings s limitTo coverage file := by
  have hscope := h.scope? file none
  rw [Option.map_none] at hscope
  unfold Target.findings
  generalize s.scope? file none = found, s'.scope? (r.source file) none = found' at hscope
  cases hscope with
  | none => rfl
  | @some scope scope' hscope =>
    have himports : (r.coverage coverage).encloses [] = coverage.encloses [] :=
      r.encloses_coverage coverage []
    dsimp only
    rw [himports, inImports hscope, Renaming.source, h.filter_encloses, List.flatMap_map]
    congr 2
    funext info
    exact h.inType hscope target limitTo info

/-- **The matches in a file** are the same but for the number of the file. -/
theorem inSource (h : s.RenamedBy r s') (target : Target) (limitTo : LimitTo) (doc : Document)
    (file : SourceFile) :
    (r.target target).inSource s' limitTo (r.document doc) (r.source file) =
      (target.inSource s limitTo doc file).map r.found := by
  rw [Target.inSource, show (r.document doc).coverage = r.coverage doc.coverage from rfl,
    h.findings, Target.inSource, List.map_map]
  rfl

/-! ## Archives -/

theorem inBinaryType (h : s.RenamedBy r s') (target : Target) (limitTo : LimitTo)
    (info : DeclaredType) :
    (r.target target).inBinaryType s' limitTo (r.info info) =
      target.inBinaryType s limitTo info := by
  have himplementor : (r.target target).isBinaryImplementor s' (r.info info) =
      target.isBinaryImplementor s info := by
    have href : ∀ ref : TypeRef,
        (s'.typeOfMemberRef? (r.info info).key ref).any (r.target target).isType =
          (s.typeOfMemberRef? info.key ref).any target.isType := by
      intro ref
      rw [r.info_key, h.typeOfMemberRef?, Option.any_map]
      congr 1
      funext key
      exact r.isType_target target key
    simp only [Target.isBinaryImplementor, href]
    rfl
  have hdeclarations : (r.target target).binaryDeclarations (r.info info) =
      target.binaryDeclarations info := by
    simp only [Target.binaryDeclarations, r.kind_target, r.info_key, r.isType_target]
    have hmethods : (r.target target).isMethodOf (r.info info) = target.isMethodOf info := by
      funext m
      exact r.isMethodOf_target target info m
    have hfields : (r.target target).isFieldOf (r.info info) = target.isFieldOf info := by
      funext f
      exact r.isFieldOf_target target info f
    rw [hmethods, hfields]
    rfl
  rw [Target.inBinaryType, himplementor, hdeclarations, Target.inBinaryType]
  rfl

/-- **The matches in an archive** are the same. -/
theorem inArchive (h : s.RenamedBy r s') (target : Target) (limitTo : LimitTo) (doc : Document)
    (archive : Archive) :
    (r.target target).inArchive s' limitTo (r.document doc) (r.archive archive) =
      (target.inArchive s limitTo doc archive).map r.found := by
  have hsorted : ((r.archive archive).types.mergeSort
      fun a b => decide (a.qualifiedName ≤ b.qualifiedName)) =
      (archive.types.mergeSort fun a b => decide (a.qualifiedName ≤ b.qualifiedName)).map
        r.info := by
    symm
    apply List.map_mergeSort
    intro a _ b _
    rfl
  rw [Target.inArchive, hsorted, show (r.document doc).coverage = r.coverage doc.coverage from rfl]
  rw [h.filter_encloses, List.flatMap_map, Target.inArchive, List.map_flatMap]
  congr 1
  funext info
  rw [h.inBinaryType, List.map_map]
  rfl

end BoundWorkspace.RenamedBy

end SourceSearch
