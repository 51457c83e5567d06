import SourceSearch.Binding.Expressions
import SourceSearch.Binding.Hierarchy
import SourceSearch.Search.Match
import SourceSearch.Search.Pattern

/-!
# Targets

A target is a pattern bound to a workspace: the element is known to exist, and the hierarchy of a
method's type is at hand. A target decides of each declaration, call or name whether it is an
occurrence, and how sure that is.

A name that binds to nothing is still an inaccurate occurrence if it could stand for the target.
-/

set_option autoImplicit false

namespace SourceSearch

/-- What a search looks for in a workspace; for a method, the hierarchy of its type too. -/
inductive Target
  | type (key : TypeKey)
  | method (handle : MethodHandle) (hierarchy : TypeHierarchy)
  | field (handle : FieldHandle)
  | named (kind : ElementKind) (qualifier : Option NamePattern) (name : NamePattern)
      (params : Option (List String))
  deriving DecidableEq, Repr

/-- Whether the type declares a constructor. -/
def DeclaredType.hasConstructor (info : DeclaredType) : Bool := info.methods.any (·.isConstructor)

/-- Whether the handle is that of a method which the type declares, or of the constructor that a
type without constructors has. -/
def DeclaredType.hasMethod (info : DeclaredType) (handle : MethodHandle) : Bool :=
  info.methods.any (fun m => m.handle info.key == handle) ||
    (handle.isConstructor && handle.params.isEmpty && !info.hasConstructor)

namespace Target

/-- The kind of element that is looked for. -/
def kind : Target → ElementKind
  | .type _ => .type
  | .method _ _ => .method
  | .field _ => .field
  | .named kind _ _ _ => kind

/-- A word that a document with an occurrence is expected to hold. -/
def indexWord? : Target → Option String
  | .type key => some key.simpleName
  | .method handle _ => some handle.selector
  | .field handle => some handle.name
  | .named _ _ name _ => name.exactWord?

/-- The target of what a pattern looks for. -/
def bind (s : BoundWorkspace) : Subject → Except Error Target
  | .type key =>
    if (s.declared? key).isSome then .ok (.type key)
    else .error (.elementNotFound key.qualifiedName)
  | .method handle =>
    if (s.declared? handle.owner).any (·.hasMethod handle) then
      .ok (.method handle (s.hierarchy handle.owner))
    else .error (.elementNotFound handle.describe)
  | .field handle =>
    if (s.declared? handle.owner).any fun info => (info.field? handle.name).isSome then
      .ok (.field handle)
    else .error (.elementNotFound handle.describe)
  | .name kind qualifier name params => .ok (.named kind qualifier name params)

/-- The target of a pattern. Only types have implementors. -/
def ofPattern (s : BoundWorkspace) (pattern : SearchPattern) : Except Error Target := do
  let target ← bind s pattern.subject
  if pattern.limitTo = .implementors ∧ target.kind ≠ .type then
    throw (.invalidPattern "implementors can only be searched for types")
  return target

/-- Whether an optional pattern matches; one that is missing matches everything. -/
def allows (pattern : Option NamePattern) (name : String) : Bool :=
  pattern.all (·.matches? name)

/-- Whether a type meets the qualifier of a member: a dotted one is its whole name, a plain one its
simple name. -/
def ownerAllowed (qualifier : Option NamePattern) (owner : TypeKey) : Bool :=
  qualifier.all fun q =>
    q.matches? (if '.' ∈ q.text.toList then owner.qualifiedName else owner.simpleName)

/-- Whether parameters are allowed; those that are not given are. -/
def paramsAllowed (params : Option (List String)) (method : DeclaredMethod) : Bool :=
  params.all (· == method.erasedParams)

/-! ## Types -/

/-- Whether a type is the target. -/
def isType (target : Target) (key : TypeKey) : Bool :=
  match target with
  | .type wanted => wanted == key
  | .named .type qualifier name _ =>
    name.matches? key.simpleName && allows qualifier key.qualifier
  | _ => false

/-- Whether a written name of a type that binds to nothing could stand for the target. -/
def couldBeType (target : Target) (segments : List String) : Bool :=
  match segments.getLast? with
  | none => false
  | some last =>
    match target with
    | .type wanted => wanted.simpleName == last
    | .named .type qualifier name _ =>
      name.matches? last &&
        (segments.dropLast.isEmpty || allows qualifier (".".intercalate segments.dropLast))
    | _ => false

/-- How sure it is that a written name of a type, with what it binds to, is an occurrence. -/
def typeAccuracy? (target : Target) (bound : Option TypeKey) (segments : List String) :
    Option Accuracy :=
  match bound with
  | some key => if target.isType key then some .exact else none
  | none => if target.couldBeType segments then some .inaccurate else none

/-! ## Declarations of members -/

/-- Whether the declaration of a method is an occurrence: it is the target or overrides it. -/
def isMethodOf (target : Target) (owner : DeclaredType) (m : DeclaredMethod) : Bool :=
  match target with
  | .method wanted hierarchy =>
    let candidate := m.handle owner.key
    candidate == wanted ||
      (!m.isConstructor && hierarchy.isSubtype owner.key &&
        candidate.selector == wanted.selector && candidate.params == wanted.params)
  | .named .method qualifier name params =>
    !m.isConstructor && name.matches? m.name && ownerAllowed qualifier owner.key &&
      paramsAllowed params m
  | _ => false

/-- Whether the declaration of a field is an occurrence. -/
def isFieldOf (target : Target) (owner : DeclaredType) (f : DeclaredField) : Bool :=
  match target with
  | .field wanted => f.handle owner.key == wanted
  | .named .field qualifier name _ => name.matches? f.name && ownerAllowed qualifier owner.key
  | _ => false

/-! ## Uses of members -/

/-- How sure it is that a call is an occurrence. A call of an overridden or overriding method counts
when its receiver is in the hierarchy too, and an unbound call when it has as many arguments. -/
def callAccuracy? (target : Target) (call : BoundCall) (selector : String) (arity : Nat) :
    Option Accuracy :=
  match target with
  | .method wanted hierarchy =>
    if wanted.isConstructor || selector != wanted.selector then none
    else
      match call.method with
      | some binding =>
        let bound := binding.handle
        let inHierarchy := bound.selector == wanted.selector && bound.params == wanted.params &&
          hierarchy.contains bound.owner && call.receiver.any hierarchy.contains
        if bound == wanted || inHierarchy then some .exact else none
      | none =>
        if arity == wanted.arity && call.receiver.all hierarchy.contains then some .inaccurate
        else none
  | .named .method qualifier name params =>
    if !name.matches? selector then none
    else
      match call.method with
      | some binding =>
        if ownerAllowed qualifier binding.owner.key && paramsAllowed params binding.method then
          some .exact
        else none
      | none => if params.all (·.length == arity) then some .inaccurate else none
  | _ => none

/-- How sure it is that a method reference is an occurrence. Which of several methods is meant
cannot be told from the reference, so it never is exact. -/
def methodRefAccuracy? (target : Target) (receiver : Option TypeKey) (selector : String) :
    Option Accuracy :=
  let counts : Bool :=
    match target with
    | .method wanted hierarchy =>
      if wanted.isConstructor then selector == "new" && receiver == some wanted.owner
      else selector == wanted.selector && receiver.all hierarchy.contains
    | .named .method qualifier name _ =>
      selector != "new" && name.matches? selector && receiver.all (ownerAllowed qualifier)
    | _ => false
  if counts then some .inaccurate else none

/-- How sure it is that a call of a constructor is an occurrence. Only a constructor itself can be
looked for. A type that binds to nothing counts by its written name. -/
def constructorAccuracy? (target : Target) (s : BoundWorkspace) (owner : Option TypeKey)
    (binding : Option BoundMethod) (written : String) (arity : Nat) : Option Accuracy :=
  match target with
  | .method wanted _ =>
    if !wanted.isConstructor then none
    else
      match owner with
      | none =>
        if written == wanted.owner.simpleName && arity == wanted.arity then some .inaccurate
        else none
      | some key =>
        if key != wanted.owner then none
        else
          match binding with
          | some bound => if bound.handle == wanted then some .exact else none
          | none =>
            if arity != wanted.arity then none
            else if (s.declared? key).any (!·.hasConstructor) then some .exact
            else some .inaccurate
  | _ => none

/-- How sure it is that the use of a field is an occurrence. An unbound use counts by its name if it
could not be told where the field is looked for. -/
def fieldAccuracy? (target : Target) (binding : Option BoundField) (used : String)
    (untyped : Bool) : Option Accuracy :=
  match target with
  | .field wanted =>
    match binding with
    | some bound => if bound.field.handle bound.owner.key == wanted then some .exact else none
    | none => if untyped && used == wanted.name then some .inaccurate else none
  | .named .field qualifier name _ =>
    if !name.matches? used then none
    else
      match binding with
      | some bound => if ownerAllowed qualifier bound.owner.key then some .exact else none
      | none => if untyped then some .inaccurate else none
  | _ => none

end Target

end SourceSearch
