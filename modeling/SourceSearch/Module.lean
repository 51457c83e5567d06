/-!
# Modules

A named module requires modules and exports packages. A lookup is made for a reader: code of a named
module, which reads itself, the base module and what it requires, or code outside of named modules,
which reads them all.
-/

set_option autoImplicit false

namespace SourceSearch

/-- What a named module declares. -/
structure ModuleDescription where
  name : String
  requires : List String
  exports : List String
  deriving DecidableEq, Repr

/-- Whether readers of the module see the package. -/
def ModuleDescription.exportsPackage (module : ModuleDescription) (package : String) : Bool :=
  module.exports.contains package

/-- The module that every named module reads. -/
def baseModule : String := "java.base"

/-- Who asks. -/
inductive Reader
  | unnamed
  | named (name : String) (requires : List String)
  deriving DecidableEq, Repr

namespace Reader

/-- Code of the described module, or of no named module. -/
def ofModule : Option ModuleDescription → Reader
  | some module => .named module.name module.requires
  | none => .unnamed

/-- The name of the module that asks. -/
def moduleName? : Reader → Option String
  | .unnamed => none
  | .named name _ => some name

/-- Whether the reader may read the named module. -/
def reads (reader : Reader) (module : String) : Bool :=
  match reader with
  | .unnamed => true
  | .named name requires => module == name || module == baseModule || requires.contains module

/-- Whether the reader sees a package of a provider. The unnamed module is seen only from itself; a
named module is seen as a whole from itself, and its exported packages by those who read it. -/
def sees (reader : Reader) (provider : Option ModuleDescription) (package : String) : Bool :=
  match provider with
  | none => reader.moduleName?.isNone
  | some module =>
    reader.moduleName? == some module.name ||
      (module.exportsPackage package && reader.reads module.name)

end Reader

end SourceSearch
