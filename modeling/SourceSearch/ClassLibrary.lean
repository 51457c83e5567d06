import SourceSearch.Archive

/-!
# The built-in class library

Every workspace has one archive from the start: the types that all code knows, in the package
`java.lang` of the base module.
-/

set_option autoImplicit false

namespace SourceSearch.ClassLibrary

/-- The path of the archive. -/
def path : String := "/JCL/jclMin.jar"

/-- The variable that names the archive. -/
def variableName : String := "JCL_LIB"

/-- A source text from its lines. -/
def lines (parts : List String) : String := "\n".intercalate parts

/-- The source texts of the library, in order. -/
def sources : List String := [
  lines [
    "package java.lang;",
    "        public class Object \x7b",
    "            public Object() \x7b\x7d",
    "            public boolean equals(Object obj);",
    "            public native int hashCode();",
    "            public String toString();",
    "            public final native Class getClass();",
    "            protected native Object clone() throws CloneNotSupportedException;",
    "        \x7d"],
  lines [
    "package java.lang;",
    "        public final class String \x7b",
    "            public String() \x7b\x7d",
    "            public String(String contents) \x7b\x7d",
    "            public int length();",
    "            public char charAt(int index);",
    "            public boolean equals(Object anObject);",
    "            public String substring(int beginIndex);",
    "            public String concat(String str);",
    "            public static String valueOf(Object obj);",
    "        \x7d"],
  lines [
    "package java.lang;",
    "        public final class Class \x7b",
    "            public String getName();",
    "        \x7d"],
  lines [
    "package java.lang;",
    "        public class Throwable \x7b",
    "            public Throwable() \x7b\x7d",
    "            public Throwable(String message) \x7b\x7d",
    "            public String getMessage();",
    "            public void printStackTrace();",
    "        \x7d"],
  lines [
    "package java.lang;",
    "        public class Exception extends Throwable \x7b",
    "            public Exception() \x7b\x7d",
    "            public Exception(String message) \x7b\x7d",
    "        \x7d"],
  lines [
    "package java.lang;",
    "        public class CloneNotSupportedException extends Exception \x7b\x7d"],
  lines [
    "package java.lang;",
    "        public class RuntimeException extends Exception \x7b",
    "            public RuntimeException() \x7b\x7d",
    "            public RuntimeException(String message) \x7b\x7d",
    "        \x7d"],
  lines [
    "package java.lang;",
    "        public class Error extends Throwable \x7b",
    "            public Error() \x7b\x7d",
    "        \x7d"]]

/-- The trees of the library. -/
def units : List CompilationUnit := sources.filterMap fun text => (parse text).toOption

/-- The base module. -/
def baseDescription : ModuleDescription := ⟨baseModule, [], ["java.lang"]⟩

/-- The library as an archive. -/
def archive (id : ArchiveId) : Archive := .ofUnits id path units (some baseDescription)

end SourceSearch.ClassLibrary
