/-!
# The preamble of a module

Declares the attributes of records and fields and the mixin behind `.byRef`.
-/

namespace DBindings

/-- The lines at the start of a module. -/
def preambleLines : List String :=
  ["",
   "import core.stdc.config;",
   "import std.bitmanip : bitfields;",
   "import std.conv : emplace;",
   "",
   "bool isModuleAvailable(alias T)() \x7b",
   "    mixin(\"import \" ~ T ~ \";\");",
   "    static if (__traits(compiles, mixin(T).stringof))",
   "        return true;",
   "    else",
   "        return false;",
   "\x7d",
   "",
   "static if (__traits(compiles, isModuleAvailable!\"nsgen\" ))",
   "    static import nsgen;",
   "",
   "struct CppClassSizeAttr",
   "\x7b",
   "    alias size this;",
   "    size_t size;",
   "\x7d",
   "CppClassSizeAttr cppclasssize(size_t a) \x7b return CppClassSizeAttr(a); \x7d",
   "",
   "struct CppSizeAttr",
   "\x7b",
   "    alias size this;",
   "    size_t size;",
   "\x7d",
   "CppSizeAttr cppsize(size_t a) \x7b return CppSizeAttr(a); \x7d",
   "",
   "struct CppMethodAttr\x7b\x7d",
   "CppMethodAttr cppmethod() \x7b return CppMethodAttr(); \x7d",
   "",
   "struct PyExtract\x7b\x7d",
   "auto pyExtract(string name = null) \x7b return PyExtract(); \x7d",
   "",
   "mixin template RvalueRef()",
   "\x7b",
   "    alias T = typeof(this);",
   "    static assert (is(T == struct));",
   "",
   "    @nogc @safe",
   "    ref const(T) byRef() const pure nothrow return",
   "    \x7b",
   "        return this;",
   "    \x7d",
   "\x7d",
   ""]

def modulePreamble : String := String.join (preambleLines.map (· ++ "\n"))

end DBindings
