import DBindings.Emit.State
import DBindings.Text.Lines

/-!
# Functions

* `Param.print`, `TemplateParam.print`   parameters with their default values;
* `definition`            a signature with its body, or with a semicolon;
* `Function.freeBlock`    a function that is no member.
-/

namespace DBindings

/-- A parameter.  A default value for a reference is a temporary, which is passed by `.byRef`. -/
def Param.print (names : NameTable) (p : Param) : Printed :=
  let head := p.ty.render names ++ match p.name with
    | some name => if name = "" then "" else " " ++ Identifier.sanitize name
    | none => ""
  match p.default with
  | none => head
  | some value =>
    if p.ty.isPointer && value.isNullPointerConstant then head ++ " = null"
    else if p.ty.isReference then
      (head ++ " = ") ++ (value.print { names }).byRef names value (some p.ty)
    else (head ++ " = ") ++ value.print { names }

/-- A template parameter: a name, or a type, a name and a default value. -/
def TemplateParam.print (names : NameTable) (p : TemplateParam) : Printed :=
  match p.nonType with
  | none => p.name
  | some ty =>
    let head := ty.render names ++ " " ++ p.name
    match p.default with
    | none => head
    | some value => (head ++ " = ") ++ value.print { names }

def TemplateParam.printAll (names : NameTable) (ps : List TemplateParam) : Printed :=
  Printed.joined ", " (ps.map (print names))

/-- The parameter list without its parentheses. -/
def Function.printParams (names : NameTable) (f : Function) : Printed :=
  Printed.joined ", " (f.params.map (Param.print names) ++
    if f.variadic then [Printed.ofText "..."] else [])

namespace Block

instance : Append Block := ⟨fun a b => ⟨a.lines ++ b.lines, a.requests ++ b.requests⟩⟩

def ofLines (lines : List String) : Block := ⟨lines, []⟩

end Block

/-- A line of a body: D has a dot for the scope and arrow symbols of C++. -/
def bodyLine (commentOut : Bool) (line : String) : String :=
  let line := Text.dottedArrows (Text.dotted line)
  if commentOut then "//" ++ line else line

/-- The lines of a body; initializers stand before it in a block of their own. -/
def bodyLines (initializers : List String) (body : Option String) : List String :=
  match initializers, body with
  | [], body => Text.lines (body.getD "")
  | inits, body =>
    ["\x7b", "    // initializer list"] ++ inits.map ("    " ++ ·) ++
      (match body with
        | some text => "    // ctor body" :: (Text.lines text).map ("    " ++ ·)
        | none => []) ++ ["\x7d"]

/-- A signature followed by the body, or by a semicolon if there is nothing to write. -/
def definition (cx : PrintContext) (signature : String) (body : Option Stmt)
    (initializers : List String) (commentOut : Bool) : Block :=
  match body with
  | none => .ofLines [signature ++ ";"]
  | some body =>
    if body.isEmptyCompound then
      if initializers.isEmpty then .ofLines [signature ++ ";"]
      else .ofLines (signature :: (bodyLines initializers none).map (bodyLine commentOut))
    else
      let p := body.print cx
      ⟨signature :: (bodyLines initializers (some p.text)).map (bodyLine commentOut), p.requests⟩

/-- The template parameters of a function outside records, if it is a template. -/
def Function.templateList (names : NameTable) (f : Function) : Printed :=
  match f.templateParams with
  | some ps => "(" ++ TemplateParam.printAll names ps ++ ")"
  | none => ""

/-- The signature of a function outside records: result, name and parameters. -/
def Function.freeSignature (env : EmitEnv) (name : String) (f : Function) : Printed :=
  (env.render f.returnType ++ " " ++ Identifier.sanitize name) ++ f.templateList env.names ++
    "(" ++ f.printParams env.names ++ (")" ++ env.functionSuffix)

/-- A function outside records: its signature and its body. -/
def Function.freeBlock (env : EmitEnv) (name : String) (f : Function) : Block :=
  let signature := f.freeSignature env name
  ⟨[], signature.requests⟩ ++
    definition { env.print with pointerReturn := f.returnType.isPointer } signature.text
      f.inlineBody? [] false

end DBindings
