import DBindings.Print.Expr

/-!
# Statements in D

A statement is printed at a depth: its first line stands where it is put, and every further line is
indented by four spaces for each level of the depth.

* `Stmt.print`         prints a statement at depth zero;
* `LocalVar.print`     prints the declaration of a variable without its semicolon.
-/

namespace DBindings

/-- A new line, indented to a depth. -/
def lineBreak (depth : Nat) : String := String.ofList ('\n' :: List.replicate (4 * depth) ' ')

namespace LocalVar

/-- The object is made by a constructor that is called without arguments. -/
def isDefaultConstructed (v : LocalVar) (init : Expr) : Bool :=
  v.style == .call && match init.ignoreImplicit with
    | .construct _ args false _ => (args.head?.map Expr.isDefaultArg).getD true
    | _ => false

/-- A variable.  D has no local references: a function that returns one stands in. -/
def print (cx : PrintContext) (v : LocalVar) : Printed :=
  let storage := if v.isStatic then "__gshared static " else ""
  let ty := v.ty.render cx.names
  let declared := storage ++ ty ++ " " ++ Identifier.sanitize v.name
  match v.init with
  | none => declared
  | some init =>
    if v.ty.isReference then (declared ++ "() \x7b return ") ++ init.print cx ++ "; \x7d"
    else if v.isDefaultConstructed init then declared
    else match v.style with
      | .call => (declared ++ " = " ++ ty ++ "(") ++ init.print cx ++ ")"
      | .c | .list => (declared ++ " = ") ++ init.print cx

def printAll (cx : PrintContext) (vars : List LocalVar) : Printed :=
  Printed.joined "; " (vars.map (print cx))

end LocalVar

namespace Stmt

def isIf : Stmt → Bool
  | ifThen .. => true
  | _ => false

/-- The body of a control statement: braces stay on its line, anything else goes one level deeper
on a line of its own. -/
def bodyText (depth : Nat) (body : Stmt) (at_ : Nat → Printed) : Printed :=
  if body.isCompound then " " ++ at_ depth else lineBreak (depth + 1) ++ at_ (depth + 1)

/-- What comes between a body and the rest of its statement. -/
def joint (depth : Nat) (body : Stmt) : String := if body.isCompound then " " else lineBreak depth

mutual

def printAt (cx : PrintContext) (depth : Nat) : Stmt → Printed
  | compound body => "\x7b" ++ printBlock cx (depth + 1) body ++ (lineBreak depth ++ "\x7d")
  | expr e => e.print cx ++ ";"
  | decl vars => LocalVar.printAll cx vars ++ ";"
  | ret none => "return;"
  | ret (some value) => "return " ++ value.print cx ++ ";"
  | ifThen cond yes none =>
    "if (" ++ cond.print cx ++ ")" ++ bodyText depth yes fun d => printAt cx d yes
  | ifThen cond yes (some no) =>
    "if (" ++ cond.print cx ++ ")" ++ (bodyText depth yes fun d => printAt cx d yes) ++
      (joint depth yes ++ "else") ++
      if no.isIf then " " ++ printAt cx depth no else bodyText depth no fun d => printAt cx d no
  | whileLoop cond body =>
    "while (" ++ cond.print cx ++ ")" ++ bodyText depth body fun d => printAt cx d body
  | doLoop body cond =>
    "do" ++ (bodyText depth body fun d => printAt cx d body) ++
      (joint depth body ++ "while (") ++ cond.print cx ++ ");"
  | forLoop init cond inc body =>
    let first : Printed := match init with
      | none => ""
      | some (decl vars) => LocalVar.printAll cx vars
      | some (expr e) => e.print cx
      | some other => printAt cx depth other
    let operand (e : Option Expr) : Printed := match e with
      | none => ""
      | some e => " " ++ e.print cx
    "for (" ++ first ++ ";" ++ operand cond ++ ";" ++ operand inc ++ ")" ++
      bodyText depth body fun d => printAt cx d body
  | switch cond body =>
    "switch (" ++ cond.print cx ++ ")" ++ bodyText depth body fun d => printAt cx d body
  | caseLabel value body =>
    "case " ++ value.print cx ++ ":" ++ bodyText depth body fun d => printAt cx d body
  | defaultLabel body => "default:" ++ bodyText depth body fun d => printAt cx d body
  | label name body => (name ++ ":" ++ lineBreak depth) ++ printAt cx depth body
  | goto name => "goto " ++ name ++ ";"
  | break_ => "break;"
  | continue_ => "continue;"
  | null => "\x7b\x7d"

/-- Prints each statement on a line of its own. -/
def printBlock (cx : PrintContext) (depth : Nat) : List Stmt → Printed
  | [] => Printed.empty
  | s :: rest => lineBreak depth ++ printAt cx depth s ++ printBlock cx depth rest

end

def print (cx : PrintContext) (s : Stmt) : Printed := s.printAt cx 0

end Stmt

end DBindings
