import DBindings.Tree.Expr

/-!
# Statements of inline bodies
-/

namespace DBindings

/-- How a variable is initialized: `T x = init`, `T x(args)` or `T x{args}`. -/
inductive InitStyle where
  | c | call | list
  deriving Repr, DecidableEq, Inhabited

structure LocalVar where
  name : String
  ty : Ty
  isStatic : Bool := false
  init : Option Expr := none
  style : InitStyle := .c
  deriving Inhabited

inductive Stmt where
  | compound (body : List Stmt)
  | expr (e : Expr)
  | decl (vars : List LocalVar)
  | ret (value : Option Expr)
  | ifThen (cond : Expr) (yes : Stmt) (no : Option Stmt)
  | whileLoop (cond : Expr) (body : Stmt)
  | doLoop (body : Stmt) (cond : Expr)
  | forLoop (init : Option Stmt) (cond inc : Option Expr) (body : Stmt)
  | switch (cond : Expr) (body : Stmt)
  | caseLabel (value : Expr) (body : Stmt)
  | defaultLabel (body : Stmt)
  | label (name : String) (body : Stmt)
  | goto (name : String)
  | break_
  | continue_
  | null
  deriving Inhabited

namespace Stmt

def isCompound : Stmt → Bool
  | compound _ => true
  | _ => false

/-- The statement is `{}`. -/
def isEmptyCompound : Stmt → Bool
  | compound [] => true
  | _ => false

end Stmt

end DBindings
