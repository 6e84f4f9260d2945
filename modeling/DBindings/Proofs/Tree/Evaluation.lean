import DBindings.Tree.Expr

/-!
# The calls that an expression makes

Logical operators, the comma and the conditional operator evaluate their operands from the left, and
some of them only if they are needed.  An expression is evaluated as far as that goes; what the rest
of it does is a parameter.

* `Outcome`     a value, the state that is left and the calls made so far;
* `Evaluator`   what the language or the program leaves open;
* `Expr.eval`   the outcome of an expression.
-/

namespace DBindings

/-- What comes of an evaluation.  A call is counted when it is made, whether it returns or not. -/
structure Outcome (σ α : Type) where
  value : α
  state : σ
  /-- the calls that have been made, in their order -/
  calls : List Expr

namespace Outcome

variable {σ α β : Type}

def map (f : α → β) (o : Outcome σ α) : Outcome σ β := ⟨f o.value, o.state, o.calls⟩

/-- Goes on with the value from the state that is left. -/
def andThen (o : Outcome σ α) (next : α → σ → Outcome σ β) : Outcome σ β :=
  let rest := next o.value o.state
  ⟨rest.value, rest.state, o.calls ++ rest.calls⟩

@[simp] theorem calls_map (f : α → β) (o : Outcome σ α) : (o.map f).calls = o.calls := rfl

@[simp] theorem calls_andThen (o : Outcome σ α) (next : α → σ → Outcome σ β) :
    (o.andThen next).calls = o.calls ++ (next o.value o.state).calls := rfl

/-- A call is made behind those of another outcome. -/
def CallsAfter (o : Outcome σ α) (before : Outcome σ β) (e : Expr) : Prop :=
  ∃ later, o.calls = before.calls ++ later ∧ e ∈ later

end Outcome

/-- Values and states of a program, and what it does in expressions without an order of their
own. -/
structure Evaluator (σ ν : Type) where
  isTrue : ν → Bool
  ofBool : Bool → ν
  isTrue_ofBool : ∀ b, isTrue (ofBool b) = b
  /-- the value of a conversion, which is no call -/
  convert : Ty → ν → ν
  /-- the callee and the arguments of a call, in any order -/
  operands : Expr → σ → Outcome σ (List ν)
  /-- what a call does with them -/
  invoke : Expr → List ν → σ → ν × σ
  /-- any other expression -/
  other : Expr → σ → Outcome σ ν

namespace Expr

variable {σ ν : Type} (m : Evaluator σ ν)

def eval : Expr → σ → Outcome σ ν
  | paren inner, s | materializeTemporary inner _, s => eval inner s
  | implicitCast _ inner ty, s | cStyleCast ty inner, s => (eval inner s).map (m.convert ty)
  | binary .lAnd lhs rhs, s => (eval lhs s).andThen fun x s =>
    if m.isTrue x then (eval rhs s).map fun y => m.ofBool (m.isTrue y)
    else ⟨m.ofBool false, s, []⟩
  | binary .lOr lhs rhs, s => (eval lhs s).andThen fun x s =>
    if m.isTrue x then ⟨m.ofBool true, s, []⟩
    else (eval rhs s).map fun y => m.ofBool (m.isTrue y)
  | binary .comma lhs rhs, s => (eval lhs s).andThen fun _ s => eval rhs s
  | conditional cond yes no, s => (eval cond s).andThen fun x s =>
    if m.isTrue x then eval yes s else eval no s
  | call callee args params, s => (m.operands (call callee args params) s).andThen fun vs s =>
    let result := m.invoke (call callee args params) vs s
    ⟨result.1, result.2, [call callee args params]⟩
  | e, s => m.other e s

theorem call_mem_calls (callee : Expr) (args : List Expr) (params : Option (List Ty)) (s : σ) :
    call callee args params ∈ ((call callee args params).eval m s).calls :=
  List.mem_append_right _ List.mem_cons_self

end Expr

end DBindings
