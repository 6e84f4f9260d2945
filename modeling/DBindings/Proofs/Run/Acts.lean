import DBindings.Emit.Module
import DBindings.Proofs.Writing.Pieces

/-!
# Acts

What is written next depends on what has been registered, on the records that are open and on the
macros that have been defined, never on the requests.  So a run of the emitter is a list of acts
that is the same whatever is done with the requests.

* `Act.playAll`          what acts do to a state;
* `Act.pieces`           the code that acts write, apart from the mixins;
* `Act.raised_playAll`   acts raise the requests of this code, and no others;
* `Emit.Plays`           a computation plays acts that obey a law, whatever else the state has;
* `Plays.bind`           sequencing.
-/

namespace DBindings

/-- The part of the state that decisions depend on. -/
structure Control where
  registered : List DeclId
  nesting : List DeclId
  macros : MacroNames

def EmitState.control (s : EmitState) : Control := ⟨s.registered, s.nesting, s.macros⟩

/-- A step of a run, or a record with the steps that write its body. -/
inductive Act where
  | write (ss : List Stroke)
  | code (b : Block)
  | register (id : DeclId)
  | enter (id : DeclId)
  | leave
  | define (macros : MacroNames)
  | body (record : DeclId) (isStruct : Bool) (header : Printed) (members : List Act)

namespace EmitState

def print (s : EmitState) (b : Block) : EmitState :=
  (s.raise b.requests).write (b.lines.map .line)

def openBody (s : EmitState) (header : Printed) : EmitState :=
  (s.raise header.requests).write (RecordDecl.openingStrokes header.text)

theorem raised_settle (s : EmitState) (record : DeclId) (isStruct : Bool) :
    (s.settle record isStruct).raised = s.raised := by
  unfold settle
  dsimp only
  split <;> rfl

end EmitState

namespace Act

mutual

def play : Act → EmitState → EmitState
  | write ss, s => s.write ss
  | code b, s => s.print b
  | register id, s => s.register id
  | enter id, s => s.enter id
  | leave, s => s.leave
  | define macros, s => { s with macros }
  | body record isStruct header members, s =>
    ((playAll members (s.openBody header)).settle record isStruct).close record isStruct

def playAll : List Act → EmitState → EmitState
  | [], s => s
  | a :: as, s => playAll as (a.play s)

end

mutual

/-- What an act does to the control part of the state. -/
def turn : Act → Control → Control
  | register id, c => { c with registered := id :: c.registered }
  | enter id, c => { c with nesting := id :: c.nesting }
  | leave, c => { c with nesting := c.nesting.tail }
  | define macros, c => { c with macros }
  | body _ _ _ members, c => turnAll members c
  | write _, c | code _, c => c

def turnAll : List Act → Control → Control
  | [], c => c
  | a :: as, c => turnAll as (a.turn c)

end

mutual

/-- The declarations that are registered, in order. -/
def registers : Act → List DeclId
  | register id => [id]
  | body _ _ _ members => registersAll members
  | _ => []

def registersAll : List Act → List DeclId
  | [] => []
  | a :: as => a.registers ++ registersAll as

end

mutual

/-- The code that an act writes. -/
def piece? : Act → Option Piece
  | write ss => some (.plain ss)
  | code b => some (.code b)
  | body record isStruct header members => some (.body record isStruct header (pieces members))
  | _ => none

/-- The code that acts write. -/
def pieces : List Act → List Piece
  | [] => []
  | a :: as => a.piece?.toList ++ pieces as

end

/-! ## Lists of acts -/

theorem playAll_append (a b : List Act) (s : EmitState) :
    playAll (a ++ b) s = playAll b (playAll a s) := by
  induction a generalizing s with
  | nil => rfl
  | cons x a ih => exact ih (x.play s)

theorem registersAll_append (a b : List Act) :
    registersAll (a ++ b) = registersAll a ++ registersAll b := by
  induction a with
  | nil => rfl
  | cons x a ih => rw [List.cons_append, registersAll, registersAll, ih, List.append_assoc]

theorem pieces_append (a b : List Act) : pieces (a ++ b) = pieces a ++ pieces b := by
  induction a with
  | nil => rfl
  | cons x a ih => rw [List.cons_append, pieces, pieces, ih, List.append_assoc]

/-! ## What acts do to control -/

theorem control_settle (s : EmitState) (record : DeclId) (isStruct : Bool) :
    (s.settle record isStruct).control = s.control := by
  unfold EmitState.settle
  dsimp only
  split <;> rfl

mutual

theorem control_play (s : EmitState) : (a : Act) → (a.play s).control = a.turn s.control
  | write _ | code _ | register _ | enter _ | leave | define _ => rfl
  | body record isStruct header members => by
    show ((playAll members (s.openBody header)).settle record isStruct).control = _
    rw [control_settle]
    exact control_playAll (s.openBody header) members

theorem control_playAll (s : EmitState) :
    (as : List Act) → (playAll as s).control = turnAll as s.control
  | [] => rfl
  | a :: as => by
    rw [playAll, control_playAll (a.play s) as, control_play s a]
    rfl

end

mutual

theorem registered_turn (c : Control) :
    (a : Act) → (a.turn c).registered = a.registers.reverse ++ c.registered
  | write _ | code _ | register _ | enter _ | leave | define _ => rfl
  | body _ _ _ members => registered_turnAll c members

theorem registered_turnAll (c : Control) :
    (as : List Act) → (turnAll as c).registered = (registersAll as).reverse ++ c.registered
  | [] => rfl
  | a :: as => by
    rw [turnAll, registered_turnAll (a.turn c) as, registered_turn c a, registersAll,
      List.reverse_append, List.append_assoc]

end

/-! ## The requests that acts raise -/

mutual

theorem raised_play (s : EmitState) :
    (a : Act) → (a.play s).raised = s.raised ++ Piece.requestsAll a.piece?.toList
  | write _ | register _ | enter _ | leave | define _ => (List.append_nil _).symm
  | code b => congrArg (s.raised ++ ·) (List.append_nil b.requests).symm
  | body record isStruct header members => by
    show ((playAll members (s.openBody header)).settle record isStruct).raised = _
    rw [EmitState.raised_settle, raised_playAll (s.openBody header) members]
    show s.raised ++ header.requests ++ _ = s.raised ++ (header.requests ++ _ ++ [])
    rw [List.append_nil, List.append_assoc]

theorem raised_playAll (s : EmitState) :
    (as : List Act) → (playAll as s).raised = s.raised ++ Piece.requestsAll (pieces as)
  | [] => (List.append_nil _).symm
  | a :: as => by
    rw [playAll, raised_playAll (a.play s) as, raised_play s a, pieces,
      Piece.requestsAll_append, List.append_assoc]

end

end Act

namespace Emit
open Act

/-- What a computation does from a state on. -/
def exec {α : Type} (x : Emit α) (s : EmitState) : Except EmitError α × EmitState := ExceptT.run x s

section
variable {α β : Type}

theorem exec_bind (x : Emit α) (f : α → Emit β) (s : EmitState) :
    (x >>= f).exec s = match x.exec s with
      | (.ok a, s') => (f a).exec s'
      | (.error e, s') => (.error e, s') := by
  show ExceptT.bindCont f (x.exec s).1 (x.exec s).2 = _
  cases x.exec s with
  | mk result s' =>
    cases result with
    | ok a => rfl
    | error e => rfl

theorem exec_get (s : EmitState) : (get : Emit EmitState).exec s = (.ok s, s) := rfl

theorem exec_register_of_mem {id : DeclId} {s : EmitState} (h : id ∈ s.registered) :
    (Emit.register id).exec s = (.ok false, s) := by
  have hcontains : s.registered.contains id = true := by simpa using h
  rw [Emit.register, exec_bind, exec_get]
  simp only [hcontains, if_true]
  rfl

theorem exec_register_of_not_mem {id : DeclId} {s : EmitState} (h : id ∉ s.registered) :
    (Emit.register id).exec s = (.ok true, s.register id) := by
  have hcontains : s.registered.contains id = false := by simpa using h
  rw [Emit.register, exec_bind, exec_get]
  simp only [hcontains]
  rfl

/-- From all states with the same control part the computation fails in the same way, or it gives
the same result and plays the same acts, which obey the law. -/
def Plays (law : Control → List Act → Prop) (x : Emit α) : Prop :=
  ∀ c, (∃ a acts, law c acts ∧ ∀ s, s.control = c → x.exec s = (.ok a, playAll acts s)) ∨
    ∃ e, ∀ s, s.control = c → (x.exec s).1 = .error e

namespace Plays
variable {law law' : Control → List Act → Prop}

theorem mono {x : Emit α} (h : Plays law x) (hl : ∀ c acts, law c acts → law' c acts) :
    Plays law' x := by
  intro c
  rcases h c with ⟨a, acts, hacts, hx⟩ | herr
  · exact Or.inl ⟨a, acts, hl c acts hacts, hx⟩
  · exact Or.inr herr

theorem pure (a : α) (h : ∀ c, law c []) : Plays law (Pure.pure a : Emit α) :=
  fun c => Or.inl ⟨a, [], h c, fun _ _ => rfl⟩

theorem throw (e : EmitError) : Plays law (MonadExcept.throw e : Emit α) :=
  fun _ => Or.inr ⟨e, fun _ _ => rfl⟩

theorem act {x : Emit PUnit} (a : Act) (hx : ∀ s, x.exec s = (.ok (), a.play s))
    (h : ∀ c, law c [a]) : Plays law x :=
  fun c => Or.inl ⟨(), [a], h c, fun s _ => hx s⟩

theorem bind {law₁ law₂ : Control → List Act → Prop} {x : Emit α} {f : α → Emit β}
    (hx : Plays law₁ x) (hf : ∀ a, Plays law₂ (f a))
    (h : ∀ c as bs, law₁ c as → law₂ (turnAll as c) bs → law c (as ++ bs)) :
    Plays law (x >>= f) := by
  intro c
  rcases hx c with ⟨a, as, has, hxs⟩ | ⟨e, he⟩
  · -- the acts of `x` lead from control `c` to one control, whatever else the state holds
    have hturn : ∀ s, s.control = c → (playAll as s).control = turnAll as c := by
      intro s hs
      rw [control_playAll, hs]
    rcases hf a (turnAll as c) with ⟨b, bs, hbs, hfs⟩ | ⟨e, he⟩
    · refine Or.inl ⟨b, as ++ bs, h c as bs has hbs, fun s hs => ?_⟩
      rw [exec_bind, hxs s hs, playAll_append]
      exact hfs (playAll as s) (hturn s hs)
    · refine Or.inr ⟨e, fun s hs => ?_⟩
      rw [exec_bind, hxs s hs]
      exact he (playAll as s) (hturn s hs)
  · refine Or.inr ⟨e, fun s hs => ?_⟩
    have hs' := he s hs
    rw [exec_bind]
    cases hx : x.exec s with
    | mk result s' =>
      rw [hx] at hs'
      cases result with
      | ok a => exact absurd hs' (by simp)
      | error e' =>
        show Except.error e' = Except.error e
        exact congrArg _ (Except.error.inj hs')

end Plays

end

end Emit

end DBindings
