import DBindings.Proofs.Document.Records

/-!
# Writing comes back

Writing a record opens a body and closes it, and the records inside it are opened and closed in
between.  So whatever is written inside a record comes back to the level and to the open records
that it has started with.

* `EmitState.Resumes`              text has been added; level and open records are the same;
* `Emit.Restores`                  a computation resumes the state from which it starts, with a rule
                                   for each way to compose it;
* `Emit.restores_emit`             a record does, if the records inside it do;
* `Emit.restores_nestedWithin`     so records inside records do, at any depth.
-/

namespace DBindings
open Stroke

namespace EmitState
variable {s s' s'' : EmitState} {a : Addition}

theorem Extends.writer (h : s.Extends s' a) :
    s'.writer = ⟨s.text ++ codeAll s.writer.level a.code, levelAll s.writer.level a.code⟩ := by
  show CodeWriter.run {} s'.script.toList = _
  rw [h.code, CodeWriter.run_append, CodeWriter.run_eq]
  rfl

/-- Text has been added, and the same records are open. -/
structure Continues (s s' : EmitState) : Prop where
  nesting : s'.nesting = s.nesting
  text : ∃ added, s'.text = s.text ++ added

/-- Text has been added, and level and open records are the same. -/
structure Resumes (s s' : EmitState) : Prop extends Continues s s' where
  level : s'.writer.level = s.writer.level

theorem Continues.of_adds (h : s.Adds s' a) : s.Continues s' :=
  ⟨h.nesting, _, congrArg CodeWriter.text h.writer⟩

theorem Continues.trans (h : s.Continues s') (h' : s'.Continues s'') : s.Continues s'' := by
  obtain ⟨b, hb⟩ := h.text
  obtain ⟨c, hc⟩ := h'.text
  refine ⟨h'.nesting.trans h.nesting, b ++ c, ?_⟩
  rw [hc, hb, String.append_assoc]

namespace Resumes

theorem of_adds (h : s.Adds s' a) (ha : Balanced a.code) : s.Resumes s' :=
  ⟨.of_adds h, (congrArg CodeWriter.level h.writer).trans (ha _)⟩

theorem refl (s : EmitState) : s.Resumes s := .of_adds (.refl s) fun _ => rfl

theorem trans (h : s.Resumes s') (h' : s'.Resumes s'') : s.Resumes s'' :=
  ⟨h.toContinues.trans h'.toContinues, h'.level.trans h.level⟩

theorem register {id : DeclId} (hnew : id ∉ s.registered) (h : (s.register id).Resumes s') :
    s.Resumes s' :=
  (of_adds (.register hnew) fun _ => rfl).trans h

theorem inside {id : DeclId} (h : (s.enter id).Resumes s') : s.Resumes s'.leave :=
  ⟨⟨congrArg List.tail h.nesting, h.text⟩, h.level⟩

end Resumes

end EmitState

namespace Emit
open EmitState (Resumes)

/-! ## Computations -/

section
variable {α β : Type}

/-- From this state the computation fails, or it resumes it. -/
abbrev RestoresAt (x : Emit α) (s : EmitState) : Prop :=
  Gives (fun _ => True) x s fun _ s' => s.Resumes s'

/-- The computation fails, or it resumes the state from which it starts. -/
def Restores (x : Emit α) : Prop := ∀ s, RestoresAt x s

namespace Restores

theorem pure (a : α) : Restores (Pure.pure a : Emit α) := fun s => Gives.pure (.refl s)

theorem bind {x : Emit α} {f : α → Emit β} (hx : Restores x) (hf : ∀ a, Restores (f a)) :
    Restores (x >>= f) :=
  fun s => (hx s).bind fun a s₁ h₁ => (hf a s₁).imp fun _ _ h₂ => h₁.trans h₂

theorem map {x : Emit α} (g : α → β) (hx : Restores x) : Restores (g <$> x) :=
  fun s => Gives.map (hx s)

theorem forM (l : List α) {f : α → Emit PUnit} (hf : ∀ a, Restores (f a)) :
    Restores (l.forM f) := by
  induction l with
  | nil => exact pure _
  | cons a l ih =>
    show Restores (f a >>= fun _ => l.forM f)
    exact (hf a).bind fun _ => ih

theorem ofExcept (x : Except EmitError α) : Restores (Emit.ofExcept x) := by
  cases x with
  | ok a => exact pure a
  | error e => exact fun _ => trivial

theorem strokes {code : List Stroke} (h : Balanced code) : Restores (Emit.strokes code) :=
  fun _ => (Gives.strokes code).imp fun _ _ hs => .of_adds hs h

theorem lines (texts : List String) : Restores (Emit.lines texts) :=
  strokes (balanced_lines texts)

theorem line (text : String) : Restores (Emit.line text) := strokes (balanced_lines [text])

theorem printed (p : Printed) : Restores (Emit.printed p) :=
  fun _ => (Gives.printed p).imp fun _ _ h => .of_adds h.2 fun _ => rfl

theorem block (b : Block) : Restores (Emit.block b) :=
  fun _ => (Gives.block b).imp fun _ _ h => .of_adds h (balanced_lines b.lines)

theorem register {id : DeclId} {f : Bool → Emit β} (hf : ∀ isNew, Restores (f isNew)) :
    Restores (Emit.register id >>= f) :=
  fun s => Gives.register (fun _ => hf false s) fun hnew =>
    (hf true _).imp fun _ _ h => h.register hnew

theorem inside {id : DeclId} {x : Emit PUnit} {f : PUnit → Emit β} (hx : Restores x)
    (hf : ∀ a, Restores (f a)) : Restores (do enter id; x; leave >>= f) := by
  intro s
  refine Gives.bind (.modify rfl) fun _ s₁ (hs₁ : s₁ = s.enter id) => ?_
  subst hs₁
  refine (hx _).bind fun _ s₂ h₂ => ?_
  refine Gives.bind (.modify rfl) fun _ s₃ (hs₃ : s₃ = s₂.leave) => ?_
  subst hs₃
  exact (hf _ _).imp fun _ _ h₄ => h₂.inside.trans h₄

/-- The strokes of a body around what is inside: the brace that closes it goes back by the level by
which the first one goes on. -/
theorem body {record : DeclId} {isStruct : Bool} {header : String} {x : Emit PUnit}
    (hx : Restores x) :
    Restores (do
      Emit.strokes (RecordDecl.openingStrokes header)
      x
      modify (·.settle record isStruct)
      modify (·.close record isStruct)) := by
  intro s
  refine (Gives.strokes _).bind fun _ s₁ h₁ => (hx s₁).bind fun _ s₂ h₂ => ?_
  refine Gives.bind (.modify rfl) fun _ s₃ (hs₃ : s₃ = s₂.settle record isStruct) => .modify ?_
  subst hs₃
  obtain ⟨asked, h₃⟩ := EmitState.Adds.settle s₂ record isStruct
  have hsettle : s₂.Resumes (s₂.settle record isStruct) := by
    refine .of_adds h₃ ?_
    cases asked with
    | true => exact balanced_lines [_]
    | false => exact fun _ => rfl
  have h₄ := EmitState.Adds.close (s₂.settle record isStruct) record isStruct
  refine ⟨((EmitState.Continues.of_adds h₁).trans (h₂.trans hsettle).toContinues).trans
    (.of_adds h₄), ?_⟩
  have hopen : s₁.writer.level = s.writer.level + 1 := congrArg CodeWriter.level h₁.writer
  calc ((s₂.settle record isStruct).close record isStruct).writer.level
      = (s₂.settle record isStruct).writer.level - 1 := congrArg CodeWriter.level h₄.writer
    _ = s₁.writer.level - 1 := by rw [(h₂.trans hsettle).level]
    _ = s.writer.level := by rw [hopen, Nat.add_sub_cancel]

end Restores

end

/-! ## Records -/

section
variable {env : EmitEnv}

/-- A typedef resumes a state if the record that it names does, if any. -/
theorem resumes_typedef {record : RecordDecl → Emit PUnit} {head : DeclHead} {underlying : Ty}
    {topLevel : Bool} {s : EmitState}
    (hrecord : ∀ r, env.namedRecord? underlying = some r → RestoresAt (record r) s) :
    RestoresAt (typedef env record head underlying topLevel) s := by
  rw [typedef_eq]
  cases hnamed : env.namedRecord? underlying with
  | some r =>
    refine (hrecord r hnamed).bind fun _ s₁ h₁ => ?_
    split
    · exact (Restores.lines _ s₁).imp fun _ _ h₂ => h₁.trans h₂
    · exact .pure h₁
  | none =>
    refine Restores.bind (.line _) (fun _ => ?_) s
    split
    · exact .line _
    · exact .pure _

theorem restores_closeRun (run : BitfieldRun) : Restores (RecordDecl.closeRun run) :=
  .bind (.lines _) fun _ => .pure _

theorem restores_emitFields (r : RecordDecl) (run : BitfieldRun) (position : Nat)
    (fields : List Field) : Restores (RecordDecl.emitFields env r run position fields) := by
  induction fields generalizing run position with
  | nil => exact .map _ (restores_closeRun run)
  | cons field rest ih =>
    unfold RecordDecl.emitFields
    split
    · exact .bind (.ofExcept _) fun _ => ih _ (position + 1)
    · exact .bind (restores_closeRun run) fun run => .bind (.printed _) fun _ =>
        .bind (.line _) fun _ => ih run (position + 1)

section
variable {nested : RecordDecl → Emit PUnit} (hnested : ∀ r, Restores (nested r))
include hnested

theorem restores_typedef (head : DeclHead) (underlying : Ty) (topLevel : Bool) :
    Restores (typedef env nested head underlying topLevel) :=
  fun s => resumes_typedef fun r _ => hnested r s

theorem restores_emitMember (r : RecordDecl) (polymorphic : Bool) (d : Decl) :
    Restores (RecordDecl.emitMember env nested r polymorphic d) := by
  cases d with
  | enumeration head e =>
    refine .register fun isNew => ?_
    cases isNew with
    | true => exact .strokes (e.balanced_strokes env head)
    | false => exact .pure _
  | record head info members methods => exact hnested _
  | typedef head underlying =>
    refine .register fun isNew => ?_
    cases isNew with
    | true => exact restores_typedef hnested head underlying false
    | false => exact .pure _
  | var head v => exact .line _
  | function head f => exact .block _
  | space head members => exact .pure _
  | macroDef head definition => exact .pure _

theorem restores_emitInside (r : RecordDecl) (polymorphic : Bool) :
    Restores (RecordDecl.emitInside env nested r polymorphic) := by
  have hmethod (d : Decl) : Restores (RecordDecl.emitMethod env r polymorphic d) := by
    cases d with
    | function head f => exact .block _
    | _ => exact .pure _
  exact .bind (.lines _) fun _ =>
    .bind (.forM r.members (restores_emitMember hnested r polymorphic)) fun _ =>
    .bind (restores_emitFields r _ 0 r.info.fields) fun _ => .forM r.methods hmethod

theorem restores_emit (henv : env.Sound) (r : RecordDecl) (topLevel : Bool) :
    Restores (r.emit env nested topLevel) := by
  rw [RecordDecl.emit_eq]
  refine .bind (.strokes (henv.inert_begin _ _).ite.balanced) fun _ => ?_
  refine .bind ?_ fun _ => .strokes (henv.inert_finish _).ite.balanced
  split
  · exact .bind (.lines _) fun _ => .bind (.printed _) fun _ =>
      .body (restores_emitInside hnested r _)
  · exact .line _

end

theorem restores_nestedWithin (henv : env.Sound) (depth : Nat) (r : RecordDecl) :
    Restores (nestedWithin env depth r) := by
  induction depth generalizing r with
  | zero => exact .pure _
  | succ depth ih =>
    unfold nestedWithin
    split
    · exact .pure _
    · refine .register fun isNew => ?_
      cases isNew with
      | true => exact .inside (restores_emit ih henv r false) fun _ => .line _
      | false => exact .pure _

end

end Emit

end DBindings
