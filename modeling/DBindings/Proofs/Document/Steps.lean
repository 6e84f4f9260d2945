import DBindings.Proofs.Run.Lawful

/-!
# What a step adds

A step of the emitter adds strokes to the script, and registers declarations and names of constants
that were not registered before.  Nothing that was written or registered goes away.

* `Addition`             strokes, declarations and names, in order;
* `EmitState.Extends`    a state with an addition;
* `EmitState.Adds`       the same, and the records that are open are the same;
* `Emit.Gives`           a computation gives a result, or an error that is accounted for, with a
                         rule for each way to compose it.
-/

namespace DBindings

/-- What is added to a module. -/
structure Addition where
  code : List Stroke := []
  /-- declarations that are registered -/
  registered : List DeclId := []
  /-- names that become constants -/
  constants : List String := []

namespace Addition

instance : Append Addition :=
  ⟨fun a b => ⟨a.code ++ b.code, a.registered ++ b.registered, a.constants ++ b.constants⟩⟩

def none : Addition := {}

def ofCode (code : List Stroke) : Addition := { code }

def ofId (id : DeclId) : Addition := { registered := [id] }

section
variable (a b c : Addition)

@[simp] theorem code_append : (a ++ b).code = a.code ++ b.code := rfl

@[simp] theorem registered_append : (a ++ b).registered = a.registered ++ b.registered := rfl

@[simp] theorem constants_append : (a ++ b).constants = a.constants ++ b.constants := rfl

theorem none_append : none ++ a = a := rfl

theorem append_none : a ++ none = a := by
  show (⟨a.code ++ [], a.registered ++ [], a.constants ++ []⟩ : Addition) = a
  rw [List.append_nil, List.append_nil, List.append_nil]

theorem append_assoc : a ++ b ++ c = a ++ (b ++ c) := by
  show (⟨_ ++ _ ++ _, _ ++ _ ++ _, _ ++ _ ++ _⟩ : Addition) = _
  rw [List.append_assoc, List.append_assoc, List.append_assoc]
  rfl

end

theorem ofCode_append (a b : List Stroke) : ofCode (a ++ b) = ofCode a ++ ofCode b := rfl

end Addition

namespace EmitState
variable {s s' s'' : EmitState} {a b : Addition}

/-- A state with an addition, which registers nothing a second time. -/
structure Extends (s s' : EmitState) (a : Addition) : Prop where
  code : s'.script.toList = s.script.toList ++ a.code
  registered : s'.registered = a.registered.reverse ++ s.registered
  constants : s'.macros.seen = a.constants.reverse ++ s.macros.seen
  nodup_registered : s.registered.Nodup → s'.registered.Nodup
  nodup_constants : s.macros.seen.Nodup → s'.macros.seen.Nodup

namespace Extends

theorem refl (s : EmitState) : s.Extends s .none :=
  ⟨(List.append_nil _).symm, rfl, rfl, id, id⟩

theorem trans (h : s.Extends s' a) (h' : s'.Extends s'' b) : s.Extends s'' (a ++ b) := by
  refine ⟨?_, ?_, ?_, h'.nodup_registered ∘ h.nodup_registered,
    h'.nodup_constants ∘ h.nodup_constants⟩
  · rw [h'.code, h.code, List.append_assoc]
    rfl
  · rw [h'.registered, h.registered, ← List.append_assoc, ← List.reverse_append]
    rfl
  · rw [h'.constants, h.constants, ← List.append_assoc, ← List.reverse_append]
    rfl

theorem registered_subset (h : s.Extends s' a) : s.registered ⊆ s'.registered := by
  rw [h.registered]
  exact List.subset_append_right _ _

theorem constants_subset (h : s.Extends s' a) : s.macros.seen ⊆ s'.macros.seen := by
  rw [h.constants]
  exact List.subset_append_right _ _

theorem write (s : EmitState) (code : List Stroke) : s.Extends (s.write code) (.ofCode code) := by
  refine ⟨?_, rfl, rfl, id, id⟩
  show (s.script ++ code.toArray).toList = _
  simp [Addition.ofCode]

theorem register {id : DeclId} (h : id ∉ s.registered) : s.Extends (s.register id) (.ofId id) :=
  ⟨(List.append_nil _).symm, rfl, rfl, List.nodup_cons.2 ∘ And.intro h, fun hs => hs⟩

theorem of_nesting (nesting : List DeclId) : s.Extends { s with nesting } .none :=
  ⟨(List.append_nil _).symm, rfl, rfl, fun hs => hs, fun hs => hs⟩

theorem define {name : String} {definition : MacroDef} {loc : SourceLoc} {written : List String}
    {macros : MacroNames} (h : s.macros.define name definition loc = (some written, macros)) :
    s.Extends ({ s with macros }.write (written.map .line))
      { code := (definition.lines name loc).map .line, constants := [name] } := by
  unfold MacroNames.define at h
  by_cases hold : (definition.isSkipped || s.macros.seen.contains name) = true
  · rw [if_pos hold] at h
    exact nomatch h
  · rw [if_neg hold] at h
    obtain ⟨hwritten, hmacros⟩ := Prod.mk.inj h
    have hnew : name ∉ s.macros.seen := by
      intro hmem
      exact hold (by simp [hmem])
    subst hmacros
    rw [← Option.some.inj hwritten]
    refine ⟨?_, rfl, rfl, fun hs => hs, fun hs => List.nodup_cons.2 ⟨hnew, hs⟩⟩
    show (s.script ++ (_ : List Stroke).toArray).toList = _
    simp

end Extends

/-- A state with an addition, and with the same records open. -/
structure Adds (s s' : EmitState) (a : Addition) : Prop extends Extends s s' a where
  nesting : s'.nesting = s.nesting

namespace Adds

theorem refl (s : EmitState) : s.Adds s .none := ⟨.refl s, rfl⟩

theorem trans (h : s.Adds s' a) (h' : s'.Adds s'' b) : s.Adds s'' (a ++ b) :=
  ⟨h.toExtends.trans h'.toExtends, h'.nesting.trans h.nesting⟩

theorem write (s : EmitState) (code : List Stroke) : s.Adds (s.write code) (.ofCode code) :=
  ⟨.write s code, rfl⟩

theorem register {id : DeclId} (h : id ∉ s.registered) : s.Adds (s.register id) (.ofId id) :=
  ⟨.register h, rfl⟩

theorem raise (s : EmitState) (requests : List Request) : s.Adds (s.raise requests) .none :=
  ⟨⟨(List.append_nil _).symm, rfl, rfl, fun hs => hs, fun hs => hs⟩, rfl⟩

/-- The strokes of the mixin, if a record has been asked for it. -/
def askedCode (asked : Bool) : List Stroke := if asked then [.line mixinLine] else []

theorem settle (s : EmitState) (record : DeclId) (isStruct : Bool) :
    ∃ asked, s.Adds (s.settle record isStruct) (.ofCode (askedCode asked)) := by
  have hqueue : s.Adds { s with queue := (s.queue.takeFor record).2 } .none :=
    ⟨⟨(List.append_nil _).symm, rfl, rfl, fun hs => hs, fun hs => hs⟩, rfl⟩
  unfold EmitState.settle
  dsimp only
  split
  · refine ⟨true, ?_⟩
    have hwrite := hqueue.trans (.write _ [.line mixinLine])
    exact ⟨⟨hwrite.code, hwrite.registered, hwrite.constants, fun hs => hs, fun hs => hs⟩, rfl⟩
  · exact ⟨false, hqueue⟩

theorem close (s : EmitState) (record : DeclId) (isStruct : Bool) :
    s.Adds (s.close record isStruct) (.ofCode [.dedent, .line "\x7d"]) := by
  have hwrite := Adds.write s [.dedent, .line "\x7d"]
  exact ⟨⟨hwrite.code, hwrite.registered, hwrite.constants, fun hs => hs, fun hs => hs⟩, rfl⟩

theorem inside {id : DeclId} (h : (s.enter id).Adds s' a) : s.Adds s'.leave a := by
  have hopen : s.Extends s'.leave (.none ++ (a ++ .none)) :=
    (Extends.of_nesting _).trans (h.toExtends.trans (.of_nesting _))
  rw [Addition.none_append, Addition.append_none] at hopen
  refine ⟨hopen, ?_⟩
  show s'.nesting.tail = s.nesting
  rw [h.nesting]
  rfl

end Adds

end EmitState

namespace Emit

section
variable {α β : Type} {fails fails' : EmitError → Prop} {s : EmitState}

/-- A computation gives a result and a state with a property, or it fails with such an error. -/
def Gives (fails : EmitError → Prop) (x : Emit α) (s : EmitState) (post : α → EmitState → Prop) :
    Prop :=
  match x.exec s with
  | (.ok a, s') => post a s'
  | (.error e, _) => fails e

namespace Gives
variable {post : α → EmitState → Prop} {post' : β → EmitState → Prop}

theorem pure {a : α} (h : post a s) : Gives fails (Pure.pure a) s post := h

theorem ok {x : Emit α} {a : α} {s' : EmitState} (h : Gives fails x s post)
    (hx : x.exec s = (.ok a, s')) : post a s' := by
  unfold Gives at h
  rw [hx] at h
  exact h

theorem error {x : Emit α} {e : EmitError} {s' : EmitState} (h : Gives fails x s post)
    (hx : x.exec s = (.error e, s')) : fails e := by
  unfold Gives at h
  rw [hx] at h
  exact h

theorem mono {post' : α → EmitState → Prop} {x : Emit α} (h : Gives fails x s post)
    (hfails : ∀ e, fails e → fails' e) (hpost : ∀ a s', post a s' → post' a s') :
    Gives fails' x s post' := by
  unfold Gives at h ⊢
  match x.exec s, h with
  | (.ok a, s'), h => exact hpost a s' h
  | (.error e, _), h => exact hfails e h

theorem imp {post' : α → EmitState → Prop} {x : Emit α} (h : Gives fails x s post)
    (hpost : ∀ a s', post a s' → post' a s') : Gives fails x s post' :=
  h.mono (fun _ he => he) hpost

theorem bind {x : Emit α} {f : α → Emit β} (hx : Gives fails x s post)
    (hf : ∀ a s', post a s' → Gives fails (f a) s' post') : Gives fails (x >>= f) s post' := by
  unfold Gives at hx
  unfold Gives
  rw [exec_bind]
  match x.exec s, hx with
  | (.ok a, s'), hx => exact hf a s' hx
  | (.error e, _), hx => exact hx

theorem map {x : Emit α} {g : α → β} (hx : Gives fails x s fun a s' => post' (g a) s') :
    Gives fails (g <$> x) s post' := by
  have h : g <$> x = x >>= fun a => Pure.pure (g a) := map_eq_pure_bind g x
  rw [h]
  exact hx.bind fun _ _ ha => ha

theorem modify {f : EmitState → EmitState} {post : PUnit → EmitState → Prop} (h : post () (f s)) :
    Gives fails (modify f) s post := h

theorem get {f : EmitState → Emit β} (h : Gives fails (f s) s post') :
    Gives fails (MonadState.get >>= f) s post' := h

theorem strokes (code : List Stroke) :
    Gives fails (Emit.strokes code) s fun _ s' => s.Adds s' (.ofCode code) := .write s code

theorem line (text : String) :
    Gives fails (Emit.line text) s fun _ s' => s.Adds s' (.ofCode [.line text]) := .write s _

theorem lines (texts : List String) :
    Gives fails (Emit.lines texts) s fun _ s' => s.Adds s' (.ofCode (texts.map .line)) :=
  .write s _

theorem printed (p : Printed) :
    Gives fails (Emit.printed p) s fun text s' => text = p.text ∧ s.Adds s' .none :=
  ⟨rfl, .raise s p.requests⟩

theorem block (b : Block) :
    Gives fails (Emit.block b) s fun _ s' => s.Adds s' (.ofCode (b.lines.map .line)) :=
  (EmitState.Adds.raise s b.requests).trans (.write _ _)

/-- What follows the registration of a declaration, which was old or is new. -/
theorem register {id : DeclId} {f : Bool → Emit β}
    (hold : id ∈ s.registered → Gives fails (f false) s post')
    (hnew : id ∉ s.registered → Gives fails (f true) (s.register id) post') :
    Gives fails (Emit.register id >>= f) s post' := by
  unfold Gives
  rw [exec_bind]
  by_cases h : id ∈ s.registered
  · rw [exec_register_of_mem h]
    exact hold h
  · rw [exec_register_of_not_mem h]
    exact hnew h

theorem accept {env : EmitEnv} {head : DeclHead} {f : Bool → Emit β}
    (hold : (env.isRelevant head.loc = true → head.id ∈ s.registered) →
      Gives fails (f false) s post')
    (hnew : env.isRelevant head.loc = true → head.id ∉ s.registered →
      Gives fails (f true) (s.register head.id) post') :
    Gives fails (Emit.accept env head >>= f) s post' := by
  unfold Emit.accept
  by_cases h : env.isRelevant head.loc = true
  · rw [if_pos h]
    exact register (fun hid => hold fun _ => hid) (hnew h)
  · rw [if_neg h]
    exact hold fun hrel => absurd hrel h

end Gives

end

end Emit

end DBindings
