import DBindings.Proofs.Document.Calls
import DBindings.Proofs.Document.Restored

/-!
# Levels and open records between calls

A record at top level is opened by one call and closed by the next.  All else comes back to the
level and to the open records that it has started with, so between the calls of a walk the level is
zero and no record is open.

* `Emit.resumes_once`                 a record that a typedef names at top level;
* `Event.Bracketed`                   a record that is entered is left by the next call;
* `Emit.rests_handle`                 what one call does to the record that is open;
* `Emit.rests_accepts`                the state in front of each call;
* `TranslationUnit.levels_restored`   the calls of a walk, and those inside them.
-/

namespace DBindings
open Stroke

namespace Emit
open EmitState (Resumes)

section
variable {env : EmitEnv}

/-! ## Records at top level -/

/-- A record at top level stays open until it is left. -/
theorem gives_opened (henv : env.Sound) (r : RecordDecl) (s : EmitState) :
    Gives (fun _ => True) (enterRecord env r) s fun _ s' =>
      s.Resumes s' ∨ (s.enter r.head.id).Resumes s' := by
  unfold enterRecord
  split
  · exact .pure (Or.inl (.refl s))
  · refine Gives.accept (fun _ => .pure (Or.inl (.refl s))) fun _ _ => ?_
    refine Gives.bind (.modify rfl) fun _ s₁ (hs₁ : s₁ = (s.register _).enter r.head.id) => ?_
    subst hs₁
    refine (restores_emit (restores_nestedWithin henv _) henv r true _).imp fun _ s' h => ?_
    exact Or.inr ⟨⟨h.nesting, h.text⟩, h.level⟩

theorem gives_left (id : DeclId) (s : EmitState) :
    Gives (fun _ => True) (leaveRecord id) s fun _ s' =>
      (if s.nesting.head? = some id then s.leave else s).Resumes s' := by
  unfold leaveRecord
  refine Gives.get ?_
  by_cases hhead : s.nesting.head? = some id
  · rw [if_pos (by simpa using hhead), if_pos hhead]
    refine Gives.bind (.modify rfl) fun _ s₁ (hs₁ : s₁ = s.leave) => ?_
    subst hs₁
    exact Restores.line "" _
  · rw [if_neg (by simpa using hhead), if_neg hhead]
    exact .pure (.refl s)

/-- Writes a record that a typedef at top level names. -/
def once (env : EmitEnv) (r : RecordDecl) : Emit PUnit := do
  enterRecord env r
  leaveRecord r.head.id

theorem handle_typedef (head : DeclHead) (underlying : Ty) :
    handle env (.typedef (.typedef head underlying)) = (do
      if ← accept env head then typedef env (once env) head underlying true) := rfl

/-- A record that is left out is not left, unless it is the innermost one anyway. -/
theorem resumes_once (henv : env.Sound) (r : RecordDecl) (s : EmitState)
    (hopen : s.nesting.head? ≠ some r.head.id) : RestoresAt (once env r) s := by
  refine (gives_opened henv r s).bind fun _ s₁ h₁ => (gives_left r.head.id s₁).imp fun _ s' h₂ => ?_
  rcases h₁ with h₁ | h₁
  · -- left out, and the innermost record is another one
    rw [if_neg (h₁.nesting ▸ hopen)] at h₂
    exact h₁.trans h₂
  · have hhead : s₁.nesting.head? = some r.head.id := congrArg List.head? h₁.nesting
    rw [if_pos hhead] at h₂
    exact h₁.inside.trans h₂

/-! ## Events -/

theorem resumes_accepted {head : DeclHead} {x : Emit PUnit} {s : EmitState}
    (hx : RestoresAt x (s.register head.id)) :
    RestoresAt (do if ← accept env head then x) s :=
  Gives.accept (fun _ => .pure (.refl s)) fun _ hnew => hx.imp fun _ _ h => h.register hnew

theorem resumes_define (name : String) (definition : MacroDef) (loc : SourceLoc) (s : EmitState) :
    RestoresAt (handle env (.define name definition loc)) s := by
  by_cases hrelevant : env.isRelevant loc = true
  · unfold RestoresAt Gives
    rw [exec_define hrelevant]
    have h := Resumes.of_adds (.write { s with macros := (s.macros.define name definition loc).2 }
      (((s.macros.define name definition loc).1.getD []).map .line)) (balanced_lines _)
    exact ⟨⟨h.nesting, h.text⟩, h.level⟩
  · have hskip : handle env (.define name definition loc) = pure () := if_neg hrelevant
    rw [hskip]
    exact .pure (.refl s)

theorem restores_function (henv : env.Sound) (head : DeclHead) (f : Function) :
    Restores (function env head f) := by
  unfold function
  dsimp only
  split
  · exact .pure _
  · exact .bind (.strokes (henv.inert_begin _ _).balanced) fun _ => .bind (.block _) fun _ =>
      .bind (.strokes (henv.inert_finish _).balanced) fun _ => .line _

/-- What is reported outside records resumes a state in which no record is open. -/
theorem resumes_handle (henv : env.Sound) {event : Event}
    (hevent : ∀ d, event ≠ .enterRecord d ∧ event ≠ .leaveRecord d) {s : EmitState}
    (hopen : s.nesting = []) : RestoresAt (handle env event) s := by
  have hhead (r : RecordDecl) (id : DeclId) : (s.register id).nesting.head? ≠ some r.head.id := by
    show s.nesting.head? ≠ _
    simp [hopen]
  cases event with
  | beginFile path => exact Restores.lines _ s
  | endFile path => exact .pure (.refl s)
  | define name definition loc => exact resumes_define name definition loc s
  | enterRecord d => exact absurd rfl (hevent d).1
  | leaveRecord d => exact absurd rfl (hevent d).2
  | enumeration d =>
    cases d with
    | enumeration head e =>
      exact resumes_accepted (Restores.strokes (e.balanced_strokes env head) _)
    | _ => exact .pure (.refl s)
  | function d =>
    cases d with
    | function head f => exact resumes_accepted (restores_function henv head f _)
    | _ => exact .pure (.refl s)
  | typedef d =>
    cases d with
    | typedef head underlying =>
      rw [handle_typedef]
      exact resumes_accepted (resumes_typedef fun r _ => resumes_once henv r _ (hhead r head.id))
    | _ => exact .pure (.refl s)
  | variable_ d =>
    cases d with
    | var head v =>
      exact resumes_accepted (Restores.bind (.printed _) (fun _ => .line _) _)
    | _ => exact .pure (.refl s)

end

end Emit

/-! ## Calls -/

namespace Event

def entered? : Event → Option DeclId
  | .enterRecord d => some d.id
  | _ => none

def left? : Event → Option DeclId
  | .leaveRecord d => some d.id
  | _ => none

/-- A record that is entered is left by the next call. -/
inductive Bracketed : List Event → Prop where
  | nil : Bracketed []
  | single {event : Event} {events : List Event}
      (h : ∀ d, event ≠ .enterRecord d ∧ event ≠ .leaveRecord d) :
      Bracketed events → Bracketed (event :: events)
  | record {d : Decl} {events : List Event} :
      Bracketed events → Bracketed (.enterRecord d :: .leaveRecord d :: events)

theorem Bracketed.append {a b : List Event} (ha : Bracketed a) (hb : Bracketed b) :
    Bracketed (a ++ b) := by
  induction ha with
  | nil => exact hb
  | single h _ ih => exact .single h ih
  | record _ ih => exact .record ih

end Event

mutual

theorem Decl.bracketed_events : (d : Decl) → Event.Bracketed d.events
  | .space _ members => Decl.bracketed_eventsAll members
  | .record _ _ _ _ => .record .nil
  | .enumeration _ _ | .function _ _ | .typedef _ _ | .var _ _ | .macroDef _ _ =>
    .single (by simp) .nil

theorem Decl.bracketed_eventsAll : (ds : List Decl) → Event.Bracketed (Decl.eventsAll ds)
  | [] => .nil
  | d :: ds => (Decl.bracketed_events d).append (Decl.bracketed_eventsAll ds)

end

theorem TranslationUnit.bracketed_events (unit : TranslationUnit) :
    Event.Bracketed unit.events := by
  unfold TranslationUnit.events
  induction unit.files with
  | nil => exact .nil
  | cons file files ih =>
    rw [List.flatMap_cons]
    refine .append (.single (by simp) ?_) ih
    exact (Decl.bracketed_eventsAll file.decls).append (.single (by simp) .nil)

/-- The level is zero, and no record is open or this one alone. -/
def EmitState.Rests (s : EmitState) (id? : Option DeclId) : Prop :=
  s.writer.level = 0 ∧ (s.nesting = [] ∨ ∃ id ∈ id?, s.nesting = [id])

namespace EmitState
variable {s s' : EmitState} {id : DeclId} {id? : Option DeclId}

theorem rests_none_iff : s.Rests none ↔ s.writer.level = 0 ∧ s.nesting = [] := by
  simp [Rests]

theorem Rests.resumes (hs : s.Rests id?) (h : s.Resumes s') : s'.Rests id? := by
  unfold Rests
  rw [h.level, h.nesting]
  exact hs

theorem Rests.entered (hs : s.Rests none) (h : s.Resumes s' ∨ (s.enter id).Resumes s') :
    s'.Rests (some id) := by
  obtain ⟨hlevel, hopen⟩ := rests_none_iff.1 hs
  rcases h with h | h
  · exact ⟨h.level.trans hlevel, Or.inl (h.nesting.trans hopen)⟩
  · refine ⟨h.level.trans hlevel, Or.inr ⟨id, rfl, ?_⟩⟩
    rw [h.nesting, ← hopen]
    rfl

theorem Rests.left (hs : s.Rests (some id))
    (h : (if s.nesting.head? = some id then s.leave else s).Resumes s') : s'.Rests none := by
  obtain ⟨hlevel, hopen | ⟨_, hid, hopen⟩⟩ := hs
  · rw [if_neg (by simp [hopen])] at h
    exact rests_none_iff.2 ⟨h.level.trans hlevel, h.nesting.trans hopen⟩
  · rw [if_pos (by rw [hopen]; exact hid.symm)] at h
    refine rests_none_iff.2 ⟨h.level.trans hlevel, h.nesting.trans ?_⟩
    exact congrArg List.tail hopen

theorem rests_start (options : EmitOptions) : (start options).Rests none :=
  rests_none_iff.2 ⟨by unfold start; split <;> rfl, rfl⟩

end EmitState

namespace Emit
variable {env : EmitEnv} {s : EmitState}

theorem rests_handle (henv : env.Sound) (event : Event) (hs : s.Rests event.left?) :
    Gives (fun _ => True) (handle env event) s fun _ s' => s'.Rests event.entered? := by
  cases event with
  | enterRecord d =>
    cases d with
    | record head info members methods =>
      exact (gives_opened henv ⟨head, info, members, methods⟩ s).imp fun _ _ => hs.entered
    | _ => exact .pure (hs.entered (Or.inl (.refl s)))
  | leaveRecord d => exact (gives_left d.id s).imp fun _ _ => hs.left
  | _ =>
    exact (resumes_handle henv (by simp) (EmitState.rests_none_iff.1 hs).2).imp
      fun _ _ => hs.resumes

theorem rests_accepts (henv : env.Sound) {events front back : List Event} {event : Event}
    {s' : EmitState} (hevents : Event.Bracketed events) (hsplit : events = front ++ event :: back)
    (hs : s.Rests none) (h : Listener.Accepts (handle env) front s s') :
    s'.Rests event.left? := by
  induction hevents generalizing front s with
  | nil => exact absurd hsplit (by simp)
  | @single first events hfirst _ ih =>
    have hleft : first.left? = none ∧ first.entered? = none := by
      cases first with
      | enterRecord d => exact absurd rfl (hfirst d).1
      | leaveRecord d => exact absurd rfl (hfirst d).2
      | _ => exact ⟨rfl, rfl⟩
    cases front with
    | nil =>
      cases h
      rwa [← (List.cons.inj hsplit).1, hleft.1]
    | cons x front =>
      obtain ⟨rfl, hevents⟩ := List.cons.inj hsplit
      obtain ⟨s₁, hcall, hrest⟩ := Listener.Accepts.cons_iff.1 h
      have h₁ := (rests_handle henv first (hleft.1 ▸ hs)).ok hcall
      exact ih hevents (hleft.2 ▸ h₁) hrest
  | @record d events _ ih =>
    match front with
    | [] =>
      cases h
      rwa [← (List.cons.inj hsplit).1]
    | [x] =>
      obtain ⟨rfl, hnext⟩ := List.cons.inj hsplit
      obtain ⟨s₁, hcall, hrest⟩ := Listener.Accepts.cons_iff.1 h
      cases hrest
      rw [← (List.cons.inj hnext).1]
      exact (rests_handle henv (.enterRecord d) hs).ok hcall
    | x :: y :: front =>
      obtain ⟨rfl, hnext⟩ := List.cons.inj hsplit
      obtain ⟨rfl, hevents⟩ := List.cons.inj hnext
      obtain ⟨s₁, hcall, hrest⟩ := Listener.Accepts.cons_iff.1 h
      obtain ⟨s₂, hcall', hrest⟩ := Listener.Accepts.cons_iff.1 hrest
      have h₁ := (rests_handle henv (.enterRecord d) hs).ok hcall
      have h₂ := (rests_handle henv (.leaveRecord d) h₁).ok hcall'
      exact ih hevents h₂ hrest

end Emit

/-- After each call of a walk the level is zero, and no record is open but one that has just been
entered.  Whatever is written for a record, for its members or for a typedef, at any depth and
through any typedef, comes back to the level and to the open records that it has started with, and
only adds to the text. -/
theorem TranslationUnit.levels_restored (unit : TranslationUnit) (options : EmitOptions) :
    let env := EmitEnv.ofUnit unit options .strings
    (∀ front event back s s', unit.events = front ++ event :: back →
      Listener.Accepts (Emit.handle env) front (.start options) s →
      (Emit.handle env event).exec s = (.ok (), s') →
      s'.writer.level = 0 ∧
        (s'.nesting = [] ∨ ∃ d, event = .enterRecord d ∧ s'.nesting = [d.id])) ∧
    (∀ front head underlying back s,
      unit.events = front ++ .typedef (.typedef head underlying) :: back →
      Listener.Accepts (Emit.handle env) front (.start options) s →
      Emit.RestoresAt (Emit.typedef env (Emit.once env) head underlying true)
        (s.register head.id) ∧
      ∀ r, Emit.RestoresAt (Emit.once env r) (s.register head.id)) ∧
    ∀ depth,
      (∀ (r : RecordDecl) topLevel,
        Emit.Restores (r.emit env (Emit.nestedWithin env depth) topLevel)) ∧
      (∀ (r : RecordDecl) polymorphic, Emit.Restores
        (r.members.forM (r.emitMember env (Emit.nestedWithin env depth) polymorphic))) ∧
      (∀ head underlying, Emit.Restores
        (Emit.typedef env (Emit.nestedWithin env depth) head underlying false)) ∧
      ∀ r, Emit.Restores (Emit.nestedWithin env depth r) := by
  intro env
  have henv := EmitEnv.sound_ofUnit unit options
  have hnested := Emit.restores_nestedWithin henv
  have hfront {front back : List Event} {event : Event} {s : EmitState}
      (hsplit : unit.events = front ++ event :: back)
      (haccepts : Listener.Accepts (Emit.handle env) front (.start options) s) :
      s.Rests event.left? :=
    Emit.rests_accepts henv unit.bracketed_events hsplit (EmitState.rests_start options) haccepts
  refine ⟨fun front event back s s' hsplit haccepts hcall => ?_,
    fun front head underlying back s hsplit haccepts => ?_,
    fun depth => ⟨?_, ?_, ?_, hnested depth⟩⟩
  · obtain ⟨hlevel, hopen⟩ := (Emit.rests_handle henv event (hfront hsplit haccepts)).ok hcall
    refine ⟨hlevel, hopen.imp_right ?_⟩
    rintro ⟨id, hid, hentered⟩
    cases event with
    | enterRecord d => exact ⟨d, rfl, Option.some.inj hid ▸ hentered⟩
    | _ => exact nomatch hid
  · have hclosed := (EmitState.rests_none_iff.1 (hfront hsplit haccepts)).2
    have honce (r : RecordDecl) : Emit.RestoresAt (Emit.once env r) (s.register head.id) := by
      refine Emit.resumes_once henv r _ ?_
      show s.nesting.head? ≠ _
      simp [hclosed]
    exact ⟨Emit.resumes_typedef fun r _ => honce r, honce⟩
  · exact Emit.restores_emit (hnested depth) henv
  · intro r polymorphic
    exact .forM r.members (Emit.restores_emitMember (hnested depth) r polymorphic)
  · exact fun head underlying => Emit.restores_typedef (hnested depth) head underlying false

def pathHead : DeclHead := { id := 1, name := some "Path" }

/-- A typedef of a struct that has a typedef of another struct and one of its own. -/
def pathUnit : TranslationUnit :=
  ⟨[⟨"path.h", [.typedef pathHead (.record ⟨2, "Node"⟩),
    .record { id := 2, name := some "Node" } { tag := .struct }
      [.typedef { id := 3, name := some "Mark" } (.record ⟨5, "Flag"⟩),
        .record { id := 4, name := some "Link" } { tag := .struct } [] []] [],
    .record { id := 5, name := some "Flag" } { tag := .struct } [] []]⟩]⟩

def pathEnv : EmitEnv := .ofUnit pathUnit { preamble := false } .strings

def pathStart : EmitState :=
  ((Emit.handle pathEnv (.beginFile "path.h")).exec (.start { preamble := false })).2

def pathEnd : EmitState :=
  ((Emit.handle pathEnv (.typedef (.typedef pathHead (.record ⟨2, "Node"⟩)))).exec pathStart).2

/-- The typedef writes all three structs, one inside the other, and closes them again. -/
theorem pathUnit_restored :
    Listener.Accepts (Emit.handle pathEnv) [.beginFile "path.h"] (.start { preamble := false })
      pathStart ∧
    (Emit.handle pathEnv (.typedef (.typedef pathHead (.record ⟨2, "Node"⟩)))).exec pathStart =
      (.ok (), pathEnd) ∧
    pathEnd.registered = [4, 5, 3, 2, 1] ∧ pathEnd.writer.level = 0 ∧ pathEnd.nesting = [] ∧
    (pathStart.register 1).Resumes pathEnd := by
  have haccepts : Listener.Accepts (Emit.handle pathEnv) [.beginFile "path.h"]
      (.start { preamble := false }) pathStart := .cons rfl (.nil _)
  have hcall : (Emit.handle pathEnv (.typedef (.typedef pathHead (.record ⟨2, "Node"⟩)))).exec
      pathStart = (.ok (), pathEnd) := rfl
  have htypedef : (Emit.typedef pathEnv (Emit.once pathEnv) pathHead (.record ⟨2, "Node"⟩)
      true).exec (pathStart.register 1) = (.ok (), pathEnd) := by
    have haccept : (Emit.accept pathEnv pathHead).exec pathStart =
        (.ok true, pathStart.register 1) := rfl
    rw [Emit.handle_typedef, Emit.exec_bind, haccept] at hcall
    exact hcall
  obtain ⟨hcalls, htypedefs, -⟩ := pathUnit.levels_restored { preamble := false }
  obtain ⟨hlevel, hopen⟩ :=
    hcalls [.beginFile "path.h"] _ _ pathStart pathEnd rfl haccepts hcall
  have hresumes := (htypedefs [.beginFile "path.h"] pathHead _ _ pathStart rfl haccepts).1
  refine ⟨haccepts, hcall, by decide +kernel, hlevel, ?_, hresumes.ok htypedef⟩
  exact hopen.resolve_right fun ⟨_, he, _⟩ => nomatch he

end DBindings
