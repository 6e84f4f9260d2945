import DBindings.Proofs.Document.Records
import DBindings.Proofs.Tree.Scopes

/-!
# The entries of a run

Each event adds entries to the module.  An event that has been handled is settled: its declaration
is registered, or it is one that is left out in every state.  Settled events stay settled, and
handling one again does nothing.

* `Emit.perform`            handles events one after the other;
* `Emit.gives_handle`       what an event adds;
* `Emit.gives_perform`      what a run adds;
* `Emit.exec_of_settled`    a settled event does nothing;
* `Event.Paired`            each record that is entered is left again;
* `TranslationUnit.events`  the events of a unit;
* `TranslationUnit.drive_eq_forM`  a walk makes the calls of these, whatever listens to it;
* `TranslationUnit.Consists`       what is so of a module and its entries when a unit is written.
-/

namespace DBindings
open Entry (additionAll FitsAll)

namespace Event

/-- The declaration that an event hands over for writing, if it is of the kind that it says. -/
def source? : Event → Option Decl
  | .enterRecord (.record head info members methods) => some (.record head info members methods)
  | .enumeration (.enumeration head e) => some (.enumeration head e)
  | .function (.function head f) => some (.function head f)
  | .typedef (.typedef head underlying) => some (.typedef head underlying)
  | .variable_ (.var head v) => some (.var head v)
  | _ => none

/-- A declaration or macro is handed over. -/
def isEntry : Event → Bool
  | .beginFile _ | .endFile _ | .leaveRecord _ => false
  | _ => true

end Event

/-- Declared inside a template. -/
def Decl.isDependent (d : Decl) : Bool := d.record?.any (·.info.dependent)

namespace Event

/-- What an event hands over has been registered, or it is left out. -/
def Settled (env : EmitEnv) (s : EmitState) (event : Event) : Prop :=
  (∀ d ∈ event.source?, d.isDependent = false → env.isRelevant d.head.loc = true →
    d.id ∈ s.registered) ∧
  ∀ name definition loc, event = .define name definition loc → env.isRelevant loc = true →
    definition.isSkipped = true ∨ name ∈ s.macros.seen

/-- What an event does to the records that are open: only entering a record opens one. -/
def Moves (event : Event) (before after : List DeclId) : Prop :=
  match event with
  | .enterRecord d => after = before ∨ after = d.id :: before
  | .leaveRecord d => after = if before.head? == some d.id then before.tail else before
  | _ => after.Sublist before

theorem Settled.mono {env : EmitEnv} {s s' : EmitState} {a : Addition} {event : Event}
    (h : event.Settled env s) (hs : s.Extends s' a) : event.Settled env s' := by
  refine ⟨fun d hd hindependent hrelevant => ?_, fun name definition loc he hrelevant => ?_⟩
  · exact hs.registered_subset (h.1 d hd hindependent hrelevant)
  · exact (h.2 name definition loc he hrelevant).imp_right fun hn => hs.constants_subset hn

/-- Each record that is entered is left again, after other events in between, if any. -/
inductive Paired : List Event → Prop where
  | nil : Paired []
  | single {event : Event} {events : List Event}
      (h : ∀ d, event ≠ .enterRecord d ∧ event ≠ .leaveRecord d) :
      Paired events → Paired (event :: events)
  | record {d : Decl} {inside events : List Event} : Paired inside → Paired events →
      Paired (.enterRecord d :: inside ++ .leaveRecord d :: events)

theorem Moves.refl {event : Event} (h : ∀ d, event ≠ .leaveRecord d) (n : List DeclId) :
    event.Moves n n := by
  cases event with
  | enterRecord d => exact Or.inl rfl
  | leaveRecord d => exact absurd rfl (h d)
  | _ => exact List.Sublist.refl n

/-- A record that may have been opened is not open when it has been left. -/
theorem sublist_of_left {id : DeclId} {before after : List DeclId}
    (h : after.Sublist before ∨ after.Sublist (id :: before)) :
    (if after.head? == some id then after.tail else after).Sublist before := by
  by_cases hhead : (after.head? == some id) = true
  · rw [if_pos hhead]
    rcases h with h | h
    · exact (List.tail_sublist after).trans h
    · exact h.tail
  · rw [if_neg hhead]
    rcases h with h | h
    · exact h
    · cases h with
      | cons _ h => exact h
      | cons_cons _ h => exact absurd (by simp) hhead

theorem Settled.of_none {env : EmitEnv} {s : EmitState} {event : Event} (h : event.source? = none)
    (hdefine : ∀ name definition loc, event ≠ .define name definition loc) :
    event.Settled env s := by
  refine ⟨fun d hd => ?_, fun name definition loc he => absurd he (hdefine name definition loc)⟩
  rw [h] at hd
  exact nomatch hd

theorem Settled.of_registered {env : EmitEnv} {s : EmitState} {event : Event} {d : Decl}
    (h : event.source? = some d)
    (hd : d.isDependent = false → env.isRelevant d.head.loc = true → d.id ∈ s.registered) :
    event.Settled env s := by
  refine ⟨fun d' hd' => ?_, fun name definition loc he => ?_⟩
  · rw [h] at hd'
    rw [← Option.some.inj hd']
    exact hd
  · rw [he] at h
    exact nomatch h

end Event

namespace Emit

/-- Handles events one after the other. -/
def perform (env : EmitEnv) (events : List Event) : Emit PUnit := events.forM (handle env)

variable {env : EmitEnv} {s : EmitState}

/-- Entries are added for what events hand over, in order. -/
def AddsEntries (env : EmitEnv) (events : List Event) (s s' : EmitState) : Prop :=
  ∃ entries, FitsAll env none entries ∧
    (entries.filterMap Entry.source?).Sublist (events.filterMap Event.source?) ∧
    s.Extends s' (additionAll env none entries)

namespace AddsEntries

theorem nothing (events : List Event) (s : EmitState) : AddsEntries env events s s :=
  ⟨[], trivial, List.nil_sublist _, .refl s⟩

theorem single {event : Event} {s' : EmitState} {e : Entry} (hfits : e.Fits env none)
    (hsource : e.source? = event.source?) (h : s.Extends s' (e.addition env none)) :
    AddsEntries env [event] s s' := by
  refine ⟨[e], Entry.fitsAll_singleton.2 hfits, ?_, ?_⟩
  · unfold List.filterMap
    rw [hsource]
    exact List.Sublist.refl _
  · rw [Entry.additionAll_singleton]
    exact h

theorem append {a b : List Event} {s' s'' : EmitState} (h : AddsEntries env a s s')
    (h' : AddsEntries env b s' s'') : AddsEntries env (a ++ b) s s'' := by
  obtain ⟨as, hfits, hsource, h⟩ := h
  obtain ⟨bs, hfits', hsource', h'⟩ := h'
  refine ⟨as ++ bs, Entry.fitsAll_append.2 ⟨hfits, hfits'⟩, ?_, ?_⟩
  · rw [List.filterMap_append, List.filterMap_append]
    exact hsource.append hsource'
  · rw [Entry.additionAll_append]
    exact h.trans h'

end AddsEntries

/-- What handling an event does. -/
structure Handles (env : EmitEnv) (event : Event) (s s' : EmitState) : Prop where
  entries : AddsEntries env [event] s s'
  settled : event.Settled env s'
  moves : event.Moves s.nesting s'.nesting

/-! ## Records -/

theorem gives_enterRecord (hindex : env.index.Closed) (r : RecordDecl)
    (hr : r.toDecl ∈ env.index.decls) (s : EmitState) :
    Gives env.Overflows (enterRecord env r) s fun _ s' =>
      (r.info.dependent = false → env.isRelevant r.head.loc = true →
        r.head.id ∈ s'.registered) ∧
      (s'.nesting = s.nesting ∨ s'.nesting = r.head.id :: s.nesting) ∧
      AddsNamed env none r s s' := by
  unfold enterRecord
  by_cases hdependent : r.info.dependent = true
  · rw [if_pos hdependent]
    exact .pure ⟨fun h => absurd hdependent (by simp [h]), Or.inl rfl, .nothing none r s⟩
  · rw [if_neg hdependent]
    have hindependent : r.info.dependent = false := by simpa using hdependent
    refine Gives.accept (fun hold => .pure ⟨fun _ => hold, Or.inl rfl, .nothing none r s⟩)
      fun hrelevant hnew => ?_
    refine Gives.bind (.modify rfl) fun _ s₁ (hs₁ : s₁ = (s.register r.head.id).enter _) => ?_
    subst hs₁
    refine (RecordDecl.gives_emit hindex (addsRecords_nested hindex) r hr hindependent true _).imp
      fun _ s' h => ?_
    obtain ⟨asked, members, hfits, hsource, hforward, hmember, hfit, h⟩ := h
    have hadmitted : r.Admitted env none :=
      ⟨hr, hindependent, fun _ => hrelevant, fun h => absurd rfl h, hfit⟩
    refine ⟨fun _ _ => h.registered_subset List.mem_cons_self, Or.inr h.nesting,
      [.record r asked members], ⟨⟨hadmitted, hfits, hsource, hforward, hmember⟩, trivial⟩, ?_,
      List.Sublist.refl _, ?_⟩
    · intro e he
      rw [List.mem_singleton.1 he]
      exact rfl
    · have hadds := ((EmitState.Extends.register hnew).trans
        (.of_nesting (r.head.id :: s.nesting))).trans h.toExtends
      rw [Entry.additionAll_singleton, Entry.addition]
      simp only [Addition.append_none, ← Addition.append_assoc] at hadds ⊢
      exact hadds

theorem gives_leaveRecord (id : DeclId) (s : EmitState) :
    Gives env.Overflows (leaveRecord id) s fun _ s' =>
      s'.nesting = (if s.nesting.head? == some id then s.nesting.tail else s.nesting) ∧
      ∃ entries, FitsAll env none entries ∧ (∀ e ∈ entries, e = .gap) ∧
        s.Extends s' (additionAll env none entries) := by
  unfold leaveRecord
  refine Gives.get ?_
  by_cases hhead : (s.nesting.head? == some id) = true
  · rw [if_pos hhead, if_pos hhead]
    refine Gives.bind (.modify rfl) fun _ s₁ (hs₁ : s₁ = s.leave) => ?_
    subst hs₁
    refine (Gives.line "").imp fun _ s' h => ⟨h.nesting, [.gap], ⟨trivial, trivial⟩, ?_, ?_⟩
    · exact fun e he => List.mem_singleton.1 he
    · exact (EmitState.Extends.of_nesting s.nesting.tail).trans h.toExtends
  · rw [if_neg hhead, if_neg hhead]
    exact .pure ⟨rfl, [], trivial, fun _ he => absurd he List.not_mem_nil, .refl s⟩

theorem source?_gaps {gaps : List Entry} (h : ∀ e ∈ gaps, e = .gap) :
    gaps.filterMap Entry.source? = [] := by
  rw [List.filterMap_eq_nil_iff]
  intro e he
  rw [h e he]
  rfl

theorem gives_namedRecord (hindex : env.index.Closed) (r : RecordDecl)
    (hr : r.toDecl ∈ env.index.decls) (s : EmitState) :
    Gives env.Overflows (do enterRecord env r; leaveRecord r.head.id) s fun _ s' =>
      s'.nesting.Sublist s.nesting ∧ AddsNamed env none r s s' := by
  refine (gives_enterRecord hindex r hr s).bind fun _ s₁ h₁ => ?_
  obtain ⟨-, hmoved, entries, hfits, hof, hsource, h₁⟩ := h₁
  refine (gives_leaveRecord r.head.id s₁).imp fun _ s' ⟨hleft, gaps, hfits', hgap, h₂⟩ => ?_
  refine ⟨?_, entries ++ gaps, Entry.fitsAll_append.2 ⟨hfits, hfits'⟩, ?_, ?_, ?_⟩
  · rw [hleft]
    refine Event.sublist_of_left (hmoved.imp ?_ ?_)
    all_goals
      intro hmoved
      rw [hmoved]
  · intro e he
    rcases List.mem_append.1 he with he | he
    · exact hof e he
    · rw [hgap e he]
      exact trivial
  · rw [List.filterMap_append, source?_gaps hgap, List.append_nil]
    exact hsource
  · rw [Entry.additionAll_append]
    exact h₁.trans h₂

/-! ## Events -/

theorem exec_define {name : String} {definition : MacroDef} {loc : SourceLoc}
    (h : env.isRelevant loc = true) (s : EmitState) :
    (handle env (.define name definition loc)).exec s =
      (.ok (), EmitState.write { s with macros := (s.macros.define name definition loc).2 }
        (((s.macros.define name definition loc).1.getD []).map .line)) := by
  unfold handle
  dsimp only
  rw [if_pos h]
  rfl

theorem gives_define (name : String) (definition : MacroDef) (loc : SourceLoc) (s : EmitState) :
    Gives env.Overflows (handle env (.define name definition loc)) s fun _ s' =>
      Handles env (.define name definition loc) s s' := by
  have hsettled (s' : EmitState) (h : env.isRelevant loc = true →
      definition.isSkipped = true ∨ name ∈ s'.macros.seen) :
      Event.Settled env s' (.define name definition loc) := by
    refine ⟨fun d hd => (nomatch hd), fun n m l he hrelevant => ?_⟩
    obtain ⟨rfl, rfl, rfl⟩ := Event.define.inj he
    exact h hrelevant
  by_cases hrelevant : env.isRelevant loc = true
  · unfold Gives
    rw [exec_define hrelevant]
    by_cases hold : (definition.isSkipped || s.macros.seen.contains name) = true
    · have hdefine : s.macros.define name definition loc = (none, s.macros) := if_pos hold
      rw [hdefine]
      have hseen : definition.isSkipped = true ∨ name ∈ s.macros.seen := by simpa using hold
      exact ⟨⟨[], trivial, List.nil_sublist _, .write s []⟩, hsettled _ fun _ => hseen,
        List.Sublist.refl _⟩
    · have hdefine : s.macros.define name definition loc =
          (some (definition.lines name loc), ⟨name :: s.macros.seen⟩) := if_neg hold
      have hadds := EmitState.Extends.define hdefine
      rw [hdefine]
      refine ⟨.single (e := .constant name definition loc) ⟨rfl, hrelevant⟩ rfl hadds,
        hsettled _ fun _ => Or.inr List.mem_cons_self, List.Sublist.refl _⟩
  · have hskip : handle env (.define name definition loc) = pure () := if_neg hrelevant
    rw [hskip]
    exact .pure ⟨.nothing _ s, hsettled s fun h => absurd h hrelevant, List.Sublist.refl _⟩

theorem gives_leaf {event : Event} {d : Decl} (hd : d ∈ env.index.decls)
    (hsource : event.source? = some d) (hkind : d.isEnumeration = true ∨ d.isCode = true)
    {x : Emit PUnit}
    (hx : ∀ s, Gives env.Overflows x s fun _ s' => s.Adds s' (.ofCode (d.leafCode env)))
    (s : EmitState) :
    Gives env.Overflows (do if ← accept env d.head then x) s fun _ s' =>
      Handles env event s s' := by
  have hmoves (n : List DeclId) : event.Moves n n :=
    .refl (fun d' he => nomatch he ▸ hsource) n
  refine Gives.accept (fun hold => ?_) fun hrelevant hnew => ?_
  · exact .pure ⟨.nothing _ s, .of_registered hsource fun _ => hold, hmoves _⟩
  · refine (hx _).imp fun _ s' h => ⟨?_, ?_, ?_⟩
    · have hfits : (Entry.leaf d).Fits env none :=
        ⟨hd, fun _ => hrelevant, hkind.imp_right fun h => ⟨h, rfl⟩⟩
      exact .single hfits hsource.symm ((EmitState.Extends.register hnew).trans h.toExtends)
    · exact .of_registered hsource fun _ _ => h.registered_subset List.mem_cons_self
    · rw [h.nesting]
      exact hmoves _

theorem gives_function (head : DeclHead) (f : Function) (s : EmitState) :
    Gives env.Overflows (function env head f) s fun _ s' =>
      s.Adds s' (.ofCode (Decl.leafCode env (.function head f))) := by
  unfold function Decl.leafCode
  dsimp only
  by_cases hop : "operator".toList.isPrefixOf (head.name.getD "").toList = true
  · rw [if_pos hop, if_pos hop]
    exact .pure (.refl s)
  · rw [if_neg hop, if_neg hop]
    refine (Gives.strokes _).bind fun _ s₁ h₁ => ?_
    refine (Gives.block _).bind fun _ s₂ h₂ => ?_
    refine (Gives.strokes _).bind fun _ s₃ h₃ => ?_
    exact (Gives.line "").imp fun _ s' h₄ => ((h₁.trans h₂).trans h₃).trans h₄

theorem gives_typedefEvent (hindex : env.index.Closed) (head : DeclHead) (underlying : Ty)
    (hd : .typedef head underlying ∈ env.index.decls) (s : EmitState) :
    Gives env.Overflows (handle env (.typedef (.typedef head underlying))) s fun _ s' =>
      Handles env (.typedef (.typedef head underlying)) s s' := by
  refine Gives.accept (fun hold => ?_) fun hrelevant hnew => ?_
  · exact .pure ⟨.nothing _ s, .of_registered rfl fun _ => hold, List.Sublist.refl _⟩
  · refine (gives_typedef none (fun n n' => n'.Sublist n) List.Sublist.refl
      (gives_namedRecord hindex) head underlying _).imp fun _ s' h => ?_
    obtain ⟨hn, target, hfits, hof, h⟩ := h
    refine ⟨?_, .of_registered rfl fun _ _ => h.registered_subset List.mem_cons_self, hn⟩
    refine .single (e := .typedef head underlying target)
      ⟨hd, fun _ => hrelevant, hfits, hof⟩ rfl ?_
    have hadds := (EmitState.Extends.register hnew).trans h
    rw [← Addition.append_assoc] at hadds
    exact hadds

/-- An event whose declaration is of another kind is left out. -/
theorem handles_nothing {event : Event} (hsource : event.source? = none)
    (hdefine : ∀ name definition loc, event ≠ .define name definition loc)
    (hleave : ∀ d, event ≠ .leaveRecord d) (s : EmitState) : Handles env event s s :=
  ⟨.nothing _ s, .of_none hsource hdefine, .refl hleave _⟩

theorem gives_handle (hindex : env.index.Closed) (event : Event) (hevent : EventIn env.index event)
    (s : EmitState) :
    Gives env.Overflows (handle env event) s fun _ s' => Handles env event s s' := by
  cases event with
  | beginFile path =>
    refine (Gives.lines _).imp fun _ s' h => ⟨?_, ?_, ?_⟩
    · exact .single (e := .banner path) rfl rfl h.toExtends
    · exact .of_none rfl fun _ _ _ => Event.noConfusion
    · rw [h.nesting]
      exact .refl (fun _ => Event.noConfusion) _
  | endFile path =>
    exact .pure (handles_nothing rfl (by simp) (by simp) s)
  | define name definition loc => exact gives_define name definition loc s
  | enterRecord d =>
    cases d with
    | record head info members methods =>
      let r : RecordDecl := ⟨head, info, members, methods⟩
      refine (gives_enterRecord hindex r hevent s).imp fun _ s' h => ?_
      obtain ⟨hregistered, hmoved, entries, hfits, -, hsource, h⟩ := h
      exact ⟨⟨entries, hfits, hsource, h⟩, .of_registered rfl hregistered, hmoved⟩
    | _ => exact .pure (handles_nothing rfl (by simp) (by simp) s)
  | leaveRecord d =>
    refine (gives_leaveRecord d.id s).imp fun _ s' h => ?_
    obtain ⟨hleft, gaps, hfits, hgap, h⟩ := h
    refine ⟨⟨gaps, hfits, ?_, h⟩, .of_none rfl fun _ _ _ => Event.noConfusion, hleft⟩
    rw [source?_gaps hgap]
    exact List.nil_sublist _
  | enumeration d =>
    cases d with
    | enumeration head e =>
      exact gives_leaf hevent rfl (Or.inl rfl) (fun _ => .strokes _) s
    | _ => exact .pure (handles_nothing rfl (by simp) (by simp) s)
  | function d =>
    cases d with
    | function head f =>
      exact gives_leaf hevent rfl (Or.inr rfl) (gives_function head f) s
    | _ => exact .pure (handles_nothing rfl (by simp) (by simp) s)
  | typedef d =>
    cases d with
    | typedef head underlying => exact gives_typedefEvent hindex head underlying hevent s
    | _ => exact .pure (handles_nothing rfl (by simp) (by simp) s)
  | variable_ d =>
    cases d with
    | var head v =>
      refine gives_leaf hevent rfl (Or.inr rfl) (fun s => ?_) s
      refine (Gives.printed _).bind fun text s₁ ⟨htext, h₁⟩ => ?_
      subst htext
      exact (Gives.line _).imp fun _ s' h₂ => h₁.trans h₂
    | _ => exact .pure (handles_nothing rfl (by simp) (by simp) s)

/-! ## Runs -/

theorem perform_append (a b : List Event) :
    perform env (a ++ b) = perform env a >>= fun _ => perform env b := by
  induction a with
  | nil => rfl
  | cons event a ih =>
    show handle env event >>= (fun _ => perform env (a ++ b)) = _
    rw [ih]
    exact (bind_assoc _ _ _).symm

/-- What a run adds, and that it settles its events. -/
theorem gives_perform (hindex : env.index.Closed) (events : List Event)
    (hevents : ∀ event ∈ events, EventIn env.index event) (s : EmitState) :
    Gives env.Overflows (perform env events) s fun _ s' => AddsEntries env events s s' ∧
      ∀ event ∈ events, event.Settled env s' := by
  induction events generalizing s with
  | nil => exact .pure ⟨.nothing [] s, fun _ h => absurd h List.not_mem_nil⟩
  | cons event events ih =>
    show Gives _ (handle env event >>= fun _ => perform env events) s _
    refine (gives_handle hindex event (hevents event List.mem_cons_self) s).bind fun _ s₁ h₁ => ?_
    refine (ih (fun e he => hevents e (List.mem_cons_of_mem _ he)) s₁).imp fun _ s' h₂ => ?_
    refine ⟨h₁.entries.append h₂.1, fun e he => ?_⟩
    rcases List.mem_cons.1 he with rfl | he
    · obtain ⟨entries, -, -, hadds⟩ := h₂.1
      exact h₁.settled.mono hadds
    · exact h₂.2 e he

/-! ## Repetition -/

theorem exec_accept_of_settled {head : DeclHead} {s : EmitState}
    (h : env.isRelevant head.loc = true → head.id ∈ s.registered) :
    (accept env head).exec s = (.ok false, s) := by
  unfold accept
  by_cases hrelevant : env.isRelevant head.loc = true
  · rw [if_pos hrelevant]
    exact exec_register_of_mem (h hrelevant)
  · rw [if_neg hrelevant]
    rfl

theorem exec_accepted_of_settled {head : DeclHead} {x : Emit PUnit} {s : EmitState}
    (h : env.isRelevant head.loc = true → head.id ∈ s.registered) :
    (do if ← accept env head then x).exec s = (.ok (), s) := by
  rw [exec_bind, exec_accept_of_settled h]
  rfl

theorem exec_enterRecord_of_settled {r : RecordDecl} {s : EmitState}
    (h : r.info.dependent = false → env.isRelevant r.head.loc = true → r.head.id ∈ s.registered) :
    (enterRecord env r).exec s = (.ok (), s) := by
  unfold enterRecord
  by_cases hdependent : r.info.dependent = true
  · rw [if_pos hdependent]
    rfl
  · rw [if_neg hdependent, exec_bind, exec_accept_of_settled (h (by simpa using hdependent))]
    rfl

theorem exec_define_of_settled {name : String} {definition : MacroDef} {loc : SourceLoc}
    {s : EmitState}
    (h : env.isRelevant loc = true → definition.isSkipped = true ∨ name ∈ s.macros.seen) :
    (handle env (.define name definition loc)).exec s = (.ok (), s) := by
  by_cases hrelevant : env.isRelevant loc = true
  · have hold : (definition.isSkipped || s.macros.seen.contains name) = true := by
      simpa using h hrelevant
    have hdefine : s.macros.define name definition loc = (none, s.macros) := if_pos hold
    have hsame : s.write [] = s := by
      unfold EmitState.write
      simp
    rw [exec_define hrelevant, hdefine]
    exact congrArg (Prod.mk _) hsame
  · have hskip : handle env (.define name definition loc) = pure () := if_neg hrelevant
    rw [hskip]
    rfl

/-- A settled event that hands something over does nothing. -/
theorem exec_of_settled {event : Event} (hentry : event.isEntry = true) {s : EmitState}
    (h : event.Settled env s) : (handle env event).exec s = (.ok (), s) := by
  cases event with
  | beginFile _ | endFile _ | leaveRecord _ => exact nomatch hentry
  | define name definition loc => exact exec_define_of_settled (h.2 name definition loc rfl)
  | enterRecord d =>
    cases d with
    | record head info members methods => exact exec_enterRecord_of_settled (h.1 _ rfl)
    | _ => rfl
  | enumeration d =>
    cases d with
    | enumeration head e => exact exec_accepted_of_settled (h.1 _ rfl rfl)
    | _ => rfl
  | function d =>
    cases d with
    | function head f => exact exec_accepted_of_settled (h.1 _ rfl rfl)
    | _ => rfl
  | typedef d =>
    cases d with
    | typedef head underlying => exact exec_accepted_of_settled (h.1 _ rfl rfl)
    | _ => rfl
  | variable_ d =>
    cases d with
    | var head v => exact exec_accepted_of_settled (h.1 _ rfl rfl)
    | _ => rfl

theorem exec_leaveRecord_of_ne {id : DeclId} {s : EmitState} (h : s.nesting.head? ≠ some id) :
    (leaveRecord id).exec s = (.ok (), s) := by
  have hhead : ¬ (s.nesting.head? == some id) = true := by simpa using h
  unfold leaveRecord
  rw [exec_bind, exec_get]
  dsimp only
  rw [if_neg hhead]
  rfl

/-- When records have been left again, none is open that was not open before. -/
theorem nesting_perform (hindex : env.index.Closed) {events : List Event}
    (hpaired : Event.Paired events) (hevents : ∀ event ∈ events, EventIn env.index event)
    (s : EmitState) :
    Gives env.Overflows (perform env events) s fun _ s' => s'.nesting.Sublist s.nesting := by
  induction hpaired generalizing s with
  | nil => exact .pure (.refl _)
  | @single event events hother _ ih =>
    show Gives _ (handle env event >>= fun _ => perform env events) s _
    refine (gives_handle hindex event (hevents event List.mem_cons_self) s).bind fun _ s₁ h₁ => ?_
    have hmoved : s₁.nesting.Sublist s.nesting := by
      have hmoves := h₁.moves
      cases event with
      | enterRecord d => exact absurd rfl (hother d).1
      | leaveRecord d => exact absurd rfl (hother d).2
      | _ => exact hmoves
    refine (ih (fun e he => hevents e (List.mem_cons_of_mem _ he)) s₁).imp fun _ s' h₂ => ?_
    exact h₂.trans hmoved
  | @record d inside events _ _ ihInside ih =>
    rw [List.cons_append]
    show Gives _ (handle env (.enterRecord d) >>= fun _ =>
      perform env (inside ++ .leaveRecord d :: events)) s _
    rw [perform_append]
    refine (gives_handle hindex _ (hevents _ (by simp)) s).bind fun _ s₁ h₁ => ?_
    refine (ihInside (fun e he => hevents e (by simp [he])) s₁).bind fun _ s₂ h₂ => ?_
    show Gives _ (handle env (.leaveRecord d) >>= fun _ => perform env events) s₂ _
    refine (gives_handle hindex (.leaveRecord d) (hevents _ (by simp)) s₂).bind fun _ s₃ h₃ => ?_
    refine (ih (fun e he => hevents e (by simp [he])) s₃).imp fun _ s' h₄ => h₄.trans ?_
    have hentered : s₁.nesting = s.nesting ∨ s₁.nesting = d.id :: s.nesting := h₁.moves
    have hleft : s₃.nesting = _ := h₃.moves
    rw [hleft]
    refine Event.sublist_of_left (hentered.imp ?_ ?_)
    all_goals
      intro hentered
      rw [← hentered]
      exact h₂

end Emit

/-! ## Units -/

mutual

def Decl.events : Decl → List Event
  | .space _ members => eventsAll members
  | .record head info members methods =>
    [.enterRecord (.record head info members methods),
      .leaveRecord (.record head info members methods)]
  | .enumeration head e => [.enumeration (.enumeration head e)]
  | .function head f => [.function (.function head f)]
  | .typedef head underlying => [.typedef (.typedef head underlying)]
  | .var head v => [.variable_ (.var head v)]
  | .macroDef head definition => [.define (head.name.getD "") definition head.loc]

def Decl.eventsAll : List Decl → List Event
  | [] => []
  | d :: ds => Decl.events d ++ Decl.eventsAll ds

end

namespace TranslationUnit

def events (unit : TranslationUnit) : List Event :=
  unit.files.flatMap fun file => .beginFile file.path :: (Decl.eventsAll file.decls ++
    [.endFile file.path])

end TranslationUnit

section
variable {m : Type → Type} [Monad m] [LawfulMonad m] (sink : Event → m PUnit)

mutual

theorem Decl.drive_eq_forM : (d : Decl) → d.drive sink = d.events.forM sink
  | .space head members => by
    rw [Decl.drive, Decl.events]
    exact Decl.driveAll_eq_forM members
  | .record head info members methods => by
    rw [Decl.drive, Decl.events]
    simp
  | .enumeration _ _ | .function _ _ | .typedef _ _ | .var _ _ | .macroDef _ _ => by
    rw [Decl.drive, Decl.events]
    simp

theorem Decl.driveAll_eq_forM :
    (ds : List Decl) → Decl.driveAll sink ds = (Decl.eventsAll ds).forM sink
  | [] => rfl
  | d :: ds => by
    rw [Decl.driveAll, Decl.eventsAll, List.forM_eq_forM, List.forM_append, Decl.drive_eq_forM d,
      Decl.driveAll_eq_forM ds]
    rfl

end

theorem TranslationUnit.drive_eq_forM (unit : TranslationUnit) :
    unit.drive sink = unit.events.forM sink := by
  unfold TranslationUnit.drive TranslationUnit.events
  induction unit.files with
  | nil => rfl
  | cons file files ih =>
    rw [List.forM_eq_forM] at ih
    rw [List.forM_eq_forM, List.forM_eq_forM, List.forM_cons, List.flatMap_cons, List.cons_append,
      List.forM_cons, List.forM_append, List.forM_append, ih, Decl.driveAll_eq_forM]
    simp

end

namespace Emit
variable {env : EmitEnv}

/-- Walking a unit is handling its events. -/
theorem drive_unit_eq_perform (unit : TranslationUnit) :
    unit.drive (handle env) = perform env unit.events := unit.drive_eq_forM (handle env)

mutual

theorem eventIn_events {index : DeclIndex} {event : Event} : (d : Decl) →
    (∀ e ∈ d.walk, e ∈ index.decls) → event ∈ d.events → EventIn index event
  | .space head members, h, he =>
    eventIn_eventsAll members (fun e hm => h e (List.mem_cons_of_mem _ hm)) he
  | .record head info members methods, h, he => by
    have hd := h _ (Decl.mem_walk_self _)
    rcases List.mem_cons.1 he with rfl | he
    · exact hd
    · rw [List.mem_singleton.1 he]
      exact hd
  | .enumeration _ _, h, he | .function _ _, h, he | .typedef _ _, h, he | .var _ _, h, he => by
    rw [List.mem_singleton.1 he]
    exact h _ (Decl.mem_walk_self _)
  | .macroDef _ _, _, he => by
    rw [List.mem_singleton.1 he]
    exact trivial

theorem eventIn_eventsAll {index : DeclIndex} {event : Event} : (ds : List Decl) →
    (∀ e ∈ Decl.walkAll ds, e ∈ index.decls) → event ∈ Decl.eventsAll ds → EventIn index event
  | [], _, he => absurd he List.not_mem_nil
  | d :: ds, h, he => by
    rcases List.mem_append.1 he with he | he
    · exact eventIn_events d (fun e hm => h e (List.mem_append_left _ hm)) he
    · exact eventIn_eventsAll ds (fun e hm => h e (List.mem_append_right _ hm)) he

end

end Emit

namespace TranslationUnit
variable {unit : TranslationUnit}

theorem mem_events {event : Event} : event ∈ unit.events ↔ ∃ file ∈ unit.files,
    event = .beginFile file.path ∨ event ∈ Decl.eventsAll file.decls ∨
      event = .endFile file.path := by
  unfold events
  simp

theorem eventIn_of_mem {event : Event} (h : event ∈ unit.events) :
    Emit.EventIn (.ofUnit unit) event := by
  obtain ⟨file, hfile, rfl | he | rfl⟩ := mem_events.1 h
  · exact trivial
  · exact Emit.eventIn_eventsAll file.decls (fun e hm => mem_walk.2 ⟨file, hfile, hm⟩) he
  · exact trivial

mutual

theorem enterRecord_mem_events {r : RecordDecl} : (d : Decl) → r.toDecl ∈ d.outer →
    .enterRecord r.toDecl ∈ d.events
  | .space _ members, h => enterRecord_mem_eventsAll members h
  | .record _ _ _ _, h => by
    rw [← List.mem_singleton.1 h]
    exact List.mem_cons_self
  | .enumeration _ _, h | .function _ _, h | .typedef _ _, h | .var _ _, h | .macroDef _ _, h =>
    nomatch List.mem_singleton.1 h

theorem enterRecord_mem_eventsAll {r : RecordDecl} : (ds : List Decl) →
    r.toDecl ∈ Decl.outerAll ds → .enterRecord r.toDecl ∈ Decl.eventsAll ds
  | [], h => absurd h List.not_mem_nil
  | d :: ds, h => by
    rcases List.mem_append.1 h with h | h
    · exact List.mem_append_left _ (enterRecord_mem_events d h)
    · exact List.mem_append_right _ (enterRecord_mem_eventsAll ds h)

end

theorem enterRecord_mem {r : RecordDecl} (h : r.toDecl ∈ unit.outer) :
    .enterRecord r.toDecl ∈ unit.events := by
  obtain ⟨file, hfile, h⟩ := List.mem_flatMap.1 h
  exact mem_events.2 ⟨file, hfile, Or.inr (Or.inl (enterRecord_mem_eventsAll file.decls h))⟩

theorem emit_cases (unit : TranslationUnit) (options : EmitOptions) :
    (∃ s, unit.write options (.start options) = (.ok (), s) ∧
      unit.emit options = .ok s.finish) ∨
    ∃ e s, unit.write options (.start options) = (.error e, s) ∧ unit.emit options = .error e := by
  unfold emit
  match unit.write options (.start options) with
  | (.ok _, s) => exact Or.inl ⟨s, rfl, rfl⟩
  | (.error e, s) => exact Or.inr ⟨e, s, rfl, rfl⟩

/-- A unit without requests that wait is the text that has been written. -/
theorem emit_eq_text {options : EmitOptions} {s : EmitState}
    (hwrite : unit.write options (.start options) = (.ok (), s)) (hqueue : s.queue.drain.1 = []) :
    unit.emit options = .ok s.text := by
  unfold emit
  rw [hwrite]
  show Except.ok s.finish = _
  unfold EmitState.finish EmitState.lateRecords
  rw [hqueue]
  simp [EmitState.text]

/-- What a run over a unit adds, and that it settles the events of the unit. -/
theorem gives_drive (unit : TranslationUnit) (options : EmitOptions) (s : EmitState) :
    Emit.Gives (EmitEnv.ofUnit unit options .strings).Overflows
      (unit.drive (Emit.handle (EmitEnv.ofUnit unit options .strings))) s fun _ s' =>
        Emit.AddsEntries (EmitEnv.ofUnit unit options .strings) unit.events s s' ∧
          ∀ event ∈ unit.events, event.Settled (EmitEnv.ofUnit unit options .strings) s' := by
  rw [Emit.drive_unit_eq_perform]
  exact Emit.gives_perform (DeclIndex.closed_ofUnit unit) unit.events
    (fun _ he => eventIn_of_mem he) s

end TranslationUnit

/-- A unit has been written: the state consists of these entries, and all events are settled. -/
structure TranslationUnit.Consists (unit : TranslationUnit) (options : EmitOptions)
    (s : EmitState) (entries : List Entry) : Prop where
  fits : FitsAll (.ofUnit unit options .strings) none entries
  source : (entries.filterMap Entry.source?).Sublist (unit.events.filterMap Event.source?)
  code : s.script.toList = (EmitState.start options).script.toList ++
    (additionAll (.ofUnit unit options .strings) none entries).code
  registered : s.registered =
    (additionAll (.ofUnit unit options .strings) none entries).registered.reverse
  nodup : (additionAll (.ofUnit unit options .strings) none entries).registered.Nodup
  settled : ∀ event ∈ unit.events, event.Settled (.ofUnit unit options .strings) s

namespace TranslationUnit
variable {unit : TranslationUnit} {options : EmitOptions}

theorem consists_of_emit {text : String} (h : unit.emit options = .ok text) :
    ∃ s entries, unit.write options (.start options) = (.ok (), s) ∧
      text = EmitState.finish s ∧ unit.Consists options s entries := by
  rcases unit.emit_cases options with ⟨s, hwrite, hemit⟩ | ⟨e, s, hwrite, hemit⟩
  · obtain ⟨⟨entries, hfits, hsource, hextends⟩, hsettled⟩ :=
      (unit.gives_drive options (.start options)).ok hwrite
    have hregistered : s.registered =
        (additionAll (.ofUnit unit options .strings) none entries).registered.reverse := by
      rw [hextends.registered]
      exact List.append_nil _
    have hnodup := hextends.nodup_registered List.nodup_nil
    rw [hregistered] at hnodup
    exact ⟨s, entries, hwrite, Except.ok.inj (h.symm.trans hemit), hfits, hsource, hextends.code,
      hregistered, List.nodup_reverse.1 hnodup, hsettled⟩
  · rw [hemit] at h
    exact nomatch h

end TranslationUnit

end DBindings
