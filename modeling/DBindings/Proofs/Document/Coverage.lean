import DBindings.Proofs.Document.Kept
import DBindings.Proofs.Document.Recursion

/-!
# No complete record is lost

A complete record that is registered requires its complete members, and a typedef the record that it
names, if that is complete or the typedef stands outside records.  Whatever a step of the emitter
registers, it has registered what this requires when it is over, in whichever order the records are
met.  So when a unit has been written, all its complete records have a place.  A forward declaration
has one if it stands outside records or a typedef outside records names it: a forward declaration
that is a member of a record is left out.

* `EmitEnv.Requires`             what a declaration requires;
* `EmitEnv.Fulfils`              what has been registered in between has what it requires;
* `Emit.Brings`                  what a computation has registered when it succeeds;
* `Emit.brings_nested`           records inside records;
* `Emit.brings_perform`          runs;
* `TranslationUnit.Reaches`      the records of files, namespaces and complete records;
* `TranslationUnit.placed_iff`   which of these records are written, and how.
-/

set_option linter.unusedSectionVars false

namespace DBindings
open Entry (additionAll FitsAll placementsAll WrittenIn)

/-! ## What is required -/

/-- A declaration requires a record to be written when it is registered. -/
inductive EmitEnv.Requires (env : EmitEnv) : Decl → RecordDecl → Prop where
  | member {r inner : RecordDecl} (hcomplete : r.info.complete = true)
      (hmember : inner.toDecl ∈ r.members) (hinner : inner.info.complete = true) :
    Requires env r.toDecl inner
  | named {head : DeclHead} {underlying : Ty} {inner : RecordDecl}
      (hnamed : env.namedRecord? underlying = some inner)
      (hinner : inner.info.complete = true ∨ ∀ r : RecordDecl, r.toDecl ∈ env.index.decls →
        .typedef head underlying ∉ r.members) :
    Requires env (.typedef head underlying) inner

/-- Every declaration of the unit has a number of its own, none stands in a template, and every
file is accepted. -/
structure EmitEnv.Inclusive (env : EmitEnv) : Prop where
  nodup : (env.index.decls.map Decl.id).Nodup
  closed : env.index.Closed
  independent : ∀ r : RecordDecl, r.toDecl ∈ env.index.decls → r.info.dependent = false
  relevant : ∀ loc, env.isRelevant loc = true

/-- A record requires its complete members, if it is complete itself. -/
theorem EmitEnv.requires_record {env : EmitEnv} {r inner : RecordDecl} :
    env.Requires r.toDecl inner ↔ r.info.complete = true ∧ inner.toDecl ∈ r.members ∧
      inner.info.complete = true := by
  constructor
  · intro h
    generalize hd : r.toDecl = d at h
    cases h with
    | member hcomplete hmember hinner =>
      rw [RecordDecl.toDecl_injective hd]
      exact ⟨hcomplete, hmember, hinner⟩
    | named _ _ => cases hd
  · rintro ⟨hcomplete, hmember, hinner⟩
    exact .member hcomplete hmember hinner

/-- What has been registered in between has what it requires. -/
structure EmitEnv.Fulfils (env : EmitEnv) (before after : List DeclId) : Prop where
  subset : before ⊆ after
  required : ∀ d ∈ env.index.decls, d.id ∈ after → d.id ∈ before ∨
    ∀ inner, env.Requires d inner → inner.head.id ∈ after

namespace EmitEnv.Fulfils
variable {env : EmitEnv} {before now after : List DeclId}

theorem refl (env : EmitEnv) (ids : List DeclId) : env.Fulfils ids ids :=
  ⟨List.Subset.refl _, fun _ _ h => Or.inl h⟩

theorem trans (h : env.Fulfils before now) (h' : env.Fulfils now after) :
    env.Fulfils before after := by
  refine ⟨List.Subset.trans h.subset h'.subset, fun d hd hid => ?_⟩
  rcases h'.required d hd hid with hid | hrequired
  · exact (h.required d hd hid).imp_right fun hrequired inner hinner =>
      h'.subset (hrequired inner hinner)
  · exact Or.inr hrequired

/-- A declaration is registered first, and has what it requires in the end. -/
theorem register (henv : env.Inclusive) {d : Decl} (hd : d ∈ env.index.decls)
    (h : env.Fulfils (d.id :: before) after)
    (hrequired : ∀ inner, env.Requires d inner → inner.head.id ∈ after) :
    env.Fulfils before after := by
  refine ⟨List.Subset.trans (List.subset_cons_self _ _) h.subset, fun d' hd' hid => ?_⟩
  rcases h.required d' hd' hid with hid | hrequired'
  · rcases List.mem_cons.1 hid with hid | hid
    · have heq : d' = d := List.inj_on_of_nodup_map henv.nodup hd' hd hid
      rw [heq]
      exact Or.inr hrequired
    · exact Or.inl hid
  · exact Or.inr hrequired'

end EmitEnv.Fulfils

/-! ## What computations bring about -/

namespace Emit

section
variable {α β : Type} {env : EmitEnv} {wanted wanted' goal : RecordDecl → Prop} {s : EmitState}

/-- When the computation has succeeded, these records are registered, and what has been registered
in between has what it requires. -/
def Brings (env : EmitEnv) (wanted : RecordDecl → Prop) (x : Emit α) (s : EmitState) : Prop :=
  Gives (fun _ => True) x s fun _ s' => env.Fulfils s.registered s'.registered ∧
    ∀ r, wanted r → r.head.id ∈ s'.registered

def NoRecord (_ : RecordDecl) : Prop := False

namespace Brings

theorem imp {x : Emit α} (h : Brings env wanted x s) (hgoal : ∀ r, goal r → wanted r) :
    Brings env goal x s :=
  Gives.imp h fun _ _ ⟨hfulfils, hwanted⟩ => ⟨hfulfils, fun r hr => hwanted r (hgoal r hr)⟩

theorem pure {a : α} (h : ∀ r, goal r → r.head.id ∈ s.registered) :
    Brings env goal (Pure.pure a) s :=
  Gives.pure ⟨.refl env _, h⟩

theorem modify {f : EmitState → EmitState} (h : (f s).registered = s.registered) :
    Brings env NoRecord (modify f : Emit PUnit) s := by
  refine Gives.modify ⟨?_, fun _ hr => hr.elim⟩
  rw [h]
  exact .refl env _

theorem of_adds {x : Emit α} (fails : EmitError → Prop)
    (h : Gives fails x s fun _ s' => ∃ code, s.Adds s' (.ofCode code)) :
    Brings env NoRecord x s := by
  refine h.mono (fun _ _ => trivial) fun _ s' ⟨code, hadds⟩ => ⟨?_, fun _ hr => hr.elim⟩
  rw [hadds.registered]
  exact .refl env _

theorem strokes (code : List Stroke) : Brings env NoRecord (Emit.strokes code) s :=
  of_adds (fun _ => False) ((Gives.strokes code).imp fun _ _ h => ⟨code, h⟩)

theorem block (b : Block) : Brings env NoRecord (Emit.block b) s :=
  of_adds (fun _ => False) ((Gives.block b).imp fun _ _ h => ⟨_, h⟩)

theorem printed (p : Printed) : Brings env NoRecord (Emit.printed p) s :=
  of_adds (fun _ => False) ((Gives.printed p).imp fun _ _ h => ⟨[], h.2⟩)

theorem lines (texts : List String) : Brings env NoRecord (Emit.lines texts) s := strokes _

theorem line (text : String) : Brings env NoRecord (Emit.line text) s := strokes _

/-- What is wanted in the end comes from the first computation or from the second. -/
theorem bind {x : Emit α} {f : α → Emit β} (hx : Brings env wanted x s)
    (hf : ∀ a s₁, s.registered ⊆ s₁.registered → Brings env wanted' (f a) s₁)
    (hgoal : ∀ r, goal r → wanted r ∨ wanted' r) : Brings env goal (x >>= f) s := by
  refine Gives.bind hx fun a s₁ ⟨h₁, hwanted⟩ => ?_
  refine Gives.imp (hf a s₁ h₁.subset) fun _ s' ⟨h₂, hwanted'⟩ => ⟨h₁.trans h₂, fun r hr => ?_⟩
  rcases hgoal r hr with hr | hr
  · exact h₂.subset (hwanted r hr)
  · exact hwanted' r hr

theorem bind_left {x : Emit α} {f : α → Emit β} (hx : Brings env goal x s)
    (hf : ∀ a s₁, s.registered ⊆ s₁.registered → Brings env NoRecord (f a) s₁) :
    Brings env goal (x >>= f) s :=
  hx.bind hf fun _ hr => Or.inl hr

theorem bind_right {x : Emit α} {f : α → Emit β} (hx : Brings env NoRecord x s)
    (hf : ∀ a s₁, s.registered ⊆ s₁.registered → Brings env goal (f a) s₁) :
    Brings env goal (x >>= f) s :=
  hx.bind hf fun _ hr => Or.inr hr

/-- A declaration is registered first, and what comes then brings what it requires. -/
theorem register (henv : env.Inclusive) {d : Decl} (hd : d ∈ env.index.decls) {f : Bool → Emit β}
    (hold : d.id ∈ s.registered → Brings env goal (f false) s)
    (hnew : d.id ∉ s.registered → Brings env wanted (f true) (s.register d.id))
    (hrequired : ∀ r, env.Requires d r → wanted r)
    (hgoal : ∀ r, goal r → wanted r ∨ r.toDecl = d) :
    Brings env goal (Emit.register d.id >>= f) s := by
  refine Gives.register hold fun h => Gives.imp (hnew h) fun _ s' ⟨hfulfils, hwanted⟩ => ?_
  have hfulfils : env.Fulfils (d.id :: s.registered) s'.registered := hfulfils
  refine ⟨.register henv hd hfulfils fun r hr => hwanted r (hrequired r hr), fun r hr => ?_⟩
  rcases hgoal r hr with hr | hr
  · exact hwanted r hr
  · have hid : r.head.id = d.id := congrArg Decl.id hr
    rw [hid]
    exact hfulfils.subset List.mem_cons_self

theorem accept (henv : env.Inclusive) {d : Decl} (hd : d ∈ env.index.decls) {f : Bool → Emit β}
    (hold : d.id ∈ s.registered → Brings env goal (f false) s)
    (hnew : d.id ∉ s.registered → Brings env wanted (f true) (s.register d.id))
    (hrequired : ∀ r, env.Requires d r → wanted r)
    (hgoal : ∀ r, goal r → wanted r ∨ r.toDecl = d) :
    Brings env goal (Emit.accept env d.head >>= f) s := by
  unfold Emit.accept
  rw [if_pos (henv.relevant d.head.loc)]
  exact register henv hd hold hnew hrequired hgoal

end Brings

theorem brings_typedef {record : RecordDecl → Emit PUnit} {head : DeclHead} {underlying : Ty}
    (topLevel : Bool) (must : RecordDecl → Prop)
    (hrecord : ∀ inner, env.namedRecord? underlying = some inner →
      Brings env (fun r => r = inner ∧ must inner) (record inner) s) :
    Brings env (fun r => env.namedRecord? underlying = some r ∧ must r)
      (typedef env record head underlying topLevel) s := by
  rw [typedef_eq]
  cases hnamed : env.namedRecord? underlying with
  | some inner =>
    refine ((hrecord inner hnamed).bind_left fun _ s₁ _ => ?_).imp fun r hr => ?_
    · split
      · exact .lines _
      · exact .pure fun _ hr => hr.elim
    · obtain rfl := Option.some.inj hr.1
      exact ⟨rfl, hr.2⟩
  | none =>
    refine ((Brings.line _).bind_left fun _ s₁ _ => ?_).imp fun _ hr => nomatch hr.1
    split
    · exact .line _
    · exact .pure fun _ hr => hr.elim

end

section
variable {env : EmitEnv} (henv : env.Inclusive)
include henv

/-- Writing a record inside another one, from states in which these declarations are registered,
brings it if it is complete. -/
def BringsRecords (env : EmitEnv) (known : List DeclId) (nested : RecordDecl → Emit PUnit) :
    Prop :=
  ∀ inner : RecordDecl, inner.toDecl ∈ env.index.decls → ∀ s : EmitState, known ⊆ s.registered →
    Brings env (fun r => r = inner ∧ inner.info.complete = true) (nested inner) s

/-! ## Records -/

section
variable {nested : RecordDecl → Emit PUnit} {known : List DeclId}
  (hnested : BringsRecords env known nested) {r : RecordDecl}
include hnested

theorem brings_emitMember (hr : r.toDecl ∈ env.index.decls) (d : Decl) (hd : d ∈ r.members)
    (hmem : d ∈ env.index.decls) (s : EmitState) (hs : known ⊆ s.registered) :
    Brings env (fun inner => inner.toDecl = d ∧ inner.info.complete = true)
      (r.emitMember env nested (env.index.isPolymorphic r) d) s := by
  cases d with
  | enumeration head e =>
    exact Brings.register henv hmem (fun _ => .pure fun _ h => nomatch h.1)
      (fun _ => .strokes _) (fun _ h => nomatch h) fun _ h => nomatch h.1
  | record head info members methods =>
    refine (hnested ⟨head, info, members, methods⟩ hmem s hs).imp fun inner hinner => ?_
    obtain rfl : inner = ⟨head, info, members, methods⟩ := RecordDecl.toDecl_injective hinner.1
    exact ⟨rfl, hinner.2⟩
  | typedef head underlying =>
    refine Brings.register henv hmem (fun _ => .pure fun _ h => nomatch h.1)
      (fun _ => brings_typedef false (·.info.complete = true) fun inner hnamed => hnested inner
        (EmitEnv.toDecl_mem_of_named hnamed) _ (List.Subset.trans hs (List.subset_cons_self _ _)))
      (fun inner hinner => ?_) fun _ h => nomatch h.1
    cases hinner with
    | named hnamed hinner =>
      exact ⟨hnamed, hinner.resolve_right fun houtside => houtside r hr hd⟩
  | var head v => exact (Brings.line _).imp fun _ h => nomatch h.1
  | function head f =>
    exact (Brings.block _).imp fun _ h => nomatch h.1
  | space head members => exact .pure fun _ h => nomatch h.1
  | macroDef head definition => exact .pure fun _ h => nomatch h.1

theorem brings_members (hr : r.toDecl ∈ env.index.decls) (ds : List Decl) (hds : ds ⊆ r.members)
    (hmem : ds ⊆ env.index.decls) (s : EmitState) (hs : known ⊆ s.registered) :
    Brings env (fun inner => inner.toDecl ∈ ds ∧ inner.info.complete = true)
      (ds.forM (r.emitMember env nested (env.index.isPolymorphic r))) s := by
  induction ds generalizing s with
  | nil => exact .pure fun _ h => absurd h.1 List.not_mem_nil
  | cons d ds ih =>
    obtain ⟨hd, hds⟩ := List.cons_subset.1 hds
    obtain ⟨hdmem, hmem⟩ := List.cons_subset.1 hmem
    show Brings env _ (r.emitMember env nested _ d >>= fun _ => ds.forM _) s
    refine (brings_emitMember henv hnested hr d hd hdmem s hs).bind
      (fun _ s₁ h₁ => ih hds hmem s₁ (List.Subset.trans hs h₁)) fun inner ⟨hinner, hcomplete⟩ => ?_
    exact (List.mem_cons.1 hinner).imp (⟨·, hcomplete⟩) (⟨·, hcomplete⟩)

theorem brings_emitInside (hr : r.toDecl ∈ env.index.decls) (s : EmitState)
    (hs : known ⊆ s.registered) :
    Brings env (fun inner => inner.toDecl ∈ r.members ∧ inner.info.complete = true)
      (r.emitInside env nested (env.index.isPolymorphic r)) s := by
  refine (Brings.lines _).bind_right fun _ s₁ h₁ => ?_
  refine (brings_members henv hnested hr r.members (List.Subset.refl _) (henv.closed r hr) s₁
    (List.Subset.trans hs h₁)).bind_left fun _ s₂ _ => ?_
  refine Brings.bind_left (.of_adds _ ((RecordDecl.gives_emitFields r
    ⟨env.names.declName r.head, [], 0⟩ 0 r.info.fields s₂ (fun _ => rfl) (Nat.zero_le 64)).imp
      fun _ _ h => ⟨_, h.2⟩)) fun _ s₃ _ => ?_
  exact .of_adds _ ((RecordDecl.gives_methods r r.methods s₃).imp fun _ _ h => ⟨_, h⟩)

theorem brings_emitComplete (hr : r.toDecl ∈ env.index.decls) (s : EmitState)
    (hs : known ⊆ s.registered) :
    Brings env (fun inner => inner.toDecl ∈ r.members ∧ inner.info.complete = true)
      (r.emitComplete env nested) s := by
  refine (Brings.lines _).bind_right fun _ s₁ h₁ => ?_
  refine (Brings.printed _).bind_right fun header s₂ h₂ => ?_
  refine (Brings.strokes _).bind_right fun _ s₃ h₃ => ?_
  have hs₃ : known ⊆ s₃.registered :=
    List.Subset.trans hs (List.Subset.trans h₁ (List.Subset.trans h₂ h₃))
  refine (brings_emitInside henv hnested hr s₃ hs₃).bind_left fun _ s₄ _ => ?_
  refine (Brings.modify ?_).bind_left fun _ s₅ _ => .modify ?_
  · obtain ⟨asked, hadds⟩ := EmitState.Adds.settle s₄ r.head.id (r.isStruct env)
    exact hadds.registered
  · exact (EmitState.Adds.close s₅ r.head.id (r.isStruct env)).registered

theorem brings_emit (hr : r.toDecl ∈ env.index.decls) (topLevel : Bool) (s : EmitState)
    (hs : known ⊆ s.registered) :
    Brings env (env.Requires r.toDecl) (r.emit env nested topLevel) s := by
  rw [RecordDecl.emit_eq]
  refine (Brings.strokes _).bind_right fun _ s₁ h₁ => ?_
  refine Brings.bind_left ?_ fun _ s₂ _ => .strokes _
  by_cases hcomplete : r.info.complete = true
  · rw [if_pos hcomplete]
    refine (brings_emitComplete henv hnested hr s₁ (List.Subset.trans hs h₁)).imp
      fun inner hinner => ?_
    exact (EmitEnv.requires_record.1 hinner).2
  · rw [if_neg hcomplete]
    refine (Brings.line _).imp fun inner hinner => ?_
    exact absurd (EmitEnv.requires_record.1 hinner).1 hcomplete

end

/-- A visit brings the record, unless it is a forward declaration inside another one. -/
theorem brings_visit {inside : RecordDecl → Emit PUnit} {r : RecordDecl}
    (hr : r.toDecl ∈ env.index.decls) (topLevel : Bool) (s : EmitState)
    (hinside : r.head.id ∉ s.registered →
      BringsRecords env (r.head.id :: s.registered) inside) :
    Brings env (fun inner => inner = r ∧ (topLevel = true ∨ r.info.complete = true))
      (visit env inside topLevel r) s := by
  have hindependent : r.info.dependent = false := henv.independent r hr
  unfold visit
  cases topLevel with
  | true =>
    rw [if_pos rfl, if_neg (by simp [hindependent])]
    refine Brings.accept henv hr (fun hold => .pure ?_) (fun hnew => ?_) (fun _ h => h)
      fun _ h => Or.inr (congrArg RecordDecl.toDecl h.1)
    · rintro _ ⟨rfl, -⟩
      exact hold
    · refine Brings.bind_right (.modify rfl) fun _ s₁ h₁ => ?_
      exact brings_emit henv (hinside hnew) hr true s₁ h₁
  | false =>
    rw [if_neg Bool.false_ne_true]
    by_cases hcomplete : r.info.complete = true
    · rw [if_neg (by simp [hcomplete, hindependent])]
      refine Brings.register henv hr (fun hold => .pure ?_) (fun hnew => ?_) (fun _ h => h)
        fun _ h => Or.inr (congrArg RecordDecl.toDecl h.1)
      · rintro _ ⟨rfl, -⟩
        exact hold
      · refine Brings.bind_right (.modify rfl) fun _ s₁ h₁ => ?_
        refine (brings_emit henv (hinside hnew) hr false s₁ h₁).bind_left fun _ s₂ _ => ?_
        exact Brings.bind_left (.modify rfl) fun _ s₃ _ => .line ""
    · rw [if_pos (by simp [hcomplete])]
      exact .pure fun _ h => absurd h.2 (by simp [hcomplete])

theorem brings_nestedWithin (depth : Nat) (r : RecordDecl) (hr : r.toDecl ∈ env.index.decls)
    (s : EmitState) (hdepth : (env.index.unseen s.registered).length < depth) :
    Brings env (fun inner => inner = r ∧ r.info.complete = true) (nestedWithin env depth r) s := by
  induction depth generalizing r s with
  | zero => exact absurd hdepth (Nat.not_lt_zero _)
  | succ depth ih =>
    rw [nestedWithin_succ]
    refine (brings_visit henv hr false s fun hnew inner hinner s' hs' => ?_).imp
      fun _ h => ⟨h.1, Or.inr h.2⟩
    have hlt := DeclIndex.length_unseen_lt (List.mem_map_of_mem hr) hnew hs'
    exact ih inner hinner s' (by omega)

theorem brings_nested : BringsRecords env [] (nested env) :=
  fun inner hinner s _ => brings_nestedWithin henv _ inner hinner s
    (Nat.lt_succ_of_le (DeclIndex.length_unseen_le _))

/-! ## Events -/

theorem brings_enterRecord (r : RecordDecl) (hr : r.toDecl ∈ env.index.decls) (s : EmitState) :
    Brings env (· = r) (enterRecord env r) s := by
  rw [enterRecord_eq_visit]
  refine (brings_visit henv hr true s fun _ inner hinner s' _ => ?_).imp
    fun _ h => ⟨h, Or.inl rfl⟩
  exact brings_nested henv inner hinner s' (List.nil_subset _)

theorem brings_leaveRecord (id : DeclId) (s : EmitState) :
    Brings env NoRecord (leaveRecord id) s := by
  unfold leaveRecord
  refine Gives.get ?_
  split
  · exact Brings.bind_left (.modify rfl) fun _ s₁ _ => .line ""
  · exact Brings.pure fun _ hr => hr.elim

theorem brings_typedefEvent (head : DeclHead) (underlying : Ty)
    (hd : .typedef head underlying ∈ env.index.decls) (s : EmitState) :
    Brings env NoRecord (handle env (.typedef (.typedef head underlying))) s := by
  refine Brings.accept henv hd (fun _ => .pure fun _ hr => hr.elim) (fun _ => brings_typedef true
    (fun _ => True) fun inner hnamed => ?_) (fun inner hinner => ?_) fun _ hr => hr.elim
  · refine Brings.bind_left (Brings.imp (brings_enterRecord henv inner
      (EmitEnv.toDecl_mem_of_named hnamed) _) fun _ h => h.1) fun _ s₁ _ => ?_
    exact brings_leaveRecord henv inner.head.id s₁
  · cases hinner with
    | named hnamed _ => exact ⟨hnamed, trivial⟩

theorem brings_leaf {d : Decl} (hd : d ∈ env.index.decls) (hnone : ∀ r, ¬ env.Requires d r)
    {x : Emit PUnit} (hx : ∀ s, Brings env NoRecord x s) (s : EmitState) :
    Brings env NoRecord (do if ← accept env d.head then x) s :=
  Brings.accept henv hd (fun _ => .pure fun _ hr => hr.elim) (fun _ => hx _) hnone
    fun _ hr => hr.elim

theorem brings_handle (event : Event) (hevent : EventIn env.index event) (s : EmitState) :
    Brings env NoRecord (handle env event) s := by
  have hnothing : Brings env NoRecord (pure ()) s := .pure fun _ hr => hr.elim
  cases event with
  | beginFile path => exact .lines _
  | endFile path => exact hnothing
  | define name definition loc =>
    unfold Brings Gives
    rw [exec_define (henv.relevant loc)]
    exact ⟨.refl env _, fun _ hr => hr.elim⟩
  | enterRecord d =>
    cases d with
    | record head info members methods =>
      exact (brings_enterRecord henv ⟨head, info, members, methods⟩ hevent s).imp
        fun _ hr => hr.elim
    | _ => exact hnothing
  | leaveRecord d => exact brings_leaveRecord henv d.id s
  | enumeration d =>
    cases d with
    | enumeration head e =>
      exact brings_leaf henv hevent (fun _ h => nomatch h) (fun s => .strokes _) s
    | _ => exact hnothing
  | function d =>
    cases d with
    | function head f =>
      refine brings_leaf henv hevent (fun _ h => nomatch h) (fun s => ?_) s
      exact .of_adds _ ((gives_function head f s).imp fun _ s' h => ⟨_, h⟩)
    | _ => exact hnothing
  | typedef d =>
    cases d with
    | typedef head underlying => exact brings_typedefEvent henv head underlying hevent s
    | _ => exact hnothing
  | variable_ d =>
    cases d with
    | var head v =>
      refine brings_leaf henv hevent (fun _ h => nomatch h) (fun s => ?_) s
      exact (Brings.printed _).bind_left fun text s₁ _ => .line _
    | _ => exact hnothing

/-- A run registers what its declarations require. -/
theorem brings_perform (events : List Event)
    (hevents : ∀ event ∈ events, EventIn env.index event) (s : EmitState) :
    Brings env NoRecord (perform env events) s := by
  induction events generalizing s with
  | nil => exact .pure fun _ hr => hr.elim
  | cons event events ih =>
    show Brings env _ (handle env event >>= fun _ => perform env events) s
    refine (brings_handle henv event (hevents event List.mem_cons_self) s).bind_left
      fun _ s₁ _ => ?_
    exact ih (fun e he => hevents e (List.mem_cons_of_mem _ he)) s₁

end

end Emit

/-! ## Places -/

namespace Entry
variable {env : EmitEnv} {es : List Entry} {p : Placement}

theorem mem_placementsAll {scope : Option RecordDecl} {via : Option Decl} :
    p ∈ placementsAll scope via es ↔ ∃ e ∈ es, p ∈ placements scope via e := by
  induction es with
  | nil => exact ⟨fun h => absurd h List.not_mem_nil, fun ⟨_, h, _⟩ => absurd h List.not_mem_nil⟩
  | cons e es ih => rw [placementsAll, List.mem_append, ih, List.exists_mem_cons_iff]

mutual

theorem scope_placements (around : RecordDecl) (via : Option Decl) : (e : Entry) →
    p ∈ placements (some around) via e → p.scope ≠ none
  | typedef head underlying target, hp => scope_placementsAll around _ target hp
  | record r _ members, hp => by
    rcases List.mem_cons.1 hp with rfl | hp
    · exact Option.some_ne_none around
    · exact scope_placementsAll r none members hp
  | banner _, hp | gap, hp | constant _ _ _, hp | leaf _, hp | member _, hp =>
    absurd hp List.not_mem_nil

theorem scope_placementsAll (around : RecordDecl) (via : Option Decl) : (es : List Entry) →
    p ∈ placementsAll (some around) via es → p.scope ≠ none
  | [], hp => absurd hp List.not_mem_nil
  | e :: es, hp => by
    rcases List.mem_append.1 hp with hp | hp
    · exact scope_placements around via e hp
    · exact scope_placementsAll around via es hp

end

theorem eq_of_scope {via : Option Decl} {r : RecordDecl} {asked : Bool} {members : List Entry}
    (hp : p ∈ placements none via (.record r asked members)) (hscope : p.scope = none) :
    p = ⟨r, none, via⟩ := by
  rcases List.mem_cons.1 hp with hp | hp
  · exact hp
  · exact absurd hscope (scope_placementsAll r none members hp)

/-- A record that stands in the module has an entry there, or a typedef that names it has. -/
theorem source_of_scope (hfits : FitsAll env none es) (hp : p ∈ placementsAll none none es)
    (hscope : p.scope = none) : ∃ e ∈ es, e.source? = some p.record.toDecl ∨
      ∃ head underlying, e.source? = some (.typedef head underlying) ∧
        env.namedRecord? underlying = some p.record := by
  have hsound := sound_module hfits hp
  obtain ⟨e, he, hp⟩ := mem_placementsAll.1 hp
  refine ⟨e, he, ?_⟩
  cases e with
  | record r asked members =>
    rw [eq_of_scope hp hscope]
    exact Or.inl rfl
  | typedef head underlying target =>
    obtain ⟨-, -, -, hof⟩ := fitsAll_iff.1 hfits _ he
    obtain ⟨e', he', hp⟩ := mem_placementsAll.1 hp
    have hof := hof e' he'
    cases e' with
    | record r asked members =>
      rw [eq_of_scope hp hscope]
      exact Or.inr ⟨head, underlying, rfl, hof⟩
    | gap => exact absurd hp List.not_mem_nil
    | _ => exact hof.elim
  | banner _ | gap | constant _ _ _ | leaf _ | member _ => exact absurd hp List.not_mem_nil

/-- No other place is one of the same record. -/
def PlacedOnce (es : List Entry) (p : Placement) : Prop :=
  ∃ before after, placementsAll none none es = before ++ p :: after ∧
    ∀ p' ∈ before ++ after, p'.record ≠ p.record

theorem placedOnce_of_mem (hnodup : (additionAll env none es).registered.Nodup)
    (hp : p ∈ placementsAll none none es) : PlacedOnce es p := by
  obtain ⟨before, after, heq⟩ := List.append_of_mem hp
  refine ⟨before, after, heq, fun p' hp' hrecord => ?_⟩
  have h := (@placementsAll_sublist env none none es).nodup hnodup
  have hperm : (before ++ p :: after).Perm (p :: (before ++ after)) := List.perm_middle
  rw [heq, (hperm.map _).nodup_iff, List.map_cons] at h
  refine (List.nodup_cons.1 h).1 (List.mem_map.2 ⟨p', hp', ?_⟩)
  rw [hrecord]

end Entry

namespace RecordDecl

/-- The strokes of the record have a body in braces. -/
def HasBody (env : EmitEnv) (topLevel : Bool) (r : RecordDecl) : Prop :=
  (∃ lead front, r.frontCode env topLevel = lead ++ openingStrokes (r.headerText env) ++ front) ∧
  ∀ asked, ∃ back trail, r.backCode env topLevel asked = back ++ [.dedent, .line "\x7d"] ++ trail

/-- They are a forward declaration. -/
def IsForward (env : EmitEnv) (topLevel : Bool) (r : RecordDecl) : Prop :=
  r.frontCode env topLevel = env.opening topLevel r.head.context ++
    [.line ("struct " ++ env.names.declName r.head ++ ";")] ∧
  ∀ asked, r.backCode env topLevel asked = env.closing topLevel r.head.context

theorem hasBody_of_complete {env : EmitEnv} {r : RecordDecl} (topLevel : Bool)
    (h : r.info.complete = true) : r.HasBody env topLevel := by
  constructor
  · refine ⟨env.opening topLevel r.head.context ++ r.sizeLines.map .line,
      (r.baseLines env (env.index.isPolymorphic r)).map .line, ?_⟩
    unfold frontCode
    rw [if_pos h]
    simp only [List.append_assoc]
  · intro asked
    refine ⟨r.fieldsCode env { record := env.names.declName r.head } 0 r.info.fields ++
      r.methods.flatMap (Decl.methodCode env r) ++ EmitState.Adds.askedCode asked,
      env.closing topLevel r.head.context, ?_⟩
    unfold backCode
    rw [if_pos h]

theorem isForward_of_incomplete {env : EmitEnv} {r : RecordDecl} (topLevel : Bool)
    (h : r.info.complete = false) : r.IsForward env topLevel := by
  have hfalse : ¬ r.info.complete = true := by simp [h]
  constructor
  · unfold frontCode
    rw [if_neg hfalse]
  · intro asked
    unfold backCode
    rw [if_neg hfalse]
    rfl

end RecordDecl

/-! ## Units -/

namespace TranslationUnit
variable {unit : TranslationUnit}

/-- The records of files and namespaces, and the members of complete ones among the records. -/
inductive Reaches (unit : TranslationUnit) : RecordDecl → Prop where
  | outer {r : RecordDecl} (h : r.toDecl ∈ unit.outer) : Reaches unit r
  | member {r inner : RecordDecl} (h : Reaches unit r) (hcomplete : r.info.complete = true)
      (hmember : inner.toDecl ∈ r.members) : Reaches unit inner

theorem Reaches.mem_walk {r : RecordDecl} (h : unit.Reaches r) : r.toDecl ∈ unit.walk := by
  induction h with
  | outer h => exact mem_walk_of_outer h
  | member _ _ hmember ih => exact DeclIndex.closed_ofUnit unit _ ih _ hmember

/-- A record of a file or namespace, or one that a typedef there names. -/
def HasOutside (unit : TranslationUnit) (env : EmitEnv) (r : RecordDecl) : Prop :=
  r.toDecl ∈ unit.outer ∨ ∃ head underlying, .typedef head underlying ∈ unit.outer ∧
    env.namedRecord? underlying = some r

/-- In a unit without templates that is written, with every file accepted, each record that has a
place has only one: a complete record is written there with a body, and a forward declaration as
such, in the module.  Of the records of files, namespaces and complete records, those have a place
that are complete, and the forward declarations of files and namespaces or that a typedef there
names.  A forward declaration that is a member of a record is not written. -/
theorem placed_iff (unit : TranslationUnit) (options : EmitOptions)
    (hids : (unit.walk.map Decl.id).Nodup)
    (hindependent : ∀ r : RecordDecl, r.toDecl ∈ unit.walk → r.info.dependent = false)
    (hrelevant : ∀ file, options.filter.isRelevant file = true) {text : String}
    (h : unit.emit options = .ok text) :
    let env := EmitEnv.ofUnit unit options .strings
    ∃ s entries, text = EmitState.finish s ∧ FitsAll env none entries ∧
      s.script.toList = (EmitState.start options).script.toList ++
        (additionAll env none entries).code ∧
      (∀ p ∈ placementsAll none none entries, Entry.PlacedOnce entries p ∧
        WrittenIn env (additionAll env none entries).code p ∧
        (p.record.info.complete = true → p.record.HasBody env p.scope.isNone) ∧
        (p.record.info.complete = false → p.scope = none ∧ p.record.IsForward env true)) ∧
      ∀ r : RecordDecl, unit.Reaches r →
        ((∃ p ∈ placementsAll none none entries, p.record = r) ↔
          r.info.complete = true ∨ unit.HasOutside env r) := by
  intro env
  obtain ⟨s, entries, hwrite, htext, hunit⟩ := consists_of_emit h
  have henv : env.Inclusive :=
    ⟨hids, DeclIndex.closed_ofUnit unit, hindependent, fun loc => hrelevant loc.file⟩
  have hfulfils : env.Fulfils [] s.registered := by
    have hrun := Emit.brings_perform henv unit.events (fun _ he => eventIn_of_mem he)
      (.start options)
    rw [← Emit.drive_unit_eq_perform] at hrun
    exact (Emit.Gives.ok hrun hwrite).1
  have hrequired : ∀ d ∈ unit.walk, d.id ∈ s.registered → ∀ inner, env.Requires d inner →
      inner.head.id ∈ s.registered :=
    fun d hd hid => (hfulfils.required d hd hid).resolve_left List.not_mem_nil
  have houter : ∀ d ∈ unit.outer, d.isMacro = false → d.isDependent = false →
      d.id ∈ s.registered :=
    fun d hd hproper hindependent =>
      hunit.mem_registered hd hproper hindependent (hrelevant d.head.loc.file)
  have hrecord : ∀ r : RecordDecl, r.toDecl ∈ unit.outer → r.head.id ∈ s.registered :=
    fun r hr => houter r.toDecl hr rfl (hindependent r (mem_walk_of_outer hr))
  have hcomplete : ∀ r : RecordDecl, unit.Reaches r → r.info.complete = true →
      r.head.id ∈ s.registered := by
    intro r hreaches hr
    induction hreaches with
    | outer hmem => exact hrecord _ hmem
    | member hreaches hc hmember ih =>
      exact hrequired _ hreaches.mem_walk (ih hc) _ (.member hc hmember hr)
  have houtside : ∀ r : RecordDecl, unit.HasOutside env r → r.head.id ∈ s.registered := by
    rintro r (hr | ⟨head, underlying, hmem, hnamed⟩)
    · exact hrecord r hr
    · refine hrequired _ (mem_walk_of_outer hmem) (houter _ hmem rfl rfl) r ?_
      refine .named hnamed (Or.inr fun around haround hmember => ?_)
      exact not_mem_children_of_outer hids hmem haround (List.mem_append_left _ hmember)
  have hscope : ∀ p ∈ placementsAll none none entries, p.record.info.complete = false →
      p.scope = none := by
    intro p hp hforward
    by_contra hinside
    have hadmitted := (Entry.sound_module hunit.fits hp).admitted
    exact Bool.false_ne_true (hforward.symm.trans (hadmitted.complete hinside))
  refine ⟨s, entries, htext, hunit.fits, hunit.code, fun p hp => ?_,
    fun r hr => ⟨?_, fun hr' => ?_⟩⟩
  · exact ⟨Entry.placedOnce_of_mem hunit.nodup hp, Entry.written_placementsAll none none entries hp,
      RecordDecl.hasBody_of_complete _, fun hforward =>
        ⟨hscope p hp hforward, RecordDecl.isForward_of_incomplete _ hforward⟩⟩
  · rintro ⟨p, hp, rfl⟩
    by_cases hc : p.record.info.complete = true
    · exact Or.inl hc
    · have hforward : p.record.info.complete = false := by simpa using hc
      obtain ⟨e, he, hs | ⟨head, underlying, hs, hnamed⟩⟩ :=
        Entry.source_of_scope hunit.fits hp (hscope p hp hforward)
      · exact Or.inr (Or.inl (hunit.mem_outer he hs))
      · exact Or.inr (Or.inr ⟨head, underlying, hunit.mem_outer he hs, hnamed⟩)
  · have hid : r.head.id ∈ s.registered := hr'.elim (hcomplete r hr) (houtside r)
    rw [hunit.registered, List.mem_reverse] at hid
    exact (Entry.registered_iff_placed rfl hids hunit.fits hr.mem_walk).1 hid

end TranslationUnit

def implRecord : RecordDecl :=
  ⟨{ id := 3, name := some "Impl" }, { tag := .struct, complete := false }, [], []⟩

/-- A class that declares a record and has a pointer to it. -/
def handleRecord : RecordDecl :=
  ⟨{ id := 1, name := some "Handle" }, { tag := .class_, fields := [
    { name := some "impl", ty := .pointer (.record ⟨3, "Impl"⟩) }] },
    [implRecord.toDecl], [runMethod]⟩

def handleUnit : TranslationUnit := ⟨[⟨"a.h", [handleRecord.toDecl]⟩]⟩

/-- The record that the field points to is not declared in the module. -/
theorem handleUnit_undeclared :
    (handleUnit.walk.map Decl.id).Nodup ∧ handleUnit.Reaches implRecord ∧
    implRecord.info.complete = false ∧
    handleUnit.emit { preamble := false } = .ok (
      "\n// ------ a.h\n\nextern(C++)\nclass Handle\n\x7b\n" ++
      "    @cppsize(0) private Impl* impl;\n    private int run();\n\x7d\n\n") := by
  have htext : handleUnit.emit { preamble := false } =
      .ok (handleUnit.write { preamble := false } (.start { preamble := false })).2.text :=
    TranslationUnit.emit_eq_text rfl rfl
  refine ⟨by decide, .member (.outer List.mem_cons_self) rfl List.mem_cons_self, rfl, ?_⟩
  rw [htext]
  exact congrArg _ (by decide +kernel)

def handleEnv : EmitEnv := .ofUnit handleUnit { preamble := false } .strings

/-- The class has a place, and the record that it declares has none. -/
theorem handleUnit_placed : (handleUnit.walk.map Decl.id).Nodup ∧
    ∃ text s entries, handleUnit.emit { preamble := false } = .ok text ∧
      text = EmitState.finish s ∧ s.script.toList = (additionAll handleEnv none entries).code ∧
      (∃ p ∈ placementsAll none none entries, p.record = handleRecord ∧
        p.record.HasBody handleEnv p.scope.isNone) ∧
      ¬ ∃ p ∈ placementsAll none none entries, p.record = implRecord := by
  have hids : (handleUnit.walk.map Decl.id).Nodup := by decide
  have hindependent : ∀ r : RecordDecl, r.toDecl ∈ handleUnit.walk → r.info.dependent = false := by
    intro r hr
    rcases List.mem_cons.1 hr with hr | hr
    · rw [RecordDecl.toDecl_injective hr]
      rfl
    · rcases List.mem_cons.1 hr with hr | hr
      · rw [RecordDecl.toDecl_injective hr]
        rfl
      · exact nomatch List.mem_singleton.1 hr
  obtain ⟨s, entries, htext, -, hscript, hplaces, hplaced⟩ :=
    handleUnit.placed_iff { preamble := false } hids hindependent (fun _ => rfl) rfl
  have houter : handleUnit.Reaches handleRecord := .outer List.mem_cons_self
  obtain ⟨p, hp, hrecord⟩ := (hplaced handleRecord houter).2 (Or.inl rfl)
  refine ⟨hids, _, s, entries, rfl, htext, hscript, ⟨p, hp, hrecord, ?_⟩, fun himpl => ?_⟩
  · have hcomplete : p.record.info.complete = true := by
      rw [hrecord]
      rfl
    exact (hplaces p hp).2.2.1 hcomplete
  · rcases (hplaced implRecord (.member houter rfl List.mem_cons_self)).1 himpl with h | h | h
    · exact nomatch h
    · have hid : (3 : DeclId) ∈ handleUnit.outer.map Decl.id := List.mem_map_of_mem h
      exact absurd hid (by decide)
    · obtain ⟨head, underlying, h, -⟩ := h
      exact nomatch List.mem_singleton.1 h

end DBindings
