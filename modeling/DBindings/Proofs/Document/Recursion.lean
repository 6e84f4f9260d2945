import DBindings.Proofs.Document.Records

/-!
# Records in records come to an end

Writing a record asks for the records inside it, and a typedef among its members asks for any record
of the unit, be it one that is open.  The depth that bounds this recursion decides nothing: each
call registers a declaration of the unit that was not registered, so the recursion ends by itself,
and so does the search through base classes.

* `Asks`                             what a function of functions looks at;
* `DeclIndex.SearchCalls`            how the search through base classes calls itself;
* `Emit.visit`                       a record, given how to write the records inside it;
* `Emit.Calls`                       how the writing of records calls itself;
* `Emit.Reenters`                    what is so whenever it does;
* `TranslationUnit.recursion_ends`   both recursions end, without any bound.
-/

set_option linter.unusedSectionVars false

namespace DBindings

section
variable {α β γ : Type}

/-- The value of `F` at `f` depends on what `f` is at `y`: it is another one for a function that
differs from `f` there alone. -/
def Asks (F : (α → β) → γ) (f : α → β) (y : α) : Prop :=
  ∃ g, (∀ z, z ≠ y → g z = f z) ∧ F g ≠ F f

/-- What is asked for has each property such that functions that agree where it holds lead to the
same value. -/
theorem Asks.of_congr {F : (α → β) → γ} {f : α → β} {y : α} (h : Asks F f y) {P : α → Prop}
    (hcongr : ∀ g, (∀ z, P z → g z = f z) → F g = F f) : P y := by
  obtain ⟨g, hg, hne⟩ := h
  by_contra hy
  refine hne (hcongr g fun z hz => hg z ?_)
  rintro rfl
  exact hy hz

end

namespace DeclIndex
variable {index : DeclIndex}

theorem length_unseen_le (seen : List DeclId) :
    (index.unseen seen).length ≤ index.decls.length := by
  have h := List.length_filter_le (!seen.contains ·) (index.decls.map Decl.id)
  rwa [List.length_map] at h

theorem length_unseen_lt {id : DeclId} {seen seen' : List DeclId}
    (hid : id ∈ index.decls.map Decl.id) (hnew : id ∉ seen) (hsub : id :: seen ⊆ seen') :
    (index.unseen seen').length < (index.unseen seen).length := by
  have hfilter : index.unseen seen' = (index.unseen seen).filter (!seen'.contains ·) := by
    unfold unseen
    rw [List.filter_filter]
    refine List.filter_congr fun x _ => ?_
    by_cases hx : x ∈ seen
    · have hx' : x ∈ seen' := hsub (List.mem_cons_of_mem _ hx)
      simp [hx, hx']
    · simp [hx]
  rw [hfilter]
  refine List.length_filter_lt_length_iff_exists.2 ⟨id, ?_, ?_⟩
  · exact List.mem_filter.2 ⟨hid, by simpa using hnew⟩
  · simpa using hsub List.mem_cons_self

/-! ## Base classes -/

/-- One step of the search through base classes, given the search for what is left. -/
def searchStep (index : DeclIndex) (next : List DeclId × List Ty → Bool) :
    List DeclId × List Ty → Bool
  | (_, []) => false
  | (seen, ty :: rest) =>
    match ty.record? with
    | none => next (seen, rest)
    | some ref =>
      if seen.contains ref.id then next (seen, rest)
      else match index.record? ref.id with
        | none => next (seen, rest)
        | some r => r.declaresVirtual || next (ref.id :: seen, r.baseTypes ++ rest)

def searchFrom (index : DeclIndex) (c : List DeclId × List Ty) : Bool := index.search c.1 c.2

/-- The search calls itself. -/
def SearchCalls (index : DeclIndex) (c : List DeclId × List Ty) :
    List DeclId × List Ty → Prop := Asks (index.searchStep · c) index.searchFrom

/-- A call goes on with the next type, or with the base classes of a record of the unit that has not
been met before. -/
def Proceeds (index : DeclIndex) (c c' : List DeclId × List Ty) : Prop :=
  (∃ ty, c.2 = ty :: c'.2 ∧ c'.1 = c.1) ∨
  ∃ id r, index.record? id = some r ∧ id ∉ c.1 ∧ c'.1 = id :: c.1

theorem searchStep_congr {next next' : List DeclId × List Ty → Bool} (c : List DeclId × List Ty)
    (h : ∀ c', index.Proceeds c c' → next c' = next' c') :
    index.searchStep next c = index.searchStep next' c := by
  match c with
  | (_, []) => rfl
  | (seen, ty :: rest) =>
    have hrest : next (seen, rest) = next' (seen, rest) := h _ (Or.inl ⟨ty, rfl, rfl⟩)
    unfold searchStep
    dsimp only
    cases ty.record? with
    | none => exact hrest
    | some ref =>
      dsimp only
      by_cases hseen : seen.contains ref.id = true
      · rw [if_pos hseen, if_pos hseen]
        exact hrest
      · rw [if_neg hseen, if_neg hseen]
        cases hr : index.record? ref.id with
        | none => exact hrest
        | some r =>
          have hnew : ref.id ∉ seen := by simpa using hseen
          dsimp only
          rw [h _ (Or.inr ⟨ref.id, r, hr, hnew, rfl⟩)]

/-- What is left to do: the declarations that have not been met, and the types to be looked at. -/
def searchSize (index : DeclIndex) (c : List DeclId × List Ty) : Nat × Nat :=
  ((index.unseen c.1).length, c.2.length)

theorem Proceeds.lt {c c' : List DeclId × List Ty} (h : index.Proceeds c c') :
    Prod.Lex (· < ·) (· < ·) (index.searchSize c') (index.searchSize c) := by
  rcases h with ⟨ty, htypes, hseen⟩ | ⟨id, r, hr, hnew, hseen⟩
  · unfold searchSize
    rw [htypes, hseen]
    exact Prod.Lex.right _ (Nat.lt_succ_self _)
  · refine Prod.Lex.left _ _ (length_unseen_lt (mem_of_record? hr) hnew ?_)
    rw [hseen]
    exact List.Subset.refl _

theorem wellFounded_searchSize (index : DeclIndex) :
    WellFounded (InvImage (Prod.Lex (· < ·) (· < ·)) index.searchSize) :=
  InvImage.wf index.searchSize (Prod.lex Nat.lt_wfRel Nat.lt_wfRel).wf

theorem SearchCalls.proceeds {c c' : List DeclId × List Ty} (h : index.SearchCalls c c') :
    index.Proceeds c c' :=
  Asks.of_congr h fun _ hg => searchStep_congr c hg

theorem searchFrom_eq (c : List DeclId × List Ty) :
    index.searchFrom c = index.searchStep index.searchFrom c := by
  match c with
  | (seen, []) =>
    unfold searchFrom search
    rfl
  | (seen, ty :: rest) =>
    unfold searchFrom
    rw [search]
    unfold searchStep
    dsimp only
    cases ty.record? with
    | none => rfl
    | some ref =>
      dsimp only
      split
      · rfl
      · split <;> (rename_i h; rw [h])

/-- The search is the only function that obeys its step. -/
theorem eq_searchFrom {find : List DeclId × List Ty → Bool}
    (hfind : ∀ c, find c = index.searchStep find c) : find = index.searchFrom := by
  funext c
  induction c using (wellFounded_searchSize index).induction with
  | _ c ih =>
    rw [hfind, searchFrom_eq]
    exact searchStep_congr c fun c' hc' => ih c' hc'.lt

end DeclIndex

namespace Emit

section
variable {α β : Type}

theorem exec_bind_ok {x : Emit α} {f : α → Emit β} {s s' : EmitState} {a : α}
    (h : x.exec s = (.ok a, s')) : (x >>= f).exec s = (f a).exec s' := by
  rw [exec_bind, h]

theorem exec_bind_error {x : Emit α} {f : α → Emit β} {s s' : EmitState} {e : EmitError}
    (h : x.exec s = (.error e, s')) : (x >>= f).exec s = (.error e, s') := by
  rw [exec_bind, h]

/-- From a state in which certain declarations are registered, two computations do the same, and
these declarations stay registered. -/
def Agree (known : List DeclId) (x y : Emit α) : Prop :=
  ∀ s : EmitState, known ⊆ s.registered → x.exec s = y.exec s ∧
    ∀ a s', x.exec s = (.ok a, s') → known ⊆ s'.registered

/-- What has been registered stays registered. -/
def Keeps (x : Emit α) : Prop :=
  ∀ (s : EmitState) a s', x.exec s = (.ok a, s') → s.registered ⊆ s'.registered

theorem Keeps.of_gives {x : Emit α} {fails : EmitError → Prop}
    (h : ∀ s, Gives fails x s fun _ s' => ∃ added, s.Extends s' added) : Keeps x := by
  intro s a s' hx
  obtain ⟨added, hextends⟩ := (h s).ok hx
  exact hextends.registered_subset

namespace Agree
variable {known : List DeclId}

theorem same {x : Emit α} (h : Keeps x) : Agree known x x :=
  fun s hs => ⟨rfl, fun a s' hx => List.Subset.trans hs (h s a s' hx)⟩

theorem pure (a : α) : Agree known (Pure.pure a : Emit α) (Pure.pure a) :=
  same fun _ _ _ hx => (Prod.mk.inj hx).2 ▸ List.Subset.refl _

theorem modify {f : EmitState → EmitState} (h : ∀ s, s.registered ⊆ (f s).registered) :
    Agree known (modify f : Emit PUnit) (modify f) :=
  same fun s _ _ hx => (Prod.mk.inj hx).2 ▸ h s

theorem of_adds {x : Emit α} (fails : EmitError → Prop)
    (h : ∀ s, Gives fails x s fun _ s' => ∃ added, s.Adds s' added) : Agree known x x :=
  same (.of_gives fun s => (h s).imp fun _ _ ⟨added, hadds⟩ => ⟨added, hadds.toExtends⟩)

theorem bind {x y : Emit α} {f g : α → Emit β} (hx : Agree known x y)
    (hf : ∀ a, Agree known (f a) (g a)) : Agree known (x >>= f) (y >>= g) := by
  intro s hs
  obtain ⟨hxy, hkeeps⟩ := hx s hs
  rw [exec_bind, exec_bind, ← hxy]
  match hrun : x.exec s with
  | (.ok a, s') => exact hf a s' (hkeeps a s' hrun)
  | (.error e, s') => exact ⟨rfl, fun _ _ h => nomatch (Prod.mk.inj h).1⟩

theorem forM (l : List α) {f g : α → Emit PUnit} (h : ∀ a ∈ l, Agree known (f a) (g a)) :
    Agree known (l.forM f) (l.forM g) := by
  induction l with
  | nil => exact pure _
  | cons a l ih =>
    show Agree known (f a >>= fun _ => l.forM f) (g a >>= fun _ => l.forM g)
    exact (h a List.mem_cons_self).bind fun _ => ih fun b hb => h b (List.mem_cons_of_mem _ hb)

theorem register {id : DeclId} {f g : Bool → Emit β} (hold : Agree known (f false) (g false))
    (hnew : id ∉ known → Agree (id :: known) (f true) (g true)) :
    Agree known (Emit.register id >>= f) (Emit.register id >>= g) := by
  intro s hs
  rw [exec_bind, exec_bind]
  by_cases h : id ∈ s.registered
  · rw [exec_register_of_mem h]
    exact hold s hs
  · rw [exec_register_of_not_mem h]
    have hknown : id :: known ⊆ (s.register id).registered := List.cons_subset_cons id hs
    obtain ⟨heq, hkeeps⟩ := hnew (fun hid => h (hs hid)) _ hknown
    exact ⟨heq, fun a s' hx => List.Subset.trans (List.subset_cons_self id known) (hkeeps a s' hx)⟩

theorem accept {env : EmitEnv} {head : DeclHead} {f g : Bool → Emit β}
    (hold : Agree known (f false) (g false))
    (hnew : head.id ∉ known → Agree (head.id :: known) (f true) (g true)) :
    Agree known (Emit.accept env head >>= f) (Emit.accept env head >>= g) := by
  unfold Emit.accept
  split
  · exact register hold hnew
  · exact hold

theorem strokes (code : List Stroke) : Agree known (Emit.strokes code) (Emit.strokes code) :=
  of_adds (fun _ => False) fun _ => (Gives.strokes code).imp fun _ _ hadds => ⟨_, hadds⟩

theorem block (b : Block) : Agree known (Emit.block b) (Emit.block b) :=
  of_adds (fun _ => False) fun _ => (Gives.block b).imp fun _ _ hadds => ⟨_, hadds⟩

theorem printed (p : Printed) : Agree known (Emit.printed p) (Emit.printed p) :=
  of_adds (fun _ => False) fun _ => (Gives.printed p).imp fun _ _ hadds => ⟨_, hadds.2⟩

theorem lines (texts : List String) : Agree known (Emit.lines texts) (Emit.lines texts) :=
  strokes _

theorem line (text : String) : Agree known (Emit.line text) (Emit.line text) := strokes _

end Agree

end

/-! ## Members -/

/-- A record is written inside another one: it is a member, or a typedef among the members names it
that has been registered for this. -/
def Opens (env : EmitEnv) (r : RecordDecl) (before : List DeclId) (inner : RecordDecl)
    (now : List DeclId) : Prop :=
  inner.toDecl ∈ env.index.decls ∧ before ⊆ now ∧ (inner.toDecl ∈ r.members ∨
    ∃ head underlying, .typedef head underlying ∈ r.members ∧
      env.namedRecord? underlying = some inner ∧ head.id ∉ before ∧ head.id ∈ now)

theorem Opens.mono {env : EmitEnv} {r inner : RecordDecl} {before now now' : List DeclId}
    (h : Opens env r before inner now) (hnow : now ⊆ now') : Opens env r before inner now' := by
  obtain ⟨hmem, hbefore, hway⟩ := h
  refine ⟨hmem, List.Subset.trans hbefore hnow, hway.imp_right ?_⟩
  rintro ⟨head, underlying, hmember, hnamed, hfresh, hid⟩
  exact ⟨head, underlying, hmember, hnamed, hfresh, hnow hid⟩

section
variable {env : EmitEnv} {r : RecordDecl} {before : List DeclId} {f g : RecordDecl → Emit PUnit}
  (hcalls : ∀ inner now, Opens env r before inner now → Agree now (f inner) (g inner))

theorem agree_typedef {known : List DeclId} {head : DeclHead} {underlying : Ty} {topLevel : Bool}
    (h : ∀ inner, env.namedRecord? underlying = some inner → Agree known (f inner) (g inner)) :
    Agree known (typedef env f head underlying topLevel)
      (typedef env g head underlying topLevel) := by
  rw [typedef_eq, typedef_eq]
  cases hnamed : env.namedRecord? underlying with
  | some inner =>
    refine (h inner hnamed).bind fun _ => ?_
    split
    · exact .lines _
    · exact .pure _
  | none =>
    refine (Agree.line _).bind fun _ => ?_
    split
    · exact .line _
    · exact .pure _

include hcalls

theorem agree_emitMember (hr : ∀ d ∈ r.members, d ∈ env.index.decls) (polymorphic : Bool)
    (d : Decl) (hd : d ∈ r.members) :
    Agree before (r.emitMember env f polymorphic d) (r.emitMember env g polymorphic d) := by
  cases d with
  | enumeration head e =>
    refine Agree.register (.pure _) fun _ => ?_
    exact .strokes _
  | record head info members methods =>
    exact hcalls ⟨head, info, members, methods⟩ before
      ⟨hr _ hd, List.Subset.refl _, Or.inl hd⟩
  | typedef head underlying =>
    refine Agree.register (.pure _) fun hnew => agree_typedef fun inner hnamed => ?_
    refine hcalls inner _ ⟨EmitEnv.toDecl_mem_of_named hnamed, List.subset_cons_self _ _, ?_⟩
    exact Or.inr ⟨head, underlying, hd, hnamed, hnew, List.mem_cons_self⟩
  | var head v => exact .line _
  | function head fn => exact .block _
  | space head members => exact .pure _
  | macroDef head definition => exact .pure _

theorem agree_emitInside (hr : ∀ d ∈ r.members, d ∈ env.index.decls) :
    Agree before (r.emitInside env f (env.index.isPolymorphic r))
      (r.emitInside env g (env.index.isPolymorphic r)) := by
  refine (Agree.lines _).bind fun _ => ?_
  refine (Agree.forM r.members fun d hd => agree_emitMember hcalls hr _ d hd).bind fun _ => ?_
  refine Agree.bind (.of_adds _ fun s => (RecordDecl.gives_emitFields r
    ⟨env.names.declName r.head, [], 0⟩ 0 r.info.fields s (fun _ => rfl) (Nat.zero_le 64)).imp
      fun _ _ h => ⟨_, h.2⟩) fun _ => ?_
  exact .of_adds _ fun s => (RecordDecl.gives_methods r r.methods s).imp fun _ _ h => ⟨_, h⟩

theorem agree_emitComplete (hr : ∀ d ∈ r.members, d ∈ env.index.decls) :
    Agree before (r.emitComplete env f) (r.emitComplete env g) := by
  refine (Agree.lines _).bind fun _ => (Agree.printed _).bind fun header => ?_
  refine (Agree.strokes _).bind fun _ => (agree_emitInside hcalls hr).bind fun _ => ?_
  refine (Agree.modify fun s => ?_).bind fun _ => .modify fun s => List.Subset.refl _
  obtain ⟨asked, hadds⟩ := EmitState.Adds.settle s r.head.id (r.isStruct env)
  exact hadds.registered_subset

theorem agree_emit (hr : ∀ d ∈ r.members, d ∈ env.index.decls) (topLevel : Bool) :
    Agree before (r.emit env f topLevel) (r.emit env g topLevel) := by
  rw [RecordDecl.emit_eq, RecordDecl.emit_eq]
  refine (Agree.strokes _).bind fun _ => Agree.bind ?_ fun _ => .strokes _
  split
  · exact agree_emitComplete hcalls hr
  · exact .line _

end

/-! ## Visits -/

/-- Writes a record once, given how to write the records inside it: one of a file or namespace, or
one inside another record. -/
def visit (env : EmitEnv) (inside : RecordDecl → Emit PUnit) (topLevel : Bool) (r : RecordDecl) :
    Emit PUnit :=
  if topLevel then do
    if r.info.dependent then return
    if !(← accept env r.head) then return
    enter r.head.id
    r.emit env inside true
  else do
    if !r.info.complete || r.info.dependent then return
    if !(← register r.head.id) then return
    enter r.head.id
    r.emit env inside false
    leave
    line ""

theorem enterRecord_eq_visit (env : EmitEnv) (r : RecordDecl) :
    enterRecord env r = visit env (nested env) true r := rfl

theorem nestedWithin_succ (env : EmitEnv) (depth : Nat) (r : RecordDecl) :
    nestedWithin env (depth + 1) r = visit env (nestedWithin env depth) false r := rfl

section
variable {env : EmitEnv} {r : RecordDecl} {f g : RecordDecl → Emit PUnit}

/-- A visit depends on the records that it opens, after it has registered its own. -/
theorem agree_visit (hr : ∀ d ∈ r.members, d ∈ env.index.decls) (topLevel : Bool)
    {known : List DeclId}
    (hcalls : r.head.id ∉ known → ∀ inner now,
      Opens env r (r.head.id :: known) inner now → Agree now (f inner) (g inner)) :
    Agree known (visit env f topLevel r) (visit env g topLevel r) := by
  have henter {before : List DeclId} : Agree before (enter r.head.id) (enter r.head.id) :=
    .modify fun s => List.Subset.refl _
  have hleave {before : List DeclId} : Agree before leave leave :=
    .modify fun s => List.Subset.refl _
  unfold visit
  cases topLevel with
  | true =>
    rw [if_pos rfl, if_pos rfl]
    split
    · exact .pure _
    · refine Agree.accept (.pure _) fun hnew => ?_
      exact henter.bind fun _ => agree_emit (hcalls hnew) hr true
  | false =>
    rw [if_neg Bool.false_ne_true, if_neg Bool.false_ne_true]
    split
    · exact .pure _
    · refine Agree.register (.pure _) fun hnew => ?_
      exact henter.bind fun _ => (agree_emit (hcalls hnew) hr false).bind fun _ =>
        hleave.bind fun _ => .line ""

end

/-! ## Calls -/

/-- A record that is written, and the state from which it is. -/
structure Call where
  record : RecordDecl
  state : EmitState

/-- How many declarations of the unit have not been registered yet. -/
def Call.left (env : EmitEnv) (c : Call) : Nat := (env.index.unseen c.state.registered).length

/-- What records are written as when calls end like this. -/
def ofRuns (runs : Call → Except EmitError PUnit × EmitState) : RecordDecl → Emit PUnit :=
  fun r s => runs ⟨r, s⟩

/-- How the calls end when records are written like this. -/
def runs (record : RecordDecl → Emit PUnit) (c : Call) : Except EmitError PUnit × EmitState :=
  (record c.record).exec c.state

/-- In the course of a call another one is made, for a record inside. -/
def Calls (env : EmitEnv) (topLevel : Bool) (c : Call) : Call → Prop :=
  Asks (fun ends => (visit env (ofRuns ends) topLevel c.record).exec c.state) (runs (nested env))

/-- A call from another one: the record of the first has been registered in between, which it was
not before, and it has the other as a member or through a typedef that has been registered too. -/
structure Reenters (env : EmitEnv) (c c' : Call) : Prop where
  fresh : c.record.head.id ∉ c.state.registered
  opens : Opens env c.record (c.record.head.id :: c.state.registered) c'.record
    c'.state.registered

variable {env : EmitEnv}

theorem keeps_nestedWithin (hindex : env.index.Closed) (depth : Nat) {r : RecordDecl}
    (hr : r.toDecl ∈ env.index.decls) : Keeps (nestedWithin env depth r) := by
  refine .of_gives fun s => (addsRecords_nestedWithin hindex depth r r hr s).imp ?_
  rintro _ s' ⟨-, entries, -, -, -, hextends⟩
  exact ⟨_, hextends⟩

theorem exec_visit_congr (hindex : env.index.Closed) {f g : RecordDecl → Emit PUnit}
    (hkeeps : ∀ r : RecordDecl, r.toDecl ∈ env.index.decls → Keeps (f r)) (topLevel : Bool)
    (c : Call) (hr : c.record.toDecl ∈ env.index.decls)
    (hcalls : ∀ c', Reenters env c c' → runs f c' = runs g c') :
    (visit env f topLevel c.record).exec c.state =
      (visit env g topLevel c.record).exec c.state := by
  have hagree : Agree c.state.registered (visit env f topLevel c.record)
      (visit env g topLevel c.record) := by
    refine agree_visit (hindex _ hr) topLevel fun hnew inner now hopens s hs => ⟨?_, ?_⟩
    · exact hcalls ⟨inner, s⟩ ⟨hnew, hopens.mono hs⟩
    · exact fun a s' hrun => List.Subset.trans hs (hkeeps inner hopens.1 s a s' hrun)
  exact (hagree c.state (List.Subset.refl _)).1

theorem Calls.reenters (hindex : env.index.Closed) {topLevel : Bool} {c c' : Call}
    (hr : c.record.toDecl ∈ env.index.decls) (h : Calls env topLevel c c') :
    Reenters env c c' := by
  refine Asks.of_congr h fun ends hends => ?_
  refine (exec_visit_congr hindex (fun r => keeps_nestedWithin hindex _) topLevel c hr ?_).symm
  exact fun c' hc' => (hends c' hc').symm

theorem Reenters.lt {c c' : Call} (h : Reenters env c c')
    (hr : c.record.toDecl ∈ env.index.decls) : c'.left env < c.left env :=
  DeclIndex.length_unseen_lt (List.mem_map_of_mem hr) h.fresh h.opens.2.1

/-- A typedef that comes first in a record is followed to the record that it names. -/
theorem calls_of_first (r inner : RecordDecl) (s : EmitState) {head : DeclHead} {underlying : Ty}
    {rest : List Decl} (hcomplete : r.info.complete = true)
    (hindependent : r.info.dependent = false)
    (hmembers : r.members = .typedef head underlying :: rest)
    (hnamed : env.namedRecord? underlying = some inner)
    (hnew : r.head.id ∉ s.registered) (hhead : head.id ∉ r.head.id :: s.registered) :
    ∃ s', s'.registered = head.id :: r.head.id :: s.registered ∧
      Calls env false ⟨r, s⟩ ⟨inner, s'⟩ := by
  let header := r.header env (env.index.isPolymorphic r)
  let lines := r.baseLines env (env.index.isPolymorphic r)
  let s₁ := ((s.register r.head.id).enter r.head.id).write (r.sizeLines.map .line)
  let s₂ := (s₁.raise header.requests).write (RecordDecl.openingStrokes header.text)
  let s' := (s₂.write (lines.map .line)).register head.id
  have hvisit {ends : Call → Except EmitError PUnit × EmitState} {e : EmitError}
      (hends : ends ⟨inner, s'⟩ = (.error e, s')) :
      (visit env (ofRuns ends) false r).exec s = (.error e, s') := by
    have hskip : ¬ (!r.info.complete || r.info.dependent) = true := by
      simp [hcomplete, hindependent]
    unfold visit
    rw [if_neg Bool.false_ne_true, if_neg hskip]
    refine (exec_bind_ok (exec_register_of_not_mem hnew)).trans ?_
    refine (exec_bind_ok rfl).trans (exec_bind_error ?_)
    unfold RecordDecl.emit
    rw [if_neg Bool.false_ne_true, if_pos hcomplete]
    refine exec_bind_error ?_
    refine (exec_bind_ok rfl).trans ((exec_bind_ok rfl).trans ((exec_bind_ok rfl).trans ?_))
    refine exec_bind_error ((exec_bind_ok rfl).trans (exec_bind_error ?_))
    rw [hmembers]
    refine exec_bind_error ?_
    refine (exec_bind_ok (exec_register_of_not_mem hhead)).trans ?_
    rw [if_pos rfl, typedef_eq, hnamed]
    exact exec_bind_error hends
  obtain ⟨e, he⟩ : ∃ e, ∀ s'', (visit env (nested env) false r).exec s ≠ (.error e, s'') := by
    by_cases h : ∃ s'', (visit env (nested env) false r).exec s =
        (.error (.bitfieldOverflow "" 0), s'')
    · obtain ⟨s'', h⟩ := h
      exact ⟨.bitfieldOverflow "" 1, fun _ h' => absurd (h.symm.trans h') (by simp)⟩
    · exact ⟨_, fun s'' h' => h ⟨s'', h'⟩⟩
  classical
  let ends (c : Call) : Except EmitError PUnit × EmitState :=
    if c = ⟨inner, s'⟩ then (.error e, s') else runs (nested env) c
  refine ⟨s', rfl, ends, fun c hc => if_neg hc, fun heq => he s' ?_⟩
  exact heq.symm.trans (hvisit (if_pos rfl))

/-! ## The recursion without a bound -/

/-- Depths that exceed the number of declarations that are left make no difference. -/
theorem runs_nestedWithin_congr (hindex : env.index.Closed) (depth depth' : Nat) (c : Call)
    (hr : c.record.toDecl ∈ env.index.decls)
    (hdepth : c.left env < depth) (hdepth' : c.left env < depth') :
    runs (nestedWithin env depth) c = runs (nestedWithin env depth') c := by
  induction depth generalizing depth' c with
  | zero => exact absurd hdepth (Nat.not_lt_zero _)
  | succ depth ih =>
    cases depth' with
    | zero => exact absurd hdepth' (Nat.not_lt_zero _)
    | succ depth' =>
      refine exec_visit_congr hindex (fun r => keeps_nestedWithin hindex _) false c hr ?_
      intro c' hc'
      have hlt := hc'.lt hr
      exact ih depth' c' hc'.opens.1 (by omega) (by omega)

/-- The function that writes records inside others is a visit that calls it. -/
theorem nested_eq_visit (hindex : env.index.Closed) {r : RecordDecl}
    (hr : r.toDecl ∈ env.index.decls) : nested env r = visit env (nested env) false r := by
  funext s
  refine exec_visit_congr hindex (fun r => keeps_nestedWithin hindex _) false ⟨r, s⟩ hr ?_
  intro c' hc'
  have hlt : c'.left env < env.index.decls.length :=
    Nat.lt_of_lt_of_le (hc'.lt hr) (DeclIndex.length_unseen_le s.registered)
  exact runs_nestedWithin_congr hindex _ _ c' hc'.opens.1 hlt (Nat.lt_succ_of_lt hlt)

/-- Every function that is a visit that calls it is this one. -/
theorem eq_nested (hindex : env.index.Closed) {record : RecordDecl → Emit PUnit}
    (hrecord : ∀ r : RecordDecl, r.toDecl ∈ env.index.decls →
      record r = visit env record false r) {r : RecordDecl} (hr : r.toDecl ∈ env.index.decls) :
    record r = nested env r := by
  have hruns (c : Call) (hc : c.record.toDecl ∈ env.index.decls) :
      runs (nested env) c = runs record c := by
    induction c using (measure (Call.left env)).wf.induction with
    | _ c ih =>
      unfold runs
      rw [hrecord _ hc, nested_eq_visit hindex hc]
      refine exec_visit_congr hindex (fun r => keeps_nestedWithin hindex _) false c hc ?_
      exact fun c' hc' => ih c' (hc'.lt hc) hc'.opens.1
  funext s
  exact (hruns ⟨r, s⟩ hr).symm

end Emit

/-- The recursion through which records are written inside records ends, and so does the search
through base classes.  A call for a record inside another one is made after a declaration of the
unit has been registered that was not before, and it leaves fewer of them to register; so there is
no endless chain of calls, whatever typedefs name, and the equations of the recursion hold without
its bound and determine what is written.  The search goes on with fewer types, or with one more
record of the unit that has been met. -/
theorem TranslationUnit.recursion_ends (unit : TranslationUnit) (options : EmitOptions)
    (style : NamespaceStyle) :
    let env := EmitEnv.ofUnit unit options style
    (∀ topLevel c c', c.record.toDecl ∈ unit.walk → Emit.Calls env topLevel c c' →
      c.record.head.id ∈ env.index.ids ∧ Emit.Reenters env c c' ∧ c'.left env < c.left env) ∧
    WellFounded (fun c' c => c.record.toDecl ∈ unit.walk ∧ Emit.Calls env false c c') ∧
    (∀ r : RecordDecl, r.toDecl ∈ unit.walk →
      Emit.enterRecord env r = Emit.visit env (Emit.nested env) true r ∧
      Emit.nested env r = Emit.visit env (Emit.nested env) false r) ∧
    (∀ record : RecordDecl → Emit PUnit,
      (∀ r : RecordDecl, r.toDecl ∈ unit.walk → record r = Emit.visit env record false r) →
      ∀ r : RecordDecl, r.toDecl ∈ unit.walk → record r = Emit.nested env r) ∧
    (∀ c c', env.index.SearchCalls c c' → env.index.Proceeds c c') ∧
    WellFounded (fun c' c => env.index.SearchCalls c c') ∧
    ∀ find, (∀ c, find c = env.index.searchStep find c) ↔ find = env.index.searchFrom := by
  intro env
  have hindex : env.index.Closed := DeclIndex.closed_ofUnit unit
  have hlt {topLevel : Bool} {c c' : Emit.Call} (hr : c.record.toDecl ∈ unit.walk)
      (h : Emit.Calls env topLevel c c') := (h.reenters hindex hr).lt hr
  refine ⟨fun topLevel c c' hr h => ⟨?_, h.reenters hindex hr, hlt hr h⟩, ?_,
    fun r hr => ⟨rfl, Emit.nested_eq_visit hindex hr⟩, fun record hrecord r hr =>
    Emit.eq_nested hindex hrecord hr, fun c c' h => h.proceeds,
    Subrelation.wf (fun h => h.proceeds.lt) env.index.wellFounded_searchSize, fun find =>
    ⟨DeclIndex.eq_searchFrom, ?_⟩⟩
  · exact List.mem_eraseDups.2 (List.mem_map_of_mem hr)
  · exact Subrelation.wf (fun h => hlt h.1 h.2)
      (measure (Emit.Call.left env)).wf
  · rintro rfl
    exact DeclIndex.searchFrom_eq

/-- A struct that derives from another one and has a typedef of it. -/
def ringRecord (id other : DeclId) (name : String) : RecordDecl :=
  ⟨{ id, name := some name }, { tag := .struct, bases := [{ ty := .record ⟨other, ""⟩ }] },
    [.typedef { id := id + 2, name := some "T" } (.record ⟨other, ""⟩)], []⟩

/-- Two structs that derive from each other and have typedefs of each other. -/
def ringUnit : TranslationUnit :=
  ⟨[⟨"ring.h", [(ringRecord 1 2 "A").toDecl, (ringRecord 2 1 "B").toDecl]⟩]⟩

def ringEnv : EmitEnv := .ofUnit ringUnit {} .strings

/-- The calls go from the first struct to the second and back to the first, which is open, and each
leaves fewer declarations. -/
theorem ringUnit_calls : ∃ c c' c'' : Emit.Call,
    c.record = ringRecord 1 2 "A" ∧ c'.record = ringRecord 2 1 "B" ∧ c''.record = c.record ∧
    Emit.Calls ringEnv false c c' ∧ Emit.Calls ringEnv false c' c'' ∧
    c''.left ringEnv < c'.left ringEnv ∧ c'.left ringEnv < c.left ringEnv := by
  let first : Emit.Call := ⟨ringRecord 1 2 "A", .start {}⟩
  have hcalls : ∃ s', s'.registered = [3, 1] ∧
      Emit.Calls ringEnv false first ⟨ringRecord 2 1 "B", s'⟩ := by
    have hnew : (1 : DeclId) ∉ (EmitState.start {}).registered := List.not_mem_nil
    exact Emit.calls_of_first (ringRecord 1 2 "A") (ringRecord 2 1 "B") (.start {})
      rfl rfl rfl rfl hnew (by decide : 3 ∉ [1])
  obtain ⟨s', hs', hc⟩ := hcalls
  have hcalls : ∃ s'', s''.registered = 4 :: 2 :: s'.registered ∧
      Emit.Calls ringEnv false ⟨ringRecord 2 1 "B", s'⟩ ⟨ringRecord 1 2 "A", s''⟩ := by
    have hnew : (2 : DeclId) ∉ s'.registered := by
      rw [hs']
      decide
    have hfresh : (4 : DeclId) ∉ 2 :: s'.registered := by
      rw [hs']
      decide
    exact Emit.calls_of_first (ringRecord 2 1 "B") (ringRecord 1 2 "A") s'
      rfl rfl rfl rfl hnew hfresh
  obtain ⟨s'', -, hc'⟩ := hcalls
  have hends := (ringUnit.recursion_ends {} .strings).1
  have hfirst : (ringRecord 1 2 "A").toDecl ∈ ringUnit.walk := List.mem_cons_self
  have hsecond : (ringRecord 2 1 "B").toDecl ∈ ringUnit.walk := .tail _ (.tail _ (.head _))
  exact ⟨first, ⟨_, s'⟩, ⟨_, s''⟩, rfl, rfl, rfl, hc, hc', (hends _ _ _ hsecond hc').2.2,
    (hends _ _ _ hfirst hc).2.2⟩

end DBindings
