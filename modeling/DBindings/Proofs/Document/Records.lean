import DBindings.Proofs.Bitfields.Packing
import DBindings.Proofs.Document.Entries
import DBindings.Proofs.Run.Emitter

/-!
# The entries of a record

Writing a record adds its entry, with the entries of its members inside, or fails since a run of
bit-fields of a record of the unit is too wide.

* `RecordDecl.gives_emitFields`   fields are written exactly if their runs fit;
* `Emit.gives_typedef`            a typedef adds what is written for its record, and an alias;
* `RecordDecl.gives_emit`         a record, given what the records inside it add;
* `Emit.addsRecords_nested`       records inside records.
-/

namespace DBindings
open Entry (additionAll addition FitsAll)

/-- The members of a record of the unit are declarations of the unit. -/
def DeclIndex.Closed (index : DeclIndex) : Prop :=
  ∀ r : RecordDecl, r.toDecl ∈ index.decls → ∀ d ∈ r.members, d ∈ index.decls

theorem DeclIndex.closed_ofUnit (unit : TranslationUnit) : (DeclIndex.ofUnit unit).Closed :=
  fun _ hr _ hd => TranslationUnit.mem_walk_trans (Decl.mem_walk_members hd) hr

/-- A run of bit-fields of a complete record of the unit is too wide, and the error says so. -/
def EmitEnv.Overflows (env : EmitEnv) (e : EmitError) : Prop :=
  ∃ r : RecordDecl, r.toDecl ∈ env.index.decls ∧ r.info.complete = true ∧
    r.info.dependent = false ∧ ∃ run bits, Field.IsRun r.info.fields run ∧
      Field.ExceedsAt run bits ∧
      e = .bitfieldOverflow (env.names.declName r.head) (.ofNat (min bits (UInt32.size - 1)))

namespace RecordDecl
variable {env : EmitEnv} {s : EmitState}

/-! ## Fields -/

theorem gives_closeRun {fails : EmitError → Prop} (run : BitfieldRun) :
    Emit.Gives fails (closeRun run) s fun run' s' => run' = run.close.2 ∧
      s.Adds s' (.ofCode ((run.close.1.getD []).map .line)) :=
  (Emit.Gives.lines _).bind fun _ _ h => .pure ⟨rfl, h⟩

theorem accumulated_close {run : BitfieldRun} (h : run.isOpen = false → run.accumulated = 0) :
    run.close.2.accumulated = 0 ∧ run.close.2.record = run.record := by
  unfold BitfieldRun.close
  cases hopen : run.isOpen with
  | true => exact ⟨rfl, rfl⟩
  | false => exact ⟨h hopen, rfl⟩

/-- The fields are written if no sum of widths is too large.  The count of the run that is open is
the sum of its widths, and a run that is not open counts nothing. -/
theorem gives_emitFields (r : RecordDecl) (run : BitfieldRun) (position : Nat) (fields : List Field)
    (s : EmitState) (hopen : run.isOpen = false → run.accumulated = 0)
    (hfits : run.accumulated.toNat ≤ 64) :
    Emit.Gives
      (fun e => ∃ bits, Field.overflow? run.accumulated.toNat fields = some bits ∧
        e = .bitfieldOverflow run.record (.ofNat (min bits (UInt32.size - 1))))
      (emitFields env r run position fields) s fun _ s' =>
        Field.overflow? run.accumulated.toNat fields = none ∧
          s.Adds s' (.ofCode (r.fieldsCode env run position fields)) := by
  induction fields generalizing run position s with
  | nil => exact .map ((gives_closeRun run).imp fun _ _ h => ⟨rfl, h.2⟩)
  | cons field rest ih =>
    unfold emitFields fieldsCode Field.overflow?
    cases hwidth : field.bitWidth with
    | some width =>
      dsimp only
      rw [BitfieldRun.push_eq]
      by_cases hle : run.accumulated.toNat + width.toNat ≤ 64
      · -- the bit-field joins the run
        have hsum : (run.accumulated + width).toNat = run.accumulated.toNat + width.toNat :=
          (BitfieldRun.checkedAdd_of_lt (Nat.lt_of_le_of_lt hle (by decide))).2
        rw [if_pos hle, if_pos hle, ← hsum]
        refine ih _ (position + 1) s (fun h => ?_) (hsum ▸ hle)
        exact absurd h (by simp [BitfieldRun.isOpen])
      · rw [if_neg hle, if_neg hle]
        exact ⟨_, rfl, rfl⟩
    | none =>
      dsimp only
      obtain ⟨hzero, hrecord⟩ := accumulated_close hopen
      have hrest (s' : EmitState) := ih run.close.2 (position + 1) s' (fun _ => hzero)
        (hzero ▸ Nat.zero_le 64)
      rw [hzero, hrecord] at hrest
      refine (gives_closeRun run).bind fun run' s₁ h₁ => ?_
      obtain ⟨rfl, h₁⟩ := h₁
      refine (Emit.Gives.printed _).bind fun text s₂ h₂ => ?_
      obtain ⟨rfl, h₂⟩ := h₂
      refine (Emit.Gives.line _).bind fun _ s₃ h₃ => ?_
      refine (hrest s₃).imp fun _ s' h₄ => ⟨h₄.1, ?_⟩
      have h := ((h₁.trans h₂).trans h₃).trans h₄.2
      rw [Addition.append_none] at h
      exact h

theorem gives_fields (r : RecordDecl) (s : EmitState) (hr : r.toDecl ∈ env.index.decls)
    (hcomplete : r.info.complete = true) (hindependent : r.info.dependent = false) :
    Emit.Gives env.Overflows
      (emitFields env r { record := env.names.declName r.head } 0 r.info.fields) s fun _ s' =>
        Field.Fit r.info.fields ∧ s.Adds s'
          (.ofCode (r.fieldsCode env { record := env.names.declName r.head } 0 r.info.fields)) := by
  refine (gives_emitFields r ⟨env.names.declName r.head, [], 0⟩ 0 r.info.fields s (fun _ => rfl)
    (Nat.zero_le 64)).mono (fun e he => ?_)
    fun _ s' ⟨hnone, h⟩ => ⟨Field.overflow?_eq_none_iff.1 hnone, h⟩
  obtain ⟨bits, hbits, rfl⟩ := he
  obtain ⟨run, hrun, hexceeds⟩ := Field.exceedsAt_of_overflow? hbits
  exact ⟨r, hr, hcomplete, hindependent, run, bits, hrun, hexceeds, rfl⟩

end RecordDecl

namespace Emit
variable {env : EmitEnv}

theorem typedef_eq (record : RecordDecl → Emit PUnit) (head : DeclHead) (underlying : Ty)
    (topLevel : Bool) : typedef env record head underlying topLevel =
      (match env.namedRecord? underlying with
      | some r => do
        record r
        if env.names.declName r.head != head.name.getD "" then
          lines ["alias " ++ head.name.getD "" ++ " = " ++ env.names.declName r.head ++ ";", ""]
      | none => do
        line ("alias " ++ head.name.getD "" ++ " = " ++
          env.functionLinkage head.context underlying ++ env.render underlying ++ ";")
        if topLevel then line "") :=
  rfl

/-- What is written where a record is named: its entry, if any, with gaps. -/
def AddsNamed (env : EmitEnv) (scope : Option RecordDecl) (r : RecordDecl) (s s' : EmitState) :
    Prop :=
  ∃ entries, FitsAll env scope entries ∧ (∀ e ∈ entries, e.IsOf (some r)) ∧
    (entries.filterMap Entry.source?).Sublist [r.toDecl] ∧
    s.Extends s' (additionAll env scope entries)

theorem AddsNamed.nothing (scope : Option RecordDecl) (r : RecordDecl) (s : EmitState) :
    AddsNamed env scope r s s :=
  ⟨[], trivial, fun _ he => absurd he List.not_mem_nil, List.nil_sublist _, .refl s⟩

/-- A typedef adds what is written for the record that it names, and the alias.  What becomes of the
records that are open is up to that record. -/
theorem gives_typedef (scope : Option RecordDecl) (nests : List DeclId → List DeclId → Prop)
    (hnests : ∀ n, nests n n) {record : RecordDecl → Emit PUnit}
    (hrecord : ∀ r : RecordDecl, r.toDecl ∈ env.index.decls → ∀ s : EmitState,
      Gives env.Overflows (record r) s fun _ s' => nests s.nesting s'.nesting ∧
        AddsNamed env scope r s s')
    (head : DeclHead) (underlying : Ty) (s : EmitState) :
    Gives env.Overflows (typedef env record head underlying scope.isNone) s fun _ s' =>
      nests s.nesting s'.nesting ∧ ∃ target, FitsAll env scope target ∧
        (∀ e ∈ target, e.IsOf (env.namedRecord? underlying)) ∧
        s.Extends s' (additionAll env scope target ++
          .ofCode (env.aliasCode scope.isNone head underlying)) := by
  rw [typedef_eq]
  unfold EmitEnv.aliasCode
  cases htarget : env.namedRecord? underlying with
  | some r =>
    dsimp only
    refine (hrecord r (EmitEnv.toDecl_mem_of_named htarget) s).bind
      fun _ s₁ ⟨hn, target, hfits, hof, _, h₁⟩ => ?_
    by_cases hname : (env.names.declName r.head != head.name.getD "") = true
    · rw [if_pos hname, if_pos hname]
      refine (Gives.lines _).imp fun _ s₂ h₂ => ?_
      exact ⟨h₂.nesting ▸ hn, target, hfits, hof, h₁.trans h₂.toExtends⟩
    · rw [if_neg hname, if_neg hname]
      exact .pure ⟨hn, target, hfits, hof, h₁.trans (.refl s₁)⟩
  | none =>
    dsimp only
    refine (Gives.line _).bind fun _ s₁ h₁ => ?_
    cases scope with
    | some r =>
      refine .pure ⟨h₁.nesting ▸ hnests _, [], trivial, fun _ he => absurd he List.not_mem_nil, ?_⟩
      exact h₁.toExtends
    | none =>
      refine (Gives.line "").imp fun _ s₂ h₂ => ?_
      have hnesting : s₂.nesting = s.nesting := h₂.nesting.trans h₁.nesting
      refine ⟨hnesting ▸ hnests _, [], trivial, fun _ he => absurd he List.not_mem_nil, ?_⟩
      exact (h₁.trans h₂).toExtends

/-- Writing a record inside another one adds its entry, if any. -/
def AddsRecords (env : EmitEnv) (nested : RecordDecl → Emit PUnit) : Prop :=
  ∀ (around r : RecordDecl), r.toDecl ∈ env.index.decls → ∀ s : EmitState,
    Gives env.Overflows (nested r) s fun _ s' => s'.nesting = s.nesting ∧
      AddsNamed env (some around) r s s'

end Emit

namespace RecordDecl
open Emit (AddsRecords Gives)
variable {env : EmitEnv} {nested : RecordDecl → Emit PUnit} {s : EmitState}

/-! ## Members -/

/-- What is written for declarations is of these alone, and has all functions and variables. -/
def AddsFor (env : EmitEnv) (r : RecordDecl) (ds : List Decl) (s s' : EmitState) : Prop :=
  ∃ entries, FitsAll env (some r) entries ∧ (entries.filterMap Entry.source?).Sublist ds ∧
    entries.filterMap Entry.member? = ds.filter Decl.isCode ∧
    s.Adds s' (additionAll env (some r) entries)

theorem AddsFor.nothing (r : RecordDecl) {ds : List Decl} (h : ds.filter Decl.isCode = [])
    (s : EmitState) : AddsFor env r ds s s :=
  ⟨[], trivial, List.nil_sublist _, h.symm, .refl s⟩

theorem AddsFor.single {r : RecordDecl} {d : Decl} {s' : EmitState} {e : Entry}
    (hfits : e.Fits env (some r)) (hsource : e.source? = some d)
    (hmember : [e].filterMap Entry.member? = [d].filter Decl.isCode)
    (h : s.Adds s' (e.addition env (some r))) : AddsFor env r [d] s s' := by
  refine ⟨[e], Entry.fitsAll_singleton.2 hfits, ?_, hmember, ?_⟩
  · rw [List.filterMap_cons_some hsource]
    exact List.Sublist.refl _
  · rw [Entry.additionAll_singleton]
    exact h

theorem AddsFor.append {r : RecordDecl} {ds es : List Decl} {s' s'' : EmitState}
    (h : AddsFor env r ds s s') (h' : AddsFor env r es s' s'') :
    AddsFor env r (ds ++ es) s s'' := by
  obtain ⟨a, hfits, hsource, hmember, h⟩ := h
  obtain ⟨b, hfits', hsource', hmember', h'⟩ := h'
  refine ⟨a ++ b, Entry.fitsAll_append.2 ⟨hfits, hfits'⟩, ?_, ?_, ?_⟩
  · rw [List.filterMap_append]
    exact hsource.append hsource'
  · rw [List.filterMap_append, List.filter_append, hmember, hmember']
  · rw [Entry.additionAll_append]
    exact h.trans h'

theorem gives_emitMember (hnested : AddsRecords env nested) (r : RecordDecl) (d : Decl)
    (hd : d ∈ env.index.decls) (s : EmitState) :
    Gives env.Overflows (emitMember env nested r (env.index.isPolymorphic r) d) s fun _ s' =>
      AddsFor env r [d] s s' := by
  have hinside : some r = none → env.isRelevant d.head.loc = true :=
    fun h => absurd h (Option.some_ne_none r)
  cases d with
  | enumeration head e =>
    refine Gives.register (fun _ => .pure (.nothing r rfl s)) fun hnew => ?_
    refine (Gives.strokes _).imp fun _ s' h => ?_
    have hadds := (EmitState.Adds.register hnew).trans h
    exact .single (e := .leaf (.enumeration head e)) ⟨hd, hinside, Or.inl rfl⟩ rfl rfl hadds
  | record head info members methods =>
    refine (hnested r ⟨head, info, members, methods⟩ hd s).imp fun _ s' h => ?_
    obtain ⟨hn, entries, hfits, hof, hsource, h⟩ := h
    exact ⟨entries, hfits, hsource, Entry.filterMap_member?_of_isOf hof, h, hn⟩
  | typedef head underlying =>
    refine Gives.register (fun _ => .pure (.nothing r rfl s)) fun hnew => ?_
    refine (Emit.gives_typedef (some r) (fun n n' => n' = n) (fun _ => rfl) (hnested r) head
      underlying _).imp fun _ s' h => ?_
    obtain ⟨hn, target, hfits, hof, h⟩ := h
    refine .single (e := .typedef head underlying target) ⟨hd, hinside, hfits, hof⟩ rfl rfl ?_
    have hadds := (EmitState.Adds.register hnew).trans ⟨h, hn⟩
    rw [← Addition.append_assoc] at hadds
    exact hadds
  | var head v =>
    refine (Gives.line _).imp fun _ s' h => ?_
    exact .single (e := .member (.var head v)) ⟨hd, rfl, Option.some_ne_none r⟩ rfl rfl h
  | function head f =>
    refine (Gives.block _).imp fun _ s' h => ?_
    exact .single (e := .member (.function head f)) ⟨hd, rfl, Option.some_ne_none r⟩ rfl rfl h
  | space head members => exact .pure (.nothing r rfl s)
  | macroDef head definition => exact .pure (.nothing r rfl s)

theorem gives_members (hnested : AddsRecords env nested) (r : RecordDecl) (ds : List Decl)
    (hds : ∀ d ∈ ds, d ∈ env.index.decls) (s : EmitState) :
    Gives env.Overflows (ds.forM (emitMember env nested r (env.index.isPolymorphic r))) s
      fun _ s' => AddsFor env r ds s s' := by
  induction ds generalizing s with
  | nil => exact .pure (.nothing r rfl s)
  | cons d ds ih =>
    show Gives _ (emitMember env nested r _ d >>= fun _ => ds.forM _) s _
    refine (gives_emitMember hnested r d (hds d List.mem_cons_self) s).bind fun _ s₁ h₁ => ?_
    refine (ih (fun d hd => hds d (List.mem_cons_of_mem _ hd)) s₁).imp fun _ s' h₂ => ?_
    exact h₁.append h₂

theorem gives_methods (r : RecordDecl) (ds : List Decl) (s : EmitState) :
    Gives env.Overflows (ds.forM (emitMethod env r (env.index.isPolymorphic r))) s
      fun _ s' => s.Adds s' (.ofCode (ds.flatMap (Decl.methodCode env r))) := by
  induction ds generalizing s with
  | nil => exact .pure (.refl s)
  | cons d ds ih =>
    have hmethod : Gives env.Overflows (emitMethod env r (env.index.isPolymorphic r) d) s
        fun _ s' => s.Adds s' (.ofCode (d.methodCode env r)) := by
      cases d with
      | function head f => exact .block _
      | _ => exact .pure (.refl s)
    show Gives _ (emitMethod env r _ d >>= fun _ => ds.forM _) s _
    refine hmethod.bind fun _ s₁ h₁ => ?_
    exact (ih s₁).imp fun _ s' h₂ => h₁.trans h₂

theorem gives_emitInside (hindex : env.index.Closed) (hnested : AddsRecords env nested)
    (r : RecordDecl) (hr : r.toDecl ∈ env.index.decls) (hcomplete : r.info.complete = true)
    (hindependent : r.info.dependent = false) (s : EmitState) :
    Gives env.Overflows (emitInside env nested r (env.index.isPolymorphic r)) s fun _ s' =>
      ∃ members, FitsAll env (some r) members ∧
        (members.filterMap Entry.source?).Sublist r.members ∧
        members.filterMap Entry.member? = r.members.filter Decl.isCode ∧ Field.Fit r.info.fields ∧
        s.Adds s' (.ofCode ((r.baseLines env (env.index.isPolymorphic r)).map .line) ++
          additionAll env (some r) members ++
          .ofCode (r.fieldsCode env { record := env.names.declName r.head } 0 r.info.fields) ++
          .ofCode (r.methods.flatMap (Decl.methodCode env r))) := by
  refine (Gives.lines _).bind fun _ s₁ h₁ => ?_
  refine (gives_members hnested r r.members (hindex r hr) s₁).bind fun _ s₂ h₂ => ?_
  obtain ⟨members, hfits, hsource, hmember, h₂⟩ := h₂
  refine (gives_fields r s₂ hr hcomplete hindependent).bind fun _ s₃ ⟨hfit, h₃⟩ => ?_
  refine (gives_methods r r.methods s₃).imp fun _ s' h₄ => ?_
  exact ⟨members, hfits, hsource, hmember, hfit, ((h₁.trans h₂).trans h₃).trans h₄⟩

/-! ## Records -/

/-- What is written for a record: its front, entries for its members, and its back. -/
def AddsBody (env : EmitEnv) (topLevel : Bool) (r : RecordDecl) (s s' : EmitState) : Prop :=
  ∃ asked members, FitsAll env (some r) members ∧
    (members.filterMap Entry.source?).Sublist r.members ∧
    (r.info.complete = false → members = []) ∧
    (r.info.complete = true → members.filterMap Entry.member? = r.members.filter Decl.isCode) ∧
    (r.info.complete = true → Field.Fit r.info.fields) ∧
    s.Adds s' (.ofCode (r.frontCode env topLevel) ++ additionAll env (some r) members ++
      .ofCode (r.backCode env topLevel asked))

theorem AddsBody.around {topLevel : Bool} {r : RecordDecl} {s₁ s₂ s' : EmitState}
    (hopening : s.Adds s₁ (.ofCode (env.opening topLevel r.head.context)))
    (h : AddsBody env false r s₁ s₂)
    (hclosing : s₂.Adds s' (.ofCode (env.closing topLevel r.head.context))) :
    AddsBody env topLevel r s s' := by
  obtain ⟨asked, members, hfits, hsource, hforward, hmember, hfit, h⟩ := h
  refine ⟨asked, members, hfits, hsource, hforward, hmember, hfit, ?_⟩
  have hfront : r.frontCode env topLevel =
      env.opening topLevel r.head.context ++ r.frontCode env false := rfl
  have hback : r.backCode env topLevel asked =
      r.backCode env false asked ++ env.closing topLevel r.head.context := by
    unfold backCode
    rw [show env.closing false r.head.context = [] from rfl, List.append_nil]
  have hadds := (hopening.trans h).trans hclosing
  rw [hfront, hback]
  simp only [Addition.ofCode_append, Addition.append_assoc] at hadds ⊢
  exact hadds

theorem AddsBody.forward {r : RecordDecl} {s' : EmitState} (h : r.info.complete = false)
    (hadds : s.Adds s' (.ofCode [.line ("struct " ++ env.names.declName r.head ++ ";")])) :
    AddsBody env false r s s' := by
  have hcomplete : ¬ r.info.complete = true := by simp [h]
  have hfront : r.frontCode env false =
      [.line ("struct " ++ env.names.declName r.head ++ ";")] := if_neg hcomplete
  have hback : r.backCode env false false = [] := by
    unfold backCode
    rw [if_neg hcomplete]
    rfl
  refine ⟨false, [], trivial, List.nil_sublist _, fun _ => rfl, fun h => absurd h hcomplete,
    fun h => absurd h hcomplete, ?_⟩
  rw [hfront, hback]
  exact hadds

theorem gives_emitComplete (hindex : env.index.Closed) (hnested : AddsRecords env nested)
    (r : RecordDecl) (hr : r.toDecl ∈ env.index.decls) (hcomplete : r.info.complete = true)
    (hindependent : r.info.dependent = false) (s : EmitState) :
    Gives env.Overflows (emitComplete env nested r) s fun _ s' => AddsBody env false r s s' := by
  unfold emitComplete
  refine (Gives.lines _).bind fun _ s₁ h₁ => ?_
  refine (Gives.printed _).bind fun header s₂ ⟨hheader, h₂⟩ => ?_
  subst hheader
  refine (Gives.strokes _).bind fun _ s₃ h₃ => ?_
  refine (gives_emitInside hindex hnested r hr hcomplete hindependent s₃).bind fun _ s₄ h₄ => ?_
  obtain ⟨members, hfits, hsource, hmember, hfit, h₄⟩ := h₄
  obtain ⟨asked, h₅⟩ := EmitState.Adds.settle s₄ r.head.id (r.isStruct env)
  have h₆ := EmitState.Adds.close (s₄.settle r.head.id (r.isStruct env)) r.head.id (r.isStruct env)
  have hfront : r.frontCode env false = r.sizeLines.map .line ++
      openingStrokes (r.headerText env) ++
      (r.baseLines env (env.index.isPolymorphic r)).map .line := if_pos hcomplete
  have hback : r.backCode env false asked =
      r.fieldsCode env { record := env.names.declName r.head } 0 r.info.fields ++
        r.methods.flatMap (Decl.methodCode env r) ++ EmitState.Adds.askedCode asked ++
        [.dedent, .line "\x7d"] := by
    unfold backCode
    rw [if_pos hcomplete]
    exact List.append_nil _
  refine .modify ⟨asked, members, hfits, hsource, fun h => ?_, fun _ => hmember, fun _ => hfit, ?_⟩
  · exact absurd hcomplete (by simp [h])
  · have hadds := ((((h₁.trans h₂).trans h₃).trans h₄).trans h₅).trans h₆
    rw [hfront, hback]
    simp only [Addition.ofCode_append, Addition.append_none, Addition.append_assoc] at hadds ⊢
    exact hadds

/-- A record is written with what the namespace style puts around it, or without. -/
theorem gives_emit (hindex : env.index.Closed) (hnested : AddsRecords env nested) (r : RecordDecl)
    (hr : r.toDecl ∈ env.index.decls) (hindependent : r.info.dependent = false) (topLevel : Bool)
    (s : EmitState) :
    Gives env.Overflows (r.emit env nested topLevel) s fun _ s' =>
      AddsBody env topLevel r s s' := by
  rw [emit_eq]
  refine (Emit.Gives.strokes _).bind fun _ s₁ h₁ => ?_
  refine Gives.bind (?_ : Gives _ _ s₁ fun _ s₂ => AddsBody env false r s₁ s₂) fun _ s₂ h₂ => ?_
  · by_cases hcomplete : r.info.complete = true
    · rw [if_pos hcomplete]
      exact gives_emitComplete hindex hnested r hr hcomplete hindependent s₁
    · rw [if_neg hcomplete]
      exact (Emit.Gives.line _).imp fun _ s₂ h => .forward (Bool.eq_false_iff.2 hcomplete) h
  · exact (Emit.Gives.strokes _).imp fun _ s' h₃ => h₂.around h₁ h₃

end RecordDecl

namespace Emit
variable {env : EmitEnv}

theorem addsRecords_nestedWithin (hindex : env.index.Closed) (depth : Nat) :
    AddsRecords env (nestedWithin env depth) := by
  induction depth with
  | zero =>
    intro around r _ s
    exact .pure ⟨rfl, .nothing _ r s⟩
  | succ depth ih =>
    intro around r hr s
    unfold nestedWithin
    by_cases hskip : (!r.info.complete || r.info.dependent) = true
    · rw [if_pos hskip]
      exact .pure ⟨rfl, .nothing _ r s⟩
    · rw [if_neg hskip]
      have hcomplete : r.info.complete = true := by simp at hskip; exact hskip.1
      have hindependent : r.info.dependent = false := by simp at hskip; exact hskip.2
      refine Gives.register (fun _ => .pure ⟨rfl, .nothing _ r s⟩) fun hnew => ?_
      refine Gives.bind (.modify rfl) fun _ s₁ (hs₁ : s₁ = (s.register r.head.id).enter _) => ?_
      subst hs₁
      refine (RecordDecl.gives_emit hindex ih r hr hindependent false _).bind fun _ s₂ h₂ => ?_
      obtain ⟨asked, members, hfits, hsource, hforward, hmember, hfit, h₂⟩ := h₂
      refine Gives.bind (.modify rfl) fun _ s₃ (hs₃ : s₃ = s₂.leave) => ?_
      subst hs₃
      refine (Gives.line "").imp fun _ s' h₄ => ?_
      have hadmitted : r.Admitted env (some around) :=
        ⟨hr, hindependent, fun h => absurd h (Option.some_ne_none around), fun _ => hcomplete, hfit⟩
      have hadds := ((EmitState.Adds.register hnew).trans h₂.inside).trans h₄
      refine ⟨hadds.nesting, [.record r asked members, .gap], ?_, ?_, ?_, ?_⟩
      · exact ⟨⟨hadmitted, hfits, hsource, hforward, hmember⟩, trivial, trivial⟩
      · intro e he
        rcases List.mem_cons.1 he with rfl | he
        · exact rfl
        · rw [List.mem_singleton.1 he]
          exact trivial
      · exact List.Sublist.refl _
      · have h := hadds.toExtends
        simp only [Entry.additionAll, Entry.addition, Addition.append_assoc,
          Addition.append_none] at h ⊢
        exact h

theorem addsRecords_nested (hindex : env.index.Closed) : AddsRecords env (nested env) :=
  addsRecords_nestedWithin hindex _

end Emit

end DBindings
