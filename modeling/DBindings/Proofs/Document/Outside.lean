import DBindings.Proofs.Naming.Stable
import DBindings.Proofs.Renaming.Spared
import DBindings.Proofs.Run.Index

/-!
# Declarations outside the input roots

A unit is compared with one into whose files declarations have been put that the filter rejects.
The declarations of the first unit are written with the same names and with the same records around
them, and what has been put in does nothing, so both units are written as the same text, or with the
same error.  The names are the same only if the first unit is numbered first.

* `EmitEnv.renamed_gains`          new names are for what the first unit does not refer to;
* `Emit.AlikeAtTop`                two computations do the same between the declarations of files;
* `Emit.alikeAtTop_rejected`       what the filter rejects does nothing;
* `Emit.alikeAtTop_inserted`       declarations with others put in between;
* `TranslationUnit.emit_inserted`  units are written alike.
-/

namespace DBindings

/-! ## The first unit with the names of the second one -/

/-- The names that a table has for declarations that come into a unit. -/
def Renaming.ofNew (new : List Decl) (names : NameTable) : Renaming where
  record? id := if id ∈ Decl.numbers new then names.get? id else none
  field? _ _ := none

section
variable {new : List Decl} {unit unit' : TranslationUnit} (hgains : unit.Gains new unit')
include hgains

theorem Renaming.passes_ofNew (names : NameTable) {d : Decl} (hd : d ∈ unit.walk) :
    (ofNew new names).Passes d where
  refs id hid := if_neg (hgains.refs id (List.mem_flatMap.2 ⟨d, hd, hid⟩))
  record := if_neg (hgains.fresh d hd)
  fields _ := rfl

theorem Renaming.passes_walk (names : NameTable) {d : Decl} (hd : d ∈ unit.walk) :
    ∀ e ∈ d.walk, (ofNew new names).Passes e :=
  fun _ he => passes_ofNew hgains names (TranslationUnit.mem_walk_trans he hd)

/-- With the names of the second unit the first one is written as with its own. -/
theorem EmitEnv.renamed_gains
    (hsame : NameTable.SameBut (Decl.numbers new) (.assign unit) (.assign unit'))
    (options : EmitOptions) (style : NamespaceStyle) :
    EmitEnv.Renamed (.ofNew new (.assign unit'))
      ⟨options, .ofUnit unit, .assign unit', style⟩ (ofUnit unit options style) where
  options := rfl
  agree ref := by
    show ((NameTable.assign unit).get? ref.id).getD
      ((if ref.id ∈ Decl.numbers new then (NameTable.assign unit').get? ref.id else none).getD
        ref.name) = ((NameTable.assign unit').get? ref.id).getD ref.name
    by_cases hid : ref.id ∈ Decl.numbers new
    · rw [if_pos hid, NameTable.get?_assign_new hgains hid]
      rfl
    · rw [if_neg hid, hsame.record _ hid]
      rfl
  index := (DeclIndex.rename_eq_self fun _ hd => Renaming.passes_walk hgains _ hd).symm
  style := rfl
  members := DeclIndex.closed_ofUnit unit
  declName d hd := by
    rw [Decl.rename_eq_self d (Renaming.passes_walk hgains _ hd)]
    show (NameTable.assign unit).declName d.head = (NameTable.assign unit').declName d.head
    unfold NameTable.declName
    rw [hsame.record d.head.id (hgains.fresh d hd)]
  fieldName r hr i f hf _ absent := by
    have hid : r.head.id ∉ Decl.numbers new := hgains.fresh _ hr
    have hrefs : (Renaming.ofNew new (.assign unit')).Spares f.refs := by
      intro id hid
      refine (Renaming.passes_ofNew hgains _ hr).refs id ?_
      refine List.mem_append_left _ (List.mem_append_right _ (List.mem_flatMap.2 ⟨f, ?_, hid⟩))
      exact List.mem_of_getElem? hf
    have hfield : (ofUnit unit options style).names.fieldName? r.head.id i =
        (NameTable.assign unit').fieldName? r.head.id i := (hsame.field _ hid i).symm
    rw [Field.rename_eq_self hrefs rfl, hfield]

theorem DeclIndex.within_gains : (ofUnit unit).Within (ofUnit unit') where
  mem _ hd := (TranslationUnit.inserts_walk hgains.roots).subset hd
  record? d hd id hid := TranslationUnit.record?_inserts hgains.roots
    (hgains.refs id (List.mem_flatMap.2 ⟨d, hd, hid⟩))

theorem Emit.drive_gains
    (hsame : NameTable.SameBut (Decl.numbers new) (.assign unit) (.assign unit'))
    (options : EmitOptions) (style : NamespaceStyle) {d : Decl} (hd : ∀ e ∈ d.walk, e ∈ unit.walk) :
    d.drive (handle (.ofUnit unit' options style)) =
      d.drive (handle (.ofUnit unit options style)) := by
  let env : EmitEnv := ⟨options, .ofUnit unit, .assign unit', style⟩
  have hrenamed : (d.rename (.ofNew new (.assign unit'))).drive
      (handle (.ofUnit unit options style)) = d.drive (handle env) :=
    drive_rename (EmitEnv.renamed_gains hgains hsame options style) d hd
  rw [Decl.rename_eq_self d fun e he => Renaming.passes_ofNew hgains _ (hd e he)] at hrenamed
  have hwithin : d.drive (handle (env.withIndex (.ofUnit unit'))) = d.drive (handle env) :=
    drive_within (DeclIndex.within_gains hgains) (DeclIndex.closed_ofUnit unit)
      (DeclIndex.closed_ofUnit unit') hd
  exact hwithin.trans hrenamed.symm

end

/-! ## Between the declarations of files -/

theorem Event.Paired.append {a b : List Event} (ha : Paired a) (hb : Paired b) :
    Paired (a ++ b) := by
  induction ha with
  | nil => exact hb
  | single h _ ih => exact .single h ih
  | record hinside _ _ ih =>
    rw [List.append_assoc, List.cons_append]
    exact .record hinside ih

mutual

/-- Every record is left behind the declaration that it was entered for. -/
theorem Decl.paired_events : (d : Decl) → Event.Paired d.events
  | .space _ members => paired_eventsAll members
  | .record _ _ _ _ => .record .nil .nil
  | .enumeration _ _ | .function _ _ | .typedef _ _ | .var _ _ | .macroDef _ _ =>
    .single (fun _ => ⟨nofun, nofun⟩) .nil

theorem Decl.paired_eventsAll : (ds : List Decl) → Event.Paired (Decl.eventsAll ds)
  | [] => .nil
  | d :: ds => (paired_events d).append (paired_eventsAll ds)

end

namespace Emit

/-- From a state without open records two computations do the same, and none is open afterwards. -/
def AlikeAtTop (x y : Emit PUnit) : Prop :=
  ∀ s : EmitState, s.nesting = [] → x.exec s = y.exec s ∧
    ∀ s', y.exec s = (.ok (), s') → s'.nesting = []

namespace AlikeAtTop

theorem skip : AlikeAtTop (pure ()) (pure ()) :=
  fun _ hs => ⟨rfl, fun _ hx => (Prod.mk.inj hx).2 ▸ hs⟩

theorem bind {x y x' y' : Emit PUnit} (hx : AlikeAtTop x y) (hx' : AlikeAtTop x' y') :
    AlikeAtTop (do x; x') (do y; y') := by
  intro s hs
  obtain ⟨heq, hnesting⟩ := hx s hs
  rw [exec_bind, exec_bind, heq]
  match hrun : y.exec s with
  | (.ok _, s') => exact hx' s' (hnesting s' hrun)
  | (.error e, s') => exact ⟨rfl, fun _ h => nomatch (Prod.mk.inj h).1⟩

theorem lines (texts : List String) : AlikeAtTop (Emit.lines texts) (Emit.lines texts) :=
  fun _ hs => ⟨rfl, fun _ hx => (Prod.mk.inj hx).2 ▸ hs⟩

end AlikeAtTop

section
variable {env : EmitEnv}

theorem alikeAtTop_drive (hclosed : env.index.Closed) {d : Decl}
    (hd : ∀ x ∈ d.walk, x ∈ env.index.decls) :
    AlikeAtTop (d.drive (handle env)) (d.drive (handle env)) := by
  refine fun s hs => ⟨rfl, fun s' hrun => ?_⟩
  rw [Decl.drive_eq_forM] at hrun
  have hevents : ∀ event ∈ d.events, EventIn env.index event :=
    fun _ hevent => eventIn_events d hd hevent
  have hsub := (nesting_perform hclosed d.paired_events hevents s).ok hrun
  rw [hs] at hsub
  exact List.sublist_nil.1 hsub

/-! ## What the filter rejects -/

mutual

theorem exec_drive_rejected {s : EmitState} (hs : s.nesting = []) : (d : Decl) →
    (∀ x ∈ d.outer, env.isRelevant x.head.loc = false) →
      (d.drive (handle env)).exec s = (.ok (), s)
  | .space _ members, h => exec_driveAll_rejected hs members h
  | .record head info members methods, h => by
    have hrejected : env.isRelevant head.loc = false := h _ (List.mem_singleton_self _)
    have hnesting : s.nesting.head? ≠ some head.id := by
      rw [hs]
      exact nofun
    rw [Decl.drive]
    refine (exec_bind_ok (exec_enterRecord_of_settled fun _ hrelevant => ?_)).trans
      (exec_leaveRecord_of_ne hnesting)
    exact nomatch hrejected.symm.trans hrelevant
  | .enumeration head _, h | .function head _, h | .typedef head _, h | .var head _, h => by
    have hrejected : env.isRelevant head.loc = false := h _ (List.mem_singleton_self _)
    exact exec_accepted_of_settled fun hrelevant => nomatch hrejected.symm.trans hrelevant
  | .macroDef head _, h => by
    have hrejected : env.isRelevant head.loc = false := h _ (List.mem_singleton_self _)
    exact exec_define_of_settled fun hrelevant => nomatch hrejected.symm.trans hrelevant

theorem exec_driveAll_rejected {s : EmitState} (hs : s.nesting = []) : (ds : List Decl) →
    (∀ x ∈ Decl.outerAll ds, env.isRelevant x.head.loc = false) →
      (Decl.driveAll (handle env) ds).exec s = (.ok (), s)
  | [], _ => rfl
  | d :: ds, h => by
    obtain ⟨hd, hds⟩ := List.forall_mem_append.1 h
    rw [Decl.driveAll]
    exact (exec_bind_ok (exec_drive_rejected hs d hd)).trans (exec_driveAll_rejected hs ds hds)

end

theorem alikeAtTop_rejected {d : Decl} (h : ∀ x ∈ d.outer, env.isRelevant x.head.loc = false) :
    AlikeAtTop (d.drive (handle env)) (pure ()) :=
  fun s hs => ⟨exec_drive_rejected hs d h, (AlikeAtTop.skip s hs).2⟩

theorem alikeAtTop_inserted {env' : EmitEnv} (hclosed : env.index.Closed)
    (hkeep : ∀ d : Decl, (∀ x ∈ d.walk, x ∈ env.index.decls) →
      d.drive (handle env') = d.drive (handle env))
    {P : Decl → Prop} (hP : ∀ d, P d → ∀ x ∈ d.outer, env'.isRelevant x.head.loc = false)
    {ds ds' : List Decl} (h : Inserts P ds ds')
    (hds : ∀ x ∈ Decl.walkAll ds, x ∈ env.index.decls) :
    AlikeAtTop (Decl.driveAll (handle env') ds') (Decl.driveAll (handle env) ds) := by
  induction h with
  | nil => exact .skip
  | keep d _ ih =>
    obtain ⟨hd, hds⟩ := List.forall_mem_append.1 hds
    rw [Decl.driveAll, Decl.driveAll, hkeep d hd]
    exact (alikeAtTop_drive hclosed hd).bind (ih hds)
  | insert hd _ ih =>
    have h := (alikeAtTop_rejected (hP _ hd)).bind (ih hds)
    rwa [pure_bind, ← Decl.driveAll] at h

theorem alikeAtTop_files {env' : EmitEnv} {new : List Decl} {files files' : List SourceFile}
    (h : List.Forall₂ (fun file file' => file'.path = file.path ∧
      Inserts (· ∈ new) file.decls file'.decls) files files')
    (hdecls : ∀ file ∈ files, ∀ ds', Inserts (· ∈ new) file.decls ds' →
      AlikeAtTop (Decl.driveAll (handle env') ds') (Decl.driveAll (handle env) file.decls)) :
    AlikeAtTop (TranslationUnit.drive (handle env') ⟨files'⟩)
      (TranslationUnit.drive (handle env) ⟨files⟩) := by
  induction h with
  | nil => exact .skip
  | @cons file file' files files' hfile _ ih =>
    obtain ⟨hpath, hinserts⟩ := hfile
    obtain ⟨hfirst, hrest⟩ := List.forall_mem_cons.1 hdecls
    have hbegin : AlikeAtTop (handle env' (.beginFile file'.path))
        (handle env (.beginFile file.path)) := by
      rw [hpath]
      exact .lines _
    have hend : AlikeAtTop (handle env' (.endFile file'.path)) (handle env (.endFile file.path)) :=
      .skip
    exact (hbegin.bind ((hfirst _ hinserts).bind hend)).bind (ih hrest)

end

end Emit

/-! ## Units -/

theorem Decl.typedefName?_eq_none {id : DeclId} (x : Decl) (hid : x.id ≠ id) (hrefs : id ∉ x.refs) :
    x.typedefName? id = none := by
  cases x with
  | typedef head underlying =>
    unfold typedefName?
    dsimp only
    cases hunderlying : underlying.desugar with
    | record ref =>
      refine if_neg fun heq => hrefs ?_
      rw [← heq]
      exact underlying.mem_refs_of_desugar hunderlying
    | _ => rfl
  | record head info members methods => exact if_neg hid
  | _ => rfl

namespace TranslationUnit
variable {new : List Decl} {unit unit' : TranslationUnit} {options : EmitOptions}

theorem alikeAtTop_drive (hfiles : unit.Inserted new unit') (hgains : unit.Gains new unit')
    (hsame : NameTable.SameBut (Decl.numbers new) (.assign unit) (.assign unit'))
    (hrejected : ∀ x ∈ Decl.outerAll new, options.filter.isRelevant x.head.loc.file = false) :
    Emit.AlikeAtTop (unit'.drive (Emit.handle (.ofUnit unit' options .strings)))
      (unit.drive (Emit.handle (.ofUnit unit options .strings))) := by
  have hP (d : Decl) (hd : d ∈ new) (x : Decl) (hx : x ∈ d.outer) :
      (EmitEnv.ofUnit unit' options .strings).isRelevant x.head.loc = false := by
    refine hrejected x ?_
    rw [Decl.outerAll_eq_flatMap]
    exact List.mem_flatMap.2 ⟨d, hd, hx⟩
  have hdecls {ds ds' : List Decl} (h : Inserts (· ∈ new) ds ds')
      (hds : ∀ x ∈ Decl.walkAll ds, x ∈ unit.walk) :=
    Emit.alikeAtTop_inserted (DeclIndex.closed_ofUnit unit)
      (fun _ hd => Emit.drive_gains hgains hsame options .strings hd) hP h hds
  refine Emit.alikeAtTop_files hfiles fun file hfile ds' h => hdecls h fun x hx => ?_
  exact mem_walk.2 ⟨file, hfile, hx⟩

/-- Declarations that the filter rejects, that share no number with a unit, and of which neither
refers to the other, can be put into its files without a change to what is written, be it a text or
an error, as long as those of their records that get a number come behind those of the unit. -/
theorem emit_inserted (hfiles : unit.Inserted new unit')
    (hfresh : ∀ d ∈ unit.walk, d.id ∉ Decl.numbers new)
    (hrefs : ∀ id ∈ unit.refs, id ∉ Decl.numbers new)
    (hnewRefs : ∀ x ∈ Decl.walkAll new, ∀ d ∈ unit.walk, d.id ∉ x.refs)
    (hrejected : ∀ x ∈ Decl.outerAll new, options.filter.isRelevant x.head.loc.file = false)
    (hnumbered : unit.unnamedOuter <+: unit'.unnamedOuter) :
    unit'.emit options = unit.emit options := by
  have hunnamed : ∀ d ∈ unit.walk, d.head.name = none →
      ∀ x ∈ Decl.walkAll new, x.typedefName? d.id = none := by
    intro d hd _ x hx
    exact x.typedefName?_eq_none (fun heq => hfresh d hd (heq ▸ Decl.id_mem_numbers hx))
      (hnewRefs x hx d hd)
  have hgains : unit.Gains new unit' := ⟨hfiles.roots, hfresh, hrefs, hunnamed⟩
  have hsame := NameTable.sameBut_assign hgains hnumbered
  obtain ⟨hrun, -⟩ := alikeAtTop_drive hfiles hgains hsame hrejected (.start options) rfl
  have hwrite : unit'.write options (.start options) = unit.write options (.start options) := hrun
  unfold emit
  rw [hwrite]

end TranslationUnit

/-- An anonymous struct with a virtual method, and a variable of it. -/
def gaugeDecls : List Decl :=
  [.record { id := 1, loc := { file := some "in/gauge.h" } } { tag := .struct } []
    [.function { id := 2, name := some "read", access := .pub }
      { returnType := .int, method := some { isVirtual := true } }],
    .var { id := 3, name := some "gauge", loc := { file := some "in/gauge.h" } }
      { ty := .record ⟨1, ""⟩ }]

/-- An anonymous struct of a file that is under no input root. -/
def systemRecord : Decl :=
  .record { id := 4, loc := { file := some "sys/types.h" } } { tag := .struct } [] []

def gaugeUnit : TranslationUnit := ⟨[⟨"gauge.h", gaugeDecls⟩]⟩

def gaugeOptions : EmitOptions :=
  { preamble := false, filter := .ofRoots (fun _ => none) ["in"] }

/-- The unit with the other struct behind its declarations. -/
def gaugeFirstUnit : TranslationUnit := ⟨[⟨"gauge.h", gaugeDecls ++ [systemRecord]⟩]⟩

/-- The unit with the other struct in front of its declarations. -/
def systemFirstUnit : TranslationUnit := ⟨[⟨"gauge.h", systemRecord :: gaugeDecls⟩]⟩

theorem gaugeFirstUnit_emit :
    gaugeUnit.Inserted [systemRecord] gaugeFirstUnit ∧
    (∀ d ∈ gaugeUnit.walk, d.id ∉ Decl.numbers [systemRecord]) ∧
    (∀ id ∈ gaugeUnit.refs, id ∉ Decl.numbers [systemRecord]) ∧
    (∀ x ∈ Decl.walkAll [systemRecord], ∀ d ∈ gaugeUnit.walk, d.id ∉ x.refs) ∧
    (∀ x ∈ Decl.outerAll [systemRecord],
      gaugeOptions.filter.isRelevant x.head.loc.file = false) ∧
    gaugeUnit.unnamedOuter <+: gaugeFirstUnit.unnamedOuter ∧
    (NameTable.assign gaugeFirstUnit).get? 4 = some "AnonType_2" ∧
    gaugeFirstUnit.emit gaugeOptions = gaugeUnit.emit gaugeOptions := by
  have hinserted : gaugeUnit.Inserted [systemRecord] gaugeFirstUnit :=
    .cons ⟨rfl, .keep _ (.keep _ (.insert List.mem_cons_self .nil))⟩ .nil
  have hfresh : ∀ d ∈ gaugeUnit.walk, d.id ∉ Decl.numbers [systemRecord] := by decide
  have hrefs : ∀ id ∈ gaugeUnit.refs, id ∉ Decl.numbers [systemRecord] := by decide
  have hnewRefs : ∀ x ∈ Decl.walkAll [systemRecord], ∀ d ∈ gaugeUnit.walk, d.id ∉ x.refs := by
    decide
  have hrejected : ∀ x ∈ Decl.outerAll [systemRecord],
      gaugeOptions.filter.isRelevant x.head.loc.file = false := by
    decide +kernel
  have hnumbered : gaugeUnit.unnamedOuter <+: gaugeFirstUnit.unnamedOuter := ⟨_, rfl⟩
  exact ⟨hinserted, hfresh, hrefs, hnewRefs, hrejected, hnumbered, by decide +kernel,
    TranslationUnit.emit_inserted hinserted hfresh hrefs hnewRefs hrejected hnumbered⟩

/-- The struct that is left out takes the first number. -/
theorem systemFirstUnit_emit :
    gaugeUnit.Inserted [systemRecord] systemFirstUnit ∧
    (∀ d ∈ gaugeUnit.walk, d.id ∉ Decl.numbers [systemRecord]) ∧
    (∀ id ∈ gaugeUnit.refs, id ∉ Decl.numbers [systemRecord]) ∧
    (∀ x ∈ Decl.walkAll [systemRecord], ∀ d ∈ gaugeUnit.walk, d.id ∉ x.refs) ∧
    (∀ x ∈ Decl.outerAll [systemRecord],
      gaugeOptions.filter.isRelevant x.head.loc.file = false) ∧
    gaugeUnit.emit gaugeOptions = .ok (
      "\n// ------ gauge.h\n\nextern(C++)\nclass AnonType_1\n\x7b\n" ++
      "    public int read();\n\x7d\n\n" ++
      "AnonType_1 gauge;\n") ∧
    systemFirstUnit.emit gaugeOptions = .ok (
      "\n// ------ gauge.h\n\nextern(C++)\nclass AnonType_2\n\x7b\n" ++
      "    public int read();\n\x7d\n\n" ++
      "AnonType_2 gauge;\n") := by
  have hgauge : gaugeUnit.emit gaugeOptions =
      .ok (gaugeUnit.write gaugeOptions (.start gaugeOptions)).2.text :=
    TranslationUnit.emit_eq_text rfl rfl
  have hsystem : systemFirstUnit.emit gaugeOptions =
      .ok (systemFirstUnit.write gaugeOptions (.start gaugeOptions)).2.text :=
    TranslationUnit.emit_eq_text rfl rfl
  rw [hgauge, hsystem]
  exact ⟨.cons ⟨rfl, .insert List.mem_cons_self (.refl _)⟩ .nil, by decide, by decide, by decide,
    by decide +kernel, congrArg _ (by decide +kernel), congrArg _ (by decide +kernel)⟩

end DBindings
