import DBindings.Proofs.Run.Lawful

/-!
# The acts of the emitter

Everything the emitter does is playing lawful acts: for records by the depth of their nesting, for
units along the walk.

* `RecordDecl.emit_eq`   a record is code between what the namespace style puts around it;
* `Emit.writes_nested`   records inside records;
* `Emit.writes_handle`   what an event reports;
* `Emit.writes_drive`    a unit.
-/

namespace DBindings
open Stroke
open EmitState (mixinLine)

/-- The facts about a unit and a namespace style that the emitter relies on. -/
structure EmitEnv.Sound (env : EmitEnv) : Prop where
  members : ∀ r : RecordDecl, r.toDecl ∈ env.index.decls → ∀ d ∈ r.members, d ∈ env.index.decls
  inert_begin : ∀ ctx linkage, Inert (env.style.begin_ ctx linkage)
  inert_finish : ∀ ctx, Inert (env.style.finish ctx)

theorem NamespaceStyle.inert_attribute (ctx : DeclContext) (linkage : Linkage) :
    Inert [.line (attributeText ctx linkage)] := by
  refine inert_line (ne_mixinLine (c := '(') ?_ ?_)
  · unfold attributeText
    split <;> simp
  · decide

theorem EmitEnv.sound_ofUnit (unit : TranslationUnit) (options : EmitOptions) :
    (EmitEnv.ofUnit unit options .strings).Sound where
  members _ hr _ hd :=
    TranslationUnit.mem_walk_trans (Decl.mem_walk_members hd) hr
  inert_begin := NamespaceStyle.inert_attribute
  inert_finish _ := inert_nil

namespace Emit

theorem strokes_nil : strokes [] = pure () := by
  have hwrite : ∀ s : EmitState, s.write [] = s := fun s => by simp [EmitState.write]
  show (modify fun s => s.write [] : Emit PUnit) = _
  rw [funext hwrite]
  rfl

end Emit

namespace RecordDecl

/-- Of the environment fields depend on the names alone. -/
theorem emitFields_congr (env env' : EmitEnv) (h : env'.names = env.names) (r : RecordDecl)
    (run : BitfieldRun) (position : Nat) (fields : List Field) :
    emitFields env' r run position fields = emitFields env r run position fields := by
  have hrender : env'.render = env.render := by
    unfold EmitEnv.render
    rw [h]
  have hfield : fieldLine env' r = fieldLine env r := by
    unfold fieldLine EmitEnv.print
    rw [hrender, h]
  induction fields generalizing run position with
  | nil => rfl
  | cons field rest ih =>
    unfold emitFields
    rw [hrender, hfield]
    cases field.bitWidth with
    | some width => exact bind_congr fun _ => ih _ (position + 1)
    | none =>
      exact bind_congr fun run => bind_congr fun _ => bind_congr fun _ => ih run (position + 1)

end RecordDecl

/-- What stands around a record of a file or namespace is empty for a record inside another one. -/
theorem RecordDecl.emit_eq (env : EmitEnv) (nested : RecordDecl → Emit PUnit) (r : RecordDecl)
    (topLevel : Bool) : r.emit env nested topLevel = (do
      Emit.strokes
        (if topLevel then env.style.begin_ r.head.context (env.linkage r.head.context) else [])
      (if r.info.complete then r.emitComplete env nested
        else Emit.line ("struct " ++ env.names.declName r.head ++ ";"))
      Emit.strokes (if topLevel then env.style.finish r.head.context else [])) := by
  unfold RecordDecl.emit
  cases topLevel with
  | true => cases r.info.complete <;> rfl
  | false =>
    simp only [Bool.false_eq_true, ↓reduceIte, Emit.strokes_nil]
    cases r.info.complete <;> rfl

namespace Enumeration

theorem balanced_strokes (env : EmitEnv) (head : DeclHead) (e : Enumeration) :
    Balanced (e.strokes env head) := by
  intro n
  unfold strokes
  dsimp only
  rw [levelAll_append, levelAll_append, levelAll_append]
  have hopening : levelAll n (if env.names.declName head = "" then
      [.line ("enum : " ++ env.render e.integerType)]
    else [.line ("alias " ++ env.names.declName head ++ " = " ++ env.render e.integerType ++ ";"),
      .line ("enum : " ++ env.names.declName head)]) = n := by
    split <;> rfl
  rw [hopening, balanced_map_line]
  rfl

theorem inert_strokes (env : EmitEnv) (head : DeclHead) (e : Enumeration) :
    Inert (e.strokes env head) := by
  refine ⟨e.balanced_strokes env head, ?_⟩
  unfold strokes
  dsimp only
  refine List.forall_mem_append.2 ⟨List.forall_mem_append.2 ⟨List.forall_mem_append.2 ⟨?_, ?_⟩,
    ?_⟩, ?_⟩
  · split
    · exact List.forall_mem_singleton.2 (ne_mixinLine (c := ':') (by simp) (by decide))
    · refine List.forall_mem_cons.2 ⟨ne_mixinLine (c := '=') (by simp) (by decide), ?_⟩
      exact List.forall_mem_singleton.2 (ne_mixinLine (c := ':') (by simp) (by decide))
  · simp [Unmixed, mixinLine]
  · exact List.forall_mem_map.2 fun x _ => ne_mixinLine (c := '=') (by simp) (by decide)
  · simp [Unmixed, mixinLine]

end Enumeration

/-! ## Lines that are not the mixin -/

namespace BitfieldRun

theorem entryLines_ne_mixinLine (entries : List BitfieldEntry) :
    ∀ t ∈ entryLines entries, t ≠ mixinLine := by
  have hentry (entry : BitfieldEntry) (separator : String) :
      entryLine entry separator ≠ mixinLine :=
    ne_mixinLine (c := ',') (by simp [entryLine]) (by decide)
  fun_induction entryLines entries with
  | case1 => exact fun _ ht => absurd ht List.not_mem_nil
  | case2 last => exact List.forall_mem_singleton.2 (hentry last "")
  | case3 entry rest _ ih => exact List.forall_mem_cons.2 ⟨hentry entry ",", ih⟩

theorem close_ne_mixinLine (run : BitfieldRun) : ∀ t ∈ run.close.1.getD [], t ≠ mixinLine := by
  unfold close
  split
  · refine List.forall_mem_append.2 ⟨List.forall_mem_append.2 ⟨?_, ?_⟩, ?_⟩
    · exact List.forall_mem_singleton.2 (by decide)
    · exact entryLines_ne_mixinLine _
    · exact List.forall_mem_singleton.2 (by decide)
  · exact fun _ ht => absurd ht List.not_mem_nil

end BitfieldRun

namespace RecordDecl

theorem sizeLines_ne_mixinLine (r : RecordDecl) : ∀ t ∈ r.sizeLines, t ≠ mixinLine := by
  unfold sizeLines
  split
  · split
    · exact List.forall_mem_singleton.2 (ne_mixinLine (c := '@') (by simp) (by decide))
    · exact fun _ ht => absurd ht List.not_mem_nil
  · exact fun _ ht => absurd ht List.not_mem_nil

theorem baseLines_ne_mixinLine (env : EmitEnv) (r : RecordDecl) (polymorphic : Bool) :
    ∀ t ∈ r.baseLines env polymorphic, t ≠ mixinLine := by
  unfold baseLines
  intro t ht
  obtain ⟨⟨ty, i⟩, -, ht⟩ := List.mem_flatMap.1 ht
  simp only [List.mem_cons, List.not_mem_nil, or_false] at ht
  rcases ht with rfl | rfl <;> exact ne_mixinLine (c := '_') (by simp) (by decide)

theorem staticLine_ne_mixinLine (env : EmitEnv) (r : RecordDecl) (head : DeclHead) (v : Variable) :
    r.staticLine env head v ≠ mixinLine :=
  ne_mixinLine (c := 's') (by simp [staticLine]) (by decide)

end RecordDecl

theorem MacroDef.lines_ne_mixinLine (name : String) (m : MacroDef) (loc : SourceLoc) :
    ∀ t ∈ m.lines name loc, t ≠ mixinLine := by
  unfold lines
  split
  · split
    · refine List.forall_mem_cons.2 ⟨by decide, List.forall_mem_cons.2 ⟨?_, ?_⟩⟩
      · exact ne_mixinLine (c := '=') (by simp) (by decide)
      · exact List.forall_mem_singleton.2 (by decide)
    · exact List.forall_mem_singleton.2 (ne_mixinLine (c := '=') (by simp) (by decide))
  · refine List.forall_mem_cons.2 ⟨ne_mixinLine (c := '/') (by simp) (by decide), ?_⟩
    exact List.forall_mem_singleton.2 (ne_mixinLine (c := '/') (by simp) (by decide))

namespace Emit

section
variable {env : EmitEnv} {scope : Option RecordDecl}

theorem writes_typedef {record : RecordDecl → Emit PUnit}
    (hrec : ∀ r : RecordDecl, r.toDecl ∈ env.index.decls → Writes env scope [] (record r))
    (head : DeclHead) (underlying : Ty) (topLevel : Bool) :
    Writes env scope [] (typedef env record head underlying topLevel) := by
  unfold typedef
  dsimp only
  split
  · next r hr =>
    have hmem : r.toDecl ∈ env.index.decls := by
      split at hr
      · exact DeclIndex.toDecl_mem hr
      · exact absurd hr (by simp)
    refine (hrec r hmem).bind fun _ => ?_
    split
    · refine .lines (List.forall_mem_cons.2 ⟨ne_mixinLine (c := '=') (by simp) (by decide), ?_⟩)
      exact List.forall_mem_singleton.2 (by decide)
    · exact .pure _
  · refine (Writes.line (ne_mixinLine (c := '=') (by simp) (by decide))).bind fun _ => ?_
    split
    · exact .line (by decide)
    · exact .pure _

theorem writes_closeRun (run : BitfieldRun) : Writes env scope [] (RecordDecl.closeRun run) :=
  (Writes.lines run.close_ne_mixinLine).bind fun _ => .pure _

theorem writes_emitFields (r : RecordDecl) (run : BitfieldRun) (position : Nat)
    (fields : List Field)
    (hfields : ∀ i field, fields[i]? = some field → r.info.fields[position + i]? = some field) :
    Writes env (some r) [] (RecordDecl.emitFields env r run position fields) := by
  induction fields generalizing run position with
  | nil => exact (writes_closeRun run).map _
  | cons field rest ih =>
    have hrest : ∀ i next, rest[i]? = some next →
        r.info.fields[position + 1 + i]? = some next := by
      intro i next hi
      rw [Nat.add_assoc, Nat.add_comm 1]
      exact hfields (i + 1) next hi
    unfold RecordDecl.emitFields
    split
    · exact (Writes.ofExcept _).bind fun _ => ih _ (position + 1) hrest
    · refine (writes_closeRun run).bind fun run => ?_
      exact (Writes.block (.field (hfields 0 field rfl))).bind fun _ => ih run (position + 1) hrest

section
variable {nested : RecordDecl → Emit PUnit} {r : RecordDecl} (hnested : ∀ inner : RecordDecl,
  inner.toDecl ∈ env.index.decls → Writes env (some r) [] (nested inner))
include hnested

theorem writes_emitMember (d : Decl) (hmember : d ∈ r.members) (hd : d ∈ env.index.decls) :
    Writes env (some r) []
      (RecordDecl.emitMember env nested r (env.index.isPolymorphic r) d) := by
  cases d with
  | enumeration head e =>
    refine Writes.register_plain fun isNew => ?_
    cases isNew with
    | true => exact .strokes (e.inert_strokes env head)
    | false => exact .pure _
  | record head info members methods => exact hnested ⟨head, info, members, methods⟩ hd
  | typedef head underlying =>
    refine Writes.register_plain fun isNew => ?_
    cases isNew with
    | true => exact writes_typedef hnested head underlying false
    | false => exact .pure _
  | var head v => exact .line (r.staticLine_ne_mixinLine env head v)
  | function head f => exact .block (.method (List.mem_append_left _ hmember))
  | space head members => exact .pure _
  | macroDef head definition => exact .pure _

theorem writes_emitInside (henv : env.Sound) (hr : r.toDecl ∈ env.index.decls) :
    Writes env (some r) [] (RecordDecl.emitInside env nested r (env.index.isPolymorphic r)) := by
  have hmethod : ∀ d ∈ r.methods, Writes env (some r) []
      (RecordDecl.emitMethod env r (env.index.isPolymorphic r) d) := by
    intro d hd
    cases d with
    | function head f => exact .block (.method (List.mem_append_right _ hd))
    | _ => exact .pure _
  refine (Writes.lines (r.baseLines_ne_mixinLine env _)).bind fun _ => ?_
  refine (Writes.forM r.members fun d hd =>
    writes_emitMember hnested d hd (henv.members r hr d hd)).bind fun _ => ?_
  refine (writes_emitFields r _ 0 r.info.fields fun i field hi => ?_).bind fun _ =>
    Writes.forM r.methods hmethod
  rw [Nat.zero_add]
  exact hi

theorem writes_emitComplete (henv : env.Sound) (hr : r.toDecl ∈ env.index.decls)
    (h : r.info.complete = true) :
    Writes env scope [r.head.id] (RecordDecl.emitComplete env nested r) :=
  (Writes.lines r.sizeLines_ne_mixinLine).bind fun _ =>
    Writes.body (writes_emitInside hnested henv hr) ⟨hr, h, rfl, rfl, rfl⟩

theorem writes_emit (henv : env.Sound) (hr : r.toDecl ∈ env.index.decls) (topLevel : Bool) :
    Writes env scope [r.head.id] (r.emit env nested topLevel) := by
  rw [RecordDecl.emit_eq]
  refine (Writes.strokes (henv.inert_begin _ _).ite).bind fun _ => ?_
  refine Writes.append (p := [r.head.id]) (q := []) ?_ fun _ =>
    .strokes (henv.inert_finish _).ite
  split
  · next h => exact writes_emitComplete hnested henv hr h
  · exact (Writes.line (ne_mixinLine (c := 's') (by simp) (by decide))).mono

end

theorem writes_nestedWithin (henv : env.Sound) (depth : Nat) (r : RecordDecl)
    (hr : r.toDecl ∈ env.index.decls) : Writes env scope [] (nestedWithin env depth r) := by
  induction depth generalizing r scope with
  | zero => exact .pure _
  | succ depth ih =>
    unfold nestedWithin
    split
    · exact .pure _
    · refine Writes.register (.pure _) ?_
      exact (Writes.enter _).bind fun _ => (writes_emit ih henv hr false).append fun _ =>
        Writes.leave.bind fun _ => .line (by decide)

theorem writes_nested (henv : env.Sound) (r : RecordDecl) (hr : r.toDecl ∈ env.index.decls) :
    Writes env scope [] (nested env r) :=
  writes_nestedWithin henv _ r hr

/-! ## Events -/

theorem writes_enterRecord (henv : env.Sound) (r : RecordDecl) (hr : r.toDecl ∈ env.index.decls) :
    Writes env scope [] (enterRecord env r) := by
  unfold enterRecord
  split
  · exact .pure _
  · refine Writes.accept (.pure _) ?_
    exact (Writes.enter _).bind fun _ => writes_emit (writes_nested henv) henv hr true

theorem writes_leaveRecord (id : DeclId) : Writes env scope [] (leaveRecord id) := by
  have hleave : Writes env scope [] (do leave; line "") :=
    Writes.leave.bind fun _ => .line (by decide)
  intro c
  by_cases h : (c.nesting.head? == some id) = true
  · have hexec : ∀ s : EmitState, s.control = c →
        (leaveRecord id).exec s = (do leave; line "" : Emit PUnit).exec s := by
      intro s hs
      have hs' : (s.nesting.head? == some id) = true := by
        rw [← hs] at h
        exact h
      unfold leaveRecord
      rw [exec_bind, exec_get]
      simp only [hs', if_true]
    rcases hleave c with ⟨a, acts, hacts, hx⟩ | ⟨e, he⟩
    · exact Or.inl ⟨a, acts, hacts, fun s hs => (hexec s hs).trans (hx s hs)⟩
    · exact Or.inr ⟨e, fun s hs => (congrArg (·.1) (hexec s hs)).trans (he s hs)⟩
  · refine Or.inl ⟨(), [], Act.Lawful.nil _, fun s hs => ?_⟩
    have hs' : (s.nesting.head? == some id) = false := by
      rw [← hs] at h
      exact Bool.eq_false_iff.2 h
    unfold leaveRecord
    rw [exec_bind, exec_get]
    simp only [hs']
    rfl

theorem writes_define (name : String) (definition : MacroDef) (loc : SourceLoc) :
    Writes env scope [] (handle env (.define name definition loc)) := by
  have hlines : ∀ macros : MacroNames,
      ∀ t ∈ (macros.define name definition loc).1.getD [], t ≠ mixinLine := by
    intro macros
    unfold MacroNames.define
    split
    · exact fun _ ht => absurd ht List.not_mem_nil
    · exact definition.lines_ne_mixinLine name loc
  unfold handle
  dsimp only
  split
  · intro c
    refine Or.inl ⟨(), [.define (c.macros.define name definition loc).2,
      .write (((c.macros.define name definition loc).1.getD []).map .line)], ?_, fun s hs => ?_⟩
    · exact (Act.Lawful.single [] (.define _) rfl rfl trivial).append (q := [])
        (Act.Lawful.write [] (inert_lines (hlines c.macros)))
    · subst hs
      rfl
  · exact .pure _

theorem writes_function (head : DeclHead) (f : Function) (henv : env.Sound)
    (hf : .function head f ∈ env.index.decls) : Writes env none [] (function env head f) := by
  unfold function
  dsimp only
  split
  · exact .pure _
  · refine (Writes.strokes (henv.inert_begin _ _)).bind fun _ => ?_
    refine (Writes.block (.function hf)).bind fun _ => ?_
    exact (Writes.strokes (henv.inert_finish _)).bind fun _ => .line (by decide)

/-- The declaration that an event hands over is one of the unit. -/
def EventIn (index : DeclIndex) : Event → Prop
  | .enterRecord d | .leaveRecord d | .enumeration d | .function d | .typedef d | .variable_ d =>
    d ∈ index.decls
  | .beginFile _ | .endFile _ | .define _ _ _ => True

theorem writes_handle (henv : env.Sound) (event : Event) (hevent : EventIn env.index event) :
    Writes env none [] (handle env event) := by
  cases event with
  | beginFile path =>
    refine .lines (List.forall_mem_cons.2 ⟨by decide, List.forall_mem_cons.2 ⟨?_, ?_⟩⟩)
    · exact ne_mixinLine (c := '/') (by simp) (by decide)
    · exact List.forall_mem_singleton.2 (by decide)
  | endFile path => exact .pure _
  | define name definition loc => exact writes_define name definition loc
  | leaveRecord d => exact writes_leaveRecord d.id
  | enterRecord d =>
    unfold handle
    dsimp only
    split
    · next r hr =>
      rw [EventIn, Decl.record?_eq_some hr] at hevent
      exact writes_enterRecord henv r hevent
    · exact .pure _
  | enumeration d =>
    cases d with
    | enumeration head e => exact Writes.accept (.pure _) (.strokes (e.inert_strokes env head))
    | _ => exact .pure _
  | function d =>
    cases d with
    | function head f => exact Writes.accept (.pure _) (writes_function head f henv hevent).mono
    | _ => exact .pure _
  | typedef d =>
    cases d with
    | typedef head underlying =>
      refine Writes.accept (.pure _) (writes_typedef (fun r hr => ?_) head underlying true).mono
      exact (writes_enterRecord henv r hr).bind fun _ => writes_leaveRecord r.head.id
    | _ => exact .pure _
  | variable_ d =>
    cases d with
    | var head v =>
      exact Writes.accept (.pure _) (.block (.variable_ hevent))
    | _ => exact .pure _

/-! ## Units -/

mutual

theorem writes_driveDecl (henv : env.Sound) :
    (d : Decl) → (∀ e ∈ d.walk, e ∈ env.index.decls) →
      Writes env none [] (Decl.drive (handle env) d)
  | .space head members, h => by
    unfold Decl.drive
    exact writes_driveAll henv members fun e he => h e (List.mem_cons_of_mem _ he)
  | .record head info members methods, h => by
    unfold Decl.drive
    have hd := h _ (Decl.mem_walk_self _)
    exact (writes_handle henv (.enterRecord _) hd).bind fun _ =>
      writes_handle henv (.leaveRecord _) hd
  | .enumeration head e, h => by
    unfold Decl.drive
    exact writes_handle henv _ (h _ (Decl.mem_walk_self _))
  | .function head f, h => by
    unfold Decl.drive
    exact writes_handle henv _ (h _ (Decl.mem_walk_self _))
  | .typedef head underlying, h => by
    unfold Decl.drive
    exact writes_handle henv _ (h _ (Decl.mem_walk_self _))
  | .var head v, h => by
    unfold Decl.drive
    exact writes_handle henv _ (h _ (Decl.mem_walk_self _))
  | .macroDef head definition, _ => by
    unfold Decl.drive
    exact writes_handle henv _ trivial

theorem writes_driveAll (henv : env.Sound) :
    (ds : List Decl) → (∀ e ∈ Decl.walkAll ds, e ∈ env.index.decls) →
      Writes env none [] (Decl.driveAll (handle env) ds)
  | [], _ => by
    unfold Decl.driveAll
    exact .pure _
  | d :: ds, h => by
    unfold Decl.driveAll
    exact (writes_driveDecl henv d fun e he => h e (List.mem_append_left _ he)).bind fun _ =>
      writes_driveAll henv ds fun e he => h e (List.mem_append_right _ he)

end

end

/-- A run over a unit plays lawful acts. -/
theorem writes_drive (unit : TranslationUnit) (options : EmitOptions) :
    Writes (EmitEnv.ofUnit unit options .strings) none []
      (unit.drive (handle (EmitEnv.ofUnit unit options .strings))) := by
  have henv := EmitEnv.sound_ofUnit unit options
  refine Writes.forM unit.files fun file hfile => ?_
  refine (writes_handle henv (.beginFile file.path) trivial).bind fun _ => ?_
  exact (writes_driveAll henv file.decls fun e he =>
    TranslationUnit.mem_walk.2 ⟨file, hfile, he⟩).bind fun _ =>
      writes_handle henv (.endFile file.path) trivial

end Emit

end DBindings
