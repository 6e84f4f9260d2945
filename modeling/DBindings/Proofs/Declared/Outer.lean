import DBindings.Proofs.Declared.Entries

/-!
# What stands in files and namespaces

Each enum, function, variable and typedef of a file or namespace that is accepted has one entry in
the module, and the code of the entry declares it.

* `Decl.leafCode_eq_nil_iff`        the only code that is empty;
* `Decl.leafCode_function`          a function has its linkage and its signature;
* `TranslationUnit.outer_kept`      which declarations are written, and with which code.
-/

namespace DBindings
open Entry (additionAll FitsAll membersAll)

theorem Decl.leafCode_eq_nil_iff {env : EmitEnv} {d : Decl}
    (hkind : d.isEnumeration = true ∨ d.isCode = true) :
    d.leafCode env = [] ↔ d.isNamedOperator = true := by
  cases d with
  | enumeration head e =>
    refine iff_of_false ?_ Bool.false_ne_true
    unfold leafCode Enumeration.strokes
    simp
  | function head f =>
    unfold leafCode isNamedOperator
    dsimp only
    split
    · next h => exact iff_of_true rfl h
    · next h => exact iff_of_false (by simp) h
  | var head v => exact iff_of_false (List.cons_ne_nil _ _) Bool.false_ne_true
  | _ => rcases hkind with h | h <;> exact absurd h Bool.false_ne_true

theorem Function.lines_freeBlock (env : EmitEnv) (name : String) (f : Function) :
    ∃ rest more, (f.freeBlock env name).lines =
      ((f.freeSignature env name).text ++ rest) :: more := by
  let cx : PrintContext := { env.print with pointerReturn := f.returnType.isPointer }
  have hdefinition : ∃ rest more, (definition cx (f.freeSignature env name).text f.inlineBody? []
      false).lines = ((f.freeSignature env name).text ++ rest) :: more := by
    unfold definition
    cases f.inlineBody? with
    | none => exact ⟨";", [], rfl⟩
    | some body =>
      dsimp only
      split
      · exact ⟨";", [], rfl⟩
      · exact ⟨"", _, congrArg₂ _ String.append_empty.symm rfl⟩
  exact hdefinition

/-- The code of a function that is written declares it, under its linkage. -/
theorem Decl.leafCode_function {unit : TranslationUnit} {options : EmitOptions} {head : DeclHead}
    {f : Function} (h : (function head f).isNamedOperator = false) :
    let env := EmitEnv.ofUnit unit options .strings
    ∃ rest more, (function head f).leafCode env =
      .line (NamespaceStyle.attributeText head.context (env.linkage head.context)) ::
        .line ((f.freeSignature env (head.name.getD "")).text ++ rest) :: more := by
  intro env
  obtain ⟨rest, more, hlines⟩ := f.lines_freeBlock env (head.name.getD "")
  refine ⟨rest, more.map .line ++ (env.closing true head.context ++ [.line ""]), ?_⟩
  have hname : ¬ "operator".toList.isPrefixOf (head.name.getD "").toList = true := by
    intro hname
    exact Bool.false_ne_true (h.symm.trans hname)
  have hopening : env.opening true head.context =
      [.line (NamespaceStyle.attributeText head.context (env.linkage head.context))] := rfl
  unfold leafCode
  dsimp only
  rw [if_neg hname, hlines, hopening]
  simp

/-- A declaration that is no record has an entry if its file is under an input root. -/
theorem TranslationUnit.Consists.exists_entry {unit : TranslationUnit} {options : EmitOptions}
    {s : EmitState} {entries : List Entry} (h : unit.Consists options s entries)
    (hids : (unit.walk.map Decl.id).Nodup) {d : Decl} (houter : d ∈ unit.outer)
    (hrelevant : (EmitEnv.ofUnit unit options .strings).isRelevant d.head.loc = true)
    (hrecord : d.record? = none) (hproper : d.isMacro = false) :
    ∃ e ∈ entries, e.source? = some d := by
  have hindependent : d.isDependent = false := by
    unfold Decl.isDependent
    rw [hrecord]
    rfl
  have hid := h.mem_registered houter hproper hindependent hrelevant
  rw [h.registered, List.mem_reverse] at hid
  exact Entry.exists_of_registered rfl hids h.fits houter hrecord hid

/-- In a unit that is written, each enum, function, variable and typedef of a file or namespace
whose file is under an input root has one entry.  It is the code of an enum, variable or function,
which is empty exactly if a function is named like an operator and declares it otherwise, or an
alias if the typedef names no record of the unit.  No declaration has two entries anywhere in the
module. -/
theorem TranslationUnit.outer_kept (unit : TranslationUnit) (options : EmitOptions)
    (hids : (unit.walk.map Decl.id).Nodup) {text : String} (h : unit.emit options = .ok text) :
    let env := EmitEnv.ofUnit unit options .strings
    ∃ s entries, text = EmitState.finish s ∧ FitsAll env none entries ∧
      s.script.toList = (EmitState.start options).script.toList ++
        (additionAll env none entries).code ∧
      ((additionAll env none entries).registered ++ (membersAll entries).map Decl.id).Nodup ∧
      ∀ d ∈ unit.outer, env.isRelevant d.head.loc = true →
        (d.isEnumeration = true ∨ d.isCode = true →
          Entry.HasOne env entries d (d.leafCode env) ∧
          (d.leafCode env = [] ↔ d.isNamedOperator = true)) ∧
        (∀ head e, d = .enumeration head e →
          (env.names.declName head ≠ "" →
            Declarator.WrittenIn ⟨.enumeration, env.names.declName head, "alias "⟩
              (d.leafCode env)) ∧
          ∀ x ∈ e.enumerators, Declarator.WrittenIn ⟨.enumerator, x.name, ""⟩ (d.leafCode env)) ∧
        (∀ head v, d = .var head v →
          ∃ line, d.leafCode env = [.line line] ∧ (v.declarator env head).StandsIn line) ∧
        (∀ head f, d = .function head f → d.isNamedOperator = false →
          ∃ rest more, d.leafCode env =
            .line (NamespaceStyle.attributeText head.context (env.linkage head.context)) ::
              .line ((f.freeSignature env (head.name.getD "")).text ++ rest) :: more) ∧
        ∀ head underlying, d = .typedef head underlying → env.namedRecord? underlying = none →
          ∃ n, Entry.HasOne env entries d
            (List.replicate n (.line "") ++ env.aliasCode true head underlying) := by
  intro env
  obtain ⟨s, entries, -, htext, hunit⟩ := consists_of_emit h
  refine ⟨s, entries, htext, hunit.fits, hunit.code,
    Entry.nodup_written rfl hids hunit.fits hunit.nodup hunit.source (handsOverOuter_events hids),
    fun d houter hrelevant => ⟨fun hkind => ⟨?_, Decl.leafCode_eq_nil_iff hkind⟩, ?_, ?_, ?_,
      fun head underlying hd hnamed => ?_⟩⟩
  · have hproper : d.isMacro = false := by
      cases d with
      | macroDef _ _ => rcases hkind with hkind | hkind <;> exact nomatch hkind
      | _ => rfl
    obtain ⟨e, he, hs⟩ :=
      hunit.exists_entry hids houter hrelevant (Decl.record?_of_leaf hkind) hproper
    have hone := Entry.hasOne_of_mem hunit.fits hunit.nodup he hs
    rwa [Entry.code_leaf (Entry.fitsAll_iff.1 hunit.fits e he) hkind hs] at hone
  · rintro head e rfl
    exact ⟨Enumeration.written_name, fun x => Enumeration.written_enumerator⟩
  · rintro head v rfl
    exact ⟨_, rfl, v.standsIn_variableCode env head⟩
  · rintro head f rfl hname
    exact Decl.leafCode_function hname
  · subst hd
    obtain ⟨e, he, hs⟩ := hunit.exists_entry hids houter hrelevant rfl rfl
    obtain ⟨n, hcode⟩ := Entry.code_alias (Entry.fitsAll_iff.1 hunit.fits e he) hnamed hs
    have hone := Entry.hasOne_of_mem hunit.fits hunit.nodup he hs
    rw [hcode] at hone
    exact ⟨n, hone⟩

/-- A file with a function whose name begins with the letters of a keyword. -/
def operatorCountUnit : TranslationUnit :=
  ⟨[⟨"a.h", [.function { id := 1, name := some "operatorCount" } { returnType := .int }]⟩]⟩

def countUnit : TranslationUnit :=
  ⟨[⟨"a.h", [.function { id := 1, name := some "count" } { returnType := .int }]⟩]⟩

/-- The function is not written, although no operator has such a name. -/
theorem operatorCountUnit_lost :
    (operatorCountUnit.walk.map Decl.id).Nodup ∧
    operatorCountUnit.outer.map (·.head.name) = [some "operatorCount"] ∧
    operatorCountUnit.emit { preamble := false } = .ok "\n// ------ a.h\n\n" ∧
    countUnit.emit { preamble := false } =
      .ok "\n// ------ a.h\n\nextern(C++)\nint count();\n\n" := by
  have hlost : operatorCountUnit.emit { preamble := false } =
      .ok (operatorCountUnit.write { preamble := false } (.start { preamble := false })).2.text :=
    TranslationUnit.emit_eq_text rfl rfl
  have hwritten : countUnit.emit { preamble := false } =
      .ok (countUnit.write { preamble := false } (.start { preamble := false })).2.text :=
    TranslationUnit.emit_eq_text rfl rfl
  refine ⟨by decide, by decide, ?_, ?_⟩
  · rw [hlost]
    exact congrArg _ (by decide +kernel)
  · rw [hwritten]
    exact congrArg _ (by decide +kernel)

def tallyUnit : TranslationUnit :=
  ⟨[⟨"a.h", [
    .enumeration { id := 1, name := some "Unit" }
      { integerType := .int, enumerators := [⟨"one", 1⟩] },
    .var { id := 2, name := some "total" } { ty := .int },
    .function { id := 3, name := some "count" } { returnType := .int }]⟩]⟩

def tallyEnv : EmitEnv := .ofUnit tallyUnit { preamble := false } .strings

/-- Each of them is written once, under its name. -/
theorem tallyUnit_kept : (tallyUnit.walk.map Decl.id).Nodup ∧
    tallyUnit.outer.map (Decl.leafCode tallyEnv) = [
      [.line "alias Unit = int;", .line "enum : Unit", .line "\x7b", .indent, .line "one = 1",
        .dedent, .line "\x7d", .line ""],
      [.line "int total;"],
      [.line "extern(C++)", .line "int count();", .line ""]] ∧
    ∃ s entries, tallyUnit.emit { preamble := false } = .ok (EmitState.finish s) ∧
      EmitState.finish s = "\n// ------ a.h\n\nalias Unit = int;\nenum : Unit\n\x7b\n" ++
        "    one = 1\n\x7d\n\nint total;\nextern(C++)\nint count();\n\n" ∧
      s.script.toList = (additionAll tallyEnv none entries).code ∧
      ∀ d ∈ tallyUnit.outer, Entry.HasOne tallyEnv entries d (d.leafCode tallyEnv) := by
  have hids : (tallyUnit.walk.map Decl.id).Nodup := by decide
  have hemit : tallyUnit.emit { preamble := false } =
      .ok (tallyUnit.write { preamble := false } (.start { preamble := false })).2.text :=
    TranslationUnit.emit_eq_text rfl rfl
  obtain ⟨s, entries, htext, -, hscript, -, hkept⟩ :=
    tallyUnit.outer_kept { preamble := false } hids hemit
  have hkinds : tallyUnit.outer.all fun d => d.isEnumeration || d.isCode := rfl
  refine ⟨hids, by decide +kernel, s, entries, htext ▸ hemit, ?_, hscript, fun d hd => ?_⟩
  · rw [← htext]
    decide +kernel
  · have hkind := List.all_eq_true.1 hkinds d hd
    exact ((hkept d hd rfl).1 (Bool.or_eq_true_iff.1 hkind)).1

end DBindings
