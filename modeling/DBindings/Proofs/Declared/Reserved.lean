import DBindings.Proofs.Declared.Entries

/-!
# Which declared names are reserved

Names are changed where functions, variables, parameters, fields and enumerators are declared.  The
names of records, enums, typedefs and template parameters are declared as they are, so these may be
names that D reserves.

* `EmitEnv.render_ref`                      types refer to records and enums by their names;
* `TranslationUnit.declared_reserved_iff`   which identifiers of a module are reserved.
-/

namespace DBindings

/-- A type refers to a record or enum by the name that it is declared with. -/
theorem EmitEnv.render_ref (env : EmitEnv) {ref : DeclRef} {head : DeclHead}
    (h : ref.RefersTo head) :
    env.render (.record ref) = Text.dotted (env.names.declName head) ∧
      env.render (.enum ref) = Text.dotted (env.names.declName head) := by
  unfold render Ty.render
  rw [Ty.renderIn, Ty.renderIn, env.names.refName_eq_declName h]
  exact ⟨rfl, rfl⟩

open Entry (additionAll FitsAll Inside)

/-- In a unit that is written, every name that is declared is in the code.  Its identifier is
reserved exactly if the name is reserved and is that of a record, an enum, a typedef or a template
parameter, which is declared as it is.  Types refer to records and enums by these names, with dots
where a name has double colons. -/
theorem TranslationUnit.declared_reserved_iff (unit : TranslationUnit) (options : EmitOptions)
    {text : String} (h : unit.emit options = .ok text) :
    let env := EmitEnv.ofUnit unit options .strings
    ∃ s entries, text = EmitState.finish s ∧ FitsAll env none entries ∧
      s.script.toList = (EmitState.start options).script.toList ++
        (additionAll env none entries).code ∧
      (∀ scope e d, Inside none entries scope e → e.Declares env scope d →
        d.WrittenIn (additionAll env none entries).code ∧
        (Identifier.isReserved d.identifier = true ↔
          d.kind.isKept = true ∧ Identifier.isReserved d.name = true)) ∧
      ∀ (ref : DeclRef) (head : DeclHead), ref.RefersTo head →
        (env.render (.record ref) = Text.dotted (env.names.declName head) ∧
          env.render (.enum ref) = Text.dotted (env.names.declName head)) ∧
        (':' ∉ (env.names.declName head).toList →
          Text.dotted (env.names.declName head) = env.names.declName head) := by
  intro env
  obtain ⟨s, entries, -, htext, hunit⟩ := consists_of_emit h
  refine ⟨s, entries, htext, hunit.fits, hunit.code, fun scope e d hinside hd => ?_,
    fun ref head href => ⟨env.render_ref href, Text.dotted_of_plain⟩⟩
  have hwritten := hd.written (NameTable.namesFields_assign unit) (hinside.fits hunit.fits)
  exact ⟨hwritten.within hinside.code, d.isReserved_iff⟩

/-- A struct with a name that D reserves. -/
def versionUnit : TranslationUnit :=
  ⟨[⟨"version.h", [.record { id := 1, name := some "version" } { tag := .struct } [] []]⟩]⟩

/-- It is declared with this name. -/
theorem versionUnit_reserved : Identifier.isReserved "version" = true ∧
    versionUnit.emit { preamble := false } =
      .ok "\n// ------ version.h\n\nextern(C++)\nstruct version\n\x7b\n\x7d\n\n" := by
  have htext : versionUnit.emit { preamble := false } =
      .ok (versionUnit.write { preamble := false } (.start { preamble := false })).2.text :=
    TranslationUnit.emit_eq_text rfl rfl
  refine ⟨by decide, ?_⟩
  rw [htext]
  exact congrArg _ (by cbv)

/-- A function with a name that D reserves, and such a parameter. -/
def debugUnit : TranslationUnit :=
  ⟨[⟨"debug.h", [.function { id := 1, name := some "debug" }
    { returnType := .int, params := [⟨some "in", .int, none⟩] }]⟩]⟩

def debugEnv : EmitEnv := .ofUnit debugUnit { preamble := false } .strings

/-- Nothing reserved is declared. -/
theorem debugUnit_declared :
    ∃ text s entries, debugUnit.emit { preamble := false } = .ok text ∧
      text = EmitState.finish s ∧ s.script.toList = (additionAll debugEnv none entries).code ∧
      ∀ scope e d, Inside none entries scope e → e.Declares debugEnv scope d →
        d.WrittenIn (additionAll debugEnv none entries).code ∧
          Identifier.isReserved d.identifier = false := by
  obtain ⟨s, entries, htext, hfits, hscript, hdeclared, -⟩ :=
    debugUnit.declared_reserved_iff { preamble := false } rfl
  refine ⟨_, s, entries, rfl, htext, hscript, fun scope e d hinside hd => ?_⟩
  obtain ⟨hwritten, hreserved⟩ := hdeclared scope e d hinside hd
  refine ⟨hwritten, Bool.eq_false_iff.2 fun hid => ?_⟩
  have hkept : d.kind.isKept = true := (hreserved.1 hid).1
  have hentry := hinside.fits hfits
  cases hd with
  | enumeration => cases List.mem_singleton.1 hentry.1
  | function | enumerator | global | staticMember => exact Bool.noConfusion hkept
  | inside _ h =>
    obtain ⟨rfl, rfl⟩ := Decl.function.inj (List.mem_singleton.1 hentry.1)
    cases h with
    | param _ hd =>
      rw [Param.kind_declarator hd] at hkept
      exact Bool.noConfusion hkept
    | templateParam hps => cases hps
    | localVar hbody => cases hbody
  | method hscope _ =>
    rcases hinside.scope_mem hfits with hnone | hmem
    · cases hscope.symm.trans hnone
    · cases List.mem_singleton.1 (hmem _ hscope)
  | typedef => cases List.mem_singleton.1 hentry.1
  | record => cases List.mem_singleton.1 hentry.1.mem

end DBindings
