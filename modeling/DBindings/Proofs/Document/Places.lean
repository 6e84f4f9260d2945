import DBindings.Proofs.Document.Events
import DBindings.Proofs.Document.Placements

/-!
# Records of files and namespaces

A record of a file or namespace is written in the module, under its own linkage, if its file is
under an input root.  A typedef that is a member of another record and names it writes it inside
that record instead, when it is met first, and whatever its file is.

* `Placement.Pulled`                    such a typedef stands around the record;
* `TranslationUnit.outer_placed_iff`    the places of the records of files and namespaces.
-/

namespace DBindings
open Entry (additionAll FitsAll placementsAll WrittenIn)

/-- A typedef among the members of the record around it names the record. -/
def Placement.Pulled (env : EmitEnv) (p : Placement) : Prop :=
  ∃ around ∈ p.scope, around.toDecl ∈ env.index.decls ∧ ∃ head underlying,
    .typedef head underlying ∈ around.members ∧ env.namedRecord? underlying = some p.record

/-- In a record, a record of a file or namespace is written for a typedef. -/
theorem Placement.Sound.pulled {unit : TranslationUnit} {env : EmitEnv} {p : Placement}
    (h : p.Sound env) (hdecls : env.index.decls = unit.walk) (hids : (unit.walk.map Decl.id).Nodup)
    (houter : p.record.toDecl ∈ unit.outer) {around : RecordDecl} (hscope : p.scope = some around) :
    p.Pulled env := by
  have haround : around.toDecl ∈ env.index.decls := h.scope around hscope
  cases hvia : p.via with
  | none =>
    have hchild : p.record.toDecl ∈ around.toDecl.children :=
      List.mem_append_left _ (h.member around hscope hvia)
    rw [hdecls] at haround
    exact absurd hchild (TranslationUnit.not_mem_children_of_outer hids houter haround)
  | some t =>
    obtain ⟨head, underlying, rfl, hnamed, hmember⟩ := h.named t hvia
    exact ⟨around, hscope, haround, head, underlying, hmember around hscope, hnamed⟩

namespace TranslationUnit

/-- In a unit that is written, a record of a file or namespace has a place if it has been
registered.  It stands in the module, under its linkage, and its file is under an input root, unless
a typedef that is a member of the record around it names it.  So all of them do if no typedef in a
record names a record of a file or namespace. -/
theorem outer_placed_iff (unit : TranslationUnit) (options : EmitOptions)
    (hids : (unit.walk.map Decl.id).Nodup) {text : String} (h : unit.emit options = .ok text) :
    let env := EmitEnv.ofUnit unit options .strings
    ∃ s entries, text = EmitState.finish s ∧ FitsAll env none entries ∧
      s.script.toList = (EmitState.start options).script.toList ++
        (additionAll env none entries).code ∧
      (∀ r : RecordDecl, r.toDecl ∈ unit.outer →
        (r.head.id ∈ s.registered ↔ ∃ p ∈ placementsAll none none entries, p.record = r)) ∧
      (∀ p ∈ placementsAll none none entries, p.record.toDecl ∈ unit.outer →
        WrittenIn env (additionAll env none entries).code p ∧
        ((p.scope = none ∧ env.isRelevant p.record.head.loc = true) ↔ ¬ p.Pulled env) ∧
        (p.scope = none → ∃ asked inside,
          (.line (NamespaceStyle.attributeText p.record.head.context
              (env.linkage p.record.head.context)) ::
            (p.record.frontCode env false ++ inside ++ p.record.backCode env false asked)) <:+:
              (additionAll env none entries).code)) ∧
      ((∀ around : RecordDecl, around.toDecl ∈ unit.walk → ∀ head underlying,
          .typedef head underlying ∈ around.members → ∀ r ∈ env.namedRecord? underlying,
          r.toDecl ∉ unit.outer) →
        ∀ p ∈ placementsAll none none entries, p.record.toDecl ∈ unit.outer →
          p.scope = none ∧ env.isRelevant p.record.head.loc = true) := by
  intro env
  obtain ⟨s, entries, -, htext, hunit⟩ := consists_of_emit h
  have hplace : ∀ p ∈ placementsAll none none entries, p.record.toDecl ∈ unit.outer →
      ((p.scope = none ∧ env.isRelevant p.record.head.loc = true) ↔ ¬ p.Pulled env) := by
    intro p hp houter
    have hsound : p.Sound env := Entry.sound_module hunit.fits hp
    constructor
    · rintro ⟨hscope, -⟩ ⟨around, haround, -⟩
      rw [hscope] at haround
      exact nomatch haround
    · intro hfree
      have hscope : p.scope = none := by
        cases hs : p.scope with
        | none => rfl
        | some around => exact absurd (hsound.pulled rfl hids houter hs) hfree
      exact ⟨hscope, hsound.admitted.relevant hscope⟩
  refine ⟨s, entries, htext, hunit.fits, hunit.code, fun r houter => ?_,
    fun p hp houter => ?_, fun hnames p hp houter => ?_⟩
  · rw [hunit.registered, List.mem_reverse]
    exact Entry.registered_iff_placed rfl hids hunit.fits (mem_walk_of_outer houter)
  · have hwritten : WrittenIn env (additionAll env none entries).code p :=
      Entry.written_placementsAll none none entries hp
    refine ⟨hwritten, hplace p hp houter, fun hscope => ?_⟩
    obtain ⟨asked, inside, hinfix⟩ := hwritten
    have hback : p.record.backCode env true asked = p.record.backCode env false asked := rfl
    rw [hscope, Option.isNone_none, hback] at hinfix
    exact ⟨asked, inside, hinfix⟩
  · rw [hplace p hp houter]
    rintro ⟨around, -, haround, head, underlying, hmember, hnamed⟩
    exact hnames around haround head underlying hmember p.record hnamed houter

end TranslationUnit

def virtualMethod (id : DeclId) : Decl :=
  .function { id, name := some "run" } { returnType := .int, method := some { isVirtual := true } }

/-- A class under the input root with a typedef of a class in a file that is under none. -/
def pullingUnit : TranslationUnit :=
  ⟨[⟨"in/a.h", [.record { id := 1, name := some "A", loc := ⟨some "in/a.h", 0, 0⟩ }
      { tag := .class_ } [.typedef { id := 2, name := some "T" } (.record ⟨4, "B"⟩)]
      [virtualMethod 3]]⟩,
    ⟨"out/b.h", [.record { id := 4, name := some "B", loc := ⟨some "out/b.h", 0, 0⟩ }
      { tag := .class_ } [] [virtualMethod 5]]⟩]⟩

/-- No preamble, and one input root. -/
def rootOptions : EmitOptions := { preamble := false, filter := .ofRoots (fun _ => none) ["in"] }

/-- The class that the filter leaves out is written, inside the other one. -/
theorem pullingUnit_misplaced :
    pullingUnit.outer.map Decl.id = [1, 4] ∧
    rootOptions.filter.isRelevant (some "out/b.h") = false ∧
    pullingUnit.emit rootOptions = .ok (
      "\n// ------ in/a.h\n\nextern(C++)\nclass A\n\x7b\n    class B\n    \x7b\n" ++
      "        private int run();\n    \x7d\n\n    alias T = B;\n\n    private int run();\n" ++
      "\x7d\n\n\n// ------ out/b.h\n\n") := by
  have htext : pullingUnit.emit rootOptions =
      .ok (pullingUnit.write rootOptions (.start rootOptions)).2.text :=
    TranslationUnit.emit_eq_text rfl rfl
  refine ⟨by decide, by decide +kernel, ?_⟩
  rw [htext]
  exact congrArg _ (by decide +kernel)

/-- The first class stands in the module, and the typedef in it names the other one. -/
theorem pullingUnit_placed : (pullingUnit.walk.map Decl.id).Nodup ∧
    ∃ text s entries, pullingUnit.emit rootOptions = .ok text ∧ text = EmitState.finish s ∧
      s.script.toList = (EmitState.start rootOptions).script.toList ++
        (additionAll (.ofUnit pullingUnit rootOptions .strings) none entries).code ∧
      ∀ p ∈ placementsAll none none entries, p.record.toDecl ∈ pullingUnit.outer →
        ((p.scope = none ∧ rootOptions.filter.isRelevant p.record.head.loc.file = true) ↔
          ¬ p.Pulled (.ofUnit pullingUnit rootOptions .strings)) := by
  have hids : (pullingUnit.walk.map Decl.id).Nodup := by decide
  obtain ⟨s, entries, htext, -, hscript, -, hplaced, -⟩ :=
    TranslationUnit.outer_placed_iff pullingUnit rootOptions hids rfl
  exact ⟨hids, _, s, entries, rfl, htext, hscript, fun p hp houter => (hplaced p hp houter).2.1⟩

end DBindings
