import DBindings.Proofs.Document.Inside
import DBindings.Proofs.Document.Kept
import DBindings.Proofs.Naming.References
import DBindings.Proofs.Types.Words

/-!
# What aliases stand for

A typedef leaves an alias, unless it names a record of the unit that is declared with its own name.
The names are compared for records of the unit alone, so an alias may stand for itself, or for
nothing, if its type is spelled with one name.

* `EmitEnv.alias?`                    the alias that a typedef leaves;
* `Entry.code_typedef`                it is what is written for the typedef behind its target;
* `EmitEnv.proper_iff`                which aliases stand for something else;
* `TranslationUnit.aliases_proper_iff`   the aliases of a unit.
-/

namespace DBindings

/-- An alias: its name, the linkage of a function type, and the type. -/
structure Alias where
  name : String
  linkage : String
  target : String
  deriving DecidableEq

namespace Alias

def text (a : Alias) : String := "alias " ++ a.name ++ " = " ++ a.linkage ++ a.target ++ ";"

/-- It stands for something, and not for itself. -/
structure Proper (a : Alias) : Prop where
  nonempty : a.target ≠ ""
  distinct : a.target ≠ a.name

end Alias

namespace EmitEnv
variable {env : EmitEnv} {head : DeclHead} {underlying : Ty} {a : Alias}

/-- The alias that a typedef leaves. -/
def alias? (env : EmitEnv) (head : DeclHead) (underlying : Ty) : Option Alias :=
  let name := head.name.getD ""
  match env.namedRecord? underlying with
  | some r =>
    let recordName := env.names.declName r.head
    if recordName = name then none else some ⟨name, "", recordName⟩
  | none => some ⟨name, env.functionLinkage head.context underlying, env.render underlying⟩

theorem aliasCode_eq (env : EmitEnv) (topLevel : Bool) (head : DeclHead) (underlying : Ty) :
    ∃ n, env.aliasCode topLevel head underlying =
      (env.alias? head underlying).toList.map (.line ·.text) ++ List.replicate n (.line "") := by
  unfold aliasCode alias?
  cases env.namedRecord? underlying with
  | some r =>
    dsimp only
    by_cases hname : env.names.declName r.head = head.name.getD ""
    · rw [if_pos hname, if_neg (by simpa using hname)]
      exact ⟨0, rfl⟩
    · rw [if_neg hname, if_pos (by simpa using hname)]
      refine ⟨1, ?_⟩
      show [.line _, .line ""] = [Stroke.line (Alias.text ⟨_, "", _⟩), .line ""]
      unfold Alias.text
      rw [String.append_empty]
  | none =>
    cases topLevel with
    | true => exact ⟨1, rfl⟩
    | false => exact ⟨0, rfl⟩

theorem proper_iff_of_record {r : RecordDecl} (hr : env.namedRecord? underlying = some r)
    (ha : env.alias? head underlying = some a) : a.Proper ↔ env.names.declName r.head ≠ "" := by
  unfold alias? at ha
  rw [hr] at ha
  dsimp only at ha
  split at ha
  · exact nomatch ha
  · next hname =>
    rw [← Option.some.inj ha]
    exact ⟨fun h => h.nonempty, fun h => ⟨h, hname⟩⟩

/-- An alias for a type that names no record of the unit is as good as the name that the type is
spelled with, if it is spelled with one.  The spelling of any other type has a mark. -/
theorem proper_iff_of_no_record (hr : env.namedRecord? underlying = none)
    (ha : env.alias? head underlying = some a) :
    a.Proper ↔
      (∀ w, underlying.word? env.names = some w → w ≠ "" ∧ Text.dotted w ≠ a.name) ∧
      (Text.IsMarked a.name → env.render underlying ≠ a.name) := by
  unfold alias? at ha
  rw [hr] at ha
  have htarget : a.target = env.render underlying := by rw [← Option.some.inj ha]
  rw [← htarget]
  cases hword : underlying.word? env.names with
  | some w =>
    have hrender : a.target = Text.dotted w := htarget.trans (Ty.render_of_word underlying hword)
    constructor
    · intro hproper
      refine ⟨fun w' hw' => ?_, fun _ => hproper.distinct⟩
      rw [← Option.some.inj hw', ← hrender]
      refine ⟨fun hempty => hproper.nonempty ?_, hproper.distinct⟩
      rw [hrender, Text.dotted_eq_empty_iff, hempty]
    · rintro ⟨h, -⟩
      obtain ⟨hnonempty, hdistinct⟩ := h w rfl
      refine ⟨fun hempty => hnonempty ?_, fun hsame => hdistinct ?_⟩
      · rwa [hrender, Text.dotted_eq_empty_iff] at hempty
      · rw [← hrender, hsame]
  | none =>
    have hmarked : Text.IsMarked a.target := htarget ▸ Ty.mark_of_no_word underlying hword
    constructor
    · exact fun hproper => ⟨fun _ h => (nomatch h), fun _ => hproper.distinct⟩
    · rintro ⟨-, h⟩
      exact ⟨hmarked.ne_empty, fun hsame => h (hsame ▸ hmarked) hsame⟩

theorem proper_iff (ha : env.alias? head underlying = some a) :
    a.Proper ↔ (∀ r, env.namedRecord? underlying = some r → env.names.declName r.head ≠ "") ∧
      (env.namedRecord? underlying = none →
        (∀ w, underlying.word? env.names = some w → w ≠ "" ∧ Text.dotted w ≠ a.name) ∧
        (Text.IsMarked a.name → env.render underlying ≠ a.name)) := by
  cases hr : env.namedRecord? underlying with
  | some r =>
    rw [proper_iff_of_record hr ha]
    refine ⟨fun h => ⟨fun r' hr' => ?_, fun hnone => ?_⟩, fun h => h.1 r rfl⟩
    · rwa [← Option.some.inj hr']
    · cases hnone
  | none =>
    rw [proper_iff_of_no_record hr ha]
    refine ⟨fun h => ⟨fun r hr => ?_, fun _ => h⟩, fun h => h.2 rfl⟩
    cases hr

theorem functionLinkage_cases (env : EmitEnv) (ctx : DeclContext) (ty : Ty) :
    env.functionLinkage ctx ty = "" ∨ Text.IsMarked (env.functionLinkage ctx ty) := by
  unfold functionLinkage
  split
  · have hmark : Text.IsMarked "extern(" := ⟨'(', by decide, by decide⟩
    exact Or.inr ((hmark.append_left _).append_left _)
  · exact Or.inl rfl

theorem proper_with_linkage (ha : env.alias? head underlying = some a)
    (hname : ¬ Text.IsMarked a.name) (hproper : a.Proper) :
    a.linkage ++ a.target ≠ "" ∧ a.linkage ++ a.target ≠ a.name := by
  have hlinkage : a.linkage = "" ∨ Text.IsMarked a.linkage := by
    unfold alias? at ha
    split at ha
    · dsimp only at ha
      split at ha
      · exact nomatch ha
      · rw [← Option.some.inj ha]
        exact Or.inl rfl
    · rw [← Option.some.inj ha]
      exact env.functionLinkage_cases head.context underlying
  rcases hlinkage with hlinkage | hlinkage
  · rw [hlinkage, String.empty_append]
    exact ⟨hproper.nonempty, hproper.distinct⟩
  · have hmarked := hlinkage.append_left a.target
    exact ⟨hmarked.ne_empty, fun hsame => hname (hsame ▸ hmarked)⟩

end EmitEnv

open Entry (additionAll FitsAll Inside)

/-- Behind what is written for its target, a typedef leaves its alias and empty lines. -/
theorem Entry.code_typedef (env : EmitEnv) (scope : Option RecordDecl) (head : DeclHead)
    (underlying : Ty) (target : List Entry) :
    ∃ n, ((Entry.typedef head underlying target).addition env scope).code =
      (additionAll env scope target).code ++
        (env.alias? head underlying).toList.map (.line ·.text) ++
        List.replicate n (.line "") := by
  obtain ⟨n, hcode⟩ := env.aliasCode_eq scope.isNone head underlying
  refine ⟨n, ?_⟩
  rw [List.append_assoc, ← hcode]
  rfl

/-- In a unit that is written, each typedef leaves at most one alias, wherever it is written.  The
alias stands for something else than itself, unless its type is no record of the unit and is spelled
with an empty name or with that of the alias. -/
theorem TranslationUnit.aliases_proper_iff (unit : TranslationUnit) (options : EmitOptions)
    {text : String} (h : unit.emit options = .ok text) :
    let env := EmitEnv.ofUnit unit options .strings
    ∃ s entries, text = EmitState.finish s ∧ FitsAll env none entries ∧
      s.script.toList = (EmitState.start options).script.toList ++
        (additionAll env none entries).code ∧
      ∀ scope head underlying target,
        Inside none entries scope (.typedef head underlying target) →
        (∃ n, (additionAll env scope target).code ++
          (env.alias? head underlying).toList.map (.line ·.text) ++
          List.replicate n (.line "") <:+: (additionAll env none entries).code) ∧
        ∀ a, env.alias? head underlying = some a →
          (a.Proper ↔
            (∀ r, env.namedRecord? underlying = some r → env.names.declName r.head ≠ "") ∧
            (env.namedRecord? underlying = none →
              (∀ w, underlying.word? env.names = some w → w ≠ "" ∧ Text.dotted w ≠ a.name) ∧
              (Text.IsMarked a.name → env.render underlying ≠ a.name))) ∧
          (¬ Text.IsMarked a.name → a.Proper →
            a.linkage ++ a.target ≠ "" ∧ a.linkage ++ a.target ≠ a.name) ∧
          (unit.WellNamed → ∀ r, env.namedRecord? underlying = some r → a.Proper) := by
  intro env
  obtain ⟨s, entries, -, htext, hunit⟩ := consists_of_emit h
  refine ⟨s, entries, htext, hunit.fits, hunit.code, fun scope head underlying target hinside =>
    ⟨?_, fun a ha => ⟨EmitEnv.proper_iff ha, EmitEnv.proper_with_linkage ha,
      fun hnamed r hr => ?_⟩⟩⟩
  · obtain ⟨n, hcode⟩ := Entry.code_typedef env scope head underlying target
    exact ⟨n, hcode ▸ hinside.code⟩
  · rw [EmitEnv.proper_iff_of_record hr ha]
    exact NameTable.declName_ne_empty hnamed (EmitEnv.toDecl_mem_of_named hr)

/-- An enum with a typedef of the same name. -/
def shadeUnit : TranslationUnit :=
  ⟨[⟨"shade.h", [.enumeration { id := 1, name := some "Shade" } ⟨.int, [⟨"dark", 0⟩]⟩,
    .typedef { id := 2, name := some "Shade" } (.enum ⟨1, "Shade"⟩)]⟩]⟩

/-- The alias of the typedef stands for itself. -/
theorem shadeUnit_alias :
    shadeUnit.emit { preamble := false } = .ok (
      "\n// ------ shade.h\n\nalias Shade = int;\nenum : Shade\n\x7b\n    dark = 0\n\x7d\n\n" ++
      "alias Shade = Shade;\n\n") := by
  have htext : shadeUnit.emit { preamble := false } =
      .ok (shadeUnit.write { preamble := false } (.start { preamble := false })).2.text :=
    TranslationUnit.emit_eq_text rfl rfl
  rw [htext]
  exact congrArg _ (by decide +kernel)

/-- A record with a typedef that gives it another name, and a pointer to it. -/
def pointRecord : RecordDecl := ⟨{ id := 1, name := some "Point" }, { tag := .struct }, [], []⟩

def placeUnit : TranslationUnit :=
  ⟨[⟨"point.h", [pointRecord.toDecl,
    .typedef { id := 2, name := some "Place" } (.record ⟨1, "Point"⟩),
    .typedef { id := 3, name := some "PointPtr" } (.pointer (.record ⟨1, "Point"⟩))]⟩]⟩

def placeEnv : EmitEnv := .ofUnit placeUnit { preamble := false } .strings

theorem wellNamed_placeUnit : placeUnit.WellNamed where
  ids := by decide
  plain r hr := by
    rcases List.mem_cons.1 hr with hr | hr
    · rw [RecordDecl.toDecl_injective hr]
      exact ⟨by decide, by decide⟩
    · rcases List.mem_pair.1 hr with hr | hr <;> exact nomatch hr
  names := by decide
  typedefNames r hr := by
    rcases List.mem_cons.1 hr with hr | hr
    · rw [RecordDecl.toDecl_injective hr]
      decide
    · rcases List.mem_pair.1 hr with hr | hr <;> exact nomatch hr

/-- Both aliases stand for something else. -/
theorem placeUnit_aliases :
    ∃ text s entries, placeUnit.emit { preamble := false } = .ok text ∧
      text = EmitState.finish s ∧ s.script.toList = (additionAll placeEnv none entries).code ∧
      ∀ scope head underlying target,
        Inside none entries scope (.typedef head underlying target) →
        ∃ a, placeEnv.alias? head underlying = some a ∧ a.Proper := by
  obtain ⟨s, entries, htext, hfits, hscript, haliases⟩ :=
    placeUnit.aliases_proper_iff { preamble := false } rfl
  refine ⟨_, s, entries, rfl, htext, hscript, fun scope head underlying target hinside => ?_⟩
  obtain ⟨-, hproper⟩ := haliases scope head underlying target hinside
  have hmem : .typedef head underlying ∈ placeUnit.walk := (hinside.fits hfits).1
  rcases List.mem_cons.1 hmem with hmem | hmem
  · exact nomatch hmem
  rcases List.mem_pair.1 hmem with hmem | hmem
  all_goals obtain ⟨rfl, rfl⟩ := Decl.typedef.inj hmem
  · have hplace := hproper ⟨"Place", "", "Point"⟩ (by decide)
    exact ⟨_, by decide, hplace.2.2 wellNamed_placeUnit pointRecord rfl⟩
  · have hpointer := hproper ⟨"PointPtr", "", "Point*"⟩ (by decide)
    exact ⟨_, by decide, hpointer.1.2
      ⟨fun _ h => (nomatch h), fun _ => ⟨fun _ h => (nomatch h), fun _ => by decide⟩⟩⟩

end DBindings
