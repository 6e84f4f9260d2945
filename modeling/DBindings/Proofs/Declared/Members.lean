import DBindings.Proofs.Declared.Entries

/-!
# Members that are declared alike

The fields, static members and methods of a record share one scope in D.  A reserved name gets an
underscore behind it, whether or not another member has that name, so two members may be declared
alike.

* `RecordDecl.HasMember`                    the members that are declared in the body of a record;
* `TranslationUnit.members_alike_iff`       which of them are declared alike.
-/

namespace DBindings

/-- A member of a record that is no type. -/
def Declarator.Kind.isMember : Kind → Bool
  | field | bitField | staticMember | method => true
  | _ => false

theorem Declarator.identifier_of_isMember {d : Declarator} (h : d.kind.isMember = true) :
    d.identifier = Identifier.sanitize d.name := by
  unfold identifier
  refine if_neg fun hkept => ?_
  cases hkind : d.kind <;> rw [hkind] at h hkept <;> contradiction

/-- A data member, bit-field, static member or method of a complete record.  Constructors go by
`this` and destructors by `~this`; operators and conversions are left out. -/
def RecordDecl.HasMember (env : EmitEnv) (r : RecordDecl) (d : Declarator) : Prop :=
  d.kind.isMember = true ∧ (r.Declares env d ∨
    r.info.complete = true ∧ ∃ x ∈ r.members, (Entry.member x).Declares env (some r) d)

open Entry (additionAll FitsAll Inside)

/-- Only functions and variables are declared by members of a record that are not registered. -/
theorem Entry.Declares.isCode {env : EmitEnv} {scope : Option RecordDecl} {x : Decl}
    {d : Declarator} (h : (Entry.member x).Declares env scope d) : x.isCode = true := by
  cases h with
  | staticMember _ => rfl
  | method _ _ => rfl

/-- The members of a record are written in its body. -/
theorem RecordDecl.HasMember.written {env : EmitEnv} {scope : Option RecordDecl} {r : RecordDecl}
    {asked : Bool} {members : List Entry} {d : Declarator} (h : r.HasMember env d)
    (hn : env.names.NamesFields) (hfits : (Entry.record r asked members).Fits env scope) :
    d.WrittenIn ((Entry.record r asked members).addition env scope).code := by
  obtain ⟨-, h | ⟨hcomplete, x, hx, h⟩⟩ := h
  · exact (Entry.Declares.record h).written hn hfits
  · have hall := hfits.2.2.2.2 hcomplete
    have hx : x ∈ members.filterMap Entry.member? := hall ▸ List.mem_filter.2 ⟨hx, h.isCode⟩
    obtain ⟨e, hx, he⟩ := List.mem_filterMap.1 hx
    obtain rfl : e = .member x := Entry.eq_member he
    have hmember := h.written hn (Entry.fitsAll_iff.1 hfits.2.1 _ hx)
    exact hmember.within ((Entry.code_of_mem hx).trans (List.infix_append _ _ _))

/-- In a unit that is written, each member of a record is declared in its body.  Two members are
declared alike exactly if they go by the same name, or if one name is reserved and the other is the
same with an underscore behind it. -/
theorem TranslationUnit.members_alike_iff (unit : TranslationUnit) (options : EmitOptions)
    {text : String} (h : unit.emit options = .ok text) :
    let env := EmitEnv.ofUnit unit options .strings
    ∃ s entries, text = EmitState.finish s ∧ FitsAll env none entries ∧
      s.script.toList = (EmitState.start options).script.toList ++
        (additionAll env none entries).code ∧
      ∀ scope r asked members, Inside none entries scope (.record r asked members) →
        ((Entry.record r asked members).addition env scope).code <:+:
          (additionAll env none entries).code ∧
        ∀ a, r.HasMember env a →
          a.WrittenIn ((Entry.record r asked members).addition env scope).code ∧
          ∀ b, r.HasMember env b →
            (a.identifier = b.identifier ↔ a.name = b.name ∨ Identifier.Clash a.name b.name) := by
  intro env
  obtain ⟨s, entries, -, htext, hunit⟩ := consists_of_emit h
  refine ⟨s, entries, htext, hunit.fits, hunit.code, fun scope r asked members hinside =>
    ⟨hinside.code, fun a ha => ⟨?_, fun b hb => ?_⟩⟩⟩
  · exact ha.written (NameTable.namesFields_assign unit) (hinside.fits hunit.fits)
  · rw [Declarator.identifier_of_isMember ha.1, Declarator.identifier_of_isMember hb.1]
    exact Identifier.sanitize_eq_iff

/-- A struct with a field whose name is reserved, and one with that name and an underscore. -/
def portRecord (first second : String) : RecordDecl :=
  ⟨{ id := 1, name := some "Port" },
    { tag := .struct, fields := [{ name := some first, ty := .int, sizeBits := some 32 },
      { name := some second, ty := .int, sizeBits := some 32 }] }, [], []⟩

def portUnit (first second : String) : TranslationUnit :=
  ⟨[⟨"port.h", [(portRecord first second).toDecl]⟩]⟩

/-- Both fields are declared alike. -/
theorem portUnit_alike : "in" ≠ "in_" ∧ (portUnit "in" "in_").emit { preamble := false } = .ok (
    "\n// ------ port.h\n\nextern(C++)\nstruct Port\n\x7b\n" ++
    "    @cppsize(4) public int in_;\n    @cppsize(4) public int in_;\n\x7d\n\n") := by
  have htext : (portUnit "in" "in_").emit { preamble := false } =
      .ok ((portUnit "in" "in_").write { preamble := false }
        (.start { preamble := false })).2.text :=
    TranslationUnit.emit_eq_text rfl rfl
  refine ⟨by decide, ?_⟩
  rw [htext]
  exact congrArg _ (by cbv)

def portEnv : EmitEnv := .ofUnit (portUnit "in" "out") { preamble := false } .strings

theorem name_of_port {d : Declarator} (h : (portRecord "in" "out").HasMember portEnv d) :
    d.name ∈ ["in", "out"] := by
  obtain ⟨hkind, h | ⟨-, x, hx, -⟩⟩ := h
  · cases h with
    | field _ h =>
      cases h with
      | named hk _ hname _ =>
        rcases List.mem_pair.1 (List.mem_of_getElem? hk) with rfl | rfl
        · rw [← Option.some.inj hname]
          exact List.mem_cons_self
        · rw [← Option.some.inj hname]
          exact List.mem_cons_of_mem _ List.mem_cons_self
      | bits hk hwidth _ _ =>
        rcases List.mem_pair.1 (List.mem_of_getElem? hk) with rfl | rfl <;> exact nomatch hwidth
      | unnamed => exact nomatch hkind
    | method _ hmem _ => exact absurd hmem List.not_mem_nil
    | _ => exact nomatch hkind
  · exact absurd hx List.not_mem_nil

/-- Fields with two reserved names are declared apart. -/
theorem portUnit_apart :
    ∃ text s entries, (portUnit "in" "out").emit { preamble := false } = .ok text ∧
      text = EmitState.finish s ∧ s.script.toList = (additionAll portEnv none entries).code ∧
      ∀ scope r asked members, Inside none entries scope (.record r asked members) →
        ∀ a b, r.HasMember portEnv a → r.HasMember portEnv b →
          a.name ≠ b.name → a.identifier ≠ b.identifier := by
  obtain ⟨s, entries, htext, hfits, hscript, hmembers⟩ :=
    (portUnit "in" "out").members_alike_iff { preamble := false } rfl
  refine ⟨_, s, entries, rfl, htext, hscript, fun scope r asked members hinside a b ha hb hne => ?_⟩
  obtain ⟨hadmitted, -⟩ := hinside.fits hfits
  have hport : r = portRecord "in" "out" :=
    RecordDecl.toDecl_injective (List.mem_singleton.1 hadmitted.mem)
  subst hport
  have hclash : ∀ x ∈ ["in", "out"], ∀ y ∈ ["in", "out"], ¬ Identifier.Clash x y := by decide
  obtain ⟨-, halike⟩ := (hmembers scope _ asked members hinside).2 a ha
  rw [Ne, halike b hb, not_or]
  exact ⟨hne, hclash _ (name_of_port ha) _ (name_of_port hb)⟩

end DBindings
