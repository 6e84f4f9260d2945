import DBindings.Proofs.Declared.Declarators
import DBindings.Proofs.Document.Entries
import DBindings.Proofs.Document.Records
import DBindings.Proofs.Naming.Visited

/-!
# Names of fields

A field is written on a line of its own, or with the other bit-fields of its run in a group.

* `RecordDecl.written_fieldsCode`       every field of a record has a line;
* `RecordDecl.FieldDeclares`            the names that fields declare;
* `RecordDecl.FieldDeclares.written`    these lines have them.
-/

namespace DBindings
open Printed (text_append text_ofText)

namespace BitfieldRun

theorem entryLine_mem {entry : BitfieldEntry} {entries : List BitfieldEntry}
    (h : entry ∈ entries) : ∃ separator, entryLine entry separator ∈ entryLines entries := by
  induction entries with
  | nil => exact absurd h List.not_mem_nil
  | cons first rest ih =>
    cases rest with
    | nil =>
      rw [← List.mem_singleton.1 h]
      exact ⟨"", List.mem_cons_self⟩
    | cons second rest =>
      rw [entryLines]
      rcases List.mem_cons.1 h with rfl | h
      · exact ⟨",", List.mem_cons_self⟩
      · obtain ⟨separator, hmem⟩ := ih h
        exact ⟨separator, List.mem_cons_of_mem _ hmem⟩
      · exact fun h => nomatch h

theorem entryLine_mem_close {run : BitfieldRun} {entry : BitfieldEntry} (h : entry ∈ run.entries) :
    ∃ separator, entryLine entry separator ∈ run.close.1.getD [] := by
  obtain ⟨separator, hmem⟩ := entryLine_mem (List.mem_append_left [⟨"uint", "", run.padding⟩] h)
  have hopen : run.isOpen = true := by
    unfold isOpen
    cases hentries : run.entries with
    | nil =>
      rw [hentries] at h
      exact absurd h List.not_mem_nil
    | cons _ _ => rfl
  refine ⟨separator, ?_⟩
  unfold close
  rw [if_pos hopen]
  exact List.mem_append_left _ (List.mem_append_right _ hmem)

end BitfieldRun

namespace RecordDecl
variable {env : EmitEnv} {r : RecordDecl}

/-- A field has a line, or one in the group of its run. -/
def FieldWritten (env : EmitEnv) (r : RecordDecl) (code : List Stroke) (position : Nat)
    (field : Field) : Prop :=
  match field.bitWidth with
  | some width => ∃ separator, .line (BitfieldRun.entryLine
      ⟨env.render field.ty, (givenName? field).getD "", width⟩ separator) ∈ code
  | none => .line (fieldLine env r position field).text ∈ code

section
variable {code : List Stroke} {position : Nat} {field : Field}

theorem fieldWritten_iff_line (h : field.bitWidth = none) :
    FieldWritten env r code position field ↔
      .line (fieldLine env r position field).text ∈ code := by
  unfold FieldWritten
  rw [h]

theorem fieldWritten_iff_entry {width : UInt32} (h : field.bitWidth = some width) :
    FieldWritten env r code position field ↔ ∃ separator, .line (BitfieldRun.entryLine
      ⟨env.render field.ty, (givenName? field).getD "", width⟩ separator) ∈ code := by
  unfold FieldWritten
  rw [h]

theorem FieldWritten.within {code' : List Stroke} (h : FieldWritten env r code position field)
    (hcode : ∀ x ∈ code, x ∈ code') : FieldWritten env r code' position field := by
  cases hwidth : field.bitWidth with
  | none =>
    rw [fieldWritten_iff_line hwidth] at h ⊢
    exact hcode _ h
  | some width =>
    rw [fieldWritten_iff_entry hwidth] at h ⊢
    exact h.imp fun _ h => hcode _ h

end

theorem entryLine_mem_strokes {run : BitfieldRun} {entry : BitfieldEntry}
    (h : entry ∈ run.entries) (rest : List Stroke) : ∃ separator,
      .line (BitfieldRun.entryLine entry separator) ∈
        (run.close.1.getD []).map Stroke.line ++ rest := by
  obtain ⟨separator, hmem⟩ := BitfieldRun.entryLine_mem_close h
  exact ⟨separator, List.mem_append_left _ (List.mem_map_of_mem hmem)⟩

/-- The entries of a run that is open are written, and so are all fields that follow. -/
theorem written_fieldsCode (env : EmitEnv) (r : RecordDecl) (run : BitfieldRun) (position : Nat)
    (fields : List Field)
    (hopen : run.isOpen = false → run.accumulated = 0)
    (hfit : Field.overflow? run.accumulated.toNat fields = none) :
    (∀ entry ∈ run.entries, ∃ separator,
      .line (BitfieldRun.entryLine entry separator) ∈ r.fieldsCode env run position fields) ∧
    ∀ k field, fields[k]? = some field →
      FieldWritten env r (r.fieldsCode env run position fields) (position + k) field := by
  induction fields generalizing run position with
  | nil =>
    refine ⟨fun entry hentry => ?_,
      fun _ _ h => absurd (List.mem_of_getElem? h) List.not_mem_nil⟩
    have hclosed := entryLine_mem_strokes hentry []
    rwa [List.append_nil] at hclosed
  | cons field rest ih =>
    unfold fieldsCode
    unfold Field.overflow? at hfit
    cases hwidth : field.bitWidth with
    | some width =>
      rw [hwidth] at hfit
      dsimp only at hfit ⊢
      by_cases hle : run.accumulated.toNat + width.toNat ≤ 64
      · -- the bit-field joins the run, and is written with it
        have hsum : (run.accumulated + width).toNat = run.accumulated.toNat + width.toNat :=
          (BitfieldRun.checkedAdd_of_lt (Nat.lt_of_le_of_lt hle (by decide))).2
        rw [if_pos hle, ← hsum] at hfit
        rw [BitfieldRun.push_eq, if_pos hle]
        let pushed : BitfieldRun := { run with
          entries := run.entries ++ [⟨env.render field.ty, (givenName? field).getD "", width⟩]
          accumulated := run.accumulated + width }
        have hpushed : pushed.isOpen = true := by simp [BitfieldRun.isOpen, pushed]
        obtain ⟨hentries, hfields⟩ := ih pushed (position + 1)
          (fun h => absurd (hpushed.symm.trans h) Bool.noConfusion) hfit
        refine ⟨fun entry hentry => hentries entry (List.mem_append_left _ hentry), ?_⟩
        intro k field' hk
        cases k with
        | zero =>
          rw [← Option.some.inj hk, fieldWritten_iff_entry hwidth]
          exact hentries _ (List.mem_append_right _ List.mem_cons_self)
        | succ k =>
          have hnext := hfields k field' hk
          rwa [Nat.add_right_comm] at hnext
      · rw [if_neg hle] at hfit
        cases hfit
    | none =>
      rw [hwidth] at hfit
      dsimp only at hfit ⊢
      have hzero : run.close.2.accumulated = 0 := (accumulated_close hopen).1
      rw [show (0 : Nat) = run.close.2.accumulated.toNat by rw [hzero]; rfl] at hfit
      obtain ⟨-, hfields⟩ := ih run.close.2 (position + 1) (fun _ => hzero) hfit
      constructor
      · intro entry hentry
        rw [List.append_assoc]
        exact entryLine_mem_strokes hentry _
      · intro k field' hk
        cases k with
        | zero =>
          rw [← Option.some.inj hk, fieldWritten_iff_line hwidth]
          exact List.mem_append_left _ (List.mem_append_right _ List.mem_cons_self)
        | succ k =>
          have hnext := hfields k field' hk
          rw [Nat.add_right_comm] at hnext
          exact hnext.within fun _ h => List.mem_append_right _ h

def fieldFront (env : EmitEnv) (r : RecordDecl) (field : Field) : String :=
  "@cppsize(" ++ toString ((field.sizeBits.getD 0) / 8) ++ ") " ++
    field.access.keyword r.info.tag ++ " " ++ env.render field.ty ++ " "

/-- The fields of a record declare their names, and those without a name the one that the table has
for them.  Bit-fields without a name declare none. -/
inductive FieldDeclares (env : EmitEnv) (r : RecordDecl) : Declarator → Prop where
  | named {k : Nat} {field : Field} {name : String} : r.info.fields[k]? = some field →
    field.bitWidth = none → field.name = some name → name ≠ "" →
    FieldDeclares env r ⟨.field, name, fieldFront env r field⟩
  | unnamed {k : Nat} {field : Field} : r.info.fields[k]? = some field →
    field.bitWidth = none → givenName? field = none →
    FieldDeclares env r ⟨.unnamedField,
      (env.names.fieldName? r.head.id k).getD ("_field" ++ toString k), fieldFront env r field⟩
  | bits {k : Nat} {field : Field} {name : String} {width : UInt32} :
    r.info.fields[k]? = some field → field.bitWidth = some width → field.name = some name →
    name ≠ "" → FieldDeclares env r ⟨.bitField, name, "    " ++ env.render field.ty ++ ", \""⟩

theorem givenName?_of_name {field : Field} {name : String} (h : field.name = some name)
    (hne : name ≠ "") : givenName? field = some (Identifier.sanitize name) := by
  unfold givenName?
  rw [h]
  exact if_neg hne

theorem text_fieldLine (env : EmitEnv) (r : RecordDecl) (position : Nat) (field : Field) :
    ∃ after, Text.OpenStart after ∧ (fieldLine env r position field).text =
      fieldFront env r field ++ (givenName? field).getD
        ((env.names.fieldName? r.head.id position).getD ("_field" ++ toString position)) ++
        after := by
  unfold fieldLine fieldFront
  cases field.inClassInit with
  | none =>
    refine ⟨";", by decide, ?_⟩
    simp only [text_append, text_ofText, String.append_assoc, String.empty_append]
  | some init =>
    refine ⟨" = " ++ ((init.print env.print).text ++ ";"),
      (Text.Stops.append ⟨by decide, by decide⟩ _).start, ?_⟩
    simp only [text_append, text_ofText, String.append_assoc]

end RecordDecl

/-- The table has names of the usual form for fields. -/
def NameTable.NamesFields (names : NameTable) : Prop :=
  ∀ id i name, names.fieldName? id i = some name → NameTable.IsFieldName name

theorem NameTable.namesFields_assign (unit : TranslationUnit) : (assign unit).NamesFields :=
  fun id i name h => (fieldsOf_assign unit id i name h).1

namespace RecordDecl
variable {env : EmitEnv} {r : RecordDecl}

/-- Every field that declares a name is written. -/
theorem FieldDeclares.written {d : Declarator} (hn : env.names.NamesFields)
    (h : r.FieldDeclares env d) {code : List Stroke}
    (hcode : ∀ k field, r.info.fields[k]? = some field → FieldWritten env r code k field) :
    d.WrittenIn code := by
  have hend (field : Field) : Text.OpenEnd (fieldFront env r field) := Text.openEnd_blank _
  cases h with
  | @named k field name hk hwidth hname hne =>
    have hline := (fieldWritten_iff_line hwidth).1 (hcode k field hk)
    obtain ⟨after, hafter, htext⟩ := text_fieldLine env r k field
    rw [givenName?_of_name hname hne, Option.getD_some] at htext
    have hstands : (⟨.field, name, fieldFront env r field⟩ : Declarator).StandsIn
        (fieldLine env r k field).text := .start _ (hend field) hafter htext
    exact hstands.written Declarator.Kind.noConfusion hline
  | @unnamed k field hk hwidth hname =>
    have hline := (fieldWritten_iff_line hwidth).1 (hcode k field hk)
    obtain ⟨after, hafter, htext⟩ := text_fieldLine env r k field
    rw [hname, Option.getD_none] at htext
    let name := (env.names.fieldName? r.head.id k).getD ("_field" ++ toString k)
    have hfield : NameTable.IsFieldName name := by
      show NameTable.IsFieldName ((env.names.fieldName? r.head.id k).getD _)
      cases hget : env.names.fieldName? r.head.id k with
      | some name => exact hn _ _ _ hget
      | none => exact ⟨k, Or.inr rfl⟩
    have hstands : (⟨.unnamedField, name, fieldFront env r field⟩ : Declarator).StandsIn
        (fieldLine env r k field).text := by
      refine .start _ (hend field) hafter ?_
      show _ = fieldFront env r field ++ Identifier.sanitize name ++ after
      rw [hfield.sanitize, htext]
    exact hstands.written Declarator.Kind.noConfusion hline
  | @bits k field name width hk hwidth hname hne =>
    obtain ⟨separator, hline⟩ := (fieldWritten_iff_entry hwidth).1 (hcode k field hk)
    rw [givenName?_of_name hname hne, Option.getD_some] at hline
    have hstands : (⟨.bitField, name, "    " ++ env.render field.ty ++ ", \""⟩ :
        Declarator).StandsIn (BitfieldRun.entryLine
          ⟨env.render field.ty, Identifier.sanitize name, width⟩ separator) := by
      have hstops : Text.Stops "\", " := ⟨by decide, by decide⟩
      refine .start _ (.behind _ (by decide) (by decide))
        (hstops.append (toString width.toNat ++ separator)).start ?_
      show _ = "    " ++ env.render field.ty ++ ", \"" ++ Identifier.sanitize name ++ _
      unfold BitfieldRun.entryLine
      simp only [String.append_assoc]
    exact hstands.written Declarator.Kind.noConfusion hline

end RecordDecl

end DBindings
