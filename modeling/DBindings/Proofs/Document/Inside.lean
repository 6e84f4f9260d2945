import DBindings.Proofs.Document.Placements

/-!
# Entries inside entries

An entry may stand inside a record, or among what is written for the record that a typedef names.
Wherever it is, it fits the record around it, and its code is a part of the code of the module.

* `Entry.Inside`        an entry and the scope that it is in, at any depth of entries;
* `Entry.Inside.fits`   it may stand there;
* `Entry.Inside.code`   its code is a part of theirs.
-/

namespace DBindings

/-- An entry is among entries that stand in a scope, or inside one of them, and the record around
it is its own scope. -/
inductive Entry.Inside : Option RecordDecl → List Entry → Option RecordDecl → Entry → Prop where
  | here {scope : Option RecordDecl} {es : List Entry} {e : Entry} :
    e ∈ es → Inside scope es scope e
  | target {scope scope' : Option RecordDecl} {es target : List Entry} {head : DeclHead}
    {underlying : Ty} {e : Entry} : .typedef head underlying target ∈ es →
    Inside scope target scope' e → Inside scope es scope' e
  | member {scope scope' : Option RecordDecl} {es members : List Entry} {r : RecordDecl}
    {asked : Bool} {e : Entry} : .record r asked members ∈ es →
    Inside (some r) members scope' e → Inside scope es scope' e

namespace Entry
variable {env : EmitEnv} {scope scope' : Option RecordDecl} {es : List Entry} {e : Entry}

theorem code_of_mem (h : e ∈ es) :
    (e.addition env scope).code <:+: (additionAll env scope es).code := by
  obtain ⟨before, after, rfl⟩ := List.append_of_mem h
  rw [additionAll_append, additionAll, Addition.code_append, Addition.code_append,
    ← List.append_assoc]
  exact List.infix_append _ _ _

theorem Inside.fits (h : Inside scope es scope' e) (hfits : FitsAll env scope es) :
    e.Fits env scope' := by
  induction h with
  | here he => exact fitsAll_iff.1 hfits _ he
  | target he _ ih => exact ih (fitsAll_iff.1 hfits _ he).2.2.1
  | member he _ ih => exact ih (fitsAll_iff.1 hfits _ he).2.1

/-- The record around an entry is of the unit, unless it is around all of them. -/
theorem Inside.scope_mem (h : Inside scope es scope' e) (hfits : FitsAll env scope es) :
    scope' = scope ∨ ∀ r ∈ scope', r.toDecl ∈ env.index.decls := by
  induction h with
  | here _ => exact Or.inl rfl
  | target he _ ih => exact ih (fitsAll_iff.1 hfits _ he).2.2.1
  | member he _ ih =>
    obtain ⟨hadmitted, hmembers, -⟩ := fitsAll_iff.1 hfits _ he
    refine Or.inr ((ih hmembers).elim (fun hscope r hr => ?_) id)
    rw [hscope] at hr
    rw [← Option.some.inj hr]
    exact hadmitted.mem

theorem Inside.code (h : Inside scope es scope' e) :
    (e.addition env scope').code <:+: (additionAll env scope es).code := by
  induction h with
  | here he => exact code_of_mem he
  | target he _ ih => exact (ih.trans (List.infix_append [] _ _)).trans (code_of_mem he)
  | member he _ ih => exact (ih.trans (List.infix_append _ _ _)).trans (code_of_mem he)

end Entry

end DBindings
