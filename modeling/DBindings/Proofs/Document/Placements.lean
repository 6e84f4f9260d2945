import DBindings.Proofs.Document.Entries
import DBindings.Proofs.Tree.Scopes

/-!
# Where records stand

What entries register is a record at its place, or another declaration.  A record inside another one
is a member of it, or a typedef among the members names it, so the functions and variables that are
written as members are children of the records that are placed.

* `Entry.sound_placements`     a record that is placed may stand in its scope;
* `Entry.written_placements`   its strokes are among those of the entries;
* `Entry.registered_cases`     what entries register;
* `Entry.registered_iff_placed`   a record is registered exactly if it has a place;
* `Entry.members_subperm`      members are children of the records that are placed.
-/

namespace DBindings

/-- The record may stand in its scope.  If that is a record, it has the record as a member, or a
typedef that names it. -/
structure Placement.Sound (env : EmitEnv) (p : Placement) : Prop where
  admitted : p.record.Admitted env p.scope
  scope : ∀ around ∈ p.scope, around.toDecl ∈ env.index.decls
  member : ∀ around ∈ p.scope, p.via = none → p.record.toDecl ∈ around.members
  named : ∀ t ∈ p.via, ∃ head underlying, t = .typedef head underlying ∧
    env.namedRecord? underlying = some p.record ∧ ∀ around ∈ p.scope, t ∈ around.members

namespace Entry
variable {env : EmitEnv} {scope : Option RecordDecl} {via : Option Decl}

/-- What allows an entry to be where it is: inside a record the record has the declaration as a
member, or the entry is written for a typedef among the members. -/
def Placed (env : EmitEnv) (scope : Option RecordDecl) (via : Option Decl) (e : Entry) : Prop :=
  (∀ around ∈ scope, around.toDecl ∈ env.index.decls) ∧
  match via with
  | none => ∀ around ∈ scope, ∀ d ∈ e.source?, d ∈ around.members
  | some t => ∃ head underlying, t = .typedef head underlying ∧
      e.IsOf (env.namedRecord? underlying) ∧ ∀ around ∈ scope, t ∈ around.members

mutual

theorem sound_placements {p : Placement} (scope : Option RecordDecl) (via : Option Decl) :
    (e : Entry) → e.Fits env scope → e.Placed env scope via → p ∈ placements scope via e →
      p.Sound env
  | typedef head underlying target, hfits, hplaced, hp => by
    obtain ⟨-, -, htarget, hof⟩ := hfits
    have hmember : ∀ around ∈ scope, .typedef head underlying ∈ around.members := by
      cases via with
      | none => exact fun around ha => hplaced.2 around ha _ rfl
      | some _ =>
        obtain ⟨_, _, -, hof, -⟩ := hplaced.2
        exact hof.elim
    exact sound_placementsAll scope (some (.typedef head underlying)) target htarget
      (fun e he => ⟨hplaced.1, head, underlying, rfl, hof e he, hmember⟩) hp
  | record r asked members, hfits, hplaced, hp => by
    obtain ⟨hadmitted, hmembers, hsource, -⟩ := hfits
    rcases List.mem_cons.1 hp with rfl | hp
    · refine ⟨hadmitted, hplaced.1, fun around ha hvia => ?_, fun t ht => ?_⟩
      · have h := hplaced.2
        dsimp only at hvia
        subst hvia
        exact h around ha _ rfl
      · have h := hplaced.2
        dsimp only at ht
        rw [Option.mem_def.1 ht] at h
        exact h
    · refine sound_placementsAll (some r) none members hmembers (fun e he => ⟨?_, ?_⟩) hp
      · intro around ha
        rw [← Option.some.inj ha]
        exact hadmitted.mem
      · intro around ha d hd
        rw [← Option.some.inj ha]
        exact hsource.subset (List.mem_filterMap.2 ⟨e, he, hd⟩)
  | banner _, _, _, hp | gap, _, _, hp | constant _ _ _, _, _, hp | leaf _, _, _, hp
  | member _, _, _, hp => absurd hp List.not_mem_nil

theorem sound_placementsAll {p : Placement} (scope : Option RecordDecl) (via : Option Decl) :
    (es : List Entry) → FitsAll env scope es → (∀ e ∈ es, e.Placed env scope via) →
      p ∈ placementsAll scope via es → p.Sound env
  | [], _, _, hp => absurd hp List.not_mem_nil
  | e :: es, hfits, hplaced, hp => by
    rcases List.mem_append.1 hp with hp | hp
    · exact sound_placements scope via e hfits.1 (hplaced e List.mem_cons_self) hp
    · exact sound_placementsAll scope via es hfits.2
        (fun e he => hplaced e (List.mem_cons_of_mem _ he)) hp

end

theorem sound_module {p : Placement} {es : List Entry} (hfits : FitsAll env none es)
    (hp : p ∈ placementsAll none none es) : p.Sound env :=
  sound_placementsAll none none es hfits
    (fun _ _ => ⟨fun _ ha => (nomatch ha), fun _ ha => (nomatch ha)⟩) hp

/-! ## What is written -/

/-- The strokes of a record are among the strokes, with the linkage in front if it stands in the
module. -/
def WrittenIn (env : EmitEnv) (code : List Stroke) (p : Placement) : Prop :=
  ∃ asked inside, (p.record.frontCode env p.scope.isNone ++ inside ++
    p.record.backCode env p.scope.isNone asked) <:+: code

theorem WrittenIn.within {p : Placement} {code code' : List Stroke} (h : WrittenIn env code p)
    (hcode : code <:+: code') : WrittenIn env code' p := by
  obtain ⟨asked, inside, h⟩ := h
  exact ⟨asked, inside, h.trans hcode⟩

mutual

theorem written_placements {p : Placement} (scope : Option RecordDecl) (via : Option Decl) :
    (e : Entry) → p ∈ placements scope via e → WrittenIn env (e.addition env scope).code p
  | typedef head underlying target, hp =>
    (written_placementsAll scope (some (.typedef head underlying)) target hp).within
      (List.infix_append [] _ _)
  | record r asked members, hp => by
    rcases List.mem_cons.1 hp with rfl | hp
    · exact ⟨asked, _, List.infix_refl _⟩
    · exact (written_placementsAll (some r) none members hp).within (List.infix_append _ _ _)
  | banner _, hp | gap, hp | constant _ _ _, hp | leaf _, hp | member _, hp =>
    absurd hp List.not_mem_nil

theorem written_placementsAll {p : Placement} (scope : Option RecordDecl) (via : Option Decl) :
    (es : List Entry) → p ∈ placementsAll scope via es →
      WrittenIn env (additionAll env scope es).code p
  | [], hp => absurd hp List.not_mem_nil
  | e :: es, hp => by
    rcases List.mem_append.1 hp with hp | hp
    · exact (written_placements scope via e hp).within (List.prefix_append _ _).isInfix
    · exact (written_placementsAll scope via es hp).within (List.suffix_append _ _).isInfix

end

/-! ## What is registered -/

mutual

/-- What an entry registers is a record at its place, or a declaration that is no record; a function
or variable is registered in the module alone. -/
theorem registered_cases {id : DeclId} (scope : Option RecordDecl) (via : Option Decl) :
    (e : Entry) → e.Fits env scope → id ∈ (e.addition env scope).registered →
      (∃ p ∈ placements scope via e, p.record.head.id = id) ∨
      ∃ d ∈ env.index.decls, d.id = id ∧ d.record? = none ∧
        (d.isCode = true → scope = none ∧ e = .leaf d)
  | leaf d, hfits, hid => by
    obtain ⟨hmem, -, hkind⟩ := hfits
    refine Or.inr ⟨d, hmem, (List.mem_singleton.1 hid).symm,
      Decl.record?_of_leaf (hkind.imp_right And.left), fun hcode => ?_⟩
    rcases hkind with h | h
    · rw [Decl.isCode_of_isEnumeration h] at hcode
      exact nomatch hcode
    · exact ⟨h.2, rfl⟩
  | typedef head underlying target, hfits, hid => by
    obtain ⟨hmem, -, htarget, hof⟩ := hfits
    simp only [addition, Addition.registered_append, List.mem_append, Addition.ofId,
      Addition.ofCode, List.mem_singleton, List.not_mem_nil, or_false] at hid
    rcases hid with rfl | hid
    · exact Or.inr ⟨_, hmem, rfl, rfl, fun h => nomatch h⟩
    · rcases registeredAll_cases scope (some (.typedef head underlying)) target htarget hid with
        h | ⟨d, hd, hdid, hrecord, hcode⟩
      · exact Or.inl h
      · exact Or.inr ⟨d, hd, hdid, hrecord, fun h => (hof _ (hcode h).2).elim⟩
  | record r asked members, hfits, hid => by
    obtain ⟨-, hmembers, -, -⟩ := hfits
    simp only [addition, Addition.registered_append, List.mem_append, Addition.ofId,
      Addition.ofCode, List.mem_singleton, List.not_mem_nil, or_false] at hid
    rcases hid with rfl | hid
    · exact Or.inl ⟨⟨r, scope, via⟩, List.mem_cons_self, rfl⟩
    · rcases registeredAll_cases (some r) none members hmembers hid with
        ⟨p, hp, hpid⟩ | ⟨d, hd, hdid, hrecord, hcode⟩
      · exact Or.inl ⟨p, List.mem_cons_of_mem _ hp, hpid⟩
      · exact Or.inr ⟨d, hd, hdid, hrecord, fun h => nomatch (hcode h).1⟩
  | banner _, _, hid | gap, _, hid | constant _ _ _, _, hid | member _, _, hid =>
    absurd hid List.not_mem_nil

theorem registeredAll_cases {id : DeclId} (scope : Option RecordDecl) (via : Option Decl) :
    (es : List Entry) → FitsAll env scope es → id ∈ (additionAll env scope es).registered →
      (∃ p ∈ placementsAll scope via es, p.record.head.id = id) ∨
      ∃ d ∈ env.index.decls, d.id = id ∧ d.record? = none ∧
        (d.isCode = true → scope = none ∧ .leaf d ∈ es)
  | [], _, hid => absurd hid List.not_mem_nil
  | e :: es, hfits, hid => by
    rcases List.mem_append.1 hid with hid | hid
    · rcases registered_cases scope via e hfits.1 hid with
        ⟨p, hp, hpid⟩ | ⟨d, hd, hdid, hrecord, hcode⟩
      · exact Or.inl ⟨p, List.mem_append_left _ hp, hpid⟩
      · exact Or.inr ⟨d, hd, hdid, hrecord, fun h =>
          ⟨(hcode h).1, List.mem_cons.2 (Or.inl (hcode h).2.symm)⟩⟩
    · rcases registeredAll_cases scope via es hfits.2 hid with
        ⟨p, hp, hpid⟩ | ⟨d, hd, hdid, hrecord, hcode⟩
      · exact Or.inl ⟨p, List.mem_append_right _ hp, hpid⟩
      · exact Or.inr ⟨d, hd, hdid, hrecord, fun h =>
          ⟨(hcode h).1, List.mem_cons_of_mem _ (hcode h).2⟩⟩

end

mutual

theorem placements_sublist (scope : Option RecordDecl) (via : Option Decl) : (e : Entry) →
    ((placements scope via e).map (·.record.head.id)).Sublist (e.addition env scope).registered
  | typedef head underlying target => by
    have h := placementsAll_sublist scope (some (.typedef head underlying)) target
    simp only [addition, Addition.registered_append, Addition.ofCode, List.append_nil]
    exact h.cons head.id
  | record r asked members => by
    have h := placementsAll_sublist (some r) none members
    simp only [addition, Addition.registered_append, Addition.ofCode, List.append_nil]
    exact h.cons_cons r.head.id
  | banner _ | gap | constant _ _ _ | leaf _ | member _ => List.nil_sublist _

theorem placementsAll_sublist (scope : Option RecordDecl) (via : Option Decl) : (es : List Entry) →
    ((placementsAll scope via es).map (·.record.head.id)).Sublist
      (additionAll env scope es).registered
  | [] => List.Sublist.refl _
  | e :: es => by
    rw [placementsAll, List.map_append]
    exact (placements_sublist scope via e).append (placementsAll_sublist scope via es)

end

/-- A record of the unit has been registered exactly if it has a place. -/
theorem registered_iff_placed {unit : TranslationUnit} (hdecls : env.index.decls = unit.walk)
    (hids : (unit.walk.map Decl.id).Nodup) {es : List Entry} (hfits : FitsAll env none es)
    {r : RecordDecl} (hr : r.toDecl ∈ unit.walk) :
    r.head.id ∈ (additionAll env none es).registered ↔
      ∃ p ∈ placementsAll none none es, p.record = r := by
  constructor
  · intro h
    rcases registeredAll_cases none none es hfits h with
      ⟨p, hp, hid⟩ | ⟨d, hd, hid, hrecord, -⟩
    · have hmem := (sound_module hfits hp).admitted.mem
      rw [hdecls] at hmem
      have heq : p.record.toDecl = r.toDecl := TranslationUnit.eq_of_id hids hmem hr hid
      exact ⟨p, hp, RecordDecl.toDecl_injective heq⟩
    · rw [hdecls] at hd
      have heq : d = r.toDecl := TranslationUnit.eq_of_id hids hd hr hid
      rw [heq] at hrecord
      exact nomatch hrecord
  · rintro ⟨p, hp, rfl⟩
    exact (placementsAll_sublist none none es).subset (List.mem_map_of_mem hp)

/-! ## Members -/

/-- The children of the records that are placed. -/
def childrenOf (ps : List Placement) : List Decl := ps.flatMap fun p => p.record.toDecl.children

theorem member_sublist_source (es : List Entry) :
    (es.filterMap member?).Sublist (es.filterMap source?) := by
  induction es with
  | nil => exact List.Sublist.refl _
  | cons e es ih =>
    cases e with
    | member d => exact ih.cons_cons d
    | leaf d => exact ih.cons d
    | typedef head underlying target => exact ih.cons _
    | record r asked members => exact ih.cons _
    | banner _ | gap | constant _ _ _ => exact ih

mutual

theorem members_subperm (scope : Option RecordDecl) (via : Option Decl) : (e : Entry) →
    e.Fits env scope →
      (members e).Subperm (e.member?.toList ++ childrenOf (placements scope via e))
  | typedef head underlying target, hfits => by
    obtain ⟨-, -, htarget, hof⟩ := hfits
    have h := membersAll_subperm scope (some (.typedef head underlying)) target htarget
    rw [filterMap_member?_of_isOf hof] at h
    exact h
  | record r asked members, hfits => by
    obtain ⟨-, hmembers, hsource, -⟩ := hfits
    have h := membersAll_subperm (some r) none members hmembers
    have hown : (members.filterMap member?).Sublist r.members :=
      (member_sublist_source members).trans hsource
    have hmethods : (if r.info.complete then r.methods.filter (·.function?.isSome) else []).Sublist
        r.methods := by
      split
      · exact List.filter_sublist
      · exact List.nil_sublist _
    show (membersAll members ++ _).Subperm
      ((r.members ++ r.methods) ++ childrenOf (placementsAll (some r) none members))
    refine (h.append hmethods.subperm).trans ?_
    refine ((hown.append_right _).append_right _).subperm.trans ?_
    rw [List.append_assoc, List.append_assoc]
    exact (List.perm_append_comm.append_left r.members).subperm
  | banner _, _ | gap, _ | constant _ _ _, _ | leaf _, _ => List.nil_subperm
  | member d, _ => List.Subperm.refl _

theorem membersAll_subperm (scope : Option RecordDecl) (via : Option Decl) : (es : List Entry) →
    FitsAll env scope es →
      (membersAll es).Subperm (es.filterMap member? ++ childrenOf (placementsAll scope via es))
  | [], _ => List.Subperm.refl _
  | e :: es, hfits => by
    have he := members_subperm scope via e hfits.1
    have hes := membersAll_subperm scope via es hfits.2
    have hmember : (e :: es).filterMap member? = e.member?.toList ++ es.filterMap member? := by
      cases h : e.member? with
      | none => exact List.filterMap_cons_none h
      | some d => exact List.filterMap_cons_some h
    have hchildren : childrenOf (placementsAll scope via (e :: es)) =
        childrenOf (placements scope via e) ++ childrenOf (placementsAll scope via es) :=
      List.flatMap_append
    rw [hmember, hchildren]
    refine (he.append hes).trans ?_
    rw [List.append_assoc, List.append_assoc]
    exact ((List.perm_append_comm_assoc _ _ _).append_left _).subperm

end

/-- In the module nothing is written as a member but what belongs to a record. -/
theorem members_subperm_children {es : List Entry} (hfits : FitsAll env none es) :
    (membersAll es).Subperm (childrenOf (placementsAll none none es)) := by
  have hnone : es.filterMap member? = [] := by
    rw [List.filterMap_eq_nil_iff]
    intro e he
    cases e with
    | member d => exact absurd rfl ((fitsAll_iff.1 hfits) _ he).2.2
    | _ => rfl
  have h := membersAll_subperm none none es hfits
  rw [hnone] at h
  exact h

end Entry

end DBindings
