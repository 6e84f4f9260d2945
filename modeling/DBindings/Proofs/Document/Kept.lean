import DBindings.Proofs.Document.Once

/-!
# Declarations of files and namespaces are kept

An enum, function, variable or typedef of a file or namespace is handed over by an event of its own
and by nothing else.  If its file is under an input root, it has been registered when the unit has
been written, so it has an entry in the module, and only one.

* `TranslationUnit.source_mem_events`      the declarations of files and namespaces are handed over;
* `TranslationUnit.mem_outer_of_subject`   and no others;
* `Entry.registered_origin`                what has been registered has an entry in the module,
                                           unless it is a record or a member of one;
* `Entry.HasOne`                           a declaration has one entry, with this code;
* `Entry.code_leaf`, `Entry.code_alias`    the code of the entry.
-/

namespace DBindings
open Entry (additionAll FitsAll membersAll)

/-! ## Events -/

/-- The declaration that an event is about. -/
def Event.subject? : Event → Option Decl
  | .enterRecord d | .leaveRecord d | .enumeration d | .function d | .typedef d | .variable_ d =>
    some d
  | .beginFile _ | .endFile _ | .define _ _ _ => none

theorem Event.subject_of_source {event : Event} {d : Decl} (h : event.source? = some d) :
    event.subject? = some d := by
  unfold Event.source? at h
  split at h <;> first | exact h | cases h

namespace Decl

def isMacro : Decl → Bool
  | macroDef _ _ => true
  | _ => false

mutual

theorem source_mem_events {x : Decl} (hx : x.isMacro = false) : (d : Decl) → x ∈ d.outer →
    ∃ event ∈ d.events, event.source? = some x
  | .space _ members, h => source_mem_eventsAll hx members h
  | .record _ _ _ _, h | .enumeration _ _, h | .function _ _, h | .typedef _ _, h
  | .var _ _, h => by
    rw [List.mem_singleton.1 h]
    exact ⟨_, List.mem_cons_self, rfl⟩
  | .macroDef _ _, h => by
    rw [List.mem_singleton.1 h] at hx
    exact nomatch hx

theorem source_mem_eventsAll {x : Decl} (hx : x.isMacro = false) : (ds : List Decl) →
    x ∈ outerAll ds → ∃ event ∈ eventsAll ds, event.source? = some x
  | [], h => absurd h List.not_mem_nil
  | d :: ds, h => by
    rcases List.mem_append.1 h with h | h
    · obtain ⟨event, he, hs⟩ := source_mem_events hx d h
      exact ⟨event, List.mem_append_left _ he, hs⟩
    · obtain ⟨event, he, hs⟩ := source_mem_eventsAll hx ds h
      exact ⟨event, List.mem_append_right _ he, hs⟩

end

mutual

theorem mem_outer_of_subject {x : Decl} {event : Event} (hx : event.subject? = some x) :
    (d : Decl) → event ∈ d.events → x ∈ d.outer
  | .space _ members, h => mem_outerAll_of_subject hx members h
  | .record _ _ _ _, h => by
    rcases List.mem_pair.1 h with rfl | rfl
    all_goals
      cases hx
      exact List.mem_cons_self
  | .enumeration _ _, h | .function _ _, h | .typedef _ _, h | .var _ _, h => by
    rw [List.mem_singleton.1 h] at hx
    cases hx
    exact List.mem_cons_self
  | .macroDef _ _, h => by
    rw [List.mem_singleton.1 h] at hx
    exact nomatch hx

theorem mem_outerAll_of_subject {x : Decl} {event : Event} (hx : event.subject? = some x) :
    (ds : List Decl) → event ∈ eventsAll ds → x ∈ outerAll ds
  | [], h => absurd h List.not_mem_nil
  | d :: ds, h => by
    rcases List.mem_append.1 h with h | h
    · exact List.mem_append_left _ (mem_outer_of_subject hx d h)
    · exact List.mem_append_right _ (mem_outerAll_of_subject hx ds h)

end

end Decl

namespace TranslationUnit
variable {unit : TranslationUnit}

/-- What stands in a file or namespace is handed over, apart from macros. -/
theorem source_mem_events {d : Decl} (hd : d ∈ unit.outer) (hproper : d.isMacro = false) :
    ∃ event ∈ unit.events, event.source? = some d := by
  obtain ⟨file, hfile, hd⟩ := List.mem_flatMap.1 hd
  obtain ⟨event, he, hs⟩ := Decl.source_mem_eventsAll hproper file.decls hd
  exact ⟨event, mem_events.2 ⟨file, hfile, Or.inr (Or.inl he)⟩, hs⟩

theorem mem_outer_of_subject {event : Event} {d : Decl} (he : event ∈ unit.events)
    (hd : event.subject? = some d) : d ∈ unit.outer := by
  obtain ⟨file, hfile, rfl | he | rfl⟩ := mem_events.1 he
  · exact nomatch hd
  · exact List.mem_flatMap.2 ⟨file, hfile, Decl.mem_outerAll_of_subject hd file.decls he⟩
  · exact nomatch hd

theorem handsOverOuter_events (hids : (unit.walk.map Decl.id).Nodup) :
    unit.HandsOverOuter unit.events := by
  intro d hd r hr
  have houter : d ∈ unit.outer := by
    rcases hd with hd | hd <;> exact mem_outer_of_subject hd rfl
  exact not_mem_children_of_outer hids houter hr

end TranslationUnit

/-! ## Entries -/

namespace Entry
variable {env : EmitEnv} {es : List Entry}

mutual

/-- What an entry registers is the declaration that it is the code of, a record, or a member of a
record. -/
theorem registered_origin {id : DeclId} {scope : Option RecordDecl} : (e : Entry) →
    e.Fits env scope → id ∈ (e.addition env scope).registered →
      ∃ d ∈ env.index.decls, d.id = id ∧ (e.source? = some d ∨ d.record?.isSome = true ∨
        ∃ r : RecordDecl, r.toDecl ∈ env.index.decls ∧ d ∈ r.members)
  | leaf d, hfits, hid => ⟨d, hfits.1, (List.mem_singleton.1 hid).symm, Or.inl rfl⟩
  | typedef head underlying target, hfits, hid => by
    obtain ⟨hmem, -, htarget, hof⟩ := hfits
    simp only [addition, Addition.registered_append, List.mem_append, Addition.ofId,
      Addition.ofCode, List.mem_singleton, List.not_mem_nil, or_false] at hid
    rcases hid with rfl | hid
    · exact ⟨_, hmem, rfl, Or.inl rfl⟩
    · obtain ⟨d, hd, hdid, ⟨e, he, hsource⟩ | h⟩ := registeredAll_origin target htarget hid
      · refine ⟨d, hd, hdid, Or.inr (Or.inl ?_)⟩
        have hrecord := hof e he
        cases e with
        | record r _ _ =>
          rw [← Option.some.inj hsource]
          rfl
        | gap => exact nomatch hsource
        | _ => exact hrecord.elim
      · exact ⟨d, hd, hdid, Or.inr h⟩
  | record r asked members, hfits, hid => by
    obtain ⟨hadmitted, hmembers, hsub, -⟩ := hfits
    simp only [addition, Addition.registered_append, List.mem_append, Addition.ofId,
      Addition.ofCode, List.mem_singleton, List.not_mem_nil, or_false] at hid
    rcases hid with rfl | hid
    · exact ⟨r.toDecl, hadmitted.mem, rfl, Or.inl rfl⟩
    · obtain ⟨d, hd, hdid, ⟨e, he, hsource⟩ | h⟩ := registeredAll_origin members hmembers hid
      · have hmember : d ∈ r.members := hsub.subset (List.mem_filterMap.2 ⟨e, he, hsource⟩)
        exact ⟨d, hd, hdid, Or.inr (Or.inr ⟨r, hadmitted.mem, hmember⟩)⟩
      · exact ⟨d, hd, hdid, Or.inr h⟩
  | banner _, _, hid | gap, _, hid | constant _ _ _, _, hid | member _, _, hid =>
    absurd hid List.not_mem_nil

theorem registeredAll_origin {id : DeclId} {scope : Option RecordDecl} : (es : List Entry) →
    FitsAll env scope es → id ∈ (additionAll env scope es).registered →
      ∃ d ∈ env.index.decls, d.id = id ∧ ((∃ e ∈ es, e.source? = some d) ∨
        d.record?.isSome = true ∨
        ∃ r : RecordDecl, r.toDecl ∈ env.index.decls ∧ d ∈ r.members)
  | [], _, hid => absurd hid List.not_mem_nil
  | e :: es, hfits, hid => by
    rcases List.mem_append.1 hid with hid | hid
    · obtain ⟨d, hd, hdid, hsource | h⟩ := registered_origin e hfits.1 hid
      · exact ⟨d, hd, hdid, Or.inl ⟨e, List.mem_cons_self, hsource⟩⟩
      · exact ⟨d, hd, hdid, Or.inr h⟩
    · obtain ⟨d, hd, hdid, ⟨e', he', hsource⟩ | h⟩ := registeredAll_origin es hfits.2 hid
      · exact ⟨d, hd, hdid, Or.inl ⟨e', List.mem_cons_of_mem _ he', hsource⟩⟩
      · exact ⟨d, hd, hdid, Or.inr h⟩

end

theorem mem_registered_of_source {e : Entry} {d : Decl} (hfits : e.Fits env none)
    (h : e.source? = some d) : d.id ∈ (e.addition env none).registered := by
  cases e with
  | leaf d' =>
    rw [← Option.some.inj h]
    exact List.mem_cons_self
  | member d' => exact absurd rfl hfits.2.2
  | typedef head underlying target =>
    rw [← Option.some.inj h]
    exact List.mem_cons_self
  | record r asked members =>
    rw [← Option.some.inj h]
    exact List.mem_cons_self
  | banner _ | gap | constant _ _ _ => exact nomatch h

theorem mem_registeredAll_of_source {e : Entry} {d : Decl} (hfits : FitsAll env none es)
    (he : e ∈ es) (h : e.source? = some d) : d.id ∈ (additionAll env none es).registered := by
  obtain ⟨before, after, rfl⟩ := List.append_of_mem he
  have hid := mem_registered_of_source (fitsAll_iff.1 hfits e he) h
  rw [additionAll_append]
  exact List.mem_append_right _ (List.mem_append_left _ hid)

/-- Of all entries one is for this declaration, and this is its code. -/
def HasOne (env : EmitEnv) (es : List Entry) (d : Decl) (code : List Stroke) : Prop :=
  ∃ before e after, es = before ++ e :: after ∧ e.source? = some d ∧
    (e.addition env none).code = code ∧ ∀ e' ∈ before ++ after, e'.source? ≠ some d

/-- An entry that registers what no other one does. -/
theorem hasOne_of_mem (hfits : FitsAll env none es)
    (hnodup : (additionAll env none es).registered.Nodup) {e : Entry} {d : Decl} (he : e ∈ es)
    (h : e.source? = some d) : HasOne env es d (e.addition env none).code := by
  obtain ⟨before, after, rfl⟩ := List.append_of_mem he
  obtain ⟨hbefore, hfitsE, hafter⟩ := (fitsAll_append.1 hfits).imp_right id
  refine ⟨before, e, after, rfl, h, rfl, fun e' he' h' => ?_⟩
  rw [additionAll_append] at hnodup
  obtain ⟨-, hrest, hapart⟩ := List.nodup_append.1 hnodup
  have hid := mem_registered_of_source hfitsE h
  rcases List.mem_append.1 he' with he' | he'
  · have hid' := mem_registeredAll_of_source hbefore he' h'
    exact hapart _ hid' _ (List.mem_append_left _ hid) rfl
  · have hid' := mem_registeredAll_of_source hafter he' h'
    exact (List.nodup_append.1 hrest).2.2 _ hid _ hid' rfl

theorem exists_of_registered {unit : TranslationUnit} (hdecls : env.index.decls = unit.walk)
    (hids : (unit.walk.map Decl.id).Nodup) (hfits : FitsAll env none es) {d : Decl}
    (hd : d ∈ unit.outer) (hrecord : d.record? = none)
    (hid : d.id ∈ (additionAll env none es).registered) : ∃ e ∈ es, e.source? = some d := by
  obtain ⟨d', hd', hid', h⟩ := registeredAll_origin es hfits hid
  rw [hdecls] at hd'
  have heq : d' = d := TranslationUnit.eq_of_id hids hd' (TranslationUnit.mem_walk_of_outer hd) hid'
  subst heq
  rcases h with h | h | ⟨r, hr, hmember⟩
  · exact h
  · rw [hrecord] at h
    exact nomatch h
  · rw [hdecls] at hr
    exact absurd (List.mem_append_left _ hmember)
      (TranslationUnit.not_mem_children_of_outer hids hd hr)

theorem code_gaps {scope : Option RecordDecl} (h : ∀ e ∈ es, e = .gap) :
    (additionAll env scope es).code = List.replicate es.length (.line "") := by
  induction es with
  | nil => rfl
  | cons e es ih =>
    rw [h e List.mem_cons_self, additionAll, Addition.code_append,
      ih fun e he => h e (List.mem_cons_of_mem _ he)]
    rfl

theorem code_leaf {e : Entry} {d : Decl} (hfits : e.Fits env none)
    (hkind : d.isEnumeration = true ∨ d.isCode = true) (h : e.source? = some d) :
    (e.addition env none).code = d.leafCode env := by
  cases e with
  | leaf d' =>
    rw [← Option.some.inj h]
    rfl
  | member d' => exact absurd rfl hfits.2.2
  | typedef head underlying target =>
    rw [← Option.some.inj h] at hkind
    rcases hkind with hkind | hkind <;> exact absurd hkind Bool.false_ne_true
  | record r asked members =>
    rw [← Option.some.inj h] at hkind
    rcases hkind with hkind | hkind <;> exact absurd hkind Bool.false_ne_true
  | banner _ | gap | constant _ _ _ => exact nomatch h

/-- The code of a typedef that names no record of the unit is its alias. -/
theorem code_alias {e : Entry} {head : DeclHead} {underlying : Ty} (hfits : e.Fits env none)
    (hnamed : env.namedRecord? underlying = none)
    (h : e.source? = some (.typedef head underlying)) :
    ∃ n, (e.addition env none).code =
      List.replicate n (.line "") ++ env.aliasCode true head underlying := by
  cases e with
  | typedef head' underlying' target =>
    obtain ⟨rfl, rfl⟩ := Decl.typedef.inj (Option.some.inj h)
    have hgap : ∀ e ∈ target, e = .gap := by
      intro e he
      have hof := hfits.2.2.2 e he
      rw [hnamed] at hof
      cases e with
      | gap => rfl
      | record r asked members => exact nomatch hof
      | _ => exact hof.elim
    refine ⟨target.length, ?_⟩
    rw [← code_gaps hgap]
    rfl
  | leaf d =>
    have hkind := hfits.2.2
    rw [Option.some.inj h] at hkind
    rcases hkind with hkind | hkind <;> exact nomatch hkind
  | member d => exact absurd rfl hfits.2.2
  | record r asked members => exact nomatch Option.some.inj h
  | banner _ | gap | constant _ _ _ => exact nomatch h

end Entry

namespace TranslationUnit
variable {unit : TranslationUnit} {options : EmitOptions}

namespace Consists
variable {s : EmitState} {entries : List Entry} (h : unit.Consists options s entries)
include h

theorem mem_registered {d : Decl} (hd : d ∈ unit.outer) (hproper : d.isMacro = false)
    (hindependent : d.isDependent = false)
    (hrelevant : (EmitEnv.ofUnit unit options .strings).isRelevant d.head.loc = true) :
    d.id ∈ s.registered := by
  obtain ⟨event, hevent, hs⟩ := source_mem_events hd hproper
  exact (h.settled event hevent).1 d hs hindependent hrelevant

theorem mem_outer {e : Entry} (he : e ∈ entries) {d : Decl} (hd : e.source? = some d) :
    d ∈ unit.outer := by
  have hsource := h.source.subset (List.mem_filterMap.2 ⟨e, he, hd⟩)
  obtain ⟨event, hevent, hs⟩ := List.mem_filterMap.1 hsource
  exact mem_outer_of_subject hevent (Event.subject_of_source hs)

end Consists

end TranslationUnit

/-- A function whose name begins as that of an operator does. -/
def Decl.isNamedOperator : Decl → Bool
  | function head _ => "operator".toList.isPrefixOf (head.name.getD "").toList
  | _ => false

end DBindings
