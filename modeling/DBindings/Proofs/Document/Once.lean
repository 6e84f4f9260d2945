import DBindings.Proofs.Document.Events
import DBindings.Proofs.Document.Placements

/-!
# Written at most once

Whatever calls reach the emitter, in any order and however often, no declaration is registered
twice, and what stands in the module has been registered.  Functions and variables that are members
of a record are not registered, but they are written with their record, which is.

* `Entry.nodup_members`   no function or variable is written twice as a member;
* `Entry.nodup_written`   no declaration is written both as a member and on its own, if members are
                          not handed over on their own;
* `Emit.perform_once`     what a run writes, and that handling its events again does nothing.
-/

namespace DBindings
open Entry (additionAll FitsAll placementsAll membersAll childrenOf)

/-- Functions and variables that are handed over on their own belong to no record. -/
def TranslationUnit.HandsOverOuter (unit : TranslationUnit) (events : List Event) : Prop :=
  ∀ d, .function d ∈ events ∨ .variable_ d ∈ events →
    ∀ r : RecordDecl, r.toDecl ∈ unit.walk → d ∉ r.toDecl.children

theorem Event.handsOver_of_source {event : Event} {events : List Event} {d : Decl}
    (h : event.source? = some d) (hcode : d.isCode = true) (hevent : event ∈ events) :
    .function d ∈ events ∨ .variable_ d ∈ events := by
  unfold Event.source? at h
  split at h
  · cases h
    exact absurd hcode Bool.false_ne_true
  · cases h
    exact absurd hcode Bool.false_ne_true
  · cases h
    exact Or.inl hevent
  · cases h
    exact absurd hcode Bool.false_ne_true
  · cases h
    exact Or.inr hevent
  · cases h

namespace Entry
variable {unit : TranslationUnit} {env : EmitEnv} {es : List Entry}

theorem sublist_flatMap {α β : Type} {a b : List α} (h : a.Sublist b) (f : α → List β) :
    (a.flatMap f).Sublist (b.flatMap f) := by
  induction h with
  | slnil => exact List.Sublist.refl _
  | cons x _ ih => exact ih.trans (List.sublist_append_right _ _)
  | cons_cons x _ ih => exact ih.append_left _

theorem nodup_childrenOf (hdecls : env.index.decls = unit.walk)
    (hids : (unit.walk.map Decl.id).Nodup) (hfits : FitsAll env none es)
    (hnodup : (additionAll env none es).registered.Nodup) :
    ((childrenOf (placementsAll none none es)).map Decl.id).Nodup := by
  let placed := (placementsAll none none es).map (·.record.toDecl)
  have hplaced : placed.Nodup := by
    have h := (@placementsAll_sublist env none none es).nodup hnodup
    have hmap : (placementsAll none none es).map (·.record.head.id) = placed.map Decl.id := by
      rw [List.map_map]
      rfl
    rw [hmap] at h
    exact h.of_map
  have hsubset : placed ⊆ unit.walk := by
    intro d hd
    obtain ⟨p, hp, rfl⟩ := List.mem_map.1 hd
    rw [← hdecls]
    exact (sound_module hfits hp).admitted.mem
  obtain ⟨ds, hperm, hsub⟩ := List.subperm_of_subset hplaced hsubset
  have hchildren : childrenOf (placementsAll none none es) = placed.flatMap Decl.children := by
    rw [List.flatMap_map]
    rfl
  have hds := ((sublist_flatMap hsub Decl.children).map Decl.id).nodup
    (TranslationUnit.nodup_children hids)
  rw [hchildren]
  exact ((hperm.flatMap_right Decl.children).map Decl.id).nodup_iff.1 hds

theorem nodup_members (hdecls : env.index.decls = unit.walk)
    (hids : (unit.walk.map Decl.id).Nodup) (hfits : FitsAll env none es)
    (hnodup : (additionAll env none es).registered.Nodup) :
    ((membersAll es).map Decl.id).Nodup := by
  obtain ⟨ds, hperm, hsub⟩ := members_subperm_children hfits
  have h := nodup_childrenOf hdecls hids hfits hnodup
  exact (hperm.map Decl.id).nodup_iff.1 ((hsub.map Decl.id).nodup h)

mutual

theorem isCode_members {d : Decl} {scope : Option RecordDecl} : (e : Entry) → e.Fits env scope →
    d ∈ members e → d.isCode = true
  | member _, hfits, hd => by
    rw [List.mem_singleton.1 hd]
    exact hfits.2.1
  | typedef _ _ target, hfits, hd => isCode_membersAll target hfits.2.2.1 hd
  | record r _ inside, hfits, hd => by
    rcases List.mem_append.1 hd with hd | hd
    · exact isCode_membersAll inside hfits.2.1 hd
    · split at hd
      · have hfunction := List.mem_filter.1 hd
        cases d with
        | function head f => rfl
        | _ => exact nomatch hfunction.2
      · exact absurd hd List.not_mem_nil
  | banner _, _, hd | gap, _, hd | constant _ _ _, _, hd | leaf _, _, hd =>
    absurd hd List.not_mem_nil

theorem isCode_membersAll {d : Decl} {scope : Option RecordDecl} : (es : List Entry) →
    FitsAll env scope es → d ∈ membersAll es → d.isCode = true
  | [], _, hd => absurd hd List.not_mem_nil
  | e :: es, hfits, hd => by
    rcases List.mem_append.1 hd with hd | hd
    · exact isCode_members e hfits.1 hd
    · exact isCode_membersAll es hfits.2 hd

end

/-- No declaration is written twice, be it on its own or as a member. -/
theorem nodup_written (hdecls : env.index.decls = unit.walk)
    (hids : (unit.walk.map Decl.id).Nodup) (hfits : FitsAll env none es)
    (hnodup : (additionAll env none es).registered.Nodup) {events : List Event}
    (hsource : (es.filterMap source?).Sublist (events.filterMap Event.source?))
    (houter : unit.HandsOverOuter events) :
    ((additionAll env none es).registered ++ (membersAll es).map Decl.id).Nodup := by
  refine List.nodup_append.2 ⟨hnodup, nodup_members hdecls hids hfits hnodup, ?_⟩
  rintro id hid _ hmember rfl
  obtain ⟨d, hd, hdid⟩ := List.mem_map.1 hmember
  have hcode := isCode_membersAll es hfits hd
  obtain ⟨p, hp, hchild⟩ := List.mem_flatMap.1 ((members_subperm_children hfits).subset hd)
  have hrecord : p.record.toDecl ∈ unit.walk := by
    rw [← hdecls]
    exact (sound_module hfits hp).admitted.mem
  have hwalk : d ∈ unit.walk := by
    rw [(TranslationUnit.walk_perm unit).mem_iff, List.mem_append]
    exact Or.inr (List.mem_flatMap.2 ⟨_, hrecord, hchild⟩)
  rcases registeredAll_cases none none es hfits hid with ⟨q, hq, hqid⟩ | ⟨d', hd', hdid', -, hleaf⟩
  · -- a record is no function or variable
    have hqrecord := (sound_module hfits hq).admitted.mem
    rw [hdecls] at hqrecord
    have heq : q.record.toDecl = d :=
      TranslationUnit.eq_of_id hids hqrecord hwalk (hqid.trans hdid.symm)
    rw [← heq] at hcode
    exact nomatch hcode
  · -- a function or variable that is registered has been handed over on its own
    rw [hdecls] at hd'
    have heq : d' = d := TranslationUnit.eq_of_id hids hd' hwalk (hdid'.trans hdid.symm)
    subst heq
    obtain ⟨-, hmem⟩ := hleaf hcode
    have hs := hsource.subset (List.mem_filterMap.2 ⟨_, hmem, rfl⟩)
    obtain ⟨event, hevent, hs⟩ := List.mem_filterMap.1 hs
    exact houter d' (Event.handsOver_of_source hs hcode hevent) p.record hrecord hchild

end Entry

namespace Emit

/-- Handling events, in any order and with repetitions, registers no declaration twice and writes
each constant once; no member is written twice, and no declaration at all if functions and variables
are handed over on their own only when they belong to no record.  Handling one of the declarations
or macros again does nothing, and neither does entering and leaving a record again, if each record
that has been entered has been left again. -/
theorem perform_once (unit : TranslationUnit) (options : EmitOptions) (style : NamespaceStyle)
    (hids : (unit.walk.map Decl.id).Nodup) {events : List Event}
    (hevents : ∀ event ∈ events, EventIn (.ofUnit unit) event) {s : EmitState}
    (h : (perform (.ofUnit unit options style) events).exec (.start options) = (.ok (), s)) :
    let env := EmitEnv.ofUnit unit options style
    (∃ entries, FitsAll env none entries ∧
      (entries.filterMap Entry.source?).Sublist (events.filterMap Event.source?) ∧
      s.script.toList = (EmitState.start options).script.toList ++
        (additionAll env none entries).code ∧
      (additionAll env none entries).registered.Nodup ∧
      (additionAll env none entries).constants.Nodup ∧
      ((membersAll entries).map Decl.id).Nodup ∧
      (unit.HandsOverOuter events →
        ((additionAll env none entries).registered ++
          (membersAll entries).map Decl.id).Nodup)) ∧
    (∀ event ∈ events, event.isEntry = true → (handle env event).exec s = (.ok (), s)) ∧
    (Event.Paired events → ∀ d, .enterRecord d ∈ events →
      (do handle env (.enterRecord d); handle env (.leaveRecord d)).exec s = (.ok (), s)) := by
  intro env
  have hindex : env.index.Closed := DeclIndex.closed_ofUnit unit
  obtain ⟨⟨entries, hfits, hsource, hextends⟩, hsettled⟩ :=
    (gives_perform hindex events hevents _).ok h
  have hregistered : (additionAll env none entries).registered.Nodup := by
    have hnodup := hextends.nodup_registered List.nodup_nil
    rw [hextends.registered] at hnodup
    exact List.nodup_reverse.1 (List.nodup_append.1 hnodup).1
  have hconstants : (additionAll env none entries).constants.Nodup := by
    have hnodup := hextends.nodup_constants List.nodup_nil
    rw [hextends.constants] at hnodup
    exact List.nodup_reverse.1 (List.nodup_append.1 hnodup).1
  refine ⟨⟨entries, hfits, hsource, hextends.code, hregistered, hconstants, ?_, ?_⟩, ?_, ?_⟩
  · exact Entry.nodup_members rfl hids hfits hregistered
  · exact Entry.nodup_written rfl hids hfits hregistered hsource
  · exact fun event hevent hentry => exec_of_settled hentry (hsettled event hevent)
  · intro hpaired d hd
    have hnesting : s.nesting = [] :=
      List.sublist_nil.1 ((nesting_perform hindex hpaired hevents _).ok h)
    have hentered : (handle env (.enterRecord d)).exec s = (.ok (), s) :=
      exec_of_settled rfl (hsettled _ hd)
    have hleft : (handle env (.leaveRecord d)).exec s = (.ok (), s) := by
      refine exec_leaveRecord_of_ne ?_
      rw [hnesting]
      exact fun hnone => nomatch hnone
    rw [exec_bind, hentered]
    exact hleft

end Emit

/-- A method that makes its record a class. -/
def runMethod : Decl :=
  .function { id := 2, name := some "run" }
    { returnType := .int, method := some { isVirtual := true } }

def methodClass : Decl := .record { id := 1, name := some "A" } { tag := .class_ } [] [runMethod]

def methodUnit : TranslationUnit := ⟨[⟨"a.h", [methodClass]⟩]⟩

def methodEnv : EmitEnv := .ofUnit methodUnit { preamble := false } .strings

/-- Entering and leaving the class twice writes it once. -/
theorem methodUnit_once : ∃ s, (Emit.perform methodEnv [.enterRecord methodClass,
      .leaveRecord methodClass]).exec (.start { preamble := false }) = (.ok (), s) ∧
    (∃ entries, s.script.toList = (additionAll methodEnv none entries).code ∧
      ((additionAll methodEnv none entries).registered ++
        (membersAll entries).map Decl.id).Nodup) ∧
    (do Emit.handle methodEnv (.enterRecord methodClass)
        Emit.handle methodEnv (.leaveRecord methodClass)).exec s = (.ok (), s) := by
  have hevents : ∀ event ∈ [Event.enterRecord methodClass, .leaveRecord methodClass],
      Emit.EventIn (.ofUnit methodUnit) event := by
    intro event he
    rcases List.mem_pair.1 he with rfl | rfl <;> exact List.mem_cons_self
  obtain ⟨⟨entries, -, -, hscript, -, -, -, hwritten⟩, -, hpair⟩ :=
    Emit.perform_once methodUnit { preamble := false } .strings (by decide) hevents rfl
  refine ⟨_, rfl, ⟨entries, hscript, hwritten fun d hd => ?_⟩,
    hpair (.record .nil .nil) methodClass List.mem_cons_self⟩
  exact absurd hd (by simp)

/-- The method is written with its class, and once more when it is handed over on its own. -/
theorem methodUnit_twice : (methodUnit.walk.map Decl.id).Nodup ∧
    runMethod ∈ methodClass.children ∧
    ∃ s, (Emit.perform methodEnv [.enterRecord methodClass, .leaveRecord methodClass,
        .function runMethod]).exec (.start { preamble := false }) = (.ok (), s) ∧
      s.text = "extern(C++)\nclass A\n\x7b\n    private int run();\n\x7d\n\n" ++
        "extern(C++)\nint run();\n\n" :=
  ⟨by decide, List.mem_cons_self, _, rfl, by decide +kernel⟩

end DBindings
