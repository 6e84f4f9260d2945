import DBindings.Proofs.Naming.Visited
import DBindings.Proofs.Tree.Scopes

/-!
# The records that naming visits

* `TranslationUnit.outerRecords`    the records of files and namespaces;
* `TranslationUnit.visited_eq`      these are visited, each with the records inside it;
* `TranslationUnit.nodup_visited`   where every number is used once, no number is visited twice;
* `TranslationUnit.mem_visited`     where records are plain, all of them are visited.
-/

namespace DBindings
namespace Decl

mutual

theorem visited_eq : (d : Decl) → d.visited = d.outer.flatMap inside
  | space _ members => visitedAll_eq members
  | record _ _ _ _ | enumeration _ _ | function _ _ | typedef _ _ | var _ _ | macroDef _ _ =>
    (List.append_nil _).symm

theorem visitedAll_eq : (ds : List Decl) → visitedAll ds = (outerAll ds).flatMap inside
  | [] => rfl
  | d :: ds => by rw [visitedAll, outerAll, List.flatMap_append, visited_eq d, visitedAll_eq ds]

end

theorem flatMap_inside (ds : List Decl) :
    ds.flatMap inside = (ds.filterMap record?).flatMap fun r => r.toDecl.inside := by
  induction ds with
  | nil => rfl
  | cons d ds ih =>
    rw [List.flatMap_cons, ih]
    cases d <;> rfl

mutual

theorem inside_sublist : (d : Decl) → (d.inside.map RecordDecl.toDecl).Sublist d.walk
  | record _ _ members _ =>
    ((insideAll_sublist members).trans (List.sublist_append_left _ _)).cons_cons _
  | space _ _ | enumeration _ _ | function _ _ | typedef _ _ | var _ _ | macroDef _ _ =>
    List.nil_sublist _

theorem insideAll_sublist :
    (ds : List Decl) → ((insideAll ds).map RecordDecl.toDecl).Sublist (walkAll ds)
  | [] => List.Sublist.refl _
  | d :: ds => by
    rw [insideAll, walkAll, List.map_append]
    exact (inside_sublist d).append (insideAll_sublist ds)

end

mutual

theorem visited_sublist : (d : Decl) → (d.visited.map RecordDecl.toDecl).Sublist d.walk
  | space _ members => (visitedAll_sublist members).cons _
  | record _ _ _ _ | enumeration _ _ | function _ _ | typedef _ _ | var _ _ | macroDef _ _ =>
    inside_sublist _

theorem visitedAll_sublist :
    (ds : List Decl) → ((visitedAll ds).map RecordDecl.toDecl).Sublist (walkAll ds)
  | [] => List.Sublist.refl _
  | d :: ds => by
    rw [visitedAll, walkAll, List.map_append]
    exact (visited_sublist d).append (visitedAll_sublist ds)

end

end Decl

def Decl.isSpace : Decl → Bool
  | space _ _ => true
  | _ => false

/-- No namespace stands in a record, and its methods are functions. -/
structure RecordDecl.IsPlain (r : RecordDecl) : Prop where
  members : ∀ d ∈ r.members, d.isSpace = false
  methods : ∀ d ∈ r.methods, d.function?.isSome = true

namespace Decl

theorem walk_of_function {d : Decl} (h : d.function?.isSome = true) : d.walk = [d] := by
  cases d with
  | function => rfl
  | _ => exact nomatch h

mutual

theorem mem_inside_of_walk {r : RecordDecl} : (d : Decl) →
    (∀ x : RecordDecl, x.toDecl ∈ d.walk → x.IsPlain) → d.isSpace = false →
      r.toDecl ∈ d.walk → r ∈ d.inside
  | record head info members methods, hplain, _, hr => by
    have hself : RecordDecl.IsPlain ⟨head, info, members, methods⟩ :=
      hplain ⟨head, info, members, methods⟩ (mem_walk_self _)
    rw [walk] at hr hplain
    rw [inside]
    rcases List.mem_cons.1 hr with hr | hr
    · have heq : r = ⟨head, info, members, methods⟩ := RecordDecl.toDecl_injective hr
      exact heq ▸ List.mem_cons_self
    · rcases List.mem_append.1 hr with hr | hr
      · refine List.mem_cons_of_mem _
          (mem_insideAll_of_walk members (fun x hx => ?_) hself.members hr)
        exact hplain x (List.mem_cons_of_mem _ (List.mem_append_left _ hx))
      · obtain ⟨d, hd, hr⟩ := mem_walkAll.1 hr
        have hfunction := hself.methods d hd
        rw [walk_of_function hfunction, List.mem_singleton] at hr
        rw [← hr] at hfunction
        exact nomatch hfunction
  | space _ _, _, hspace, _ => nomatch hspace
  | enumeration _ _, _, _, hr | function _ _, _, _, hr | typedef _ _, _, _, hr | var _ _, _, _, hr
  | macroDef _ _, _, _, hr => nomatch List.mem_singleton.1 hr

theorem mem_insideAll_of_walk {r : RecordDecl} : (ds : List Decl) →
    (∀ x : RecordDecl, x.toDecl ∈ walkAll ds → x.IsPlain) →
      (∀ d ∈ ds, d.isSpace = false) →
        r.toDecl ∈ walkAll ds → r ∈ insideAll ds
  | [], _, _, hr => absurd hr List.not_mem_nil
  | d :: ds, hplain, hspace, hr => by
    rw [walkAll] at hr hplain
    obtain ⟨hd, hds⟩ := List.forall_mem_cons.1 hspace
    rw [insideAll]
    rcases List.mem_append.1 hr with hr | hr
    · exact List.mem_append_left _ (mem_inside_of_walk d
        (fun x hx => hplain x (List.mem_append_left _ hx)) hd hr)
    · exact List.mem_append_right _ (mem_insideAll_of_walk ds
        (fun x hx => hplain x (List.mem_append_right _ hx)) hds hr)

end

mutual

theorem mem_visited_of_walk {r : RecordDecl} : (d : Decl) →
    (∀ x : RecordDecl, x.toDecl ∈ d.walk → x.IsPlain) → r.toDecl ∈ d.walk → r ∈ d.visited
  | space head members, hplain, hr => by
    rw [walk] at hr hplain
    rcases List.mem_cons.1 hr with hr | hr
    · exact nomatch hr
    · exact mem_visitedAll_of_walk members (fun x hx => hplain x (List.mem_cons_of_mem _ hx)) hr
  | record _ _ _ _, hplain, hr | enumeration _ _, hplain, hr | function _ _, hplain, hr
  | typedef _ _, hplain, hr | var _ _, hplain, hr | macroDef _ _, hplain, hr =>
    mem_inside_of_walk _ hplain rfl hr

theorem mem_visitedAll_of_walk {r : RecordDecl} : (ds : List Decl) →
    (∀ x : RecordDecl, x.toDecl ∈ walkAll ds → x.IsPlain) → r.toDecl ∈ walkAll ds →
      r ∈ visitedAll ds
  | [], _, hr => absurd hr List.not_mem_nil
  | d :: ds, hplain, hr => by
    rw [walkAll] at hr hplain
    rw [visitedAll]
    rcases List.mem_append.1 hr with hr | hr
    · exact List.mem_append_left _ (mem_visited_of_walk d
        (fun x hx => hplain x (List.mem_append_left _ hx)) hr)
    · exact List.mem_append_right _ (mem_visitedAll_of_walk ds
        (fun x hx => hplain x (List.mem_append_right _ hx)) hr)

end

end Decl

namespace TranslationUnit
variable {unit : TranslationUnit}

/-- The records of files and namespaces, in the order of the document. -/
def outerRecords (unit : TranslationUnit) : List RecordDecl := unit.outer.filterMap Decl.record?

theorem visited_eq (unit : TranslationUnit) :
    unit.visited = unit.outerRecords.flatMap fun r => r.toDecl.inside := by
  unfold visited outerRecords outer
  rw [← Decl.flatMap_inside, List.flatMap_assoc]
  exact congrArg (unit.files.flatMap ·) (funext fun file => Decl.visitedAll_eq file.decls)

theorem nodup_visited (hids : (unit.walk.map Decl.id).Nodup) :
    (unit.visited.map (·.head.id)).Nodup := by
  have hsublist : (unit.visited.map RecordDecl.toDecl).Sublist unit.walk := by
    unfold visited walk
    rw [List.map_flatMap]
    induction unit.files with
    | nil => exact List.Sublist.refl _
    | cons file files ih => exact (Decl.visitedAll_sublist file.decls).append ih
  have h := (hsublist.map Decl.id).nodup hids
  rwa [List.map_map] at h

theorem mem_visited (hplain : ∀ r : RecordDecl, r.toDecl ∈ unit.walk → r.IsPlain) {r : RecordDecl}
    (hr : r.toDecl ∈ unit.walk) : r ∈ unit.visited := by
  obtain ⟨file, hfile, hr⟩ := mem_walk.1 hr
  exact List.mem_flatMap.2 ⟨file, hfile, Decl.mem_visitedAll_of_walk file.decls
    (fun x hx => hplain x (mem_walk.2 ⟨file, hfile, hx⟩)) hr⟩

end TranslationUnit

end DBindings
