import DBindings.Listing
import DBindings.Proofs.Fresh
import DBindings.Proofs.Tree.Scopes

/-!
# Traversals of a unit

An address is a list of positions: of a declaration in its file, of a member in this declaration,
and so on.  The length of an address is how deep a declaration nests, and addresses in lexicographic
order are the declarations in document order.  A listing and a walk both go through the addresses of
a file in this order, and an index keeps the first declaration of each number that a walk meets.

* `Decl.of_children`               induction on what stands inside declarations;
* `Decl.placed?`                   the declaration at an address;
* `SourceFile.addressed`           the declarations of a file with their addresses;
* `DeclIndex.tableOf`              a table of what is entered first under each number;
* `TranslationUnit.traversals`     the listing, the walk and the index of a unit.
-/

namespace DBindings

namespace Decl

mutual

/-- What carries over from the children of a declaration to itself holds of all declarations. -/
theorem of_children {P : Decl → Prop} (step : ∀ d : Decl, (∀ c ∈ d.children, P c) → P d) :
    (d : Decl) → P d
  | space head members => step (space head members) (all_of_children step members)
  | record head info members methods =>
    step (record head info members methods) fun c hc => (List.mem_append.1 hc).elim
      (all_of_children step members c) (all_of_children step methods c)
  | enumeration _ _ | function _ _ | typedef _ _ | var _ _ | macroDef _ _ =>
    step _ fun _ hc => absurd hc List.not_mem_nil

theorem all_of_children {P : Decl → Prop} (step : ∀ d : Decl, (∀ c ∈ d.children, P c) → P d) :
    (ds : List Decl) → ∀ c ∈ ds, P c
  | [], c, hc => absurd hc List.not_mem_nil
  | d :: ds, c, hc => by
    rcases List.mem_cons.1 hc with h | hc
    · rw [h]
      exact of_children step d
    · exact all_of_children step ds c hc

end

theorem walk_eq (d : Decl) : d.walk = d :: walkAll d.children := by
  cases d with
  | record head info members methods =>
    show _ :: (walkAll members ++ walkAll methods) = _ :: walkAll (members ++ methods)
    rw [walkAll_append]
  | _ => rfl

theorem listingAll_append (depth : Nat) (a b : List Decl) :
    listingAll depth (a ++ b) = listingAll depth a ++ listingAll depth b := by
  induction a with
  | nil => rfl
  | cons d a ih => rw [List.cons_append, listingAll, listingAll, ih, List.append_assoc]

theorem listing_eq (depth : Nat) (d : Decl) :
    d.listing depth = d.listingLine depth :: listingAll (depth + 1) d.children := by
  cases d with
  | record head info members methods =>
    show _ :: (listingAll _ members ++ listingAll _ methods) =
      _ :: listingAll _ (members ++ methods)
    rw [listingAll_append]
  | _ => rfl

/-! ## Addresses -/

/-- The declaration at an address inside a declaration. -/
def inside? (d : Decl) : List Nat → Option Decl
  | [] => some d
  | i :: rest => d.children[i]?.bind (·.inside? rest)

/-- The declaration at an address in a list of declarations. -/
def placed? (ds : List Decl) : List Nat → Option Decl
  | [] => none
  | i :: rest => ds[i]?.bind (·.inside? rest)

mutual

/-- The declarations of a walk with their addresses. -/
def addressed : Decl → List (List Nat × Decl)
  | space head members => ([], space head members) :: addressedAll 0 members
  | record head info members methods =>
    ([], record head info members methods) ::
      (addressedAll 0 members ++ addressedAll members.length methods)
  | d => [([], d)]

/-- The declarations in a list, whose positions are counted from `n`. -/
def addressedAll (n : Nat) : List Decl → List (List Nat × Decl)
  | [] => []
  | d :: ds => (addressed d).map (fun p => (n :: p.1, p.2)) ++ addressedAll (n + 1) ds

end

theorem addressedAll_append (n : Nat) (a b : List Decl) :
    addressedAll n (a ++ b) = addressedAll n a ++ addressedAll (n + a.length) b := by
  induction a generalizing n with
  | nil => rfl
  | cons d a ih =>
    rw [List.cons_append, addressedAll, addressedAll, ih, List.append_assoc, List.length_cons,
      Nat.add_assoc, Nat.add_comm 1]

theorem addressed_eq (d : Decl) : d.addressed = ([], d) :: addressedAll 0 d.children := by
  cases d with
  | record head info members methods =>
    show _ :: (addressedAll 0 members ++ addressedAll members.length methods) =
      _ :: addressedAll 0 (members ++ methods)
    rw [addressedAll_append, Nat.zero_add]
  | _ => rfl

theorem mem_addressedAll {n : Nat} {ds : List Decl} {address : List Nat} {x : Decl} :
    (address, x) ∈ addressedAll n ds ↔
      ∃ i rest d, address = (n + i) :: rest ∧ ds[i]? = some d ∧ (rest, x) ∈ d.addressed := by
  induction ds generalizing n with
  | nil => simp [addressedAll]
  | cons d ds ih =>
    rw [addressedAll, List.mem_append, List.mem_map]
    constructor
    · rintro (⟨⟨rest, y⟩, hy, h⟩ | h)
      · obtain ⟨rfl, rfl⟩ := Prod.mk.inj h
        exact ⟨0, rest, d, rfl, rfl, hy⟩
      · obtain ⟨i, rest, e, rfl, he, hx⟩ := ih.1 h
        exact ⟨i + 1, rest, e, by rw [Nat.add_right_comm, Nat.add_assoc], he, hx⟩
    · rintro ⟨_ | i, rest, e, rfl, he, hx⟩
      · exact Or.inl ⟨(rest, x), Option.some.inj he ▸ hx, rfl⟩
      · exact Or.inr (ih.2 ⟨i, rest, e, by rw [Nat.add_right_comm, Nat.add_assoc], he, hx⟩)

/-- The addresses in a list are those that lead to a declaration, if this is so inside its
declarations. -/
theorem mem_addressedAll_iff {ds : List Decl} {address : List Nat} {x : Decl}
    (h : ∀ d ∈ ds, ∀ rest, (rest, x) ∈ d.addressed ↔ d.inside? rest = some x) :
    (address, x) ∈ addressedAll 0 ds ↔ placed? ds address = some x := by
  rw [mem_addressedAll]
  cases address with
  | nil => exact ⟨fun ⟨_, _, _, h, _⟩ => (nomatch h), nofun⟩
  | cons i rest =>
    show _ ↔ ds[i]?.bind (·.inside? rest) = some x
    rw [Option.bind_eq_some_iff]
    constructor
    · rintro ⟨j, rest', d, haddress, hd, hx⟩
      obtain ⟨rfl, rfl⟩ := List.cons.inj haddress
      rw [Nat.zero_add]
      exact ⟨d, hd, (h d (List.mem_of_getElem? hd) rest).1 hx⟩
    · rintro ⟨d, hd, hx⟩
      exact ⟨i, rest, d, by rw [Nat.zero_add], hd, (h d (List.mem_of_getElem? hd) rest).2 hx⟩

theorem mem_addressed {x : Decl} (d : Decl) (address : List Nat) :
    (address, x) ∈ d.addressed ↔ d.inside? address = some x := by
  induction d using of_children generalizing address with
  | step d ih =>
    rw [addressed_eq, List.mem_cons, mem_addressedAll_iff ih]
    cases address with
    | nil =>
      show _ ∨ none = some x ↔ some d = some x
      simp [eq_comm]
    | cons i rest => exact or_iff_right fun h => nomatch (Prod.mk.inj h).1

/-! ## Document order -/

theorem pairwise_addressedAll {n : Nat} {ds : List Decl}
    (h : ∀ d ∈ ds, d.addressed.Pairwise (·.1 < ·.1)) :
    (addressedAll n ds).Pairwise (·.1 < ·.1) := by
  induction ds generalizing n with
  | nil => exact .nil
  | cons d ds ih =>
    obtain ⟨hd, hds⟩ := List.forall_mem_cons.1 h
    refine List.pairwise_append.2 ⟨List.pairwise_map.2 (hd.imp fun hlt => ?_), ih hds, ?_⟩
    · exact List.cons_lt_cons_iff.2 (Or.inr ⟨rfl, hlt⟩)
    · -- the position in the list decides between different declarations of it
      rintro a ha ⟨address, x⟩ hb
      obtain ⟨p, -, rfl⟩ := List.mem_map.1 ha
      obtain ⟨i, rest, e, rfl, -, -⟩ := mem_addressedAll.1 hb
      exact List.cons_lt_cons_iff.2 (Or.inl (by omega))

theorem pairwise_addressed (d : Decl) : d.addressed.Pairwise (·.1 < ·.1) := by
  induction d using of_children with
  | step d ih =>
    rw [addressed_eq]
    refine List.Pairwise.cons ?_ (pairwise_addressedAll ih)
    rintro ⟨address, x⟩ h
    obtain ⟨i, rest, e, rfl, -, -⟩ := mem_addressedAll.1 h
    exact List.nil_lt_cons _ _

/-! ## The walk and the listing -/

theorem map_snd_addressedAll {n : Nat} {ds : List Decl}
    (h : ∀ d ∈ ds, d.addressed.map Prod.snd = d.walk) :
    (addressedAll n ds).map Prod.snd = walkAll ds := by
  induction ds generalizing n with
  | nil => rfl
  | cons d ds ih =>
    obtain ⟨hd, hds⟩ := List.forall_mem_cons.1 h
    rw [addressedAll, List.map_append, List.map_map, walkAll, ih hds, ← hd]
    rfl

theorem map_snd_addressed (d : Decl) : d.addressed.map Prod.snd = d.walk := by
  induction d using of_children with
  | step d ih => rw [addressed_eq, walk_eq, List.map_cons, map_snd_addressedAll ih]

theorem listingAll_eq_map {depth n : Nat} {ds : List Decl} (h : ∀ d ∈ ds, ∀ depth,
      d.listing depth = d.addressed.map fun p => p.2.listingLine (depth + p.1.length)) :
    listingAll (depth + 1) ds =
      (addressedAll n ds).map fun p => p.2.listingLine (depth + p.1.length) := by
  induction ds generalizing n with
  | nil => rfl
  | cons d ds ih =>
    obtain ⟨hd, hds⟩ := List.forall_mem_cons.1 h
    rw [addressedAll, List.map_append, List.map_map, listingAll, ← ih hds, hd]
    refine congrArg (· ++ _) (List.map_congr_left fun p _ => ?_)
    show _ = p.2.listingLine (depth + (p.1.length + 1))
    rw [Nat.add_assoc, Nat.add_comm 1]

/-- So does a listing, and the length of an address is the depth. -/
theorem listing_eq_map (d : Decl) (depth : Nat) : d.listing depth =
    d.addressed.map fun p => p.2.listingLine (depth + p.1.length) := by
  induction d using of_children generalizing depth with
  | step d ih =>
    rw [addressed_eq, listing_eq, List.map_cons, listingAll_eq_map ih]
    rfl

end Decl

namespace SourceFile

def addressed (file : SourceFile) : List (List Nat × Decl) := Decl.addressedAll 0 file.decls

theorem mem_addressed {file : SourceFile} {address : List Nat} {d : Decl} :
    (address, d) ∈ file.addressed ↔ Decl.placed? file.decls address = some d :=
  Decl.mem_addressedAll_iff fun e _ => Decl.mem_addressed e

theorem walkAll_decls (file : SourceFile) :
    Decl.walkAll file.decls = file.addressed.map Prod.snd :=
  (Decl.map_snd_addressedAll fun d _ => d.map_snd_addressed).symm

theorem listingAll_decls (file : SourceFile) : Decl.listingAll 1 file.decls =
    file.addressed.map fun (address, d) => d.listingLine address.length := by
  have hlines : Decl.listingAll (0 + 1) file.decls = _ :=
    Decl.listingAll_eq_map (n := 0) fun d _ => d.listing_eq_map
  rw [Nat.zero_add] at hlines
  rw [hlines]
  refine List.map_congr_left fun p _ => ?_
  rw [Nat.zero_add]

end SourceFile

/-! ## The index -/

namespace DeclIndex

/-- Enters a declaration unless its number is taken. -/
def enter (table : List (DeclId × Decl)) (d : Decl) : List (DeclId × Decl) :=
  if (table.lookup d.id).isSome then table else table ++ [(d.id, d)]

/-- The table of declarations that are entered one after the other. -/
def tableOf (ds : List Decl) : List (DeclId × Decl) := ds.foldl enter []

theorem tableOf_concat (ds : List Decl) (d : Decl) :
    tableOf (ds ++ [d]) = enter (tableOf ds) d := List.foldl_append

variable {index : DeclIndex} {id : DeclId}

theorem get?_eq_some_iff {d : Decl} : index.get? id = some d ↔ ∃ before after,
    index.decls = before ++ d :: after ∧ d.id = id ∧ ∀ e ∈ before, e.id ≠ id := by
  unfold get?
  rw [List.find?_eq_some_iff_append]
  simp only [beq_iff_eq, Bool.not_eq_true', beq_eq_false_iff_ne]
  constructor
  · rintro ⟨hid, before, after, hdecls, hbefore⟩
    exact ⟨before, after, hdecls, hid, hbefore⟩
  · rintro ⟨before, after, hdecls, hid, hbefore⟩
    exact ⟨hid, before, after, hdecls, hbefore⟩

theorem get?_eq_none_iff : index.get? id = none ↔ ∀ d ∈ index.decls, d.id ≠ id := by
  unfold get?
  rw [List.find?_eq_none]
  simp only [beq_iff_eq]

theorem get?_concat (ds : List Decl) (d : Decl) (id : DeclId) : (mk (ds ++ [d])).get? id =
    ((mk ds).get? id).or (if d.id = id then some d else none) := by
  have hlast : [d].find? (·.id == id) = if d.id = id then some d else none := by
    by_cases h : d.id = id
    · rw [if_pos h, List.find?_cons_of_pos (by simpa using h)]
    · rw [if_neg h, List.find?_cons_of_neg (by simpa using h)]
      rfl
  rw [← hlast]
  exact List.find?_append

theorem lookup_enter (table : List (DeclId × Decl)) (d : Decl) (id : DeclId) :
    (enter table d).lookup id = (table.lookup id).or (if d.id = id then some d else none) := by
  have hlast : [(d.id, d)].lookup id = if d.id = id then some d else none := by
    by_cases h : d.id = id
    · rw [if_pos h, h]
      exact List.lookup_cons_self
    · rw [if_neg h, List.lookup_cons, beq_false_of_ne (Ne.symm h)]
      rfl
  unfold enter
  split
  · next htaken =>
    by_cases h : d.id = id
    · obtain ⟨e, he⟩ := Option.isSome_iff_exists.1 htaken
      rw [h] at he
      rw [he]
      rfl
    · rw [if_neg h, Option.or_none]
  · rw [List.lookup_append, hlast]

theorem lookup_tableOf (ds : List Decl) (id : DeclId) :
    (tableOf ds).lookup id = (mk ds).get? id := by
  induction ds using List.reverseRecOn with
  | nil => rfl
  | append_singleton ds d ih => rw [tableOf_concat, lookup_enter, get?_concat, ih]

/-- The numbers of a table are those of the declarations, each once. -/
theorem map_fst_tableOf (ds : List Decl) : (tableOf ds).map Prod.fst = (mk ds).ids := by
  induction ds using List.reverseRecOn with
  | nil => rfl
  | append_singleton ds d ih =>
    have hids : (mk (ds ++ [d])).ids =
        if d.id ∈ ds.map Decl.id then (mk ds).ids else (mk ds).ids ++ [d.id] := by
      show ((ds ++ [d]).map Decl.id).eraseDups = _
      rw [List.map_append]
      exact eraseDups_concat _ _
    have htaken : ((tableOf ds).lookup d.id).isSome ↔ d.id ∈ ds.map Decl.id := by
      rw [lookup_tableOf, Option.isSome_iff_ne_none, ne_eq, get?_eq_none_iff]
      simp [eq_comm]
    rw [tableOf_concat, hids, ← ih]
    unfold enter
    by_cases h : d.id ∈ ds.map Decl.id
    · rw [if_pos h, if_pos (htaken.2 h)]
    · rw [if_neg h, if_neg (mt htaken.1 h), List.map_append]
      rfl

theorem size_eq_card (index : DeclIndex) : index.size = (index.decls.map Decl.id).toFinset.card :=
  length_eraseDups _

end DeclIndex

/-- The listing of a unit and the walk over it go through the same declarations in document order,
and its index has the first declaration of each number.  The line of a declaration has its kind,
name, number and location, two spaces deep for each level. -/
theorem TranslationUnit.traversals (unit : TranslationUnit) :
    (∀ file : SourceFile, file.addressed.Pairwise (·.1 < ·.1) ∧
      ∀ address d, (address, d) ∈ file.addressed ↔ Decl.placed? file.decls address = some d) ∧
    unit.walk = unit.files.flatMap (fun file => file.addressed.map Prod.snd) ∧
    unit.listing = String.join ((unit.files.flatMap fun file =>
      file.path :: file.addressed.map fun (address, d) =>
        String.ofList (List.replicate (2 * address.length) ' ') ++ d.kindLabel ++ " " ++
          d.head.name.getD "<anonymous>" ++ " #" ++ toString d.id ++ " @ " ++
          d.head.loc.text).map (· ++ "\n")) ∧
    (∀ id d, (DeclIndex.ofUnit unit).get? id = some d ↔ ∃ before after,
      unit.walk = before ++ d :: after ∧ d.id = id ∧ ∀ e ∈ before, e.id ≠ id) ∧
    (∀ id, (DeclIndex.ofUnit unit).get? id = none ↔ ∀ d ∈ unit.walk, d.id ≠ id) ∧
    (∀ id, (DeclIndex.ofUnit unit).get? id = (DeclIndex.tableOf unit.walk).lookup id) ∧
    (DeclIndex.ofUnit unit).size = (DeclIndex.tableOf unit.walk).length ∧
    (DeclIndex.ofUnit unit).size = (unit.walk.map Decl.id).toFinset.card := by
  refine ⟨fun file => ⟨Decl.pairwise_addressedAll fun d _ => d.pairwise_addressed,
      fun _ _ => SourceFile.mem_addressed⟩, ?_, ?_, fun _ _ => DeclIndex.get?_eq_some_iff,
    fun _ => DeclIndex.get?_eq_none_iff, fun id => (DeclIndex.lookup_tableOf unit.walk id).symm, ?_,
    DeclIndex.size_eq_card _⟩
  · exact congrArg unit.files.flatMap (funext SourceFile.walkAll_decls)
  · have hfile : ∀ file : SourceFile, file.path :: Decl.listingAll 1 file.decls = _ :=
      fun file => congrArg (file.path :: ·) file.listingAll_decls
    unfold listing listingLines
    rw [funext hfile]
    rfl
  · have hids := congrArg List.length (DeclIndex.map_fst_tableOf unit.walk)
    rw [List.length_map] at hids
    exact hids.symm

/-- All kinds of declarations, on three levels, and a number that is used again in another file. -/
def nestedUnit : TranslationUnit :=
  ⟨[⟨"in/shape.h", [
      .macroDef { id := 1, name := some "SIDES", loc := ⟨some "in/shape.h", 1, 9⟩ } {},
      .space { id := 2, name := some "geo", loc := ⟨some "in/shape.h", 3, 1⟩ } [
        .record { id := 3, name := some "Shape", loc := ⟨some "in/shape.h", 4, 3⟩ }
          { tag := .struct }
          [.enumeration { id := 4, loc := ⟨some "in/shape.h", 5, 5⟩ } ⟨.int, []⟩,
            .typedef { id := 5, name := some "Side" } .int]
          [.function { id := 6, name := some "area", loc := ⟨some "in/shape.h", 7, 5⟩ }
            { returnType := .int }]],
      .var { id := 7, name := some "unit", loc := ⟨some "in/shape.h", 9, 1⟩ } { ty := .int }]⟩,
    ⟨"in/area.h", [
      .function { id := 3, name := some "area", loc := ⟨some "in/area.h", 2, 1⟩ }
        { returnType := .int }]⟩]⟩

theorem nestedUnit_listing :
    nestedUnit.listing =
      "in/shape.h\n" ++
      "  macro SIDES #1 @ in/shape.h:1:9\n" ++
      "  namespace geo #2 @ in/shape.h:3:1\n" ++
      "    record Shape #3 @ in/shape.h:4:3\n" ++
      "      enum <anonymous> #4 @ in/shape.h:5:5\n" ++
      "      typedef Side #5 @ <invalid loc>\n" ++
      "      function area #6 @ in/shape.h:7:5\n" ++
      "  variable unit #7 @ in/shape.h:9:1\n" ++
      "in/area.h\n" ++
      "  function area #3 @ in/area.h:2:1\n" ∧
    nestedUnit.walk.map Decl.id = [1, 2, 3, 4, 5, 6, 7, 3] ∧
    ((DeclIndex.ofUnit nestedUnit).get? 3).bind (·.head.name) = some "Shape" ∧
    (DeclIndex.ofUnit nestedUnit).size = 7 ∧
    nestedUnit.walk = nestedUnit.files.flatMap (fun file => file.addressed.map Prod.snd) :=
  ⟨by decide +kernel, by decide +kernel, by decide +kernel, by decide +kernel,
    nestedUnit.traversals.2.1⟩

end DBindings
