import DBindings.Emit.State
import DBindings.Proofs.Writing.Code

/-!
# Code with the bodies of records in it

A piece of code is a list of strokes, the code of a declaration, or the body of a record with pieces
inside.  Pieces are written in one pass that knows which records are asked for the mixin, or in one
that knows some of them and is followed by insertions at the places that it has left behind.

* `Piece.render`          the text of a piece, with the mixin as the last line of some bodies;
* `Piece.requests`        the requests that the code of a piece raises;
* `Piece.places`          where the closing braces stand in the text;
* `Piece.insert_places`   insertions, from the last place to the first, add the lines that a single
                          pass would have written.
-/

namespace DBindings
open Stroke

/-- A part of the code of a module. -/
inductive Piece where
  | plain (ss : List Stroke)
  /-- printed code, with what it requests -/
  | code (b : Block)
  /-- a record with a body -/
  | body (record : DeclId) (isStruct : Bool) (header : Printed) (members : List Piece)

namespace Piece
open EmitState (mixinLine insertMixin)

/-- The first lines of a body. -/
def opening (n : Nat) (header : Printed) : String := lineCode n header.text ++ lineCode n "\x7b"

/-- The mixin as a line at a level, or nothing. -/
def mixinCode (written : Bool) (n : Nat) : String := if written then lineCode n mixinLine else ""

mutual

/-- The text of a piece at a level.  A struct that is asked for has the mixin as its last line. -/
def render (asked : DeclId → Bool) (n : Nat) : Piece → String
  | plain ss => codeAll n ss
  | code b => codeAll n (b.lines.map .line)
  | body record isStruct header members =>
    opening n header ++ renderAll asked (n + 1) members ++
      mixinCode (isStruct && asked record) (n + 1) ++ lineCode n "\x7d"

def renderAll (asked : DeclId → Bool) (n : Nat) : List Piece → String
  | [] => ""
  | p :: ps => render asked n p ++ renderAll asked n ps

end

mutual

def requests : Piece → List Request
  | plain _ => []
  | code b => b.requests
  | body _ _ header members => header.requests ++ requestsAll members

def requestsAll : List Piece → List Request
  | [] => []
  | p :: ps => requests p ++ requestsAll ps

end

mutual

/-- The records with a body in the order in which they are closed; true for structs. -/
def bodies : Piece → List (DeclId × Bool)
  | plain _ | code _ => []
  | body record isStruct _ members => bodiesAll members ++ [(record, isStruct)]

def bodiesAll : List Piece → List (DeclId × Bool)
  | [] => []
  | p :: ps => bodies p ++ bodiesAll ps

end

mutual

/-- The closing braces of a piece that is written from a level and an offset on. -/
def places (asked : DeclId → Bool) (n start : Nat) : Piece → List ClosedRecord
  | plain _ | code _ => []
  | body record isStruct header members =>
    placesAll asked (n + 1) (start + (opening n header).utf8ByteSize) members ++
      [⟨record, start + (opening n header ++ renderAll asked (n + 1) members ++
        mixinCode (isStruct && asked record) (n + 1)).utf8ByteSize, n + 1, isStruct⟩]

def placesAll (asked : DeclId → Bool) (n start : Nat) : List Piece → List ClosedRecord
  | [] => []
  | p :: ps =>
    places asked n start p ++ placesAll asked n (start + (render asked n p).utf8ByteSize) ps

end

/-! ## Lists of pieces -/

theorem renderAll_append (asked : DeclId → Bool) (n : Nat) (ps qs : List Piece) :
    renderAll asked n (ps ++ qs) = renderAll asked n ps ++ renderAll asked n qs := by
  induction ps with
  | nil => exact String.empty_append.symm
  | cons p ps ih => rw [List.cons_append, renderAll, renderAll, ih, String.append_assoc]

theorem requestsAll_append (ps qs : List Piece) :
    requestsAll (ps ++ qs) = requestsAll ps ++ requestsAll qs := by
  induction ps with
  | nil => rfl
  | cons p ps ih => rw [List.cons_append, requestsAll, requestsAll, ih, List.append_assoc]

theorem bodiesAll_append (ps qs : List Piece) :
    bodiesAll (ps ++ qs) = bodiesAll ps ++ bodiesAll qs := by
  induction ps with
  | nil => rfl
  | cons p ps ih => rw [List.cons_append, bodiesAll, bodiesAll, ih, List.append_assoc]

theorem placesAll_append (asked : DeclId → Bool) (n start : Nat) (ps qs : List Piece) :
    placesAll asked n start (ps ++ qs) = placesAll asked n start ps ++
      placesAll asked n (start + (renderAll asked n ps).utf8ByteSize) qs := by
  induction ps generalizing start with
  | nil => rfl
  | cons p ps ih =>
    rw [List.cons_append, placesAll, placesAll, ih, List.append_assoc, renderAll,
      String.utf8ByteSize_append, Nat.add_assoc]

mutual

theorem map_places (asked : DeclId → Bool) (n start : Nat) :
    (p : Piece) → (places asked n start p).map (fun c => (c.record, c.isStruct)) = bodies p
  | plain _ | code _ => rfl
  | body _ _ _ members => by
    rw [places, List.map_append, map_placesAll asked _ _ members]
    rfl

theorem map_placesAll (asked : DeclId → Bool) (n start : Nat) :
    (ps : List Piece) →
      (placesAll asked n start ps).map (fun c => (c.record, c.isStruct)) = bodiesAll ps
  | [] => rfl
  | p :: ps => by
    rw [placesAll, List.map_append, map_places asked n start p, map_placesAll asked n _ ps]
    rfl

end

/-! ## What the text depends on -/

section
variable {asked asked' : DeclId → Bool}

mutual

theorem render_congr (n : Nat) : (p : Piece) →
    (∀ id, (id, true) ∈ bodies p → asked id = asked' id) → render asked n p = render asked' n p
  | plain _, _ | code _, _ => rfl
  | body record isStruct header members, h => by
    have hrec : (isStruct && asked record) = (isStruct && asked' record) := by
      cases isStruct with
      | false => rfl
      | true => rw [h record (List.mem_append_right _ List.mem_cons_self)]
    rw [render, render, hrec,
      renderAll_congr (n + 1) members fun id hid => h id (List.mem_append_left _ hid)]

theorem renderAll_congr (n : Nat) : (ps : List Piece) →
    (∀ id, (id, true) ∈ bodiesAll ps → asked id = asked' id) →
      renderAll asked n ps = renderAll asked' n ps
  | [], _ => rfl
  | p :: ps, h => by
    rw [renderAll, renderAll, render_congr n p fun id hid => h id (List.mem_append_left _ hid),
      renderAll_congr n ps fun id hid => h id (List.mem_append_right _ hid)]

end

mutual

theorem places_congr (n start : Nat) : (p : Piece) →
    (∀ id, (id, true) ∈ bodies p → asked id = asked' id) →
      places asked n start p = places asked' n start p
  | plain _, _ | code _, _ => rfl
  | body record isStruct header members, h => by
    have hrec : (isStruct && asked record) = (isStruct && asked' record) := by
      cases isStruct with
      | false => rfl
      | true => rw [h record (List.mem_append_right _ List.mem_cons_self)]
    have hm : ∀ id, (id, true) ∈ bodiesAll members → asked id = asked' id :=
      fun id hid => h id (List.mem_append_left _ hid)
    rw [places, places, hrec, renderAll_congr (n + 1) members hm,
      placesAll_congr (n + 1) _ members hm]

theorem placesAll_congr (n start : Nat) : (ps : List Piece) →
    (∀ id, (id, true) ∈ bodiesAll ps → asked id = asked' id) →
      placesAll asked n start ps = placesAll asked' n start ps
  | [], _ => rfl
  | p :: ps, h => by
    have hp : ∀ id, (id, true) ∈ bodies p → asked id = asked' id :=
      fun id hid => h id (List.mem_append_left _ hid)
    rw [placesAll, placesAll, places_congr n start p hp, render_congr n p hp,
      placesAll_congr n _ ps fun id hid => h id (List.mem_append_right _ hid)]

end

end

/-! ## The order of the places -/

section
variable (asked : DeclId → Bool)

mutual

theorem places_bounds (n start : Nat) : (p : Piece) → ∀ c ∈ places asked n start p,
    start ≤ c.offset ∧ c.offset < start + (render asked n p).utf8ByteSize
  | plain _, _, h | code _, _, h => absurd h List.not_mem_nil
  | body record isStruct header members, c, h => by
    have hpos := utf8ByteSize_lineCode_pos n "\x7d"
    rw [render]
    simp only [String.utf8ByteSize_append]
    rw [places] at h
    rcases List.mem_append.1 h with h | h
    · have := placesAll_bounds (n + 1) _ members c h
      omega
    · rw [List.mem_singleton.1 h]
      simp only [String.utf8ByteSize_append]
      omega

theorem placesAll_bounds (n start : Nat) : (ps : List Piece) → ∀ c ∈ placesAll asked n start ps,
    start ≤ c.offset ∧ c.offset < start + (renderAll asked n ps).utf8ByteSize
  | [], _, h => absurd h List.not_mem_nil
  | p :: ps, c, h => by
    rw [renderAll, String.utf8ByteSize_append]
    rw [placesAll] at h
    rcases List.mem_append.1 h with h | h
    · have := places_bounds n start p c h
      omega
    · have := placesAll_bounds n _ ps c h
      omega

end

mutual

theorem places_ascending (n start : Nat) :
    (p : Piece) → (places asked n start p).Pairwise (·.offset < ·.offset)
  | plain _ | code _ => List.Pairwise.nil
  | body record isStruct header members => by
    rw [places]
    refine List.pairwise_append.2
      ⟨placesAll_ascending (n + 1) _ members, List.pairwise_singleton _ _, ?_⟩
    intro c hc d hd
    have := placesAll_bounds asked (n + 1) _ members c hc
    rw [List.mem_singleton.1 hd]
    simp only [String.utf8ByteSize_append]
    omega

theorem placesAll_ascending (n start : Nat) :
    (ps : List Piece) → (placesAll asked n start ps).Pairwise (·.offset < ·.offset)
  | [] => List.Pairwise.nil
  | p :: ps => by
    rw [placesAll]
    refine List.pairwise_append.2 ⟨places_ascending n start p, placesAll_ascending n _ ps, ?_⟩
    intro c hc d hd
    have h1 := places_bounds asked n start p c hc
    have h2 := placesAll_bounds asked n _ ps d hd
    omega

end

end

/-! ## Insertions at the places -/

theorem insertMixin_append (a b : String) (k : Nat) (c : ClosedRecord)
    (h : c.offset = a.utf8ByteSize) :
    insertMixin ⟨a ++ b, k⟩ c = ⟨a ++ lineCode c.level mixinLine ++ b, k⟩ := by
  have hline : indentation c.level ++ mixinLine ++ "\n" = lineCode c.level mixinLine :=
    (if_neg (by decide)).symm
  unfold insertMixin
  rw [hline, h, CodeWriter.insert_append]

section
variable (asked late : DeclId → Bool)

/-- The place of a struct that is asked for late and was not known to be. -/
def isDue (c : ClosedRecord) : Bool := c.isStruct && late c.record && !asked c.record

private theorem asked_of_not_due : (isStruct asked late : Bool) →
    (isStruct && late && !asked) = false → (isStruct && (asked || late)) = (isStruct && asked) := by
  decide

mutual

theorem insert_places (n k : Nat) (a b : String) : (p : Piece) →
    ((places asked n a.utf8ByteSize p).filter (isDue asked late)).reverse.foldl insertMixin
        ⟨a ++ render asked n p ++ b, k⟩
      = ⟨a ++ render (fun id => asked id || late id) n p ++ b, k⟩
  | plain _ | code _ => rfl
  | body record isStruct header members => by
    have hoffset : (a ++ opening n header).utf8ByteSize
        = a.utf8ByteSize + (opening n header).utf8ByteSize := String.utf8ByteSize_append
    have hmembers := fun b => insert_placesAll (n + 1) k (a ++ opening n header) b members
    rw [hoffset] at hmembers
    rw [places, List.filter_append, List.reverse_append, List.foldl_append, render, render]
    cases hdue : isDue asked late ⟨record, a.utf8ByteSize + (opening n header ++
        renderAll asked (n + 1) members ++
        mixinCode (isStruct && asked record) (n + 1)).utf8ByteSize, n + 1, isStruct⟩ with
    | false =>
      have hsame := asked_of_not_due isStruct (asked record) (late record) hdue
      rw [List.filter_cons_of_neg (by rw [hdue]; decide), hsame]
      simpa only [List.filter_nil, List.reverse_nil, List.foldl_nil, String.append_assoc] using
        hmembers (mixinCode (isStruct && asked record) (n + 1) ++ lineCode n "\x7d" ++ b)
    | true =>
      obtain ⟨⟨rfl, hlate⟩, hasked⟩ : (isStruct = true ∧ late record = true) ∧
          asked record = false := by simpa [isDue] using hdue
      rw [List.filter_cons_of_pos hdue, hasked, hlate]
      simp only [List.filter_nil, List.reverse_cons, List.reverse_nil, List.nil_append,
        List.foldl_cons, List.foldl_nil, Bool.and_false, Bool.false_or, Bool.and_true, mixinCode,
        Bool.false_eq_true, if_false, if_true, String.append_empty]
      have hinsert := insertMixin_append
        (a ++ opening n header ++ renderAll asked (n + 1) members) (lineCode n "\x7d" ++ b) k
        ⟨record, a.utf8ByteSize + (opening n header ++
          renderAll asked (n + 1) members).utf8ByteSize, n + 1, true⟩
        (by simp only [String.utf8ByteSize_append]; omega)
      simp only [String.append_assoc] at hinsert ⊢
      rw [hinsert]
      simpa only [String.append_assoc] using
        hmembers (lineCode (n + 1) mixinLine ++ (lineCode n "\x7d" ++ b))

/-- Insertions from the last place to the first. -/
theorem insert_placesAll (n k : Nat) (a b : String) : (ps : List Piece) →
    ((placesAll asked n a.utf8ByteSize ps).filter (isDue asked late)).reverse.foldl insertMixin
        ⟨a ++ renderAll asked n ps ++ b, k⟩
      = ⟨a ++ renderAll (fun id => asked id || late id) n ps ++ b, k⟩
  | [] => rfl
  | p :: ps => by
    have hps := insert_placesAll n k (a ++ render asked n p) b ps
    have hp := insert_places n k a (renderAll (fun id => asked id || late id) n ps ++ b) p
    rw [String.utf8ByteSize_append] at hps
    rw [placesAll, List.filter_append, List.reverse_append, List.foldl_append, renderAll,
      renderAll]
    simp only [String.append_assoc] at hps hp ⊢
    rw [hps, hp]

end

end

end Piece

end DBindings
