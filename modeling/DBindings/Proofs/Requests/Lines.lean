import DBindings.Proofs.Bodies.Comments
import DBindings.Proofs.Requests.Written

/-!
# The lines of the mixin

Each stroke of a module stands by itself, in the body of a record or outside records, or it is part
of the code of a declaration.  The strokes that stand by themselves are the mixin just where a
struct is asked for it.  In the code of a member, a line that reads like the mixin is in the body of
a method.

* `Piece.strokes`               the strokes of a piece, each with its origin;
* `Piece.codeAll_strokesAll`    their text is that of the pieces;
* `Piece.mixins_strokesAll`     the bodies in which the mixin stands;
* `Piece.without_strokesAll`    what is left without the mixin;
* `EmitEnv.Prints.statement`    lines of methods that read like the mixin.
-/

namespace DBindings
open Stroke Text
open EmitState (mixinLine)

namespace Piece

/-- What a stroke belongs to. -/
inductive Origin where
  /-- the body of a record, or a place outside records -/
  | own (record : Option DeclId)
  | declaration

mutual

/-- The strokes of a piece.  A struct that is asked for has the mixin in front of its brace. -/
def strokes (asked : DeclId → Bool) (owner : Option DeclId) : Piece → List (Origin × Stroke)
  | plain ss => ss.map fun s => (.own owner, s)
  | code b => b.lines.map fun t => (.declaration, .line t)
  | body record isStruct header members =>
    (RecordDecl.openingStrokes header.text).map (fun s => (.own owner, s)) ++
      strokesAll asked (some record) members ++
      (if isStruct && asked record then [(.own (some record), .line mixinLine)] else []) ++
      [(.own owner, .dedent), (.own owner, .line "\x7d")]

def strokesAll (asked : DeclId → Bool) (owner : Option DeclId) :
    List Piece → List (Origin × Stroke)
  | [] => []
  | p :: ps => strokes asked owner p ++ strokesAll asked owner ps

end

/-- Where a stroke stands by itself, if it is the mixin. -/
def mixin? : Origin × Stroke → Option (Option DeclId)
  | (.own record, .line s) => if s = mixinLine then some record else none
  | _ => none

/-- The bodies in which strokes are the mixin. -/
def mixins (l : List (Origin × Stroke)) : List (Option DeclId) := l.filterMap mixin?

/-- The strokes that are not the mixin. -/
def without (l : List (Origin × Stroke)) : List (Origin × Stroke) :=
  l.filter fun x => (mixin? x).isNone

theorem mixins_append (a b : List (Origin × Stroke)) : mixins (a ++ b) = mixins a ++ mixins b :=
  List.filterMap_append

theorem without_append (a b : List (Origin × Stroke)) :
    without (a ++ b) = without a ++ without b := List.filter_append _ _

/-! ## The text of the strokes -/

theorem levelAll_mixin (n : Nat) (record : DeclId) (b : Bool) :
    levelAll n (List.map Prod.snd
      (if b then [(Origin.own (some record), Stroke.line mixinLine)] else [])) = n := by
  split <;> rfl

section
variable {env : EmitEnv} (asked : DeclId → Bool)

mutual

theorem levelAll_strokes (n : Nat) (owner : Option DeclId) {scope : Option RecordDecl} :
    (p : Piece) → Sound env scope p → levelAll n ((strokes asked owner p).map Prod.snd) = n
  | plain ss, h => by
    rw [strokes, List.map_map]
    show levelAll n (ss.map id) = n
    rw [List.map_id]
    exact h.balanced n
  | code b, _ => by
    rw [strokes, List.map_map]
    exact balanced_lines b.lines n
  | body record isStruct header members, ⟨r, _, hs⟩ => by
    rw [strokes]
    simp only [List.map_append, levelAll_append]
    show levelAll (levelAll (levelAll (n + 1) _) _) _ = n
    rw [levelAll_strokesAll (n + 1) (some record) members hs, levelAll_mixin]
    rfl

theorem levelAll_strokesAll (n : Nat) (owner : Option DeclId) {scope : Option RecordDecl} :
    (ps : List Piece) → SoundAll env scope ps →
      levelAll n ((strokesAll asked owner ps).map Prod.snd) = n
  | [], _ => rfl
  | p :: ps, h => by
    rw [strokesAll, List.map_append, levelAll_append, levelAll_strokes n owner p h.1,
      levelAll_strokesAll n owner ps h.2]

end

mutual

theorem codeAll_strokes (n : Nat) (owner : Option DeclId) {scope : Option RecordDecl} :
    (p : Piece) → Sound env scope p →
      codeAll n ((strokes asked owner p).map Prod.snd) = render asked n p
  | plain ss, _ => by
    rw [strokes, List.map_map]
    show codeAll n (ss.map id) = codeAll n ss
    rw [List.map_id]
  | code b, _ => by
    rw [strokes, List.map_map]
    rfl
  | body record isStruct header members, ⟨r, _, hs⟩ => by
    have hmixin : codeAll (n + 1) (List.map Prod.snd (if isStruct && asked record then
        [(Origin.own (some record), Stroke.line mixinLine)] else [])) =
          mixinCode (isStruct && asked record) (n + 1) := by
      unfold mixinCode
      split
      · exact String.append_empty
      · rfl
    have hopening : codeAll n ((RecordDecl.openingStrokes header.text).map id) =
        opening n header := by
      show lineCode n header.text ++ (lineCode n "\x7b" ++ ("" ++ "")) = _
      rw [String.empty_append, String.append_empty]
      rfl
    have hclosing : codeAll (n + 1) [.dedent, .line "\x7d"] = lineCode n "\x7d" := by
      show "" ++ (lineCode n "\x7d" ++ "") = _
      rw [String.empty_append, String.append_empty]
    rw [strokes, render]
    simp only [List.map_append, codeAll_append, levelAll_append, List.map_map]
    rw [show (Prod.snd ∘ fun s => (Origin.own owner, s)) = id from rfl, hopening]
    show _ ++ codeAll (n + 1) _ ++ codeAll (levelAll (n + 1) _) _ ++
      codeAll (levelAll (levelAll (n + 1) _) _) [.dedent, .line "\x7d"] = _
    rw [codeAll_strokesAll (n + 1) (some record) members hs,
      levelAll_strokesAll asked (n + 1) (some record) members hs, hmixin, levelAll_mixin,
      hclosing]

theorem codeAll_strokesAll (n : Nat) (owner : Option DeclId) {scope : Option RecordDecl} :
    (ps : List Piece) → SoundAll env scope ps →
      codeAll n ((strokesAll asked owner ps).map Prod.snd) = renderAll asked n ps
  | [], _ => rfl
  | p :: ps, h => by
    rw [strokesAll, List.map_append, codeAll_append, codeAll_strokes n owner p h.1,
      levelAll_strokes asked n owner p h.1, codeAll_strokesAll n owner ps h.2, renderAll]

end

/-! ## The mixins among the strokes -/

theorem mixin?_of_unmixed {s : Stroke} (h : s.Unmixed) (origin : Origin) :
    mixin? (origin, s) = none := by
  cases origin with
  | declaration => rfl
  | own record =>
    cases s with
    | line s => exact if_neg h
    | raw s => exact h.elim
    | indent => rfl
    | dedent => rfl

theorem header_ne_mixinLine {r : RecordDecl} {record : DeclId} {isStruct : Bool} {header : Printed}
    (h : IsBody env r record isStruct header) : header.text ≠ mixinLine := by
  have hkeyword : ∀ shape : RecordShape, ∃ c ∈ shape.keyword.toList, c ∉ mixinLine.toList := by
    intro shape
    cases shape with
    | union => exact ⟨'o', by decide, by decide⟩
    | _ => exact ⟨'s', by decide, by decide⟩
  obtain ⟨c, hmem, hc⟩ := hkeyword (.choose r.info.tag (env.index.isPolymorphic r))
  refine ne_mixinLine (c := c) ?_ hc
  rw [← h.header]
  simp [RecordDecl.header, hmem]

theorem mixin?_opening {header : Printed} (h : header.text ≠ mixinLine) (owner : Option DeclId) :
    ∀ x ∈ (RecordDecl.openingStrokes header.text).map fun s => (Origin.own owner, s),
      mixin? x = none := by
  refine List.forall_mem_map.2 fun s hs => mixin?_of_unmixed ?_ _
  simp only [RecordDecl.openingStrokes, List.mem_cons, List.not_mem_nil, or_false] at hs
  rcases hs with rfl | rfl | rfl
  · exact h
  · exact (by decide : "\x7b" ≠ mixinLine)
  · trivial

theorem mixins_eq_nil {l : List (Origin × Stroke)} (h : ∀ x ∈ l, mixin? x = none) :
    mixins l = [] := List.filterMap_eq_nil_iff.2 h

theorem without_eq_self {l : List (Origin × Stroke)} (h : ∀ x ∈ l, mixin? x = none) :
    without l = l := List.filter_eq_self.2 fun x hx => by rw [h x hx]; rfl

theorem mixin?_plain {ss : List Stroke} (h : Inert ss) (owner : Option DeclId) :
    ∀ x ∈ ss.map fun s => (Origin.own owner, s), mixin? x = none :=
  List.forall_mem_map.2 fun s hs => mixin?_of_unmixed (h.unmixed s hs) _

theorem mixin?_code (b : Block) :
    ∀ x ∈ b.lines.map fun t => (Origin.declaration, Stroke.line t), mixin? x = none :=
  List.forall_mem_map.2 fun _ _ => rfl

theorem mixin?_closing (owner : Option DeclId) :
    ∀ x ∈ [(Origin.own owner, Stroke.dedent), (.own owner, .line "\x7d")], mixin? x = none := by
  intro x hx
  simp only [List.mem_cons, List.not_mem_nil, or_false] at hx
  rcases hx with rfl | rfl
  · rfl
  · show (if "\x7d" = mixinLine then some owner else none) = none
    exact if_neg (by decide)

mutual

theorem mixins_strokes (owner : Option DeclId) {scope : Option RecordDecl} :
    (p : Piece) → Sound env scope p →
      mixins (strokes asked owner p) =
        ((bodies p).filter fun b => b.2 && asked b.1).map fun b => some b.1
  | plain ss, h => mixins_eq_nil (mixin?_plain h owner)
  | code b, _ => mixins_eq_nil (mixin?_code b)
  | body record isStruct header members, ⟨r, hb, hs⟩ => by
    have hown : mixins (if isStruct && asked record then
        [(Origin.own (some record), Stroke.line mixinLine)] else []) =
          (([(record, isStruct)] : List (DeclId × Bool)).filter fun b => b.2 && asked b.1).map
            fun b => some b.1 := by
      rw [List.filter_cons]
      split
      · rfl
      · rfl
    rw [strokes, mixins_append, mixins_append, mixins_append,
      mixins_eq_nil (mixin?_opening (header_ne_mixinLine hb) owner),
      mixins_strokesAll (some record) members hs, hown, mixins_eq_nil (mixin?_closing owner),
      List.nil_append, List.append_nil, bodies, List.filter_append, List.map_append]

/-- The mixin stands once in the body of each struct that is asked for, and nowhere else. -/
theorem mixins_strokesAll (owner : Option DeclId) {scope : Option RecordDecl} :
    (ps : List Piece) → SoundAll env scope ps →
      mixins (strokesAll asked owner ps) =
        ((bodiesAll ps).filter fun b => b.2 && asked b.1).map fun b => some b.1
  | [], _ => rfl
  | p :: ps, h => by
    rw [strokesAll, mixins_append, mixins_strokes owner p h.1, mixins_strokesAll owner ps h.2,
      bodiesAll, List.filter_append, List.map_append]

end

mutual

theorem without_strokes (owner : Option DeclId) {scope : Option RecordDecl} :
    (p : Piece) → Sound env scope p →
      without (strokes asked owner p) = strokes (fun _ => false) owner p
  | plain ss, h => without_eq_self (mixin?_plain h owner)
  | code b, _ => without_eq_self (mixin?_code b)
  | body record isStruct header members, ⟨r, hb, hs⟩ => by
    have hown : without (if isStruct && asked record then
        [(Origin.own (some record), Stroke.line mixinLine)] else []) = [] := by
      split
      · rfl
      · rfl
    rw [strokes, without_append, without_append, without_append,
      without_eq_self (mixin?_opening (header_ne_mixinLine hb) owner),
      without_strokesAll (some record) members hs, hown, without_eq_self (mixin?_closing owner),
      strokes, Bool.and_false, if_neg Bool.false_ne_true]

theorem without_strokesAll (owner : Option DeclId) {scope : Option RecordDecl} :
    (ps : List Piece) → SoundAll env scope ps →
      without (strokesAll asked owner ps) = strokesAll (fun _ => false) owner ps
  | [], _ => rfl
  | p :: ps, h => by
    rw [strokesAll, without_append, without_strokes owner p h.1, without_strokesAll owner ps h.2,
      strokesAll]

end

end

end Piece

/-! ## The code of members -/

theorem starts_bodyLine (line : String) : ['m'].isPrefixOf (bodyLine false line).toList =
    ['m'].isPrefixOf line.toList := by
  show ['m'].isPrefixOf (dottedArrows (dotted line)).toList = _
  unfold dottedArrows dotted
  rw [String.toList_ofList, String.toList_ofList,
    isPrefixOf_replacePair (by decide) (by decide), isPrefixOf_replacePair (by decide) (by decide)]

/-- A line of a definition that reads like the mixin is one of the body. -/
theorem statement_of_definition {cx : PrintContext} {signature : String} {body : Option Stmt}
    {initializers : List String} {commentOut : Bool} (hsignature : '(' ∈ signature.toList)
    (h : mixinLine ∈ (definition cx signature body initializers commentOut).lines) :
    ∃ b, body = some b ∧ ∃ line ∈ lines (b.print cx).text, bodyLine false line = mixinLine := by
  have hnot : signature ≠ mixinLine ∧ signature ++ ";" ≠ mixinLine :=
    ⟨ne_mixinLine hsignature (by decide),
      ne_mixinLine (by simp [hsignature] : '(' ∈ (signature ++ ";").toList) (by decide)⟩
  have hbody : ∀ text : Option String,
      mixinLine ∈ (bodyLines initializers text).map (bodyLine commentOut) →
        ∃ t ∈ text, ∃ line ∈ lines t, bodyLine false line = mixinLine := by
    intro text hmem
    obtain ⟨line, hline, heq⟩ := List.mem_map.1 hmem
    cases commentOut with
    | true =>
      have hslash : '/' ∈ (bodyLine true line).toList := by simp [bodyLine]
      exact absurd heq (ne_mixinLine hslash (by decide))
    | false =>
      have hstarts : ['m'].isPrefixOf line.toList = true := by
        rw [← starts_bodyLine, heq]
        decide
      have hline : ∃ t ∈ text, line ∈ lines t := by
        refine forall_mem_bodyLines (P := fun line => ['m'].isPrefixOf line.toList = true →
          ∃ t ∈ text, line ∈ lines t) (fun rest hrest => ?_) (absurd · (by decide))
          (absurd · (by decide)) initializers (fun t ht line hline _ => ⟨t, ht, hline⟩) line hline
          hstarts
        rw [String.toList_append] at hrest
        exact absurd hrest Bool.false_ne_true
      obtain ⟨t, ht, hline⟩ := hline
      exact ⟨t, ht, line, hline, heq⟩
  unfold definition at h
  dsimp only at h
  split at h
  · exact absurd (List.mem_singleton.1 h).symm hnot.2
  · next b =>
    split at h
    · split at h
      · exact absurd (List.mem_singleton.1 h).symm hnot.2
      · rcases List.mem_cons.1 h with h | h
        · exact absurd h.symm hnot.1
        · obtain ⟨t, ht, _⟩ := hbody none h
          exact absurd ht (Option.not_mem_none t)
    · rcases List.mem_cons.1 h with h | h
      · exact absurd h.symm hnot.1
      · obtain ⟨t, ht, hline⟩ := hbody _ h
        exact ⟨b, rfl, Option.some.inj ht ▸ hline⟩

namespace RecordDecl
variable {env : EmitEnv} {r : RecordDecl}

theorem bindingLines_ne_mixinLine (head : DeclHead) (f : Function) (cls : MethodClass)
    (commentOut : Bool) : ∀ line ∈ r.bindingLines env head f cls commentOut, line ≠ mixinLine := by
  intro line hline
  have hparen : '(' ∈ line.toList := by
    unfold bindingLines at hline
    dsimp only at hline
    split at hline
    · next text htext =>
      have htext : '(' ∈ text.toList := by
        split at htext
        · simp [← Option.some.inj htext]
        · simp [← Option.some.inj htext]
        · exact nomatch htext
      rw [List.mem_singleton.1 hline]
      split
      · simp [htext]
      · exact htext
    · exact absurd hline List.not_mem_nil
  exact ne_mixinLine hparen (by decide)

theorem markerLines_ne_mixinLine (info : MethodInfo) :
    ∀ line ∈ info.markerLines, line ≠ mixinLine := by
  unfold MethodInfo.markerLines
  split <;> decide

theorem statement_of_methodBlock {polymorphic : Bool} {head : DeclHead} {f : Function}
    (h : mixinLine ∈ (r.methodBlock env polymorphic head f).lines) :
    ∃ body, f.inlineBody? = some body ∧ ∃ line ∈ lines (body.print { env.print with
      polymorphic, pointerReturn := f.returnType.isPointer }).text,
        bodyLine false line = mixinLine := by
  unfold methodBlock at h
  dsimp only at h
  split at h
  · exact absurd h List.not_mem_nil
  · split at h
    · exact absurd h List.not_mem_nil
    · next cls _ =>
      rcases List.mem_append.1 h with h | h
      · rcases List.mem_append.1 h with h | h
        · split at h
          · exact absurd rfl (bindingLines_ne_mixinLine head f cls _ _ h)
          · exact absurd h List.not_mem_nil
        · exact absurd rfl (markerLines_ne_mixinLine _ _ h)
      · have hparen : '(' ∈ (r.signature env head f (f.method.getD {}) cls
            ((f.method.getD {}).isCommentedOut f polymorphic)).text.toList := by
          simp [signature]
        obtain ⟨b, hb, hline⟩ := statement_of_definition hparen h
        split at hb
        · exact nomatch hb
        · exact ⟨b, hb, hline⟩

end RecordDecl

theorem EmitEnv.Prints.statement {env : EmitEnv} {r : RecordDecl} {b : Block}
    (h : env.Prints (some r) b) (hmem : mixinLine ∈ b.lines) :
    ∃ head f body, .function head f ∈ r.members ++ r.methods ∧ f.inlineBody? = some body ∧
      ∃ line ∈ lines (body.print { env.print with
        polymorphic := env.index.isPolymorphic r, pointerReturn := f.returnType.isPointer }).text,
          bodyLine false line = mixinLine := by
  cases h with
  | @field _ field position _ =>
    have hsize : '@' ∈ (r.fieldLine env position field).text.toList := by
      simp [RecordDecl.fieldLine]
    exact absurd (List.mem_singleton.1 hmem).symm (ne_mixinLine hsize (by decide))
  | @method _ head f hf =>
    obtain ⟨body, hbody, hline⟩ := RecordDecl.statement_of_methodBlock hmem
    exact ⟨head, f, body, hf, hbody, hline⟩

end DBindings
