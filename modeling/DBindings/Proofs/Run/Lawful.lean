import DBindings.Proofs.Run.Acts
import DBindings.Proofs.Tree.Walk
import Mathlib.Data.List.Perm.Subperm

/-!
# Lawful acts

* `Stroke.Inert`      strokes that keep the level and are not the mixin;
* `EmitEnv.Prints`    the code of a declaration, by the place where it is written;
* `Piece.Sound`       code is inert, or that of declarations, or in the bodies of records of the
                      unit, with their headers and shapes;
* `Act.Lawful`        acts register what has not been registered, and write the body of a record at
                      most once, after it has been registered;
* `Emit.Writes`       a computation plays lawful acts, with a rule for each way to compose it.
-/

namespace DBindings
open Stroke
open EmitState (mixinLine)

namespace Stroke

/-- The stroke is no line of the mixin, and no text of another form. -/
def Unmixed : Stroke → Prop
  | line s => s ≠ mixinLine
  | raw _ => False
  | indent | dedent => True

/-- The strokes come back to their level, and none is the mixin. -/
structure Inert (ss : List Stroke) : Prop where
  balanced : Balanced ss
  unmixed : ∀ s ∈ ss, s.Unmixed

theorem inert_lines {texts : List String} (h : ∀ t ∈ texts, t ≠ mixinLine) :
    Inert (texts.map .line) :=
  ⟨balanced_lines texts, List.forall_mem_map.2 h⟩

theorem inert_nil : Inert [] := inert_lines fun _ ht => absurd ht List.not_mem_nil

theorem inert_line {text : String} (h : text ≠ mixinLine) : Inert [.line text] := by
  have htexts : ∀ t ∈ [text], t ≠ mixinLine := List.forall_mem_singleton.2 h
  exact inert_lines htexts

theorem Inert.ite {ss : List Stroke} (h : Inert ss) {p : Prop} [Decidable p] :
    Inert (if p then ss else []) := by
  split
  · exact h
  · exact inert_nil

theorem ne_mixinLine {s : String} {c : Char} (h : c ∈ s.toList) (hc : c ∉ mixinLine.toList) :
    s ≠ mixinLine := fun heq => hc (heq ▸ h)

end Stroke

/-- One line of printed code. -/
def Block.ofPrinted (p : Printed) : Block := ⟨[p.text], p.requests⟩

/-- The code of a declaration: of a field or method in the body of its record, and of a variable or
function outside records. -/
inductive EmitEnv.Prints (env : EmitEnv) : Option RecordDecl → Block → Prop where
  | field {r : RecordDecl} {field : Field} {position : Nat}
      (h : r.info.fields[position]? = some field) :
      Prints env (some r) (.ofPrinted (r.fieldLine env position field))
  | method {r : RecordDecl} {head : DeclHead} {f : Function}
      (h : .function head f ∈ r.members ++ r.methods) :
      Prints env (some r) (r.methodBlock env (env.index.isPolymorphic r) head f)
  | variable_ {head : DeclHead} {v : Variable} (h : .var head v ∈ env.index.decls) :
      Prints env none (.ofPrinted (Emit.variableCode env head v))
  | function {head : DeclHead} {f : Function} (h : .function head f ∈ env.index.decls) :
      Prints env none (f.freeBlock env (head.name.getD ""))

namespace RecordDecl

def isStruct (env : EmitEnv) (r : RecordDecl) : Bool :=
  RecordShape.choose r.info.tag (env.index.isPolymorphic r) == .struct

def headerText (env : EmitEnv) (r : RecordDecl) : String :=
  (r.header env (env.index.isPolymorphic r)).text

end RecordDecl

namespace Piece

/-- The body belongs to a complete record of the unit and has its header and shape. -/
structure IsBody (env : EmitEnv) (r : RecordDecl) (record : DeclId) (isStruct : Bool)
    (header : Printed) : Prop where
  mem : r.toDecl ∈ env.index.decls
  complete : r.info.complete = true
  id : r.head.id = record
  isStruct : r.isStruct env = isStruct
  header : r.header env (env.index.isPolymorphic r) = header

mutual

/-- Strokes are inert, code is that of declarations, and bodies are those of records of the unit, by
the record in whose body the piece stands. -/
def Sound (env : EmitEnv) (scope : Option RecordDecl) : Piece → Prop
  | plain ss => Inert ss
  | code b => env.Prints scope b
  | body record isStruct header members =>
    ∃ r, IsBody env r record isStruct header ∧ SoundAll env (some r) members

def SoundAll (env : EmitEnv) (scope : Option RecordDecl) : List Piece → Prop
  | [] => True
  | p :: ps => Sound env scope p ∧ SoundAll env scope ps

end

theorem soundAll_append (env : EmitEnv) (scope : Option RecordDecl) (ps qs : List Piece) :
    SoundAll env scope (ps ++ qs) ↔ SoundAll env scope ps ∧ SoundAll env scope qs := by
  induction ps with
  | nil => exact ⟨fun h => ⟨trivial, h⟩, fun h => h.2⟩
  | cons p ps ih => rw [List.cons_append, SoundAll, SoundAll, ih, and_assoc]

def records (ps : List Piece) : List DeclId := (bodiesAll ps).map (·.1)

theorem records_append (ps qs : List Piece) : records (ps ++ qs) = records ps ++ records qs := by
  unfold records
  rw [bodiesAll_append, List.map_append]

end Piece

namespace Act
open Piece

/-- What acts of the emitter keep to in the body of a record or outside records; `claimed` are
records that were registered before for a body among the acts. -/
structure Lawful (env : EmitEnv) (scope : Option RecordDecl) (claimed : List DeclId) (c : Control)
    (acts : List Act) : Prop where
  nodup : (registersAll acts).Nodup
  fresh : ∀ id ∈ registersAll acts, id ∉ c.registered
  covered : (records (pieces acts)).Subperm (claimed ++ registersAll acts)
  sound : SoundAll env scope (pieces acts)

namespace Lawful
variable {env : EmitEnv} {scope : Option RecordDecl} {c : Control}

theorem nil (claimed : List DeclId) : Lawful env scope claimed c [] :=
  ⟨List.nodup_nil, fun _ h => absurd h List.not_mem_nil, List.nil_subperm, trivial⟩

theorem mono {claimed acts} (h : Lawful env scope [] c acts) : Lawful env scope claimed c acts :=
  ⟨h.nodup, h.fresh, h.covered.trans (List.sublist_append_right _ _).subperm, h.sound⟩

theorem append {p q : List DeclId} {as bs : List Act} (ha : Lawful env scope p c as)
    (hb : Lawful env scope q (turnAll as c) bs) : Lawful env scope (p ++ q) c (as ++ bs) := by
  have hreg := registersAll_append as bs
  have hfresh : ∀ id ∈ registersAll bs, id ∉ registersAll as ∧ id ∉ c.registered := by
    intro id hid
    have := hb.fresh id hid
    rw [registered_turnAll, List.mem_append, not_or, List.mem_reverse] at this
    exact this
  refine ⟨?_, ?_, ?_, ?_⟩
  · rw [hreg]
    exact List.nodup_append.2 ⟨ha.nodup, hb.nodup, fun x hx y hy hxy =>
      (hfresh y hy).1 (hxy ▸ hx)⟩
  · intro id hid
    rw [hreg] at hid
    rcases List.mem_append.1 hid with hid | hid
    · exact ha.fresh id hid
    · exact (hfresh id hid).2
  · have hperm : ((p ++ registersAll as) ++ (q ++ registersAll bs)).Perm
        ((p ++ q) ++ (registersAll as ++ registersAll bs)) := by
      rw [List.append_assoc, List.append_assoc]
      exact (List.perm_append_comm_assoc _ _ _).append_left p
    rw [pieces_append, records_append, hreg]
    exact (ha.covered.append hb.covered).trans hperm.subperm
  · rw [pieces_append]
    exact (soundAll_append env scope _ _).2 ⟨ha.sound, hb.sound⟩

/-- An act that registers nothing and writes no body. -/
theorem single (claimed : List DeclId) (a : Act) (hr : registersAll [a] = [])
    (hb : records (pieces [a]) = []) (hs : SoundAll env scope (pieces [a])) :
    Lawful env scope claimed c [a] := by
  refine ⟨?_, ?_, ?_, hs⟩
  · rw [hr]
    exact List.nodup_nil
  · rw [hr]
    exact fun _ h => absurd h List.not_mem_nil
  · rw [hb]
    exact List.nil_subperm

theorem write (claimed : List DeclId) {ss : List Stroke} (h : Inert ss) :
    Lawful env scope claimed c [.write ss] :=
  single claimed _ rfl rfl ⟨h, trivial⟩

theorem code (claimed : List DeclId) {b : Block} (h : env.Prints scope b) :
    Lawful env scope claimed c [.code b] :=
  single claimed _ rfl rfl ⟨h, trivial⟩

theorem register {id : DeclId} {acts : List Act} (hid : id ∉ c.registered)
    (h : Lawful env scope [id] ((Act.register id).turn c) acts) :
    Lawful env scope [] c (.register id :: acts) := by
  refine ⟨?_, ?_, h.covered, h.sound⟩
  · refine List.nodup_cons.2 ⟨fun hmem => ?_, h.nodup⟩
    exact h.fresh id hmem List.mem_cons_self
  · intro x hx
    rcases List.mem_cons.1 hx with rfl | hx
    · exact hid
    · exact fun hreg => h.fresh x hx (List.mem_cons_of_mem _ hreg)

theorem body {r : RecordDecl} {record : DeclId} {isStruct : Bool} {header : Printed}
    {acts : List Act} (h : Lawful env (some r) [] c acts)
    (hb : IsBody env r record isStruct header) :
    Lawful env scope [record] c [.body record isStruct header acts] := by
  have hreg : registersAll [.body record isStruct header acts] = registersAll acts :=
    List.append_nil _
  refine ⟨?_, ?_, ?_, ⟨⟨r, hb, h.sound⟩, trivial⟩⟩
  · rw [hreg]
    exact h.nodup
  · rw [hreg]
    exact h.fresh
  · have hrec : records (pieces [.body record isStruct header acts])
        = records (pieces acts) ++ [record] := by
      show ((bodiesAll (pieces acts) ++ [(record, isStruct)]) ++ []).map Prod.fst = _
      rw [List.append_nil, List.map_append]
      rfl
    rw [hreg, hrec]
    have hperm : (records (pieces acts) ++ [record]).Perm ([record] ++ records (pieces acts)) :=
      List.perm_append_comm
    exact hperm.subperm.trans ((List.Subperm.refl [record]).append h.covered)

end Lawful

end Act

namespace Emit
open Act

section
variable {α β : Type} {env : EmitEnv} {scope : Option RecordDecl}

/-- The computation plays lawful acts. -/
def Writes (env : EmitEnv) (scope : Option RecordDecl) (claimed : List DeclId) (x : Emit α) :
    Prop :=
  Plays (Lawful env scope claimed) x

namespace Writes
variable {claimed : List DeclId}

theorem mono {x : Emit α} (h : Writes env scope [] x) : Writes env scope claimed x :=
  Plays.mono h fun _ _ => Lawful.mono

theorem pure (a : α) : Writes env scope claimed (Pure.pure a : Emit α) :=
  Plays.pure a fun _ => Lawful.nil claimed

theorem append {p q : List DeclId} {x : Emit α} {f : α → Emit β} (hx : Writes env scope p x)
    (hf : ∀ a, Writes env scope q (f a)) : Writes env scope (p ++ q) (x >>= f) :=
  Plays.bind hx hf fun _ _ _ => Lawful.append

theorem bind {x : Emit α} {f : α → Emit β} (hx : Writes env scope [] x)
    (hf : ∀ a, Writes env scope claimed (f a)) : Writes env scope claimed (x >>= f) :=
  hx.append hf

theorem map {x : Emit α} (f : α → β) (hx : Writes env scope [] x) :
    Writes env scope [] (f <$> x) := by
  have h : f <$> x = x >>= fun a => Pure.pure (f a) := map_eq_pure_bind f x
  rw [h]
  exact hx.bind fun a => pure (f a)

theorem forM (l : List α) {f : α → Emit PUnit} (hf : ∀ a ∈ l, Writes env scope [] (f a)) :
    Writes env scope [] (l.forM f) := by
  induction l with
  | nil => exact pure _
  | cons a l ih =>
    show Writes env scope [] (f a >>= fun _ => l.forM f)
    exact (hf a List.mem_cons_self).bind fun _ => ih fun b hb => hf b (List.mem_cons_of_mem _ hb)

theorem ofExcept (x : Except EmitError α) : Writes env scope claimed (Emit.ofExcept x) := by
  cases x with
  | ok a => exact pure a
  | error e => exact Plays.throw e

theorem strokes {ss : List Stroke} (h : Inert ss) : Writes env scope claimed (Emit.strokes ss) :=
  Plays.act (.write ss) (fun _ => rfl) fun _ => Lawful.write claimed h

theorem lines {texts : List String} (h : ∀ t ∈ texts, t ≠ mixinLine) :
    Writes env scope claimed (Emit.lines texts) := strokes (inert_lines h)

theorem line {text : String} (h : text ≠ mixinLine) : Writes env scope claimed (Emit.line text) :=
  strokes (inert_line h)

theorem enter (id : DeclId) : Writes env scope claimed (Emit.enter id) :=
  Plays.act (.enter id) (fun _ => rfl) fun _ => Lawful.single claimed _ rfl rfl trivial

theorem leave : Writes env scope claimed Emit.leave :=
  Plays.act .leave (fun _ => rfl) fun _ => Lawful.single claimed _ rfl rfl trivial

theorem block {b : Block} (h : env.Prints scope b) : Writes env scope claimed (Emit.block b) :=
  Plays.act (.code b) (fun _ => rfl) fun _ => Lawful.code claimed h

/-- What follows the registration of a declaration may write its body if it was new. -/
theorem register {id : DeclId} {f : Bool → Emit β} (hold : Writes env scope [] (f false))
    (hnew : Writes env scope [id] (f true)) : Writes env scope [] (Emit.register id >>= f) := by
  intro c
  by_cases hid : id ∈ c.registered
  · have hexec : ∀ s : EmitState, s.control = c →
        (Emit.register id >>= f).exec s = (f false).exec s := by
      intro s hs
      have hmem : id ∈ s.registered := by
        rw [← hs] at hid
        exact hid
      rw [exec_bind, exec_register_of_mem hmem]
    rcases hold c with ⟨b, acts, hacts, hx⟩ | ⟨e, he⟩
    · exact Or.inl ⟨b, acts, hacts, fun s hs => (hexec s hs).trans (hx s hs)⟩
    · exact Or.inr ⟨e, fun s hs => (congrArg (·.1) (hexec s hs)).trans (he s hs)⟩
  · have hexec : ∀ s : EmitState, s.control = c →
        (Emit.register id >>= f).exec s = (f true).exec (s.register id) := by
      intro s hs
      have hmem : id ∉ s.registered := by
        rw [← hs] at hid
        exact hid
      rw [exec_bind, exec_register_of_not_mem hmem]
    have hturn : ∀ s : EmitState, s.control = c →
        (s.register id).control = (Act.register id).turn c := fun s hs => hs ▸ rfl
    rcases hnew ((Act.register id).turn c) with ⟨b, acts, hacts, hx⟩ | ⟨e, he⟩
    · exact Or.inl ⟨b, .register id :: acts, Lawful.register hid hacts,
        fun s hs => (hexec s hs).trans (hx _ (hturn s hs))⟩
    · exact Or.inr ⟨e, fun s hs => (congrArg (·.1) (hexec s hs)).trans (he _ (hturn s hs))⟩

theorem register_plain {id : DeclId} {f : Bool → Emit β} (hf : ∀ b, Writes env scope [] (f b)) :
    Writes env scope [] (Emit.register id >>= f) :=
  register (hf false) (hf true).mono

theorem accept {head : DeclHead} {f : Bool → Emit β} (hold : Writes env scope [] (f false))
    (hnew : Writes env scope [head.id] (f true)) :
    Writes env scope [] (Emit.accept env head >>= f) := by
  unfold Emit.accept
  by_cases h : env.isRelevant head.loc = true
  · rw [if_pos h]
    exact register hold hnew
  · rw [if_neg h]
    exact hold

theorem body {r : RecordDecl} {record : DeclId} {isStruct : Bool} {header : Printed}
    {inside : Emit PUnit} (h : Writes env (some r) [] inside)
    (hb : Piece.IsBody env r record isStruct header) :
    Writes env scope [record] (do
      let text ← Emit.printed header
      Emit.strokes (RecordDecl.openingStrokes text)
      inside
      modify (·.settle record isStruct)
      modify (·.close record isStruct)) := by
  intro c
  have hopen : ∀ s : EmitState, (s.openBody header).control = s.control := fun _ => rfl
  have hexec : ∀ s : EmitState, Emit.exec (do
      let text ← Emit.printed header
      Emit.strokes (RecordDecl.openingStrokes text)
      inside
      modify (·.settle record isStruct)
      modify (·.close record isStruct)) s = Emit.exec (do
      inside
      modify (·.settle record isStruct)
      modify (·.close record isStruct)) (s.openBody header) := fun _ => rfl
  rcases h c with ⟨a, acts, hacts, hx⟩ | ⟨e, he⟩
  · refine Or.inl ⟨(), [.body record isStruct header acts], hacts.body hb, fun s hs => ?_⟩
    rw [hexec, exec_bind, hx _ ((hopen s).trans hs)]
    rfl
  · refine Or.inr ⟨e, fun s hs => ?_⟩
    have hs' := he _ ((hopen s).trans hs)
    rw [hexec, exec_bind]
    cases hin : inside.exec (s.openBody header) with
    | mk result s' =>
      rw [hin] at hs'
      cases result with
      | ok _ => exact absurd hs' (by simp)
      | error e' =>
        show Except.error e' = Except.error e
        exact congrArg _ (Except.error.inj hs')

end Writes

end

end Emit

end DBindings
