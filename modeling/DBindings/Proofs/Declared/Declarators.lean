import DBindings.Emit.Function
import DBindings.Emit.Record
import Mathlib.Data.List.Basic

/-!
# Declared names

A declaration is written with an identifier at a place of its text.  Some identifiers are the names
as they are, and the others are changed where D reserves the name.

* `Identifier.isReserved_sanitize`    a name that has been changed is not reserved;
* `Identifier.sanitize_eq_iff`        which names are declared alike;
* `Declarator`                        a name and what its declaration has in front of it;
* `Declarator.StandsIn`               a text declares it;
* `Declarator.WrittenIn`              some code does;
* `Declarator.isReserved_iff`         which identifiers are reserved.
-/

namespace DBindings

namespace Identifier

theorem getLast?_of_isReserved {name : String} (h : isReserved name = true) :
    name.toList.getLast? ≠ some '_' := by
  have hends : ∀ w ∈ reserved, w.toList.getLast? ≠ some '_' := by decide +kernel
  exact hends name (List.contains_iff_mem.1 h)

theorem isReserved_sanitize (name : String) : isReserved (sanitize name) = false := by
  unfold sanitize
  by_cases h : isReserved name = true
  · rw [if_pos h]
    refine Bool.eq_false_iff.2 fun hchanged => getLast?_of_isReserved hchanged ?_
    rw [String.toList_append]
    exact List.getLast?_concat ..
  · rw [if_neg h]
    exact Bool.eq_false_iff.2 h

/-- One name is reserved, and the other is what it is changed to. -/
def Clash (a b : String) : Prop :=
  isReserved a = true ∧ b = a ++ "_" ∨ isReserved b = true ∧ a = b ++ "_"

instance (a b : String) : Decidable (Clash a b) := inferInstanceAs (Decidable (_ ∨ _))

/-- Two names are declared alike if they are the same or clash. -/
theorem sanitize_eq_iff {a b : String} : sanitize a = sanitize b ↔ a = b ∨ Clash a b := by
  unfold sanitize Clash
  by_cases ha : isReserved a = true <;> by_cases hb : isReserved b = true
  · rw [if_pos ha, if_pos hb, String.append_left_inj]
    refine ⟨Or.inl, ?_⟩
    rintro (h | ⟨-, rfl⟩ | ⟨-, rfl⟩)
    · exact h
    · exact absurd (by rw [String.toList_append]; exact List.getLast?_concat ..)
        (getLast?_of_isReserved hb)
    · exact absurd (by rw [String.toList_append]; exact List.getLast?_concat ..)
        (getLast?_of_isReserved ha)
  · rw [if_pos ha, if_neg hb]
    constructor
    · exact fun h => Or.inr (Or.inl ⟨ha, h.symm⟩)
    · rintro (rfl | ⟨-, h⟩ | ⟨hb', -⟩)
      · exact absurd ha hb
      · exact h.symm
      · exact absurd hb' hb
  · rw [if_neg ha, if_pos hb]
    constructor
    · exact fun h => Or.inr (Or.inr ⟨hb, h⟩)
    · rintro (rfl | ⟨ha', -⟩ | ⟨-, h⟩)
      · exact absurd hb ha
      · exact absurd ha' ha
      · exact h
  · rw [if_neg ha, if_neg hb]
    exact ⟨Or.inl, fun h => h.resolve_right fun h => h.elim (fun h => ha h.1) fun h => hb h.1⟩

end Identifier

/-! ## Places in a text -/

namespace Text

def isNameChar (c : Char) : Bool := c.isAlphanum || c == '_'

/-- A name may begin behind the text. -/
def OpenEnd (s : String) : Prop := ∀ c ∈ s.toList.getLast?, isNameChar c = false

/-- A name may end in front of the text. -/
def OpenStart (s : String) : Prop := ∀ c ∈ s.toList.head?, isNameChar c = false

instance (s : String) : Decidable (OpenEnd s) := Option.decidableForallMem _

instance (s : String) : Decidable (OpenStart s) := Option.decidableForallMem _

variable {s t : String}

theorem OpenEnd.append (hs : OpenEnd s) (ht : OpenEnd t) : OpenEnd (s ++ t) := by
  intro c hc
  rw [String.toList_append, List.getLast?_append] at hc
  rcases Option.or_eq_some_iff.1 hc with hc | ⟨-, hc⟩
  · exact ht c hc
  · exact hs c hc

theorem OpenStart.append (hs : OpenStart s) (ht : OpenStart t) : OpenStart (s ++ t) := by
  intro c hc
  rw [String.toList_append, List.head?_append] at hc
  rcases Option.or_eq_some_iff.1 hc with hc | ⟨-, hc⟩
  · exact hs c hc
  · exact ht c hc

/-- What stands in front of a text that is not empty does not matter. -/
theorem OpenEnd.behind (s : String) (hne : t ≠ "") (ht : OpenEnd t) : OpenEnd (s ++ t) := by
  intro c hc
  rw [String.toList_append, List.getLast?_append_of_ne_nil _ (by simpa using hne)] at hc
  exact ht c hc

theorem OpenStart.before (t : String) (hne : s ≠ "") (hs : OpenStart s) : OpenStart (s ++ t) := by
  intro c hc
  rw [String.toList_append, List.head?_append_of_ne_nil _ (by simpa using hne)] at hc
  exact hs c hc

/-- The text begins with a character that no name has. -/
structure Stops (s : String) : Prop where
  nonempty : s ≠ ""
  start : OpenStart s

theorem Stops.append (h : Stops s) (t : String) : Stops (s ++ t) where
  nonempty hempty := h.nonempty (String.append_eq_empty_iff.1 hempty).1
  start := .before t h.nonempty h.start

theorem stops_parens (p : Printed) :
    Stops (Printed.ofText "(" ++ p ++ Printed.ofText ")").text := by
  rw [Printed.text_append, Printed.text_append, Printed.text_ofText, String.append_assoc]
  exact Stops.append ⟨by decide, by decide⟩ _

theorem openEnd_blank (s : String) : OpenEnd (s ++ " ") := .behind s (by decide) (by decide)

end Text

/-- What is declared. -/
inductive Declarator.Kind where
  | record | enumeration | typedef | templateParam
  | enumerator | function | method | field | unnamedField | bitField | staticMember | param
  | localVar | variable
  deriving DecidableEq

def Declarator.Kind.isKept : Kind → Bool
  | record | enumeration | typedef | templateParam => true
  | _ => false

/-- A declared name, and what its declaration has in front of it. -/
structure Declarator where
  kind : Declarator.Kind
  name : String
  front : String

namespace Declarator

/-- The name as D declares it. -/
def identifier (d : Declarator) : String :=
  if d.kind.isKept then d.name else Identifier.sanitize d.name

theorem isReserved_iff (d : Declarator) : Identifier.isReserved d.identifier = true ↔
    d.kind.isKept = true ∧ Identifier.isReserved d.name = true := by
  unfold identifier
  by_cases h : d.kind.isKept = true
  · rw [if_pos h]
    exact (and_iff_right h).symm
  · rw [if_neg h, Identifier.isReserved_sanitize]
    exact iff_of_false Bool.false_ne_true fun hboth => h hboth.1

/-- A text has the identifier behind the front of its declaration, and as a name of its own. -/
def StandsIn (d : Declarator) (text : String) : Prop :=
  ∃ before after, text = before ++ d.front ++ d.identifier ++ after ∧
    Text.OpenEnd (before ++ d.front) ∧ Text.OpenStart after

variable {d : Declarator} {text : String}

theorem StandsIn.start (after : String) (hfront : Text.OpenEnd d.front)
    (hafter : Text.OpenStart after) (htext : text = d.front ++ d.identifier ++ after) :
    d.StandsIn text :=
  ⟨"", after, by rw [String.empty_append, htext], by rwa [String.empty_append], hafter⟩

theorem StandsIn.between {x y : String} (h : d.StandsIn text) (hx : Text.OpenEnd x)
    (hy : Text.OpenStart y) : d.StandsIn (x ++ text ++ y) := by
  obtain ⟨before, after, rfl, hbefore, hafter⟩ := h
  refine ⟨x ++ before, after ++ y, by simp only [String.append_assoc], ?_, hafter.append hy⟩
  rw [String.append_assoc]
  exact hx.append hbefore

theorem StandsIn.behind {x : String} (h : d.StandsIn text) (hx : Text.OpenEnd x) :
    d.StandsIn (x ++ text) := by
  have hend := h.between hx (by decide : Text.OpenStart "")
  rwa [String.append_empty] at hend

theorem StandsIn.before {y : String} (h : d.StandsIn text) (hy : Text.OpenStart y) :
    d.StandsIn (text ++ y) := by
  have hstart := h.between (by decide : Text.OpenEnd "") hy
  rwa [String.empty_append] at hstart

theorem StandsIn.parens (h : d.StandsIn text) (x y : String) :
    d.StandsIn (x ++ "(" ++ text ++ ")" ++ y) := by
  rw [String.append_assoc]
  exact h.between (.behind x (by decide) (by decide)) (.before y (by decide) (by decide))

theorem StandsIn.joined {p : Printed} {ps : List Printed} (h : d.StandsIn p.text) (hp : p ∈ ps) :
    d.StandsIn (Printed.joined ", " ps).text := by
  induction ps with
  | nil => exact absurd hp List.not_mem_nil
  | cons q ps ih =>
    cases ps with
    | nil =>
      rw [← List.mem_singleton.1 hp]
      exact h
    | cons q' ps =>
      show d.StandsIn (q ++ Printed.ofText ", " ++ Printed.joined ", " (q' :: ps)).text
      rw [Printed.text_append, Printed.text_append, Printed.text_ofText]
      rcases List.mem_cons.1 hp with rfl | hp
      · rw [String.append_assoc]
        exact h.before (.before _ (by decide) (by decide))
      · exact (ih hp).behind (.behind _ (by decide) (by decide))

/-- A line of the code has it.  A local variable stands in a body, whose lines are in the code one
after the other, behind a margin. -/
def WrittenIn (d : Declarator) (code : List Stroke) : Prop :=
  ∃ text, d.StandsIn text ∧
    if d.kind = .localVar then ∃ commentOut margin, ((Text.lines text).map fun line =>
      .line (bodyLine commentOut (margin ++ line))) <:+: code
    else .line text ∈ code

theorem WrittenIn.within {code code' : List Stroke} (h : d.WrittenIn code)
    (hcode : code <:+: code') : d.WrittenIn code' := by
  obtain ⟨text, hstands, h⟩ := h
  refine ⟨text, hstands, ?_⟩
  split at h
  · next hlocal =>
    obtain ⟨commentOut, margin, h⟩ := h
    rw [if_pos hlocal]
    exact ⟨commentOut, margin, h.trans hcode⟩
  · next hlocal =>
    rw [if_neg hlocal]
    exact hcode.subset h

theorem StandsIn.written {code : List Stroke} (h : d.StandsIn text) (hkind : d.kind ≠ .localVar)
    (hmem : .line text ∈ code) : d.WrittenIn code :=
  ⟨text, h, by rwa [if_neg hkind]⟩

theorem StandsIn.written_lines {code : List Stroke} (commentOut : Bool) (margin : String)
    (h : d.StandsIn text) (hkind : d.kind = .localVar)
    (hlines : ((Text.lines text).map fun line => .line (bodyLine commentOut (margin ++ line))) <:+:
      code) : d.WrittenIn code :=
  ⟨text, h, by rw [if_pos hkind]; exact ⟨commentOut, margin, hlines⟩⟩

end Declarator

end DBindings
