import DBindings.Proofs.Text.Grouping
import DBindings.Proofs.Tree.Spellings
import DBindings.TypeText

/-!
# How the spelling of a type is composed

The spelling of a type is made of names and other texts that are taken over, its leaves, and of
marks that are put around them.

* `Ty.leaves`      the texts that the spelling takes over;
* `Ty.constants`   what the qualifiers `const` that are written apply to;
* `Composed`       texts made of leaves and marks, with what is written as constant in them;
* `Ty.composed`    the spelling of a type is such a text;
* `Ty.forall_leavesIn`   what the leaves have in common with the spellings in a type.
-/

set_option linter.unusedSectionVars false

namespace DBindings

/-! ## Leaves and constants -/

mutual

/-- The texts that the spelling of a type takes over.  A pointer to a function shows the function
without the sugar between the two. -/
def Ty.leavesIn (names : NameTable) (bare : Bool) : Ty → List String
  | .builtin _ => []
  | .pointer inner => Ty.leavesIn names inner.isFunction inner
  | .reference inner _ | .constantArray inner _ | .array inner => Ty.leavesIn names false inner
  | .qualified _ inner => Ty.leavesIn names bare inner
  | .function ret params _ => Ty.leavesIn names false ret ++ Ty.leavesAll names params
  | .record ref | .enum ref => [names.refName ref]
  | .templateSpecialization template args => template :: TemplateArg.leavesAll names args
  | .typedef name underlying => if bare then Ty.leavesIn names true underlying else [name]
  | .templateParam name | .dependent name => [name]

def Ty.leavesAll (names : NameTable) : List Ty → List String
  | [] => []
  | ty :: tys => Ty.leavesIn names false ty ++ Ty.leavesAll names tys

def TemplateArg.leaves (names : NameTable) : TemplateArg → List String
  | .type ty => Ty.leavesIn names false ty
  | .integral _ _ _ => []
  | .expression spelling => [spelling]

def TemplateArg.leavesAll (names : NameTable) : List TemplateArg → List String
  | [] => []
  | arg :: args => TemplateArg.leaves names arg ++ TemplateArg.leavesAll names args

end

def Ty.leaves (names : NameTable) (ty : Ty) : List String := ty.leavesIn names false

mutual

/-- The spellings of what the qualifiers `const` apply to, from the left; those between a pointer
and its function are not written. -/
def Ty.constantsIn (names : NameTable) (bare : Bool) : Ty → List String
  | .pointer inner => Ty.constantsIn names inner.isFunction inner
  | .reference inner _ | .constantArray inner _ | .array inner => Ty.constantsIn names false inner
  | .qualified isConst inner =>
    if isConst && !bare then inner.renderIn names false :: Ty.constantsIn names false inner
    else Ty.constantsIn names bare inner
  | .function ret params _ => Ty.constantsIn names false ret ++ Ty.constantsAll names params
  | .templateSpecialization _ args => TemplateArg.constantsAll names args
  | .typedef _ underlying => if bare then Ty.constantsIn names true underlying else []
  | .builtin _ | .record _ | .enum _ | .templateParam _ | .dependent _ => []

def Ty.constantsAll (names : NameTable) : List Ty → List String
  | [] => []
  | ty :: tys => Ty.constantsIn names false ty ++ Ty.constantsAll names tys

def TemplateArg.constants (names : NameTable) : TemplateArg → List String
  | .type ty => Ty.constantsIn names false ty
  | .integral _ _ _ | .expression _ => []

def TemplateArg.constantsAll (names : NameTable) : List TemplateArg → List String
  | [] => []
  | arg :: args => TemplateArg.constants names arg ++ TemplateArg.constantsAll names args

end

/-- The spellings of what the qualifiers `const` of a type apply to, one for each qualifier that is
written and in the order in which these are opened. -/
def Ty.constants (names : NameTable) (ty : Ty) : List String := ty.constantsIn names false

/-! ## Composed texts -/

/-- The characters of the names of built-in types, of numbers and of three dots. -/
def Text.isWord (c : Char) : Bool := c.isAlphanum || "_ .-".toList.contains c

/-- What opens and closes what stands behind the return type of a function, the name of a template
and the element type of an array. -/
def Text.brackets : List (String × String) := [(" function(", ")"), ("!(", ")"), ("[", "]")]

/-- The marks that stand around leaves. -/
def Text.typeMarks : List String :=
  ["*", "ref ", "const(", ", ", " function(", "!(", "[", ")", "]"]

/-- A text made of leaves and marks; the second list has what is written as constant in it. -/
inductive Composed : List String → List String → String → Prop where
  | leaf (s : String) : Composed [s] [] (Text.dotted s)
  | word {w : String} : (∀ c ∈ w.toList, Text.isWord c = true) → Composed [] [] w
  | pointer {L K : List String} {s : String} : Composed L K s → Composed L K (s ++ "*")
  | reference {L K : List String} {s : String} : Composed L K s → Composed L K ("ref " ++ s)
  | constant {L K : List String} {s : String} :
    Composed L K s → Composed L (s :: K) ("const(" ++ s ++ ")")
  | comma {L K L' K' : List String} {s t : String} : Composed L K s → Composed L' K' t →
    Composed (L ++ L') (K ++ K') (s ++ ", " ++ t)
  | bracketed {L K L' K' : List String} {o c s t : String} : (o, c) ∈ Text.brackets →
    Composed L K s → Composed L' K' t → Composed (L ++ L') (K ++ K') (s ++ o ++ t ++ c)

/-- Texts that are composed one by one. -/
inductive ComposedAll : List String → List String → List String → Prop where
  | nil : ComposedAll [] [] []
  | cons {L K L' K' : List String} {t : String} {ts : List String} : Composed L K t →
    ComposedAll L' K' ts → ComposedAll (L ++ L') (K ++ K') (t :: ts)

theorem ComposedAll.append {L K L' K' ts us : List String} (h : ComposedAll L K ts)
    (h' : ComposedAll L' K' us) : ComposedAll (L ++ L') (K ++ K') (ts ++ us) := by
  induction h with
  | nil => exact h'
  | cons ht _ ih =>
    rw [List.append_assoc, List.append_assoc]
    exact .cons ht ih

theorem ComposedAll.forall {P : String → Prop}
    (hP : ∀ {L K : List String} {s : String}, Composed L K s → (∀ l ∈ L, P l) → P s)
    {L K ts : List String} (h : ComposedAll L K ts) (hL : ∀ l ∈ L, P l) : ∀ t ∈ ts, P t := by
  induction h with
  | nil => exact fun t ht => absurd ht List.not_mem_nil
  | cons ht _ ih =>
    obtain ⟨hl, hl'⟩ := List.forall_mem_append.1 hL
    exact List.forall_mem_cons.2 ⟨hP ht hl, ih hl'⟩

theorem ComposedAll.commaSeparated {L K ts : List String} (h : ComposedAll L K ts) :
    Composed L K (commaSeparated ts) := by
  unfold DBindings.commaSeparated
  induction h with
  | nil =>
    rw [String.intercalate_nil]
    exact .word fun c hc => absurd hc List.not_mem_nil
  | cons ht hts ih =>
    cases hts with
    | nil =>
      rw [String.intercalate_singleton, List.append_nil, List.append_nil]
      exact ht
    | cons hu hus =>
      rw [String.intercalate_cons_cons]
      exact .comma ht ih

/-! ## Words -/

theorem Builtin.composed (kind : Builtin) : Composed [] [] (Text.dotted kind.dName) :=
  .word (List.all_eq_true.1 (by cases kind <;> decide +kernel))

theorem Text.isWord_of_isDigit {c : Char} (h : c.isDigit = true) : isWord c = true := by
  rw [isWord, Char.isAlphanum, h, Bool.or_true, Bool.true_or]

theorem Text.isPlain_of_isWord {c : Char} (h : isWord c = true) : isPlain c = true :=
  isPlain_of_lacks (by decide) h

theorem composed_toString (n : Nat) : Composed [] [] (toString n) :=
  .word fun _ hc => Text.isWord_of_isDigit (isDigit_of_mem_toString hc)

theorem composed_toString_int (n : Int) : Composed [] [] (toString n) := by
  cases n with
  | ofNat n => exact composed_toString n
  | negSucc n =>
    refine .word fun c hc => ?_
    change c ∈ ("-" ++ toString (n + 1)).toList at hc
    rw [String.toList_append] at hc
    rcases List.mem_append.1 hc with hc | hc
    · rw [List.mem_singleton.1 hc]
      decide
    · exact Text.isWord_of_isDigit (isDigit_of_mem_toString hc)

/-! ## Types -/

section
variable {names : NameTable}

mutual

theorem Ty.composed_renderIn (bare : Bool) : (ty : Ty) →
    Composed (ty.leavesIn names bare) (ty.constantsIn names bare) (ty.renderIn names bare)
  | .builtin kind => by
    unfold Ty.renderIn Ty.leavesIn Ty.constantsIn
    exact kind.composed
  | .pointer inner => by
    have hinner := fun bare => Ty.composed_renderIn bare inner
    unfold Ty.renderIn Ty.leavesIn Ty.constantsIn
    split
    · next h =>
      rw [h]
      exact hinner true
    · next h =>
      rw [Bool.eq_false_iff.2 h]
      exact .pointer (hinner false)
  | .reference inner _ => by
    unfold Ty.renderIn Ty.leavesIn Ty.constantsIn
    exact .reference (Ty.composed_renderIn false inner)
  | .qualified isConst inner => by
    have hinner := fun bare => Ty.composed_renderIn bare inner
    unfold Ty.renderIn Ty.leavesIn Ty.constantsIn
    split
    · next h =>
      obtain rfl : bare = false := by simpa using (Bool.and_eq_true_iff.1 h).2
      exact .constant (hinner false)
    · exact hinner bare
  | .constantArray element size => by
    have helement := Ty.composed_renderIn false element
    unfold Ty.renderIn Ty.leavesIn Ty.constantsIn
    have h := Composed.bracketed (by decide : ("[", "]") ∈ Text.brackets) helement
      (composed_toString size)
    rwa [List.append_nil, List.append_nil] at h
  | .array element => by
    have helement := Ty.composed_renderIn false element
    have hnone : Composed [] [] "" := .word fun c hc => absurd hc List.not_mem_nil
    unfold Ty.renderIn Ty.leavesIn Ty.constantsIn
    have h := Composed.bracketed (by decide : ("[", "]") ∈ Text.brackets) helement hnone
    rwa [List.append_nil, List.append_nil, String.append_empty, String.append_assoc] at h
  | .function ret params variadic => by
    have hret := Ty.composed_renderIn false ret
    have hparams := Ty.composed_renderAll params
    have hmore : ComposedAll [] [] (if variadic then ["..."] else []) := by
      cases variadic with
      | true => exact .cons (.word (List.all_eq_true.1 (by decide))) .nil
      | false => exact .nil
    have hlist := (hparams.append hmore).commaSeparated
    rw [List.append_nil, List.append_nil] at hlist
    unfold Ty.renderIn Ty.leavesIn Ty.constantsIn
    exact .bracketed (by decide) hret hlist
  | .record ref => by
    unfold Ty.renderIn Ty.leavesIn Ty.constantsIn
    exact .leaf _
  | .enum ref => by
    unfold Ty.renderIn Ty.leavesIn Ty.constantsIn
    exact .leaf _
  | .templateSpecialization template args => by
    have hargs := (TemplateArg.composed_renderAll args).commaSeparated
    unfold Ty.renderIn Ty.leavesIn Ty.constantsIn
    exact .bracketed (by decide) (.leaf template) hargs
  | .typedef name underlying => by
    unfold Ty.renderIn Ty.leavesIn Ty.constantsIn
    split
    · exact Ty.composed_renderIn true underlying
    · exact .leaf name
  | .templateParam name => by
    unfold Ty.renderIn Ty.leavesIn Ty.constantsIn
    exact .leaf name
  | .dependent spelling => by
    unfold Ty.renderIn Ty.leavesIn Ty.constantsIn
    exact .leaf spelling

theorem Ty.composed_renderAll : (tys : List Ty) →
    ComposedAll (Ty.leavesAll names tys) (Ty.constantsAll names tys) (Ty.renderAll names tys)
  | [] => by
    unfold Ty.renderAll Ty.leavesAll Ty.constantsAll
    exact .nil
  | ty :: tys => by
    unfold Ty.renderAll Ty.leavesAll Ty.constantsAll
    exact .cons (Ty.composed_renderIn false ty) (Ty.composed_renderAll tys)

theorem TemplateArg.composed_render : (arg : TemplateArg) →
    Composed (arg.leaves names) (arg.constants names) (arg.render names)
  | .type ty => by
    unfold TemplateArg.render TemplateArg.leaves TemplateArg.constants
    exact Ty.composed_renderIn false ty
  | .integral value _ _ => by
    unfold TemplateArg.render TemplateArg.leaves TemplateArg.constants
    exact composed_toString_int value
  | .expression spelling => by
    unfold TemplateArg.render TemplateArg.leaves TemplateArg.constants
    exact .leaf spelling

theorem TemplateArg.composed_renderAll : (args : List TemplateArg) →
    ComposedAll (TemplateArg.leavesAll names args) (TemplateArg.constantsAll names args)
      (TemplateArg.renderAll names args)
  | [] => by
    unfold TemplateArg.renderAll TemplateArg.leavesAll TemplateArg.constantsAll
    exact .nil
  | arg :: args => by
    unfold TemplateArg.renderAll TemplateArg.leavesAll TemplateArg.constantsAll
    exact .cons (TemplateArg.composed_render arg) (TemplateArg.composed_renderAll args)

end

/-- The spelling of a type is made of its leaves and of marks. -/
theorem Ty.composed (ty : Ty) :
    Composed (ty.leaves names) (ty.constants names) (ty.render names) :=
  Ty.composed_renderIn false ty

/-! ## Leaves and spellings -/

variable {P : String → Prop} (hn : names.Spelled P)
include hn

mutual

/-- What holds of the spellings in a type and of the names that are given holds of its leaves. -/
theorem Ty.forall_leavesIn (bare : Bool) :
    (ty : Ty) → (∀ s ∈ ty.spellings, P s) → ∀ l ∈ ty.leavesIn names bare, P l
  | .builtin _, _ => fun l hl => by
    unfold Ty.leavesIn at hl
    exact absurd hl List.not_mem_nil
  | .pointer inner, h => by
    unfold Ty.leavesIn
    exact Ty.forall_leavesIn inner.isFunction inner h
  | .reference inner _, h | .constantArray inner _, h | .array inner, h => by
    unfold Ty.leavesIn
    exact Ty.forall_leavesIn false inner h
  | .qualified _ inner, h => by
    unfold Ty.leavesIn
    exact Ty.forall_leavesIn bare inner h
  | .function ret params _, h => by
    unfold Ty.spellings at h
    obtain ⟨hret, hparams⟩ := List.forall_mem_append.1 h
    unfold Ty.leavesIn
    exact List.forall_mem_append.2
      ⟨Ty.forall_leavesIn false ret hret, Ty.forall_leavesAll params hparams⟩
  | .record ref, h | .enum ref, h => by
    unfold Ty.leavesIn
    exact fun l hl => List.mem_singleton.1 hl ▸ hn.refName (h _ List.mem_cons_self)
  | .templateSpecialization template args, h => by
    unfold Ty.spellings at h
    obtain ⟨htemplate, hargs⟩ := List.forall_mem_cons.1 h
    unfold Ty.leavesIn
    exact List.forall_mem_cons.2 ⟨htemplate, TemplateArg.forall_leavesAll args hargs⟩
  | .typedef name underlying, h => by
    unfold Ty.spellings at h
    obtain ⟨hname, hunderlying⟩ := List.forall_mem_cons.1 h
    unfold Ty.leavesIn
    split
    · exact Ty.forall_leavesIn true underlying hunderlying
    · exact fun l hl => List.mem_singleton.1 hl ▸ hname
  | .templateParam name, h | .dependent name, h => by
    unfold Ty.leavesIn
    exact h

theorem Ty.forall_leavesAll : (tys : List Ty) → (∀ s ∈ Ty.spellingsAll tys, P s) →
    ∀ l ∈ Ty.leavesAll names tys, P l
  | [], _ => fun l hl => by
    unfold Ty.leavesAll at hl
    exact absurd hl List.not_mem_nil
  | ty :: tys, h => by
    unfold Ty.spellingsAll at h
    obtain ⟨hty, htys⟩ := List.forall_mem_append.1 h
    unfold Ty.leavesAll
    exact List.forall_mem_append.2
      ⟨Ty.forall_leavesIn false ty hty, Ty.forall_leavesAll tys htys⟩

theorem TemplateArg.forall_leaves : (arg : TemplateArg) → (∀ s ∈ arg.spellings, P s) →
    ∀ l ∈ arg.leaves names, P l
  | .type ty, h => by
    unfold TemplateArg.leaves
    exact Ty.forall_leavesIn false ty h
  | .integral _ _ _, _ => fun l hl => by
    unfold TemplateArg.leaves at hl
    exact absurd hl List.not_mem_nil
  | .expression spelling, h => by
    unfold TemplateArg.leaves
    exact h

theorem TemplateArg.forall_leavesAll : (args : List TemplateArg) →
    (∀ s ∈ TemplateArg.spellingsAll args, P s) → ∀ l ∈ TemplateArg.leavesAll names args, P l
  | [], _ => fun l hl => by
    unfold TemplateArg.leavesAll at hl
    exact absurd hl List.not_mem_nil
  | arg :: args, h => by
    unfold TemplateArg.spellingsAll at h
    obtain ⟨harg, hargs⟩ := List.forall_mem_append.1 h
    unfold TemplateArg.leavesAll
    exact List.forall_mem_append.2
      ⟨TemplateArg.forall_leaves arg harg, TemplateArg.forall_leavesAll args hargs⟩

end

end

end DBindings
