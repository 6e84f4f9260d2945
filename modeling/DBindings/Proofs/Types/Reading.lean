import DBindings.Proofs.Text.Brackets
import DBindings.Proofs.Types.Essence
import Mathlib.Data.List.Infix
import Mathlib.Data.List.Induction

/-!
# Reading a type back

The D spelling of a type is read from its end.  The last character tells a pointer, an array, and
what ends with a list in parentheses from a name, and the rest is read in the same way.  A name may
end in another name, so one has to know where it begins: at the start of the text, behind a
parenthesis, behind a comma, or behind `ref`.

* `DType.Opens`           a text behind which a type may begin;
* `DType.IsName`          a name that does not hide such a place;
* `DType.Legible.reads`   a type behind such a text can be told from any other one;
* `Ty.render_eq_render_iff`   two types are written alike if the same is left of them.
-/

namespace DBindings
namespace DType

/-! ## Names -/

/-- What a type may begin behind. -/
def openers : List (List Char) := [['('], [',', ' '], ['r', 'e', 'f', ' ']]

/-- A type may begin behind this text. -/
def Opens (l : List Char) : Prop := l = [] ∨ ∃ o ∈ openers, o <:+ l

/-- A parameter may begin behind this text. -/
def Parts (l : List Char) : Prop := l = [] ∨ ['('] <:+ l ∨ [',', ' '] <:+ l

/-- The marks that another type than a name ends with, and those in front of a name. -/
def marks : List Char := ['*', ']', ')', '(', '.']

/-- A name: a type that begins within it begins where it does itself. -/
def IsName (name : List Char) : Prop :=
  (∃ c ∈ name.getLast?, c ∉ marks) ∧
    ∀ o ∈ openers, ¬ o <:+: name ∧ ∀ part ∈ o.tails, part ≠ [] → ¬ part <+: name

instance (name : List Char) : Decidable (IsName name) :=
  letI : Decidable (∃ c ∈ name.getLast?, c ∉ marks) := Option.decidableExistsMem _
  inferInstanceAs (Decidable (_ ∧ _))

theorem Parts.opens {l : List Char} (h : Parts l) : Opens l := by
  rcases h with h | h | h
  · exact Or.inl h
  · exact Or.inr ⟨_, by decide, h⟩
  · exact Or.inr ⟨_, by decide, h⟩

/-- Behind `ref` a type begins that is no parameter of its own. -/
theorem not_parts_ref (l : List Char) : ¬ Parts (l ++ ['r', 'e', 'f', ' ']) := by
  rintro (h | ⟨m, h⟩ | ⟨m, h⟩)
  · simp at h
  · have hlast := congrArg List.getLast? h
    simp at hlast
  · have hlast := congrArg (fun l => l.dropLast.getLast?) h
    simp at hlast

theorem IsName.eq_nil {l part rest : List Char} (h : IsName (part ++ rest))
    (hopens : Opens (l ++ part)) : part = [] := by
  rcases hopens with hnil | ⟨o, ho, hsuffix⟩
  · exact (List.append_eq_nil_iff.1 hnil).2
  · obtain ⟨hinside, hparts⟩ := h.2 o ho
    rcases List.suffix_or_suffix_of_suffix hsuffix (List.suffix_append l part) with hs | hs
    · exact absurd (hs.isInfix.trans (List.prefix_append part rest).isInfix) hinside
    · by_contra hne
      exact hparts part ((List.mem_tails _ _).2 hs) hne (List.prefix_append part rest)

theorem IsName.reads {l l' name name' : List Char} (h : IsName name) (h' : IsName name')
    (hl : Opens l) (hl' : Opens l') (heq : l ++ name = l' ++ name') : l = l' ∧ name = name' := by
  rcases List.append_eq_append_iff.1 heq with ⟨part, rfl, rfl⟩ | ⟨part, rfl, rfl⟩
  · rw [h.eq_nil hl', List.append_nil, List.nil_append]
    exact ⟨rfl, rfl⟩
  · rw [h'.eq_nil hl, List.append_nil, List.nil_append]
    exact ⟨rfl, rfl⟩

end DType

namespace Builtin

theorem isName_dName (kind : Builtin) : DType.IsName (Text.dotted kind.dName).toList := by
  cases kind <;> decide +kernel

theorem dName_eq_of_dotted {kind kind' : Builtin}
    (h : Text.dotted kind.dName = Text.dotted kind'.dName) : kind.dName = kind'.dName := by
  let undotted (s : String) : String := if s = "std.nullptr_t" then "std::nullptr_t" else s
  have hundotted : ∀ k : Builtin, undotted (Text.dotted k.dName) = k.dName := by
    intro k
    cases k <;> decide +kernel
  rw [← hundotted kind, h, hundotted]

end Builtin

namespace DType

/-! ## Types that can be read -/

def chars (ty : DType) : List Char := ty.print.toList

/-- What a reference refers to, and another type itself. -/
def referent : DType → DType
  | ref inner => inner
  | ty => ty

/-- The names in the type are those of builtin kinds, and references are parameters only. -/
inductive Legible : DType → Prop where
  | named (kind : Builtin) : Legible (.named kind.dName)
  | pointer {inner : DType} : Legible inner → Legible (.pointer inner)
  | constant {inner : DType} : Legible inner → Legible (.constant inner)
  | sized {element : DType} (size : Nat) : Legible element → Legible (.sized element size)
  | slice {element : DType} : Legible element → Legible (.slice element)
  | function {ret : DType} {params : List DType} (variadic : Bool) :
    Legible ret → (∀ p ∈ params, Legible p.referent) → Legible (.function ret params variadic)

/-- What stands between the parentheses behind a type: types, and the mark for further ones. -/
abbrev Item := Option DType

def Item.chars : Item → List Char
  | some ty => ty.chars
  | none => ['.', '.', '.']

/-- Items with commas between them. -/
def list (items : List Item) : List Char := [',', ' '].intercalate (items.map Item.chars)

theorem list_singleton (item : Item) : list [item] = item.chars := List.intercalate_singleton

def items (params : List DType) (variadic : Bool) : List Item :=
  params.map some ++ if variadic then [none] else []

theorem items_injective {params params' : List DType} {variadic variadic' : Bool}
    (h : items params variadic = items params' variadic') :
    params = params' ∧ variadic = variadic' := by
  have hsome : ∀ (ps : List DType) (v : Bool), (items ps v).filterMap id = ps := by
    intro ps v
    unfold items
    cases v <;> simp
  have hnone : ∀ (ps : List DType) (v : Bool), (none ∈ items ps v) ↔ v = true := by
    intro ps v
    unfold items
    cases v <;> simp
  refine ⟨?_, ?_⟩
  · rw [← hsome params variadic, h, hsome]
  · rw [Bool.eq_iff_iff, ← hnone params, h, hnone]

/-! ## The characters of a type -/

theorem chars_named (name : String) : (named name).chars = (Text.dotted name).toList := by
  rw [chars, print]

theorem chars_pointer (inner : DType) : (pointer inner).chars = inner.chars ++ ['*'] := by
  rw [chars, print, String.toList_append]
  rfl

theorem chars_sized (element : DType) (size : Nat) :
    (sized element size).chars = element.chars ++ '[' :: (toString size).toList ++ [']'] := by
  rw [chars, print, String.toList_append, String.toList_append, String.toList_append,
    List.append_assoc element.print.toList]
  rfl

theorem chars_slice (element : DType) :
    (slice element).chars = element.chars ++ '[' :: [] ++ [']'] := by
  rw [chars, print, String.toList_append, List.append_assoc]
  rfl

theorem chars_constant (inner : DType) :
    (constant inner).chars = ['c', 'o', 'n', 's', 't'] ++ '(' :: list [some inner] ++ [')'] := by
  rw [list_singleton, chars, print, String.toList_append, String.toList_append]
  rfl

theorem chars_function (ret : DType) (params : List DType) (variadic : Bool) :
    (function ret params variadic).chars =
      ret.chars ++ [' ', 'f', 'u', 'n', 'c', 't', 'i', 'o', 'n'] ++
        '(' :: list (items params variadic) ++ [')'] := by
  have hitems : (printAll params ++ if variadic then ["..."] else []).map String.toList =
      (items params variadic).map Item.chars := by
    unfold items
    rw [printAll_eq_map, List.map_append, List.map_append, List.map_map, List.map_map]
    cases variadic <;> rfl
  rw [chars, print, String.toList_append, String.toList_append, String.toList_append,
    commaSeparated, String.toList_intercalate, hitems]
  simp only [List.append_assoc]
  rfl

theorem chars_ref (inner : DType) : (ref inner).chars = ['r', 'e', 'f', ' '] ++ inner.chars := by
  rw [chars, print, String.toList_append]
  rfl

theorem list_concat (items : List Item) (item : Item) :
    list (items ++ [item]) =
      (if items = [] then [] else list items ++ [',', ' ']) ++ item.chars := by
  induction items with
  | nil => exact list_singleton item
  | cons first rest ih =>
    have hcons (second : Item) (tail : List Item) : list (first :: second :: tail) =
        first.chars ++ [',', ' '] ++ list (second :: tail) := List.intercalate_cons_cons
    cases rest with
    | nil =>
      rw [if_neg (List.cons_ne_nil _ _), List.cons_append, List.nil_append, hcons, list_singleton,
        list_singleton]
    | cons second rest =>
      rw [if_neg (List.cons_ne_nil _ _), List.cons_append, List.cons_append, hcons, hcons,
        ← List.cons_append, ih, if_neg (List.cons_ne_nil _ _)]
      simp only [List.append_assoc]

/-! ## The last character -/

/-- The character that a type of this form ends with, if it is not a name. -/
def mark? : DType → Option Char
  | named _ => none
  | pointer _ => some '*'
  | constant _ | function _ _ _ => some ')'
  | sized _ _ | slice _ => some ']'
  | ref inner => mark? inner

theorem mem_marks {ty : DType} {c : Char} (h : ty.mark? = some c) :
    c = '*' ∨ c = ')' ∨ c = ']' := by
  fun_induction mark? ty <;> grind

/-- A type ends with its mark, or with a character of a name. -/
theorem Legible.getLast? {ty : DType} (h : ty.Legible) :
    ∃ c, ty.chars.getLast? = some c ∧ (ty.mark? = some c ∨ ty.mark? = none ∧ c ∉ marks) := by
  cases h with
  | named kind =>
    obtain ⟨c, hc, hmark⟩ := kind.isName_dName.1
    rw [chars_named]
    exact ⟨c, hc, Or.inr ⟨rfl, hmark⟩⟩
  | pointer _ =>
    rw [chars_pointer]
    exact ⟨'*', List.getLast?_concat, Or.inl rfl⟩
  | constant _ =>
    rw [chars_constant]
    exact ⟨')', List.getLast?_concat, Or.inl rfl⟩
  | sized _ _ =>
    rw [chars_sized]
    exact ⟨']', List.getLast?_concat, Or.inl rfl⟩
  | slice _ =>
    rw [chars_slice]
    exact ⟨']', List.getLast?_concat, Or.inl rfl⟩
  | function _ _ _ =>
    rw [chars_function]
    exact ⟨')', List.getLast?_concat, Or.inl rfl⟩

theorem getLast?_append_of_some {l m : List Char} {c : Char} (h : m.getLast? = some c) :
    (l ++ m).getLast? = some c := by
  rw [List.getLast?_append, h, Option.some_or]

theorem mark?_eq {s t : DType} (hs : s.Legible) (ht : t.Legible) {l l' : List Char}
    (h : l ++ s.chars = l' ++ t.chars) : s.mark? = t.mark? := by
  obtain ⟨c, hc, hsmark⟩ := hs.getLast?
  obtain ⟨d, hd, htmark⟩ := ht.getLast?
  have hlast := congrArg List.getLast? h
  rw [getLast?_append_of_some hc, getLast?_append_of_some hd] at hlast
  obtain rfl := Option.some.inj hlast
  have hmem : ∀ ty : DType, ty.mark? = some c → c ∈ marks := by
    intro ty hty
    rcases mem_marks hty with rfl | rfl | rfl <;> decide
  rcases hsmark with hs | ⟨hs, hfree⟩ <;> rcases htmark with ht | ⟨ht, hfree'⟩
  · rw [hs, ht]
  · exact absurd (hmem s hs) hfree'
  · exact absurd (hmem t ht) hfree
  · rw [hs, ht]

/-! ## Items -/

/-- What stands in front of the type that a reference refers to. -/
def lead : DType → List Char
  | ref _ => ['r', 'e', 'f', ' ']
  | _ => []

theorem chars_eq_lead (ty : DType) : ty.chars = ty.lead ++ ty.referent.chars := by
  cases ty with
  | ref inner => exact chars_ref inner
  | _ => exact (List.nil_append _).symm

theorem eq_of_referent {s t : DType} (hlead : s.lead = t.lead) (h : s.referent = t.referent) :
    s = t := by
  cases s with
  | ref inner =>
    cases t with
    | ref inner' => exact congrArg ref h
    | _ => exact nomatch hlead
  | _ =>
    cases t with
    | ref inner' => exact nomatch hlead
    | _ => exact h

theorem Parts.opens_lead {l : List Char} (h : Parts l) (ty : DType) : Opens (l ++ ty.lead) := by
  cases ty with
  | ref inner =>
    have hmem : ['r', 'e', 'f', ' '] ∈ openers := by decide
    exact Or.inr ⟨_, hmem, List.suffix_append l _⟩
  | _ => exact (List.append_nil l).symm ▸ h.opens

theorem Parts.lead_inj {l l' : List Char} (hl : Parts l) (hl' : Parts l') {s t : DType}
    (h : l ++ s.lead = l' ++ t.lead) : l = l' ∧ s.lead = t.lead := by
  have hcases : ∀ ty : DType, ty.lead = [] ∨ ty.lead = ['r', 'e', 'f', ' '] := by
    intro ty
    cases ty <;> simp [lead]
  rcases hcases s with hs | hs <;> rcases hcases t with ht | ht
  · rw [hs, ht] at h ⊢
    exact ⟨by simpa using h, rfl⟩
  · rw [hs, ht, List.append_nil] at h
    exact absurd (h ▸ hl) (not_parts_ref l')
  · rw [hs, ht, List.append_nil] at h
    exact absurd (h ▸ hl') (not_parts_ref l)
  · rw [hs, ht] at h ⊢
    exact ⟨List.append_cancel_right h, rfl⟩

/-- Behind a text where a type may begin, this type can be told from any other one. -/
def Reads (s : DType) : Prop :=
  ∀ t, t.Legible → ∀ l l', Opens l → Opens l' → l ++ s.chars = l' ++ t.chars → l = l' ∧ s = t

/-- An item of types that can be read. -/
def Item.Legible : Item → Prop
  | some ty => ty.referent.Legible
  | none => True

/-- Behind a text where a parameter may begin, this item can be told from any other one. -/
def Item.Reads (x : Item) : Prop :=
  ∀ y : Item, y.Legible → ∀ l l', Parts l → Parts l' → l ++ x.chars = l' ++ y.chars →
    l = l' ∧ x = y

theorem Item.Legible.getLast? {x : Item} (h : x.Legible) :
    ∃ c, x.chars.getLast? = some c ∧ c ≠ '(' ∧ (c = '.' ↔ x = none) := by
  cases x with
  | none => exact ⟨'.', rfl, by decide, by simp⟩
  | some ty =>
    obtain ⟨c, hc, hmark⟩ := DType.Legible.getLast? h
    have hfree : c ≠ '(' ∧ c ≠ '.' := by
      rcases hmark with hmark | ⟨-, hmark⟩
      · rcases mem_marks hmark with rfl | rfl | rfl <;> decide
      · constructor
        all_goals
          rintro rfl
          exact hmark (by decide)
    refine ⟨c, ?_, hfree.1, ?_⟩
    · show ty.chars.getLast? = some c
      rw [chars_eq_lead]
      exact getLast?_append_of_some hc
    · exact iff_of_false hfree.2 (by simp)

theorem Item.eq_none_iff {x y : Item} (hx : x.Legible) (hy : y.Legible) {l l' : List Char}
    (h : l ++ x.chars = l' ++ y.chars) : x = none ↔ y = none := by
  obtain ⟨c, hc, -, hcnone⟩ := hx.getLast?
  obtain ⟨d, hd, -, hdnone⟩ := hy.getLast?
  have hlast := congrArg List.getLast? h
  rw [getLast?_append_of_some hc, getLast?_append_of_some hd] at hlast
  rw [← hcnone, ← hdnone, Option.some.inj hlast]

theorem Item.reads_none : Item.Reads none := by
  intro y hy l l' _ _ heq
  obtain rfl := (Item.eq_none_iff (x := none) trivial hy heq).1 rfl
  exact ⟨List.append_cancel_right heq, rfl⟩

theorem Item.reads_some {p : DType} (hp : p.referent.Legible) (h : p.referent.Reads) :
    Item.Reads (some p) := by
  intro y hy l l' hl hl' heq
  cases y with
  | none => exact nomatch (Item.eq_none_iff (x := some p) hp hy heq).2 rfl
  | some q =>
    change l ++ p.chars = l' ++ q.chars at heq
    rw [chars_eq_lead p, chars_eq_lead q, ← List.append_assoc, ← List.append_assoc] at heq
    obtain ⟨hcontext, hreferent⟩ := h q.referent hy _ _ (hl.opens_lead p) (hl'.opens_lead q) heq
    obtain ⟨hll, hlead⟩ := hl.lead_inj hl' hcontext
    exact ⟨hll, congrArg some (eq_of_referent hlead hreferent)⟩

/-! ## Lists in parentheses -/

/-- The text in front of the last of some items. -/
def before (context : List Char) (items : List Item) : List Char :=
  context ++ '(' :: if items = [] then [] else list items ++ [',', ' ']

theorem parts_before (context : List Char) (items : List Item) : Parts (before context items) := by
  unfold before
  split
  · exact Or.inr (Or.inl (List.suffix_append _ _))
  · exact Or.inr (Or.inr ⟨context ++ '(' :: list items, by simp⟩)

theorem list_reads {xs ys : List Item} (hlegible : ∀ x ∈ xs, x.Legible)
    (hreads : ∀ x ∈ xs, x.Reads) (hys : ∀ y ∈ ys, y.Legible) {c c' : List Char}
    (h : c ++ '(' :: list xs = c' ++ '(' :: list ys) : c = c' ∧ xs = ys := by
  have hopen : ∀ {zs : List Item} {z : Item} {c c' : List Char}, z.Legible →
      c ++ ['('] ≠ c' ++ '(' :: list (zs ++ [z]) := by
    intro zs z c c' hz heq
    obtain ⟨d, hd, hne, -⟩ := hz.getLast?
    have hlast := congrArg List.getLast? heq
    rw [list_concat, ← List.cons_append, ← List.append_assoc, List.getLast?_concat,
      getLast?_append_of_some hd] at hlast
    exact hne (Option.some.inj hlast).symm
  have hcomma : ∀ {zs : List Item} {c c' : List Char}, zs ≠ [] → before c [] ≠ before c' zs := by
    intro zs c c' hzs heq
    have hblank : before c' zs = c' ++ '(' :: list zs ++ [','] ++ [' '] := by simp [before, hzs]
    have hlast := congrArg List.getLast? heq
    rw [hblank, List.getLast?_concat] at hlast
    simp [before] at hlast
  induction xs using List.reverseRecOn generalizing ys with
  | nil =>
    induction ys using List.reverseRecOn with
    | nil => exact ⟨List.append_cancel_right h, rfl⟩
    | append_singleton ys y _ => exact absurd h (hopen (hys y (by simp)))
  | append_singleton xs x ih =>
    induction ys using List.reverseRecOn with
    | nil => exact absurd h.symm (hopen (hlegible x (by simp)))
    | append_singleton ys y _ =>
      rw [list_concat, list_concat, ← List.cons_append, ← List.cons_append, ← List.append_assoc,
        ← List.append_assoc] at h
      obtain ⟨hbefore, rfl⟩ := hreads x (by simp) y (hys y (by simp)) (before c xs) (before c' ys)
        (parts_before c xs) (parts_before c' ys) h
      have hrest : c = c' ∧ xs = ys := by
        by_cases hxs : xs = []
        · by_cases hnil : ys = []
          · subst hxs hnil
            exact ⟨List.append_cancel_right hbefore, rfl⟩
          · subst hxs
            exact absurd hbefore (hcomma hnil)
        · by_cases hnil : ys = []
          · subst hnil
            exact absurd hbefore.symm (hcomma hxs)
          · refine ih (fun z hz => hlegible z (by simp [hz])) (fun z hz => hreads z (by simp [hz]))
              (fun z hz => hys z (by simp [hz])) ?_
            rw [before, before, if_neg hxs, if_neg hnil, ← List.cons_append, ← List.cons_append,
              ← List.append_assoc, ← List.append_assoc] at hbefore
            exact List.append_cancel_right hbefore
      exact ⟨hrest.1, by rw [hrest.2]⟩

/-! ## Types -/

theorem Legible.items {params : List DType} (h : ∀ p ∈ params, p.referent.Legible)
    (variadic : Bool) : ∀ x ∈ items params variadic, x.Legible := by
  intro x hx
  cases x with
  | none => trivial
  | some p =>
    refine h p ?_
    rcases List.mem_append.1 hx with hx | hx
    · simpa using hx
    · cases variadic <;> simp at hx

theorem Reads.items {params : List DType} (hlegible : ∀ p ∈ params, p.referent.Legible)
    (h : ∀ p ∈ params, p.referent.Reads) (variadic : Bool) :
    ∀ x ∈ items params variadic, x.Reads := by
  intro x hx
  cases x with
  | none => exact Item.reads_none
  | some p =>
    have hp : p ∈ params := by
      rcases List.mem_append.1 hx with hx | hx
      · simpa using hx
      · cases variadic <;> simp at hx
    exact Item.reads_some (hlegible p hp) (h p hp)

theorem append_concat_inj {l l' a a' : List Char} {c : Char}
    (h : l ++ (a ++ [c]) = l' ++ (a' ++ [c])) : l ++ a = l' ++ a' := by
  rw [← List.append_assoc, ← List.append_assoc] at h
  exact List.append_cancel_right h

theorem append_cons_inj {a a' d d' : List Char} {x : Char} (hd : x ∉ d) (hd' : x ∉ d')
    (h : a ++ x :: d = a' ++ x :: d') : a = a' ∧ d = d' := by
  rcases List.append_eq_append_iff.1 h with ⟨m, rfl, hm⟩ | ⟨m, rfl, hm⟩
  · cases m with
    | nil => exact ⟨(List.append_nil a).symm, (List.cons.inj hm).2⟩
    | cons y m =>
      have hmem : x ∈ d := by
        rw [(List.cons.inj hm).2]
        simp
      exact absurd hmem hd
  · cases m with
    | nil => exact ⟨List.append_nil a', ((List.cons.inj hm).2).symm⟩
    | cons y m =>
      have hmem : x ∈ d' := by
        rw [(List.cons.inj hm).2]
        simp
      exact absurd hmem hd'

theorem not_mem_toString (n : Nat) : '[' ∉ (toString n).toList := by
  intro h
  exact absurd (isDigit_of_mem_toString h) (by decide)

theorem Legible.referent {ty : DType} (h : ty.Legible) : ty.referent = ty := by
  cases h <;> rfl

theorem Item.legible_some {ty : DType} (h : ty.Legible) : Item.Legible (some ty) := by
  show ty.referent.Legible
  rwa [h.referent]

/-- A list in parentheses at the end is told from any other one, and so is what is in front. -/
theorem parenthesized_inj {l l' a a' : List Char} {xs ys : List Item}
    (hlegible : ∀ x ∈ xs, x.Legible) (hreads : ∀ x ∈ xs, x.Reads) (hys : ∀ y ∈ ys, y.Legible)
    (h : l ++ (a ++ '(' :: list xs ++ [')']) = l' ++ (a' ++ '(' :: list ys ++ [')'])) :
    l ++ a = l' ++ a' ∧ xs = ys := by
  have hconcat := append_concat_inj h
  rw [← List.append_assoc, ← List.append_assoc] at hconcat
  exact list_reads hlegible hreads hys hconcat

theorem const_ne_function (l l' : List Char) :
    l ++ ['c', 'o', 'n', 's', 't'] ≠ l' ++ [' ', 'f', 'u', 'n', 'c', 't', 'i', 'o', 'n'] := by
  intro h
  have hlast := congrArg List.getLast? h
  simp at hlast

/-- A type that can be read is told from any other one. -/
theorem Legible.reads {s : DType} (h : s.Legible) : s.Reads := by
  induction h with
  | named kind =>
    intro t ht l l' hl hl' heq
    have hmark := mark?_eq (.named kind) ht heq
    cases ht with
    | named kind' =>
      rw [chars_named, chars_named] at heq
      obtain ⟨hll, hname⟩ := kind.isName_dName.reads kind'.isName_dName hl hl' heq
      exact ⟨hll,
        congrArg DType.named (Builtin.dName_eq_of_dotted (String.toList_injective hname))⟩
    | _ => exact nomatch hmark
  | @pointer inner hinner ih =>
    intro t ht l l' hl hl' heq
    have hmark := mark?_eq (.pointer hinner) ht heq
    cases ht with
    | @pointer inner' hinner' =>
      rw [chars_pointer, chars_pointer] at heq
      obtain ⟨hll, rfl⟩ := ih inner' hinner' l l' hl hl' (append_concat_inj heq)
      exact ⟨hll, rfl⟩
    | _ => exact nomatch hmark
  | @constant inner hinner ih =>
    intro t ht l l' hl hl' heq
    have hmark := mark?_eq (.constant hinner) ht heq
    have hlegible : ∀ x ∈ [some inner], Item.Legible x :=
      List.forall_mem_singleton.2 (Item.legible_some hinner)
    have hreads : ∀ x ∈ [some inner], Item.Reads x :=
      List.forall_mem_singleton.2
        (Item.reads_some (Item.legible_some hinner) (hinner.referent.symm ▸ ih))
    cases ht with
    | @constant inner' hinner' =>
      rw [chars_constant, chars_constant] at heq
      obtain ⟨hconst, hitems⟩ := parenthesized_inj hlegible hreads
        (List.forall_mem_singleton.2 (Item.legible_some hinner')) heq
      exact ⟨List.append_cancel_right hconst,
        congrArg DType.constant (Option.some.inj (List.cons.inj hitems).1)⟩
    | @function ret params variadic hret hparams =>
      rw [chars_constant, chars_function] at heq
      obtain ⟨hconst, -⟩ := parenthesized_inj hlegible hreads (Legible.items hparams variadic) heq
      rw [← List.append_assoc] at hconst
      exact absurd hconst (const_ne_function l (l' ++ ret.chars))
    | _ => exact nomatch hmark
  | @sized element size helement ih =>
    intro t ht l l' hl hl' heq
    have hmark := mark?_eq (.sized size helement) ht heq
    cases ht with
    | @sized element' size' helement' =>
      rw [chars_sized, chars_sized] at heq
      have hconcat := append_concat_inj heq
      rw [← List.append_assoc, ← List.append_assoc] at hconcat
      obtain ⟨hfront, hsize⟩ :=
        append_cons_inj (not_mem_toString size) (not_mem_toString size') hconcat
      obtain ⟨hll, rfl⟩ := ih element' helement' l l' hl hl' hfront
      exact ⟨hll, congrArg _ (toString_injective (String.toList_injective hsize))⟩
    | @slice element' helement' =>
      rw [chars_sized, chars_slice] at heq
      have hconcat := append_concat_inj heq
      rw [← List.append_assoc, ← List.append_assoc] at hconcat
      obtain ⟨-, hsize⟩ := append_cons_inj (not_mem_toString size) List.not_mem_nil hconcat
      exact absurd hsize (toString_ne_nil size)
    | _ => exact nomatch hmark
  | @slice element helement ih =>
    intro t ht l l' hl hl' heq
    have hmark := mark?_eq (.slice helement) ht heq
    cases ht with
    | @sized element' size' helement' =>
      rw [chars_sized, chars_slice] at heq
      have hconcat := append_concat_inj heq
      rw [← List.append_assoc, ← List.append_assoc] at hconcat
      obtain ⟨-, hsize⟩ := append_cons_inj List.not_mem_nil (not_mem_toString size') hconcat
      exact absurd hsize.symm (toString_ne_nil size')
    | @slice element' helement' =>
      rw [chars_slice, chars_slice] at heq
      have hconcat := append_concat_inj heq
      rw [← List.append_assoc, ← List.append_assoc] at hconcat
      obtain ⟨hll, rfl⟩ := ih element' helement' l l' hl hl' (List.append_cancel_right hconcat)
      exact ⟨hll, rfl⟩
    | _ => exact nomatch hmark
  | @function ret params variadic hret hparams ih ihparams =>
    intro t ht l l' hl hl' heq
    have hmark := mark?_eq (.function variadic hret hparams) ht heq
    have hlegible := Legible.items hparams variadic
    have hreads := Reads.items hparams ihparams variadic
    cases ht with
    | @constant inner' hinner' =>
      rw [chars_constant, chars_function] at heq
      obtain ⟨hconst, -⟩ := parenthesized_inj hlegible hreads
        (List.forall_mem_singleton.2 (Item.legible_some hinner')) heq
      rw [← List.append_assoc] at hconst
      exact absurd hconst.symm (const_ne_function l' (l ++ ret.chars))
    | @function ret' params' variadic' hret' hparams' =>
      rw [chars_function, chars_function] at heq
      obtain ⟨hfront, hitems⟩ :=
        parenthesized_inj hlegible hreads (Legible.items hparams' variadic') heq
      rw [← List.append_assoc, ← List.append_assoc] at hfront
      obtain ⟨hll, rfl⟩ := ih ret' hret' l l' hl hl' (List.append_cancel_right hfront)
      obtain ⟨rfl, rfl⟩ := items_injective hitems
      exact ⟨hll, rfl⟩
    | _ => exact nomatch hmark

theorem legible_unqualified {ty : DType} (h : ty.Legible) : ty.unqualified.Legible := by
  induction h with
  | constant _ ih => exact ih
  | named kind => exact .named kind
  | pointer h _ => exact .pointer h
  | sized size h _ => exact .sized size h
  | slice h _ => exact .slice h
  | function variadic h hparams _ _ => exact .function variadic h hparams

end DType

namespace Ty

theorem Built.legible {outermost : Bool} {ty : Ty} (h : ty.Built outermost) :
    ty.essence.referent.Legible ∧ (outermost = false → ty.essence.Legible) := by
  have hvalue : ∀ {b : Bool} {d : DType}, d.Legible →
      d.referent.Legible ∧ (b = false → d.Legible) :=
    fun hd => ⟨hd.referent.symm ▸ hd, fun _ => hd⟩
  induction h with
  | builtin kind =>
    rw [essence]
    exact hvalue (.named kind)
  | @pointer _ inner _ ih =>
    rw [essence]
    split
    · exact hvalue (DType.legible_unqualified (ih.2 rfl))
    · exact hvalue (.pointer (ih.2 rfl))
  | @qualified _ inner isConst _ ih =>
    rw [essence]
    split
    · exact hvalue (.constant (ih.2 rfl))
    · exact hvalue (ih.2 rfl)
  | constantArray size _ ih =>
    rw [essence]
    exact hvalue (.sized size (ih.2 rfl))
  | array _ ih =>
    rw [essence]
    exact hvalue (.slice (ih.2 rfl))
  | function variadic _ _ ih ihparams =>
    rw [essence, essenceAll_eq_map]
    refine hvalue (.function variadic (ih.2 rfl) fun p hp => ?_)
    obtain ⟨q, hq, rfl⟩ := List.mem_map.1 hp
    exact (ihparams q hq).1
  | reference rvalue _ ih =>
    rw [essence]
    exact ⟨ih.2 rfl, fun hfalse => absurd hfalse.symm Bool.false_ne_true⟩

/-- Two types made of builtin kinds, pointers, qualifiers, arrays and functions, with references on
the outside of the type and of parameters only, are written alike exactly if the same is left of
them in D. -/
theorem render_eq_render_iff {names names' : NameTable} {a b : Ty} (ha : a.Built true)
    (hb : b.Built true) : a.render names = b.render names' ↔ a.essence = b.essence := by
  rw [render_eq ha, render_eq hb]
  constructor
  · intro h
    have hread := DType.Item.reads_some ha.legible.1 ha.legible.1.reads (some b.essence)
      hb.legible.1 [] [] (Or.inl rfl) (Or.inl rfl) (congrArg String.toList h)
    exact Option.some.inj hread.2
  · intro h
    rw [h]

/-- A reference to a constant pointer to a function, below qualifiers that are dropped, and to the
function itself. -/
theorem render_callback :
    let callback := function int [constRef char, (pointer float).rref] true
    let a := reference (qualified true (pointer (qualified true (qualified false callback)))) false
    let b := reference (qualified false (qualified true callback)) true
    a.Built true ∧ b.Built true ∧
      (a.render {} = b.render {} ↔ a.essence = b.essence) ∧ a.essence = b.essence := by
  intro callback a b
  have hcallback : callback.Built false := by
    refine .function true (.builtin _) ?_
    rintro p (_ | ⟨_, _ | ⟨_, hp⟩⟩)
    · exact .reference false (.qualified true (.builtin _))
    · exact .reference true (.pointer (.builtin _))
    · exact nomatch hp
  have ha : a.Built true :=
    .reference false (.qualified true (.pointer (.qualified true (.qualified false hcallback))))
  have hb : b.Built true := .reference true (.qualified false (.qualified true hcallback))
  exact ⟨ha, hb, render_eq_render_iff ha hb, rfl⟩

end Ty

end DBindings
