import DBindings.TypeText

/-!
# Types that are spelled with a name

D spells some types with one name, under all qualifiers but `const`.  The spelling of every other
type has a mark that no name has: a blank, a star or a bracket.

* `Text.IsMarked`        a text has a mark;
* `Text.dotted_of_plain` how a name without colons is spelled;
* `Ty.word?`             the name that a type is spelled with;
* `Ty.render_of_word`    such a type is spelled with this name;
* `Ty.mark_of_no_word`   any other type is spelled with a mark.
-/

namespace DBindings

namespace Text

/-- The marks that D puts around the parts of a type. -/
def marks : List Char := ['*', '(', '[', ' ']

/-- The text has a mark. -/
def IsMarked (s : String) : Prop := ∃ c ∈ marks, c ∈ s.toList

theorem IsMarked.append_left {s : String} (h : IsMarked s) (t : String) : IsMarked (s ++ t) := by
  obtain ⟨c, hc, hs⟩ := h
  exact ⟨c, hc, by rw [String.toList_append]; exact List.mem_append_left _ hs⟩

theorem IsMarked.append_right {t : String} (h : IsMarked t) (s : String) : IsMarked (s ++ t) := by
  obtain ⟨c, hc, ht⟩ := h
  exact ⟨c, hc, by rw [String.toList_append]; exact List.mem_append_right _ ht⟩

theorem IsMarked.ne_empty {s : String} (h : IsMarked s) : s ≠ "" := by
  rintro rfl
  obtain ⟨c, -, hc⟩ := h
  exact absurd hc List.not_mem_nil

theorem replacePair_ne_nil (a b c x : Char) (cs : List Char) :
    replacePair a b c (x :: cs) ≠ [] := by
  cases cs with
  | nil => exact List.cons_ne_nil _ _
  | cons y rest =>
    rw [replacePair]
    split
    · exact List.cons_ne_nil _ _
    · exact List.cons_ne_nil _ _

theorem dotted_eq_empty_iff {s : String} : dotted s = "" ↔ s = "" := by
  rw [dotted, String.ofList_eq_empty_iff, ← String.toList_eq_nil_iff]
  cases s.toList with
  | nil => exact Iff.rfl
  | cons x cs => exact iff_of_false (replacePair_ne_nil _ _ _ x cs) (List.cons_ne_nil x cs)

theorem replacePair_of_not_mem {a b c : Char} :
    (cs : List Char) → a ∉ cs → replacePair a b c cs = cs
  | [], _ | [_], _ => rfl
  | x :: y :: rest, h => by
    have hpair : ¬ (x = a ∧ y = b) := fun hpair => h (hpair.1 ▸ List.mem_cons_self)
    rw [replacePair, if_neg hpair,
      replacePair_of_not_mem (y :: rest) fun hmem => h (List.mem_cons_of_mem _ hmem)]

theorem dotted_of_plain {s : String} (h : ':' ∉ s.toList) : dotted s = s := by
  rw [dotted, replacePair_of_not_mem _ h, String.ofList_toList]

end Text

namespace Ty
variable {names : NameTable}

/-- The name that a type is spelled with, if there is nothing else in its spelling. -/
def word? (names : NameTable) : Ty → Option String
  | builtin kind => some kind.dName
  | record ref | enum ref => some (names.refName ref)
  | typedef name _ | templateParam name | dependent name => some name
  | qualified isConst inner => if isConst then none else word? names inner
  | pointer _ | reference _ _ | constantArray _ _ | array _ | function _ _ _
  | templateSpecialization _ _ => none

theorem render_of_word {w : String} : (ty : Ty) → ty.word? names = some w →
    ty.render names = Text.dotted w
  | builtin _, h | record _, h | enum _, h | typedef _ _, h | templateParam _, h
  | dependent _, h => by
    rw [← Option.some.inj h]
    unfold render renderIn
    rfl
  | qualified false inner, h => by
    unfold render renderIn
    exact render_of_word inner h
  | qualified true _, h | pointer _, h | reference _ _, h | constantArray _ _, h | array _, h
  | function _ _ _, h | templateSpecialization _ _, h => nomatch h

theorem isMarked_function (bare : Bool) (ret : Ty) (params : List Ty) (variadic : Bool) :
    Text.IsMarked (renderIn names bare (.function ret params variadic)) := by
  rw [renderIn]
  have hmark : Text.IsMarked " function(" := ⟨'(', by decide, by decide⟩
  exact ((hmark.append_right _).append_left _).append_left _

theorem isMarked_of_isFunction : (ty : Ty) → ty.isFunction = true →
    Text.IsMarked (renderIn names true ty)
  | function ret params variadic, _ => isMarked_function true ret params variadic
  | qualified isConst inner, h => by
    have hbare : renderIn names true (.qualified isConst inner) = renderIn names true inner := by
      rw [renderIn, Bool.not_true, Bool.and_false, if_neg Bool.false_ne_true]
    rw [hbare]
    exact isMarked_of_isFunction inner h
  | typedef name underlying, h => by
    have hbare : renderIn names true (.typedef name underlying) =
        renderIn names true underlying := by
      rw [renderIn, if_pos rfl]
    rw [hbare]
    exact isMarked_of_isFunction underlying h
  | builtin _, h | pointer _, h | reference _ _, h | constantArray _ _, h | array _, h
  | record _, h | enum _, h | templateSpecialization _ _, h | templateParam _, h
  | dependent _, h => nomatch h

/-- Any other type is spelled with a mark. -/
theorem mark_of_no_word : (ty : Ty) → ty.word? names = none → Text.IsMarked (ty.render names)
  | pointer inner, _ => by
    unfold render renderIn
    by_cases hfunction : inner.isFunction = true
    · rw [if_pos hfunction]
      exact isMarked_of_isFunction inner hfunction
    · rw [if_neg hfunction]
      exact Text.IsMarked.append_right ⟨'*', by decide, by decide⟩ _
  | reference inner _, _ => by
    unfold render renderIn
    exact Text.IsMarked.append_left ⟨' ', by decide, by decide⟩ _
  | constantArray element size, _ => by
    unfold render renderIn
    have hmark : Text.IsMarked "[" := ⟨'[', by decide, by decide⟩
    exact ((hmark.append_right _).append_left _).append_left _
  | array element, _ => by
    unfold render renderIn
    exact Text.IsMarked.append_right ⟨'[', by decide, by decide⟩ _
  | function ret params variadic, _ => isMarked_function false ret params variadic
  | templateSpecialization template args, _ => by
    unfold render renderIn
    have hmark : Text.IsMarked "!(" := ⟨'(', by decide, by decide⟩
    exact ((hmark.append_right _).append_left _).append_left _
  | qualified true inner, _ => by
    unfold render renderIn
    have hmark : Text.IsMarked "const(" := ⟨'(', by decide, by decide⟩
    rw [Bool.not_false, Bool.and_true, if_pos rfl]
    exact (hmark.append_left _).append_left _
  | qualified false inner, h => by
    have hinner : (qualified false inner).render names = inner.render names := by
      unfold render
      rw [renderIn]
      rfl
    rw [hinner]
    exact mark_of_no_word inner h
  | builtin _, h | record _, h | enum _, h | typedef _ _, h | templateParam _, h
  | dependent _, h => nomatch h

end Ty
end DBindings
