import DBindings.Proofs.Printing.ClosedLeaves

/-!
# The characters of a text

Names and spellings are handed over as they are; what the printer writes between them has neither
quotes nor line feeds.  So if names and spellings have only characters of some kind, and ordinary
characters are of this kind, then the printed leaves have only such characters too.

* `Text.All`            every character of a text is allowed;
* `Text.Admits`         ordinary characters are allowed;
* `Text.AdmitsPhrases`  so are those of them that end no statement;
* `Ty.all_render`       the text of a type;
* `Literal.all_float`   numbers.
-/

set_option linter.unusedSectionVars false

namespace DBindings

namespace Text

/-- Every character of a text is allowed. -/
def All (ok : Char → Bool) (s : String) : Prop := ∀ c ∈ s.toList, ok c = true

instance (ok : Char → Bool) (s : String) : Decidable (All ok s) :=
  List.decidableBAll (fun c => ok c = true) s.toList

/-- Neither a quote nor a line feed. -/
def isOrdinary (c : Char) : Bool := c != '"' && c != '\'' && c != '\n'

/-- Ordinary characters are allowed. -/
def Admits (ok : Char → Bool) : Prop := ∀ c, isOrdinary c = true → ok c = true

/-- An ordinary character that ends no statement. -/
def isPhrase (c : Char) : Bool := isOrdinary c && c != ';'

/-- The characters of expressions are allowed. -/
def AdmitsPhrases (ok : Char → Bool) : Prop := ∀ c, isPhrase c = true → ok c = true

variable {ok : Char → Bool} {a b s : String}

theorem all_append (ha : All ok a) (hb : All ok b) : All ok (a ++ b) := by
  intro c hc
  rw [String.toList_append] at hc
  rcases List.mem_append.1 hc with hc | hc
  · exact ha c hc
  · exact hb c hc

theorem all_intercalate {ts : List String} (hs : All ok s) (h : ∀ t ∈ ts, All ok t) :
    All ok (String.intercalate s ts) :=
  intercalate_of_append (fun _ hc => absurd hc List.not_mem_nil) all_append hs h

theorem Admits.all (hok : Admits ok) (h : All isOrdinary s) : All ok s := fun c hc => hok c (h c hc)

theorem Admits.phrases (hok : Admits ok) : AdmitsPhrases ok :=
  fun c hc => hok c (Bool.and_eq_true_iff.1 hc).1

section
variable (hok : AdmitsPhrases ok)
include hok

theorem AdmitsPhrases.all (h : All isPhrase s) : All ok s := fun c hc => hok c (h c hc)

theorem AdmitsPhrases.all_empty : All ok "" := hok.all (by decide)

theorem AdmitsPhrases.all_ite (c : Prop) [Decidable c] (h : All isPhrase s) :
    All ok (if c then s else "") := by
  split
  · exact hok.all h
  · exact hok.all_empty

theorem AdmitsPhrases.all_dotted (h : All ok s) : All ok (dotted s) := by
  intro c hc
  unfold dotted at hc
  rw [String.toList_ofList] at hc
  rcases mem_replacePair hc with rfl | hc
  · exact hok '.' (by decide)
  · exact h c hc

theorem AdmitsPhrases.all_dottedArrows (h : All ok s) : All ok (dottedArrows s) := by
  intro c hc
  unfold dottedArrows at hc
  rw [String.toList_ofList] at hc
  rcases mem_replacePair hc with rfl | hc
  · exact hok '.' (by decide)
  · exact h c hc

theorem AdmitsPhrases.of_lacks {p : Char → Bool}
    (h : ("\"'\n;".toList.all fun d => !p d) = true) {c : Char} (hc : p c = true) :
    ok c = true := by
  have hne := ne_of_lacks h hc
  refine hok c ?_
  simp [isPhrase, isOrdinary, hne '"' (by decide), hne '\'' (by decide), hne '\n' (by decide),
    hne ';' (by decide)]

theorem AdmitsPhrases.of_isDigit {c : Char} (h : c.isDigit = true) : ok c = true :=
  hok.of_lacks (by decide) h

theorem AdmitsPhrases.all_toString (n : Nat) : All ok (toString n) :=
  fun _ hc => hok.of_isDigit (isDigit_of_mem_toString hc)

theorem AdmitsPhrases.all_toString_int (n : Int) : All ok (toString n) := by
  cases n with
  | ofNat n => exact hok.all_toString n
  | negSucc n =>
    exact all_append (hok.all (by decide : All isPhrase "-")) (hok.all_toString (n + 1))

end

end Text

open Text

section
variable {ok : Char → Bool} (hok : AdmitsPhrases ok)
include hok

theorem Identifier.all_sanitize {s : String} (h : All ok s) : All ok (Identifier.sanitize s) := by
  unfold Identifier.sanitize
  split
  · exact all_append h (hok.all (by decide))
  · exact h

/-! ## Numbers -/

namespace Literal

theorem all_integer (value : Int) (kind : Builtin) : All ok (integer value kind) :=
  all_append (hok.all_toString_int value) (hok.all (by cases kind <;> decide))

theorem all_finiteText (negative : Bool) (mantissa : Nat) (exponent : Int) :
    All ok (finiteText negative mantissa exponent) := by
  have hsign : All isPhrase (if negative then "-" else "") := by cases negative <;> decide
  unfold finiteText
  dsimp only
  refine all_append (all_append (hok.all hsign) fun c hc => ?_) ?_
  · rcases mem_positional hc with h | rfl
    · exact hok.of_isDigit h
    · exact hok '.' (by decide)
  · split
    · exact hok.all_empty
    · exact hok.all (by decide)

theorem all_float (value : Binary64) (kind : Builtin) : All ok (float value kind) := by
  have hname : All ok (floatTypeName kind) := hok.all (by cases kind <;> decide)
  cases value with
  | nan => exact all_append hname (hok.all (by decide))
  | infinite negative =>
    exact all_append (all_append (hok.all_ite _ (by decide)) hname) (hok.all (by decide))
  | finite negative mantissa exponent =>
    exact all_append (all_finiteText hok negative mantissa exponent) (hok.all_ite _ (by decide))

end Literal

/-! ## Types -/

theorem Composed.all {L K : List String} {s : String} (h : Composed L K s)
    (hL : ∀ l ∈ L, All ok l) : All ok s := by
  induction h with
  | leaf s => exact hok.all_dotted (hL s List.mem_cons_self)
  | word hw => exact fun c hc => hok.of_lacks (by decide) (hw c hc)
  | pointer _ ih => exact all_append (ih hL) (hok.all (by decide))
  | reference _ ih => exact all_append (hok.all (by decide)) (ih hL)
  | constant _ ih =>
    exact all_append (all_append (hok.all (by decide)) (ih hL)) (hok.all (by decide))
  | comma _ _ ih ih' =>
    obtain ⟨hl, hl'⟩ := List.forall_mem_append.1 hL
    exact all_append (all_append (ih hl) (hok.all (by decide))) (ih' hl')
  | bracketed hmark _ _ ih ih' =>
    obtain ⟨hl, hl'⟩ := List.forall_mem_append.1 hL
    have hpair : ∀ m ∈ brackets, All isPhrase m.1 ∧ All isPhrase m.2 := by decide
    obtain ⟨ho, hc⟩ := hpair _ hmark
    exact all_append (all_append (all_append (ih hl) (hok.all ho)) (ih' hl')) (hok.all hc)

theorem all_commaSeparated {ts : List String} (h : ∀ t ∈ ts, All ok t) :
    All ok (commaSeparated ts) := all_intercalate (hok.all (by decide)) h

variable {names : NameTable} (hn : names.Spelled (All ok))
include hn

theorem TemplateArg.all_renderAll {args : List TemplateArg}
    (h : ∀ s ∈ TemplateArg.spellingsAll args, All ok s) :
    ∀ t ∈ TemplateArg.renderAll names args, All ok t :=
  (TemplateArg.composed_renderAll args).forall (Composed.all hok)
    (TemplateArg.forall_leavesAll hn args h)

theorem Ty.all_render {ty : Ty} (h : ∀ s ∈ ty.spellings, All ok s) : All ok (ty.render names) :=
  ty.composed.all hok (Ty.forall_leavesIn hn false ty h)

end

end DBindings
