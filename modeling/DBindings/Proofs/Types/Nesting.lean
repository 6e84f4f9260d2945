import DBindings.Proofs.Text.Occurrences
import DBindings.Proofs.Types.Composed
import Mathlib.Algebra.GroupWithZero.Nat

/-!
# Brackets and constants in the spelling of a type

The marks around the leaves of a type open and close parentheses and square brackets in pairs.  The
parentheses that make a part constant are among them, and so they are closed from the innermost one
outwards.

* `Composed.balanced`     a text with balanced leaves is balanced, and so is what is constant in it;
* `Composed.occurrences`  where a part occurs that no mark has a share in;
* `ConstSpan`             a part of a text that is constant;
* `Encloses`              the constant parts of a text, nested in each other or side by side;
* `Ty.render_nested`      all this for the spelling of a type, which has no scope symbol either.
-/

namespace DBindings
open Text (Balanced)

/-! ## Parentheses and square brackets -/

theorem Text.balanced_of_isWord {w : String} (h : ∀ c ∈ w.toList, isWord c = true) :
    Balanced w :=
  balanced_of_no_grouping fun c hc => by
    have hne := ne_of_lacks (by decide : ("()[]".toList.all fun d => !isWord d) = true) (h c hc)
    simp [isGrouping, hne '(' (by decide), hne ')' (by decide), hne '[' (by decide),
      hne ']' (by decide)]

/-- A text with balanced leaves is balanced, and so is what is constant in it. -/
theorem Composed.balanced {L K : List String} {s : String} (h : Composed L K s)
    (hL : ∀ l ∈ L, Balanced l) : Balanced s ∧ ∀ k ∈ K, Balanced k := by
  induction h with
  | leaf s =>
    exact ⟨Text.balanced_dotted.2 (hL s List.mem_cons_self), fun k hk => absurd hk List.not_mem_nil⟩
  | word hw => exact ⟨Text.balanced_of_isWord hw, fun k hk => absurd hk List.not_mem_nil⟩
  | pointer _ ih =>
    obtain ⟨hs, hK⟩ := ih hL
    exact ⟨Text.balanced_append hs (by decide), hK⟩
  | reference _ ih =>
    obtain ⟨hs, hK⟩ := ih hL
    exact ⟨Text.balanced_append (by decide) hs, hK⟩
  | constant _ ih =>
    obtain ⟨hs, hK⟩ := ih hL
    have hopen : Leads [] [')'] (Text.grouping "const(") := by decide
    exact ⟨Text.balanced_wrap hopen hs (by decide), List.forall_mem_cons.2 ⟨hs, hK⟩⟩
  | comma _ _ ih ih' =>
    obtain ⟨hl, hl'⟩ := List.forall_mem_append.1 hL
    obtain ⟨hs, hK⟩ := ih hl
    obtain ⟨ht, hK'⟩ := ih' hl'
    exact ⟨Text.balanced_append (Text.balanced_append hs (by decide)) ht,
      List.forall_mem_append.2 ⟨hK, hK'⟩⟩
  | @bracketed _ _ _ _ o c _ _ hmark _ _ ih ih' =>
    obtain ⟨hl, hl'⟩ := List.forall_mem_append.1 hL
    obtain ⟨hs, hK⟩ := ih hl
    obtain ⟨ht, hK'⟩ := ih' hl'
    have hpair : ∀ m ∈ Text.brackets, Leads [] [')'] (Text.grouping m.1) ∧
        Leads [')'] [] (Text.grouping m.2) ∨ Leads [] [']'] (Text.grouping m.1) ∧
        Leads [']'] [] (Text.grouping m.2) := by decide
    refine ⟨?_, List.forall_mem_append.2 ⟨hK, hK'⟩⟩
    rcases hpair _ hmark with ⟨ho, hc⟩ | ⟨ho, hc⟩
    · exact Text.balanced_bracketed hs ho ht hc
    · exact Text.balanced_bracketed hs ho ht hc

/-! ## Places of a part -/

/-- A part that has no share in a mark other than `const(` occurs in the leaves and in this mark. -/
theorem Composed.occurrences {part : String} (hmarks : ∀ m ∈ Text.typeMarks, Text.Apart part m)
    (hnone : ∀ m ∈ Text.typeMarks, m ≠ "const(" → Text.occurrences part m = 0)
    (hword : ∃ c ∈ part.toList, Text.isWord c = false) {L K : List String} {s : String}
    (h : Composed L K s) : Text.occurrences part s =
      K.length * Text.occurrences part "const(" +
        (L.map fun l => Text.occurrences part (Text.dotted l)).sum := by
  obtain ⟨d, hd, hdword⟩ := hword
  have hpart : part.toList ≠ [] := List.ne_nil_of_mem hd
  have hempty : Text.occurrences part "" = 0 := if_neg (mt List.isEmpty_iff.1 hpart)
  have hmark : ∀ m ∈ Text.typeMarks, ∀ a b, Text.occurrences part (a ++ m ++ b) =
      Text.occurrences part a + Text.occurrences part m + Text.occurrences part b :=
    fun m hm => Text.occurrences_mark hpart (hmarks m hm)
  have hbehind : ∀ m ∈ Text.typeMarks, m ≠ "const(" → ∀ a,
      Text.occurrences part (a ++ m) = Text.occurrences part a := by
    intro m hm hne a
    have h := hmark m hm a ""
    rwa [String.append_empty, hnone m hm hne, hempty] at h
  have hfront : ∀ m ∈ Text.typeMarks, ∀ b, Text.occurrences part (m ++ b) =
      Text.occurrences part m + Text.occurrences part b := by
    intro m hm b
    have h := hmark m hm "" b
    rwa [String.empty_append, hempty, Nat.zero_add] at h
  induction h with
  | leaf s => simp
  | word hw =>
    have hnot : d ∉ _ := fun hmem => Bool.false_ne_true (hdword.symm.trans (hw d hmem))
    have hzero := Text.places_eq_zero hd hnot
    rw [Text.occurrences, hzero]
    simp
  | pointer _ ih => rw [hbehind "*" (by decide) (by decide), ih]
  | reference _ ih =>
    rw [hfront "ref " (by decide), hnone "ref " (by decide) (by decide), Nat.zero_add, ih]
  | constant _ ih =>
    rw [hbehind ")" (by decide) (by decide), hfront "const(" (by decide), ih, List.length_cons,
      Nat.succ_mul]
    omega
  | comma _ _ ih ih' =>
    rw [hmark ", " (by decide), hnone ", " (by decide) (by decide), ih, ih', List.length_append,
      List.map_append, List.sum_append, Nat.add_mul]
    omega
  | @bracketed _ _ _ _ o c _ _ hmem _ _ ih ih' =>
    have hpair : ∀ m ∈ Text.brackets, m.1 ∈ Text.typeMarks ∧ m.1 ≠ "const(" ∧
        m.2 ∈ Text.typeMarks ∧ m.2 ≠ "const(" := by decide
    obtain ⟨ho, hone, hc, hcne⟩ := hpair _ hmem
    rw [hbehind c hc hcne, hmark o ho, hnone o ho hone, ih, ih', List.length_append,
      List.map_append, List.sum_append, Nat.add_mul]
    omega

/-! ## Constant parts -/

/-- A constant part of a text, with what stands in front of it and behind it. -/
structure ConstSpan where
  before : String
  inside : String
  after : String

namespace ConstSpan

/-- The text that it is a part of. -/
def text (v : ConstSpan) : String := v.before ++ "const(" ++ v.inside ++ ")" ++ v.after

/-- Where the part begins. -/
def opens (v : ConstSpan) : Nat := v.before.length

/-- Where the parenthesis is that ends the part. -/
def closes (v : ConstSpan) : Nat := (v.before ++ "const(" ++ v.inside).length

/-- The second part begins behind the beginning of the first one, and either it ends first or it
begins behind the end of the first one. -/
def InnermostFirst (v w : ConstSpan) : Prop :=
  v.opens < w.opens ∧ (w.closes < v.closes ∨ v.closes < w.opens)

/-- The same part of a text with more around it. -/
def within (v : ConstSpan) (a b : String) : ConstSpan := ⟨a ++ v.before, v.inside, v.after ++ b⟩

variable (v w : ConstSpan) (a b : String)

theorem text_of_within : (v.within a b).text = a ++ v.text ++ b := by
  simp only [text, within, String.append_assoc]

theorem opens_within : (v.within a b).opens = a.length + v.opens :=
  String.length_append a v.before

theorem closes_within : (v.within a b).closes = a.length + v.closes := by
  show (a ++ v.before ++ "const(" ++ v.inside).length = _
  rw [String.append_assoc, String.append_assoc, String.length_append, ← String.append_assoc]
  rfl

theorem opens_le : v.opens ≤ v.closes := by
  show v.before.length ≤ (v.before ++ "const(" ++ v.inside).length
  rw [String.append_assoc, String.length_append]
  omega

theorem closes_lt : v.closes < v.text.length := by
  show _ < (v.before ++ "const(" ++ v.inside ++ ")" ++ v.after).length
  rw [String.length_append, String.length_append]
  show v.closes < v.closes + 1 + v.after.length
  omega

variable {v w}

theorem InnermostFirst.within (h : InnermostFirst v w) :
    InnermostFirst (v.within a b) (w.within a b) := by
  unfold InnermostFirst at h ⊢
  rw [opens_within, opens_within, closes_within, closes_within]
  omega

end ConstSpan

/-- These texts are constant parts of a text, from the left; parts that begin within others end
before these do. -/
def Encloses (constants : List String) (s : String) : Prop :=
  ∃ spans : List ConstSpan, spans.map ConstSpan.inside = constants ∧ (∀ v ∈ spans, v.text = s) ∧
    spans.Pairwise ConstSpan.InnermostFirst

namespace Encloses
variable {K K' : List String} {s t : String}

theorem nil (s : String) : Encloses [] s :=
  ⟨[], rfl, fun _ hv => absurd hv List.not_mem_nil, List.Pairwise.nil⟩

theorem within (h : Encloses K s) (a b : String) : Encloses K (a ++ s ++ b) := by
  obtain ⟨spans, hinside, htext, hnested⟩ := h
  refine ⟨spans.map (·.within a b), ?_, List.forall_mem_map.2 fun v hv => ?_,
    hnested.map _ fun _ _ h => h.within a b⟩
  · rw [List.map_map]
    exact hinside
  · rw [ConstSpan.text_of_within, htext v hv]

theorem append (h : Encloses K s) (h' : Encloses K' t) : Encloses (K ++ K') (s ++ t) := by
  obtain ⟨spans, rfl, htext, hnested⟩ := h
  obtain ⟨spans', rfl, htext', hnested'⟩ := h'
  refine ⟨spans.map (·.within "" t) ++ spans'.map (·.within s ""), ?_, ?_, ?_⟩
  · rw [List.map_append, List.map_map, List.map_map]
    rfl
  · refine List.forall_mem_append.2 ⟨List.forall_mem_map.2 fun v hv => ?_,
      List.forall_mem_map.2 fun v hv => ?_⟩
    · rw [ConstSpan.text_of_within, htext v hv, String.empty_append]
    · rw [ConstSpan.text_of_within, htext' v hv, String.append_empty]
  · refine List.pairwise_append.2 ⟨hnested.map _ fun _ _ h => h.within "" t,
      hnested'.map _ fun _ _ h => h.within s "", ?_⟩
    rw [List.forall_mem_map]
    intro v hv
    rw [List.forall_mem_map]
    intro w _
    have hopens : v.opens ≤ v.closes := v.opens_le
    have hcloses : v.closes < s.length := htext v hv ▸ v.closes_lt
    unfold ConstSpan.InnermostFirst
    rw [ConstSpan.opens_within, ConstSpan.opens_within, ConstSpan.closes_within,
      ConstSpan.closes_within, String.length_empty]
    omega

/-- A part around the whole text ends behind all the parts in it. -/
theorem constant (h : Encloses K s) : Encloses (s :: K) ("const(" ++ s ++ ")") := by
  obtain ⟨spans, rfl, htext, hnested⟩ := h
  refine ⟨⟨"", s, ""⟩ :: spans.map (·.within "const(" ")"), ?_, ?_, ?_⟩
  · rw [List.map_cons, List.map_map]
    rfl
  · refine List.forall_mem_cons.2 ⟨?_, List.forall_mem_map.2 fun v hv => ?_⟩
    · simp only [ConstSpan.text, String.empty_append, String.append_empty]
    · rw [ConstSpan.text_of_within, htext v hv]
  · refine List.pairwise_cons.2 ⟨List.forall_mem_map.2 fun v hv => ?_,
      hnested.map _ fun _ _ h => h.within "const(" ")"⟩
    have hcloses : v.closes < s.length := htext v hv ▸ v.closes_lt
    have hwhole : ConstSpan.closes ⟨"", s, ""⟩ = "const(".length + s.length := by
      unfold ConstSpan.closes
      rw [String.empty_append, String.length_append]
    have hmark : "const(".length = 6 := by decide
    unfold ConstSpan.InnermostFirst
    rw [ConstSpan.opens_within, ConstSpan.closes_within, hwhole, hmark]
    refine ⟨?_, Or.inl (by omega)⟩
    show 0 < _
    omega

end Encloses

theorem Composed.encloses {L K : List String} {s : String} (h : Composed L K s) :
    Encloses K s := by
  induction h with
  | leaf s => exact .nil _
  | word _ => exact .nil _
  | pointer _ ih => simpa only [String.empty_append] using ih.within "" "*"
  | reference _ ih => simpa only [String.append_empty] using ih.within "ref " ""
  | constant _ ih => exact ih.constant
  | comma _ _ ih ih' =>
    have h := (ih.within "" ", ").append ih'
    rwa [String.empty_append] at h
  | @bracketed _ _ _ _ o c _ _ _ _ _ ih ih' =>
    have h := (ih.within "" o).append (ih'.within "" c)
    rwa [String.empty_append, String.empty_append, ← String.append_assoc] at h

/-! ## Types -/

theorem Text.occurrences_const_dotted (s : String) :
    occurrences "const(" (dotted s) = occurrences "const(" s := by
  unfold occurrences
  rw [toList_dotted]
  exact places_replacePair (by decide) (by decide) (by decide) (by decide) s.toList

/-- If parentheses and square brackets are balanced in the leaves of a type, they are in its
spelling and in what is constant in it.  The openers `const(` are those of the qualifiers that are
written and those that the leaves have themselves.  The parts that the qualifiers enclose are nested
in each other or stand side by side, and no scope symbol is left, whatever the leaves are. -/
theorem Ty.render_nested (names : NameTable) (ty : Ty) :
    ((∀ l ∈ ty.leaves names, Balanced l) →
      Balanced (ty.render names) ∧ ∀ k ∈ ty.constants names, Balanced k) ∧
    Text.occurrences "const(" (ty.render names) = (ty.constants names).length +
      ((ty.leaves names).map (Text.occurrences "const(")).sum ∧
    Encloses (ty.constants names) (ty.render names) ∧
    Text.contains (ty.render names) "::" = false := by
  have h : Composed _ _ (ty.render names) := ty.composed
  have hconst : Text.occurrences "const(" (ty.render names) = _ :=
    Composed.occurrences (by decide) (by decide) ⟨'(', by decide, by decide⟩ h
  have hscope : Text.occurrences "::" (ty.render names) = _ :=
    Composed.occurrences (by decide) (by decide) ⟨':', by decide, by decide⟩ h
  refine ⟨h.balanced, ?_, h.encloses, Text.contains_eq_false_iff.2 ?_⟩
  · have hopener : Text.occurrences "const(" "const(" = 1 := by decide
    rw [hconst, hopener, Nat.mul_one]
    simp only [Text.occurrences_const_dotted]
  · have hopener : Text.occurrences "::" "const(" = 0 := by decide
    have hleaves : ∀ l, Text.occurrences "::" (Text.dotted l) = 0 :=
      fun l => Text.contains_eq_false_iff.1 (Text.contains_scope_dotted l)
    rw [hscope, hopener, Nat.mul_zero, Nat.zero_add]
    simp only [hleaves]
    simp

/-- A constant map with constant keys and a size in brackets. -/
theorem Ty.render_nested_map :
    let key := constant (pointer (constant char))
    let callback := pointer (function int [constRef char] true)
    let ty := constRef (.templateSpecialization "std::map"
      [.type key, .type callback, .expression "N[sizeof(int)]"])
    ty.render {} = "ref const(std.map!(const(const(char)*), int function(ref const(char), ...), " ++
      "N[sizeof(int)]))" ∧
    (∀ l ∈ ty.leaves {}, Balanced l) ∧ Balanced (ty.render {}) ∧
      ∀ k ∈ ty.constants {}, Balanced k := by
  intro key callback ty
  have hleaves : ∀ l ∈ ty.leaves {}, Balanced l := by decide
  exact ⟨by cbv, hleaves, (render_nested {} ty).1 hleaves⟩

end DBindings
