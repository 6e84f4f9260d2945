import DBindings.Proofs.Text.Literals

/-!
# Comment lines

A line is a comment if it begins with two slashes; a line that is indented to them is not.

* `Text.isComment`                     the line is a comment from its beginning on;
* `Text.isComment_rewritten`           dots for scope and arrow symbols make no difference;
* `Text.begins_of_mem_lines`           where a line of a text begins;
* `Text.not_isComment_of_mem_lines`    no line is a comment if no line feed has a slash behind it.
-/

namespace DBindings.Text

/-- The line is a comment from its beginning on. -/
def isComment (line : String) : Bool := ['/', '/'].isPrefixOf line.toList

theorem isComment_iff {line : String} : isComment line = true ↔ ['/', '/'] <+: line.toList :=
  List.isPrefixOf_iff_prefix

theorem isComment_append {a : String} (ha : 2 ≤ a.toList.length) (b : String) :
    isComment (a ++ b) = isComment a := by
  unfold isComment
  rw [String.toList_append]
  match a.toList, ha with
  | x :: y :: l, _ => rfl

/-! ## Scope and arrow symbols -/

theorem isComment_rewritten (s : String) : isComment (dottedArrows (dotted s)) = isComment s := by
  unfold isComment dottedArrows dotted
  rw [String.toList_ofList, String.toList_ofList,
    isPrefixOf_replacePair (by decide) (by decide), isPrefixOf_replacePair (by decide) (by decide)]

/-! ## The lines of a text -/

theorem stripReturn_prefix (line : List Char) (ended : Bool) : stripReturn line ended <+: line := by
  unfold stripReturn
  split
  · exact line.dropLast_prefix
  · exact List.prefix_rfl

theorem begins_of_mem_splitLines {cs current : List Char} {line : List Char × Bool}
    (h : line ∈ splitLines cs current) :
    line.1 <+: current.reverse ++ cs ∨
      ∃ before after, cs = before ++ '\n' :: after ∧ line.1 <+: after := by
  fun_induction splitLines cs current with
  | case1 => exact absurd h List.not_mem_nil
  | case2 current _ =>
    rw [List.mem_singleton.1 h]
    exact Or.inl (List.prefix_append _ _)
  | case3 rest current ih =>
    rcases List.mem_cons.1 h with rfl | h
    · exact Or.inl (List.prefix_append _ _)
    · rcases ih h with h | ⟨before, after, hrest, h⟩
      · exact Or.inr ⟨[], rest, rfl, h⟩
      · exact Or.inr ⟨'\n' :: before, after, by rw [hrest, List.cons_append], h⟩
  | case4 c rest current _ ih =>
    rcases ih h with h | ⟨before, after, hrest, h⟩
    · rw [List.reverse_cons, List.append_assoc] at h
      exact Or.inl h
    · exact Or.inr ⟨c :: before, after, by rw [hrest, List.cons_append], h⟩

/-- A line begins where the text does or behind a line feed. -/
theorem begins_of_mem_lines {s line : String} (h : line ∈ lines s) :
    line.toList <+: s.toList ∨
      ∃ before after, s.toList = before ++ '\n' :: after ∧ line.toList <+: after := by
  obtain ⟨⟨cs, ended⟩, hcs, rfl⟩ := List.mem_map.1 h
  rw [String.toList_ofList]
  have hstrip := stripReturn_prefix cs ended
  exact (begins_of_mem_splitLines hcs).imp hstrip.trans fun ⟨before, after, hs, hafter⟩ =>
    ⟨before, after, hs, hstrip.trans hafter⟩

/-- Behind each line feed stands a character that is no slash. -/
def indents : List Char → Bool
  | [] => true
  | c :: cs => (c != '\n' || cs.head?.any (· != '/')) && indents cs

theorem indents_of_not_mem {cs : List Char} (h : '\n' ∉ cs) : indents cs = true := by
  induction cs with
  | nil => rfl
  | cons c cs ih =>
    obtain ⟨hc, hcs⟩ := not_or.1 (mt List.mem_cons.2 h)
    rw [indents, bne_iff_ne.2 (Ne.symm hc), ih hcs]
    rfl

theorem indents_append {a b : List Char} (ha : indents a = true) (hb : indents b = true) :
    indents (a ++ b) = true := by
  induction a with
  | nil => exact hb
  | cons c a ih =>
    obtain ⟨hc, ha⟩ := Bool.and_eq_true_iff.1 ha
    refine Bool.and_eq_true_iff.2 ⟨?_, ih ha⟩
    rcases Bool.or_eq_true_iff.1 hc with hc | hc
    · exact Bool.or_eq_true_iff.2 (Or.inl hc)
    · cases a with
      | nil => exact nomatch hc
      | cons => exact Bool.or_eq_true_iff.2 (Or.inr hc)

theorem head_of_indents {before after : List Char}
    (h : indents (before ++ '\n' :: after) = true) : after.head?.any (· != '/') = true := by
  induction before with
  | nil => exact (Bool.or_eq_true_iff.1 (Bool.and_eq_true_iff.1 h).1).resolve_left nofun
  | cons c before ih => exact ih (Bool.and_eq_true_iff.1 h).2

theorem not_isComment_of_mem_lines {s : String} (hs : isComment s = false)
    (h : indents s.toList = true) {line : String} (hline : line ∈ lines s) :
    isComment line = false := by
  rw [← Bool.not_eq_true, isComment_iff] at hs ⊢
  intro hcomment
  rcases begins_of_mem_lines hline with hbegins | ⟨before, after, htext, hbegins⟩
  · exact hs (hcomment.trans hbegins)
  · obtain ⟨rest, rfl⟩ := hcomment.trans hbegins
    rw [htext] at h
    exact nomatch head_of_indents h

end DBindings.Text
