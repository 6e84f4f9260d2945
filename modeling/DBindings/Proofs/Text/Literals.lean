import DBindings.Proofs.Text.Brackets
import DBindings.Proofs.Text.Pairs
import DBindings.Text.Lines

/-!
# The literals of a text

A text is read from left to right; a quote in code begins a literal, which ends with the next quote
of its kind that is not escaped.

* `Text.literals`               the literals of a text in order, with their quotes;
* `Text.literals_append`        composed texts;
* `Text.literals_dotted`        a dot for a scope symbol, in code and in literals;
* `Text.literals_lines`         the lines of a text, if no line feed stands in a literal.
-/

namespace DBindings

namespace Mode

def run (m : Mode) (cs : List Char) : Mode := cs.foldl next m

/-- The literals that are read, the rest of the one that is being read first. -/
def literals : Mode → List Char → List (List Char)
  | m, [] => if m = code then [] else [[]]
  | m, c :: cs =>
    if m.next c = code then
      if m = code then literals code cs else [c] :: literals code cs
    else (literals (m.next c) cs).modifyHead (c :: ·)

section
variable {m : Mode} {c : Char} {cs : List Char}

theorem literals_code (h : code.next c = code) : code.literals (c :: cs) = code.literals cs :=
  (if_pos h).trans (if_pos rfl)

theorem literals_closing (hm : m ≠ code) (h : m.next c = code) :
    m.literals (c :: cs) = [c] :: code.literals cs := by
  rw [literals, if_pos h, if_neg hm]

theorem literals_open (h : m.next c ≠ code) :
    m.literals (c :: cs) = ((m.next c).literals cs).modifyHead (c :: ·) := by
  rw [literals, if_neg h]

end

theorem run_append (m : Mode) (a b : List Char) : m.run (a ++ b) = (m.run a).run b :=
  List.foldl_append

theorem run_of_within {m m' : Mode} {cs : List Char} (h : m.within cs = some m') :
    m.run cs = m' := by
  induction cs generalizing m with
  | nil => exact Option.some.inj h
  | cons c cs ih => exact ih (Option.ite_none_left_eq_some.1 h).2

theorem literals_ne_nil {m : Mode} (hm : m ≠ code) (cs : List Char) : m.literals cs ≠ [] := by
  induction cs generalizing m with
  | nil =>
    rw [literals, if_neg hm]
    exact List.cons_ne_nil _ _
  | cons c cs ih =>
    by_cases hnext : m.next c = code
    · rw [literals_closing hm hnext]
      exact List.cons_ne_nil _ _
    · rw [literals_open hnext]
      exact fun h => ih hnext (List.modifyHead_eq_nil_iff.1 h)

theorem literals_append {m : Mode} {a : List Char} (ha : m.run a = code) (b : List Char) :
    m.literals (a ++ b) = m.literals a ++ code.literals b := by
  induction a generalizing m with
  | nil =>
    have hm : m = code := ha
    rw [hm, literals, if_pos rfl]
    rfl
  | cons c a ih =>
    have hrest := ih (m := m.next c) ha
    rw [List.cons_append]
    by_cases hnext : m.next c = code
    · rw [hnext] at hrest
      by_cases hm : m = code
      · rw [hm] at hnext ⊢
        rw [literals_code hnext, literals_code hnext, hrest]
      · rw [literals_closing hm hnext, literals_closing hm hnext, hrest, List.cons_append]
    · obtain ⟨l, ls, hls⟩ := List.exists_cons_of_ne_nil (literals_ne_nil hnext a)
      rw [literals_open hnext, literals_open hnext, hrest, hls]
      rfl

theorem literals_of_within {m m' : Mode} {a : List Char} (h : m.within a = some m')
    (b : List Char) : m.literals (a ++ b) = (m'.literals b).modifyHead (a ++ ·) := by
  induction a generalizing m with
  | nil =>
    rw [← Option.some.inj h, List.nil_append]
    cases m.literals b <;> rfl
  | cons c a ih =>
    obtain ⟨hnext, h⟩ := Option.ite_none_left_eq_some.1 h
    rw [List.cons_append, literals_open hnext, ih h, List.modifyHead_modifyHead]
    rfl

/-! ## Pairs of characters as one -/

/-- Neither a quote nor what escapes one. -/
def isNeutral (c : Char) : Bool := c != '"' && c != '\'' && c != '\\'

/-- The mode without a pending escape. -/
def base : Mode → Mode
  | stringEscape => string
  | charEscape => char
  | m => m

theorem next_of_isNeutral {c : Char} (hc : isNeutral c = true) (m : Mode) : m.next c = m.base := by
  simp only [isNeutral, Bool.and_eq_true, bne_iff_ne] at hc
  obtain ⟨⟨hquote, hquote'⟩, hbackslash⟩ := hc
  cases m with
  | code => exact (if_neg hquote).trans (if_neg hquote')
  | string => exact (if_neg hbackslash).trans (if_neg hquote)
  | char => exact (if_neg hbackslash).trans (if_neg hquote')
  | stringEscape | charEscape => rfl

theorem base_base (m : Mode) : m.base.base = m.base := by cases m <;> rfl

theorem base_eq_code_iff {m : Mode} : m.base = code ↔ m = code := by cases m <;> decide

/-- In a literal, the rest of it begins with the next character. -/
theorem literals_cons_of_ne_code {m : Mode} (hm : m ≠ code) (c : Char) (cs : List Char) :
    ∃ l ls, m.literals (c :: cs) = (c :: l) :: ls := by
  by_cases hnext : m.next c = code
  · exact ⟨[], _, literals_closing hm hnext⟩
  · obtain ⟨l, ls, hls⟩ := List.exists_cons_of_ne_nil (literals_ne_nil hnext cs)
    exact ⟨l, ls, by rw [literals_open hnext, hls]; rfl⟩

theorem literals_of_isNeutral {m : Mode} (hm : m ≠ code) {c : Char} (hc : isNeutral c = true)
    (cs : List Char) : m.literals (c :: cs) = (m.base.literals cs).modifyHead (c :: ·) := by
  have hnext := next_of_isNeutral hc m
  rw [literals_open (hnext ▸ mt base_eq_code_iff.1 hm), hnext]

/-- One character for pairs of them changes literals as it changes texts. -/
theorem literals_replacePair {a b c : Char} (ha : isNeutral a = true) (hb : isNeutral b = true)
    (hc : isNeutral c = true) (m : Mode) (cs : List Char) :
    m.literals (Text.replacePair a b c cs) = (m.literals cs).map (Text.replacePair a b c) := by
  fun_induction Text.replacePair a b c cs generalizing m with
  | case1 x y rest h ih =>
    obtain ⟨rfl, rfl⟩ := h
    by_cases hm : m = code
    · have hcode : ∀ {d}, isNeutral d = true → code.next d = code := (next_of_isNeutral · code)
      rw [hm, literals_code (hcode hc), literals_code (hcode ha), literals_code (hcode hb), ih]
    · have hbase : m.base ≠ code := mt base_eq_code_iff.1 hm
      obtain ⟨l, ls, hls⟩ := List.exists_cons_of_ne_nil (literals_ne_nil hbase rest)
      rw [literals_of_isNeutral hm hc, literals_of_isNeutral hm ha,
        literals_of_isNeutral hbase hb, base_base, ih, hls]
      have hpair : Text.replacePair x y c (x :: y :: l) = c :: Text.replacePair x y c l := by
        rw [Text.replacePair, if_pos ⟨rfl, rfl⟩]
      show _ :: _ = Text.replacePair x y c (x :: y :: l) :: _
      rw [hpair]
  | case2 x y rest h ih =>
    by_cases hnext : m.next x = code
    · by_cases hm : m = code
      · rw [hm] at hnext ⊢
        rw [literals_code hnext, literals_code hnext, ih]
      · rw [literals_closing hm hnext, literals_closing hm hnext, ih]
        rfl
    · obtain ⟨l, ls, hls⟩ := literals_cons_of_ne_code hnext y rest
      have hpair : Text.replacePair a b c (x :: y :: l) = x :: Text.replacePair a b c (y :: l) := by
        rw [Text.replacePair, if_neg h]
      rw [literals_open hnext, literals_open hnext, ih, hls]
      show _ :: _ = Text.replacePair a b c (x :: y :: l) :: _
      rw [hpair]
  | case3 rest h =>
    cases rest with
    | nil => cases m <;> rfl
    | cons x rest =>
      cases rest with
      | nil =>
        have hcases : m.literals [x] = [] ∨ m.literals [x] = [[x]] := by
          by_cases hnext : m.next x = code
          · by_cases hm : m = code
            · rw [hm] at hnext ⊢
              exact Or.inl (literals_code hnext)
            · exact Or.inr (literals_closing hm hnext)
          · rw [literals_open hnext, literals, if_neg hnext]
            exact Or.inr rfl
        rcases hcases with h | h
        · rw [h]
          rfl
        · rw [h]
          rfl
      | cons y rest => exact absurd rfl (h x y rest)

end Mode

namespace Text
open Mode

/-- The literals of a text in order, with their quotes; one that is not closed goes to the end. -/
def literals (s : String) : List String := (code.literals s.toList).map String.ofList

/-- The text ends in code. -/
def EndsInCode (s : String) : Prop := code.run s.toList = code

instance (s : String) : Decidable (EndsInCode s) := inferInstanceAs (Decidable (_ = _))

theorem literals_append {a : String} (ha : EndsInCode a) (b : String) :
    literals (a ++ b) = literals a ++ literals b := by
  unfold literals
  rw [String.toList_append, Mode.literals_append ha, List.map_append]

private theorem literals_replaced {a b c : Char} (ha : isNeutral a = true)
    (hb : isNeutral b = true) (hc : isNeutral c = true) (s : String) :
    literals (String.ofList (replacePair a b c s.toList)) =
      (literals s).map fun t => String.ofList (replacePair a b c t.toList) := by
  unfold literals
  rw [String.toList_ofList, literals_replacePair ha hb hc, List.map_map, List.map_map]
  exact List.map_congr_left fun l _ => by simp

theorem literals_dotted (s : String) : literals (dotted s) = (literals s).map dotted :=
  literals_replaced (by decide) (by decide) (by decide) s

theorem literals_dottedArrows (s : String) :
    literals (dottedArrows s) = (literals s).map dottedArrows :=
  literals_replaced (by decide) (by decide) (by decide) s

/-! ## Lines -/

/-- From a mode on, every line feed and the end of the text is read in code. -/
def settles : Mode → List Char → Bool
  | m, [] => m == code
  | m, c :: cs => (c != '\n' || m == code) && settles (m.next c) cs

theorem settles_append {m : Mode} {a b : List Char} (ha : settles m a = true)
    (hb : settles code b = true) : settles m (a ++ b) = true := by
  induction a generalizing m with
  | nil =>
    rw [List.nil_append, eq_of_beq ha]
    exact hb
  | cons c a ih =>
    obtain ⟨hline, ha⟩ := Bool.and_eq_true_iff.1 ha
    exact Bool.and_eq_true_iff.2 ⟨hline, ih ha⟩

theorem settles_of_not_mem {m : Mode} {cs : List Char} (hcs : '\n' ∉ cs) (hm : m.run cs = code) :
    settles m cs = true := by
  induction cs generalizing m with
  | nil => exact beq_iff_eq.2 hm
  | cons c cs ih =>
    have hline : c ≠ '\n' := fun h => hcs (h ▸ List.mem_cons_self)
    refine Bool.and_eq_true_iff.2 ⟨?_, ih (fun h => hcs (List.mem_cons_of_mem _ h)) hm⟩
    rw [bne_iff_ne.2 hline, Bool.true_or]

theorem run_of_settles {m : Mode} {cs : List Char} (h : settles m cs = true) :
    m.run cs = code := by
  induction cs generalizing m with
  | nil => exact eq_of_beq h
  | cons c cs ih => exact ih (Bool.and_eq_true_iff.1 h).2

/-- A line stays as it is, or it loses the carriage return at its end. -/
theorem stripReturn_cases (line : List Char) (ended : Bool) :
    stripReturn line ended = line ∨
      ∃ front, line = front ++ ['\r'] ∧ stripReturn line ended = front := by
  unfold stripReturn
  split
  · next hlast =>
    obtain ⟨-, hlast⟩ := Bool.and_eq_true_iff.1 hlast
    obtain ⟨front, rfl⟩ := List.getLast?_eq_some_iff.1 (eq_of_beq hlast)
    exact Or.inr ⟨front, rfl, List.dropLast_concat⟩
  · exact Or.inl rfl

theorem literals_stripReturn {line : List Char} (h : code.run line = code) (ended : Bool) :
    code.literals (stripReturn line ended) = code.literals line := by
  rcases stripReturn_cases line ended with hstrip | ⟨front, rfl, hstrip⟩
  · rw [hstrip]
  · have hfront : code.run front = code := by
      rw [run_append] at h
      exact base_eq_code_iff.1 ((next_of_isNeutral (by decide) _).symm.trans h)
    rw [hstrip, Mode.literals_append hfront]
    exact (List.append_nil _).symm

theorem literals_splitLines (cs current : List Char)
    (h : settles (code.run current.reverse) cs = true) :
    ((splitLines cs current).flatMap fun line => code.literals (stripReturn line.1 line.2)) =
      code.literals (current.reverse ++ cs) := by
  fun_induction splitLines cs current with
  | case1 => rfl
  | case2 current _ =>
    rw [List.flatMap_singleton, List.append_nil]
    exact literals_stripReturn (eq_of_beq h) false
  | case3 rest current ih =>
    obtain ⟨hline, hrest⟩ := Bool.and_eq_true_iff.1 h
    have hcode : code.run current.reverse = code := by simpa using hline
    rw [hcode] at hrest
    rw [List.flatMap_cons, ih hrest, Mode.literals_append hcode]
    exact congrArg (· ++ _) (literals_stripReturn hcode true)
  | case4 c rest current hc ih =>
    have hrest : settles (code.run (c :: current).reverse) rest = true := by
      rw [List.reverse_cons, run_append]
      exact (Bool.and_eq_true_iff.1 h).2
    rw [ih hrest, List.reverse_cons, List.append_assoc]
    rfl

/-- The literals of a text are those of its lines. -/
theorem literals_lines {s : String} (h : settles code s.toList = true) :
    (lines s).flatMap literals = literals s := by
  have hlines := literals_splitLines s.toList [] h
  rw [List.reverse_nil, List.nil_append] at hlines
  unfold lines literals
  rw [List.flatMap_map, ← hlines, List.map_flatMap]
  simp only [String.toList_ofList]

end Text

end DBindings
