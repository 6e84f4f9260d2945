import DBindings.Proofs.Text.Clauses
import DBindings.Proofs.Text.Comments

/-!
# Brackets across lines

The brackets of a text are open from line to line.  So a text closes what it opens if each of its
lines takes up what the one above leaves open, and lines may be changed one by one.

* `LeadsLines`                 each line takes up the brackets that the one above leaves open;
* `Text.leadsLines_lines`      the lines of a text, if no line feed stands in a literal;
* `LeadsLines.closed_between`  closed lines between two others, as one text;
* `Text.lines_append`          a line feed divides the lines.
-/

namespace DBindings

namespace Reading

theorem mode_read {s s' : Reading} {cs : List Char} (h : s.read cs = some s') :
    s'.mode = s.mode.run cs := by
  induction cs generalizing s with
  | nil => exact congrArg mode (Option.some.inj h).symm
  | cons c cs ih =>
    obtain ⟨t, ht, h⟩ := Option.bind_eq_some_iff.1 h
    rw [ih h, mode_step ht]
    rfl

/-- A character that is neither a bracket nor a quote nor a backslash. -/
theorem step_of_neutral {c : Char} (hplain : isPlain c = true) (hc : Mode.isNeutral c = true)
    (s : Reading) : s.step c = some ⟨s.awaited, s.mode.base⟩ := by
  obtain ⟨awaited, mode⟩ := s
  by_cases hmode : mode = .code
  · rw [hmode]
    exact step_of_isPlain hplain awaited
  · rw [step_of_ne_code hmode, Mode.next_of_isNeutral hc]

end Reading

/-! ## Lines -/

/-- Each line leads from the brackets that are open above it to those that it leaves open. -/
inductive LeadsLines : List Char → List Char → List String → Prop
  | nil (x : List Char) : LeadsLines x x []
  | cons {x y z : List Char} {line : String} {rest : List String} (hline : Leads x y line)
      (hrest : LeadsLines y z rest) : LeadsLines x z (line :: rest)

namespace LeadsLines

variable {x y z : List Char} {ls rest : List String}

theorem append (h : LeadsLines x y ls) (hrest : LeadsLines y z rest) :
    LeadsLines x z (ls ++ rest) := by
  induction h with
  | nil => exact hrest
  | cons hline _ ih => exact .cons hline (ih hrest)

theorem map (h : LeadsLines x y ls) {f : String → String}
    (hf : ∀ {x y line}, Leads x y line → Leads x y (f line)) : LeadsLines x y (ls.map f) := by
  induction h with
  | nil => exact .nil _
  | cons hline _ ih => exact .cons (hf hline) ih

theorem of_closed (h : ∀ line ∈ ls, Closed line) : LeadsLines [] [] ls := by
  induction ls with
  | nil => exact .nil _
  | cons line ls ih =>
    exact .cons (h line List.mem_cons_self) (ih fun l hl => h l (List.mem_cons_of_mem _ hl))

theorem under (h : LeadsLines x y ls) (brackets : List Char) :
    LeadsLines (x ++ brackets) (y ++ brackets) ls := by
  induction h with
  | nil => exact .nil _
  | cons hline _ ih => exact .cons (hline.under brackets) ih

/-- The lines as one text, with a line feed in front of each. -/
theorem leads_join (h : LeadsLines x y ls) : Leads x y (String.join (ls.map ("\n" ++ ·))) := by
  induction h with
  | nil x => exact closed_empty.leads x
  | cons hline _ ih =>
    rw [List.map_cons, String.join_cons]
    exact (((by decide : Closed "\n").leads _).append hline).append ih

end LeadsLines

theorem intercalate_between (first last : String) (ls : List String) :
    String.intercalate "\n" (first :: ls ++ [last]) =
      first ++ (String.join (ls.map ("\n" ++ ·)) ++ "\n") ++ last := by
  induction ls generalizing first with
  | nil =>
    rw [List.cons_append, List.nil_append, String.intercalate_cons_cons,
      String.intercalate_singleton]
    rfl
  | cons line ls ih =>
    rw [List.cons_append, List.cons_append, String.intercalate_cons_cons, ← List.cons_append, ih,
      List.map_cons, String.join_cons]
    simp only [String.append_assoc]

theorem LeadsLines.closed_between {ls : List String} (h : LeadsLines [] [] ls)
    (first last : String) : ∃ inside, Closed inside ∧
      String.intercalate "\n" (first :: ls ++ [last]) = first ++ inside ++ last :=
  ⟨_, closed_append h.leads_join (by decide), intercalate_between first last ls⟩

namespace Text

/-! ## The lines of a text -/

theorem read_stripReturn {s : Reading} {y : List Char} {line : List Char}
    (h : s.read line = some ⟨y, .code⟩) (ended : Bool) :
    s.read (stripReturn line ended) = some ⟨y, .code⟩ := by
  rcases stripReturn_cases line ended with hstrip | ⟨front, rfl, hstrip⟩
  · rw [hstrip]
    exact h
  · rw [Reading.read_append] at h
    obtain ⟨t, ht, h⟩ := Option.bind_eq_some_iff.1 h
    obtain ⟨u, hu, h⟩ := Option.bind_eq_some_iff.1 h
    rw [Reading.step_of_neutral (by decide) (by decide)] at hu
    obtain rfl := Option.some.inj hu
    obtain ⟨rfl, hmode⟩ := Reading.mk.inj (Option.some.inj h)
    rw [hstrip, ht, ← Mode.base_eq_code_iff.1 hmode]

theorem leadsLines_splitLines {cs current : List Char} {x z : List Char}
    (hsettles : settles (Mode.code.run current.reverse) cs = true)
    (h : Reading.read ⟨x, .code⟩ (current.reverse ++ cs) = some ⟨z, .code⟩) :
    LeadsLines x z ((splitLines cs current).map fun (line, ended) =>
      String.ofList (stripReturn line ended)) := by
  have hline : ∀ {x y : List Char} {line : List Char},
      Reading.read ⟨x, .code⟩ line = some ⟨y, .code⟩ →
      ∀ ended, Leads x y (String.ofList (stripReturn line ended)) := by
    intro x y line h ended
    unfold Leads
    rw [String.toList_ofList]
    exact read_stripReturn h ended
  fun_induction splitLines cs current generalizing x with
  | case1 =>
    obtain ⟨rfl, -⟩ := Reading.mk.inj (Option.some.inj h)
    exact .nil _
  | case2 current _ =>
    rw [List.append_nil] at h
    exact .cons (hline h false) (.nil _)
  | case3 rest current ih =>
    obtain ⟨hfeed, hrest⟩ := Bool.and_eq_true_iff.1 hsettles
    have hcode : Mode.code.run current.reverse = .code := by simpa using hfeed
    rw [hcode] at hrest
    rw [Reading.read_append] at h
    obtain ⟨⟨y, mode⟩, hcurrent, h⟩ := Option.bind_eq_some_iff.1 h
    obtain rfl : mode = .code := (Reading.mode_read hcurrent).trans hcode
    have hnext : Reading.step ⟨y, .code⟩ '\n' = some ⟨y, .code⟩ := step_of_isPlain (by decide) y
    rw [Reading.read, hnext, Option.bind_some] at h
    exact .cons (hline hcurrent true) (ih hrest h)
  | case4 c rest current hc ih =>
    have hcs : settles (Mode.code.run (c :: current).reverse) rest = true := by
      rw [List.reverse_cons, Mode.run_append]
      exact (Bool.and_eq_true_iff.1 hsettles).2
    rw [← List.singleton_append, ← List.append_assoc, ← List.reverse_cons] at h
    exact ih hcs h

/-- The lines of a text without line feeds in its literals take up each other's brackets. -/
theorem leadsLines_lines {s : String} {x z : List Char} (hsettles : settles .code s.toList = true)
    (h : Leads x z s) : LeadsLines x z (lines s) :=
  @leadsLines_splitLines s.toList [] x z hsettles h

theorem lineFeed_not_mem_of_mem_splitLines {cs current : List Char} (h : '\n' ∉ current)
    {line : List Char × Bool} (hline : line ∈ splitLines cs current) : '\n' ∉ line.1 := by
  fun_induction splitLines cs current with
  | case1 => exact absurd hline List.not_mem_nil
  | case2 current _ =>
    rw [List.mem_singleton.1 hline]
    exact mt List.mem_reverse.1 h
  | case3 rest current ih =>
    rcases List.mem_cons.1 hline with rfl | hline
    · exact mt List.mem_reverse.1 h
    · exact ih List.not_mem_nil hline
  | case4 c rest current hc ih =>
    exact ih (fun hmem => (List.mem_cons.1 hmem).elim (fun heq => hc heq.symm) h) hline

theorem lineFeed_not_mem_of_mem_lines {s line : String} (h : line ∈ lines s) :
    '\n' ∉ line.toList := by
  obtain ⟨⟨cs, ended⟩, hcs, rfl⟩ := List.mem_map.1 h
  rw [String.toList_ofList]
  have hline := lineFeed_not_mem_of_mem_splitLines List.not_mem_nil hcs
  have hstrip := stripReturn_prefix cs ended
  exact fun hmem => hline (hstrip.subset hmem)

theorem splitLines_append (a b current : List Char) :
    splitLines (a ++ '\n' :: b) current = splitLines (a ++ ['\n']) current ++ splitLines b [] := by
  induction a generalizing current with
  | nil => rfl
  | cons c a ih =>
    by_cases hc : c = '\n'
    · subst hc
      exact congrArg (_ :: ·) (ih [])
    · have hnext : ∀ cs, splitLines (c :: cs) current = splitLines cs (c :: current) :=
        fun cs => splitLines.eq_4 _ _ _ hc
      rw [List.cons_append, List.cons_append, hnext, hnext, ih]

theorem lines_append (a b : String) : lines (a ++ "\n" ++ b) = lines (a ++ "\n") ++ lines b := by
  unfold lines
  rw [← List.map_append, String.append_assoc, String.toList_append, String.toList_append,
    String.toList_append]
  exact congrArg _ (splitLines_append a.toList b.toList [])

end Text

end DBindings
