import DBindings.Proofs.Text.Nesting
import DBindings.Text.Contains
import DBindings.Text.Writer

/-!
# Lines outside comments

Comments are told line by line: a line that begins with two slashes is one, and so are the lines
from one that begins with a slash and a star to the next that has a star and a slash.  Indentation
in front of a line makes no difference.

* `Text.unindented`    a line without the blanks in front;
* `Text.uncommented`   the lines that stand in no comment;
* `Text.enumLines`     those of them that begin an enumeration;
* `Text.IsLine`        the text is one line;
* `Text.lines_join`    lines that are joined with line feeds are read back.
-/

namespace DBindings.Text

/-- The line without the blanks in front. -/
def unindented (line : String) : String := String.ofList (line.toList.dropWhile (· == ' '))

/-- A comment of several lines begins with the line. -/
def opensComment (line : String) : Bool := ['/', '*'].isPrefixOf line.toList

/-- A comment of several lines ends here. -/
def closesComment (cs : List Char) : Bool := containsChars ['*', '/'] cs

/-- The lines that stand in no comment; whether one is open in front of them is given. -/
def uncommented : Bool → List String → List String
  | _, [] => []
  | true, line :: rest => uncommented (!closesComment line.toList) rest
  | false, line :: rest =>
    if isComment line then uncommented false rest
    else if opensComment line then uncommented (!closesComment (line.toList.drop 2)) rest
    else line :: uncommented false rest

/-- The line begins an enumeration. -/
def isEnumLine (line : String) : Bool := "enum ".toList.isPrefixOf line.toList

/-- The lines outside comments that begin an enumeration, without indentation. -/
def enumLines (ls : List String) : List String :=
  (uncommented false (ls.map unindented)).filter isEnumLine

variable {line : String} (ls : List String)

theorem uncommented_of_isComment (h : isComment line = true) :
    uncommented false (line :: ls) = uncommented false ls := if_pos h

theorem uncommented_enum (rest : String) : uncommented false (("enum " ++ rest) :: ls) =
    ("enum " ++ rest) :: uncommented false ls := by
  have hslashes : isComment ("enum " ++ rest) = false := isComment_append (by decide) rest
  have hopens : opensComment ("enum " ++ rest) = false := by
    unfold opensComment
    rw [String.toList_append]
    rfl
  rw [uncommented, hslashes, hopens]
  rfl

theorem isEnumLine_append (rest : String) : isEnumLine ("enum " ++ rest) = true := by
  unfold isEnumLine
  rw [String.toList_append, List.isPrefixOf_iff_prefix]
  exact List.prefix_append _ _

/-- A line in a comment of its own is no enumeration, also if it closes the comment itself. -/
theorem filter_uncommented_block (line : String) :
    (uncommented false ("/*" :: line :: "*/" :: ls)).filter isEnumLine =
      (uncommented false ls).filter isEnumLine := by
  show (uncommented (!closesComment line.toList) ("*/" :: ls)).filter isEnumLine = _
  cases closesComment line.toList with
  | true => rfl
  | false => rfl

/-! ## Indentation -/

theorem unindented_indentation (n : Nat) (s : String) :
    unindented (indentation n ++ s) = unindented s := by
  unfold unindented indentation
  rw [String.toList_append, String.toList_ofList, List.dropWhile_append_of_pos]
  intro c hc
  exact beq_iff_eq.2 (List.eq_of_mem_replicate hc)

theorem unindented_of_head {line : String} (h : line.toList.head?.any (· != ' ') = true) :
    unindented line = line := by
  unfold unindented
  rw [← String.toList_inj, String.toList_ofList]
  cases hcs : line.toList with
  | nil => rfl
  | cons c cs =>
    rw [hcs] at h
    exact List.dropWhile_cons_of_neg (by simpa using h)

theorem enumLines_indentation (n : Nat) (ls : List String) :
    enumLines (ls.map (indentation n ++ ·)) = enumLines ls := by
  unfold enumLines
  rw [List.map_map]
  exact congrArg _ (congrArg _ (List.map_congr_left fun line _ => unindented_indentation n line))

/-! ## Reading lines back -/

/-- The text is one line as it stands. -/
def IsLine (line : String) : Prop := '\n' ∉ line.toList ∧ line.toList.getLast? ≠ some '\r'

instance : DecidablePred IsLine := fun _ => inferInstanceAs (Decidable (_ ∧ _))

theorem IsLine.behind {b : String} (hb : IsLine b) (hne : b.toList ≠ []) {a : String}
    (ha : '\n' ∉ a.toList) : IsLine (a ++ b) := by
  unfold IsLine
  rw [String.toList_append, List.getLast?_append_of_ne_nil _ hne]
  exact ⟨fun h => (List.mem_append.1 h).elim ha hb.1, hb.2⟩

theorem splitLines_ended {a : List Char} (h : '\n' ∉ a) (current : List Char) :
    splitLines (a ++ ['\n']) current = [(current.reverse ++ a, true)] := by
  induction a generalizing current with
  | nil =>
    rw [List.append_nil]
    rfl
  | cons c a ih =>
    obtain ⟨hc, ha⟩ := not_or.1 (mt List.mem_cons.2 h)
    have hnext : splitLines (c :: (a ++ ['\n'])) current =
        splitLines (a ++ ['\n']) (c :: current) :=
      splitLines.eq_4 _ _ _ (Ne.symm hc)
    rw [List.cons_append, hnext, ih ha, List.reverse_cons, List.append_assoc]
    rfl

theorem lines_ended (h : IsLine line) : lines (line ++ "\n") = [line] := by
  have hstrip : stripReturn line.toList true = line.toList :=
    if_neg (by rw [Bool.true_and, beq_iff_eq]; exact h.2)
  unfold lines
  rw [String.toList_append]
  show (splitLines (line.toList ++ ['\n']) []).map _ = _
  rw [splitLines_ended h.1]
  show [String.ofList (stripReturn line.toList true)] = _
  rw [hstrip, String.ofList_toList]

theorem lines_join {ls : List String} (h : ∀ line ∈ ls, IsLine line) :
    lines (String.join (ls.map (· ++ "\n"))) = ls := by
  induction ls with
  | nil => rfl
  | cons line ls ih =>
    rw [List.map_cons, String.join_cons, lines_append, lines_ended (h line List.mem_cons_self),
      ih fun l hl => h l (List.mem_cons_of_mem _ hl)]
    rfl

end DBindings.Text
