import DBindings.Text.Writer
import Mathlib.Data.List.Basic

/-!
# The text of strokes

What a writer does with strokes depends on its level alone, so the text of a list of strokes is
given by a function of the level and the list.

* `Stroke.codeAll`, `Stroke.levelAll`   the text of strokes and the level behind them;
* `CodeWriter.run_eq`                   a writer adds this text and goes to this level;
* `Stroke.Balanced`                     strokes that come back to the level they start at;
* `CodeWriter.insert_append`            text is put in between two parts of the text.
-/

namespace DBindings

namespace Stroke

def level (n : Nat) : Stroke → Nat
  | .indent => n + 1
  | .dedent => n - 1
  | _ => n

/-- A line at a level, with the line feed. -/
def lineCode (n : Nat) (s : String) : String := if s = "" then "\n" else indentation n ++ s ++ "\n"

def code (n : Nat) : Stroke → String
  | .line s => lineCode n s
  | .raw s => s
  | _ => ""

def levelAll (n : Nat) (ss : List Stroke) : Nat := ss.foldl level n

def codeAll : Nat → List Stroke → String
  | _, [] => ""
  | n, s :: ss => s.code n ++ codeAll (s.level n) ss

theorem levelAll_append (n : Nat) (a b : List Stroke) :
    levelAll n (a ++ b) = levelAll (levelAll n a) b := List.foldl_append

theorem codeAll_append (n : Nat) (a b : List Stroke) :
    codeAll n (a ++ b) = codeAll n a ++ codeAll (levelAll n a) b := by
  induction a generalizing n with
  | nil => exact String.empty_append.symm
  | cons s a ih => rw [List.cons_append, codeAll, codeAll, ih, String.append_assoc]; rfl

/-- The strokes come back to the level they start at. -/
def Balanced (ss : List Stroke) : Prop := ∀ n, levelAll n ss = n

theorem balanced_map_line {α : Type} (f : α → String) (l : List α) :
    Balanced (l.map fun x => .line (f x)) := by
  intro n
  induction l with
  | nil => rfl
  | cons x l ih => exact ih

theorem balanced_lines (texts : List String) : Balanced (texts.map .line) :=
  balanced_map_line id texts

theorem Balanced.append {a b : List Stroke} (ha : Balanced a) (hb : Balanced b) :
    Balanced (a ++ b) := by
  intro n
  rw [levelAll_append, ha, hb]

theorem utf8ByteSize_lineCode_pos (n : Nat) (s : String) : 0 < (lineCode n s).utf8ByteSize := by
  unfold lineCode
  split
  · decide
  · rw [String.utf8ByteSize_append]
    exact Nat.lt_of_lt_of_le (by decide : 0 < "\n".utf8ByteSize) (Nat.le_add_left _ _)

end Stroke

namespace CodeWriter
open Stroke

theorem apply_eq (w : CodeWriter) (s : Stroke) :
    w.apply s = ⟨w.text ++ s.code w.level, s.level w.level⟩ := by
  cases s with
  | line s =>
    show w.writeln s = ⟨w.text ++ lineCode w.level s, w.level⟩
    unfold writeln lineCode
    split <;> rfl
  | raw s => rfl
  | indent => exact congrArg (CodeWriter.mk · _) String.append_empty.symm
  | dedent => exact congrArg (CodeWriter.mk · _) String.append_empty.symm

theorem run_eq (w : CodeWriter) (ss : List Stroke) :
    w.run ss = ⟨w.text ++ codeAll w.level ss, levelAll w.level ss⟩ := by
  induction ss generalizing w with
  | nil => exact congrArg (CodeWriter.mk · _) String.append_empty.symm
  | cons s ss ih =>
    show (w.apply s).run ss = _
    rw [ih, apply_eq, String.append_assoc]
    rfl

theorem run_append (w : CodeWriter) (a b : List Stroke) : w.run (a ++ b) = (w.run a).run b :=
  List.foldl_append

/-! ## Inserting at a byte offset -/

theorem splitAtByte_behind (front : List Char) (bytes : Nat) (cs : List Char) :
    splitAtByte ((String.ofList front).utf8ByteSize + bytes) (front ++ cs) =
      (front ++ (splitAtByte bytes cs).1, (splitAtByte bytes cs).2) := by
  induction front with
  | nil =>
    show splitAtByte (0 + bytes) cs = _
    rw [Nat.zero_add]
    rfl
  | cons c front ih =>
    have hsize : (String.ofList (c :: front)).utf8ByteSize
        = c.utf8Size + (String.ofList front).utf8ByteSize := by
      have h : String.ofList (c :: front) = String.singleton c ++ String.ofList front := by
        rw [← String.toList_inj]; simp
      rw [h, String.utf8ByteSize_append, String.utf8ByteSize_singleton]
    have hrest : (String.ofList (c :: front)).utf8ByteSize + bytes - c.utf8Size
        = (String.ofList front).utf8ByteSize + bytes := by omega
    rw [List.cons_append, splitAtByte, if_pos (by omega), hrest, ih]
    rfl

theorem splitAtByte_zero (cs : List Char) : splitAtByte 0 cs = ([], cs) := by
  cases cs with
  | nil => rfl
  | cons c cs =>
    have hc := c.utf8Size_pos
    rw [splitAtByte, if_neg (by omega)]

theorem splitAtByte_append (front rest : List Char) :
    splitAtByte (String.ofList front).utf8ByteSize (front ++ rest) = (front, rest) := by
  have h := splitAtByte_behind front 0 rest
  rwa [splitAtByte_zero, List.append_nil, Nat.add_zero] at h

theorem insert_append (a b s : String) (n : Nat) :
    insert ⟨a ++ b, n⟩ a.utf8ByteSize s = ⟨a ++ s ++ b, n⟩ := by
  have h := splitAtByte_append a.toList b.toList
  rw [String.ofList_toList] at h
  simp only [insert, String.toList_append, h, String.ofList_toList]

end CodeWriter

end DBindings
