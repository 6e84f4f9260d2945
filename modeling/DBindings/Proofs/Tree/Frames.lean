import DBindings.Print.Stmt

/-!
# Statements around a statement

A frame is a statement with one sub-statement taken out.  A path of frames, the outermost first,
leads from a statement to a statement inside it.  The initialization of a `for` loop belongs to its
header, so no frame leads there.

* `Frame.fill`           puts a statement into a frame;
* `Stmt.within`          a statement inside the frames of a path;
* `Stmt.inside_iff`      paths lead to all statements inside a statement, and to no others;
* `Stmt.levels`          the frames of a path that print what is in them one level deeper.
-/

namespace DBindings

/-- A statement without one of its sub-statements. -/
inductive Frame where
  | member (before after : List Stmt)
  | yes (cond : Expr) (no : Option Stmt)
  | no (cond : Expr) (yes : Stmt)
  | whileBody (cond : Expr)
  | doBody (cond : Expr)
  | forBody (init : Option Stmt) (cond inc : Option Expr)
  | switchBody (cond : Expr)
  | caseBody (value : Expr)
  | defaultBody
  | labelBody (name : String)

namespace Frame

def fill : Frame → Stmt → Stmt
  | member before after, s => .compound (before ++ s :: after)
  | yes cond other, s => .ifThen cond s other
  | no cond other, s => .ifThen cond other (some s)
  | whileBody cond, s => .whileLoop cond s
  | doBody cond, s => .doLoop s cond
  | forBody init cond inc, s => .forLoop init cond inc s
  | switchBody cond, s => .switch cond s
  | caseBody value, s => .caseLabel value s
  | defaultBody, s => .defaultLabel s
  | labelBody name, s => .label name s

/-- A compound statement has its members one level deeper, and a control statement its body unless
that is a compound statement or an `if` behind `else`. -/
def deepens : Frame → Stmt → Bool
  | member _ _, _ => true
  | no _ _, s => !s.isCompound && !s.isIf
  | labelBody _, _ => false
  | yes _ _, s | whileBody _, s | doBody _, s | forBody _ _ _, s | switchBody _, s | caseBody _, s
  | defaultBody, s => !s.isCompound

end Frame

namespace Stmt

/-- The sub-statements of a statement, apart from the initialization of a loop. -/
def parts : Stmt → List Stmt
  | compound body => body
  | ifThen _ yes no => yes :: no.toList
  | whileLoop _ body | doLoop body _ | forLoop _ _ _ body | switch _ body | caseLabel _ body
  | defaultLabel body | label _ body => [body]
  | expr _ | decl _ | ret _ | goto _ | break_ | continue_ | null => []

/-- A statement inside the frames of a path. -/
def within (path : List Frame) (s : Stmt) : Stmt := path.foldr Frame.fill s

/-- How many frames of a path print what is in them one level deeper. -/
def levels : List Frame → Stmt → Nat
  | [], _ => 0
  | f :: path, s => (f.deepens (s.within path)).toNat + levels path s

end Stmt

/-- Every sub-statement has a frame, and only sub-statements have. -/
theorem Frame.exists_fill_iff {s t : Stmt} : (∃ f : Frame, f.fill t = s) ↔ t ∈ s.parts := by
  constructor
  · rintro ⟨f, rfl⟩
    cases f with
    | member before after => exact List.mem_append_right _ List.mem_cons_self
    | no => exact List.mem_cons_of_mem _ List.mem_cons_self
    | _ => exact List.mem_cons_self
  · intro h
    cases s with
    | compound body =>
      obtain ⟨before, after, rfl⟩ := List.append_of_mem h
      exact ⟨member before after, rfl⟩
    | ifThen cond yes no =>
      rcases List.mem_cons.1 h with rfl | h
      · exact ⟨.yes cond no, rfl⟩
      · rw [Option.mem_toList.1 h]
        exact ⟨.no cond yes, rfl⟩
    | whileLoop cond => exact ⟨whileBody cond, List.mem_singleton.1 h ▸ rfl⟩
    | doLoop _ cond => exact ⟨doBody cond, List.mem_singleton.1 h ▸ rfl⟩
    | forLoop init cond inc => exact ⟨forBody init cond inc, List.mem_singleton.1 h ▸ rfl⟩
    | switch cond => exact ⟨switchBody cond, List.mem_singleton.1 h ▸ rfl⟩
    | caseLabel value => exact ⟨caseBody value, List.mem_singleton.1 h ▸ rfl⟩
    | defaultLabel => exact ⟨defaultBody, List.mem_singleton.1 h ▸ rfl⟩
    | label name => exact ⟨labelBody name, List.mem_singleton.1 h ▸ rfl⟩
    | _ => exact absurd h List.not_mem_nil

namespace Stmt

/-- A statement is another one or stands inside it, outside the headers of loops. -/
inductive Inside (s : Stmt) : Stmt → Prop
  | here : Inside s s
  | part {t u : Stmt} (hpart : t ∈ u.parts) (h : Inside s t) : Inside s u

theorem inside_iff {s t : Stmt} : Inside s t ↔ ∃ path, s.within path = t := by
  constructor
  · intro h
    induction h with
    | here => exact ⟨[], rfl⟩
    | part hpart _ ih =>
      obtain ⟨f, rfl⟩ := Frame.exists_fill_iff.2 hpart
      obtain ⟨path, rfl⟩ := ih
      exact ⟨f :: path, rfl⟩
  · rintro ⟨path, rfl⟩
    induction path with
    | nil => exact .here
    | cons f path ih => exact .part (Frame.exists_fill_iff.1 ⟨f, rfl⟩) ih

/-- Two statements of the same form, as far as a frame around them tells forms apart. -/
def Alike (s t : Stmt) : Prop := s.isCompound = t.isCompound ∧ s.isIf = t.isIf

variable {s t : Stmt}

theorem alike_within (h : Alike s t) (path : List Frame) :
    Alike (s.within path) (t.within path) := by
  cases path with
  | nil => exact h
  | cons f path => cases f <;> exact ⟨rfl, rfl⟩

theorem Alike.deepens (h : Alike s t) (f : Frame) : f.deepens s = f.deepens t := by
  obtain ⟨hcompound, hif⟩ := h
  cases f <;> simp [Frame.deepens, hcompound, hif]

theorem Alike.levels (h : Alike s t) : (path : List Frame) → levels path s = levels path t
  | [] => rfl
  | f :: path => by
    show (f.deepens _).toNat + _ = (f.deepens _).toNat + _
    rw [(alike_within h path).deepens, Alike.levels h path]

end Stmt

end DBindings
