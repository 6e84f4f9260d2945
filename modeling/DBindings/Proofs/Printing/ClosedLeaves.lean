import DBindings.Literal
import DBindings.Operator
import DBindings.Proofs.Types.Composed

/-!
# Types, names and literals are closed texts

* `Ty.closed_render`       the text of a type, if its spellings and the names it refers to are so;
* `Literal.closed_string`, `Literal.closed_character`   quoted literals: what would end them early
                           is escaped;
* `Literal.closed_float`   numbers.
-/

set_option linter.unusedSectionVars false

namespace DBindings

/-! ## Scope and arrow symbols -/

namespace Reading

theorem step_scope (s : Reading) : s.step '.' = (s.step ':').bind fun s => s.step ':' := by
  obtain ⟨awaited, mode⟩ := s
  cases mode <;> rfl

theorem step_arrow (s : Reading) : s.step '.' = (s.step '-').bind fun s => s.step '>' := by
  obtain ⟨awaited, mode⟩ := s
  cases mode <;> rfl

/-- A character that is read like a pair may stand for it. -/
theorem read_replacePair {a b c : Char}
    (h : ∀ s : Reading, s.step c = (s.step a).bind fun s => s.step b) (s : Reading)
    (cs : List Char) : s.read (Text.replacePair a b c cs) = s.read cs := by
  fun_induction Text.replacePair a b c cs generalizing s with
  | case1 x y rest hpair ih =>
    obtain ⟨rfl, rfl⟩ := hpair
    show (s.step c).bind _ = (s.step x).bind fun s => (s.step y).bind fun s => s.read rest
    rw [h, Option.bind_assoc]
    exact Option.bind_congr fun t _ => Option.bind_congr fun u _ => ih u
  | case2 x y rest _ ih =>
    show (s.step x).bind _ = (s.step x).bind _
    exact Option.bind_congr fun t _ => ih t
  | case3 rest _ => rfl

end Reading

/-- A dot for a scope symbol makes no difference to brackets and literals. -/
theorem leads_dotted {x y : List Char} {s : String} (h : Leads x y s) :
    Leads x y (Text.dotted s) := by
  unfold Leads Text.dotted
  rw [String.toList_ofList, Reading.read_replacePair Reading.step_scope]
  exact h

theorem leads_dottedArrows {x y : List Char} {s : String} (h : Leads x y s) :
    Leads x y (Text.dottedArrows s) := by
  unfold Leads Text.dottedArrows
  rw [String.toList_ofList, Reading.read_replacePair Reading.step_arrow]
  exact h

theorem Identifier.closed_sanitize {s : String} (h : Closed s) :
    Closed (Identifier.sanitize s) := by
  unfold Identifier.sanitize
  split
  · exact closed_append h (by decide)
  · exact h

/-! ## Types -/

theorem closed_commaSeparated {ts : List String} (h : ∀ t ∈ ts, Closed t) :
    Closed (commaSeparated ts) := closed_intercalate (by decide) h

theorem Composed.closed {L K : List String} {s : String} (h : Composed L K s)
    (hL : ∀ l ∈ L, Closed l) : Closed s := by
  induction h with
  | leaf s => exact leads_dotted (hL s List.mem_cons_self)
  | word hw => exact closed_of_isPlain fun c hc => Text.isPlain_of_isWord (hw c hc)
  | pointer _ ih => exact closed_append (ih hL) (by decide)
  | reference _ ih => exact closed_append (by decide) (ih hL)
  | constant _ ih => exact closed_wrap (by decide : Leads [] [')'] "const(") (ih hL) (by decide)
  | comma _ _ ih ih' =>
    obtain ⟨hl, hl'⟩ := List.forall_mem_append.1 hL
    exact closed_append (closed_append (ih hl) (by decide)) (ih' hl')
  | @bracketed _ _ _ _ o c _ _ hmark _ _ ih ih' =>
    obtain ⟨hl, hl'⟩ := List.forall_mem_append.1 hL
    have hpair : ∀ m ∈ Text.brackets, Leads [] [')'] m.1 ∧ Leads [')'] [] m.2 ∨
        Leads [] [']'] m.1 ∧ Leads [']'] [] m.2 := by decide
    rcases hpair _ hmark with ⟨ho, hc⟩ | ⟨ho, hc⟩
    · exact closed_bracketed (ih hl) ho (ih' hl') hc
    · exact closed_bracketed (ih hl) ho (ih' hl') hc

section
variable {names : NameTable} (hn : names.Spelled Closed)
include hn

theorem TemplateArg.closed_renderAll {args : List TemplateArg}
    (h : ∀ s ∈ TemplateArg.spellingsAll args, Closed s) :
    ∀ t ∈ TemplateArg.renderAll names args, Closed t :=
  (TemplateArg.composed_renderAll args).forall Composed.closed
    (TemplateArg.forall_leavesAll hn args h)

theorem Ty.closed_render {ty : Ty} (h : ∀ s ∈ ty.spellings, Closed s) : Closed (ty.render names) :=
  ty.composed.closed (Ty.forall_leavesIn hn false ty h)

end

theorem OverloadedOp.closed_spelling (op : OverloadedOp) : Closed op.spelling := by
  cases op <;> decide +kernel

/-- All that the name of an operator depends on is whether there are parameters. -/
theorem OverloadedOp.memberName_cases (op : OverloadedOp) (params : Nat) :
    op.memberName params = op.memberName 0 ∨ op.memberName params = op.memberName 1 := by
  cases params with
  | zero => exact Or.inl rfl
  | succ n => cases op <;> exact Or.inr rfl

theorem OverloadedOp.closed_memberName (op : OverloadedOp) (params : Nat) :
    Closed (op.memberName params) := by
  rcases op.memberName_cases params with h | h <;> rw [h] <;> cases op <;> decide +kernel

/-! ## Quoted literals -/

namespace Literal

theorem mem_hexDigit (n : Nat) : hexDigit n ∈ "0123456789abcdef".toList := by
  unfold hexDigit
  rw [List.getD_eq_getElem?_getD]
  cases h : "0123456789abcdef".toList[n]? with
  | none => decide
  | some c => exact List.mem_of_getElem? h

theorem mem_hexDigits {width n : Nat} {c : Char} (h : c ∈ hexDigits width n) :
    c ∈ "0123456789abcdef".toList := by
  induction width generalizing n with
  | zero => exact absurd h List.not_mem_nil
  | succ width ih =>
    rcases List.mem_append.1 h with h | h
    · exact ih h
    · rw [List.mem_singleton.1 h]
      exact mem_hexDigit _

theorem within_hexDigits {mode : Mode} (hmode : mode = .string ∨ mode = .char) (width n : Nat) :
    mode.within (hexDigits width n) = some mode := by
  have hne : mode ≠ .code := by rcases hmode with rfl | rfl <;> decide
  have hall : ("0123456789abcdef".toList.all fun c => decide (mode.next c = mode)) = true := by
    rcases hmode with rfl | rfl <;> decide +kernel
  have hdigits : ∀ c ∈ hexDigits width n, mode.next c = mode :=
    fun c hc => of_decide_eq_true (List.all_eq_true.1 hall c (mem_hexDigits hc))
  generalize hexDigits width n = cs at hdigits
  induction cs with
  | nil => rfl
  | cons c cs ih =>
    rw [Mode.within, hdigits c List.mem_cons_self, if_neg hne]
    exact ih fun d hd => hdigits d (List.mem_cons_of_mem _ hd)

/-- Escapes keep a character from ending the literal that it stands in. -/
theorem within_stringChar (c : Char) : Mode.string.within (stringChar c) = some .string := by
  unfold stringChar
  refine Mode.within_ite (fun _ => rfl) fun hbackslash => ?_
  refine Mode.within_ite (fun _ => rfl) fun hquote => ?_
  have hself : Mode.string.within [c] = some .string := by
    have hnext : Mode.string.next c = .string := (if_neg hbackslash).trans (if_neg hquote)
    rw [Mode.within, hnext]
    rfl
  iterate 4 refine Mode.within_ite (fun _ => rfl) fun _ => ?_
  exact Mode.within_ite (fun _ => within_hexDigits (Or.inl rfl) 2 c.toNat) fun _ => hself

theorem within_stringBody (cs : List Char) :
    Mode.string.within (cs.flatMap stringChar) = some .string := by
  induction cs with
  | nil => rfl
  | cons c cs ih =>
    rw [List.flatMap_cons, Mode.within_append, within_stringChar]
    exact ih

theorem closed_string (value : String) : Closed (string value) := by
  unfold Closed Leads string
  rw [String.toList_ofList, Reading.read_append]
  show (Reading.read ⟨[], .string⟩ _).bind _ = _
  rw [Reading.read_of_within (by decide) (within_stringBody value.toList)]
  rfl

theorem ofNat_ne {n : Nat} (h : 0x20 ≤ n ∧ n ≤ 0x7E) {d : Char} (hd : n ≠ d.toNat) :
    Char.ofNat n ≠ d := by
  have hvalid : n.isValidChar := Or.inl (by omega)
  rintro rfl
  unfold Char.ofNat at hd
  rw [dif_pos hvalid] at hd
  exact hd UInt32.toNat_ofNatLT.symm

theorem within_characterBody (n : Nat) : Mode.char.within (characterBody n) = some .char := by
  unfold characterBody
  refine Mode.within_ite (fun _ => rfl) fun hbackslash => ?_
  refine Mode.within_ite (fun _ => rfl) fun hquote => ?_
  have hself : 0x20 ≤ n ∧ n ≤ 0x7E → Mode.char.within [Char.ofNat n] = some .char := by
    intro hprintable
    have hnext : Mode.char.next (Char.ofNat n) = .char :=
      (if_neg (ofNat_ne hprintable (d := '\\') hbackslash)).trans
        (if_neg (ofNat_ne hprintable (d := '\'') hquote))
    rw [Mode.within, hnext]
    rfl
  iterate 7 refine Mode.within_ite (fun _ => rfl) fun _ => ?_
  refine Mode.within_ite hself fun _ => ?_
  refine Mode.within_ite (fun _ => within_hexDigits (Or.inr rfl) 2 n) fun _ => ?_
  exact Mode.within_ite (fun _ => within_hexDigits (Or.inr rfl) 4 n)
    fun _ => within_hexDigits (Or.inr rfl) 8 n

theorem closed_character (value : UInt32) (kind : CharKind) : Closed (character value kind) := by
  have hquoted : Closed (String.ofList
      ('\'' :: characterBody (characterValue value kind) ++ ['\''])) := by
    unfold Closed Leads
    rw [String.toList_ofList, Reading.read_append]
    show (Reading.read ⟨[], .char⟩ _).bind _ = _
    rw [Reading.read_of_within (by decide) (within_characterBody _)]
    rfl
  exact closed_append hquoted (by cases kind <;> decide)

/-! ## Numbers -/

theorem closed_integer (value : Int) (kind : Builtin) : Closed (integer value kind) :=
  closed_append (closed_toString_int value) (by cases kind <;> decide)

theorem mem_positional {digits : Nat} {exponent : Int} {c : Char}
    (h : c ∈ (Binary64.positional digits exponent).toList) : c.isDigit = true ∨ c = '.' := by
  have hzeros : ∀ {n}, c ∈ List.replicate n '0' → c.isDigit = true := fun hc => by
    rw [List.eq_of_mem_replicate hc]
    rfl
  unfold Binary64.positional at h
  cases exponent with
  | ofNat k =>
    dsimp only at h
    rw [String.toList_ofList] at h
    rcases List.mem_append.1 h with h | h
    · exact Or.inl (isDigit_of_mem_toString h)
    · split at h
      · exact absurd h List.not_mem_nil
      · exact Or.inl (hzeros h)
  | negSucc k =>
    dsimp only at h
    rw [String.toList_ofList] at h
    generalize hpadded : List.replicate (k + 1 + 1 - (toString digits).toList.length) '0'
      ++ (toString digits).toList = padded at h
    have hdigit : c ∈ padded → c.isDigit = true := by
      intro hc
      rw [← hpadded] at hc
      rcases List.mem_append.1 hc with hc | hc
      · exact hzeros hc
      · exact isDigit_of_mem_toString hc
    rcases List.mem_append.1 h with h | h
    · exact Or.inl (hdigit (List.mem_of_mem_take h))
    · rcases List.mem_cons.1 h with rfl | h
      · exact Or.inr rfl
      · exact Or.inl (hdigit (List.mem_of_mem_drop h))

theorem isPlain_positional (digits : Nat) (exponent : Int) :
    ∀ c ∈ (Binary64.positional digits exponent).toList, isPlain c = true := by
  intro c hc
  rcases mem_positional hc with h | rfl
  · exact isPlain_of_isDigit h
  · decide

theorem closed_finiteText (negative : Bool) (mantissa : Nat) (exponent : Int) :
    Closed (finiteText negative mantissa exponent) := by
  have hsign : Closed (if negative then "-" else "") := by cases negative <;> decide +kernel
  unfold finiteText
  dsimp only
  refine closed_append (closed_append hsign (closed_of_isPlain (isPlain_positional _ _))) ?_
  split <;> decide +kernel

theorem closed_float (value : Binary64) (kind : Builtin) : Closed (float value kind) := by
  have hname : Closed (floatTypeName kind) := by cases kind <;> decide +kernel
  cases value with
  | nan => exact closed_append hname (by decide)
  | infinite negative =>
    exact closed_append (closed_append (by cases negative <;> decide) hname) (by decide)
  | finite negative mantissa exponent =>
    refine closed_append (closed_finiteText negative mantissa exponent) ?_
    split <;> decide +kernel

end Literal

end DBindings
