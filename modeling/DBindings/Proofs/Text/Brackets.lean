import Mathlib.Data.List.Basic

/-!
# Brackets and literals in a text

A text is read from left to right: brackets are opened and closed, and what stands in a string or
character literal is skipped by its escape rules.

* `Mode.next`      how a character is read;
* `Mode.within`    what does not end the literal it stands in;
* `Reading.read`   reads characters, unless a bracket is closed that is not the innermost one;
* `Leads`          a text leads from some open brackets to others;
* `Closed`         brackets and literals of a text end in it;
* `outer`          the characters outside brackets and literals, the opening ones included;
* `closed_append`, `closed_wrap`, `outer_append`, `outer_wrap`   composed texts.
-/

namespace DBindings

/-- How the next character is to be read. -/
inductive Mode where
  | code
  | string
  | stringEscape
  | char
  | charEscape
  deriving Repr, DecidableEq

namespace Mode

/-- The mode behind a character. -/
def next : Mode → Char → Mode
  | code, c => if c = '"' then string else if c = '\'' then char else code
  | string, c => if c = '\\' then stringEscape else if c = '"' then code else string
  | stringEscape, _ => string
  | char, c => if c = '\\' then charEscape else if c = '\'' then code else char
  | charEscape, _ => char

/-- The mode behind characters that do not end the literal they stand in. -/
def within (m : Mode) : List Char → Option Mode
  | [] => some m
  | c :: cs => if m.next c = code then none else (m.next c).within cs

theorem within_append (m : Mode) (a b : List Char) :
    m.within (a ++ b) = (m.within a).bind fun m => m.within b := by
  induction a generalizing m with
  | nil => rfl
  | cons c a ih =>
    show (if _ then none else (m.next c).within (a ++ b)) = (if _ then none else _).bind _
    split
    · rfl
    · exact ih _

theorem within_ite {c : Prop} [Decidable c] {m : Mode} {r : Option Mode} {a b : List Char}
    (ha : c → m.within a = r) (hb : ¬c → m.within b = r) : m.within (if c then a else b) = r :=
  iteInduction (motive := fun cs => m.within cs = r) ha hb

end Mode

/-- The brackets that are open, by what closes them and the innermost first. -/
structure Reading where
  awaited : List Char := []
  mode : Mode := .code
  deriving Repr, DecidableEq

/-- What closes a bracket. -/
def closing? : Char → Option Char
  | '(' => some ')'
  | '[' => some ']'
  | '\x7b' => some '\x7d'
  | _ => none

def isClosing (c : Char) : Bool := c = ')' || c = ']' || c = '\x7d'

namespace Reading

/-- Reads a character of code. -/
def readCode (awaited : List Char) (c : Char) : Option Reading :=
  match closing? c with
  | some d => some ⟨d :: awaited, .code⟩
  | none =>
    if isClosing c then
      match awaited with
      | d :: rest => if c = d then some ⟨rest, .code⟩ else none
      | [] => none
    else if c = '"' then some ⟨awaited, .string⟩
    else if c = '\'' then some ⟨awaited, .char⟩
    else some ⟨awaited, .code⟩

def step (s : Reading) (c : Char) : Option Reading :=
  match s.mode with
  | .code => readCode s.awaited c
  | .string =>
    some ⟨s.awaited, if c = '\\' then .stringEscape else if c = '"' then .code else .string⟩
  | .stringEscape => some ⟨s.awaited, .string⟩
  | .char => some ⟨s.awaited, if c = '\\' then .charEscape else if c = '\'' then .code else .char⟩
  | .charEscape => some ⟨s.awaited, .char⟩

def read (s : Reading) : List Char → Option Reading
  | [] => some s
  | c :: cs => (s.step c).bind fun s => s.read cs

theorem read_append (s : Reading) (a b : List Char) :
    s.read (a ++ b) = (s.read a).bind fun s => s.read b := by
  induction a generalizing s with
  | nil => rfl
  | cons c a ih =>
    show ((s.step c).bind fun s => s.read (a ++ b)) = ((s.step c).bind fun s => s.read a).bind _
    cases s.step c with
    | none => rfl
    | some s' => exact ih s'

theorem step_of_ne_code {m : Mode} (hm : m ≠ .code) (awaited : List Char) (c : Char) :
    step ⟨awaited, m⟩ c = some ⟨awaited, m.next c⟩ := by
  cases m with
  | code => exact absurd rfl hm
  | string | stringEscape | char | charEscape => rfl

theorem read_of_within {m m' : Mode} {cs : List Char} (hm : m ≠ .code)
    (h : m.within cs = some m') (awaited : List Char) :
    read ⟨awaited, m⟩ cs = some ⟨awaited, m'⟩ := by
  induction cs generalizing m with
  | nil =>
    rw [← Option.some.inj h]
    rfl
  | cons c cs ih =>
    obtain ⟨hnext, h⟩ := Option.ite_none_left_eq_some.1 h
    show (step ⟨awaited, m⟩ c).bind _ = _
    rw [step_of_ne_code hm]
    exact ih hnext h

/-- Further brackets around make no difference. -/
theorem step_under {s s' : Reading} {c : Char} (h : s.step c = some s') (under : List Char) :
    Reading.step ⟨s.awaited ++ under, s.mode⟩ c = some ⟨s'.awaited ++ under, s'.mode⟩ := by
  obtain ⟨awaited, mode⟩ := s
  cases mode with
  | code =>
    unfold step readCode at h ⊢
    dsimp only at h ⊢
    cases hc : closing? c with
    | some d =>
      rw [hc] at h
      rw [← Option.some.inj h]
      rfl
    | none =>
      rw [hc] at h
      dsimp only at h ⊢
      split at h
      · next hclosing =>
        rw [if_pos hclosing]
        cases awaited with
        | nil => exact absurd h (by simp)
        | cons d rest =>
          dsimp only at h ⊢
          split at h
          · next hd =>
            rw [List.cons_append]
            dsimp only
            rw [if_pos hd, ← Option.some.inj h]
          · exact absurd h (by simp)
      · next hclosing =>
        rw [if_neg hclosing]
        split at h
        · next hq =>
          rw [if_pos hq, ← Option.some.inj h]
        · next hq =>
          rw [if_neg hq]
          split at h
          · next hq' =>
            rw [if_pos hq', ← Option.some.inj h]
          · next hq' =>
            rw [if_neg hq', ← Option.some.inj h]
  | string | stringEscape | char | charEscape =>
    unfold step at h ⊢
    dsimp only at h ⊢
    rw [← Option.some.inj h]

theorem read_under {s s' : Reading} {cs : List Char} (h : s.read cs = some s') (under : List Char) :
    Reading.read ⟨s.awaited ++ under, s.mode⟩ cs = some ⟨s'.awaited ++ under, s'.mode⟩ := by
  induction cs generalizing s with
  | nil =>
    rw [← Option.some.inj h]
    rfl
  | cons c cs ih =>
    obtain ⟨t, ht, h⟩ := Option.bind_eq_some_iff.1 h
    show (Reading.step _ c).bind _ = _
    rw [step_under ht under]
    exact ih h

end Reading

/-- A text leads from some open brackets to others, and to the end of every literal in it. -/
def Leads (before after : List Char) (s : String) : Prop :=
  Reading.read ⟨before, .code⟩ s.toList = some ⟨after, .code⟩

instance (before after : List Char) (s : String) : Decidable (Leads before after s) :=
  inferInstanceAs (Decidable (_ = _))

theorem Leads.append {x y z : List Char} {a b : String} (ha : Leads x y a) (hb : Leads y z b) :
    Leads x z (a ++ b) := by
  unfold Leads
  rw [String.toList_append, Reading.read_append, ha]
  exact hb

theorem Leads.under {x y : List Char} {a : String} (h : Leads x y a) (under : List Char) :
    Leads (x ++ under) (y ++ under) a :=
  Reading.read_under h under

/-- Every bracket and literal that begins in the text ends in it, and no other bracket is closed. -/
def Closed (s : String) : Prop := Leads [] [] s

instance (s : String) : Decidable (Closed s) := inferInstanceAs (Decidable (Leads [] [] s))

theorem Closed.leads {s : String} (h : Closed s) (x : List Char) : Leads x x s := Leads.under h x

theorem closed_empty : Closed "" := rfl

theorem closed_append {a b : String} (ha : Closed a) (hb : Closed b) : Closed (a ++ b) :=
  Leads.append ha hb

theorem closed_wrap {a b s : String} {x : List Char} (ha : Leads [] x a) (hs : Closed s)
    (hb : Leads x [] b) : Closed (a ++ s ++ b) :=
  (ha.append (hs.leads x)).append hb

theorem closed_bracketed {p a b s : String} {x : List Char} (hp : Closed p) (ha : Leads [] x a)
    (hs : Closed s) (hb : Leads x [] b) : Closed (p ++ a ++ s ++ b) :=
  ((hp.append ha).append (hs.leads x)).append hb

/-! ## Outside brackets and literals -/

namespace Reading

/-- No bracket or literal is open. -/
def isOutside (s : Reading) : Bool := s.awaited.isEmpty && s.mode == .code

/-- The characters that are read where no bracket or literal is open. -/
def outer (s : Reading) : List Char → List Char
  | [] => []
  | c :: cs =>
    (if s.isOutside then [c] else []) ++
      match s.step c with
      | some s' => s'.outer cs
      | none => []

theorem outer_append {s s' : Reading} {a : List Char} (h : s.read a = some s') (b : List Char) :
    s.outer (a ++ b) = s.outer a ++ s'.outer b := by
  induction a generalizing s with
  | nil =>
    rw [← Option.some.inj h]
    rfl
  | cons c a ih =>
    obtain ⟨t, ht, h⟩ := Option.bind_eq_some_iff.1 h
    rw [List.cons_append, outer, outer, ht]
    dsimp only
    rw [ih h, List.append_assoc]

theorem outer_under {s s' : Reading} {cs : List Char} (h : s.read cs = some s') (d : Char)
    (under : List Char) : Reading.outer ⟨s.awaited ++ d :: under, s.mode⟩ cs = [] := by
  induction cs generalizing s with
  | nil => rfl
  | cons c cs ih =>
    obtain ⟨t, ht, h⟩ := Option.bind_eq_some_iff.1 h
    have hout : Reading.isOutside ⟨s.awaited ++ d :: under, s.mode⟩ = false := by
      unfold isOutside
      cases s.awaited <;> rfl
    rw [outer, hout, step_under ht]
    exact ih h

end Reading

/-- The characters of a text outside brackets and literals; what opens these is included. -/
def outer (s : String) : List Char := Reading.outer {} s.toList

theorem outer_append {a b : String} (ha : Closed a) : outer (a ++ b) = outer a ++ outer b := by
  unfold outer
  rw [String.toList_append]
  exact Reading.outer_append ha _

theorem outer_wrap {a b s : String} {d : Char} {x : List Char} (ha : Leads [] (d :: x) a)
    (hs : Closed s) :
    outer (a ++ s ++ b) = outer a ++ Reading.outer ⟨d :: x, .code⟩ b.toList := by
  have hread : Reading.read {} (a ++ s).toList = some ⟨d :: x, .code⟩ :=
    Leads.append ha (hs.leads _)
  have hinside : Reading.outer ⟨d :: x, .code⟩ s.toList = [] := Reading.outer_under hs d x
  unfold outer
  rw [String.toList_append, Reading.outer_append hread, String.toList_append,
    Reading.outer_append ha, hinside, List.append_nil]

/-! ## Texts without brackets and quotes -/

/-- A character that is neither a bracket nor a quote. -/
def isPlain (c : Char) : Bool :=
  (closing? c).isNone && !isClosing c && c != '"' && c != '\''

theorem step_of_isPlain {c : Char} (h : isPlain c = true) (x : List Char) :
    Reading.step ⟨x, .code⟩ c = some ⟨x, .code⟩ := by
  simp only [isPlain, Bool.and_eq_true, Bool.not_eq_true', bne_iff_ne, Option.isNone_iff_eq_none]
    at h
  obtain ⟨⟨⟨hopen, hclose⟩, hquote⟩, hquote'⟩ := h
  show Reading.readCode x c = _
  unfold Reading.readCode
  rw [hopen]
  dsimp only
  rw [if_neg (by rw [hclose]; decide), if_neg hquote, if_neg hquote']

theorem closed_of_isPlain {s : String} (h : ∀ c ∈ s.toList, isPlain c = true) : Closed s := by
  unfold Closed Leads
  generalize s.toList = cs at h
  induction cs with
  | nil => rfl
  | cons c cs ih =>
    show (Reading.step ⟨[], .code⟩ c).bind _ = _
    rw [step_of_isPlain (h c List.mem_cons_self)]
    exact ih fun d hd => h d (List.mem_cons_of_mem _ hd)

/-- The text has no brackets and quotes. -/
def Plain (s : String) : Prop := ∀ c ∈ s.toList, isPlain c = true

instance (s : String) : Decidable (Plain s) :=
  List.decidableBAll (fun c => isPlain c = true) s.toList

theorem Plain.closed {s : String} (h : Plain s) : Closed s := closed_of_isPlain h

theorem ne_of_lacks {ok : Char → Bool} {l : List Char} (h : (l.all fun d => !ok d) = true)
    {c : Char} (hc : ok c = true) : ∀ d ∈ l, c ≠ d := by
  rintro d hd rfl
  have hlacks := List.all_eq_true.1 h c hd
  rw [hc] at hlacks
  exact absurd hlacks (by decide)

theorem isPlain_of_lacks {ok : Char → Bool}
    (h : ("()[]\x7b\x7d\"'".toList.all fun d => !ok d) = true) {c : Char} (hc : ok c = true) :
    isPlain c = true := by
  have hne := ne_of_lacks h hc
  have hopen : closing? c = none := by
    unfold closing?
    split
    · exact absurd rfl (hne _ (by decide))
    · exact absurd rfl (hne _ (by decide))
    · exact absurd rfl (hne _ (by decide))
    · rfl
  simp [isPlain, isClosing, hopen, hne ')' (by decide), hne ']' (by decide),
    hne '\x7d' (by decide), hne '"' (by decide), hne '\'' (by decide)]

theorem isPlain_of_isDigit {c : Char} (h : c.isDigit = true) : isPlain c = true :=
  isPlain_of_lacks (by decide) h

theorem isDigit_of_mem_toString {n : Nat} {c : Char} (h : c ∈ (toString n).toList) :
    c.isDigit = true := by
  rw [Nat.toString_eq_ofList_toDigits, String.toList_ofList] at h
  exact Nat.isDigit_of_mem_toDigits (by decide) (by decide) h

theorem toString_ne_nil (n : Nat) : (toString n).toList ≠ [] := by
  rw [Nat.toString_eq_ofList_toDigits, String.toList_ofList]
  exact Nat.toDigits_ne_nil

theorem isPlain_of_mem_toString {n : Nat} {c : Char} (h : c ∈ (toString n).toList) :
    isPlain c = true := isPlain_of_isDigit (isDigit_of_mem_toString h)

theorem toString_injective : Function.Injective (toString : Nat → String) := by
  intro m n h
  have hdigits := congrArg String.toList h
  rw [Nat.toString_eq_ofList_toDigits, Nat.toString_eq_ofList_toDigits, String.toList_ofList,
    String.toList_ofList] at hdigits
  have hvalue := congrArg (fun digits => Nat.ofDigitChars 10 digits 0) hdigits
  rwa [Nat.ofDigitChars_toDigits (by decide) (by decide),
    Nat.ofDigitChars_toDigits (by decide) (by decide)] at hvalue

theorem closed_toString (n : Nat) : Closed (toString n) :=
  closed_of_isPlain fun _ => isPlain_of_mem_toString

theorem closed_toString_int (n : Int) : Closed (toString n) := by
  cases n with
  | ofNat n => exact closed_toString n
  | negSucc n => exact closed_append (by decide : Closed "-") (closed_toString (n + 1))

/-! ## Lists of texts -/

/-- What holds of the empty text and of two texts in a row holds of texts with a separator. -/
theorem intercalate_of_append {P : String → Prop} (hempty : P "")
    (happend : ∀ {a b}, P a → P b → P (a ++ b)) {s : String} {ts : List String} (hs : P s)
    (h : ∀ t ∈ ts, P t) : P (String.intercalate s ts) := by
  induction ts with
  | nil =>
    rw [String.intercalate_nil]
    exact hempty
  | cons t ts ih =>
    have ht := h t List.mem_cons_self
    have hts := ih fun u hu => h u (List.mem_cons_of_mem _ hu)
    cases ts with
    | nil =>
      rw [String.intercalate_singleton]
      exact ht
    | cons u ts =>
      rw [String.intercalate_cons_cons]
      exact happend (happend ht hs) hts

theorem closed_intercalate {s : String} {ts : List String} (hs : Closed s)
    (h : ∀ t ∈ ts, Closed t) : Closed (String.intercalate s ts) :=
  intercalate_of_append closed_empty closed_append hs h

end DBindings
