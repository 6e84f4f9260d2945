import DBindings.Proofs.Text.Characters
import DBindings.Proofs.Text.Literals

/-!
# The clauses of a header

The header of a loop stands in brackets, and its semicolons divide it into clauses.  A semicolon in
inner brackets or in a literal divides nothing.

* `Text.headerClauses`               the clauses of a header up to the bracket that closes it;
* `Text.headerClauses_intercalate`   texts that are clauses are read back from their header;
* `Text.Undivided`                   no semicolon stands outside the literals of a text.
-/

namespace DBindings

namespace Reading

/-- What stands between the semicolons outside brackets and literals, up to the bracket that closes
what is open around. -/
def clauses (s : Reading) : List Char → Option (List (List Char))
  | [] => none
  | c :: cs =>
    if s.isOutside && c = ')' then some [[]]
    else if s.isOutside && c = ';' then (s.clauses cs).map ([] :: ·)
    else (s.step c).bind fun s' => (s'.clauses cs).map (·.modifyHead (c :: ·))

section
variable {s s' : Reading} {c : Char} {a : List Char}

theorem step_closing (h : s.isOutside = true) : s.step ')' = none := by
  obtain ⟨hawaited, hmode⟩ := Bool.and_eq_true_iff.1 h
  obtain ⟨awaited, mode⟩ := s
  obtain rfl := List.isEmpty_iff.1 hawaited
  obtain rfl := eq_of_beq hmode
  rfl

/-- A text that closes no bracket around it and has no semicolon outside belongs to the first
clause. -/
theorem clauses_append (h : s.read a = some s') (ha : ';' ∉ s.outer a) (b : List Char) :
    s.clauses (a ++ b) = (s'.clauses b).map (·.modifyHead (a ++ ·)) := by
  induction a generalizing s with
  | nil =>
    obtain rfl := Option.some.inj h
    show s.clauses b = _
    cases s.clauses b with
    | none => rfl
    | some parts => cases parts <;> rfl
  | cons c a ih =>
    obtain ⟨t, ht, h⟩ := Option.bind_eq_some_iff.1 h
    have hclosing : ¬ (s.isOutside && decide (c = ')')) = true := by
      rw [Bool.and_eq_true_iff, decide_eq_true_eq]
      rintro ⟨hout, rfl⟩
      exact nomatch (step_closing hout).symm.trans ht
    have hsemicolon : ¬ (s.isOutside && decide (c = ';')) = true := by
      rw [Bool.and_eq_true_iff, decide_eq_true_eq]
      rintro ⟨hout, rfl⟩
      rw [outer, if_pos hout] at ha
      exact ha List.mem_cons_self
    have hrest : ';' ∉ t.outer a := by
      rw [outer, ht] at ha
      exact fun hmem => ha (List.mem_append_right _ hmem)
    rw [List.cons_append, clauses, if_neg hclosing, if_neg hsemicolon, ht, Option.bind_some,
      ih h hrest, Option.map_map]
    refine congrArg (fun f => (s'.clauses b).map f) (funext fun parts => ?_)
    exact List.modifyHead_modifyHead

end

end Reading

namespace Text

/-- The clauses of the header of a loop. -/
def headerClauses (t : String) : Option (List String) :=
  match t.toList with
  | 'f' :: 'o' :: 'r' :: ' ' :: '(' :: cs => (Reading.clauses {} cs).map (·.map String.ofList)
  | _ => none

example : headerClauses "for (int i = 0; i < f(\";\", (1; 2)); ++i) \x7b\x7d"
    = some ["int i = 0", " i < f(\";\", (1; 2))", " ++i"] := by decide

/-- A text that can be a clause: brackets and literals end in it, and no semicolon stands outside
them. -/
structure IsClause (t : String) : Prop where
  closed : Closed t
  semicolon : ';' ∉ outer t

theorem IsClause.space {t : String} (h : IsClause t) : IsClause (" " ++ t) := by
  refine ⟨closed_append (by decide) h.closed, ?_⟩
  rw [outer_append (by decide)]
  exact fun hmem => (List.mem_append.1 hmem).elim (by decide) h.semicolon

theorem clauses_intercalate {t : String} {ts : List String} (h : ∀ u ∈ t :: ts, IsClause u)
    (rest : List Char) :
    Reading.clauses {} ((String.intercalate ";" (t :: ts)).toList ++ ')' :: rest)
      = some ((t :: ts).map String.toList) := by
  induction ts generalizing t with
  | nil =>
    have ht := h t List.mem_cons_self
    rw [String.intercalate_singleton, Reading.clauses_append ht.closed ht.semicolon]
    show some [t.toList ++ []] = some [t.toList]
    rw [List.append_nil]
  | cons u ts ih =>
    have ht := h t List.mem_cons_self
    have hrest := ih fun v hv => h v (List.mem_cons_of_mem _ hv)
    have hdivided : Reading.clauses {}
        (';' :: ((String.intercalate ";" (u :: ts)).toList ++ ')' :: rest))
          = some ([] :: (u :: ts).map String.toList) :=
      congrArg (Option.map ([] :: ·)) hrest
    have htext : (String.intercalate ";" (t :: u :: ts)).toList ++ ')' :: rest =
        t.toList ++ ';' :: ((String.intercalate ";" (u :: ts)).toList ++ ')' :: rest) := by
      rw [String.intercalate_cons_cons]
      simp
    rw [htext, Reading.clauses_append ht.closed ht.semicolon, hdivided]
    show some ((t.toList ++ []) :: _) = _
    rw [List.append_nil]
    rfl

/-- The header is read up to its own bracket, whatever follows. -/
theorem headerClauses_intercalate {t : String} {ts : List String}
    (h : ∀ u ∈ t :: ts, IsClause u) (rest : String) :
    headerClauses ("for (" ++ String.intercalate ";" (t :: ts) ++ ")" ++ rest)
      = some (t :: ts) := by
  have htext : ("for (" ++ String.intercalate ";" (t :: ts) ++ ")" ++ rest).toList =
      'f' :: 'o' :: 'r' :: ' ' :: '(' ::
        ((String.intercalate ";" (t :: ts)).toList ++ ')' :: rest.toList) := by
    simp
  unfold headerClauses
  rw [htext]
  show Option.map _ (Reading.clauses {} _) = _
  rw [clauses_intercalate h, Option.map_some, List.map_map]
  simp

end Text

/-! ## Semicolons outside literals -/

namespace Mode

/-- The characters that are read outside literals, the opening quotes included. -/
def bare : Mode → List Char → List Char
  | _, [] => []
  | m, c :: cs => (if m = code then [c] else []) ++ (m.next c).bare cs

theorem bare_append (m : Mode) (a b : List Char) :
    m.bare (a ++ b) = m.bare a ++ (m.run a).bare b := by
  induction a generalizing m with
  | nil => rfl
  | cons c a ih =>
    show _ ++ (m.next c).bare (a ++ b) = _ ++ (m.next c).bare a ++ ((m.next c).run a).bare b
    rw [ih, List.append_assoc]

theorem bare_of_within {m m' : Mode} {cs : List Char} (hm : m ≠ code)
    (h : m.within cs = some m') : m.bare cs = [] := by
  induction cs generalizing m with
  | nil => rfl
  | cons c cs ih =>
    obtain ⟨hnext, h⟩ := Option.ite_none_left_eq_some.1 h
    rw [bare, if_neg hm, ih hnext h]
    rfl

end Mode

namespace Reading

theorem mode_step {s s' : Reading} {c : Char} (h : s.step c = some s') :
    s'.mode = s.mode.next c := by
  obtain ⟨awaited, mode⟩ := s
  cases mode with
  | code =>
    by_cases hquote : c = '"'
    · subst hquote
      exact congrArg Reading.mode (Option.some.inj h).symm
    by_cases hquote' : c = '\''
    · subst hquote'
      exact congrArg Reading.mode (Option.some.inj h).symm
    have hnext : Mode.code.next c = .code := (if_neg hquote).trans (if_neg hquote')
    show s'.mode = Mode.code.next c
    unfold step readCode at h
    dsimp only at h
    rw [if_neg hquote, if_neg hquote'] at h
    grind
  | string | stringEscape | char | charEscape =>
    exact congrArg Reading.mode (Option.some.inj h).symm

theorem outer_subset_bare (s : Reading) (cs : List Char) : s.outer cs ⊆ s.mode.bare cs := by
  induction cs generalizing s with
  | nil => exact List.Subset.refl _
  | cons c cs ih =>
    unfold outer Mode.bare
    refine List.append_subset.2 ⟨?_, ?_⟩
    · cases hout : s.isOutside with
      | false => exact List.nil_subset _
      | true =>
        have hmode : s.mode = .code := eq_of_beq (Bool.and_eq_true_iff.1 hout).2
        rw [hmode]
        exact List.subset_append_left _ _
    · cases hstep : s.step c with
      | none => exact List.nil_subset _
      | some s' =>
        rw [← mode_step hstep]
        exact fun x hx => List.mem_append_right _ (ih s' hx)

end Reading

namespace Text
open Mode

/-- Literals end in the text, and no semicolon stands outside them. -/
def Undivided (s : String) : Prop := EndsInCode s ∧ ';' ∉ code.bare s.toList

instance (s : String) : Decidable (Undivided s) := inferInstanceAs (Decidable (_ ∧ _))

theorem Undivided.append {a b : String} (ha : Undivided a) (hb : Undivided b) :
    Undivided (a ++ b) := by
  unfold Undivided EndsInCode
  rw [String.toList_append, run_append, bare_append, ha.1]
  refine ⟨hb.1, fun hmem => ?_⟩
  exact (List.mem_append.1 hmem).elim ha.2 hb.2

theorem Undivided.outer {s : String} (h : Undivided s) : ';' ∉ outer s :=
  fun hmem => h.2 (Reading.outer_subset_bare {} s.toList hmem)

theorem Undivided.isClause {s : String} (h : Undivided s) (hs : Closed s) : IsClause s :=
  ⟨hs, h.outer⟩

/-- Neither a quote nor a semicolon. -/
def isSpelling (c : Char) : Bool := c != '"' && c != '\'' && c != ';'

/-- A name or spelling without quotes and semicolons that closes the brackets it opens. -/
def IsSpelling (s : String) : Prop := Closed s ∧ All isSpelling s

instance (s : String) : Decidable (IsSpelling s) := inferInstanceAs (Decidable (_ ∧ _))

theorem admitsPhrases_isSpelling : AdmitsPhrases isSpelling := by
  intro c hc
  simp only [isPhrase, isOrdinary, isSpelling, Bool.and_eq_true] at hc ⊢
  exact ⟨hc.1.1, hc.2⟩

theorem undivided_of_all {s : String} (h : All isSpelling s) : Undivided s := by
  have hstep : ∀ cs : List Char, (∀ c ∈ cs, isSpelling c = true) →
      code.run cs = code ∧ ';' ∉ code.bare cs := by
    intro cs
    induction cs with
    | nil => exact fun _ => ⟨rfl, List.not_mem_nil⟩
    | cons c cs ih =>
      intro hcs
      have hc := hcs c List.mem_cons_self
      simp only [isSpelling, Bool.and_eq_true, bne_iff_ne] at hc
      have hnext : code.next c = code := (if_neg hc.1.1).trans (if_neg hc.1.2)
      obtain ⟨hrun, hbare⟩ := ih fun d hd => hcs d (List.mem_cons_of_mem _ hd)
      refine ⟨(congrArg (run · cs) hnext).trans hrun, ?_⟩
      rw [bare, if_pos rfl, hnext]
      exact List.not_mem_cons_of_ne_of_not_mem (Ne.symm hc.2) hbare
  exact hstep s.toList h

theorem undivided_quoted {q : Char} {m : Mode} {body : List Char} (hq : ';' ≠ q)
    (hopen : code.next q = m) (hm : m ≠ code) (hbody : m.within body = some m)
    (hclose : m.next q = code) : Undivided (String.ofList (q :: body ++ [q])) := by
  have hrun : m.run (body ++ [q]) = code := by
    rw [run_append, run_of_within hbody]
    exact hclose
  have hbare : m.bare (body ++ [q]) = [] := by
    rw [bare_append, bare_of_within hm hbody, run_of_within hbody, bare, if_neg hm]
    rfl
  unfold Undivided EndsInCode
  rw [String.toList_ofList, List.cons_append]
  refine ⟨(congrArg (run · _) hopen).trans hrun, ?_⟩
  rw [bare, if_pos rfl, hopen, hbare]
  exact fun hmem => hq (List.mem_singleton.1 hmem)

end Text

end DBindings
