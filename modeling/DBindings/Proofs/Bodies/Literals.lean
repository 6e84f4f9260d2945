import DBindings.Emit.Function
import DBindings.Proofs.Printing.Quotes

/-!
# Literals in the bodies of functions

The lines of a body are rewritten as texts: every scope and arrow symbol becomes a dot, also one
that stands in a string literal.

* `literals_bodyLines`     the literals of initializers and a body, before they are rewritten;
* `definition_literals`    the literals in the lines of a function are the printed ones, rewritten,
                           and the printed ones exactly if no string has a scope or arrow symbol.
-/

namespace DBindings
open Text

theorem literals_behind {s : String} (hs : All isUnquoted s) (line : String) :
    literals (s ++ line) = literals line := by
  have hquotes := quotes_of_unquoted hs
  rw [literals_append (run_of_settles hquotes.1), hquotes.2, List.nil_append]

theorem literals_bodyLine (commentOut : Bool) (line : String) :
    literals (bodyLine commentOut line) =
      (literals line).map fun t => dottedArrows (dotted t) := by
  have hrewritten : literals (dottedArrows (dotted line)) =
      (literals line).map fun t => dottedArrows (dotted t) := by
    rw [literals_dottedArrows, literals_dotted, List.map_map]
    rfl
  unfold bodyLine
  cases commentOut with
  | false => exact hrewritten
  | true =>
    rw [if_pos rfl, literals_behind (by decide)]
    exact hrewritten

/-- The literals of initializers and a body are those of their lines. -/
theorem literals_bodyLines (initializers : List String) {body : Option String}
    (h : ∀ text ∈ body, settles .code text.toList = true) :
    (bodyLines initializers body).flatMap literals =
      initializers.flatMap literals ++ body.toList.flatMap literals := by
  have hbody : ∀ text ∈ body, (lines text).flatMap literals = literals text :=
    fun text ht => literals_lines (h text ht)
  have hmargin : ∀ line, literals ("    " ++ line) = literals line :=
    literals_behind (by decide)
  have hfixed : ∀ s ∈ ["\x7b", "\x7d", "    // initializer list", "    // ctor body"],
      literals s = [] := fun s hs => (quotes_of_unquoted (by revert s; decide)).2
  cases initializers with
  | nil =>
    cases body with
    | none => rfl
    | some text => exact (hbody text rfl).trans (List.append_nil _).symm
  | cons first rest =>
    unfold bodyLines
    cases body with
    | none => simp [List.flatMap_map, hmargin, hfixed]
    | some text => simp [List.flatMap_map, hmargin, hfixed, hbody text rfl]

/-- Only strings with scope or arrow symbols are rewritten. -/
theorem Landmark.rewritten_iff (l : Landmark) :
    (∀ t ∈ l.literals, dottedArrows (dotted t) = t) ↔ ∀ value, l = .string value →
      contains value "::" = false ∧ contains value "->" = false := by
  have hsymbol : Literal.isSymbol ':' = true ∧ Literal.isSymbol '-' = true ∧
      Literal.isSymbol '>' = true := by decide +kernel
  obtain ⟨hcolon, hminus, hgreater⟩ := hsymbol
  cases l with
  | character value kind =>
    refine iff_of_true (fun t ht => ?_) nofun
    rw [List.mem_singleton.1 ht]
    exact rewritten_eq_self_iff.2 ⟨Literal.contains_quotedCharacter hcolon hcolon value kind,
      Literal.contains_quotedCharacter hminus hgreater value kind⟩
  | string value =>
    have hscope : contains (Literal.string value) "::" = contains value "::" :=
      Literal.contains_string (Literal.keeps_stringChar (by decide) (by decide) hcolon hcolon)
        (by decide) (by decide) value
    have harrow : contains (Literal.string value) "->" = contains value "->" :=
      Literal.contains_string (Literal.keeps_stringChar (by decide) (by decide) hminus hgreater)
        (by decide) (by decide) value
    rw [Landmark.literals, List.forall_mem_singleton, rewritten_eq_self_iff, hscope, harrow]
    exact ⟨fun h _ heq => Landmark.string.inj heq ▸ h, fun h => h value rfl⟩
  | operator ref =>
    refine iff_of_true ?_ nofun
    rw [Landmark.literals, OverloadedOp.quoted?_eq]
    cases ref.op <;> decide +kernel
  | null => exact iff_of_true (fun t ht => absurd ht List.not_mem_nil) nofun

/-! ## Definitions -/

/-- The first line is the signature, with a semicolon if it is the only one. -/
theorem definition_signature (cx : PrintContext) (signature : String) (body : Option Stmt)
    (initializers : List String) (commentOut : Bool) :
    let lines := (definition cx signature body initializers commentOut).lines
    lines.head? = some signature ∨ lines = [signature ++ ";"] := by
  unfold definition
  dsimp only
  split
  · exact Or.inr rfl
  · split
    · split
      · exact Or.inr rfl
      · exact Or.inl rfl
    · exact Or.inl rfl

section
variable {cx : PrintContext} (hn : cx.names.Spelled (All isUnquoted))
include hn

theorem Stmt.quotes_print {body : Stmt} (h : body.Spelled (All isUnquoted)) :
    Quotes (body.print cx).text ((body.landmarks cx).flatMap Landmark.literals) := by
  have hprint : Shows cx cx.pointerReturn isUnquoted 0 _ (body.print cx).text _ :=
    shows_printAt admits_isUnquoted hn id (Nat.le_refl 0) body h
  exact hprint.quotes

theorem CtorInitializer.quotes_texts {inits : List CtorInitializer}
    (h : ∀ init ∈ inits, init.Spelled (All isUnquoted)) :
    ((inits.filterMap (print? cx)).map (·.text)).flatMap literals =
      (inits.flatMap (landmarks cx)).flatMap Landmark.literals := by
  induction inits with
  | nil => rfl
  | cons init inits ih =>
    have hinit := h init List.mem_cons_self
    have hinits := ih fun x hx => h x (List.mem_cons_of_mem _ hx)
    rw [List.flatMap_cons, List.flatMap_append, ← hinits]
    cases hprint : init.print? cx with
    | none =>
      have hnone : init.landmarks cx = [] := by
        unfold print? at hprint
        unfold landmarks
        refine if_neg fun hwritten => ?_
        obtain ⟨hmember, hwritten⟩ := Bool.and_eq_true_iff.1 hwritten
        obtain ⟨member, hmember⟩ := Option.isSome_iff_exists.1 hmember
        simp [hmember, Bool.and_eq_true_iff.1 hwritten] at hprint
      rw [List.filterMap_cons_none hprint, hnone]
      rfl
    | some code =>
      have hcode : Shows _ _ isUnquoted 0 _ _ _ :=
        shows_print? admits_isUnquoted hn hinit hprint
      rw [List.filterMap_cons_some hprint, List.map_cons, List.flatMap_cons, hcode.quotes.2]

/-- The literals in the lines of a function are those of initializers and body, rewritten. -/
theorem literals_definition (pointer : Bool) (signature : String) {body : Stmt}
    {inits : List CtorInitializer} (commentOut : Bool) (hbody : body.Spelled (All isUnquoted))
    (hinits : ∀ init ∈ inits, init.Spelled (All isUnquoted)) :
    (definition (cx.returning pointer) signature (some body)
        ((inits.filterMap (CtorInitializer.print? cx)).map (·.text)) commentOut).lines.tail.flatMap
        literals =
      ((inits.flatMap (·.landmarks cx) ++ body.landmarks (cx.returning pointer)).flatMap
        Landmark.literals).map fun t => dottedArrows (dotted t) := by
  have hrewritten : ∀ ls : List String, (ls.map (bodyLine commentOut)).flatMap literals =
      (ls.flatMap literals).map fun t => dottedArrows (dotted t) := fun ls => by
    rw [List.flatMap_map, List.map_flatMap]
    exact List.flatMap_congr fun line _ => literals_bodyLine commentOut line
  have htexts := CtorInitializer.quotes_texts hn hinits
  rw [List.flatMap_append, ← htexts]
  generalize (inits.filterMap (CtorInitializer.print? cx)).map (·.text) = texts
  by_cases hempty : body.isEmptyCompound = true
  · obtain rfl : body = .compound [] := by
      unfold Stmt.isEmptyCompound at hempty
      split at hempty
      · rfl
      · exact nomatch hempty
    cases texts with
    | nil => rfl
    | cons text texts =>
      show ((bodyLines (text :: texts) none).map (bodyLine commentOut)).flatMap literals = _
      rw [hrewritten, literals_bodyLines _ fun _ h => absurd h (Option.not_mem_none _)]
      rfl
  · have hnames : (cx.returning pointer).names.Spelled (All isUnquoted) := hn
    obtain ⟨hsettles, hliterals⟩ := Stmt.quotes_print hnames hbody
    unfold definition
    dsimp only
    rw [if_neg hempty, List.tail_cons, hrewritten,
      literals_bodyLines _ fun text ht => Option.some.inj ht ▸ hsettles, ← hliterals,
      Option.toList_some, List.flatMap_singleton]

/-- The literals in the lines of a body and of the initializers before it are the printed ones, with
a dot for each scope and arrow symbol; so they are the printed ones exactly if no string among them
has such a symbol. -/
theorem definition_literals (pointer : Bool) (signature : String) {body : Stmt}
    {inits : List CtorInitializer} (commentOut : Bool) (hbody : body.Spelled (All isUnquoted))
    (hinits : ∀ init ∈ inits, init.Spelled (All isUnquoted)) :
    let texts := (inits.filterMap (CtorInitializer.print? cx)).map (·.text)
    let lines := (definition (cx.returning pointer) signature (some body) texts commentOut).lines
    let landmarks := inits.flatMap (·.landmarks cx) ++ body.landmarks (cx.returning pointer)
    let printed := landmarks.flatMap Landmark.literals
    (lines.head? = some signature ∨ lines = [signature ++ ";"]) ∧
    lines.tail.flatMap literals = printed.map (fun t => dottedArrows (dotted t)) ∧
    (lines.tail.flatMap literals = printed ↔ ∀ value, .string value ∈ landmarks →
      contains value "::" = false ∧ contains value "->" = false) := by
  intro texts lines landmarks printed
  have hliterals : lines.tail.flatMap literals = printed.map fun t => dottedArrows (dotted t) :=
    literals_definition hn pointer signature commentOut hbody hinits
  refine ⟨definition_signature .., hliterals, ?_⟩
  have hkept : (∀ t ∈ printed, dottedArrows (dotted t) = t) ↔
      ∀ l ∈ landmarks, ∀ t ∈ l.literals, dottedArrows (dotted t) = t := by
    refine ⟨fun h l hl t ht => h t (List.mem_flatMap_of_mem hl ht), fun h t ht => ?_⟩
    obtain ⟨l, hl, ht⟩ := List.mem_flatMap.1 ht
    exact h l hl t ht
  rw [hliterals]
  calc printed.map (fun t => dottedArrows (dotted t)) = printed
      ↔ ∀ t ∈ printed, dottedArrows (dotted t) = t := by
        conv_lhs => rhs; rw [← List.map_id printed]
        exact List.map_inj_left
    _ ↔ ∀ l ∈ landmarks, ∀ value, l = .string value →
        contains value "::" = false ∧ contains value "->" = false :=
        hkept.trans (forall₂_congr fun l _ => l.rewritten_iff)
    _ ↔ _ := ⟨fun h value hvalue => h _ hvalue value rfl, fun h l hl value hvalue =>
        h value (hvalue ▸ hl)⟩

end

/-- A body that refers to a qualified name, behind an initializer: only the code is rewritten. -/
theorem definition_literals_log :
    let log : Expr := .call (.var "log::write" (.builtin .void)) [.stringLiteral "a:b" false] none
    let body : Stmt := .compound [.expr log]
    let init : CtorInitializer := { member := some "mark", init := .charLiteral 58 .ascii }
    let texts := ([init].filterMap (CtorInitializer.print? {})).map (·.text)
    let lines := (definition {} "this()" (some body) texts false).lines
    (body.Spelled (All isUnquoted) ∧ ∀ i ∈ [init], i.Spelled (All isUnquoted)) ∧
    "        log.write(\"a:b\");" ∈ lines ∧ lines.tail.flatMap literals = ["':'", "\"a:b\""] := by
  intro log body init texts lines
  have hbody : body.Spelled (All isUnquoted) := by
    refine ⟨.of_children (by decide) fun c hc => ?_, trivial⟩
    rcases List.mem_cons.1 hc with rfl | hc
    · exact .var (by decide) (by decide)
    · rw [List.mem_singleton.1 hc]
      exact .of_children (by decide) nofun
  have hinits : ∀ i ∈ [init], i.Spelled (All isUnquoted) := by
    intro i hi
    rw [List.mem_singleton.1 hi]
    exact ⟨by decide, .of_children (by decide) nofun⟩
  have hlandmarks : [init].flatMap (·.landmarks {}) ++ body.landmarks {} =
      [.character 58 .ascii, .string "a:b"] := by rfl
  refine ⟨⟨hbody, hinits⟩, by decide +kernel, ?_⟩
  obtain ⟨-, -, hiff⟩ :=
    @definition_literals {} nofun false "this()" body [init] false hbody hinits
  refine (hiff.2 fun value hvalue => ?_).trans (by decide +kernel)
  have hvalue : Landmark.string value ∈ [.character 58 .ascii, .string "a:b"] := hlandmarks ▸ hvalue
  simp only [List.mem_cons, reduceCtorEq, Landmark.string.injEq, List.not_mem_nil, or_false,
    false_or] at hvalue
  subst hvalue
  decide +kernel

/-- A string with a scope symbol is rewritten in a body. -/
theorem scopedString_rewritten :
    let body : Stmt := .compound [.ret (some (.stringLiteral "std::string" false))]
    let lines := (definition {} "const(char)* scopeName()" (some body) [] false).lines
    lines = ["const(char)* scopeName()", "\x7b", "    return \"std.string\";", "\x7d"] ∧
    lines.tail.flatMap literals = ["\"std.string\""] ∧
    literals (body.print {}).text = ["\"std::string\""] := by
  decide +kernel

end DBindings
