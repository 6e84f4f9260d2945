import DBindings.Proofs.Bodies.Comments
import DBindings.Proofs.Text.Nesting

/-!
# The braces around a body

Behind the signature of a function stands one block.  If there are initializers, the block has one
for the initializers and the body around the body's own; the braces of all lines match.

* `Braced`                    lines that are one pair of braces and what stands between them;
* `Stmt.embraced_compound`    the lines of a block that is not empty;
* `embraced_bodyLines`        the lines of initializers and a body;
* `definition_block`          a definition is its signature alone, or with one block.
-/

namespace DBindings
open Printed Text

/-- Neither a bracket nor a quote nor a line feed. -/
def Text.isBare (c : Char) : Bool := isPlain c && c != '\n'

section
variable {s : String} (h : All isBare s)
include h

theorem Text.closed_of_bare : Closed s :=
  closed_of_isPlain fun c hc => (Bool.and_eq_true_iff.1 (h c hc)).1

theorem Text.inline_of_bare : All isInline s := fun c hc => (Bool.and_eq_true_iff.1 (h c hc)).2

theorem Text.unquoted_of_bare : All isUnquoted s := by
  intro c hc
  have hplain := (Bool.and_eq_true_iff.1 (h c hc)).1
  simp only [isPlain, Bool.and_eq_true] at hplain
  exact Bool.and_eq_true_iff.2 ⟨hplain.1.2, hplain.2⟩

end

/-- The lines are one pair of braces and what stands between them. -/
def Braced (ls : List String) : Prop :=
  ∃ inside, Closed inside ∧ String.intercalate "\n" ls = "\x7b" ++ inside ++ "\x7d"

/-- A line with an open brace, lines that close what they open, and a line with the other brace. -/
def Embraced (ls : List String) : Prop :=
  ∃ inside, LeadsLines [] [] inside ∧ ls = "\x7b" :: inside ++ ["\x7d"]

theorem Embraced.braced {ls : List String} (h : Embraced ls) : Braced ls := by
  obtain ⟨inside, hinside, rfl⟩ := h
  exact hinside.closed_between "\x7b" "\x7d"

theorem Embraced.rewritten {ls : List String} (h : Embraced ls) :
    Embraced (ls.map (bodyLine false)) := by
  obtain ⟨inside, hinside, rfl⟩ := h
  refine ⟨_, hinside.map fun h => leads_dottedArrows (leads_dotted h), ?_⟩
  rw [List.map_append, List.map_cons]
  have hbraces : bodyLine false "\x7b" = "\x7b" ∧ bodyLine false "\x7d" = "\x7d" := by decide
  rw [hbraces.1, List.map_singleton, hbraces.2]
  rfl

/-- The lines of a block that is not empty. -/
theorem Stmt.embraced_compound {cx : PrintContext} (hn : cx.names.Spelled (All isBare)) {s : Stmt}
    {rest : List Stmt} (h : (compound (s :: rest)).Spelled (All isBare)) :
    Embraced (lines ((compound (s :: rest)).print cx).text) := by
  have hblock : SpelledAll (All isBare) (s :: rest) := h
  have hclosed := closed_printBlock (hn.mono fun _ => closed_of_bare) 1 (s :: rest)
    (SpelledAll.mono (fun _ => closed_of_bare) _ hblock)
  have hshows : Shows cx cx.pointerReturn isUnquoted 1 _ (printBlock cx 1 (s :: rest)).text _ :=
    shows_printBlock admits_isUnquoted (hn.mono fun _ => unquoted_of_bare) id (Nat.le_refl 1) _
      (SpelledAll.mono (fun _ => unquoted_of_bare) _ hblock)
  have hsettles := hshows.quotes.1
  obtain ⟨x, hx⟩ : ∃ x, (printBlock cx 1 (s :: rest)).text = "\n" ++ x := by
    refine ⟨"    " ++ (s.printAt cx 1).text ++ (printBlock cx 1 rest).text, ?_⟩
    rw [printBlock, text_append, text_append, text_ofText]
    simp only [← String.append_assoc]
    rfl
  have hclosed : Closed x := by
    rw [hx, Closed, Leads, String.toList_append] at hclosed
    exact hclosed
  have hsettles : settles .code x.toList = true := by
    rw [hx, String.toList_append] at hsettles
    exact hsettles
  have htext : ((compound (s :: rest)).print cx).text =
      "\x7b" ++ "\n" ++ (x ++ "\n" ++ "\x7d") := by
    rw [print, text_compound, hx]
    simp only [String.append_assoc]
    rfl
  refine ⟨lines (x ++ "\n"), leadsLines_lines ?_ (closed_append hclosed (by decide)), ?_⟩
  · rw [String.toList_append]
    exact settles_append hsettles (by decide)
  · rw [htext, lines_append, lines_append]
    rfl

/-! ## Definitions -/

/-- The braces of initializers and a body match, wherever the body's lines end. -/
theorem embraced_bodyLines {initializers : List String} {body : Option String}
    (hinits : ∀ text ∈ initializers, Closed text) (hbody : ∀ text ∈ body, Embraced (lines text))
    (hne : initializers ≠ [] ∨ body ≠ none) : Embraced (bodyLines initializers body) := by
  have hmargin : ∀ {x y line}, Leads x y line → Leads x y ("    " ++ line) :=
    fun h => ((by decide : Plain "    ").closed.leads _).append h
  have hcomment : ∀ {s}, Plain s → LeadsLines [] [] [s] := fun hs => .cons hs.closed (.nil _)
  unfold bodyLines
  cases initializers with
  | nil =>
    cases body with
    | none => exact absurd hne (by simp)
    | some text => exact hbody text rfl
  | cons first rest =>
    have htexts := (LeadsLines.of_closed hinits).map hmargin
    have hfront := (hcomment (by decide : Plain "    // initializer list")).append htexts
    cases body with
    | none => exact ⟨_, hfront, by simp⟩
    | some text =>
      obtain ⟨inside, hinside, hlines⟩ := hbody text rfl
      have hlines : LeadsLines [] [] (lines text) := by
        rw [hlines]
        exact .append (.cons (by decide : Leads [] ['\x7d'] "\x7b") (hinside.under _))
          (.cons (by decide) (.nil _))
      have hback := (hcomment (by decide : Plain "    // ctor body")).append (hlines.map hmargin)
      exact ⟨_, hfront.append hback, by simp⟩

/-- What the lines of initializers and a body have besides these. -/
def blockMarks : List String := ["\x7b", "    // initializer list", "    // ctor body", "\x7d"]

/-- Initializers stand in front of the body, and the rest is braces and comments. -/
theorem bodyLines_eq (initializers : List String) (body : Option String) :
    ∃ before between behind margin, bodyLines initializers body =
        before ++ initializers.map (margin ++ ·) ++ between ++
          (body.elim [] lines).map (margin ++ ·) ++ behind ∧
      (∀ line ∈ before ++ between ++ behind, line ∈ blockMarks) ∧ margin ∈ ["", "    "] := by
  unfold bodyLines
  cases initializers with
  | nil =>
    refine ⟨[], [], [], "", ?_, fun _ h => absurd h List.not_mem_nil, by decide⟩
    cases body with
    | none => rfl
    | some text => simp
  | cons first rest =>
    cases body with
    | none =>
      exact ⟨["\x7b", "    // initializer list"], [], ["\x7d"], "    ", by simp, by decide,
        by decide⟩
    | some text =>
      exact ⟨["\x7b", "    // initializer list"], ["    // ctor body"], ["\x7d"], "    ", by simp,
        by decide, by decide⟩

theorem inline_bodyLines {initializers : List String} (body : Option String)
    (hinits : ∀ text ∈ initializers, All isInline text) :
    ∀ line ∈ bodyLines initializers body, All isInline line := by
  obtain ⟨before, between, behind, margin, heq, hmarks, hmargin⟩ := bodyLines_eq initializers body
  have hmark : ∀ line ∈ blockMarks, All isInline line := by decide
  have hmargin : All isInline margin :=
    (by decide : ∀ m ∈ ["", "    "], All isInline m) margin hmargin
  have hindented : ∀ ls : List String, (∀ line ∈ ls, All isInline line) →
      ∀ line ∈ ls.map (margin ++ ·), All isInline line := by
    intro ls hls line hline
    obtain ⟨rest, hrest, rfl⟩ := List.mem_map.1 hline
    exact all_append hmargin (hls rest hrest)
  have hbody : ∀ line ∈ body.elim [] lines, All isInline line := by
    cases body with
    | none => exact fun _ hline => absurd hline List.not_mem_nil
    | some text => exact fun line hline => inline_of_not_mem (lineFeed_not_mem_of_mem_lines hline)
  intro line hline
  rw [heq] at hline
  simp only [List.mem_append] at hline hmarks
  rcases hline with (((hline | hline) | hline) | hline) | hline
  · exact hmark line (hmarks line (.inl (.inl hline)))
  · exact hindented _ hinits line hline
  · exact hmark line (hmarks line (.inl (.inr hline)))
  · exact hindented _ hbody line hline
  · exact hmark line (hmarks line (.inr hline))

/-- Behind a signature stand the lines of initializers and a body, unless both are empty. -/
theorem lines_definition (cx : PrintContext) (signature : String) (body : List Stmt)
    (initializers : List String) (commentOut : Bool) :
    (definition cx signature (some (.compound body)) initializers commentOut).lines =
      if body.isEmpty && initializers.isEmpty then [signature ++ ";"]
      else signature :: (bodyLines initializers (if body.isEmpty then none
        else some ((Stmt.compound body).print cx).text)).map (bodyLine commentOut) := by
  cases body with
  | nil => cases initializers <;> rfl
  | cons s rest => rfl

theorem bodyLine_eq (commentOut : Bool) (line : String) : bodyLine commentOut line =
    if commentOut then "//" ++ bodyLine false line else bodyLine false line := by
  cases commentOut <;> rfl

section
variable {cx : PrintContext} (hn : cx.names.Spelled (All isBare))
include hn

/-- The texts of initializers are closed, and on one line each. -/
theorem CtorInitializer.texts_of_bare {inits : List CtorInitializer}
    (h : ∀ init ∈ inits, init.Spelled (All isBare)) :
    ∀ text ∈ (inits.filterMap (print? cx)).map (·.text), Closed text ∧ All isInline text := by
  intro text htext
  obtain ⟨code, hcode, rfl⟩ := List.mem_map.1 htext
  obtain ⟨init, hinit, hcode⟩ := List.mem_filterMap.1 hcode
  have hspelled := h init hinit
  exact ⟨closed_print? (hn.mono fun _ => closed_of_bare) (hspelled.mono fun _ => closed_of_bare)
      code hcode,
    inline_print? (hn.mono fun _ => inline_of_bare) (hspelled.mono fun _ => inline_of_bare) hcode⟩

/-- A definition is its signature and a semicolon if there is nothing to write.  Otherwise the lines
behind the signature are one block in braces, in which all initializers stand in front of the body;
in a comment, each of these lines has two slashes in front. -/
theorem definition_block (pointer : Bool) (signature : String) {body : List Stmt}
    {inits : List CtorInitializer} (commentOut : Bool)
    (hbody : (Stmt.compound body).Spelled (All isBare))
    (hinits : ∀ init ∈ inits, init.Spelled (All isBare)) :
    let texts := (inits.filterMap (CtorInitializer.print? cx)).map (·.text)
    let printed := ((Stmt.compound body).print (cx.returning pointer)).text
    let written := (definition (cx.returning pointer) signature (some (.compound body)) texts
      commentOut).lines
    (body = [] ∧ texts = [] → written = [signature ++ ";"]) ∧
    (body ≠ [] ∨ texts ≠ [] → ∃ block,
      written = signature :: block.map (fun line => if commentOut then "//" ++ line else line) ∧
      (∀ line ∈ block, All isInline line) ∧ Braced block ∧
      (∃ before between behind margin, block = (before ++ texts.map (margin ++ ·) ++ between ++
          (if body.isEmpty then [] else lines printed).map (margin ++ ·) ++ behind).map
            (bodyLine false) ∧
        (∀ line ∈ before ++ between ++ behind, line ∈ blockMarks) ∧ margin ∈ ["", "    "])) ∧
    (commentOut = true → ∀ line ∈ written.tail, isComment line = true) := by
  intro texts printed written
  let body? : Option String := if body.isEmpty then none else some printed
  have hwritten : written = if body.isEmpty && texts.isEmpty then [signature ++ ";"]
      else signature :: (bodyLines texts body?).map (bodyLine commentOut) :=
    lines_definition (cx.returning pointer) signature body texts commentOut
  have htexts := CtorInitializer.texts_of_bare hn hinits
  have hblock : ∀ text ∈ body?, Embraced (lines text) := by
    intro text htext
    cases body with
    | nil => exact absurd htext (Option.not_mem_none text)
    | cons s rest =>
      have hnames : (cx.returning pointer).names.Spelled (All isBare) := hn
      exact Option.some.inj htext ▸ Stmt.embraced_compound hnames hbody
  refine ⟨fun ⟨hempty, hnone⟩ => ?_, fun hne => ?_, fun hcomment => ?_⟩
  · rw [hwritten, hempty, hnone]
    rfl
  · have hsome : (body.isEmpty && texts.isEmpty) = false := by
      rcases hne with h | h <;> simp [h]
    have hne : texts ≠ [] ∨ body? ≠ none := by
      rcases hne with h | h
      · exact Or.inr (by simp [body?, h])
      · exact Or.inl h
    obtain ⟨before, between, behind, margin, heq, hmarks⟩ := bodyLines_eq texts body?
    have helim : body?.elim [] lines = if body.isEmpty then [] else lines printed := by
      cases body <;> rfl
    have hbraces := embraced_bodyLines (fun text ht => (htexts text ht).1) hblock hne
    refine ⟨(bodyLines texts body?).map (bodyLine false), ?_, fun _ hmem => ?_,
      hbraces.rewritten.braced, before, between, behind, margin, by rw [heq, helim], hmarks⟩
    · rw [hwritten, hsome, if_neg Bool.false_ne_true, List.map_map]
      exact congrArg _ (List.map_congr_left fun line _ => bodyLine_eq commentOut line)
    · obtain ⟨line, hline, rfl⟩ := List.mem_map.1 hmem
      have hinline := inline_bodyLines body? (fun text ht => (htexts text ht).2) line hline
      exact admits_isInline.phrases.all_dottedArrows (admits_isInline.phrases.all_dotted hinline)
  · intro line hmem
    rw [hwritten] at hmem
    split at hmem
    · exact absurd hmem List.not_mem_nil
    · obtain ⟨line, -, rfl⟩ := List.mem_map.1 hmem
      rw [isComment_bodyLine, hcomment, Bool.true_or]

end

/-- A constructor that is commented out, with a brace in a string of its body. -/
theorem definition_block_counter :
    let body : List Stmt := [.ret (some (.stringLiteral "\x7d" false))]
    let init : CtorInitializer := { member := some "n", init := .integerLiteral 0 .int }
    let texts := ([init].filterMap (CtorInitializer.print? {})).map (·.text)
    let written := (definition {} "this()" (some (.compound body)) texts true).lines
    ((Stmt.compound body).Spelled (All isBare) ∧ ∀ i ∈ [init], i.Spelled (All isBare)) ∧
    written = ["this()", "//\x7b", "//    // initializer list", "//    n = 0;",
      "//    // ctor body", "//    \x7b", "//        return \"\x7d\";", "//    \x7d", "//\x7d"] ∧
    ∃ block, written = "this()" :: block.map ("//" ++ ·) ∧ Braced block := by
  intro body init texts written
  have hbody : (Stmt.compound body).Spelled (All isBare) := by
    refine ⟨fun e he => ?_, trivial⟩
    rw [← Option.some.inj he]
    exact .of_children (by decide) nofun
  have hinits : ∀ i ∈ [init], i.Spelled (All isBare) := by
    intro i hi
    rw [List.mem_singleton.1 hi]
    exact ⟨by decide, .of_children (by decide) nofun⟩
  obtain ⟨-, hblock, -⟩ :=
    @definition_block {} nofun false "this()" body [init] true hbody hinits
  obtain ⟨block, hlines, -, hbraced, -⟩ := hblock (Or.inl (by simp [body]))
  exact ⟨⟨hbody, hinits⟩, by decide +kernel, block, hlines, hbraced⟩

end DBindings
