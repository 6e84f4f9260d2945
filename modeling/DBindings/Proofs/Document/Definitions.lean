import DBindings.MacroConst
import Mathlib.Data.List.Induction
import DBindings.Proofs.Document.Events
import DBindings.Proofs.Text.Uncommented
import DBindings.Proofs.Printing.Inline

/-!
# Preprocessor definitions in a row

Definitions are written one after the other, and the names of those that are written are kept.  A
definition that is skipped leaves no name behind, so what is written are the first definitions of
their names among those that are not skipped.  All but constants stand in comments.

* `Definition.Counts`         neither an include guard nor empty;
* `Definition.firsts`         the definitions that are the first of their name to count;
* `MacroNames.writeAll`       definitions written one after the other;
* `MacroNames.mem_seen`       the names that are kept, behind any part of the definitions;
* `Text.uncommented`          the lines that stand in no comment;
* `MacroNames.writeAll_spec`  what is written, and which lines of it are not in comments.
-/

namespace DBindings

/-- A preprocessor definition with its name and its place. -/
structure Definition where
  name : String
  body : MacroDef
  loc : SourceLoc := {}
  deriving Repr, DecidableEq, Inhabited

namespace Definition

def lines (d : Definition) : List String := d.body.lines d.name d.loc

/-- These lines at an indentation level. -/
def text (level : Nat) (d : Definition) : String :=
  String.join (d.lines.map fun line => indentation level ++ line ++ "\n")

/-- Neither an include guard nor empty. -/
def Counts (d : Definition) : Prop := d.body.headerGuard = false ∧ d.body.tokens ≠ []

instance : DecidablePred Counts := fun _ => inferInstanceAs (Decidable (_ ∧ _))

/-- Behind the definitions `before` it is the first of its name to count. -/
def IsFirst (before : List Definition) (d : Definition) : Prop :=
  d.Counts ∧ ∀ e ∈ before, e.Counts → e.name ≠ d.name

instance (before : List Definition) : DecidablePred (IsFirst before) :=
  fun _ => inferInstanceAs (Decidable (_ ∧ _))

/-- The definitions that are the first of their name to count, in order. -/
def firsts (ds : List Definition) : List Definition :=
  (ds.zipIdx.filter fun p => IsFirst (ds.take p.2) p.1).map Prod.fst

/-- Without parameters, and one token or a minus and one token. -/
def IsConstant (d : Definition) : Prop :=
  d.body.params = none ∧ ((∃ token, d.body.tokens = [token]) ∨
    ∃ minus token, d.body.tokens = [minus, token] ∧ minus.kind = .punctuation ∧ minus.text = "-")

def constantLine (d : Definition) : String :=
  "enum " ++ d.name ++ " = " ++ MacroDef.renderTokens d.body.tokens ++ ";"

theorem isSkipped_iff {d : Definition} : d.body.isSkipped = true ↔ ¬ d.Counts := by
  unfold MacroDef.isSkipped Counts
  rw [Bool.or_eq_true_iff, List.isEmpty_iff, not_and_or, Bool.not_eq_false, not_not]

theorem isValueLike_iff {m : MacroDef} : m.isValueLike = true ↔
    (∃ token, m.tokens = [token]) ∨
      ∃ minus token, m.tokens = [minus, token] ∧ minus.kind = .punctuation ∧ minus.text = "-" := by
  unfold MacroDef.isValueLike
  match m.tokens with
  | [] => simp
  | [_] => simp
  | [_, _] => simp
  | _ :: _ :: _ :: _ => simp

theorem isConstant_iff {d : Definition} :
    d.IsConstant ↔ d.body.params = none ∧ d.body.isValueLike = true :=
  and_congr_right fun _ => isValueLike_iff.symm

instance : DecidablePred IsConstant := fun _ => decidable_of_iff' _ isConstant_iff

theorem mem_of_mem_firsts {ds : List Definition} {d : Definition} (h : d ∈ firsts ds) : d ∈ ds := by
  obtain ⟨p, hp, rfl⟩ := List.mem_map.1 h
  exact List.fst_mem_of_mem_zipIdx (List.mem_filter.1 hp).1

theorem firsts_concat (ds : List Definition) (d : Definition) :
    firsts (ds ++ [d]) = firsts ds ++ if IsFirst ds d then [d] else [] := by
  have hbefore : ∀ p ∈ ds.zipIdx, decide (IsFirst ((ds ++ [d]).take p.2) p.1) =
      decide (IsFirst (ds.take p.2) p.1) := by
    intro p hp
    have hlt := List.snd_lt_of_mem_zipIdx hp
    rw [List.take_append_of_le_length (by omega)]
  have hlast : (ds ++ [d]).take ds.length = ds := List.take_left
  unfold firsts
  rw [List.zipIdx_append, List.filter_append, List.map_append, List.filter_congr hbefore,
    List.zipIdx_singleton, Nat.zero_add]
  congr 1
  by_cases h : IsFirst ds d
  · simp [hlast, h]
  · simp [hlast, h]

/-! ## The lines of a definition -/

variable {d : Definition}

theorem enum_append (head value : String) : "enum " ++ head ++ " = " ++ value ++ ";" =
    "enum " ++ (head ++ " = " ++ value ++ ";") := by
  simp only [String.append_assoc]

/-- A constant is one line, with parameters it is three, and anything else is left as two. -/
theorem lines_cases (d : Definition) :
    d.IsConstant ∧ d.lines = [d.constantLine] ∨
    ¬ d.IsConstant ∧ (∃ rest, d.lines = ["/*", "enum " ++ rest, "*/"]) ∨
    ¬ d.IsConstant ∧ d.lines = ["//" ++ d.loc.text, "//#define " ++ d.name ++ " ..."] := by
  rw [isConstant_iff]
  unfold lines MacroDef.lines constantLine
  let value := MacroDef.renderTokens d.body.tokens
  let head (params : List String) := d.name ++ "(" ++ String.intercalate ", " params ++ ")"
  by_cases hvalue : d.body.isValueLike = true
  · rw [if_pos hvalue]
    cases hparams : d.body.params with
    | none => exact Or.inl ⟨⟨rfl, hvalue⟩, rfl⟩
    | some params =>
      refine Or.inr (Or.inl ⟨fun h => (nomatch h.1), head params ++ " = " ++ value ++ ";", ?_⟩)
      exact congrArg (fun line => ["/*", line, "*/"]) (enum_append _ _)
  · rw [if_neg hvalue]
    exact Or.inr (Or.inr ⟨fun h => hvalue h.2, rfl⟩)

theorem head_of_mem_lines {line : String} (h : line ∈ d.lines) :
    line.toList.head?.any (· != ' ') = true := by
  have happend : ∀ {a : String} (b : String), a.toList.head?.any (· != ' ') = true →
      (a ++ b).toList.head?.any (· != ' ') = true := by
    intro a b ha
    rw [String.toList_append]
    cases hcs : a.toList with
    | nil => rw [hcs] at ha; exact nomatch ha
    | cons c cs => rwa [hcs] at ha
  obtain ⟨-, hlines⟩ | ⟨-, rest, hlines⟩ | ⟨-, hlines⟩ := d.lines_cases
  · rw [hlines, List.mem_singleton, constantLine, enum_append] at h
    rw [h]
    exact happend _ (by decide)
  · rw [hlines] at h
    simp only [List.mem_cons, List.not_mem_nil, or_false] at h
    rcases h with rfl | rfl | rfl
    · decide
    · exact happend _ (by decide)
    · decide
  · rw [hlines] at h
    simp only [List.mem_cons, List.not_mem_nil, or_false] at h
    rcases h with rfl | rfl
    · exact happend _ (by decide)
    · exact happend _ (happend _ (by decide))

theorem empty_not_mem_lines (d : Definition) : "" ∉ d.lines :=
  fun h => nomatch head_of_mem_lines h

theorem unindented_of_mem_lines {line : String} (h : line ∈ d.lines) :
    Text.unindented line = line := Text.unindented_of_head (head_of_mem_lines h)

/-! ## The lines outside comments -/

/-- In front of other lines, a definition has an enumeration outside comments if and only if it is a
constant. -/
theorem filter_uncommented_lines (d : Definition) (ls : List String) :
    (Text.uncommented false (d.lines ++ ls)).filter Text.isEnumLine =
      (if d.IsConstant then [d.constantLine] else []) ++
        (Text.uncommented false ls).filter Text.isEnumLine := by
  obtain ⟨h, hlines⟩ | ⟨h, rest, hlines⟩ | ⟨h, hlines⟩ := d.lines_cases
  · rw [hlines, if_pos h, constantLine, enum_append, List.singleton_append, Text.uncommented_enum,
      List.filter_cons_of_pos (Text.isEnumLine_append _)]
    rfl
  · rw [hlines, if_neg h]
    exact Text.filter_uncommented_block ls _
  · have hplace : Text.isComment ("//" ++ d.loc.text) = true := Text.isComment_append (by decide) _
    have hname : Text.isComment ("//#define " ++ d.name ++ " ...") = true := by
      rw [String.append_assoc]
      exact Text.isComment_append (by decide) _
    rw [hlines, if_neg h]
    show (Text.uncommented false (("//" ++ d.loc.text) ::
      ("//#define " ++ d.name ++ " ...") :: ls)).filter _ = _
    rw [Text.uncommented_of_isComment _ hplace, Text.uncommented_of_isComment _ hname]
    rfl

theorem enumLines_flatMap (ds : List Definition) : Text.enumLines (ds.flatMap lines) =
    (ds.filter (IsConstant ·)).map constantLine := by
  have hbare : ∀ line ∈ ds.flatMap lines, Text.unindented line = id line := by
    intro line hline
    obtain ⟨d, -, hline⟩ := List.mem_flatMap.1 hline
    exact unindented_of_mem_lines hline
  unfold Text.enumLines
  rw [List.map_congr_left hbare, List.map_id]
  clear hbare
  induction ds with
  | nil => rfl
  | cons d ds ih =>
    rw [List.flatMap_cons, filter_uncommented_lines, ih, List.filter_cons]
    by_cases h : d.IsConstant
    · rw [if_pos h, if_pos (decide_eq_true h)]
      rfl
    · rw [if_neg h, if_neg (mt of_decide_eq_true h)]
      rfl

theorem enumLines_lines_ne_nil_iff (d : Definition) :
    Text.enumLines d.lines ≠ [] ↔ d.IsConstant := by
  have h := enumLines_flatMap [d]
  rw [List.flatMap_singleton, List.filter_cons, List.filter_nil] at h
  rw [h]
  by_cases hd : d.IsConstant
  · rw [if_pos (decide_eq_true hd)]
    exact iff_of_true (List.cons_ne_nil _ _) hd
  · rw [if_neg (mt of_decide_eq_true hd)]
    exact iff_of_false (not_not.2 rfl) hd

/-! ## Lines of the text -/

/-- No line feed stands in its names, its tokens or its place. -/
structure Inline (d : Definition) : Prop where
  name : Text.All Text.isInline d.name
  params : ∀ params ∈ d.body.params, ∀ param ∈ params, Text.All Text.isInline param
  tokens : ∀ token ∈ d.body.tokens, Text.All Text.isInline token.text
  file : ∀ file ∈ d.loc.file, Text.All Text.isInline file

theorem inline_renderTokens (h : ∀ token ∈ d.body.tokens, Text.All Text.isInline token.text) :
    Text.All Text.isInline (MacroDef.renderTokens d.body.tokens) := by
  have hjoin : ∀ tokens : List Token, (∀ token ∈ tokens, Text.All Text.isInline token.text) →
      Text.All Text.isInline (String.join (tokens.map fun token =>
        token.text ++ if MacroDef.isSpaced token then " " else "")) := by
    intro tokens h
    induction tokens with
    | nil => exact fun c hc => nomatch hc
    | cons token tokens ih =>
      rw [List.map_cons, String.join_cons]
      refine Text.all_append (Text.all_append (h token List.mem_cons_self) ?_)
        (ih fun t ht => h t (List.mem_cons_of_mem _ ht))
      split <;> decide
  intro c hc
  unfold MacroDef.renderTokens Text.trimEnd Text.dropEndWhile at hc
  rw [String.toList_ofList, List.mem_reverse] at hc
  exact hjoin _ h c (List.mem_reverse.1 ((List.dropWhile_sublist _).subset hc))

theorem Inline.isLine_place (h : d.Inline) : Text.IsLine ("//" ++ d.loc.text) := by
  have hnumber : ∀ n : Nat, '\n' ∉ (toString n).toList :=
    fun n hn => absurd (isDigit_of_mem_toString hn) (by decide)
  have hlast : ∀ n : Nat, Text.IsLine (toString n) := fun n => ⟨hnumber n,
    fun hn => absurd (isDigit_of_mem_toString (List.mem_of_getLast? hn)) (by decide)⟩
  unfold SourceLoc.text
  split
  · next file hfile =>
    split
    · have hfile : '\n' ∉ file.toList := fun hn => absurd (h.file file hfile _ hn) (by decide)
      rw [← String.append_assoc]
      refine (hlast _).behind (toString_ne_nil _) ?_
      simp only [String.toList_append, List.mem_append, not_or]
      exact ⟨by decide, ⟨⟨hfile, by decide⟩, hnumber _⟩, by decide⟩
    · decide
  · decide

theorem Inline.isLine_of_mem_lines (h : d.Inline) {line : String} (hline : line ∈ d.lines) :
    Text.IsLine line := by
  have hfeed : ∀ {s : String}, Text.All Text.isInline s → '\n' ∉ s.toList :=
    fun hs hn => absurd (hs _ hn) (by decide)
  have hvalue : ∀ {head : String}, Text.All Text.isInline head → Text.IsLine
      ("enum " ++ head ++ " = " ++ MacroDef.renderTokens d.body.tokens ++ ";") := fun hhead =>
    (by decide : Text.IsLine ";").behind (by decide) (hfeed (Text.all_append (Text.all_append
      (Text.all_append (by decide) hhead) (by decide)) (inline_renderTokens h.tokens)))
  unfold lines MacroDef.lines at hline
  split at hline
  · split at hline
    · next params hparams =>
      have hhead : Text.All Text.isInline
          (d.name ++ "(" ++ String.intercalate ", " params ++ ")") :=
        Text.all_append (Text.all_append (Text.all_append h.name (by decide))
          (Text.all_intercalate (by decide) (h.params params hparams))) (by decide)
      simp only [List.mem_cons, List.not_mem_nil, or_false] at hline
      rcases hline with rfl | rfl | rfl
      · decide
      · exact hvalue hhead
      · decide
    · rw [List.mem_singleton.1 hline]
      exact hvalue h.name
  · simp only [List.mem_cons, List.not_mem_nil, or_false] at hline
    rcases hline with rfl | rfl
    · exact h.isLine_place
    · exact (by decide : Text.IsLine " ...").behind (by decide)
        (hfeed (Text.all_append (by decide) h.name))

theorem join_text (ds : List Definition) (level : Nat) : String.join (ds.map (text level)) =
    String.join (((ds.flatMap lines).map (indentation level ++ ·)).map (· ++ "\n")) := by
  induction ds with
  | nil => rfl
  | cons d ds ih =>
    rw [List.map_cons, String.join_cons, ih, List.flatMap_cons, List.map_append, List.map_append,
      String.join_append, text]
    simp only [List.map_map]
    rfl

/-- The lines of what is written are those of the definitions, each behind the indentation. -/
theorem lines_text {ds : List Definition} (h : ∀ d ∈ ds, d.Inline) (level : Nat) :
    Text.lines (String.join (ds.map (text level))) =
      (ds.flatMap lines).map (indentation level ++ ·) := by
  rw [join_text]
  refine Text.lines_join fun line hline => ?_
  obtain ⟨line, hmem, rfl⟩ := List.mem_map.1 hline
  obtain ⟨d, hd, hmem⟩ := List.mem_flatMap.1 hmem
  refine ((h d hd).isLine_of_mem_lines hmem).behind (fun hnil => ?_) fun hfeed => ?_
  · exact d.empty_not_mem_lines ((String.toList_eq_nil_iff.1 hnil) ▸ hmem)
  · unfold indentation at hfeed
    rw [String.toList_ofList] at hfeed
    exact absurd (List.eq_of_mem_replicate hfeed) (by decide)

end Definition

namespace MacroNames
open Definition

/-! ## One definition after the other -/

def write (state : MacroNames × CodeWriter) (d : Definition) : MacroNames × CodeWriter :=
  let (written, names) := state.1.define d.name d.body d.loc
  (names, state.2.run ((written.getD []).map .line))

/-- Writes definitions from a start without names. -/
def writeAll (w : CodeWriter) (ds : List Definition) : MacroNames × CodeWriter :=
  ds.foldl write ({}, w)

variable {w : CodeWriter} {d : Definition}

/-- A walk over a unit writes a definition in the same way. -/
theorem exec_definition {env : EmitEnv} (h : env.isRelevant d.loc = true) (s : EmitState) :
    ∃ code, (Emit.handle env (.define d.name d.body d.loc)).exec s =
        (.ok (), EmitState.write { s with macros := (write (s.macros, w) d).1 } code) ∧
      (write (s.macros, w) d).2 = w.run code :=
  ⟨_, Emit.exec_define h s, rfl⟩

theorem run_lines (w : CodeWriter) (d : Definition) :
    w.run (d.lines.map .line) = ⟨w.text ++ d.text w.level, w.level⟩ := by
  rw [CodeWriter.run_eq, Stroke.balanced_lines]
  have hlines : ∀ ls : List String, "" ∉ ls → Stroke.codeAll w.level (ls.map .line) =
      String.join (ls.map fun line => indentation w.level ++ line ++ "\n") := by
    intro ls h
    induction ls with
    | nil => rfl
    | cons line ls ih =>
      obtain ⟨hline, hls⟩ := not_or.1 (mt List.mem_cons.2 h)
      rw [List.map_cons, List.map_cons, String.join_cons, ← ih hls]
      exact congrArg (· ++ _) (if_neg (Ne.symm hline))
  exact congrArg (fun text => CodeWriter.mk (w.text ++ text) _) (hlines _ d.empty_not_mem_lines)

theorem write_eq (names : MacroNames) (w : CodeWriter) (d : Definition) :
    write (names, w) d = if d.Counts ∧ d.name ∉ names.seen then
      (⟨d.name :: names.seen⟩, ⟨w.text ++ d.text w.level, w.level⟩) else (names, w) := by
  unfold write define
  by_cases hcounts : d.Counts
  · have hskipped : d.body.isSkipped = false :=
      Bool.eq_false_iff.2 fun h => Definition.isSkipped_iff.1 h hcounts
    rw [hskipped, Bool.false_or]
    by_cases hseen : d.name ∈ names.seen
    · rw [if_pos (List.contains_iff_mem.2 hseen), if_neg fun h => h.2 hseen]
      rfl
    · rw [if_neg (mt List.contains_iff_mem.1 hseen), if_pos ⟨hcounts, hseen⟩]
      exact congrArg (Prod.mk _) (run_lines w d)
  · rw [Definition.isSkipped_iff.2 hcounts, Bool.true_or, if_pos rfl, if_neg fun h => hcounts h.1]
    rfl

theorem writeAll_concat (w : CodeWriter) (ds : List Definition) (d : Definition) :
    writeAll w (ds ++ [d]) = write (writeAll w ds) d := by
  unfold writeAll
  rw [List.foldl_append]
  rfl

/-- The names that are kept are those of the definitions so far that count. -/
theorem mem_seen (w : CodeWriter) (ds : List Definition) (name : String) :
    name ∈ (writeAll w ds).1.seen ↔ ∃ d ∈ ds, d.Counts ∧ d.name = name := by
  -- from the right, as `ds` is what has been written when the next one comes
  induction ds using List.reverseRecOn with
  | nil => exact ⟨fun h => absurd h List.not_mem_nil, fun ⟨_, h, _⟩ => absurd h List.not_mem_nil⟩
  | append_singleton ds d ih =>
    have hwrite : name ∈ (write (writeAll w ds) d).1.seen ↔
        name ∈ (writeAll w ds).1.seen ∨ d.Counts ∧ d.name = name := by
      rw [show writeAll w ds = ((writeAll w ds).1, (writeAll w ds).2) from rfl, write_eq]
      split
      · next h =>
        rw [List.mem_cons, or_comm, eq_comm]
        exact or_congr_right (and_iff_right h.1).symm
      · next h =>
        refine ⟨Or.inl, fun hmem => hmem.elim id ?_⟩
        rintro ⟨hcounts, rfl⟩
        exact not_not.1 fun hnew => h ⟨hcounts, hnew⟩
    rw [writeAll_concat, hwrite, ih]
    simp [or_and_right, exists_or]

theorem isFirst_iff (w : CodeWriter) (ds : List Definition) (d : Definition) :
    IsFirst ds d ↔ d.Counts ∧ d.name ∉ (writeAll w ds).1.seen := by
  rw [mem_seen]
  exact and_congr_right fun _ => ⟨fun h ⟨e, he, hcounts, hname⟩ => h e he hcounts hname,
    fun h e he hcounts hname => h ⟨e, he, hcounts, hname⟩⟩

theorem snd_writeAll (w : CodeWriter) (ds : List Definition) : (writeAll w ds).2 =
    ⟨w.text ++ String.join ((firsts ds).map (text w.level)), w.level⟩ := by
  induction ds using List.reverseRecOn with
  | nil => exact congrArg (CodeWriter.mk · _) String.append_empty.symm
  | append_singleton ds d ih =>
    rw [writeAll_concat, show writeAll w ds = ((writeAll w ds).1, (writeAll w ds).2) from rfl,
      write_eq, firsts_concat, ih]
    by_cases hfirst : IsFirst ds d
    · rw [if_pos ((isFirst_iff w ds d).1 hfirst), if_pos hfirst, List.map_append,
        String.join_append, List.map_singleton, String.join_cons, String.join_nil,
        String.append_empty, String.append_assoc]
    · rw [if_neg (mt (isFirst_iff w ds d).2 hfirst), if_neg hfirst, List.append_nil]

theorem writeAll_filter (w : CodeWriter) (ds : List Definition) :
    writeAll w (ds.filter (Counts ·)) = writeAll w ds := by
  unfold writeAll
  rw [List.foldl_filter]
  congr 1
  funext state d
  by_cases h : d.Counts
  · exact if_pos (decide_eq_true h)
  · rw [if_neg (mt of_decide_eq_true h), show state = (state.1, state.2) from rfl, write_eq,
      if_neg fun h' => h h'.1]

/-- What is written for definitions are those of them that are the first of their name to count, and
the enumerations outside comments are the constants among these. -/
theorem writeAll_spec (w : CodeWriter) (ds : List Definition) :
    (writeAll w ds).2 = ⟨w.text ++ String.join ((firsts ds).map (text w.level)), w.level⟩ ∧
    writeAll w (ds.filter (Counts ·)) = writeAll w ds ∧
    (∀ d : Definition, Text.enumLines d.lines ≠ [] ↔ d.IsConstant) ∧
    Text.enumLines ((firsts ds).flatMap lines) =
      ((firsts ds).filter (IsConstant ·)).map constantLine ∧
    ((∀ d ∈ ds, d.Inline) →
      Text.enumLines (Text.lines (String.join ((firsts ds).map (text w.level)))) =
        ((firsts ds).filter (IsConstant ·)).map constantLine) := by
  refine ⟨snd_writeAll w ds, writeAll_filter w ds, enumLines_lines_ne_nil_iff,
    enumLines_flatMap _, fun h => ?_⟩
  have hfirsts : ∀ d ∈ firsts ds, d.Inline := fun d hd => h d (mem_of_mem_firsts hd)
  rw [lines_text hfirsts, Text.enumLines_indentation]
  exact enumLines_flatMap _

/-- A guard, a definition of the same name, a second one of it, and one with a parameter. -/
theorem writeAll_spec_redefined :
    let ds : List Definition := [⟨"ONE", ⟨none, [⟨.literal, "7"⟩], true⟩, {}⟩,
      ⟨"ONE", ⟨none, [⟨.punctuation, "-"⟩, ⟨.literal, "1"⟩], false⟩, {}⟩,
      ⟨"ONE", ⟨none, [⟨.literal, "2"⟩], false⟩, {}⟩,
      ⟨"ID", ⟨some ["x"], [⟨.identifier, "x"⟩], false⟩, {}⟩]
    (∀ d ∈ ds, d.Inline) ∧
    (writeAll {} ds).2.text = "enum ONE = -1;\n/*\nenum ID(x) = x;\n*/\n" ∧
    Text.enumLines (Text.lines (String.join ((firsts ds).map (text 0)))) = ["enum ONE = -1;"] := by
  intro ds
  have hinline : ∀ d ∈ ds, d.Inline := by
    intro d hd
    simp only [ds, List.mem_cons, List.not_mem_nil, or_false] at hd
    rcases hd with rfl | rfl | rfl | rfl <;> exact ⟨by decide, by decide, by decide, by decide⟩
  obtain ⟨htext, -, -, -, hlines⟩ := writeAll_spec {} ds
  refine ⟨hinline, ?_, (hlines hinline).trans (by decide)⟩
  rw [htext]
  decide

end MacroNames

end DBindings
