import DBindings.Command
import DBindings.Proofs.Fresh

/-!
# Values of the command line

A configuration file is checked when it is loaded, and once more with the values of the command
line on top.  So a value of the file has to be valid although another one takes its place.

* `GenConfig.Valid`            what a configuration has to meet;
* `GenConfig.merged`           a configuration and values of the command line, field by field;
* `GenConfig.override_eq`      the overrides in their order come to this;
* `GenConfig.outcome`          what comes of a configuration and values of the command line;
* `resolveConfig_spec`         a configuration is found just if that of the file and the merged one
                               are valid, and then it is the merged one.
-/

namespace DBindings

namespace GenConfig

/-- The standard is not blank, and the path of the module not empty. -/
def Valid (config : GenConfig) : Prop :=
  Text.isAllBlank config.input.standard = false ∧ config.output.path ≠ ""

instance : DecidablePred Valid := fun _ => inferInstanceAs (Decidable (_ ∧ _))

/-- What is wrong with a configuration; the standard comes first. -/
def fault? (config : GenConfig) : Option ConfigError :=
  if Text.isAllBlank config.input.standard then some .emptyStandard
  else if config.output.path = "" then some .emptyOutput
  else none

/-- A configuration and values of the command line: a value that is given replaces one, paths are
put behind the others, and so are extras that are not there. -/
def merged (config : GenConfig) (given : Overrides) : GenConfig where
  input.paths := config.input.paths ++ given.paths
  input.standard := given.standard.getD config.input.standard
  output.path := given.output.getD config.output.path
  output.extras := config.output.extras ++ fresh config.output.extras given.extras
  output.mangling := given.mangling.getD config.output.mangling

/-- What comes of a configuration and values of the command line. -/
def outcome (config : GenConfig) (given : Overrides) : Except Failure GenConfig :=
  match config.fault? <|> (config.merged given).fault? with
  | none => .ok (config.merged given)
  | some e => .error (.config e)

/-! ## Merging -/

theorem foldl_withExtra (config : GenConfig) (extras : List String) :
    extras.foldl withExtra config = { config with
      output.extras := config.output.extras ++ fresh config.output.extras extras } := by
  induction extras generalizing config with
  | nil =>
    show config = { config with output.extras := config.output.extras ++ [] }
    rw [List.append_nil]
  | cons extra extras ih =>
    rw [List.foldl_cons, ih]
    unfold withExtra hasExtra
    by_cases h : extra ∈ config.output.extras
    · rw [if_pos (List.contains_iff_mem.2 h), fresh_cons_of_mem h]
    · rw [if_neg (mt List.contains_iff_mem.1 h), fresh_cons_of_not_mem h]
      show ({ config with output.extras := (_ ++ [_]) ++ _ } : GenConfig) = _
      rw [List.append_assoc]
      rfl

theorem override_eq (config : GenConfig) (given : Overrides) :
    config.override given = config.merged given := foldl_withExtra _ given.extras

/-! ## Checking -/

theorem fault?_eq_none_iff {config : GenConfig} : config.fault? = none ↔ config.Valid := by
  unfold fault? Valid
  split
  · next h => simp [h]
  · next h => split <;> simp_all

theorem validate_eq (config : GenConfig) :
    config.validate = match config.fault? with | none => .ok config | some e => .error e := by
  unfold validate fault?
  split
  · rfl
  · split <;> rfl

theorem outcome_eq_ok_iff {config c : GenConfig} {given : Overrides} :
    config.outcome given = .ok c ↔
      config.Valid ∧ (config.merged given).Valid ∧ c = config.merged given := by
  unfold outcome
  rw [← fault?_eq_none_iff, ← fault?_eq_none_iff]
  cases config.fault? with
  | some e => exact ⟨nofun, fun h => nomatch h.1⟩
  | none =>
    cases (config.merged given).fault? with
    | some e => exact ⟨nofun, fun h => nomatch h.2.1⟩
    | none => exact ⟨fun h => ⟨rfl, rfl, (Except.ok.inj h).symm⟩, fun h => congrArg _ h.2.2.symm⟩

/-- What is loaded is checked first, and what is merged after it. -/
theorem resolve_validate (config : GenConfig) (given : Overrides) :
    (resolve config.validate given).mapError Failure.config = config.outcome given := by
  unfold resolve outcome
  rw [validate_eq]
  cases config.fault? with
  | some e => rfl
  | none =>
    show ((config.override given).validate).mapError _ = _
    rw [override_eq, validate_eq]
    cases (config.merged given).fault? with
    | some e => rfl
    | none => rfl

end GenConfig

/-- What comes of the text of a configuration file; there is none if the file cannot be read. -/
def Overrides.answer (given : Overrides) (parse : String → Option GenConfig) :
    Option String → Except Failure GenConfig
  | none => .error (.config .unreadable)
  | some text =>
    match parse text with
    | none => .error (.config .malformed)
    | some config => config.outcome given

section
variable {m : Type → Type} [Monad m] [LawfulMonad m] (fs : FileSystem m)
  (parse : String → Option GenConfig)

omit [LawfulMonad m] in
theorem run_resolved (loaded : Except ConfigError GenConfig) (given : Overrides) :
    (match GenConfig.resolve loaded given with
      | .ok config => pure config
      | .error e => throw (Failure.config e) : ExceptT Failure m GenConfig).run =
      pure ((GenConfig.resolve loaded given).mapError Failure.config) := by
  cases GenConfig.resolve loaded given with
  | ok config => rfl
  | error e => rfl

theorem resolveConfig_some (path : String) (given : Overrides) :
    (resolveConfig fs (some path) given parse).run = given.answer parse <$> fs.read path := by
  have hload : (resolveConfig fs (some path) given parse).run =
      loadConfig fs parse path >>= fun loaded =>
        pure ((GenConfig.resolve loaded given).mapError Failure.config) := by
    unfold resolveConfig
    dsimp only
    rw [ExceptT.run_bind_lift]
    exact congrArg _ (funext fun loaded => run_resolved loaded given)
  rw [hload, map_eq_pure_bind]
  unfold loadConfig
  rw [bind_assoc]
  congr 1
  funext found
  cases found with
  | none => exact pure_bind _ _
  | some text =>
    unfold Overrides.answer
    dsimp only
    cases parse text with
    | none => exact pure_bind _ _
    | some config => exact (pure_bind _ _).trans (congrArg pure (config.resolve_validate given))

theorem resolveConfig_none (given : Overrides) :
    (resolveConfig fs none given parse).run = pure (({} : GenConfig).outcome given) := by
  unfold resolveConfig
  dsimp only
  rw [pure_bind]
  exact (run_resolved (.ok {}) given).trans (congrArg pure (GenConfig.resolve_validate {} given))

/-- A configuration is found if and only if that of the file is valid and so is the merged one, and
then it is the merged one, however the text of the file is parsed. -/
theorem resolveConfig_spec (given : Overrides) :
    (∀ path, (resolveConfig fs (some path) given parse).run =
      given.answer parse <$> fs.read path) ∧
    (resolveConfig fs none given parse).run = pure (({} : GenConfig).outcome given) ∧
    (∀ text config, parse text = some config →
      given.answer parse (some text) = config.outcome given) ∧
    ∀ config c : GenConfig, config.outcome given = .ok c ↔
      config.Valid ∧ (config.merged given).Valid ∧ c = config.merged given := by
  refine ⟨fun path => resolveConfig_some fs parse path given, resolveConfig_none fs parse given,
    fun text config h => ?_, fun _ _ => GenConfig.outcome_eq_ok_iff⟩
  show (match parse text with | none => _ | some config => _) = _
  rw [h]

end

/-! ## One file in a tree -/

def FileTree.configured (text : String) : FileTree := ⟨[(["dgen.toml"], .file text)], []⟩

theorem FileTree.read?_configured (text : String) :
    (configured text).read? "dgen.toml" = some text := by
  have hnames : names "dgen.toml" = ["dgen.toml"] := by decide
  have husable : isUsable "dgen.toml" = true := by decide
  simp [read?, walk?, place?, startOf, isAbsolute, follow, isDirectoryAt, node?, configured, hnames,
    husable]

theorem run_answer (given : Overrides) (parse : String → Option GenConfig) (text : String) :
    ((given.answer parse <$> FileSystem.ofTree.read "dgen.toml").run (.configured text)).1 =
      given.answer parse (some text) :=
  congrArg (given.answer parse) (FileTree.read?_configured text)

/-- Extras of the file stay as they are, and those of the command line come behind them once. -/
theorem resolveConfig_spec_replaced :
    ((resolveConfig FileSystem.ofTree (some "dgen.toml")
      { output := some "cli.d", standard := some "c++20", extras := ["b", "a", "b"] }).run.run
      (.configured "[input]\nstandard = \"c99\"\n[output]\nextras = [\"a\", \"a\"]\n")).1 =
      .ok ⟨⟨[], "c++20"⟩, ⟨"cli.d", ["a", "a", "b"], .itanium⟩⟩ := by
  rw [(resolveConfig_spec FileSystem.ofTree _ _).1 "dgen.toml"]
  exact (run_answer _ _ _).trans (by decide +kernel)

/-- A blank standard in the file is an error, although the command line replaces it. -/
theorem blankStandard_rejected :
    let config : GenConfig := { input := { standard := "" } }
    let given : Overrides := { standard := some "c++20" }
    GenConfig.ofToml? "[input]\nstandard = \"\"\n" = some config ∧ (config.merged given).Valid ∧
    ((resolveConfig FileSystem.ofTree (some "dgen.toml") given).run.run
      (.configured "[input]\nstandard = \"\"\n")).1 = .error (.config .emptyStandard) := by
  refine ⟨by decide +kernel, by decide, ?_⟩
  rw [resolveConfig_some]
  exact (run_answer _ _ _).trans (by decide +kernel)

end DBindings
