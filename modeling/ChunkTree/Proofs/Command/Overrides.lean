import ChunkTree.Proofs.Command.Apart

/-!
Options that go before the config file. A run with them comes to what a run comes to whose file holds
their values, as long as the file they go before is valid on its own, or the result is not; a file that is
not valid on its own is refused whatever the options are.
-/

namespace ChunkTree
namespace Config

variable {c : Config} {fields : Toml.Fields}

theorem ofFields?_eq_some_iff : ofFields? fields = some c ↔
    Toml.setting? fields "unit_budget" standard.unitBudget Toml.count? = some c.unitBudget ∧
    Toml.setting? fields "chunk_budget" standard.chunkBudget Toml.count? = some c.chunkBudget ∧
    Toml.setting? fields "metric" standard.metric (Toml.choice? MetricKind.ofName?) = some c.metric ∧
    Toml.setting? fields "truncation" standard.truncation (Toml.choice? Truncation.ofName?) =
      some c.truncation ∧
    Toml.setting? fields "placeholder" standard.placeholder Toml.text? = some c.placeholder ∧
    Toml.setting? fields "max_depth" standard.maxDepth Toml.count? = some c.maxDepth := by
  simp only [ofFields?, bind, Option.bind_eq_some_iff, pure, Option.some.injEq]
  constructor
  · rintro ⟨unit, hunit, chunk, hchunk, metric, hmetric, truncation, htruncation, placeholder,
      hplaceholder, depth, hdepth, rfl⟩
    exact ⟨hunit, hchunk, hmetric, htruncation, hplaceholder, hdepth⟩
  · rintro ⟨hunit, hchunk, hmetric, htruncation, hplaceholder, hdepth⟩
    exact ⟨_, hunit, _, hchunk, _, hmetric, _, htruncation, _, hplaceholder, _, hdepth, rfl⟩

end Config

namespace Toml

variable {α : Type} {fields fields' : Fields} {name : String} {fallback : α} {read : Toml → Option α}

theorem lookup?_append (key : Text) (fields fields' : Fields) :
    lookup? key (fields ++ fields') = (lookup? key fields).or (lookup? key fields') := by
  rw [lookup?, List.find?_append, Option.map_or, lookup?, lookup?]

def ahead (given fields : Fields) : Fields :=
  given ++ fields.filter fun f => (lookup? f.1 given).isNone

theorem lookup?_ahead (key : Text) (given fields : Fields) :
    lookup? key (ahead given fields) = (lookup? key given).or (lookup? key fields) := by
  rw [ahead, lookup?_append]
  cases hgiven : lookup? key given with
  | some value => rfl
  | none =>
    have hkept : (fun f : Text × Toml => decide ((lookup? f.1 given).isNone = true ∧
        (f.1 == key) = true)) = fun f => f.1 == key := by
      funext f
      by_cases hkey : f.1 = key
      · simp [hkey, hgiven]
      · simp [hkey]
    rw [Option.none_or, Option.none_or, lookup?, lookup?, List.find?_filter, hkept]

theorem setting?_or {given : Option Toml}
    (h : lookup? name.toList fields' = given.or (lookup? name.toList fields)) :
    setting? fields' name fallback read =
      (given.map read).getD (setting? fields name fallback read) := by
  rw [setting?, setting?, h]
  cases given <;> rfl

variable {fuel : Nat} {c : Char} {t s key after rest : Text} {value : Toml}

/-- One line of a document that gives a value to a key of its outermost table. -/
theorem readLines?_pair (hfirst : (skipSpace t).head? = some c) (hc : isBareKeyChar c = true)
    (hkey : readKey? (skipSpace t) = some ([], key, '=' :: s))
    (hvalue : readValue? (2 * s.length + 2) (depthLimit - 1) (skipSpace s) = some (value, after))
    (hnew : lookup? key fields = none) (hend : readLineEnd? after = some rest) :
    readLines? (fuel + 1) ⟨fields, []⟩ t = readLines? fuel ⟨fields ++ [(key, value)], []⟩ rest := by
  obtain ⟨u, hu⟩ := List.head?_eq_some_iff.mp hfirst
  rw [hu] at hkey
  have hpair : readPair? ⟨fields, []⟩ (c :: u) = some (⟨fields ++ [(key, value)], []⟩, after) := by
    simp [readPair?, hkey, hvalue, within?, insertDotted?, insert?, hnew]
  have hbreak : ¬ (c = '#' ∨ c = '\n' ∨ c = '\r') := by
    rintro (rfl | rfl | rfl) <;> exact absurd hc (by decide)
  have hheader : ¬ c = '[' := by
    rintro rfl
    exact absurd hc (by decide)
  rw [readLines?, hu]
  simp [if_neg hbreak, if_neg hheader, hpair, hend]

end Toml

def Directory.HoldsFields (d : Directory) (path : Text) (fields : Toml.Fields) : Prop :=
  ∃ document, d.read path = .ok document ∧ Toml.read? document = some fields

/-- Equal in all but what a failed run tells of its errors. -/
structure Outcome.Agrees (x y : Outcome) : Prop where
  exit : x.exit = y.exit
  output : x.output = y.output
  records : x.records = y.records
  directory : x.directory = y.directory

theorem Outcome.Agrees.of_eq {x y : Outcome} (h : x = y) : x.Agrees y := by
  rw [h]
  exact ⟨rfl, rfl, rfl, rfl⟩

namespace Options

variable {t : Tokenizer} {o o' : Options} {c c' : Config} {d : Directory} {path path' : Text}
  {fields fields' : Toml.Fields}

def given (o : Options) : Toml.Fields :=
  (o.unitBudget.map fun n => ("unit_budget".toList, .integer n)).toList ++
    (o.chunkBudget.map fun n => ("chunk_budget".toList, .integer n)).toList ++
      (o.metric.map fun m => ("metric".toList, .string m.name)).toList

def Sets (o : Options) (fields fields' : Toml.Fields) : Prop :=
  ∀ key, Toml.lookup? key fields' = (Toml.lookup? key o.given).or (Toml.lookup? key fields)

theorem sets_ahead (o : Options) (fields : Toml.Fields) : o.Sets fields (Toml.ahead o.given fields) :=
  fun key => Toml.lookup?_ahead key o.given fields

theorem lookup?_given (o : Options) :
    Toml.lookup? "unit_budget".toList o.given = (o.unitBudget.map fun n => .integer n) ∧
    Toml.lookup? "chunk_budget".toList o.given = (o.chunkBudget.map fun n => .integer n) ∧
    Toml.lookup? "metric".toList o.given = o.metric.map fun m => .string m.name := by
  rw [given]
  cases o.unitBudget <;> cases o.chunkBudget <;> cases o.metric <;> exact ⟨rfl, rfl, rfl⟩

theorem lookup?_other {key : Text}
    (h : key ∉ ["unit_budget".toList, "chunk_budget".toList, "metric".toList]) (o : Options) :
    Toml.lookup? key o.given = none := by
  rw [Toml.lookup?, Option.map_eq_none_iff, List.find?_eq_none]
  intro f hf hkey
  rw [← eq_of_beq hkey] at h
  simp only [given, List.mem_append, Option.mem_toList, Option.map_eq_some_iff] at hf
  rcases hf with (⟨n, -, rfl⟩ | ⟨n, -, rfl⟩) | ⟨m, -, rfl⟩ <;> exact h (by simp)

def withConfig (o : Options) (path : Text) : Options :=
  { o with
    config := some path
    unitBudget := none
    chunkBudget := none
    metric := none }

theorem ofFields?_of_sets (h : o.Sets fields fields') (hc : Config.ofFields? fields = some c) :
    Config.ofFields? fields' = some (o.override c) := by
  obtain ⟨hunit, hchunk, hmetric, htruncation, hplaceholder, hdepth⟩ :=
    Config.ofFields?_eq_some_iff.mp hc
  obtain ⟨hgivenUnit, hgivenChunk, hgivenMetric⟩ := lookup?_given o
  rw [Config.ofFields?_eq_some_iff, Toml.setting?_or (h _), Toml.setting?_or (h _),
    Toml.setting?_or (h _), Toml.setting?_or (h _), Toml.setting?_or (h _), Toml.setting?_or (h _),
    hgivenUnit, hgivenChunk, hgivenMetric, lookup?_other (by decide), lookup?_other (by decide),
    lookup?_other (by decide)]
  refine ⟨?_, ?_, ?_, htruncation, hplaceholder, hdepth⟩
  · rw [hunit, override]
    cases o.unitBudget <;> rfl
  · rw [hchunk, override]
    cases o.chunkBudget <;> rfl
  · rw [hmetric, override]
    cases o.metric with
    | none => rfl
    | some m => exact MetricKind.ofName?_name m

theorem override_withConfig (o : Options) (path : Text) (c : Config) :
    (o.withConfig path).override c = c := rfl

theorem runOptions_congr (hsame : o.withConfig path = o'.withConfig path)
    (hc : o.mergedConfig d.read = o'.mergedConfig d.read) : runOptions t o d = runOptions t o' d := by
  have hinputs : o.inputs = o'.inputs := (congrArg Options.inputs hsame :)
  have hfast : o.failFast = o'.failFast := (congrArg Options.failFast hsame :)
  have hthreshold : o.threshold = o'.threshold := (congrArg threshold hsame :)
  have hdeliveries : o.deliveries = o'.deliveries := (congrArg deliveries hsame :)
  have hsetUp : o.setUp t d.read = o'.setUp t d.read := by
    rw [setUp, setUp, hc]
  have hplan : o.plan t d.read = o'.plan t d.read := by
    rw [plan, plan, hsetUp, hinputs, hfast, hdeliveries]
  rw [runOptions, runOptions, World.carryOut, World.carryOut, hplan, hthreshold]

theorem agrees_of_no_setUp (h : ∀ c oracle, o.setUp t d.read ≠ .ok (c, oracle))
    (h' : ∀ c oracle, o'.setUp t d.read ≠ .ok (c, oracle)) :
    (runOptions t o d).Agrees (runOptions t o' d) := by
  obtain ⟨causes, hrun⟩ := runOptions_of_no_setUp h
  obtain ⟨causes', hrun'⟩ := runOptions_of_no_setUp h'
  rw [hrun, hrun']
  exact ⟨rfl, rfl, rfl, rfl⟩

theorem loadConfig_of_fields (hconfig : o.config = some path) (hfile : d.HoldsFields path fields)
    (hfields : Config.ofFields? fields = some c) :
    o.loadConfig d.read = .ok c' ↔ c = c' ∧ c'.Valid := by
  obtain ⟨document, hread, hdocument⟩ := hfile
  rw [loadConfig_file hconfig, Config.load_of_read hread, hdocument, Option.bind_some, hfields,
    Option.some.injEq]

theorem mergedConfig_of_fields (hconfig : o.config = some path) (hfile : d.HoldsFields path fields)
    (hfields : Config.ofFields? fields = some c) :
    o.mergedConfig d.read = .ok c' ↔ o.override c = c' ∧ c.Valid := by
  simp only [mergedConfig_eq_ok_iff, loadConfig_of_fields hconfig hfile hfields]
  constructor
  · rintro ⟨base, ⟨rfl, hvalid⟩, hmerged⟩
    exact ⟨hmerged, hvalid⟩
  · rintro ⟨hmerged, hvalid⟩
    exact ⟨c, ⟨rfl, hvalid⟩, hmerged⟩

theorem overrides_as_written (t : Tokenizer) (arguments arguments' : List Text) (o : Options)
    (c : Config) (d : Directory) (path path' : Text) (fields fields' : Toml.Fields)
    (hparse : parse? arguments = some (.run o))
    (hparse' : parse? arguments' = some (.run (o.withConfig path')))
    (hconfig : o.config = some path) (hfile : d.HoldsFields path fields)
    (hfile' : d.HoldsFields path' fields') (hfields : Config.ofFields? fields = some c)
    (hsets : o.Sets fields fields') :
    (c.Valid ∨ ¬ (o.override c).Valid → (run t arguments d).Agrees (run t arguments' d)) ∧
    (¬ c.Valid → (run t arguments d).Traceless d) ∧
    (c.Valid → ∀ others o' c', parse? others = some (.run o') →
      o'.withConfig path = o.withConfig path → o'.loadConfig d.read = .ok c' →
      o'.override c' = o.override c → run t others d = run t arguments d) := by
  have hmerged {m : Config} : o.mergedConfig d.read = .ok m ↔ o.override c = m ∧ c.Valid :=
    mergedConfig_of_fields hconfig hfile hfields
  have hmerged' {m : Config} : (o.withConfig path').mergedConfig d.read = .ok m ↔
      o.override c = m ∧ (o.override c).Valid := by
    rw [mergedConfig_of_fields rfl hfile' (ofFields?_of_sets hsets hfields), override_withConfig]
  rw [run_of_parse? hparse, run_of_parse? hparse']
  refine ⟨fun h => ?_, fun hinvalid => ?_, ?_⟩
  · by_cases hvalid : (o.override c).Valid
    · have hc := hmerged.mpr ⟨rfl, h.resolve_right (not_not_intro hvalid)⟩
      have hc' := hmerged'.mpr ⟨rfl, hvalid⟩
      have hsame : o.withConfig path' = (o.withConfig path').withConfig path' := rfl
      exact .of_eq (runOptions_congr hsame (hc.trans hc'.symm))
    · refine agrees_of_no_setUp (fun m oracle hm => ?_) (fun m oracle hm => ?_)
      · obtain ⟨hc, hm, -⟩ := setUp_eq_ok_iff.mp hm
        rw [← (hmerged.mp hc).1] at hm
        exact hvalid hm
      · exact hvalid (hmerged'.mp (setUp_eq_ok_iff.mp hm).1).2
  · exact traceless_of_no_config fun m hm => hinvalid (hmerged.mp hm).2
  · intro hvalid others o' c' hothers hsame hload hoverride
    rw [run_of_parse? hothers]
    refine runOptions_congr hsame ?_
    have hbase := (loadConfig_of_fields hconfig hfile hfields).mpr ⟨rfl, hvalid⟩
    rw [mergedConfig, mergedConfig, hload, hbase]
    simp only [hoverride]

def smallSettings : Text := "unit_budget = 10\n".toList

def evenSettings : Text := "chunk_budget = 5\nunit_budget = 10\n".toList

def wideSettings : Text := "unit_budget = 20\nmetric = \"bpe\"\nchunk_budget = 5\n".toList

/-- A folder with an input file and three config files. The first is not valid on its own, since it
keeps the chunk budget of the standard. -/
def settingsFolder : Directory :=
  .file "a.json".toList (Directory.encode "\x7b\"path\": \"A.java\"\x7d".toList)
    (.file "small.toml".toList (Directory.encode smallSettings)
      (.file "even.toml".toList (Directory.encode evenSettings)
        (.file "wide.toml".toList (Directory.encode wideSettings) .empty)))

def smallFields : Toml.Fields := [("unit_budget".toList, .integer 10)]

def smallConfig : Config := { Config.standard with unitBudget := 10 }

def evenConfig : Config := { smallConfig with chunkBudget := 5 }

theorem valid_evenConfig : evenConfig.Valid := (Config.flaw?_eq_none_iff _).mp (by decide)

def smallOptions : Options :=
  { initial with
    inputs := ["a.json".toList]
    config := some "small.toml".toList
    chunkBudget := some 5 }

def evenOptions : Options :=
  { initial with
    inputs := ["a.json".toList]
    config := some "even.toml".toList
    unitBudget := some 20
    metric := some .bpe }

def bareOptions : Options :=
  { initial with
    inputs := ["a.json".toList]
    unitBudget := some 20
    chunkBudget := some 5
    metric := some .bpe }

def evenFields : Toml.Fields := [("chunk_budget".toList, .integer 5), ("unit_budget".toList, .integer 10)]

def wideFields : Toml.Fields :=
  [("unit_budget".toList, .integer 20), ("metric".toList, .string "bpe".toList),
    ("chunk_budget".toList, .integer 5)]

theorem sets_evenFields : smallOptions.Sets smallFields evenFields := sets_ahead smallOptions smallFields

theorem sets_wideFields : evenOptions.Sets evenFields wideFields := sets_ahead evenOptions evenFields

theorem read?_smallSettings : Toml.read? smallSettings = some smallFields := by
  show (Toml.readLines? 18 ⟨[], []⟩ smallSettings).map Toml.Draft.fields = _
  rw [Toml.readLines?_pair (c := 'u') (by decide) (by decide) (by decide +kernel :
    Toml.readKey? _ = some ([], "unit_budget".toList, '=' :: " 10\n".toList)) rfl rfl rfl]
  rfl

theorem read?_evenSettings : Toml.read? evenSettings = some evenFields := by
  show (Toml.readLines? 35 ⟨[], []⟩ evenSettings).map Toml.Draft.fields = _
  rw [Toml.readLines?_pair (c := 'c') (by decide) (by decide) (by decide +kernel :
      Toml.readKey? _ = some ([], "chunk_budget".toList, '=' :: " 5\nunit_budget = 10\n".toList))
      rfl rfl rfl,
    Toml.readLines?_pair (c := 'u') (by decide) (by decide) (by decide +kernel :
      Toml.readKey? _ = some ([], "unit_budget".toList, '=' :: " 10\n".toList)) rfl rfl rfl]
  rfl

theorem read?_wideSettings : Toml.read? wideSettings = some wideFields := by
  show (Toml.readLines? 50 ⟨[], []⟩ wideSettings).map Toml.Draft.fields = _
  rw [Toml.readLines?_pair (c := 'u') (by decide) (by decide) (by decide +kernel :
      Toml.readKey? _ = some ([], "unit_budget".toList,
        '=' :: " 20\nmetric = \"bpe\"\nchunk_budget = 5\n".toList)) rfl rfl rfl,
    Toml.readLines?_pair (c := 'm') (by decide) (by decide) (by decide +kernel :
      Toml.readKey? _ = some ([], "metric".toList, '=' :: " \"bpe\"\nchunk_budget = 5\n".toList))
      rfl rfl rfl,
    Toml.readLines?_pair (c := 'c') (by decide) (by decide) (by decide +kernel :
      Toml.readKey? _ = some ([], "chunk_budget".toList, '=' :: " 5\n".toList)) rfl rfl rfl]
  rfl

theorem holdsFields_small : settingsFolder.HoldsFields "small.toml".toList smallFields :=
  ⟨smallSettings, Directory.decode_encode smallSettings, read?_smallSettings⟩

theorem holdsFields_even : settingsFolder.HoldsFields "even.toml".toList evenFields :=
  ⟨evenSettings, Directory.decode_encode evenSettings, read?_evenSettings⟩

theorem holdsFields_wide : settingsFolder.HoldsFields "wide.toml".toList wideFields :=
  ⟨wideSettings, Directory.decode_encode wideSettings, read?_wideSettings⟩

theorem overrides_as_written_settingsFolder :
    (run (.ok sampleTokens) ["-i".toList, "a.json".toList, "-c".toList, "even.toml".toList,
      "--unit-budget=20".toList, "--metric=bpe".toList] settingsFolder).Agrees
      (run (.ok sampleTokens) ["-i".toList, "a.json".toList, "-c".toList, "wide.toml".toList]
        settingsFolder) ∧
    run (.ok sampleTokens) ["-i".toList, "a.json".toList, "--unit-budget=20".toList,
        "--chunk-budget=5".toList, "--metric=bpe".toList] settingsFolder =
      run (.ok sampleTokens) ["-i".toList, "a.json".toList, "-c".toList, "even.toml".toList,
        "--unit-budget=20".toList, "--metric=bpe".toList] settingsFolder := by
  obtain ⟨hagrees, -, hmerged⟩ := overrides_as_written (.ok sampleTokens)
    ["-i".toList, "a.json".toList, "-c".toList, "even.toml".toList, "--unit-budget=20".toList,
      "--metric=bpe".toList]
    ["-i".toList, "a.json".toList, "-c".toList, "wide.toml".toList] evenOptions evenConfig
    settingsFolder "even.toml".toList "wide.toml".toList evenFields wideFields (by decide)
    (by decide) rfl holdsFields_even holdsFields_wide (by decide) sets_wideFields
  exact ⟨hagrees (.inl valid_evenConfig),
    hmerged valid_evenConfig _ bareOptions .standard (by decide) rfl (loadConfig_standard rfl)
      (by decide)⟩

theorem exit_small (t : Tokenizer) : (runOptions t smallOptions settingsFolder).exit = .failure := by
  have hfields : Config.ofFields? smallFields = some smallConfig := by decide
  refine (traceless_of_no_config fun c hc => ?_).exit
  obtain ⟨-, hvalid⟩ := (mergedConfig_of_fields rfl holdsFields_small hfields).mp hc
  exact absurd hvalid.chunk_le_unit (by decide)

theorem exit_even (t : Tokenizer) :
    (runOptions t (smallOptions.withConfig "even.toml".toList) settingsFolder).exit = .success := by
  have hfields : Config.ofFields? evenFields = some evenConfig := by decide
  have hsetUp : (smallOptions.withConfig "even.toml".toList).setUp t settingsFolder.read =
      .ok (evenConfig, evenConfig.oracle Metric.approxTokens) :=
    setUp_of_load ((mergedConfig_of_fields rfl holdsFields_even hfields).mpr ⟨rfl, valid_evenConfig⟩)
      valid_evenConfig rfl
  exact (exit_eq_success_iff hsetUp trivial).mpr fun path _ =>
    (passes_iff_splits rfl).mpr (splits_of_serves hsetUp (fun hbpe => by cases hbpe) path)

/-- A file that gives only a small unit budget is refused, also with an option that makes up for it. -/
theorem invalid_file_refused : ¬ ∀ (t : Tokenizer) (arguments arguments' : List Text) (o : Options)
    (c : Config) (d : Directory) (path path' : Text) (fields fields' : Toml.Fields),
    parse? arguments = some (.run o) → parse? arguments' = some (.run (o.withConfig path')) →
    o.config = some path → d.HoldsFields path fields → d.HoldsFields path' fields' →
    Config.ofFields? fields = some c → o.Sets fields fields' →
    (run t arguments d).Agrees (run t arguments' d) := by
  intro h
  have hparse : parse? ["-i".toList, "a.json".toList, "-c".toList, "small.toml".toList,
      "--chunk-budget=5".toList] = some (.run smallOptions) := by decide
  have hparse' : parse? ["-i".toList, "a.json".toList, "-c".toList, "even.toml".toList] =
      some (.run (smallOptions.withConfig "even.toml".toList)) := by decide
  have hagrees := h (.ok sampleTokens) _ _ smallOptions smallConfig settingsFolder _ _ smallFields
    evenFields hparse hparse' rfl holdsFields_small holdsFields_even (by decide) sets_evenFields
  have hexit := hagrees.exit
  rw [run_of_parse? hparse, run_of_parse? hparse', exit_small, exit_even] at hexit
  cases hexit

end Options
end ChunkTree
