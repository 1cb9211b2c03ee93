import ChunkTree.Proofs.Command.Apart

/-!
Runs that are abandoned and runs that report. A run is abandoned for its config, or for an input file
where it has to fail fast, and then it leaves no trace. Any other run writes its report if that can be
written, even if no input file could be used.
-/

namespace ChunkTree

variable {oracle : Oracle} {c : Config} {read : FileReader} {inputs : List Text} {path : Text}

theorem usable_eq_false_iff : usable read path = false ↔
    (∃ e, read path = .error e) ∨
      ∃ text, read path = .ok text ∧ (Json.read? Json.modelDepth text).bind InputFile.ofJson? = none := by
  rw [usable, loadInput]
  cases read path with
  | error e => simp
  | ok text =>
    cases hfile : (Json.read? Json.modelDepth text).bind InputFile.ofJson? <;>
      simp [-Option.bind_eq_none_iff, hfile]

namespace Options

variable {t : Tokenizer} {o : Options} {d : Directory} {p : Progress}

inductive Aborts (o : Options) (read : FileReader) : Prop
  | unreadableConfig {path : Text} {e : FileError} (hconfig : o.config = some path)
      (hread : read path = .error e)
  | malformedConfig {path document : Text} (hconfig : o.config = some path)
      (hread : read path = .ok document)
      (hfields : (Toml.read? document).bind Config.ofFields? = none)
  | invalidConfig {path document : Text} {c : Config} (hconfig : o.config = some path)
      (hread : read path = .ok document)
      (hfields : (Toml.read? document).bind Config.ofFields? = some c) (hflaw : ¬ c.Valid)
  | invalidMerged {c : Config} (hload : o.loadConfig read = .ok c) (hflaw : ¬ (o.override c).Valid)
  | unreadableInput {path : Text} {e : FileError} (hfast : o.failFast = true)
      (hmem : path ∈ o.inputs) (hread : read path = .error e)
  | malformedInput {path text : Text} (hfast : o.failFast = true) (hmem : path ∈ o.inputs)
      (hread : read path = .ok text)
      (hunits : (Json.read? Json.modelDepth text).bind InputFile.ofJson? = none)

theorem not_mergedConfig_of_config (hconfig : o.config = some path)
    (h : ∀ c, Config.load read path ≠ .ok c) (c : Config) : o.mergedConfig read ≠ .ok c := by
  intro hc
  obtain ⟨base, hload, -⟩ := mergedConfig_eq_ok_iff.mp hc
  exact h base ((loadConfig_file hconfig).mp hload)

theorem Aborts.cases (h : o.Aborts read) : (∀ c oracle, o.setUp t read ≠ .ok (c, oracle)) ∨
    o.failFast = true ∧ ∃ path ∈ o.inputs, usable read path = false := by
  have hconfig {path : Text} (hconfig : o.config = some path)
      (hload : ∀ c, Config.load read path ≠ .ok c) (c : Config) (oracle : Oracle) :
      o.setUp t read ≠ .ok (c, oracle) := fun hsetUp =>
    not_mergedConfig_of_config hconfig hload c (setUp_eq_ok_iff.mp hsetUp).1
  cases h with
  | unreadableConfig hpath hread =>
    refine .inl (hconfig hpath fun c hload => ?_)
    rw [Config.load_of_error hread] at hload
    cases hload
  | malformedConfig hpath hread hfields =>
    refine .inl (hconfig hpath fun c hload => ?_)
    rw [Config.load_of_read hread, hfields] at hload
    cases hload.1
  | invalidConfig hpath hread hfields hflaw =>
    refine .inl (hconfig hpath fun c hload => ?_)
    rw [Config.load_of_read hread, hfields] at hload
    cases hload.1
    exact hflaw hload.2
  | invalidMerged hload hflaw =>
    refine .inl fun c oracle hsetUp => ?_
    obtain ⟨hc, hvalid, -⟩ := setUp_eq_ok_iff.mp hsetUp
    obtain ⟨base, hbase, rfl⟩ := mergedConfig_eq_ok_iff.mp hc
    cases hload.symm.trans hbase
    exact hflaw hvalid
  | unreadableInput hfast hmem hread =>
    exact .inr ⟨hfast, _, hmem, usable_eq_false_iff.mpr (.inl ⟨_, hread⟩)⟩
  | malformedInput hfast hmem hread hunits =>
    exact .inr ⟨hfast, _, hmem, usable_eq_false_iff.mpr (.inr ⟨_, hread, hunits⟩)⟩

theorem not_passes_of_unusable (hfast : o.failFast = true)
    (hbad : ∃ path ∈ o.inputs, usable read path = false) :
    ¬ ∀ path ∈ o.inputs, Passes oracle c o.failFast read path := by
  obtain ⟨path, hmem, hbad⟩ := hbad
  intro h
  rw [(h path hmem).2 hfast] at hbad
  cases hbad

theorem Aborts.traceless_or_crashed (h : o.Aborts d.read) : (runOptions t o d).Traceless d ∨
    (runOptions t o d).Crashed d ∧ ∃ c oracle, o.setUp t d.read = .ok (c, oracle) ∧
      ∃ path ∈ o.inputs, ¬ Splits oracle c d.read path := by
  rcases h.cases (t := t) with hno | ⟨hfast, hbad⟩
  · exact .inl (traceless_of_no_setUp hno)
  · cases hsetUp : o.setUp t d.read with
    | error causes => exact .inl (traceless_of_failed_setUp hsetUp)
    | ok x =>
      rcases Options.traceless_or_crashed hsetUp (not_passes_of_unusable hfast hbad) with
        htraceless | ⟨hcrashed, hfault⟩
      · exact .inl htraceless
      · exact .inr ⟨hcrashed, x.1, x.2, rfl, hfault⟩

end Options
end ChunkTree
