import ChunkTree.Command.Run

namespace ChunkTree
namespace Config

variable {c c' : Config} {read : FileReader} {path document : Text}

theorem validate_eq_ok_iff : c.validate = .ok c' ↔ c = c' ∧ c.Valid := by
  rw [validate, ← flaw?_eq_none_iff]
  cases c.flaw? with
  | none => simp
  | some flaw => simp

theorem ofToml_eq_ok_iff :
    ofToml document = .ok c ↔ (Toml.read? document).bind ofFields? = some c ∧ c.Valid := by
  rw [ofToml]
  cases (Toml.read? document).bind ofFields? with
  | none => simp
  | some c' =>
    rw [validate_eq_ok_iff, Option.some.injEq]
    exact and_congr_right fun h => by rw [h]

theorem load_of_read (hread : read path = .ok document) :
    load read path = .ok c ↔ (Toml.read? document).bind ofFields? = some c ∧ c.Valid := by
  rw [load, hread]
  exact ofToml_eq_ok_iff

theorem load_of_error {e : FileError} (hread : read path = .error e) :
    load read path = .error (.unreadable e) := by
  rw [load, hread]

theorem oracle?_eq_ok_iff {t : Tokenizer} {oracle : Oracle} : c.oracle? t = .ok oracle ↔
    c.Valid ∧ ∃ measure, c.metric.load t = .ok measure ∧ c.oracle measure = oracle := by
  rw [oracle?]
  cases hvalidate : c.validate with
  | error e =>
    have hflawed : ¬ c.Valid := fun hvalid => by
      rw [validate_eq_ok_iff.mpr ⟨rfl, hvalid⟩] at hvalidate
      cases hvalidate
    simp [hflawed]
  | ok c' =>
    obtain ⟨rfl, hvalid⟩ := validate_eq_ok_iff.mp hvalidate
    dsimp only
    cases c.metric.load t with
    | error reason => simp
    | ok measure => simp [hvalid]

end Config

structure Outcome.Traceless (x : Outcome) (d : Directory) : Prop where
  exit : x.exit = .failure
  output : x.output = []
  directory : x.directory = d

namespace Options

variable {t : Tokenizer} {o : Options} {c : Config} {oracle : Oracle} {d : Directory}
  {read : FileReader} {path : Text}

theorem loadConfig_standard (h : o.config = none) : o.loadConfig read = .ok .standard := by
  rw [loadConfig, h]

theorem loadConfig_file (h : o.config = some path) :
    o.loadConfig read = .ok c ↔ Config.load read path = .ok c := by
  rw [loadConfig, h]
  cases hload : Config.load read path with
  | error e => simp [hload]
  | ok c' => simp [hload]

theorem mergedConfig_eq_ok_iff : o.mergedConfig read = .ok c ↔
    ∃ base, o.loadConfig read = .ok base ∧ o.override base = c := by
  rw [mergedConfig]
  cases o.loadConfig read with
  | error causes => simp
  | ok base => simp

theorem setUp_eq_ok_iff : o.setUp t read = .ok (c, oracle) ↔ o.mergedConfig read = .ok c ∧ c.Valid ∧
    ∃ measure, c.metric.load t = .ok measure ∧ c.oracle measure = oracle := by
  rw [setUp]
  cases o.mergedConfig read with
  | error causes => simp
  | ok c' =>
    dsimp only
    constructor
    · intro h
      split at h
      · rename_i horacle
        cases h
        exact ⟨rfl, Config.oracle?_eq_ok_iff.mp horacle⟩
      · cases h
    · rintro ⟨hc, horacle⟩
      cases hc
      rw [Config.oracle?_eq_ok_iff.mpr horacle]

theorem setUp_of_load {measure : Metric} (hc : o.mergedConfig read = .ok c) (hvalid : c.Valid)
    (hload : c.metric.load t = .ok measure) : o.setUp t read = .ok (c, c.oracle measure) :=
  setUp_eq_ok_iff.mpr ⟨hc, hvalid, measure, hload, rfl⟩

theorem runOptions_abandoned {causes : Causes} (h : (o.plan t d.read).ending = .abandoned causes) :
    (runOptions t o d).Traceless d := by
  rw [runOptions, World.carryOut, h]
  exact ⟨rfl, rfl, rfl⟩

theorem runOptions_of_no_setUp (h : ∀ c oracle, o.setUp t d.read ≠ .ok (c, oracle)) :
    ∃ causes : Causes, runOptions t o d = ⟨.failure, [], causes.report, [], d⟩ := by
  cases hsetUp : o.setUp t d.read with
  | ok x => exact absurd hsetUp (h x.1 x.2)
  | error causes =>
    have hplan : o.plan t d.read = ⟨[], .abandoned causes⟩ := by
      rw [plan, hsetUp]
    refine ⟨causes, ?_⟩
    rw [runOptions, hplan]
    rfl

theorem traceless_of_no_setUp (h : ∀ c oracle, o.setUp t d.read ≠ .ok (c, oracle)) :
    (runOptions t o d).Traceless d := by
  obtain ⟨causes, hrun⟩ := runOptions_of_no_setUp h
  rw [hrun]
  exact ⟨rfl, rfl, rfl⟩

theorem traceless_of_failed_setUp {causes : Causes} (h : o.setUp t d.read = .error causes) :
    (runOptions t o d).Traceless d := by
  refine traceless_of_no_setUp fun c oracle hok => ?_
  rw [h] at hok
  cases hok

theorem traceless_of_no_config (h : ∀ c, o.mergedConfig d.read ≠ .ok c) :
    (runOptions t o d).Traceless d :=
  traceless_of_no_setUp fun c _ hsetUp => h c (setUp_eq_ok_iff.mp hsetUp).1

end Options
end ChunkTree
