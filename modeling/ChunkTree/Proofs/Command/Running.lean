import ChunkTree.Proofs.Command.Delivering

namespace ChunkTree

structure Outcome.Crashed (x : Outcome) (d : Directory) : Prop where
  exit : x.exit = .crash
  output : x.output = []
  directory : x.directory = d

namespace Options

variable {t : Tokenizer} {o : Options} {c : Config} {oracle : Oracle} {d : Directory}
  {read : FileReader} {path : Text}

theorem run_of_parse? {arguments : List Text} (h : parse? arguments = some (.run o)) :
    run t arguments d = runOptions t o d := by
  rw [run, h]

def reached (o : Options) (t : Tokenizer) (read : FileReader) : Progress :=
  match o.setUp t read with
  | .error _ => .start
  | .ok (c, oracle) =>
    (splitInputs oracle c o.failFast read o.inputs
      ⟨[], Journal.empty.log .debug (budgetsMessage c)⟩).1

theorem reached_eq_foldl (hsetUp : o.setUp t read = .ok (c, oracle))
    (h : ∀ path ∈ o.inputs, Passes oracle c o.failFast read path) :
    o.reached t read = o.inputs.foldl (fun p path => p.append (Progress.ofInput oracle c read path))
      ⟨[], Journal.empty.log .debug (budgetsMessage c)⟩ := by
  rw [reached, hsetUp]
  simp only [splitInputs_eq_foldl h]

theorem runOptions_of_passes (hsetUp : o.setUp t d.read = .ok (c, oracle))
    (h : ∀ path ∈ o.inputs, Passes oracle c o.failFast d.read path) : ∃ records,
    runOptions t o d =
      Outcome.delivered (o.deliveries (o.reached t d.read)) ⟨.success, [], [], records, d⟩ := by
  have hplan : (o.plan t d.read).ending = .completed (o.deliveries (o.reached t d.read)) := by
    rw [plan, hsetUp]
    simp only [reached_eq_foldl hsetUp h, splitInputs_eq_foldl h]
  rw [runOptions, World.carryOut, hplan]
  exact ⟨_, rfl⟩

theorem delivers_of_passes (hsetUp : o.setUp t d.read = .ok (c, oracle))
    (h : ∀ path ∈ o.inputs, Passes oracle c o.failFast d.read path) (hwrite : d.Accepts o.targets) :
    o.Delivers (o.reached t d.read).files (o.reached t d.read).journal.stats (runOptions t o d) := by
  obtain ⟨records, hrun⟩ := runOptions_of_passes hsetUp h
  rw [hrun]
  exact delivers_delivered hwrite rfl

theorem traceless_or_crashed (hsetUp : o.setUp t d.read = .ok (c, oracle))
    (h : ¬ ∀ path ∈ o.inputs, Passes oracle c o.failFast d.read path) :
    (runOptions t o d).Traceless d ∨
      (runOptions t o d).Crashed d ∧ ∃ path ∈ o.inputs, ¬ Splits oracle c d.read path := by
  have hends : Ends oracle c o.failFast d.read o.inputs _ :=
    splitInputs_ends o.inputs ⟨[], Journal.empty.log .debug (budgetsMessage c)⟩
  cases hsplit : splitInputs oracle c o.failFast d.read o.inputs
      ⟨[], Journal.empty.log .debug (budgetsMessage c)⟩ with
  | mk p ending =>
    rw [hsplit] at hends
    have hplan (e : Ending) (he : ending = some e) : (o.plan t d.read).ending = e := by
      rw [plan, hsetUp]
      simp only [hsplit, he]
    cases hends with
    | through hpasses => exact absurd hpasses h
    | abandoned causes => exact .inl (runOptions_abandoned (hplan _ rfl))
    | crashed fault hmem hfault =>
      refine .inr ⟨?_, _, hmem, hfault⟩
      rw [runOptions, World.carryOut, hplan _ rfl]
      exact ⟨rfl, rfl, rfl⟩

theorem passes_iff_splits (hfast : o.failFast = false) :
    Passes oracle c o.failFast read path ↔ Splits oracle c read path := by
  rw [Passes, hfast]
  simp

theorem splits_of_serves (hsetUp : o.setUp t read = .ok (c, oracle))
    (hserves : c.metric = .bpe → t.Serves c) (path : Text) : Splits oracle c read path := by
  obtain ⟨-, -, measure, hload, rfl⟩ := setUp_eq_ok_iff.mp hsetUp
  obtain ⟨measure', hload', hempty, hsheds⟩ := exists_load hserves
  cases hload.symm.trans hload'
  have ho : (c.oracle measure).Honest :=
    Oracle.honest_ofMetric (by rw [hempty]; exact Nat.zero_le _) c.truncation
  exact fun file _ => splitFile_returns ho hsheds file

theorem exit_eq_success_iff (hsetUp : o.setUp t d.read = .ok (c, oracle))
    (hwrite : d.Accepts o.targets) : (runOptions t o d).exit = .success ↔
      ∀ path ∈ o.inputs, Passes oracle c o.failFast d.read path := by
  constructor
  · intro hexit
    by_contra h
    rcases traceless_or_crashed hsetUp h with htraceless | ⟨hcrashed, -⟩
    · cases hexit.symm.trans htraceless.exit
    · cases hexit.symm.trans hcrashed.exit
  · exact fun h => (delivers_of_passes hsetUp h hwrite).exit

end Options
end ChunkTree
