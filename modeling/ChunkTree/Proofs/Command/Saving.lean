import ChunkTree.Command.Run
import ChunkTree.Proofs.Command.Places

namespace ChunkTree
namespace Directory

variable {d d' made : Directory} {path other text t : Text} {names : List Text}
  {bytes : ByteArray} {givenUp : List Text → Prop} {r : Trail}

theorem run_bind {σ α β : Type} (x : StateM σ α) (f : α → StateM σ β) (s : σ) :
    (x >>= f).run s = (f (x.run s).1).run (x.run s).2 := rfl

theorem decode_encode (t : Text) : decode (encode t) = .ok t := by
  have hvalid : (encode t).IsValidUTF8 := (String.ofList t).isValidUTF8
  have hread : String.fromUTF8? (encode t) = some (String.ofList t) := by
    rw [String.fromUTF8?, dif_pos hvalid]
    rfl
  rw [decode, hread]
  simp

theorem resolve_eq_ok (h : d.resolve path = .ok r) :
    ∃ steps, usableSteps path = .ok steps ∧ d.follow [] steps = .ok r := by
  rw [resolve] at h
  cases hsteps : usableSteps path with
  | error e =>
    rw [hsteps] at h
    cases h
  | ok steps =>
    rw [hsteps] at h
    exact ⟨steps, rfl, h⟩

theorem leads_resolve (h : d.resolve path = .ok r) : Leads d r := by
  obtain ⟨steps, -, hfollow⟩ := resolve_eq_ok h
  exact leads_follow hfollow

def place? (d : Directory) (path : Text) : Option (List Text) :=
  match d.resolve path with
  | .ok t => some t.names
  | .error _ => none

theorem place?_eq_some (h : d.place? path = some names) :
    ∃ r, d.resolve path = .ok r ∧ r.names = names := by
  rw [place?] at h
  split at h
  · exact ⟨_, ‹_›, Option.some.inj h⟩
  · cases h

theorem place?_of_resolve (h : d.resolve path = .ok r) : d.place? path = some r.names := by
  rw [place?, h]

theorem place?_keeps (hk : Keeps givenUp d d') (h : d.place? path = some names) :
    d'.place? path = some names := by
  obtain ⟨r, hr, rfl⟩ := place?_eq_some h
  obtain ⟨steps, hsteps, hfollow⟩ := resolve_eq_ok hr
  obtain ⟨-, r', hr', -, hnames⟩ := follow_keeps hk .top .top rfl hfollow
  have hresolve : d'.resolve path = .ok r' := by
    rw [resolve, hsteps]
    exact hr'
  rw [place?_of_resolve hresolve]
  exact congrArg some (congrArg List.reverse hnames)

theorem readBytes_eq_ok_iff : d.readBytes path = .ok bytes ↔
    ∃ names, d.place? path = some names ∧ d.reach? names = some (.file bytes) := by
  constructor
  · intro h
    rw [readBytes] at h
    cases hr : d.resolve path with
    | error e =>
      rw [hr] at h
      cases h
    | ok r =>
      rw [hr] at h
      refine ⟨r.names, place?_of_resolve hr, ?_⟩
      rw [(leads_resolve hr).reach?_names]
      cases htarget : r.target? d with
      | none => simp [bind, Except.bind, htarget] at h
      | some e =>
        cases e with
        | file stored => simpa [bind, Except.bind, htarget] using h
        | folder below => simp [bind, Except.bind, htarget] at h
  · rintro ⟨names, hplace, hreach⟩
    obtain ⟨r, hr, rfl⟩ := place?_eq_some hplace
    rw [(leads_resolve hr).reach?_names] at hreach
    simp [readBytes, bind, Except.bind, hr, hreach]

theorem readBytes_keeps (hk : Keeps givenUp d d') (h : d.readBytes path = .ok bytes)
    (hkept : ∀ names, d.place? path = some names → ¬ givenUp names) :
    d'.readBytes path = .ok bytes := by
  obtain ⟨names, hplace, hreach⟩ := readBytes_eq_ok_iff.mp h
  exact readBytes_eq_ok_iff.mpr
    ⟨names, place?_keeps hk hplace, hk.files hreach (hkept names hplace)⟩

theorem read_eq_ok_iff : d.read path = .ok text ↔
    ∃ bytes, d.readBytes path = .ok bytes ∧ decode bytes = .ok text := by
  rw [read]
  cases d.readBytes path with
  | error e => simp [bind, Except.bind]
  | ok bytes => simp [bind, Except.bind]

theorem keeps_makeFolder (h : d.makeFolder path = .ok made) : Keeps (fun _ => False) d made := by
  rw [makeFolder] at h
  cases hr : d.resolve path with
  | error e =>
    rw [hr] at h
    cases h
  | ok r =>
    rw [hr] at h
    have hleads := leads_resolve hr
    cases htarget : r.target? d with
    | some e => simp [bind, Except.bind, htarget] at h
    | none =>
      have hmade : d.put (.folder .empty) r.names = made := by
        simpa [bind, Except.bind, htarget] using h
      have hput := keeps_put (hleads.vacant (by simp [htarget])) (.folder .empty)
      rw [hmade] at hput
      refine ⟨hput.folders, fun hfile _ => hput.files hfile ?_⟩
      rintro rfl
      rw [hleads.reach?_names, htarget] at hfile
      cases hfile

theorem keeps_run_makeFolder (path : Text) (d : Directory) :
    Keeps (fun _ => False) d ((files.makeFolder path).run d).2 := by
  cases hmade : d.makeFolder path with
  | ok made =>
    have hrun : ((files.makeFolder path).run d).2 = made := by
      simp [files, StateT.run, hmade]
    rw [hrun]
    exact keeps_makeFolder hmade
  | error e =>
    have hrun : ((files.makeFolder path).run d).2 = d := by
      simp [files, StateT.run, hmade]
    rw [hrun]
    exact .refl _ _

theorem run_unlessThere (path : Text) (result : Except FileError Unit) (d : Directory) :
    ((files.unlessThere path result).run d).2 = d := by
  cases result with
  | ok => rfl
  | error e =>
    rw [Files.unlessThere, run_bind]
    split <;> rfl

theorem keeps_ensureFolders (steps : List Text) (d : Directory) :
    Keeps (fun _ => False) d ((files.ensureFolders steps).run d).2 := by
  induction steps generalizing d with
  | nil => exact .refl _ _
  | cons step above ih =>
    rw [Files.ensureFolders]
    split
    · exact ih d
    · have hmade := keeps_run_makeFolder (folderPath (step :: above)) d
      rw [run_bind]
      split
      · have habove := hmade.trans (ih _)
        rw [run_bind]
        split
        · rw [run_bind, run_unlessThere]
          exact habove.trans (keeps_run_makeFolder _ _)
        · exact habove
      · rw [run_unlessThere]
        exact hmade

structure Written (d : Directory) (path : Text) (bytes : ByteArray) (names : List Text)
    (made : Directory) : Prop where
  place : made.place? path = some names
  stored : made.reach? names = some (.file bytes)
  keeps : Keeps (· = names) d made

theorem writeFile_eq_ok (h : d.writeFile path bytes = .ok made) :
    ∃ r, d.resolve path = .ok r ∧ (∀ below, r.target? d ≠ some (.folder below)) ∧
      made = d.put (.file bytes) r.names := by
  rw [writeFile] at h
  cases hsteps : usableSteps path with
  | error e =>
    rw [hsteps] at h
    cases h
  | ok steps =>
    simp only [hsteps, bind, Except.bind] at h
    split at h
    · split at h <;> cases h
    · cases hr : d.follow [] steps with
      | error e => simp [hr] at h
      | ok r =>
        have hresolve : d.resolve path = .ok r := by
          rw [resolve, hsteps]
          exact hr
        simp only [hr, pure, Except.pure] at h
        split at h
        · cases h
        · rename_i hfree
          exact ⟨r, hresolve, hfree, (Except.ok.inj h).symm⟩

theorem written_writeFile (h : d.writeFile path bytes = .ok made) :
    ∃ names, Written d path bytes names made := by
  obtain ⟨r, hr, hfree, rfl⟩ := writeFile_eq_ok h
  have hvacant := (leads_resolve hr).vacant hfree
  have hkeeps := keeps_put hvacant (.file bytes)
  exact ⟨r.names, place?_keeps hkeeps (place?_of_resolve hr), reach?_put_self hvacant _, hkeeps⟩

theorem save_cases (path text : Text) (d : Directory) : ∃ folders, Keeps (fun _ => False) d folders ∧
    ((∃ causes, d.save path text = (some causes, folders)) ∨
      ∃ made, folders.writeFile path (encode text) = .ok made ∧ d.save path text = (none, made)) := by
  have hkeeps := keeps_ensureFolders (parentSteps path) d
  rw [save, Files.save, run_bind]
  cases hfolders : (files.ensureFolders (parentSteps path)).run d with
  | mk result folders =>
    rw [hfolders] at hkeeps
    refine ⟨folders, hkeeps, ?_⟩
    cases result with
    | error e => exact .inl ⟨_, rfl⟩
    | ok =>
      simp only [run_bind]
      cases hwrite : folders.writeFile path (encode text) with
      | error e =>
        have hrun : (files.write path text).run folders = (.error e, folders) := by
          simp [files, StateT.run, hwrite]
        rw [hrun]
        exact .inl ⟨_, rfl⟩
      | ok made =>
        have hrun : (files.write path text).run folders = (.ok (), made) := by
          simp [files, StateT.run, hwrite]
        rw [hrun]
        exact .inr ⟨made, rfl, rfl⟩

theorem save_eq_none (h : d.save path text = (none, made)) :
    ∃ folders, Keeps (fun _ => False) d folders ∧ folders.writeFile path (encode text) = .ok made := by
  obtain ⟨folders, hkeeps, ⟨causes, hfailed⟩ | ⟨made', hwrite, hsaved⟩⟩ := save_cases path text d
  · rw [hfailed] at h
    cases h
  · rw [hsaved] at h
    cases h
    exact ⟨folders, hkeeps, hwrite⟩

theorem keeps_of_save_failed {causes : Causes} (h : d.save path text = (some causes, made)) :
    Keeps (fun _ => False) d made := by
  obtain ⟨folders, hkeeps, ⟨causes', hfailed⟩ | ⟨made', -, hsaved⟩⟩ := save_cases path text d
  · rw [hfailed] at h
    cases h
    exact hkeeps
  · rw [hsaved] at h
    cases h

theorem read_of_save (h : d.save path text = (none, made)) : made.read path = .ok text := by
  obtain ⟨folders, -, hwrite⟩ := save_eq_none h
  obtain ⟨names, hwritten⟩ := written_writeFile hwrite
  exact read_eq_ok_iff.mpr ⟨encode text,
    readBytes_eq_ok_iff.mpr ⟨names, hwritten.place, hwritten.stored⟩, decode_encode text⟩

theorem read_other_of_save {failed : Option Causes} (h : d.save path text = (failed, made))
    (hread : d.read other = .ok t) :
    made.read other = .ok t ∨
      (failed = none ∧ made.place? other = made.place? path ∧ made.read other = .ok text) := by
  obtain ⟨bytes, hbytes, hdecode⟩ := read_eq_ok_iff.mp hread
  cases failed with
  | some causes =>
    have hkept := readBytes_keeps (keeps_of_save_failed h) hbytes fun _ _ hup => hup
    exact .inl (read_eq_ok_iff.mpr ⟨bytes, hkept, hdecode⟩)
  | none =>
    obtain ⟨folders, hfolders, hwrite⟩ := save_eq_none h
    obtain ⟨names, hwritten⟩ := written_writeFile hwrite
    have hbefore := readBytes_keeps hfolders hbytes fun _ _ hup => hup
    obtain ⟨place, hplace, -⟩ := readBytes_eq_ok_iff.mp hbefore
    have hafter := place?_keeps hwritten.keeps hplace
    by_cases hsame : place = names
    · subst hsame
      have hstored := readBytes_eq_ok_iff.mpr ⟨place, hafter, hwritten.stored⟩
      exact .inr ⟨rfl, hafter.trans hwritten.place.symm,
        read_eq_ok_iff.mpr ⟨encode text, hstored, decode_encode text⟩⟩
    · have hkept := readBytes_keeps hwritten.keeps hbefore fun names' hplace' => by
        rw [hplace] at hplace'
        rwa [← Option.some.inj hplace']
      exact .inl (read_eq_ok_iff.mpr ⟨bytes, hkept, hdecode⟩)

end Directory
end ChunkTree
