import TriforceScript.Proofs.Command.Runs

/-!
# What a run leaves

A run writes at most one file, the one for the code, and the whole code at once.  Its status
tells whether the arguments were refused and whether the job failed.
-/

namespace TriforceScript

namespace Command

/-! ## Jobs that fail -/

namespace Job

/-- The reasons for which a job fails: its source text cannot be read or compiled, its code
cannot be written, it cannot be run because there is no file for it, or the evaluator fails. -/
inductive Fails (surroundings : Surroundings) (job : Job) (scene : Scene) : Prop
  | reading {report : Report} :
      scene.source job.script = .error report → Fails surroundings job scene
  | compiling {source : Bytes} {fault : Fault} :
      scene.source job.script = .ok source → compileText source = .error fault →
      Fails surroundings job scene
  | writing {code : Bytes} {report : Report} :
      job.HasCode scene code → job.written surroundings scene.files code = .error report →
      Fails surroundings job scene
  | unrunnable :
      job.options.run = true → job.toOutput = true → Fails surroundings job scene
  | running {code : Bytes} {files : FileTree} {report : Report} :
      job.HasCode scene code → job.written surroundings scene.files code = .ok files →
      job.options.run = true → job.toOutput = false →
      Scene.evaluated ⟨files, (scene.past job.script).input⟩ surroundings job.call =
        .error report →
      Fails surroundings job scene

variable {surroundings : Surroundings} {job : Job} {scene : Scene} {code : Bytes}

theorem HasCode.unique {other : Bytes} (hasCode : job.HasCode scene code)
    (hasOther : job.HasCode scene other) : code = other := by
  obtain ⟨source, sourced, compiled⟩ := hasCode
  obtain ⟨source', sourced', compiled'⟩ := hasOther
  rw [sourced] at sourced'
  cases sourced'
  rw [compiled] at compiled'
  cases compiled'
  rfl

private theorem HasCode.source_ne_error (hasCode : job.HasCode scene code) (report : Report) :
    scene.source job.script ≠ .error report := by
  obtain ⟨source, sourced, -⟩ := hasCode
  rw [sourced]
  intro impossible
  cases impossible

private theorem HasCode.compileText_ne_error (hasCode : job.HasCode scene code) {source : Bytes}
    (sourced : scene.source job.script = .ok source) (fault : Fault) :
    compileText source ≠ .error fault := by
  obtain ⟨source', sourced', compiled⟩ := hasCode
  rw [sourced] at sourced'
  cases sourced'
  rw [compiled]
  intro impossible
  cases impossible

/-- A job that ends well had no reason to fail. -/
private theorem Ends.not_fails {result : Except Report Unit} {after : FileTree}
    (ends : job.Ends surroundings scene result after) (fine : result = .ok ()) :
    ¬ job.Fails surroundings scene := by
  -- The code and the files after writing it are determined, so no reason to fail is left over.
  have proper {code : Bytes} {files : FileTree} (hasCode : job.HasCode scene code)
      (written : job.written surroundings scene.files code = .ok files)
      (runs : job.options.run = true →
        job.toOutput = false ∧
        Scene.evaluated ⟨files, (scene.past job.script).input⟩ surroundings job.call = .ok ()) :
      ¬ job.Fails surroundings scene := by
    intro fails
    cases fails with
    | reading failed => exact hasCode.source_ne_error _ failed
    | compiling sourced failed => exact hasCode.compileText_ne_error sourced _ failed
    | writing hasOther failed =>
        rw [hasCode.unique hasOther, failed] at written
        cases written
    | unrunnable asked toOutput =>
        rw [(runs asked).1] at toOutput
        cases toOutput
    | running hasOther stored asked _ failed =>
        rw [hasCode.unique hasOther, stored] at written
        cases written
        rw [(runs asked).2] at failed
        cases failed
  cases ends with
  | unread _ | uncompiled _ _ | unwritten _ _ | unrunnable _ _ _ _ => cases fine
  | written hasCode written still =>
      apply proper hasCode written
      intro asked
      rw [still] at asked
      cases asked
  | ran hasCode written asked toFile =>
      exact proper hasCode written fun _ => ⟨toFile, fine⟩

private theorem Ends.fails {result : Except Report Unit} {after : FileTree}
    (ends : job.Ends surroundings scene result after) {report : Report}
    (failed : result = .error report) : job.Fails surroundings scene := by
  cases ends with
  | unread sourced => exact .reading sourced
  | uncompiled sourced uncompiled => exact .compiling sourced uncompiled
  | unwritten hasCode unwritten => exact .writing hasCode unwritten
  | written _ _ _ => cases failed
  | unrunnable _ _ asked toOutput => exact .unrunnable asked toOutput
  | ran hasCode written asked toFile => exact .running hasCode written asked toFile failed

/-! ## Files that jobs leave -/

theorem toOutput_eq_false_iff : job.toOutput = false ↔ job.options.output ≠ standardStream := by
  rw [toOutput, decide_eq_false_iff_not]

private theorem written_of_toFile (toFile : job.toOutput = false) (files : FileTree) (code : Bytes)
    :
    job.written surroundings files code =
      (files.write job.options.output code).mapError fun fault => .outside fault.message := by
  rw [written, if_neg (by rw [toFile]; decide)]

private theorem write_of_written (toFile : job.toOutput = false) {files after : FileTree}
    (written : job.written surroundings files code = .ok after) :
    files.write job.options.output code = .ok after := by
  rw [written_of_toFile toFile] at written
  cases stored : files.write job.options.output code with
  | error fault =>
      rw [stored] at written
      cases written
  | ok stored' =>
      rw [stored] at written
      cases written
      rfl

private theorem files_of_written (toOutput : job.toOutput = true) {files after : FileTree}
    (written : job.written surroundings files code = .ok after) : after = files := by
  rw [Job.written, if_pos toOutput] at written
  split at written
  · cases written
  · cases written
    rfl

variable {result : Except Report Unit} {after : FileTree}

/-- Whatever else happens, code that has a place is written there. -/
private theorem Ends.write_eq (ends : job.Ends surroundings scene result after)
    (hasCode : job.HasCode scene code) (toFile : job.toOutput = false) {location : Location}
    (found : scene.files.target job.options.output = .ok location) :
    scene.files.write job.options.output code = .ok after := by
  have placed {other : Bytes} {files : FileTree} (hasOther : job.HasCode scene other)
      (written : job.written surroundings scene.files other = .ok files) :
      scene.files.write job.options.output code = .ok files := by
    rw [hasCode.unique hasOther]
    exact write_of_written toFile written
  cases ends with
  | unread failed => exact (hasCode.source_ne_error _ failed).elim
  | uncompiled sourced failed => exact (hasCode.compileText_ne_error sourced _ failed).elim
  | unwritten hasOther failed =>
      obtain ⟨files, stored⟩ := FileTree.exists_write_eq_ok found code
      rw [← hasCode.unique hasOther, written_of_toFile toFile, stored] at failed
      cases failed
  | written hasOther written _ => exact placed hasOther written
  | unrunnable hasOther written _ _ => exact placed hasOther written
  | ran hasOther written _ _ => exact placed hasOther written

private theorem Ends.files_eq_or (ends : job.Ends surroundings scene result after) :
    after = scene.files ∨
    ∃ code location,
      job.HasCode scene code ∧ job.toOutput = false ∧
      scene.files.target job.options.output = .ok location := by
  have placed {code : Bytes} {files : FileTree} (hasCode : job.HasCode scene code)
      (written : job.written surroundings scene.files code = .ok files) :
      files = scene.files ∨
      ∃ code location,
        job.HasCode scene code ∧ job.toOutput = false ∧
        scene.files.target job.options.output = .ok location := by
    by_cases toOutput : job.toOutput = true
    · exact .inl (files_of_written toOutput written)
    · rw [Bool.not_eq_true] at toOutput
      obtain ⟨location, found⟩ :=
        FileTree.exists_target_of_write (write_of_written toOutput written)
      exact .inr ⟨code, location, hasCode, toOutput, found⟩
  cases ends with
  | unread _ | uncompiled _ _ | unwritten _ _ => exact .inl rfl
  | written hasCode written _ => exact placed hasCode written
  | unrunnable hasCode written _ _ => exact placed hasCode written
  | ran hasCode written _ _ => exact placed hasCode written

end Job

/-! ## Runs -/

section Runs

variable {environment : Environment} {files after : FileTree} {request : Request} {status : Nat}

/-- `Stores environment files request name code location` means that a request asks for a job
whose code is `code`, to be written to a file called `name`, and that there is room for this file
at `location`. -/
structure Stores (environment : Environment) (files : FileTree) (request : Request)
    (name code : Bytes) (location : Location) : Prop where
  job : ∃ job,
    Asks environment request job ∧ job.HasCode (request.scene files) code ∧
    job.options.output = name
  named : name ≠ standardStream
  target : files.target name = .ok location

theorem Asks.unique {job other : Job} (asks : Asks environment request job)
    (asksOther : Asks environment request other) : job = other := by
  obtain ⟨options, colours, script, arguments⟩ := job
  obtain ⟨options', colours', script', arguments'⟩ := other
  have flags := asks.flags
  rw [asksOther.flags] at flags
  cases flags
  cases asks.colourless
  cases asksOther.colourless
  rfl

private theorem Ends.job_of_asks (ends : Ends environment files request status after) {job : Job}
    (asks : Asks environment request job) :
    ∃ result,
      job.Ends (request.surroundings environment) (request.scene files) result after ∧
      status = statusOf result := by
  cases ends with
  | refused failed =>
      rw [asks.flags] at failed
      cases failed
  | version read version =>
      rw [asks.flags] at read
      cases read
      rw [asks.proper] at version
      cases version
  | session read _ =>
      rw [asks.flags] at read
      cases read
  | @job other result after asksOther ends =>
      rw [← asks.unique asksOther] at ends
      exact ⟨result, ends, rfl⟩

private theorem Ends.write_of_stores (ends : Ends environment files request status after)
    {name code : Bytes} {location : Location}
    (stores : Stores environment files request name code location) :
    files.write name code = .ok after := by
  obtain ⟨⟨job, asks, hasCode, rfl⟩, named, found⟩ := stores
  obtain ⟨result, jobEnds, -⟩ := ends.job_of_asks asks
  exact jobEnds.write_eq hasCode (Job.toOutput_eq_false_iff.mpr named) found

private theorem Ends.files_eq (ends : Ends environment files request status after)
    (nothing : ¬ ∃ name code location, Stores environment files request name code location) :
    after = files := by
  cases ends with
  | refused _ | version _ _ | session _ _ => rfl
  | job asks jobEnds =>
      rcases jobEnds.files_eq_or with same | ⟨code, location, hasCode, toFile, found⟩
      · exact same
      · have named := Job.toOutput_eq_false_iff.mp toFile
        exact (nothing ⟨_, code, location, ⟨⟨_, asks, hasCode, rfl⟩, named, found⟩⟩).elim

private theorem statusOf_le (result : Except Report Unit) : statusOf result ≤ 1 := by
  cases result <;> simp [statusOf]

theorem FlagFault.status_eq_two_iff (fault : FlagFault) : fault.status = 2 ↔ fault ≠ .help := by
  cases fault <;> simp [FlagFault.status]

theorem Ends.status_eq_two_iff (ends : Ends environment files request status after) :
    status = 2 ↔
      ∃ fault, readFlags environment.defaults request.arguments = .error fault ∧ fault ≠ .help := by
  cases ends with
  | @refused fault failed =>
      rw [fault.status_eq_two_iff, failed]
      simp
  | version read _ | session read _ =>
      rw [read]
      simp
  | @job job result after asks jobEnds =>
      have small : statusOf result ≠ 2 := by
        have bound := statusOf_le result
        omega
      rw [asks.flags]
      simpa using small

theorem Ends.status_eq_one_iff (ends : Ends environment files request status after) :
    status = 1 ↔
      ∃ job,
        Asks environment request job ∧
        job.Fails (request.surroundings environment) (request.scene files) := by
  constructor
  · intro isOne
    cases ends with
    | @refused fault failed => cases fault <;> cases isOne
    | version _ _ | session _ _ => cases isOne
    | @job job result after asks jobEnds =>
        refine ⟨job, asks, ?_⟩
        cases result with
        | ok _ => cases isOne
        | error report => exact jobEnds.fails rfl
  · rintro ⟨job, asks, fails⟩
    obtain ⟨result, jobEnds, rfl⟩ := ends.job_of_asks asks
    cases result with
    | ok _ => exact (jobEnds.not_fails rfl fails).elim
    | error report => rfl

private theorem Ends.status_le (ends : Ends environment files request status after) :
    status ≤ 2 := by
  cases ends with
  | @refused fault _ => cases fault <;> simp [FlagFault.status]
  | version _ _ | session _ _ => decide
  | @job _ result _ _ _ => exact Nat.le_succ_of_le (statusOf_le result)

/-- A run without anybody typing writes no file but that of the code, and that one as a whole.
It ends with status 2 if its arguments are refused and with status 1 if its job fails. -/
theorem run_writes_code_only (environment : Environment) (state : State) (request : Request)
    (piped : request.input.source.isInteractive = false) :
    ∃ outcome after,
      run environment state request = (outcome, after) ∧
      (∀ name code location,
        Stores environment state.files request name code location →
        (∀ other, other ≠ location → after.files.find? other = state.files.find? other) ∧
        (state.files.find? location ≠ some .sink →
          after.files.find? location = some (.file code) ∧ after.files.read name = .ok code) ∧
        (state.files.find? location = some .sink → after.files = state.files)) ∧
      ((¬ ∃ name code location, Stores environment state.files request name code location) →
        after.files = state.files) ∧
      after.files.folder = state.files.folder ∧
      (outcome.status = 2 ↔
        ∃ fault,
          readFlags environment.defaults request.arguments = .error fault ∧ fault ≠ .help) ∧
      (outcome.status = 1 ↔
        ∃ job,
          Asks environment request job ∧
          job.Fails (request.surroundings environment) (request.scene state.files)) ∧
      outcome.status ≤ 2 := by
  have noisy : False → Quiet environment state.files request := False.elim
  obtain ⟨status, files, out, err, last, ends, ran, -, -⟩ := exists_run noisy piped
  refine ⟨_, _, ran state.colours, ?_, ends.files_eq, ?_, ends.status_eq_two_iff,
    ends.status_eq_one_iff, ends.status_le⟩
  · intro name code location stores
    have written := ends.write_of_stores stores
    refine ⟨fun other different => FileTree.find?_write_of_ne stores.target written different,
      FileTree.read_write stores.target written, ?_⟩
    intro isSink
    rw [FileTree.write_eq stores.target written, if_pos isSink]
  · by_cases stored : ∃ name code location,
        Stores environment state.files request name code location
    · obtain ⟨name, code, location, stores⟩ := stored
      exact FileTree.folder_write (ends.write_of_stores stores)
    · rw [ends.files_eq stored]

/-- A folder with a script that assigns a text. -/
def assigningFiles : FileTree where
  entries := [([utf8 "a.tri"], .file (utf8 "x -> \"a\"\n"))]

def assigningCode : Bytes :=
  utf8 "// Generated by TriforceScript\n\nx = \"a\";\n"

/-- A job whose evaluator fails. -/
def failingJob : Job where
  options :=
    { output := utf8 "a.js", verbose := true, run := true, evaluator := utf8 "false" }
  colours := false
  script := utf8 "a.tri"
  arguments := []

def failingRequest : Request where
  arguments := ["-v", "-run", "-node", "false", "-o=a.js", "a.tri"].map utf8

theorem run_failingRequest :
    failingRequest.input.source.isInteractive = false ∧
    ∃ outcome after,
      run {} ⟨true, assigningFiles⟩ failingRequest = (outcome, after) ∧
      outcome.status = 1 ∧
      after.files.find? [utf8 "a.tri"] = assigningFiles.find? [utf8 "a.tri"] ∧
      after.files.read (utf8 "a.js") = .ok assigningCode := by
  have piped : failingRequest.input.source.isInteractive = false := rfl
  obtain ⟨outcome, after, ran, stored, -, -, -, failed, -⟩ :=
    run_writes_code_only {} ⟨true, assigningFiles⟩ failingRequest piped
  have asks : Asks {} failingRequest failingJob :=
    ⟨by decide +kernel, rfl, rfl⟩
  have hasCode : failingJob.HasCode (failingRequest.scene assigningFiles) assigningCode :=
    ⟨utf8 "x -> \"a\"\n", by decide +kernel, by decide +kernel⟩
  have stores :
      Stores {} assigningFiles failingRequest (utf8 "a.js") assigningCode [utf8 "a.js"] :=
    ⟨⟨failingJob, asks, hasCode, rfl⟩, by decide, by decide +kernel⟩
  have written :
      failingJob.written (failingRequest.surroundings {}) assigningFiles assigningCode =
        .ok (assigningFiles.put [utf8 "a.js"] (.file assigningCode)) := by
    decide +kernel
  have evaluated :
      Scene.evaluated ⟨assigningFiles.put [utf8 "a.js"] (.file assigningCode), failingRequest.input⟩
          (failingRequest.surroundings {}) failingJob.call =
        .error (Evaluator.report failingJob.call (.status 1)) := by
    decide +kernel
  have fails :
      failingJob.Fails (failingRequest.surroundings {}) (failingRequest.scene assigningFiles) :=
    .running hasCode written rfl (by decide) evaluated
  obtain ⟨others, here, -⟩ := stored _ _ _ stores
  exact ⟨piped, outcome, after, ran, failed.mpr ⟨failingJob, asks, fails⟩,
    others _ (by decide), (here (by decide)).2⟩

end Runs

end Command

end TriforceScript
