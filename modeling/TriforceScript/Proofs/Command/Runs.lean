import TriforceScript.Proofs.Command.Jobs

/-!
# How runs end

A run of the command refuses its arguments, tells the version, holds a session or does a job.
Its status and the files that it leaves do not depend on colours.
-/

namespace TriforceScript

namespace Command

section Ends

variable (environment : Environment) (files : FileTree) (request : Request)

def Request.surroundings : Surroundings :=
  ⟨environment.programs, request.refusal⟩

def Request.scene : Scene :=
  ⟨files, request.input⟩

/-- `Asks environment request job` means that the arguments of a request are proper and ask for a
job, which is given without colours. -/
structure Asks (job : Job) : Prop where
  flags : readFlags environment.defaults request.arguments =
    .ok ⟨job.options, job.script :: job.arguments⟩
  proper : job.options.showVersion = false
  colourless : job.colours = false

/-- `Ends environment files request status after` means that a run which finds `files` and has
nobody typing leaves `after` and ends with `status`. -/
inductive Ends : Nat → FileTree → Prop
  | refused {fault : FlagFault} :
      readFlags environment.defaults request.arguments = .error fault →
      Ends fault.status files
  | version {invocation : Invocation} :
      readFlags environment.defaults request.arguments = .ok invocation →
      invocation.options.showVersion = true →
      Ends 0 files
  | session {options : Options} :
      readFlags environment.defaults request.arguments = .ok ⟨options, []⟩ →
      options.showVersion = false →
      Ends 0 files
  | job {job : Job} {result : Except Report Unit} {after : FileTree} :
      Asks environment request job →
      job.Ends (request.surroundings environment) (request.scene files) result after →
      Ends (statusOf result) after

/-- Whether everything in a request is plain. -/
structure Request.Plain : Prop where
  arguments : ∀ argument ∈ request.arguments, argument.Plain
  bytes : request.input.bytes.Plain
  failure : ∀ message ∈ request.input.failure, message.Plain
  refusal : ∀ message ∈ request.refusal, message.Plain

/-- Whether nothing but plain texts can be told in a run. -/
structure Quiet : Prop where
  evaluator : ∀ text ∈ environment.evaluator, text.Plain
  contents : files.Plain
  asked : request.Plain
  evaluation : ∀ job run,
    Asks environment request job →
    job.Evaluates (request.surroundings environment) (request.scene files) run →
    run.out.Plain ∧ run.err.Plain

end Ends

section Run

variable {quiet : Prop} {environment : Environment} {files : FileTree} {request : Request}

private theorem Quiet.readFlags (calm : Quiet environment files request) :
    Plainly FlagFault.message Invocation.Plain
      (readFlags environment.defaults request.arguments) := by
  have plainDefaults : environment.defaults.Plain :=
    ⟨show (utf8 "output.js").Plain by decide, Evaluator.plain_command calm.evaluator⟩
  exact plainly_readFlags plainDefaults calm.asked.arguments

private theorem Quiet.job (calm : Quiet environment files request) {job : Job}
    (asks : Asks environment request job) :
    job.Quiet (request.surroundings environment) (request.scene files) := by
  have plainly := calm.readFlags
  rw [asks.flags] at plainly
  obtain ⟨plainOptions, plainOperands⟩ := plainly.of_ok
  exact ⟨plainOptions, plainOperands job.script List.mem_cons_self, calm.contents,
    calm.asked.bytes, calm.asked.failure, calm.asked.refusal,
    fun run => calm.evaluation job run asks⟩

private theorem Request.Plain.ending (plain : request.Plain) : request.input.ending.Plain := by
  unfold Input.ending
  cases failure : request.input.failure with
  | none => trivial
  | some message => exact plain.failure message failure

private theorem yields_session (calm : quiet → Quiet environment files request) (options : Options)
    (piped : request.input.source.isInteractive = false) :
    Yields quiet
      (fun colours =>
        perform environment (request.surroundings environment) colours options .session)
      (request.scene files) 0 (request.scene files) := by
  have told :
      Yields quiet
        (fun _ => do
          (Console.virtual (request.surroundings environment)).say .out
            (Session.Buffered.out request.input.bytes request.input.ending)
          (Console.virtual (request.surroundings environment)).say .err
            (Session.Buffered.err request.input.bytes request.input.ending)
          return 0)
        (request.scene files) 0 (request.scene files) := by
    apply yields_both
    intro holds
    exact Session.Buffered.plain_out_err (calm holds).asked.bytes (calm holds).asked.ending
  apply told.congr
  intro colours out err
  show (0, holdSession environment colours ((request.scene files).world out err) _) = _
  unfold holdSession
  rw [if_neg]
  · rfl
  · rw [Bool.not_eq_true]
    exact piped

/-- A run performs what its arguments ask for, and comes to one of its ends. -/
private theorem exists_perform (calm : quiet → Quiet environment files request)
    (piped : request.input.source.isInteractive = false) :
    ∃ status after,
      Ends environment files request status after.files ∧
      Yields quiet
        (fun colours => perform environment (request.surroundings environment) colours
          (action environment.defaults request.arguments).1
          (action environment.defaults request.arguments).2)
        (request.scene files) status after ∧
      (quiet → after.files.Plain) := by
  have keeps (holds : quiet) := (calm holds).contents
  unfold action
  cases read : readFlags environment.defaults request.arguments with
  | error fault =>
      have plainFault (holds : quiet) : (fault.message ++ usage environment.defaults).Plain := by
        have plainly := (calm holds).readFlags
        rw [read] at plainly
        exact Bytes.plain_append.mpr ⟨plainly.of_error, plain_usage _⟩
      have said :
          Yields quiet
            (fun _ => (Console.virtual (request.surroundings environment)).say .err
              (fault.message ++ usage environment.defaults))
            (request.scene files) () (request.scene files) :=
        yields_say _ .err fun holds => faithful_of_plain (plainFault holds)
      exact ⟨fault.status, request.scene files, .refused read,
        said.bind (yields_pure _ fault.status), keeps⟩
  | ok invocation =>
      obtain ⟨options, operands⟩ := invocation
      dsimp only
      by_cases version : options.showVersion = true
      · rw [if_pos version]
        have said :
            Yields quiet
              (fun _ => (Console.virtual (request.surroundings environment)).say .out versionLine)
              (request.scene files) () (request.scene files) :=
          yields_say _ .out fun _ => faithful_of_plain (by decide)
        exact ⟨0, request.scene files, .version read version, said.bind (yields_pure _ 0), keeps⟩
      · rw [if_neg version]
        rw [Bool.not_eq_true] at version
        cases operands with
        | nil =>
            exact ⟨0, request.scene files, .session read version,
              yields_session calm options piped, keeps⟩
        | cons script arguments =>
            have asks : Asks environment request ⟨options, false, script, arguments⟩ :=
              ⟨read, version, rfl⟩
            obtain ⟨result, after, ends, yields, plain⟩ :=
              exists_compile fun holds => (calm holds).job asks
            exact ⟨statusOf result, after, .job asks ends, yields, plain⟩

/-- What a run tells and leaves, with colours and without.  Colours that are off stay off. -/
theorem exists_run (calm : quiet → Quiet environment files request)
    (piped : request.input.source.isInteractive = false) :
    ∃ (status : Nat) (after : FileTree) (out err : Bool → Bytes) (last : Bool → Bool),
      Ends environment files request status after ∧
      (∀ colours,
        run environment ⟨colours, files⟩ request =
          (⟨status, out (last colours), err (last colours)⟩, ⟨last colours, after⟩)) ∧
      last false = false ∧
      (quiet → after.Plain ∧ Faithful out ∧ Faithful err) := by
  obtain ⟨status, after, ends, ⟨out, err, steps, faithful⟩, plain⟩ := exists_perform calm piped
  refine ⟨status, after.files, out, err,
    fun colours => colours && !(action environment.defaults request.arguments).1.noColours,
    ends, ?_, rfl, fun holds => ⟨plain holds, faithful holds⟩⟩
  intro colours
  have performed :=
    steps (colours && !(action environment.defaults request.arguments).1.noColours) [] []
  exact congrArg
    (fun done : Nat × World =>
      ((⟨done.1, done.2.out, done.2.err⟩ : Outcome), (⟨_, done.2.files⟩ : State)))
    performed

end Run

end Command

end TriforceScript
