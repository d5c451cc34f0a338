import TriforceScript.Proofs.Command.Output

/-!
# Code on the standard output

A job may be asked to leave its code on the standard output.  All that it tells about itself then
goes to the standard error, and it runs no evaluator.  So the standard output holds the code and
nothing else, whatever the other options say and however the job ends.
-/

namespace TriforceScript

namespace Command

/-! ## What steps write to the standard output -/

/-- Whatever comes of a step, it adds `text` to the standard output and nothing else. -/
def Writes (text : Bytes) {Value : Type} (step : StateM World Value) : Prop :=
  ∀ world, (step.run world).2.out = world.out ++ text

/-- A step that leaves the standard output alone. -/
abbrev Mute {Value : Type} (step : StateM World Value) : Prop :=
  Writes [] step

section Rules

variable {First Second : Type} {text : Bytes}

private theorem mute_of_out_eq {step : StateM World First}
    (same : ∀ world, (step.run world).2.out = world.out) : Mute step := by
  intro world
  rw [same, List.append_nil]

private theorem mute_pure (value : First) : Mute (pure value : StateM World First) :=
  mute_of_out_eq fun _ => rfl

private theorem Writes.bind {first : StateM World First} {second : First → StateM World Second}
    (writes : Writes text first) (mute : ∀ value, Mute (second value)) :
    Writes text (first >>= second) := by
  intro world
  have afterwards := mute (first.run world).1 (first.run world).2
  rw [List.append_nil] at afterwards
  rw [← writes world, ← afterwards]
  rfl

/-- A step that may fail is followed by one that is mute, or by nothing. -/
private theorem Writes.next {first : ExceptT Report (StateM World) First}
    {second : First → ExceptT Report (StateM World) Second} (writes : Writes text first.run)
    (mute : ∀ value, Mute (second value).run) : Writes text (first >>= second).run := by
  rw [ExceptT.run_bind]
  apply writes.bind
  intro result
  cases result with
  | error report => exact mute_pure _
  | ok value => exact mute value

private theorem Writes.lift {step : StateM World First} (writes : Writes text step) :
    Writes text (ExceptT.lift step : ExceptT Report (StateM World) First).run :=
  writes.bind fun value => mute_pure (Except.ok value)

variable {surroundings : Surroundings}

private theorem mute_say (text : Bytes) : Mute ((Console.virtual surroundings).say .err text) :=
  mute_of_out_eq fun _ => rfl

private theorem mute_readInput : Mute (Console.virtual surroundings).readInput := by
  apply mute_of_out_eq
  intro world
  simp only [Console.virtual, StateT.run]
  split
  · rfl
  · rfl

private theorem mute_readFile (name : Bytes) :
    Mute ((Console.virtual surroundings).readFile name) :=
  mute_of_out_eq fun _ => rfl

private theorem writes_deliver (accepted : surroundings.refusal = none) (code : Bytes) :
    Writes code ((Console.virtual surroundings).deliver code) := by
  intro world
  simp only [Console.virtual, StateT.run, World.write, accepted]
  rfl

end Rules

/-! ## Jobs -/

/-- A console with another evaluator in the place of its own. -/
def Console.evaluating {m : Type → Type} (console : Console m)
    (evaluate : Evaluator.Call → m (Except Report Unit)) : Console m :=
  { console with evaluate }

namespace Job

section Parts

variable {m : Type → Type} [Monad m] (job : Job) (console : Console m)

/-- The steps of a job up to its compilation. -/
def translate : ExceptT Report m Compilation := do
  job.tell console .blue (utf8 "🔮 TriforceScript Compiler")
  let source ← job.readSource console
  job.compileSource console source

/-- The steps of a job that has come to its code. -/
def finish (code : Bytes) : ExceptT Report m Unit := do
  job.writeCode console code
  if job.options.run then
    job.runCode console

private theorem steps_eq [LawfulMonad m] :
    job.steps console =
      job.translate console >>= fun compilation => job.finish console compilation.code := by
  simp only [steps, translate, finish, bind_assoc]

/-- There is no file that the code could be run from. -/
private theorem runCode_eq_throw [LawfulMonad m] (toOutput : job.toOutput = true) :
    job.runCode console = throw (.outside (utf8 "-run needs an output file, not stdout")) := by
  unfold runCode
  simp only [toOutput, if_true]
  apply ExceptT.ext
  rw [ExceptT.run_bind, ExceptT.run_throw, pure_bind]

end Parts

section Steps

variable {surroundings : Surroundings} {job : Job} (toOutput : job.toOutput = true)

include toOutput

private theorem mute_tell (colour : Colour) (text : Bytes) :
    Mute (job.tell (Console.virtual surroundings) colour text).run := by
  have elsewhere : job.status = .err := by
    rw [status, if_pos toOutput]
  rw [tell, elsewhere]
  exact (mute_say _).lift

private theorem mute_readSource : Mute (job.readSource (Console.virtual surroundings)).run := by
  have read :
      Mute (ExceptT.run
        (if job.script = standardStream then
          ExceptT.mk (Console.virtual surroundings).readInput
        else do
          let content ← ExceptT.mk ((Console.virtual surroundings).readFile job.script)
          return Source.ofContent content)) := by
    split
    · exact mute_readInput
    · exact Writes.next (mute_readFile job.script) fun content => mute_pure _
  unfold readSource
  dsimp only
  split
  · exact (mute_tell toOutput _ _).next fun _ => read
  · exact read

private theorem mute_compileSource (source : Bytes) :
    Mute (job.compileSource (Console.virtual surroundings) source).run := by
  have elsewhere : job.status = .err := by
    rw [status, if_pos toOutput]
  have details (compilation : Compilation) :
      Mute (job.tellCompilation (Console.virtual surroundings) compilation).run := by
    unfold tellCompilation
    rw [elsewhere]
    exact (mute_say _).lift.next fun _ => (mute_say _).lift
  unfold compileSource
  dsimp only
  by_cases verbose : job.options.verbose = true
  · simp only [verbose, if_true]
    refine (mute_tell toOutput _ _).next fun _ => ?_
    refine Writes.next (mute_say _).lift fun _ => ?_
    refine Writes.next (mute_pure _) fun compilation => ?_
    exact (details compilation).next fun _ => mute_pure _
  · simp only [verbose]
    exact Writes.next (mute_pure _) fun _ => mute_pure _

private theorem mute_translate : Mute (job.translate (Console.virtual surroundings)).run := by
  unfold translate
  refine (mute_tell toOutput _ _).next fun _ => ?_
  exact (mute_readSource toOutput).next fun source => mute_compileSource toOutput source

private theorem writes_finish (accepted : surroundings.refusal = none) (code : Bytes) :
    Writes code (job.finish (Console.virtual surroundings) code).run := by
  have stored :
      Writes code (job.writeCode (Console.virtual surroundings) code).run := by
    rw [writeCode_eq, if_pos toOutput]
    refine Writes.next (writes_deliver accepted code) fun _ => ?_
    exact (mute_tell toOutput _ _).next fun _ => mute_tell toOutput _ _
  unfold finish
  refine stored.next fun _ => ?_
  -- A wish to run the code fails before anything more is written.
  split
  · rw [runCode_eq_throw job _ toOutput]
    exact mute_pure _
  · exact mute_pure _

end Steps

/-- What a job makes of its source text: a compilation, or the report why there is none. -/
def compiled (job : Job) (scene : Scene) : Except Report Compilation := do
  let source ← scene.source job.script
  (TriforceScript.compile source).result.mapError Report.ofFault

private theorem yields_translate (surroundings : Surroundings) (job : Job) (scene : Scene) :
    Yields False
      (fun colours => ((job.coloured colours).translate (Console.virtual surroundings)).run)
      scene (job.compiled scene) (scene.past job.script) := by
  have begun :
      Yields False
        (fun colours => ((job.coloured colours).tell (Console.virtual surroundings) .blue
          (utf8 "🔮 TriforceScript Compiler")).run)
        scene (.ok ()) scene :=
    yields_tell job scene .blue False.elim
  have read :
      Yields False
        (fun colours => ((job.coloured colours).readSource (Console.virtual surroundings)).run)
        scene (scene.source job.script) (scene.past job.script) :=
    yields_readSource job scene
  unfold compiled
  apply begun.next
  cases sourced : scene.source job.script with
  | error report =>
      rw [sourced] at read
      exact read.stop
  | ok source =>
      rw [sourced] at read
      exact read.next (yields_compileSource job _ False.elim)

theorem hasCode_iff {job : Job} {scene : Scene} {code : Bytes} :
    job.HasCode scene code ↔
      ∃ compilation, job.compiled scene = .ok compilation ∧ compilation.code = code := by
  unfold HasCode compiled compileText
  cases scene.source job.script with
  | error report => simp [bind, Except.bind]
  | ok source =>
      cases result : (TriforceScript.compile source).result with
      | error fault => simp [bind, Except.bind, Except.map, Except.mapError, result]
      | ok compilation => simp [bind, Except.bind, Except.map, Except.mapError, result]

/-- What a job leaves on the standard output for what it made of its source text. -/
def delivered : Except Report Compilation → Bytes
  | .ok compilation => compilation.code
  | .error _ => []

private theorem out_steps {surroundings : Surroundings} (accepted : surroundings.refusal = none)
    {job : Job} (toOutput : job.toOutput = true) (scene : Scene) (out err : Bytes) :
    ((job.steps (Console.virtual surroundings)).run.run (scene.world out err)).2.out =
      out ++ delivered (job.compiled scene) := by
  -- Up to its compilation a job is mute, so only its last steps count.
  obtain ⟨moreOut, moreErr, steps, -⟩ := yields_translate surroundings job scene
  have translated := steps job.colours out err
  have mute : Mute (job.translate (Console.virtual surroundings)).run := mute_translate toOutput
  have kept := mute (scene.world out err)
  rw [steps_eq, ExceptT.run_bind, StateT.run_bind]
  generalize (job.translate (Console.virtual surroundings)).run.run (scene.world out err) =
    reached at translated kept
  obtain ⟨result, world⟩ := reached
  rw [List.append_nil] at kept
  have isResult : result = job.compiled scene := congrArg Prod.fst translated
  rw [← isResult]
  cases result with
  | error report =>
      rw [delivered, List.append_nil]
      exact kept
  | ok compilation =>
      have finished := writes_finish toOutput accepted compilation.code world
      rw [show world.out = out from kept] at finished
      exact finished

private theorem out_compile {surroundings : Surroundings} (accepted : surroundings.refusal = none)
    {job : Job} (toOutput : job.toOutput = true) (scene : Scene) (out err : Bytes) :
    ((job.compile (Console.virtual surroundings)).run (scene.world out err)).2.out =
      out ++ delivered (job.compiled scene) := by
  rw [← out_steps accepted toOutput scene out err]
  unfold compile
  rw [StateT.run_bind]
  generalize (job.steps (Console.virtual surroundings)).run.run (scene.world out err) = reached
  obtain ⟨result, world⟩ := reached
  cases result with
  | ok done => rfl
  | error report => rfl

/-- A job that leaves its code on the standard output calls no evaluator: it does the same whatever
would come of such a call. -/
theorem compile_evaluate {m : Type → Type} [Monad m] [LawfulMonad m] {job : Job}
    (toOutput : job.toOutput = true) (console : Console m)
    (evaluate : Evaluator.Call → m (Except Report Unit)) :
    job.compile (console.evaluating evaluate) = job.compile console := by
  unfold compile
  rw [steps_eq, steps_eq]
  unfold finish
  rw [runCode_eq_throw job console toOutput, runCode_eq_throw job _ toOutput]
  rfl

end Job

/-! ## Runs -/

/-- What comes of doing a job with a console, and what lasts of it. -/
def Job.outcome (job : Job) (console : Console (StateM World)) (scene : Scene) : Outcome × State :=
  let done := (job.compile console).run (scene.world [] [])
  (⟨done.1, done.2.out, done.2.err⟩, ⟨job.colours, done.2.files⟩)

private theorem Asks.run_eq {environment : Environment} {request : Request} {job : Job}
    (asks : Asks environment request job) (state : State) :
    run environment state request =
      (job.coloured (state.colours && !job.options.noColours)).outcome
        (Console.virtual (request.surroundings environment)) (request.scene state.files) := by
  have asked :
      action environment.defaults request.arguments =
        (job.options, .compile job.script job.arguments) := by
    rw [action, asks.flags]
    simp only [asks.proper]
    rfl
  unfold run
  rw [asked]
  rfl

/-- A run that is asked to leave the code on the standard output leaves nothing else there.  It is
the code of the source text if this can be read and compiled, and nothing otherwise.  No evaluator
is run: the run is the same with any other one. -/
theorem run_delivers_code_only {environment : Environment} {request : Request} {job : Job}
    (asks : Asks environment request job) (toOutput : job.options.output = standardStream)
    (accepted : request.refusal = none) (state : State) :
    (∀ code, job.HasCode (request.scene state.files) code →
      (run environment state request).1.out = code) ∧
    ((¬ ∃ code, job.HasCode (request.scene state.files) code) →
      (run environment state request).1.out = []) ∧
    ∀ evaluate,
      run environment state request =
        (job.coloured (state.colours && !job.options.noColours)).outcome
          ((Console.virtual (request.surroundings environment)).evaluating evaluate)
          (request.scene state.files) := by
  let coloured := job.coloured (state.colours && !job.options.noColours)
  have toOutput' : coloured.toOutput = true := decide_eq_true toOutput
  have out :
      (run environment state request).1.out =
        Job.delivered (job.compiled (request.scene state.files)) := by
    rw [asks.run_eq state]
    exact Job.out_compile accepted toOutput' (request.scene state.files) [] []
  refine ⟨?_, ?_, ?_⟩
  · intro code hasCode
    obtain ⟨compilation, compiled, rfl⟩ := Job.hasCode_iff.mp hasCode
    rw [out, compiled, Job.delivered]
  · intro noCode
    rw [out]
    cases compiled : job.compiled (request.scene state.files) with
    | error report => rfl
    | ok compilation =>
        exact (noCode ⟨compilation.code, Job.hasCode_iff.mpr ⟨compilation, compiled, rfl⟩⟩).elim
  · intro evaluate
    rw [asks.run_eq state]
    unfold Job.outcome
    rw [Job.compile_evaluate toOutput']

/-- A job that reads the standard input, tells about every step and is asked to run its code. -/
def pipedJob : Job where
  options := { output := utf8 "-", verbose := true, run := true, evaluator := utf8 "echo" }
  colours := false
  script := utf8 "-"
  arguments := [utf8 "b"]

def pipedRequest : Request where
  arguments := ["-v", "-run", "-node", "echo", "-o", "-", "-", "b"].map utf8
  input := { bytes := utf8 "x -> \"a\"\n" }

theorem run_delivers_code_only_piped :
    Asks {} pipedRequest pipedJob ∧ pipedJob.options.output = standardStream ∧
    pipedRequest.refusal = none ∧
    (run {} ⟨true, assigningFiles⟩ pipedRequest).1.out = assigningCode ∧
    ∀ evaluate,
      run {} ⟨true, assigningFiles⟩ pipedRequest =
        (pipedJob.coloured true).outcome
          ((Console.virtual (pipedRequest.surroundings {})).evaluating evaluate)
          (pipedRequest.scene assigningFiles) := by
  have asks : Asks {} pipedRequest pipedJob :=
    ⟨by decide +kernel, rfl, rfl⟩
  have hasCode : pipedJob.HasCode (pipedRequest.scene assigningFiles) assigningCode :=
    ⟨utf8 "x -> \"a\"\n", by decide +kernel, by decide +kernel⟩
  obtain ⟨delivers, -, same⟩ := run_delivers_code_only asks rfl rfl ⟨true, assigningFiles⟩
  exact ⟨asks, rfl, rfl, delivers _ hasCode, same⟩

end Command

end TriforceScript
