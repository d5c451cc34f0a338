import TriforceScript.Proofs.Command.Effects
import TriforceScript.Proofs.Command.Plain
import TriforceScript.Proofs.Compilation.Plain

/-!
# How jobs end

A job comes to its end in one of six ways, according to the first step that fails.  Which way
it is, what becomes of the files and which status is given does not depend on colours.
-/

namespace TriforceScript

namespace Command

/-! ## What a job depends on -/

/-- Only the failure of a stream fails the program that the stream is copied to. -/
theorem Input.copyFailure?_eq_some_iff {input : Input} {message : Bytes} :
    input.copyFailure? = some message ↔
      input.source = .stream ∧ input.failure = some message := by
  unfold copyFailure?
  cases input.source <;> simp

namespace Scene

/-- The source text of a script, from the input or from a file. -/
def source (scene : Scene) (script : Bytes) : Source :=
  if script = standardStream then
    .ofStream scene.input.bytes scene.input.failure
  else
    .ofFile scene.files script

/-- What is left once the source text of a script has been read. -/
def past (scene : Scene) (script : Bytes) : Scene :=
  if script = standardStream then
    { scene with input := { scene.input with bytes := [] } }
  else
    scene

private theorem files_past (scene : Scene) (script : Bytes) :
    (scene.past script).files = scene.files := by
  unfold past
  split
  · rfl
  · rfl

private theorem failure_past (scene : Scene) (script : Bytes) :
    (scene.past script).input.failure = scene.input.failure := by
  unfold past
  split
  · rfl
  · rfl

end Scene

namespace Job

abbrev coloured (job : Job) (colours : Bool) : Job :=
  { job with colours }

def HasCode (job : Job) (scene : Scene) (code : Bytes) : Prop :=
  ∃ source, scene.source job.script = .ok source ∧ compileText source = .ok code

/-- The files once code has been written, or why it cannot be written. -/
def written (job : Job) (surroundings : Surroundings) (files : FileTree) (code : Bytes) :
    Except Report FileTree :=
  if job.toOutput then
    match surroundings.refusal with
    | some message => .error (.outside message)
    | none => .ok files
  else
    (files.write job.options.output code).mapError fun fault => .outside fault.message

def call (job : Job) : Evaluator.Call :=
  ⟨job.options.evaluator, job.options.output, job.arguments⟩

/-- What comes of running the code of a job in a scene. -/
def evaluation (job : Job) (surroundings : Surroundings) (scene : Scene) : Evaluator.Run :=
  Evaluator.run surroundings.programs false scene.files scene.input.bytes job.call

/-- `Ends surroundings job scene result files` means that all steps of a job give `result` and
leave `files`. -/
inductive Ends (surroundings : Surroundings) (job : Job) (scene : Scene) :
    Except Report Unit → FileTree → Prop
  | unread {report : Report} :
      scene.source job.script = .error report →
      Ends surroundings job scene (.error report) scene.files
  | uncompiled {source : Bytes} {fault : Fault} :
      scene.source job.script = .ok source →
      compileText source = .error fault →
      Ends surroundings job scene (.error (.ofFault fault)) scene.files
  | unwritten {code : Bytes} {report : Report} :
      job.HasCode scene code →
      job.written surroundings scene.files code = .error report →
      Ends surroundings job scene (.error report) scene.files
  | written {code : Bytes} {files : FileTree} :
      job.HasCode scene code →
      job.written surroundings scene.files code = .ok files →
      job.options.run = false →
      Ends surroundings job scene (.ok ()) files
  | unrunnable {code : Bytes} {files : FileTree} {report : Report} :
      job.HasCode scene code →
      job.written surroundings scene.files code = .ok files →
      job.options.run = true →
      job.toOutput = true →
      Ends surroundings job scene (.error report) files
  | ran {code : Bytes} {files : FileTree} :
      job.HasCode scene code →
      job.written surroundings scene.files code = .ok files →
      job.options.run = true →
      job.toOutput = false →
      Ends surroundings job scene
        (Scene.evaluated ⟨files, (scene.past job.script).input⟩ surroundings job.call) files

/-- `Evaluates surroundings job scene run` means that the code is run in the course of a job, and
that `run` is what comes of it. -/
def Evaluates (surroundings : Surroundings) (job : Job) (scene : Scene) (run : Evaluator.Run) :
    Prop :=
  ∃ code files,
    job.HasCode scene code ∧
    job.written surroundings scene.files code = .ok files ∧
    job.options.run = true ∧
    job.toOutput = false ∧
    run = job.evaluation surroundings ⟨files, (scene.past job.script).input⟩

/-- Whether nothing but plain texts can be told in the course of a job. -/
structure Quiet (surroundings : Surroundings) (job : Job) (scene : Scene) : Prop where
  options : job.options.Plain
  script : job.script.Plain
  files : scene.files.Plain
  bytes : scene.input.bytes.Plain
  failure : ∀ message ∈ scene.input.failure, message.Plain
  refusal : ∀ message ∈ surroundings.refusal, message.Plain
  evaluation : ∀ run, job.Evaluates surroundings scene run → run.out.Plain ∧ run.err.Plain

end Job

/-! ## Single steps -/

section Steps

variable {quiet : Prop} {surroundings : Surroundings} (job : Job) (scene : Scene)

theorem yields_tell (colour : Colour) {text : Bytes} (plain : quiet → text.Plain) :
    Yields quiet
      (fun colours => ((job.coloured colours).tell (Console.virtual surroundings) colour text).run)
      scene (.ok ()) scene := by
  apply Yields.lift
  exact yields_say scene job.status fun holds => faithful_paintLine colour (plain holds)

theorem yields_readSource :
    Yields quiet
      (fun colours => ((job.coloured colours).readSource (Console.virtual surroundings)).run)
      scene (scene.source job.script) (scene.past job.script) := by
  have read :
      Yields quiet
        (fun _ => ExceptT.run
          (if job.script = standardStream then
            ExceptT.mk (Console.virtual surroundings).readInput
          else do
            let content ← ExceptT.mk ((Console.virtual surroundings).readFile job.script)
            return Source.ofContent content))
        scene (scene.source job.script) (scene.past job.script) := by
    unfold Scene.source Scene.past
    split
    · exact yields_readInput scene
    · have content :
          Yields quiet (fun _ => (Console.virtual surroundings).readFile job.script) scene
            ((scene.files.read job.script).mapError fun fault => .outside fault.message) scene :=
        yields_readFile scene job.script
      unfold Source.ofFile
      cases found : scene.files.read job.script with
      | error fault =>
          rw [found] at content
          exact content.stop
      | ok text =>
          rw [found] at content
          exact content.next (yields_pure scene (Except.ok (Source.ofContent text)))
  unfold Job.readSource
  dsimp only
  by_cases verbose : job.options.verbose = true
  · simp only [verbose, if_true]
    exact (yields_tell job scene .gray fun _ => by decide).next read
  · simp only [verbose]
    exact read

private theorem yields_tellNotes {notes : List Note}
    (plain : quiet → ∀ note ∈ notes, note.message.Plain) :
    Yields quiet
      (fun colours => ((job.coloured colours).tellNotes (Console.virtual surroundings) notes).run)
      scene (.ok ()) scene := by
  apply Yields.lift
  apply yields_say scene .err
  intro holds
  apply faithful_flatMap
  intro note member
  have plainMessage := plain holds note member
  exact faithful_paintLine .gray (by simp +decide [plainMessage])

private theorem yields_tellCompilation {compilation : Compilation}
    (plain : quiet → compilation.Plain) :
    Yields quiet
      (fun colours =>
        ((job.coloured colours).tellCompilation (Console.virtual surroundings) compilation).run)
      scene (.ok ()) scene := by
  have sayTokens :
      Yields quiet (fun _ => (Console.virtual surroundings).say job.status
        (compilation.tokens.flatMap tokenLine)) scene () scene := by
    apply yields_say scene job.status
    intro holds
    apply faithful_of_plain
    rw [Bytes.plain_flatMap]
    intro token member
    have plainText := (plain holds).tokens token member
    simp +decide [tokenLine, Token.Kind.plain_name, plainText]
  have sayCount :
      Yields quiet (fun colours => (Console.virtual surroundings).say job.status
        (Colour.gray.paint colours
          (Bytes.ofNat compilation.program.length ++ utf8 " top-level statements\n")))
        scene () scene := by
    apply yields_say scene job.status
    intro _
    exact faithful_paint .gray (by simp +decide)
  exact sayTokens.lift.next sayCount.lift

theorem yields_compileSource {source : Bytes} (plain : quiet → source.Plain) :
    Yields quiet
      (fun colours =>
        ((job.coloured colours).compileSource (Console.virtual surroundings) source).run)
      scene ((compile source).result.mapError Report.ofFault) scene := by
  -- Behind the notes, details are told only about a source text that has code.
  have rest (verbose : Bool) :
      Yields quiet
        (fun colours => ExceptT.run do
          let compilation ←
            ExceptT.mk (pure ((compile source).result.mapError Report.ofFault))
          if verbose = true then do
            (job.coloured colours).tellCompilation (Console.virtual surroundings) compilation
            pure compilation
          else
            pure compilation)
        scene ((compile source).result.mapError Report.ofFault) scene := by
    cases compiled : (compile source).result with
    | error fault =>
        exact (yields_pure scene (Except.error (Report.ofFault fault))).stop
    | ok compilation =>
        apply Yields.next (yields_pure scene (Except.ok compilation))
        cases verbose with
        | false => exact yields_pure scene (Except.ok compilation)
        | true =>
            have plainCompilation (holds : quiet) : compilation.Plain := by
              have plainly := (plainly_compile (plain holds)).2
              rw [compiled] at plainly
              exact plainly.of_ok
            exact (yields_tellCompilation job scene plainCompilation).next
              (yields_pure scene (Except.ok compilation))
  unfold Job.compileSource
  dsimp only
  by_cases verbose : job.options.verbose = true
  · have notes (holds : quiet) := (plainly_compile (plain holds)).1
    simp only [verbose, if_true]
    exact (yields_tell job scene .gray fun _ => by decide).next
      ((yields_tellNotes job scene notes).next (rest true))
  · simp only [verbose]
    exact rest false

theorem Job.writeCode_eq {m : Type → Type} [Monad m] (console : Console m) (code : Bytes) :
    job.writeCode console code = (do
      ExceptT.mk
        (if job.toOutput then
          console.deliver code
        else
          console.writeFile job.options.output code)
      job.tell console .green (utf8 "✨ Compilation succeeded!")
      job.tell console .gray (utf8 "📝 Code written to " ++ job.options.output)) := by
  unfold Job.writeCode
  split
  · rfl
  · rfl

private theorem places_store (surroundings : Surroundings) {code : Bytes}
    (plain : quiet → code.Plain) :
    Places quiet
      (fun _ =>
        if job.toOutput then
          (Console.virtual surroundings).deliver code
        else
          (Console.virtual surroundings).writeFile job.options.output code)
      scene (job.written surroundings scene.files code) := by
  unfold Job.written
  split
  · exact places_deliver scene plain
  · exact places_writeFile scene job.options.output code

private theorem places_writeCode {code : Bytes} (plainCode : quiet → code.Plain)
    (plainOutput : quiet → job.options.output.Plain) :
    Places quiet
      (fun colours => ((job.coloured colours).writeCode (Console.virtual surroundings) code).run)
      scene (job.written surroundings scene.files code) := by
  have plainLine (holds : quiet) : (utf8 "📝 Code written to " ++ job.options.output).Plain :=
    Bytes.plain_append.mpr ⟨by decide, plainOutput holds⟩
  have stored := places_store job scene surroundings plainCode
  simp only [Job.writeCode_eq]
  cases written : job.written surroundings scene.files code with
  | error report =>
      rw [written] at stored
      exact Yields.stop stored
  | ok files =>
      rw [written] at stored
      apply Yields.next stored
      apply (yields_tell job _ .green fun _ => by decide).next
      exact yields_tell job _ .gray plainLine

private theorem yields_runCode (toFile : job.toOutput = false)
    (plain : quiet →
      (job.evaluation surroundings scene).out.Plain ∧
      (job.evaluation surroundings scene).err.Plain) :
    Yields quiet
      (fun colours => ((job.coloured colours).runCode (Console.virtual surroundings)).run)
      scene (scene.evaluated surroundings job.call) scene := by
  have toFile' (colours : Bool) : (job.coloured colours).toOutput = false := toFile
  have ruled (_ : quiet) : Job.rule.Plain := by
    decide
  unfold Job.runCode
  simp only [toFile']
  apply (yields_tell job scene .blue fun _ => by decide).next
  apply (yields_tell job scene .yellow ruled).next
  apply (yields_evaluate scene plain).lift.next
  apply (yields_tell job scene .yellow ruled).next
  exact yields_pure scene _

private theorem yields_runCode_of_toOutput (toOutput : job.toOutput = true) :
    Yields quiet
      (fun colours => ((job.coloured colours).runCode (Console.virtual surroundings)).run)
      scene (.error (.outside (utf8 "-run needs an output file, not stdout"))) scene := by
  have toOutput' (colours : Bool) : (job.coloured colours).toOutput = true := toOutput
  unfold Job.runCode
  simp only [toOutput', if_true]
  exact yields_silent fun _ _ _ => rfl

end Steps

/-! ## Plain results -/

namespace Job.Quiet

variable {surroundings : Surroundings} {job : Job} {scene : Scene}
  (calm : job.Quiet surroundings scene)

include calm

private theorem source : Plainly Report.message Bytes.Plain (scene.source job.script) := by
  unfold Scene.source
  split
  · unfold Source.ofStream
    cases failure : scene.input.failure with
    | none => exact .ok calm.bytes
    | some message => exact .error (calm.failure message failure)
  · have read := calm.files.read calm.script
    unfold Source.ofFile
    generalize scene.files.read job.script = content at read
    cases read with
    | error plainFault => exact .error plainFault
    | @ok text plainText =>
        apply Plainly.ok
        unfold Source.ofContent
        split
        · apply plainText.of_subset
          intro byte member
          exact (List.dropWhile_sublist _).subset (List.mem_of_mem_drop member)
        · exact plainText

private theorem written {code : Bytes} (plainCode : code.Plain) :
    Plainly Report.message FileTree.Plain (job.written surroundings scene.files code) := by
  unfold Job.written
  split
  · cases refusal : surroundings.refusal with
    | none => exact .ok calm.files
    | some message => exact .error (calm.refusal message refusal)
  · exact (calm.files.write calm.options.output plainCode).mapError fun _ => rfl

private theorem streamFailure {input : Input} (same : input.failure = scene.input.failure)
    (out : Bytes) :
    ∀ failure ∈ World.streamFailure? surroundings input out, failure.message.Plain := by
  have plainFailure : ∀ message ∈ input.copyFailure?, message.Plain := by
    intro message failed
    apply calm.failure
    rw [← same]
    exact (Input.copyFailure?_eq_some_iff.mp failed).2
  have plainRefusal := calm.refusal
  unfold World.streamFailure?
  generalize input.copyFailure? = failure at plainFailure
  generalize surroundings.refusal = refusal at plainRefusal
  cases failure with
  | some message =>
      rintro _ ⟨⟩
      exact plainFailure message rfl
  | none =>
      cases refusal with
      | none => rintro _ ⟨⟩
      | some message =>
          dsimp only
          split
          · rintro _ ⟨⟩
          · rintro _ ⟨⟩
            exact plainRefusal message rfl

private theorem evaluated {after : Scene} (same : after.input.failure = scene.input.failure) :
    Plainly Report.message (fun _ => True) (after.evaluated surroundings job.call) := by
  have ofRun : ∀ failure ∈ (job.evaluation surroundings after).failure, failure.message.Plain :=
    Evaluator.plain_failure calm.options.evaluator
  have ofStream := calm.streamFailure same (job.evaluation surroundings after).out
  unfold Scene.evaluated
  dsimp only
  split
  · rename_i failure failed
    apply Plainly.error
    apply Evaluator.plain_report calm.options.evaluator calm.options.output
    change ((job.evaluation surroundings after).failure <|> _) = some failure at failed
    cases isFailure : (job.evaluation surroundings after).failure with
    | some other =>
        rw [isFailure] at failed
        cases failed
        exact ofRun failure isFailure
    | none =>
        rw [isFailure] at failed
        exact ofStream failure failed
  · exact .ok trivial

end Job.Quiet

/-! ## Whole jobs -/

section Whole

variable {quiet : Prop} {surroundings : Surroundings} {job : Job} {scene : Scene}

private theorem exists_ends_of_code (calm : quiet → job.Quiet surroundings scene) {code : Bytes}
    (hasCode : job.HasCode scene code) (plainCode : quiet → code.Plain) :
    ∃ result after,
      job.Ends surroundings scene result after.files ∧
      Yields quiet
        (fun colours => ExceptT.run do
          (job.coloured colours).writeCode (Console.virtual surroundings) code
          if job.options.run = true then
            (job.coloured colours).runCode (Console.virtual surroundings)
          else
            pure ())
        (scene.past job.script) result after ∧
      (quiet → after.files.Plain ∧ Plainly Report.message (fun _ => True) result) := by
  have plainWritten (holds : quiet) := (calm holds).written (plainCode holds)
  have writes :
      Places quiet
        (fun colours => ((job.coloured colours).writeCode (Console.virtual surroundings) code).run)
        (scene.past job.script) (job.written surroundings (scene.past job.script).files code) :=
    places_writeCode job _ plainCode fun holds => (calm holds).options.output
  rw [scene.files_past] at writes
  cases placed : job.written surroundings scene.files code with
  | error report =>
      rw [placed] at plainWritten writes
      refine ⟨_, scene.past job.script, ?_, Yields.stop writes, ?_⟩
      · rw [scene.files_past]
        exact .unwritten hasCode placed
      · intro holds
        rw [scene.files_past]
        exact ⟨(calm holds).files, .error (plainWritten holds).of_error⟩
  | ok files =>
      rw [placed] at plainWritten writes
      have plainFiles (holds : quiet) := (plainWritten holds).of_ok
      by_cases runs : job.options.run = true
      · simp only [runs, if_true]
        by_cases toOutput : job.toOutput = true
        · refine ⟨_, ⟨files, _⟩, .unrunnable hasCode placed runs toOutput,
            Yields.next writes (yields_runCode_of_toOutput job _ toOutput), ?_⟩
          intro holds
          exact ⟨plainFiles holds, .error (by decide)⟩
        · rw [Bool.not_eq_true] at toOutput
          have plainRun (holds : quiet) :=
            (calm holds).evaluation _ ⟨code, files, hasCode, placed, runs, toOutput, rfl⟩
          refine ⟨_, ⟨files, _⟩, .ran hasCode placed runs toOutput,
            Yields.next writes (yields_runCode job _ toOutput plainRun), ?_⟩
          intro holds
          exact ⟨plainFiles holds, (calm holds).evaluated (scene.failure_past job.script)⟩
      · rw [Bool.not_eq_true] at runs
        simp only [runs]
        refine ⟨_, ⟨files, _⟩, .written hasCode placed runs, Yields.next writes (yields_pure _ _), ?_⟩
        intro holds
        exact ⟨plainFiles holds, .ok trivial⟩

/-- The steps of a job come to one of its ends. -/
theorem exists_ends (calm : quiet → job.Quiet surroundings scene) :
    ∃ result after,
      job.Ends surroundings scene result after.files ∧
      Yields quiet
        (fun colours => ((job.coloured colours).steps (Console.virtual surroundings)).run)
        scene result after ∧
      (quiet → after.files.Plain ∧ Plainly Report.message (fun _ => True) result) := by
  have begun :
      Yields quiet
        (fun colours => ((job.coloured colours).tell (Console.virtual surroundings) .blue
          (utf8 "🔮 TriforceScript Compiler")).run)
        scene (.ok ()) scene :=
    yields_tell job scene .blue fun _ => by decide
  have read :
      Yields quiet
        (fun colours => ((job.coloured colours).readSource (Console.virtual surroundings)).run)
        scene (scene.source job.script) (scene.past job.script) :=
    yields_readSource job scene
  have plainRead (holds : quiet) := (calm holds).source
  -- A step that fails before the code is written leaves the files as they were found.
  have keeps (holds : quiet) : (scene.past job.script).files.Plain := by
    rw [scene.files_past]
    exact (calm holds).files
  unfold Job.steps
  cases sourced : scene.source job.script with
  | error report =>
      rw [sourced] at read plainRead
      refine ⟨_, scene.past job.script, ?_, begun.next read.stop, ?_⟩
      · rw [scene.files_past]
        exact .unread sourced
      · intro holds
        exact ⟨keeps holds, .error (plainRead holds).of_error⟩
  | ok source =>
      rw [sourced] at read plainRead
      have plainSource (holds : quiet) := (plainRead holds).of_ok
      have translated :
          Yields quiet
            (fun colours =>
              ((job.coloured colours).compileSource (Console.virtual surroundings) source).run)
            (scene.past job.script) ((compile source).result.mapError Report.ofFault)
            (scene.past job.script) :=
        yields_compileSource job _ plainSource
      have plainly (holds : quiet) := (plainly_compile (plainSource holds)).2
      cases compiled : (compile source).result with
      | error fault =>
          rw [compiled] at translated plainly
          have failed : compileText source = .error fault := by
            rw [compileText, compiled]
            rfl
          refine ⟨_, scene.past job.script, ?_, begun.next (read.next translated.stop), ?_⟩
          · rw [scene.files_past]
            exact .uncompiled sourced failed
          · intro holds
            exact ⟨keeps holds, .error (plainly holds).of_error⟩
      | ok compilation =>
          rw [compiled] at translated plainly
          have hasCode : job.HasCode scene compilation.code := by
            refine ⟨source, sourced, ?_⟩
            rw [compileText, compiled]
            rfl
          obtain ⟨result, after, ends, yields, plain⟩ :=
            exists_ends_of_code calm hasCode fun holds => (plainly holds).of_ok.code
          exact ⟨result, after, ends, begun.next (read.next (translated.next yields)), plain⟩

/-- The status that a job gives for what came of its steps. -/
def statusOf : Except Report Unit → Nat
  | .ok _ => 0
  | .error _ => 1

/-- A job gives its status with colours and without, and all that it tells is painted at most. -/
theorem exists_compile (calm : quiet → job.Quiet surroundings scene) :
    ∃ result after,
      job.Ends surroundings scene result after.files ∧
      Yields quiet (fun colours => (job.coloured colours).compile (Console.virtual surroundings))
        scene (statusOf result) after ∧
      (quiet → after.files.Plain) := by
  obtain ⟨result, after, ends, yields, plain⟩ := exists_ends calm
  refine ⟨result, after, ends, ?_, fun holds => (plain holds).1⟩
  have plainResult (holds : quiet) := (plain holds).2
  unfold Job.compile
  apply yields.bind
  cases result with
  | ok done =>
      exact yields_pure after 0
  | error report =>
      have headline :
          Yields quiet
            (fun colours => (Console.virtual surroundings).say .err
              (Colour.red.paintLine colours (utf8 "❌ Compilation error:")))
            after () after :=
        yields_say after .err fun _ => faithful_paintLine .red (by decide)
      have reported :
          Yields quiet
            (fun colours => (Console.virtual surroundings).say .err
              (Colour.red.paintLine colours (utf8 "triforce: " ++ report.message)))
            after () after := by
        apply yields_say after .err
        intro holds
        have plainReport := (plainResult holds).of_error
        exact faithful_paintLine .red (by simp +decide [plainReport])
      exact headline.bind (reported.bind (yields_pure after 1))

end Whole

end Command

end TriforceScript
