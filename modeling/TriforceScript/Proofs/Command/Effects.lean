import TriforceScript.Command
import TriforceScript.Proofs.Text.Plain

/-!
# Effects

What a step of a command does, apart from colours: the result that it gives, what it leaves of
the files and the input, and what it adds to the two streams.  Only the last may depend on
colours.  If nothing but plain texts is told, it depends on them by escape sequences alone.
-/

namespace TriforceScript

namespace Command

/-- The files and the input, without what has been written. -/
structure Scene where
  files : FileTree
  input : Input

def Scene.world (scene : Scene) (out err : Bytes) : World :=
  ⟨scene.files, scene.input, out, err⟩

/-! ## Texts with and without colours -/

/-- Whether a text without colours is what the text with colours shows. -/
def Faithful (text : Bool → Bytes) : Prop :=
  ∀ colours, Colour.Shows (text colours) (text false)

theorem faithful_of_plain {text : Bytes} (plain : text.Plain) : Faithful fun _ => text :=
  fun _ => Colour.shows_of_plain plain

theorem faithful_paint (colour : Colour) {text : Bytes} (plain : text.Plain) :
    Faithful fun colours => colour.paint colours text :=
  Colour.shows_paint plain colour

theorem faithful_paintLine (colour : Colour) {text : Bytes} (plain : text.Plain) :
    Faithful fun colours => colour.paintLine colours text :=
  Colour.shows_paintLine plain colour

private theorem Faithful.append {first second : Bool → Bytes} (faithful : Faithful first)
    (more : Faithful second) : Faithful fun colours => first colours ++ second colours :=
  fun colours => (faithful colours).append (more colours)

theorem faithful_flatMap {Item : Type} {items : List Item} {write : Bool → Item → Bytes}
    (faithful : ∀ item ∈ items, Faithful fun colours => write colours item) :
    Faithful fun colours => items.flatMap (write colours) := by
  induction items with
  | nil =>
      exact faithful_of_plain Bytes.plain_nil
  | cons item rest inductionHypothesis =>
      obtain ⟨first, others⟩ := List.forall_mem_cons.mp faithful
      exact first.append (inductionHypothesis others)

/-! ## Steps -/

/-- `Yields quiet step before result after` means that `step` gives `result` and takes the scene
from `before` to `after`, with colours and without.  If `quiet` holds, then the texts that it
adds to the streams differ in escape sequences only. -/
def Yields (quiet : Prop) {Value : Type} (step : Bool → StateM World Value) (before : Scene)
    (result : Value) (after : Scene) : Prop :=
  ∃ out err : Bool → Bytes,
    (∀ colours earlierOut earlierErr,
      (step colours).run (before.world earlierOut earlierErr) =
        (result, after.world (earlierOut ++ out colours) (earlierErr ++ err colours))) ∧
    (quiet → Faithful out ∧ Faithful err)

section Rules

variable {quiet : Prop} {First Second : Type} {before middle after : Scene}

theorem Yields.congr {step other : Bool → StateM World First} {result : First}
    (yields : Yields quiet step before result after)
    (same : ∀ colours out err,
      (other colours).run (before.world out err) = (step colours).run (before.world out err)) :
    Yields quiet other before result after := by
  obtain ⟨out, err, steps, faithful⟩ := yields
  refine ⟨out, err, ?_, faithful⟩
  intro colours earlierOut earlierErr
  rw [same, steps]

theorem yields_silent {step : Bool → StateM World First} {result : First}
    (steps : ∀ colours out err,
      (step colours).run (before.world out err) = (result, after.world out err)) :
    Yields quiet step before result after := by
  have nothing : Faithful fun _ => [] := faithful_of_plain Bytes.plain_nil
  refine ⟨fun _ => [], fun _ => [], ?_, fun _ => ⟨nothing, nothing⟩⟩
  intro colours out err
  rw [steps, List.append_nil, List.append_nil]

theorem yields_pure (scene : Scene) (result : First) :
    Yields quiet (fun _ => pure result) scene result scene :=
  yields_silent fun _ _ _ => rfl

theorem Yields.bind {first : Bool → StateM World First}
    {second : First → Bool → StateM World Second} {value : First} {result : Second}
    (firstly : Yields quiet first before value middle)
    (next : Yields quiet (second value) middle result after) :
    Yields quiet (fun colours => first colours >>= fun value => second value colours)
      before result after := by
  obtain ⟨out, err, steps, faithful⟩ := firstly
  obtain ⟨moreOut, moreErr, moreSteps, moreFaithful⟩ := next
  refine ⟨fun colours => out colours ++ moreOut colours,
    fun colours => err colours ++ moreErr colours, ?_, ?_⟩
  · intro colours earlierOut earlierErr
    rw [StateT.run_bind, steps]
    show (second value colours).run _ = _
    rw [moreSteps, List.append_assoc, List.append_assoc]
  · intro holds
    exact ⟨(faithful holds).1.append (moreFaithful holds).1,
      (faithful holds).2.append (moreFaithful holds).2⟩

/-! ### Steps that may fail -/

theorem Yields.next {first : Bool → ExceptT Report (StateM World) First}
    {second : First → Bool → ExceptT Report (StateM World) Second} {value : First}
    {result : Except Report Second}
    (firstly : Yields quiet (fun colours => (first colours).run) before (.ok value) middle)
    (next : Yields quiet (fun colours => (second value colours).run) middle result after) :
    Yields quiet (fun colours => (first colours >>= fun value => second value colours).run)
      before result after := by
  simp only [ExceptT.run_bind]
  exact Yields.bind firstly next

/-- A step that fails is the last one. -/
theorem Yields.stop {first : Bool → ExceptT Report (StateM World) First}
    {second : First → Bool → ExceptT Report (StateM World) Second} {report : Report}
    (fails : Yields quiet (fun colours => (first colours).run) before (.error report) after) :
    Yields quiet (fun colours => (first colours >>= fun value => second value colours).run)
      before (.error report) after := by
  simp only [ExceptT.run_bind]
  exact Yields.bind fails (yields_pure after _)

theorem Yields.lift {step : Bool → StateM World First} {value : First}
    (yields : Yields quiet step before value after) :
    Yields quiet
      (fun colours => (ExceptT.lift (step colours) : ExceptT Report (StateM World) First).run)
      before (.ok value) after := by
  have wrapped :
      Yields quiet (fun colours => step colours >>= fun value => pure (Except.ok value))
        before (Except.ok value : Except Report First) after :=
    yields.bind (yields_pure after _)
  exact wrapped.congr fun _ _ _ => rfl

end Rules

/-! ## The console -/

section Console

variable {quiet : Prop} {surroundings : Surroundings} (scene : Scene)

theorem yields_say (stream : Stream) {text : Bool → Bytes} (faithful : quiet → Faithful text) :
    Yields quiet (fun colours => (Console.virtual surroundings).say stream (text colours))
      scene () scene := by
  have nothing : Faithful fun _ => [] := faithful_of_plain Bytes.plain_nil
  cases stream with
  | err =>
      refine ⟨fun _ => [], text, ?_, fun holds => ⟨nothing, faithful holds⟩⟩
      intro colours out err
      rw [List.append_nil]
      rfl
  | out =>
      by_cases refused : surroundings.refusal.isSome = true
      · apply yields_silent
        intro colours out err
        show ((), World.write surroundings .out (text colours) _) = _
        rw [World.write, if_pos refused]
      · refine ⟨text, fun _ => [], ?_, fun holds => ⟨faithful holds, nothing⟩⟩
        intro colours out err
        show ((), World.write surroundings .out (text colours) _) = _
        rw [World.write, if_neg refused, List.append_nil]
        rfl

/-- A text for each stream, one after the other. -/
theorem yields_both {out err : Bytes} (plain : quiet → out.Plain ∧ err.Plain)
    {Value : Type} (result : Value) :
    Yields quiet
      (fun _ => do
        (Console.virtual surroundings).say .out out
        (Console.virtual surroundings).say .err err
        return result)
      scene result scene := by
  have sayOut : Yields quiet (fun _ => (Console.virtual surroundings).say .out out) scene () scene :=
    yields_say scene .out fun holds => faithful_of_plain (plain holds).1
  have sayErr : Yields quiet (fun _ => (Console.virtual surroundings).say .err err) scene () scene :=
    yields_say scene .err fun holds => faithful_of_plain (plain holds).2
  exact sayOut.bind (sayErr.bind (yields_pure scene result))

theorem yields_readInput :
    Yields quiet (fun _ => (Console.virtual surroundings).readInput) scene
      (Source.ofStream scene.input.bytes scene.input.failure)
      { scene with input := { scene.input with bytes := [] } } := by
  apply yields_silent
  intro _ out err
  obtain ⟨files, source, bytes, failure⟩ := scene
  cases failure with
  | none => rfl
  | some message => rfl

theorem yields_readFile (name : Bytes) :
    Yields quiet (fun _ => (Console.virtual surroundings).readFile name) scene
      ((scene.files.read name).mapError fun fault => .outside fault.message) scene :=
  yields_silent fun _ _ _ => rfl

/-- `Places quiet step scene placed` means that `step` puts something in its place: it leaves the
files `placed`, or it fails and leaves everything as it was. -/
def Places (quiet : Prop) (step : Bool → StateM World (Except Report Unit)) (scene : Scene) :
    Except Report FileTree → Prop
  | .ok files => Yields quiet step scene (.ok ()) { scene with files }
  | .error report => Yields quiet step scene (.error report) scene

theorem places_deliver {code : Bytes} (plain : quiet → code.Plain) :
    Places quiet (fun _ => (Console.virtual surroundings).deliver code) scene
      (match surroundings.refusal with
        | some message => .error (.outside message)
        | none => .ok scene.files) := by
  obtain ⟨programs, refusal⟩ := surroundings
  cases refusal with
  | some message =>
      exact yields_silent fun _ _ _ => rfl
  | none =>
      have said :
          Yields quiet (fun _ => (Console.virtual ⟨programs, none⟩).say .out code) scene () scene :=
        yields_say scene .out fun holds => faithful_of_plain (plain holds)
      exact said.lift.congr fun _ _ _ => rfl

theorem places_writeFile (name content : Bytes) :
    Places quiet (fun _ => (Console.virtual surroundings).writeFile name content) scene
      ((scene.files.write name content).mapError fun fault => .outside fault.message) := by
  cases written : scene.files.write name content with
  | error fault =>
      apply yields_silent
      intro _ out err
      simp only [Console.virtual, Scene.world, StateT.run, written]
  | ok files =>
      apply yields_silent
      intro _ out err
      simp only [Console.virtual, Scene.world, StateT.run, written]

/-- What comes of running a script, as far as failures go. -/
def Scene.evaluated (scene : Scene) (surroundings : Surroundings) (call : Evaluator.Call) :
    Except Report Unit :=
  let run := Evaluator.run surroundings.programs false scene.files scene.input.bytes call
  match run.failure <|> World.streamFailure? surroundings scene.input run.out with
  | some failure => .error (Evaluator.report call failure)
  | none => .ok ()

theorem yields_evaluate {call : Evaluator.Call}
    (plain : quiet →
      (Evaluator.run surroundings.programs false scene.files scene.input.bytes call).out.Plain ∧
      (Evaluator.run surroundings.programs false scene.files scene.input.bytes call).err.Plain) :
    Yields quiet (fun _ => (Console.virtual surroundings).evaluate call) scene
      (scene.evaluated surroundings call) scene := by
  generalize isRun :
    Evaluator.run surroundings.programs false scene.files scene.input.bytes call = run at plain
  have told :
      Yields quiet
        (fun _ => do
          (Console.virtual surroundings).say .out run.out
          (Console.virtual surroundings).say .err run.err
          return scene.evaluated surroundings call)
        scene (scene.evaluated surroundings call) scene :=
    yields_both scene plain _
  apply told.congr
  intro _ out err
  show World.evaluate surroundings call (scene.world out err) =
    (scene.evaluated surroundings call,
      ((scene.world out err).write surroundings .out run.out).write surroundings .err run.err)
  unfold World.evaluate Scene.evaluated
  dsimp only [Scene.world]
  rw [isRun]
  generalize (run.failure <|> World.streamFailure? surroundings scene.input run.out) = failure
  cases failure with
  | none => rfl
  | some cause => rfl

end Console

end Command

end TriforceScript
