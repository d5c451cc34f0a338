import TriforceScript.Proofs.Command.Output

/-!
# Runs with and without colours

A run that turns colours off turns them off for all later runs.  Whether they were on at the
beginning can be seen from escape sequences only, in every run of a sequence.
-/

namespace TriforceScript

namespace Command

/-- The runs of a sequence: the state that each of them finds, and its request. -/
def encounters (environment : Environment) (state : State) (requests : List Request) :
    List (State × Request) :=
  (state :: (runAll environment state requests).map Prod.snd).zip requests

theorem encounters_cons (environment : Environment) (state : State) (request : Request)
    (requests : List Request) :
    encounters environment state (request :: requests) =
      (state, request) :: encounters environment (run environment state request).2 requests := rfl

/-- Whether two runs give the same but for escape sequences, which only the first one has. -/
structure Recolours (coloured plain : Outcome × State) : Prop where
  status : coloured.1.status = plain.1.status
  files : coloured.2.files = plain.2.files
  out : Colour.strip coloured.1.out = plain.1.out
  err : Colour.strip coloured.1.err = plain.1.err

/-- Whether every evaluator that is started in a sequence of runs writes plain texts only. -/
def PlainlyEvaluated (environment : Environment) (state : State) (requests : List Request) : Prop :=
  ∀ found request, (found, request) ∈ encounters environment state requests →
    ∀ job run, Asks environment request job →
      job.Evaluates (request.surroundings environment) (request.scene found.files) run →
      run.out.Plain ∧ run.err.Plain

private theorem exists_recolours {environment : Environment} {files : FileTree} {request : Request}
    (calm : Quiet environment files request)
    (piped : request.input.source.isInteractive = false) (colours : Bool) :
    ∃ after last,
      Recolours (run environment ⟨colours, files⟩ request)
        (run environment ⟨false, files⟩ request) ∧
      (run environment ⟨colours, files⟩ request).2 = ⟨last, after⟩ ∧
      (run environment ⟨false, files⟩ request).2 = ⟨false, after⟩ ∧
      after.Plain := by
  have quiet : True → Quiet environment files request := fun _ => calm
  obtain ⟨status, after, out, err, last, -, ran, lastFalse, plain⟩ := exists_run quiet piped
  obtain ⟨plainAfter, faithfulOut, faithfulErr⟩ := plain trivial
  have coloured := ran colours
  have uncoloured := ran false
  rw [lastFalse] at uncoloured
  rw [coloured, uncoloured]
  exact ⟨after, last colours,
    ⟨rfl, rfl, (faithfulOut (last colours)).strip_eq, (faithfulErr (last colours)).strip_eq⟩,
    rfl, rfl, plainAfter⟩

/-- Whether colours are on at the beginning of a sequence of runs makes no difference to the
statuses and the files, and none but escape sequences to what is written. -/
theorem strip_runAll (environment : Environment) (files : FileTree) (requests : List Request)
    (colours : Bool) (plainEvaluator : ∀ text ∈ environment.evaluator, text.Plain)
    (plainFiles : files.Plain) (plainRequests : ∀ request ∈ requests, request.Plain)
    (piped : ∀ request ∈ requests, request.input.source.isInteractive = false)
    (evaluated : PlainlyEvaluated environment ⟨colours, files⟩ requests) :
    List.Forall₂ Recolours (runAll environment ⟨colours, files⟩ requests)
      (runAll environment ⟨false, files⟩ requests) := by
  induction requests generalizing files colours with
  | nil =>
      exact .nil
  | cons request rest inductionHypothesis =>
      obtain ⟨plainRequest, plainRest⟩ := List.forall_mem_cons.mp plainRequests
      obtain ⟨pipedRequest, pipedRest⟩ := List.forall_mem_cons.mp piped
      have calm : Quiet environment files request :=
        ⟨plainEvaluator, plainFiles, plainRequest,
          evaluated ⟨colours, files⟩ request List.mem_cons_self⟩
      obtain ⟨after, last, recolours, coloured, uncoloured, plainAfter⟩ :=
        exists_recolours calm pipedRequest colours
      -- The later runs find the same files, whatever has become of the colours.
      have evaluatedRest : PlainlyEvaluated environment ⟨last, after⟩ rest := by
        intro found other member
        apply evaluated found other
        rw [encounters_cons, coloured]
        exact List.mem_cons_of_mem _ member
      rw [runAll, runAll, coloured, uncoloured]
      exact .cons recolours
        (inductionHypothesis after last plainAfter plainRest pipedRest evaluatedRest)

/-- A job whose code is shown by its evaluator. -/
def showingJob : Job where
  options := { output := utf8 "a.js", verbose := true, run := true, evaluator := utf8 "cat" }
  colours := false
  script := utf8 "a.tri"
  arguments := []

def showingRequest : Request where
  arguments := ["-v", "-run", "-node", "cat", "-o", "a.js", "a.tri"].map utf8

/-- Requests of which none runs anything: to compile the code that has been written, and to hold a
session on an incomplete statement. -/
def stillRequests : List Request :=
  [{ arguments := ["-no-color", "-o", "-", "a.js"].map utf8 },
    { arguments := [], input := { bytes := utf8 "x -> " } }]

private theorem evaluated_showingRequest :
    PlainlyEvaluated {} ⟨true, assigningFiles⟩ (showingRequest :: stillRequests) := by
  have still :
      ∀ request ∈ stillRequests,
        ((readFlags ({} : Environment).defaults request.arguments).toOption.all
          fun invocation => !invocation.options.run) = true := by
    decide +kernel
  have asksShowing : Asks {} showingRequest showingJob :=
    ⟨by decide +kernel, rfl, rfl⟩
  have hasCode : showingJob.HasCode (showingRequest.scene assigningFiles) assigningCode :=
    ⟨utf8 "x -> \"a\"\n", by decide +kernel, by decide +kernel⟩
  have stored :
      showingJob.written (showingRequest.surroundings {}) assigningFiles assigningCode =
        .ok (assigningFiles.put [utf8 "a.js"] (.file assigningCode)) := by
    decide +kernel
  intro found request member job evaluation asks evaluates
  obtain ⟨code, files, hasOther, written, runs, -, rfl⟩ := evaluates
  rcases List.mem_cons.mp member with isFirst | isLater
  · cases isFirst
    cases asksShowing.unique asks
    cases hasCode.unique hasOther
    cases stored.symm.trans written
    decide +kernel
  · have silent := still request (List.of_mem_zip isLater).2
    rw [asks.flags] at silent
    simp [Except.toOption, runs] at silent

private theorem plain_assigningFiles : assigningFiles.Plain := by
  intro location content found
  unfold FileTree.find? at found
  split at found
  · cases found
  · have member := Lexeme.mem_of_lookup_eq_some found
    cases List.mem_singleton.mp member
    decide

theorem strip_runAll_showingRequest :
    (run {} ⟨true, assigningFiles⟩ showingRequest).1.out ≠
      (run {} ⟨false, assigningFiles⟩ showingRequest).1.out ∧
    List.Forall₂ Recolours
      (runAll {} ⟨true, assigningFiles⟩ (showingRequest :: stillRequests))
      (runAll {} ⟨false, assigningFiles⟩ (showingRequest :: stillRequests)) := by
  have nothing : ∀ text ∈ (none : Option Bytes), text.Plain := by
    rintro _ ⟨⟩
  have plainRequests : ∀ request ∈ showingRequest :: stillRequests, request.Plain := by
    simp only [stillRequests, List.forall_mem_cons]
    exact ⟨⟨by decide, by decide, nothing, nothing⟩, ⟨by decide, by decide, nothing, nothing⟩,
      ⟨by decide, by decide, nothing, nothing⟩, List.forall_mem_nil _⟩
  exact ⟨by decide +kernel,
    strip_runAll {} assigningFiles _ true nothing plain_assigningFiles plainRequests (by decide)
      evaluated_showingRequest⟩

end Command

end TriforceScript
