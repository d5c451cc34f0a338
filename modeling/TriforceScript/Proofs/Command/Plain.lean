import TriforceScript.Command
import TriforceScript.Proofs.Files.Writing
import TriforceScript.Proofs.Text.Plain

/-!
# Plain arguments and files

Options that come from plain arguments are plain, and so are the faults of arguments, of files
and of evaluators.  A file tree with plain files keeps them when a plain one is written.
-/

namespace TriforceScript

/-! ## Files -/

namespace FileTree

/-- Whether all files are plain.  Their names do not matter. -/
def Plain (tree : FileTree) : Prop :=
  ∀ location content, tree.find? location = some (.file content) → content.Plain

private theorem Cause.plain_message (cause : Cause) : cause.message.Plain := by
  cases cause <;> decide

private theorem Fault.plain_message {fault : Fault} (plainName : fault.name.Plain) :
    fault.message.Plain := by
  have plainAction : fault.action.message.Plain := by
    cases fault.action <;> decide
  simp +decide [message, plainAction, plainName, Cause.plain_message]

private theorem exists_find?_of_lookup {tree : FileTree} {name : Bytes} {entry : Entry}
    (found : tree.lookup name = .ok entry) : ∃ location, tree.find? location = some entry := by
  unfold lookup at found
  split at found
  · cases found
  · cases followed : tree.follow (tree.base name) (Path.components name) with
    | error cause =>
        rw [followed] at found
        cases found
    | ok location =>
        rw [followed] at found
        dsimp only [bind, Except.bind] at found
        split at found
        · cases found
        · rename_i there isThere
          cases found
          exact ⟨location, isThere⟩

theorem Plain.read {tree : FileTree} {name : Bytes} (plain : tree.Plain) (plainName : name.Plain) :
    Plainly Fault.message Bytes.Plain (tree.read name) := by
  unfold FileTree.read
  split
  · exact .error (Fault.plain_message plainName)
  · exact .error (Fault.plain_message plainName)
  · rename_i content found
    obtain ⟨location, isThere⟩ := exists_find?_of_lookup found
    exact .ok (plain location content isThere)
  · exact .ok Bytes.plain_nil

private theorem Plain.put {tree : FileTree} {location : Location} {content : Bytes}
    (plain : tree.Plain)
    (plainContent : content.Plain) : (tree.put location (.file content)).Plain := by
  intro other there found
  by_cases same : other = location
  · by_cases atRoot : location = []
    · rw [same, atRoot, find?, if_pos rfl] at found
      cases found
    · rw [same, tree.find?_put_self _ atRoot] at found
      cases found
      exact plainContent
  · rw [tree.find?_put_of_ne _ same] at found
    exact plain other there found

theorem Plain.write {tree : FileTree} {name content : Bytes} (plain : tree.Plain)
    (plainName : name.Plain) (plainContent : content.Plain) :
    Plainly Fault.message Plain (tree.write name content) := by
  unfold FileTree.write
  split
  · exact .error (Fault.plain_message plainName)
  · split
    · exact .ok plain
    · exact .ok (plain.put plainContent)

end FileTree

/-! ## Evaluators -/

namespace Evaluator

theorem plain_command {wish : Option Bytes} (plain : ∀ text ∈ wish, text.Plain) :
    (command wish).Plain := by
  have wanted : (Bytes.trim (wish.getD [])).Plain := by
    cases wish with
    | none => exact Bytes.Plain.trim Bytes.plain_nil
    | some text => exact Bytes.Plain.trim (plain text rfl)
  unfold command
  dsimp only
  split
  · decide
  · exact wanted

private theorem Call.plain_program {call : Call} (plain : call.command.Plain) :
    call.program.Plain := by
  unfold Call.program
  cases fields : call.command.fields with
  | nil => decide
  | cons first rest =>
      have member : first ∈ call.command.fields := by
        rw [fields]
        exact List.mem_cons_self
      exact plain.of_mem_fields member

private theorem Programs.plain_of_find? {programs : Programs} {name path : Bytes}
    (plain : name.Plain) (found : programs.find? name = some path) : path.Plain := by
  obtain ⟨-, isPath⟩ := Option.ite_none_right_eq_some.mp found
  cases isPath
  exact Bytes.plain_append.mpr ⟨by decide, plain⟩

private theorem plainly_locate (programs : Programs) {name : Bytes} (plain : name.Plain) :
    Plainly Failure.message Bytes.Plain (locate programs name) := by
  unfold locate
  split
  · exact .error (by simp +decide [Failure.message])
  split
  · exact .ok plain
  cases found : programs.find? name with
  | some path => exact .ok (Programs.plain_of_find? plain found)
  | none => exact .error (by simp +decide [Failure.message])

private theorem Refusal.plain_message (refusal : Refusal) : refusal.message.Plain := by
  cases refusal with
  | file cause => exact cause.plain_message
  | invalidArgument | longArgument => decide

/-- The failure of a script is told in plain words if the evaluator's name is plain. -/
theorem plain_failure {programs : Programs} {files : FileTree} {input : Bytes} {call : Call}
    (plain : call.command.Plain) :
    ∀ failure ∈ (run programs false files input call).failure, failure.message.Plain := by
  have located := plainly_locate programs (Call.plain_program plain)
  unfold run
  generalize locate programs call.program = path at located
  cases located with
  | error plainFailure =>
      rintro failure ⟨⟩
      exact plainFailure
  | ok plainPath =>
      dsimp only
      rw [if_neg (by decide)]
      split
      · rintro failure ⟨⟩
        simp +decide [Failure.message, plainPath, Refusal.plain_message]
      · dsimp only
        split
        · rintro failure ⟨⟩
        · rintro failure ⟨⟩
          simp +decide [Failure.message]

theorem plain_report {call : Call} {failure : Failure} (plain : call.command.Plain)
    (plainScript : call.script.Plain) (plainFailure : failure.message.Plain) :
    (report call failure).message.Plain := by
  simp +decide [report, Report.message, Call.plain_program plain, plainScript, plainFailure]

end Evaluator

/-! ## Arguments -/

namespace Command

structure Options.Plain (options : Options) : Prop where
  output : options.output.Plain
  evaluator : options.evaluator.Plain

structure Invocation.Plain (invocation : Invocation) : Prop where
  options : invocation.options.Plain
  operands : ∀ operand ∈ invocation.operands, operand.Plain

/-- Whether what follows a flag keeps options plain. -/
def Flag.Setter.Keeps : Flag.Setter → Prop
  | .switch set => ∀ options value, options.Plain → (set options value).Plain
  | .text set _ => ∀ options value, options.Plain → value.Plain → (set options value).Plain

private theorem Flag.Setter.keeps {name : Bytes} {setter : Setter}
    (found : (find? name).map Flag.setter = some setter) : setter.Keeps := by
  have all : ∀ flag ∈ Flag.all, flag.setter.Keeps := by
    simp only [Flag.all, setOutput, setVerbose, List.forall_mem_cons]
    exact ⟨fun _ _ plain => ⟨plain.output, plain.evaluator⟩,
      fun _ _ plain plainValue => ⟨plain.output, plainValue⟩,
      fun _ _ plain plainValue => ⟨plainValue, plain.evaluator⟩,
      fun _ _ plain plainValue => ⟨plainValue, plain.evaluator⟩,
      fun _ _ plain => ⟨plain.output, plain.evaluator⟩,
      fun _ _ plain => ⟨plain.output, plain.evaluator⟩,
      fun _ _ plain => ⟨plain.output, plain.evaluator⟩,
      fun _ _ plain => ⟨plain.output, plain.evaluator⟩, List.forall_mem_nil _⟩
  obtain ⟨flag, isFlag, rfl⟩ := Option.map_eq_some_iff.mp found
  exact all flag (List.mem_of_find?_eq_some isFlag)

private theorem Argument.plain_ofBody {body name : Bytes} {value : Option Bytes}
    (plain : body.Plain)
    (isFlag : ofBody body = .flag name value) : name.Plain ∧ ∀ text ∈ value, text.Plain := by
  unfold ofBody at isFlag
  split at isFlag
  · cases isFlag
  · cases isFlag
    refine ⟨plain.of_subset (List.takeWhile_sublist _).subset, ?_⟩
    split
    · rintro text ⟨⟩
      apply plain.of_subset
      intro byte member
      exact (List.dropWhile_sublist _).subset (List.mem_of_mem_drop member)
    · rintro text ⟨⟩

private theorem Argument.plain_ofBytes {argument name : Bytes} {value : Option Bytes}
    (plain : argument.Plain) (isFlag : ofBytes argument = .flag name value) :
    name.Plain ∧ ∀ text ∈ value, text.Plain := by
  unfold ofBytes at isFlag
  split at isFlag
  · rename_i first second rest
    rw [Bytes.plain_cons, Bytes.plain_cons] at plain
    split at isFlag
    · cases isFlag
    split at isFlag
    · exact plain_ofBody (Bytes.plain_cons.mpr plain.2) isFlag
    split at isFlag
    · cases isFlag
    · exact plain_ofBody plain.2.2 isFlag
  · cases isFlag

theorem plainly_readFlags {options : Options} {arguments : List Bytes} (plainOptions : options.Plain)
    (plain : ∀ argument ∈ arguments, argument.Plain) :
    Plainly FlagFault.message Invocation.Plain (readFlags options arguments) := by
  fun_induction readFlags options arguments with
  | case1 options =>
      exact .ok ⟨plainOptions, plain⟩
  | case2 options argument rest isOperand =>
      exact .ok ⟨plainOptions, plain⟩
  | case3 options argument rest isDivider =>
      exact .ok ⟨plainOptions, (List.forall_mem_cons.mp plain).2⟩
  | case4 options argument rest isBad =>
      have plainArgument := (List.forall_mem_cons.mp plain).1
      exact .error (by simp +decide [FlagFault.message, plainArgument])
  | case5 options argument rest name value isFlag unknown =>
      obtain ⟨plainName, -⟩ := Argument.plain_ofBytes (List.forall_mem_cons.mp plain).1 isFlag
      apply Plainly.error
      unfold FlagFault.ofUndefined
      split
      · exact Bytes.plain_nil
      · simp +decide [FlagFault.message, plainName]
  | case6 options argument rest name set isSetter isFlag inductionHypothesis =>
      have keeps := Flag.Setter.keeps isSetter
      exact inductionHypothesis (keeps options true plainOptions) (List.forall_mem_cons.mp plain).2
  | case7 options argument rest name set isSetter value truth isTruth isFlag inductionHypothesis =>
      have keeps := Flag.Setter.keeps isSetter
      exact inductionHypothesis (keeps options truth plainOptions) (List.forall_mem_cons.mp plain).2
  | case8 options argument rest name set isSetter value noTruth isFlag =>
      obtain ⟨plainName, -⟩ := Argument.plain_ofBytes (List.forall_mem_cons.mp plain).1 isFlag
      exact .error (by simp +decide [FlagFault.message, plainName])
  | case9 options argument rest name set current isSetter value isFlag inductionHypothesis =>
      have keeps := Flag.Setter.keeps isSetter
      obtain ⟨plainArgument, plainRest⟩ := List.forall_mem_cons.mp plain
      obtain ⟨-, plainValue⟩ := Argument.plain_ofBytes plainArgument isFlag
      exact inductionHypothesis (keeps options value plainOptions (plainValue value rfl)) plainRest
  | case10 options argument name set current isSetter isFlag =>
      obtain ⟨plainName, -⟩ := Argument.plain_ofBytes (List.forall_mem_cons.mp plain).1 isFlag
      exact .error (by simp +decide [FlagFault.message, plainName])
  | case11 options argument name set current isSetter value rest isFlag inductionHypothesis =>
      have keeps := Flag.Setter.keeps isSetter
      obtain ⟨plainValue, plainRest⟩ :=
        List.forall_mem_cons.mp (List.forall_mem_cons.mp plain).2
      exact inductionHypothesis (keeps options value plainOptions plainValue) plainRest

theorem plain_usage (defaults : Options) : (usage defaults).Plain := by
  have flags : ∀ flag ∈ Flag.all, flag.name.Plain ∧ flag.help.Plain := by
    decide +kernel
  have usages : ∀ flag ∈ Flag.all, (Flag.usage defaults flag).Plain := by
    intro flag member
    obtain ⟨plainName, plainHelp⟩ := flags flag member
    unfold Flag.usage
    split
    · split <;> simp +decide [plainName, plainHelp]
    · split <;> simp +decide [plainName, plainHelp]
  simpa +decide [usage] using usages

end Command

end TriforceScript
