import Mathlib
import AlignedSlots.Log.Session
import AlignedSlots.Proofs.Program

/-!
# What a session writes

`LogStep.Effect` has the rules of the log, one for each way in which a step can go: what the step answers,
which lines it writes, and what it leaves of the state that its argument works on, given the level in force.
`LogStep.Transcript` is a session by these rules, where the level in force is the last one that was set.

The byte in which a log keeps its level does not occur in the rules.  `LogStep.run_effect` is where it is
decoded, once for all steps, and `LogStep.session_transcript` goes on from there by induction on the steps.
-/

namespace AlignedSlots

/-! ## The level in force -/

namespace Level

@[simp] theorem ofCode_code (level : Level) : ofCode level.code = level := by
  cases level <;> rfl

/-- Lines of the level are written while the other one is in force. -/
def Heard (level inForce : Level) : Prop := level ≠ off ∧ level ≤ inForce

instance (level inForce : Level) : Decidable (level.Heard inForce) :=
  inferInstanceAs (Decidable (_ ∧ _))

/-- A higher level in force silences no line. -/
theorem Heard.mono {level low high : Level} (h : level.Heard low) (hle : low ≤ high) :
    level.Heard high :=
  ⟨h.1, Nat.le_trans h.2 hle⟩

end Level

namespace Log

variable {ε ν : Type} {log : Log} {level : Level} {text : String}

@[simp] theorem ceiling_withCeiling : (log.withCeiling level).ceiling = level :=
  level.ofCode_code

@[simp] theorem ceiling_write : (log.write level text).ceiling = log.ceiling := rfl

@[simp] theorem lines_withCeiling : (log.withCeiling level).lines = log.lines := rfl

@[simp] theorem toList_lines_write :
    (log.write level text).lines.toList = log.lines.toList ++ [format level text] :=
  Array.toList_push

theorem admits_eq : log.admits level = decide (level.Heard log.ceiling) := by
  rw [Bool.eq_iff_iff, decide_eq_true_iff]
  simp [admits, Level.Heard]

/-- A call at a level that is heard evaluates its argument and writes its line. -/
theorem call_of_heard (heard : level.Heard log.ceiling) (argument : StateM ν String) (n : ν) :
    (call level argument : Prog ε (Log × ν) Unit) (log, n) =
      .ok () (log.write level (argument.run n).1, (argument.run n).2) := by
  show (if log.admits level then _ else _) = _
  rw [admits_eq, if_pos (decide_eq_true heard)]
  rfl

/-- Any other call does nothing. -/
theorem call_of_not_heard (unheard : ¬ level.Heard log.ceiling) (argument : StateM ν String) (n : ν) :
    (call level argument : Prog ε (Log × ν) Unit) (log, n) = .ok () (log, n) := by
  show (if log.admits level then _ else _) = _
  rw [admits_eq, if_neg (by simpa using unheard)]

/-- Printed lines follow one another, each with its end. -/
theorem print_eq_join (lines : Array String) :
    print lines = String.join (lines.toList.map (· ++ "\n")) := by
  unfold print String.join
  rw [← Array.foldl_toList, List.foldl_map]
  simp only [String.append_assoc]

end Log

namespace LogStep

variable {ν : Type}

/-- The level that a step sets. -/
def sets? : LogStep ν → Option Level
  | .setCeiling level => some level
  | _ => none

/-- The level in force after steps: the last one that was set, and `warn` before that. -/
def inForce (done : List (LogStep ν)) : Level := (done.filterMap sets?).getLast?.getD .warn

theorem inForce_append (done : List (LogStep ν)) (step : LogStep ν) :
    inForce (done ++ [step]) = step.sets?.getD (inForce done) := by
  unfold inForce
  cases step <;> simp [sets?, List.filterMap_append]

/-! ## The rules -/

/-- The rules of the log: what a step answers, the lines it writes, and the state of arguments that it
leaves. -/
inductive Effect (inForce : Level) :
    LogStep ν → ν → Except (Failure Empty) LogAnswer → List String → ν → Prop
  | set (level : Level) (n : ν) : Effect inForce (.setCeiling level) n (.ok .done) [] n
  | asked (n : ν) : Effect inForce .ceiling n (.ok (.level inForce)) [] n
  | admitted (level : Level) (n : ν) :
      Effect inForce (.admits level) n (.ok (.flag (decide (level.Heard inForce)))) [] n
  /-- The argument is evaluated once, and the line is written. -/
  | written {level : Level} (heard : level.Heard inForce) {argument : StateM ν String} {n n' : ν}
      {text : String} (once : argument.run n = (text, n')) :
      Effect inForce (.call level argument) n (.ok .done) [Log.format level text] n'
  /-- The argument is not evaluated. -/
  | silent {level : Level} (unheard : ¬ level.Heard inForce) (argument : StateM ν String) (n : ν) :
      Effect inForce (.call level argument) n (.ok .done) [] n
  | forced (level : Level) (text : String) (n : ν) :
      Effect inForce (.force level text) n (.ok .done) [Log.format level text] n
  | held (message : StateM ν String) (n : ν) : Effect inForce (.assert true message) n (.ok .done) [] n
  /-- The message is evaluated once, and no line is written. -/
  | failed {message : StateM ν String} {n n' : ν} {text : String} (once : message.run n = (text, n')) :
      Effect inForce (.assert false message) n (.error (.fault (.assertion text))) [] n'

/-- A session by the rules, after the steps `done`: its steps with their answers, and all lines that they
write, in their order. -/
inductive Transcript : List (LogStep ν) → ν → List (Prog.Record Empty (LogStep ν) LogAnswer) →
    List String → ν → Prop
  | nil (done : List (LogStep ν)) (n : ν) : Transcript done n [] [] n
  | cons {done : List (LogStep ν)} {step : LogStep ν} {n n' last : ν}
      {answer : Except (Failure Empty) LogAnswer} {lines more : List String}
      {records : List (Prog.Record Empty (LogStep ν) LogAnswer)}
      (effect : Effect (inForce done) step n answer lines n')
      (rest : Transcript (done ++ [step]) n' records more last) :
      Transcript done n ((step, answer) :: records) (lines ++ more) last

/-! ## Steps and sessions -/

theorem run_call_of_heard {level : Level} {log : Log} (heard : level.Heard log.ceiling)
    (argument : StateM ν String) (n : ν) : run (.call level argument) (log, n) =
      .ok .done (log.write level (argument.run n).1, (argument.run n).2) :=
  Prog.map_ok (Log.call_of_heard heard argument n) _

theorem run_call_of_not_heard {level : Level} {log : Log} (unheard : ¬ level.Heard log.ceiling)
    (argument : StateM ν String) (n : ν) :
    run (.call level argument) (log, n) = .ok .done (log, n) :=
  Prog.map_ok (Log.call_of_not_heard unheard argument n) _

/-- **One step keeps to the rules**, with the level that the log holds. -/
theorem run_effect (step : LogStep ν) (log : Log) (n : ν) :
    ∃ lines, Effect log.ceiling step n (step.run.answer (log, n)) lines (step.run.after (log, n)).2 ∧
      (step.run.after (log, n)).1.lines.toList = log.lines.toList ++ lines ∧
      (step.run.after (log, n)).1.ceiling = step.sets?.getD log.ceiling := by
  cases step with
  | setCeiling level => exact ⟨[], .set level n, by simp [run, Prog.after], Log.ceiling_withCeiling⟩
  | ceiling => exact ⟨[], .asked n, by simp [run, Prog.after], rfl⟩
  | admits level =>
    refine ⟨[], ?_, by simp [run, Prog.after], rfl⟩
    rw [show (run (.admits level)).answer (log, n) = .ok (.flag (log.admits level)) from rfl, Log.admits_eq]
    exact .admitted level n
  | force level text => exact ⟨_, .forced level text n, Log.toList_lines_write, Log.ceiling_write⟩
  | call level argument =>
    -- The program asks the byte, the rules ask the level that it stands for.
    by_cases heard : level.Heard log.ceiling
    · have hrun := run_call_of_heard heard argument n
      rw [Prog.answer_of_ok hrun, Prog.after_of_ok hrun]
      exact ⟨_, .written heard rfl, Log.toList_lines_write, Log.ceiling_write⟩
    · have hrun := run_call_of_not_heard heard argument n
      rw [Prog.answer_of_ok hrun, Prog.after_of_ok hrun]
      exact ⟨[], .silent heard argument n, by simp, rfl⟩
  | assert condition message =>
    cases condition with
    | true =>
      have hrun : run (.assert true message) (log, n) = .ok .done (log, n) := rfl
      rw [Prog.answer_of_ok hrun, Prog.after_of_ok hrun]
      exact ⟨[], .held message n, by simp, rfl⟩
    | false =>
      have hrun : run (.assert false message) (log, n) =
          .error (.fault (.assertion (message.run n).1)) (log, (message.run n).2) := rfl
      rw [Prog.answer_of_error hrun, Prog.after_of_error hrun]
      exact ⟨[], .failed rfl, by simp, rfl⟩

theorem watched_of_ok {step : LogStep Nat} {answer : LogAnswer} {log log' : Log} {n n' : Nat}
    (h : step.run (log, n) = .ok answer (log', n')) :
    step.watched (log, n) = .ok (answer, n' - n) (log', n') := by
  unfold watched
  rw [Prog.bind_ok (Prog.get_eq _)]
  exact Prog.bind_ok h

/-- A counter sees that a call evaluates its argument once where its level is heard, and never elsewhere. -/
theorem answer_watched_call (level : Level) (text : String) (log : Log) (n : Nat) :
    (watched (.call level (counted text))).answer (log, n) =
      .ok (.done, if level.Heard log.ceiling then 1 else 0) := by
  by_cases heard : level.Heard log.ceiling
  · have hcount : ((counted text).run n).2 - n = 1 := Nat.add_sub_cancel_left n 1
    rw [Prog.answer_of_ok (watched_of_ok (run_call_of_heard heard _ n)), hcount, if_pos heard]
  · rw [Prog.answer_of_ok (watched_of_ok (run_call_of_not_heard heard _ n)), Nat.sub_self,
      if_neg heard]

/-- **A session keeps to the rules**, step after step: a log that holds the level in force does so after
each of them, and its lines are those of the transcript. -/
theorem session_transcript (steps done : List (LogStep ν)) {log : Log} (n : ν)
    (hlevel : log.ceiling = inForce done) :
    ∃ lines, Transcript done n (Prog.session run steps (log, n)).1 lines
        (Prog.session run steps (log, n)).2.2 ∧
      (Prog.session run steps (log, n)).2.1.lines.toList = log.lines.toList ++ lines ∧
      (Prog.session run steps (log, n)).2.1.ceiling = inForce (done ++ steps) := by
  -- The steps move over to `done` one by one, and the level in force is read off there.
  induction steps generalizing done log n with
  | nil => exact ⟨[], .nil done n, by simp [Prog.session], by simpa [Prog.session] using hlevel⟩
  | cons step rest ih =>
    obtain ⟨lines, heffect, hlines, hceiling⟩ := run_effect step log n
    have hnext : (step.run.after (log, n)).1.ceiling = inForce (done ++ [step]) := by
      rw [hceiling, hlevel, inForce_append]
    obtain ⟨more, htranscript, hmore, hlast⟩ := ih (done ++ [step]) (step.run.after (log, n)).2 hnext
    rw [hlevel] at heffect
    refine ⟨lines ++ more, .cons heffect htranscript, ?_, ?_⟩
    · rw [Prog.session_cons, hmore, hlines, List.append_assoc]
    · rw [Prog.session_cons, hlast, List.append_assoc, List.singleton_append]

/-! ## Raising the level -/

/-- The step may write a line or evaluate an argument. -/
def logs : LogStep ν → Bool
  | .setCeiling _ | .ceiling | .admits _ => false
  | _ => true

/-- The log steps of a session, each with the level that is in force at it. -/
def levelled (level : Level) : List (LogStep ν) → List (Level × LogStep ν)
  | [] => []
  | step :: rest =>
    if step.logs then (level, step) :: levelled level rest else levelled (step.sets?.getD level) rest

/-- The session has the same log steps as the other one, and at each of them a level in force that is as
high or higher. -/
def RaisedTo (steps raised : List (LogStep ν)) : Prop :=
  List.Forall₂ (fun low high => low.2 = high.2 ∧ low.1 ≤ high.1) (levelled .warn steps)
    (levelled .warn raised)

/-- A line that a step writes if it writes one. -/
inductive Line : LogStep ν → String → Prop
  | call {level : Level} {argument : StateM ν String} {n n' : ν} {text : String}
      (once : argument.run n = (text, n')) : Line (.call level argument) (Log.format level text)
  | force (level : Level) (text : String) : Line (.force level text) (Log.format level text)

/-- Two lines that one of the steps writes, maybe in two states of its argument. -/
def SameStep (steps : List (LogStep ν)) (a b : String) : Prop := ∃ step ∈ steps, Line step a ∧ Line step b

/-- The texts of the step do not depend on the state that its argument works on. -/
def Steady (step : LogStep ν) : Prop := ∀ a b, Line step a → Line step b → a = b

theorem Steady.call {argument : StateM ν String}
    (h : ∀ n m, (argument.run n).1 = (argument.run m).1) (level : Level) :
    Steady (.call level argument) := by
  intro a b ha hb
  cases ha with
  | @call _ _ n _ text once =>
    cases hb with
    | @call _ _ m _ text' once' =>
      have htext : text = text' := by simpa [once, once'] using h n m
      rw [htext]

theorem Steady.force (level : Level) (text : String) : Steady (.force level text : LogStep ν) := by
  rintro a b ⟨⟩ ⟨⟩
  rfl

/-- Log steps by the rules, with the lines that they write. -/
inductive Output : List (Level × LogStep ν) → List String → Prop
  | nil : Output [] []
  | cons {level : Level} {step : LogStep ν} {n n' : ν} {answer : Except (Failure Empty) LogAnswer}
      {lines more : List String} {rest : List (Level × LogStep ν)}
      (effect : Effect level step n answer lines n') (hrest : Output rest more) :
      Output ((level, step) :: rest) (lines ++ more)

section Raising

variable {steps : List (LogStep ν)} {step : LogStep ν} {low high level : Level} {n n' m m' : ν}
  {answer answer' : Except (Failure Empty) LogAnswer} {lines lines' : List String}

theorem Effect.lines_eq_nil (h : Effect level step n answer lines n') (hlogs : step.logs = false) :
    lines = [] := by
  cases h <;> first | rfl | cases hlogs

theorem mem_of_levelled {x : Level × LogStep ν} (h : x ∈ levelled level steps) : x.2 ∈ steps := by
  induction steps generalizing level with
  | nil => cases h
  | cons step rest ih =>
    unfold levelled at h
    split at h
    · rcases List.mem_cons.mp h with rfl | h
      · exact List.mem_cons_self
      · exact List.mem_cons_of_mem _ (ih h)
    · exact List.mem_cons_of_mem _ (ih h)

/-- The lines of a session are those of its log steps. -/
theorem Transcript.output {done : List (LogStep ν)}
    {records : List (Prog.Record Empty (LogStep ν) LogAnswer)} (h : Transcript done n records lines n') :
    Output (levelled (inForce done) (records.map Prod.fst)) lines := by
  induction h with
  | nil => exact .nil
  | @cons done step n n' last answer lines more records effect rest ih =>
    rw [inForce_append] at ih
    cases hlogs : step.logs with
    | true =>
      -- A log step sets no level, so the next one has the same in force.
      have hsets : step.sets? = none := by cases step <;> first | rfl | cases hlogs
      rw [hsets] at ih
      simpa [levelled, hlogs] using Output.cons effect ih
    | false =>
      simpa [levelled, hlogs, effect.lines_eq_nil hlogs] using ih

/-- At a higher level a step writes its line again, if it wrote one. -/
theorem Effect.raised (h : Effect low step n answer lines n') (h' : Effect high step m answer' lines' m')
    (hle : low ≤ high) :
    ∃ kept, List.Forall₂ (fun a b => Line step a ∧ Line step b) lines kept ∧ kept.Sublist lines' := by
  cases h with
  | written heard once =>
    cases h' with
    | written _ once' => exact ⟨_, .cons ⟨.call once, .call once'⟩ .nil, .refl _⟩
    | silent unheard => exact absurd (heard.mono hle) unheard
  | forced level text =>
    cases h'
    exact ⟨_, .cons ⟨.force level text, .force level text⟩ .nil, .refl _⟩
  | _ => exact ⟨[], .nil, List.nil_sublist _⟩

/-- At higher levels all lines are written again, in their order. -/
theorem Output.raised {lows highs : List (Level × LogStep ν)} (h : Output lows lines)
    (h' : Output highs lines')
    (hraised : List.Forall₂ (fun a b => a.2 = b.2 ∧ a.1 ≤ b.1) lows highs)
    (hmem : ∀ x ∈ lows, x.2 ∈ steps) :
    ∃ kept, List.Forall₂ (SameStep steps) lines kept ∧ kept.Sublist lines' := by
  induction h generalizing highs lines' with
  | nil => exact ⟨[], .nil, List.nil_sublist _⟩
  | cons effect _ ih =>
    cases hraised with
    | cons hhead htail =>
      cases h' with
      | cons effect' hrest' =>
        obtain ⟨rfl, hle⟩ := hhead
        obtain ⟨kept, hsame, hsub⟩ := effect.raised effect' hle
        obtain ⟨more, hmore, hsubmore⟩ := ih hrest' htail fun x hx => hmem x (List.mem_cons_of_mem _ hx)
        refine ⟨kept ++ more, List.rel_append (hsame.imp ?_) hmore, hsub.append hsubmore⟩
        exact fun _ _ hline => ⟨_, hmem _ List.mem_cons_self, hline⟩

end Raising

/-! ## Whole sessions -/

/-- The session of the steps, from a log that nothing was done with. -/
def fromStart (steps : List (LogStep ν)) (n : ν) :
    List (Prog.Record Empty (LogStep ν) LogAnswer) × (Log × ν) :=
  Prog.session run steps ({}, n)

/-- The lines that a log has after the session. -/
def linesAfter (steps : List (LogStep ν)) (n : ν) : List String :=
  (fromStart steps n).2.1.lines.toList

/-- **What a log does over a session**, with arguments that work on the state `n`. -/
structure Filters (steps : List (LogStep ν)) (n : ν) : Prop where
  /-- The greatest level is the last one that was set. -/
  ceiling_eq : (fromStart steps n).2.1.ceiling = inForce steps
  /-- Each step answers, writes and evaluates what the rules say. -/
  transcript : Transcript [] n (fromStart steps n).1 (linesAfter steps n) (fromStart steps n).2.2
  /-- What is printed is the lines of all steps, in their order. -/
  print_eq : Log.print (fromStart steps n).2.1.lines = String.join ((linesAfter steps n).map (· ++ "\n"))
  /-- Where the level is raised, each line is written again by its step, and others come between them. -/
  raised : ∀ raised m, RaisedTo steps raised →
    ∃ kept, List.Forall₂ (SameStep steps) (linesAfter steps n) kept ∧ kept.Sublist (linesAfter raised m)
  /-- With texts that do not depend on the state, the lines themselves are kept. -/
  added : ∀ raised m, RaisedTo steps raised → (∀ step ∈ steps, Steady step) →
    (linesAfter steps n).Sublist (linesAfter raised m)

theorem fromStart_transcript (steps : List (LogStep ν)) (n : ν) :
    Transcript [] n (fromStart steps n).1 (linesAfter steps n) (fromStart steps n).2.2 ∧
      (fromStart steps n).2.1.ceiling = inForce steps := by
  have hstart : ({} : Log).ceiling = inForce ([] : List (LogStep ν)) := rfl
  obtain ⟨lines, htranscript, hlines, hceiling⟩ := session_transcript steps [] n hstart
  have hlines : linesAfter steps n = lines := hlines
  rw [hlines]
  exact ⟨htranscript, hceiling⟩

theorem fromStart_output (steps : List (LogStep ν)) (n : ν) :
    Output (levelled .warn steps) (linesAfter steps n) := by
  have houtput := (fromStart_transcript steps n).1.output
  rw [show (fromStart steps n).1.map Prod.fst = steps from Prog.map_fst_session _ _ _] at houtput
  exact houtput

theorem linesAfter_raised {steps raised : List (LogStep ν)} (h : RaisedTo steps raised) (n m : ν) :
    ∃ kept, List.Forall₂ (SameStep steps) (linesAfter steps n) kept ∧
      kept.Sublist (linesAfter raised m) :=
  (fromStart_output steps n).raised (fromStart_output raised m) h fun _ => mem_of_levelled

theorem linesAfter_added {steps raised : List (LogStep ν)} (h : RaisedTo steps raised)
    (hsteady : ∀ step ∈ steps, Steady step) (n m : ν) :
    (linesAfter steps n).Sublist (linesAfter raised m) := by
  obtain ⟨kept, hsame, hsub⟩ := linesAfter_raised h n m
  have heq : List.Forall₂ (· = ·) (linesAfter steps n) kept := by
    refine hsame.imp ?_
    rintro a b ⟨step, hmem, ha, hb⟩
    exact hsteady step hmem a b ha hb
  rw [List.forall₂_eq_eq_eq.le _ _ heq]
  exact hsub

/-- **Every session is filtered by the level in force**, whatever its steps are and whatever their
arguments do. -/
theorem session_filters (steps : List (LogStep ν)) (n : ν) : Filters steps n where
  ceiling_eq := (fromStart_transcript steps n).2
  transcript := (fromStart_transcript steps n).1
  print_eq := Log.print_eq_join _
  raised _ m h := linesAfter_raised h n m
  added _ m h hsteady := linesAfter_added h hsteady n m

/-- A session with calls at three levels, and the same session at the level `trace`: one more argument is
evaluated, and one more line is written. -/
theorem session_filters_raised :
    ∃ steps raised : List (LogStep Nat), RaisedTo steps raised ∧
      linesAfter steps 0 = ["[warn] a", "[off] d"] ∧ (fromStart steps 0).2.2 = 1 ∧
      linesAfter raised 0 = ["[warn] a", "[debug] b", "[off] d"] ∧ (fromStart raised 0).2.2 = 2 ∧
      (linesAfter steps 0).Sublist (linesAfter raised 0) := by
  let steps : List (LogStep Nat) :=
    [.warn (counted "a"), .debug (counted "b"), .call .off (counted "c"), .force .off "d"]
  have hraised : RaisedTo steps (.setCeiling .trace :: steps) := by
    refine .cons ⟨rfl, ?_⟩ (.cons ⟨rfl, ?_⟩ (.cons ⟨rfl, ?_⟩ (.cons ⟨rfl, ?_⟩ .nil)))
    all_goals decide
  refine ⟨steps, .setCeiling .trace :: steps, hraised, rfl, rfl, rfl, rfl,
    (session_filters steps 0).added _ 0 hraised ?_⟩
  have htext (text : String) : ∀ n m, ((counted text).run n).1 = ((counted text).run m).1 :=
    fun _ _ => rfl
  simp only [steps, List.forall_mem_cons, List.not_mem_nil, false_implies, implies_true, and_true]
  exact ⟨.call (htext _) _, .call (htext _) _, .call (htext _) _, .force _ _⟩

end LogStep

end AlignedSlots
