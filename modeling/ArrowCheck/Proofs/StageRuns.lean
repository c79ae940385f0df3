/-
This file says what a chain of stages does. A chain is built by wrapping each new
stage around all stages before it, and here it is described from its front: the
stages come one after the other, each on what the one before it gave and on the
collection that it left. Either all of them pass a value on, or one of them is the
first to fail. Then its message is the message of the chain, under its own name, and
no stage after it is run.

Every stage that was run has its share in the diagnostics, also the one that failed.
If stages only add to the collection then so does the chain, and the mark of what
was emitted never passes the end of the items.
-/

import ArrowCheck.Check.Run

namespace ArrowCheck

/-! ### Collections that grow -/

namespace Collected

/-- The mark of what was emitted is not past the end of the items, so that there is a stretch of
items from the mark on. -/
def InRange (collected : Collected) : Prop :=
  collected.emitted ≤ collected.items.length

/-- What can become of a collection to which diagnostics are added and which is emitted. -/
inductive Grown (start : Collected) : Collected → Prop where
  | refl : Grown start start
  | push {now : Collected} (grown : Grown start now) (diagnostic : Diagnostic) :
      Grown start (now.push diagnostic)
  | extend {now : Collected} (grown : Grown start now) (diagnostics : List Diagnostic) :
      Grown start (now.extend diagnostics)
  | emit {now : Collected} (grown : Grown start now) : Grown start now.emit

variable {start now : Collected}

theorem InRange.extend (inRange : now.InRange) (diagnostics : List Diagnostic) :
    (now.extend diagnostics).InRange := by
  refine Nat.le_trans inRange ?_
  rw [Collected.extend, List.length_append]
  exact Nat.le_add_right _ _

theorem inRange_emit (collected : Collected) : collected.emit.InRange :=
  Nat.le_refl collected.items.length

theorem Grown.inRange (grown : Grown start now) (inRange : start.InRange) : now.InRange := by
  induction grown with
  | refl => exact inRange
  | push _ diagnostic inductionHypothesis => exact inductionHypothesis.extend [diagnostic]
  | extend _ diagnostics inductionHypothesis => exact inductionHypothesis.extend diagnostics
  | emit _ _ => exact inRange_emit _

/-- A collection keeps its items, and all others stand after them. -/
theorem Grown.items (grown : Grown start now) : ∃ share, now.items = start.items ++ share := by
  induction grown with
  | refl => exact ⟨[], (List.append_nil _).symm⟩
  | push _ diagnostic inductionHypothesis =>
    obtain ⟨share, same⟩ := inductionHypothesis
    exact ⟨share ++ [diagnostic], by rw [Collected.push, same, List.append_assoc]⟩
  | extend _ diagnostics inductionHypothesis =>
    obtain ⟨share, same⟩ := inductionHypothesis
    exact ⟨share ++ diagnostics, by rw [Collected.extend, same, List.append_assoc]⟩
  | emit _ inductionHypothesis => exact inductionHypothesis

end Collected

open Collected

/-! ### Computations one after the other -/

namespace StageM

variable {α β : Type} {first : StageM α} {before now : Collected} {value : α} {error : StageError}

theorem run_bind_ok (ended : first.run before = (.ok value, now)) (next : α → StageM β) :
    (first >>= next).run before = (next value).run now := by
  show ExceptT.bindCont next (first.run before).1 (first.run before).2 = _
  rw [ended]
  rfl

theorem run_bind_error (failed : first.run before = (.error error, now)) (next : α → StageM β) :
    (first >>= next).run before = (.error error, now) := by
  show ExceptT.bindCont next (first.run before).1 (first.run before).2 = _
  rw [failed]
  rfl

theorem run_tryCatch_ok (ended : first.run before = (.ok value, now))
    (handle : StageError → StageM α) : (tryCatch first handle).run before = (.ok value, now) := by
  rw [ExceptT.run_tryCatch]
  show StateT.run (first.run >>= _) before = _
  rw [StateT.run_bind, show StateT.run first.run before = (.ok value, now) from ended]
  rfl

theorem run_tryCatch_error (failed : first.run before = (.error error, now))
    (handle : StageError → StageM α) :
    (tryCatch first handle).run before = (handle error).run now := by
  rw [ExceptT.run_tryCatch]
  show StateT.run (first.run >>= _) before = _
  rw [StateT.run_bind, show StateT.run first.run before = (.error error, now) from failed]
  rfl

end StageM

/-! ### One stage -/

namespace Stage

variable {α β : Type}

/-- A stage that only adds to what was collected. -/
def Appends (stage : Stage α β) : Prop :=
  ∀ context before, Grown before ((stage.run context).run before).2

/-- What a stage did when it was run: with its result it left a collection that has its share of
diagnostics at the end and that can be emitted. -/
structure Ran (stage : Stage α β) (context : α) (before : Collected) (share : List Diagnostic)
    (result : Except StageError β) (after : Collected) : Prop where
  ran : (stage.run context).run before = (result, after)
  appended : after.items = before.items ++ share
  inRange : after.InRange

variable {stage : Stage α β} {context : α} {before after : Collected} {share : List Diagnostic}

theorem Appends.ran (appends : stage.Appends) (context : α) (inRange : before.InRange) :
    ∃ share result after, stage.Ran context before share result after := by
  have grown := appends context before
  obtain ⟨share, appended⟩ := grown.items
  exact ⟨share, _, _, rfl, appended, grown.inRange inRange⟩

/-- The share of a stage stands before what was added after it. -/
theorem Ran.items {result : Except StageError β} {final : Collected}
    {shares : List (List Diagnostic)} (ran : stage.Ran context before share result after)
    (later : final.items = after.emit.items ++ shares.flatten) :
    final.items = before.items ++ (share :: shares).flatten := by
  rw [later, List.flatten_cons, ← List.append_assoc, ← ran.appended]
  rfl

/-- A stage that ends well is emitted. -/
theorem Ran.runNamed_ok {output : β} (ran : stage.Ran context before share (.ok output) after) :
    (stage.runNamed context).run before = (.ok output, after.emit) :=
  StageM.run_bind_ok (StageM.run_tryCatch_ok ran.ran _) _

/-- A failure is put down to the stage, whatever stage it names. -/
theorem Ran.runNamed_error {error : StageError}
    (ran : stage.Ran context before share (.error error) after) :
    (stage.runNamed context).run before = (.error ⟨stage.name, error.message⟩, after) :=
  StageM.run_bind_error (StageM.run_tryCatch_error ran.ran _) _

end Stage

/-! ### Stages in a row -/

/-- Stages in a row: each can work on what the one before it gives. -/
inductive Stages : Type → Type → Type 1 where
  | nil {α : Type} : Stages α α
  | cons {α β γ : Type} (stage : Stage α β) (rest : Stages β γ) : Stages α γ

namespace Chain

/-- A chain with stages added to its end, one after the other. -/
def addAll {α : Type} : {β γ : Type} → Chain α β → Stages β γ → Chain α γ
  | _, _, chain, .nil => chain
  | _, _, chain, .cons stage rest => (chain.add stage).addAll rest

variable {α β γ : Type} {chain : Chain α β} {context : α} {before now : Collected}

/-- A chain with one more stage goes on with that stage where the chain without it has ended. -/
theorem start_add {middle : β} (ended : chain.start context before = (.ok middle, now))
    (stage : Stage β γ) :
    (chain.add stage).start context before = (stage.runNamed middle).run now :=
  StageM.run_bind_ok ended _

/-- A chain that has failed fails in the same way with more stages. -/
theorem start_addAll_error {error : StageError}
    (failed : chain.start context before = (.error error, now)) (stages : Stages β γ) :
    (chain.addAll stages).start context before = (.error error, now) := by
  induction stages with
  | nil => exact failed
  | cons stage rest inductionHypothesis =>
    exact inductionHypothesis (StageM.run_bind_error failed stage.runNamed)

end Chain

namespace Stages

/-- The chain that is built of stages. -/
def chain {α β : Type} (stages : Stages α β) : Chain α β :=
  Chain.empty.addAll stages

/-- All stages only add to what was collected. -/
def Append {α β : Type} : Stages α β → Prop
  | .nil => True
  | .cons stage rest => stage.Appends ∧ rest.Append

/-- Stages have passed a value on. Each of them succeeded on what the one before it gave, and was
emitted. Next to the output and the last collection stand the shares of the stages. -/
inductive Passes : {α β : Type} → Stages α β → α → Collected → List (List Diagnostic) → β →
    Collected → Prop where
  | nil {α : Type} {context : α} {start : Collected} : Passes .nil context start [] context start
  | cons {α β γ : Type} {stage : Stage α β} {rest : Stages β γ} {context : α} {middle : β}
      {output : γ} {start after final : Collected} {share : List Diagnostic}
      {shares : List (List Diagnostic)} (ran : stage.Ran context start share (.ok middle) after)
      (passes : Passes rest middle after.emit shares output final) :
      Passes (.cons stage rest) context start (share :: shares) output final

/-- Stages have stopped at the first that failed. The error has the name of that stage and the
message that the stage gave. -/
inductive Stops : {α β : Type} → Stages α β → α → Collected → List (List Diagnostic) →
    StageError → Collected → Prop where
  | here {α β γ : Type} {stage : Stage α β} {rest : Stages β γ} {context : α}
      {start final : Collected} {share : List Diagnostic} {error : StageError}
      (ran : stage.Ran context start share (.error error) final) :
      Stops (.cons stage rest) context start [share] ⟨stage.name, error.message⟩ final
  | later {α β γ : Type} {stage : Stage α β} {rest : Stages β γ} {context : α} {middle : β}
      {start after final : Collected} {share : List Diagnostic}
      {shares : List (List Diagnostic)} {error : StageError}
      (ran : stage.Ran context start share (.ok middle) after)
      (stops : Stops rest middle after.emit shares error final) :
      Stops (.cons stage rest) context start (share :: shares) error final

variable {α β : Type} {stages : Stages α β} {context : α} {start final : Collected}
  {shares : List (List Diagnostic)} {output : β} {error : StageError}

/-! ### What was collected -/

theorem Passes.items (passes : Passes stages context start shares output final) :
    final.items = start.items ++ shares.flatten := by
  induction passes with
  | nil => exact (List.append_nil _).symm
  | cons ran _ inductionHypothesis => exact ran.items inductionHypothesis

theorem Passes.inRange (passes : Passes stages context start shares output final)
    (inRange : start.InRange) : final.InRange := by
  induction passes with
  | nil => exact inRange
  | cons _ _ inductionHypothesis => exact inductionHypothesis (inRange_emit _)

theorem Stops.items (stops : Stops stages context start shares error final) :
    final.items = start.items ++ shares.flatten := by
  induction stops with
  | here ran => rw [ran.appended, List.flatten_singleton]
  | later ran _ inductionHypothesis => exact ran.items inductionHypothesis

theorem Stops.inRange (stops : Stops stages context start shares error final) :
    final.InRange := by
  induction stops with
  | here ran => exact ran.inRange
  | later _ _ inductionHypothesis => exact inductionHypothesis

/-! ### The chain of the stages -/

theorem Passes.start_addAll {γ : Type} {chain : Chain γ α} {origin : γ} {first : Collected}
    (passes : Passes stages context start shares output final)
    (ended : chain.start origin first = (.ok context, start)) :
    (chain.addAll stages).start origin first = (.ok output, final) := by
  induction passes with
  | nil => exact ended
  | cons ran _ inductionHypothesis =>
    exact inductionHypothesis ((Chain.start_add ended _).trans ran.runNamed_ok)

theorem Stops.start_addAll {γ : Type} {chain : Chain γ α} {origin : γ} {first : Collected}
    (stops : Stops stages context start shares error final)
    (ended : chain.start origin first = (.ok context, start)) :
    (chain.addAll stages).start origin first = (.error error, final) := by
  induction stops with
  | here ran =>
    exact Chain.start_addAll_error ((Chain.start_add ended _).trans ran.runNamed_error) _
  | later ran _ inductionHypothesis =>
    exact inductionHypothesis ((Chain.start_add ended _).trans ran.runNamed_ok)

/-- Stages that only add to what was collected pass a value on, or they stop at one of them. -/
theorem passes_or_stops {stages : Stages α β} (append : stages.Append) (context : α)
    {start : Collected} (inRange : start.InRange) :
    (∃ shares output final, Passes stages context start shares output final) ∨
      ∃ shares error final, Stops stages context start shares error final := by
  induction stages generalizing start with
  | nil => exact Or.inl ⟨[], context, start, .nil⟩
  | cons stage rest inductionHypothesis =>
    obtain ⟨share, result, after, ran⟩ := append.1.ran context inRange
    cases result with
    | error error => exact Or.inr ⟨[share], _, after, .here ran⟩
    | ok middle =>
      -- The rest starts from a collection that was just emitted, so its mark is in range again.
      obtain ⟨shares, output, final, passes⟩ | ⟨shares, error, final, stops⟩ :=
        inductionHypothesis append.2 middle (inRange_emit after)
      · exact Or.inl ⟨share :: shares, output, final, .cons ran passes⟩
      · exact Or.inr ⟨share :: shares, error, final, .later ran stops⟩

/-- A chain of stages that only add to what was collected. It succeeds exactly if every stage
succeeds on what the one before it gave, and with what the last one gave. It fails exactly if there
is a first stage that fails, with the message and under the name of that stage, and then goes on to
no other stage, whatever stages are added. In both cases the items that were there at the start are
followed by the shares of the stages that were run. The mark is in range wherever a stage is
emitted, at the end, and in all that the collection becomes while stages add to it. -/
theorem chain_stops_at_first_failure {α β : Type} (stages : Stages α β) (append : stages.Append)
    (start : Collected) (built : Grown {} start) (context : α) :
    (∀ output final, stages.chain.start context start = (.ok output, final) ↔
      ∃ shares, Passes stages context start shares output final ∧
        final.items = start.items ++ shares.flatten ∧ final.InRange) ∧
    (∀ error final, stages.chain.start context start = (.error error, final) ↔
      ∃ shares, Stops stages context start shares error final ∧
        final.items = start.items ++ shares.flatten ∧ final.InRange) ∧
    (∀ error final, stages.chain.start context start = (.error error, final) →
      ∀ (γ : Type) (more : Stages β γ),
        (stages.chain.addAll more).start context start = (.error error, final)) ∧
    ∀ now, Grown start now → now.InRange := by
  have inRange : start.InRange := built.inRange (Nat.le_refl 0)
  have ended : Chain.empty.start context start = (.ok context, start) := rfl
  -- A run has one outcome, and the stages have one that is also an outcome of the run.
  refine ⟨fun output final => ⟨fun succeeded => ?_, ?_⟩, fun error final => ⟨fun failed => ?_, ?_⟩,
    fun error final failed γ more => Chain.start_addAll_error failed more,
    fun now grown => grown.inRange inRange⟩
  · obtain ⟨shares, output', final', passes⟩ | ⟨shares, error, final', stops⟩ :=
      passes_or_stops append context inRange
    · cases succeeded.symm.trans (passes.start_addAll ended)
      exact ⟨shares, passes, passes.items, passes.inRange inRange⟩
    · cases succeeded.symm.trans (stops.start_addAll ended)
  · rintro ⟨shares, passes, -, -⟩
    exact passes.start_addAll ended
  · obtain ⟨shares, output, final', passes⟩ | ⟨shares, error', final', stops⟩ :=
      passes_or_stops append context inRange
    · cases failed.symm.trans (passes.start_addAll ended)
    · cases failed.symm.trans (stops.start_addAll ended)
      exact ⟨shares, stops, stops.items, stops.inRange⟩
  · rintro ⟨shares, stops, -, -⟩
    exact stops.start_addAll ended

/-- A check is such a chain. -/
example (lossy : Bool) :
    Chain.toTyped lossy = chain (.cons .parse (.cons .resolve (.cons (.typing lossy) .nil))) :=
  rfl

end Stages

/-! ### The stages of a check -/

theorem Stage.parse_appends : Stage.parse.Appends := by
  intro file before
  cases parsed : Program.parse file.text with
  | ok program =>
    simp only [Stage.parse, parsed]
    exact .refl
  | error error =>
    simp only [Stage.parse, parsed]
    exact .refl

theorem Stage.resolve_appends : Stage.resolve.Appends :=
  fun _ _ => .refl

theorem Stage.typing_appends (lossy : Bool) : (Stage.typing lossy).Appends :=
  fun _ _ => Grown.extend .refl _

/-- A stage that adds a warning and gives a result of its own, or fails with an error of its own. -/
def Stage.fixed {α β : Type} (name warning : String) (result : Except StageError β) :
    Stage α β where
  name := name
  run _ := do
    Stage.collect [{ level := .warning, message := warning }]
    MonadExcept.ofExcept result

theorem Stage.fixed_appends {α β : Type} (name warning : String) (result : Except StageError β) :
    (Stage.fixed name warning result : Stage α β).Appends := by
  intro context before
  cases result with
  | ok output => exact Grown.extend .refl _
  | error error => exact Grown.extend .refl _

/-- A check with a gate behind it that lets nothing pass and puts the blame on the check, and with
one more stage behind the gate. -/
def gatedCheck : Stages SourceFile Nat :=
  .cons .parse (.cons .resolve (.cons (.typing false) (.cons
    (.fixed "gate" "closed" (.error ⟨"typing", "refused"⟩ : Except StageError Unit))
      (.cons (.fixed "count" "late" (.ok 0)) .nil))))

/-- A collection with one item that was emitted. -/
def notedBefore : Collected :=
  (({} : Collected).push { level := .warning, message := "noted" }).emit

theorem gatedCheck_stops_at_gate :
    gatedCheck.Append ∧ Grown {} notedBefore ∧ ∃ final shares,
      gatedCheck.chain.start ⟨"main.tern", "1 + true"⟩ notedBefore =
        (.error ⟨"gate", "refused"⟩, final) ∧
      gatedCheck.Stops ⟨"main.tern", "1 + true"⟩ notedBefore shares ⟨"gate", "refused"⟩ final ∧
      final.items = notedBefore.items ++ shares.flatten ∧
      final.items.map (·.level) = [.warning, .error, .warning] := by
  have append : gatedCheck.Append :=
    ⟨Stage.parse_appends, Stage.resolve_appends, Stage.typing_appends false,
      Stage.fixed_appends _ _ _, Stage.fixed_appends _ _ _, trivial⟩
  have built : Grown {} notedBefore := .emit (.push .refl _)
  have stopped : Except.casesOn (motive := fun _ => Option StageError)
      (gatedCheck.chain.start ⟨"main.tern", "1 + true"⟩ notedBefore).1 some (fun _ => none) =
        some ⟨"gate", "refused"⟩ := by decide +kernel
  have levels : (gatedCheck.chain.start ⟨"main.tern", "1 + true"⟩ notedBefore).2.items.map
      (·.level) = [.warning, .error, .warning] := by decide +kernel
  cases run : gatedCheck.chain.start ⟨"main.tern", "1 + true"⟩ notedBefore with
  | mk result final =>
    rw [run] at stopped levels
    cases result with
    | ok count => cases stopped
    | error error =>
      cases stopped
      obtain ⟨shares, stops, items, -⟩ := ((Stages.chain_stops_at_first_failure gatedCheck append
        notedBefore built ⟨"main.tern", "1 + true"⟩).2.1 _ _).mp run
      exact ⟨append, built, final, shares, rfl, stops, items, levels⟩

end ArrowCheck
