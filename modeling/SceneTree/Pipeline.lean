import SceneTree.Failure
import SceneTree.Frame.Writing
import SceneTree.Optimize.Pass

/-! Frames are validated, optimized and validated again. -/
namespace SceneTree
variable {ι : Type}

/-- The answer to a frame may depend on how many frames came before it. -/
abbrev Validator := Nat → Frame Unit → Except Failure Unit

structure Pipeline where
  options : Options
  validator : Option Validator
  validateOutput : Bool

inductive Stage where
  | input | output

def Stage.name : Stage → String
  | .input => "input frame"
  | .output => "optimized frame"

inductive Event where
  | optimized (t : Tally)
  | completed (applied : Nat)

/-- The outcome of a run, how often the validator was asked, and what was reported on the way. -/
structure Report (α : Type) where
  result : Except Failure α
  calls : Nat
  events : List Event

namespace Stage

/- A rejection names the stage, and loses its kind. -/
def reject (stage : Stage) (f : Failure) : Failure :=
  let reason := match f with
    | .validation reason => reason
    | f => f.message
  .validation (stage.name ++ ": " ++ reason)

end Stage

namespace Pipeline

def standard : Pipeline := ⟨.allRules, none, true⟩

/- The frame's verdict, and the number of calls when it has been given. -/
def check (p : Pipeline) (stage : Stage) (calls : Nat) (f : Frame ι) : Except Failure Unit × Nat :=
  match p.validator with
  | none => (.ok (), calls)
  | some v => ((v calls f.bare).mapError stage.reject, calls + 1)

def run (p : Pipeline) (f : Frame ι) : Report (Frame (Option ι)) :=
  match p.check .input 0 f with
  | (.error e, calls) => ⟨.error e, calls, []⟩
  | (.ok (), calls) =>
    let (g, t) := f.optimize p.options
    let verdict := if p.validateOutput then p.check .output calls g else (.ok (), calls)
    match verdict with
    | (.error e, calls) => ⟨.error e, calls, [.optimized t]⟩
    | (.ok (), calls) => ⟨.ok g, calls, [.optimized t, .completed t.applied]⟩

def runText (p : Pipeline) (s : String) : Report String :=
  match Frame.ofText s with
  | .error e => ⟨.error e, 0, []⟩
  | .ok f =>
    let report := p.run f
    { report with result := report.result.map Frame.text }

end Pipeline

/-- A rule that rejects the frames which meet all its conditions. -/
structure Rejection where
  failure : Option Failure
  minNodes : Option Nat
  maxNodes : Option Nat
  hasKind : Option String

namespace Rejection

def applies (r : Rejection) (f : Frame Unit) : Bool :=
  r.minNodes.all (· ≤ f.count) && r.maxNodes.all (f.count ≤ ·) &&
    r.hasKind.all fun k => f.nodes.any (·.kind.name = k)

def validator (r : Rejection) : Validator := fun _ f =>
  match r.failure with
  | some e => if r.applies f then .error e else .ok ()
  | none => .ok ()

end Rejection

def optimizeText (o : Options) (s : String) : Except Failure String :=
  (Pipeline.runText { Pipeline.standard with options := o } s).result

end SceneTree
