import SceneTree.Proofs.Closure

/-! Runs of the pipeline. What comes of a run is settled by at most two answers of the validator,
the first on the frame and the second on what the pass makes of it. A rejection names the side that
it comes from, and nothing is reported before the frame is accepted. A validator that has been asked
before is one more validator, whose answers are counted from there. -/
namespace SceneTree
variable {ι : Type}

/-- What a rejection quotes: the bare reason of a failed validation, the whole message of any other
failure. -/
def Failure.quoted : Failure → String
  | .validation reason => reason
  | f => f.message

theorem Stage.reject_eq (stage : Stage) (e : Failure) :
    stage.reject e = .validation (stage.name ++ ": " ++ e.quoted) := by
  cases e <;> rfl

namespace Pipeline
variable {p : Pipeline} {calls : Nat} {f : Frame ι}

/-- There is a validator, and asked about this frame after so many others it fails. -/
def Rejects (p : Pipeline) (calls : Nat) (f : Frame ι) (e : Failure) : Prop :=
  ∃ v, p.validator = some v ∧ v calls f.bare = .error e

def Accepts (p : Pipeline) (calls : Nat) (f : Frame ι) : Prop := ∀ e, ¬p.Rejects calls f e

/-- How often the validator is asked about one frame. -/
def asks (p : Pipeline) : Nat := if p.validator.isSome then 1 else 0

theorem accepts_of_none (absent : p.validator = none) : p.Accepts calls f := by
  rintro e ⟨v, asked, -⟩
  cases absent.symm.trans asked

theorem check_rejects {e : Failure} (rejects : p.Rejects calls f e) (stage : Stage) :
    p.check stage calls f =
      (.error (.validation (stage.name ++ ": " ++ e.quoted)), calls + 1) := by
  obtain ⟨v, asked, answer⟩ := rejects
  rw [check, asked, ← stage.reject_eq]
  simp only [answer, Except.mapError]

theorem check_accepts (accepts : p.Accepts calls f) (stage : Stage) :
    p.check stage calls f = (.ok (), calls + p.asks) := by
  unfold check asks
  cases asked : p.validator with
  | none => rfl
  | some v =>
    cases answer : v calls f.bare with
    | error e => exact absurd ⟨v, asked, answer⟩ (accepts e)
    | ok _ => simp [answer, Except.mapError]

theorem rejects_asks {e : Failure} : p.Rejects p.asks f e ↔ p.Rejects 1 f e := by
  unfold Rejects asks
  cases p.validator <;> simp

theorem run_rejected {e : Failure} (rejects : p.Rejects 0 f e) :
    p.run f = ⟨.error (.validation ("input frame: " ++ e.quoted)), 1, []⟩ := by
  rw [run, check_rejects rejects]
  rfl

theorem run_returned {e : Failure} (accepts : p.Accepts 0 f) (on : p.validateOutput)
    (rejects : p.Rejects 1 (f.optimize p.options).1 e) :
    p.run f = ⟨.error (.validation ("optimized frame: " ++ e.quoted)), 2,
      [.optimized (f.optimize p.options).2]⟩ := by
  have second := rejects_asks.2 rejects
  obtain ⟨v, asked, -⟩ := rejects
  have once : p.asks = 1 := by rw [asks, asked]; rfl
  rw [once] at second
  rw [run, check_accepts accepts, Nat.zero_add, once]
  simp only [on, if_true, check_rejects second]
  rfl

theorem run_passed (accepts : p.Accepts 0 f)
    (passes : p.validateOutput → p.Accepts 1 (f.optimize p.options).1) :
    p.run f = ⟨.ok (f.optimize p.options).1, p.asks + if p.validateOutput then p.asks else 0,
      [.optimized (f.optimize p.options).2, .completed (f.optimize p.options).2.applied]⟩ := by
  rw [run, check_accepts accepts, Nat.zero_add]
  cases on : p.validateOutput with
  | false => rfl
  | true =>
    have second : p.Accepts p.asks (f.optimize p.options).1 :=
      fun e rejects => passes on e (rejects_asks.1 rejects)
    simp only [if_true, check_accepts second]

theorem runText_unread {s : String} {e : Failure} (unread : Frame.ofText s = .error e) :
    p.runText s = ⟨.error e, 0, []⟩ := by
  rw [runText, unread]

theorem runText_read {s : String} {f : Frame Unit} (read : Frame.ofText s = .ok f) :
    p.runText s = ⟨(p.run f).result.map Frame.text, (p.run f).calls, (p.run f).events⟩ := by
  rw [runText, read]

end Pipeline

theorem Frame.serialization_of_ofText {s : String} {e : Failure} (unread : ofText s = .error e) :
    ∃ fault, e = .unreadableFrame fault := by
  unfold ofText at unread
  cases whole : ofSymbols (Json.Symbol.ofString s) with
  | error fault =>
    rw [whole] at unread
    exact ⟨fault, (Except.error.inj unread).symm⟩
  | ok f =>
    rw [whole] at unread
    cases unread

/-- A frame that the validator rejects at once goes nowhere: it is asked once, nothing is reported,
and the failure names the input. A frame that it accepts goes through the pass, which is reported
with its counts. If the output is to be validated and is rejected, the failure names the optimized
frame and no completion is reported; if not, the run ends with what the pass has made of the frame,
and completion is reported with the same number of rules. Without a validator that is always so. A
text that cannot be read fails as the reader fails, and the validator is not asked; any other goes
the way of its frame, and ends with the text of the optimized one. -/
theorem Pipeline.run_outcome (p : Pipeline) (f : Frame ι) :
    let g := (f.optimize p.options).1
    let t := (f.optimize p.options).2
    (∀ e, p.Rejects 0 f e →
      p.run f = ⟨.error (.validation ("input frame: " ++ e.quoted)), 1, []⟩) ∧
    (p.Accepts 0 f →
      (∀ e, p.validateOutput → p.Rejects 1 g e →
        p.run f = ⟨.error (.validation ("optimized frame: " ++ e.quoted)), 2, [.optimized t]⟩) ∧
      ((p.validateOutput → p.Accepts 1 g) →
        p.run f = ⟨.ok g, p.asks + if p.validateOutput then p.asks else 0,
          [.optimized t, .completed t.applied]⟩)) ∧
    (p.validator = none → p.run f = ⟨.ok g, 0, [.optimized t, .completed t.applied]⟩) ∧
    ∀ s, (∀ e, Frame.ofText s = .error e → p.runText s = ⟨.error e, 0, []⟩ ∧
        ∃ fault, e = .serialization ("parse frame JSON: " ++ fault)) ∧
      (∀ f, Frame.ofText s = .ok f → p.runText s =
        ⟨(p.run f).result.map Frame.text, (p.run f).calls, (p.run f).events⟩) ∧
      optimizeText p.options s = (Frame.ofText s).map fun f => (f.optimize p.options).1.text := by
  intro g t
  refine ⟨fun e => run_rejected, fun accepts => ⟨fun e => run_returned accepts, ?_⟩, ?_, ?_⟩
  · exact run_passed accepts
  · intro absent
    have never : p.asks = 0 := by rw [asks, absent]; rfl
    rw [run_passed (accepts_of_none absent) fun _ => accepts_of_none absent, never]
    simp only [ite_self, Nat.add_zero, g, t]
  · intro s
    refine ⟨fun e unread => ⟨runText_unread unread, ?_⟩, fun f read => runText_read read,
      optimizeText_eq p.options s⟩
    obtain ⟨fault, rfl⟩ := Frame.serialization_of_ofText unread
    exact ⟨fault.message, rfl⟩

theorem Pipeline.run_outcome_merged :
    let small : Rejection := ⟨some (.other "too small"), none, some 3, none⟩
    let p : Pipeline := ⟨.allRules, some small.validator, true⟩
    let f : Frame Nat := ⟨⟨1, 1, .fit⟩, none, ⟨0, ⟨"white", "black", 1⟩,
      [.group 1 (.transform (.translate 1 0)) [.group 2 (.transform (.translate 0 2))
        [.shape 3 (.circle ⟨0, 0⟩ 1)]]]⟩⟩
    p.Accepts 0 f ∧ p.Rejects 1 (f.optimize .allRules).1 (.other "too small") ∧
      p.run f = ⟨.error (.validation "optimized frame: too small"), 2,
        [.optimized (f.optimize .allRules).2]⟩ := by
  intro small p f
  have before : f.bare.count = 4 := by
    rw [Frame.count_eq]
    rfl
  have after : (f.optimize .allRules).1.bare.count = 3 := by
    rw [Frame.count_eq, Frame.optimize_eq]
    decide +kernel
  have accepts : p.Accepts 0 f := by
    rintro e ⟨v, asked, answer⟩
    cases asked
    simp [Rejection.validator, Rejection.applies, small, before] at answer
  have rejects : p.Rejects 1 (f.optimize .allRules).1 (.other "too small") := by
    refine ⟨small.validator, rfl, ?_⟩
    simp [Rejection.validator, Rejection.applies, small, after]
  exact ⟨accepts, rejects, ((p.run_outcome f).2.1 accepts).1 _ rfl rejects⟩

end SceneTree
