import BotScript.Machine.Evaluation
import BotScript.Proofs.Activity.Fuel

/-!
# Activities with a sequel

Activities compose as a monad. When what follows an activity takes no time and asks nobody, running
both is running the activity and applying the sequel to its result, in the same number of small
steps.

## Main definitions

* `Outcome.andThen`: the outcome of a run after which something instant follows.
* `Running.andThen`: an activity on its way, with a sequel.

## Main results

* `Activity.bind_assoc`: composition is associative.
* `Activity.run_bind_lift`: running an activity with an instant sequel.
-/

namespace BotScript

variable {σ : Type} {n : Nat} {α β γ : Type}

namespace Activity

@[simp] theorem bind_done (a : Activity n α) : a.bind .done = a := by
  induction a with
  | done x => rfl
  | fail f => rfl
  | ask who c next ih => exact congrArg (ask who c) (funext ih)
  | pause ms next ih => exact congrArg (pause ms) ih
  | launch who c next ih => exact congrArg (launch who c) ih
  | join next ih => exact congrArg join ih
  | gather chains next ih => exact congrArg (gather chains) (funext ih)

theorem bind_assoc (a : Activity n α) (f : α → Activity n β) (g : β → Activity n γ) :
    (a.bind f).bind g = a.bind fun x => (f x).bind g := by
  induction a with
  | done x => rfl
  | fail e => rfl
  | ask who c next ih => exact congrArg (ask who c) (funext ih)
  | pause ms next ih => exact congrArg (pause ms) ih
  | launch who c next ih => exact congrArg (launch who c) ih
  | join next ih => exact congrArg join ih
  | gather chains next ih => exact congrArg (gather chains) (funext ih)

instance : LawfulMonad (Activity n) := LawfulMonad.mk' (Activity n)
  (fun a => bind_done a) (fun _ _ => rfl) (fun a f g => bind_assoc a f g)

theorem bind_eq (a : Activity n α) (f : α → Activity n β) : a >>= f = a.bind f := rfl

theorem pure_eq (x : α) : (pure x : Activity n α) = .done x := rfl

end Activity

open Activity

/-! ### Instant sequels -/

/-- Where an activity with a sequel stands. -/
def Phase.andThen (f : α → Activity n β) : Phase n α → Phase n β
  | .going a => .going (a.bind f)
  | .asking who c due result next => .asking who c due result fun x => (next x).bind f
  | .pausing due next => .pausing due (next.bind f)
  | .grouped g next => .grouped g fun xs => (next xs).bind f

/-- An activity on its way, with a sequel. -/
def Running.andThen (f : α → Activity n β) (r : Running n α) : Running n β :=
  ⟨r.launched, r.phase.andThen f⟩

/-- The outcome of a run after which something instant follows. -/
def Outcome.andThen (g : α → Except Fault β) : Outcome σ n α → Outcome σ n β
  | .ended w result => .ended w (result.bind g)
  | .cancelled w => .cancelled w
  | .expired w => .expired w
  | .never w => .never w
  | .outOfFuel w => .outOfFuel w

/-- What comes of one thing that an activity does, with an instant sequel. -/
def Advance.andThen (g : α → Except Fault β) : Advance σ n α → Advance σ n β
  | .moved w r => .moved w (r.andThen fun x => lift (g x))
  | .ended w result => .ended w (result.bind g)
  | .waits till => .waits till

namespace Running

variable (g : α → Except Fault β)

theorem drop_andThen (f : α → Activity n β) (w : World σ n) (r : Running n α) :
    (r.andThen f).drop w = r.drop w := by
  obtain ⟨launched, phase⟩ := r
  cases phase <;> rfl

theorem wake_andThen (f : α → Activity n β) (r : Running n α) :
    (r.andThen f).wake = r.wake.andThen f := by
  obtain ⟨launched, phase⟩ := r
  cases phase <;> rfl

theorem waits_andThen (f : α → Activity n β) (r : Running n α) :
    (r.andThen f).waits = r.waits := by
  obtain ⟨launched, phase⟩ := r
  cases phase <;> rfl

/-- The sequel of an activity that has nothing left to do is instant, so it ends with
the activity. -/
theorem advance_lift [ClientModel σ] (crew : Crew n) (w : World σ n)
    (launched : List (Member n .nothing)) (result : Except Fault β) :
    advance crew w ⟨launched, .going (lift result)⟩ = .ended (Group.drop w launched) result := by
  cases result <;> rfl

theorem advance_andThen [ClientModel σ] (crew : Crew n) (w : World σ n) (r : Running n α) :
    (r.andThen fun x => lift (g x)).advance crew w = (r.advance crew w).andThen g := by
  obtain ⟨launched, phase⟩ := r
  cases phase with
  | going a =>
    -- The sequel comes into play only where nothing else is left to do.
    cases a with
    | done x => exact advance_lift crew w launched (g x)
    | fail f => rfl
    | ask who c next => rfl
    | pause ms next => rfl
    | launch who c next => rfl
    | join next => rfl
    | gather chains next => rfl
  | asking who c due result next =>
    simp only [andThen, Phase.andThen, advance]
    split
    · cases result <;> rfl
    · rfl
  | pausing due next =>
    simp only [andThen, Phase.andThen, advance]
    split <;> rfl
  | grouped group next =>
    simp only [andThen, Phase.andThen, advance]
    split
    · rfl
    · rfl
    · split <;> rfl

theorem run_andThen [ClientModel σ] (crew : Crew n) (alarm : Alarm) (fuel : Nat) (w : World σ n)
    (r : Running n α) :
    (r.andThen fun x => lift (g x)).run crew alarm fuel w =
      (r.run crew alarm fuel w).andThen g := by
  induction fuel generalizing alarm w r with
  | zero => rfl
  | succ fuel ih =>
    rw [run, run, advance_andThen, waits_andThen]
    split
    · rw [drop_andThen]
      rfl
    · cases r.advance crew w with
      | moved w' r' => exact ih alarm.moved w' r'
      | ended w' result => rfl
      | waits till =>
        simp only [Advance.andThen]
        cases alarm.bell till with
        | wake t =>
          dsimp only
          rw [wake_andThen, ih]
        | cancel t =>
          dsimp only
          rw [drop_andThen]
          rfl
        | expire t =>
          dsimp only
          rw [drop_andThen]
          rfl
        | never => rfl

end Running

namespace Activity

variable [ClientModel σ]

/-- What has its result at once takes one small step. -/
theorem run_lift {fuel : Nat} (hfuel : fuel ≠ 0) (crew : Crew n) (alarm : Alarm) (w : World σ n)
    (result : Except Fault α) : (lift result).run crew alarm fuel w = .ended w result := by
  obtain ⟨fuel, rfl⟩ := Nat.exists_eq_succ_of_ne_zero hfuel
  cases result <;> rfl

/-- Running an activity with an instant sequel. -/
theorem run_bind_lift (g : α → Except Fault β) (crew : Crew n) (alarm : Alarm) (fuel : Nat)
    (w : World σ n) (a : Activity n α) :
    (a.bind fun x => lift (g x)).run crew alarm fuel w = (a.run crew alarm fuel w).andThen g :=
  Running.run_andThen g crew alarm fuel w (.ofActivity a)

end Activity

end BotScript
