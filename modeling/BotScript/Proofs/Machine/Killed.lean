import BotScript.Proofs.Machine.FanOut
import BotScript.Proofs.Machine.Reachable
import BotScript.Proofs.Machine.Settlement

/-!
# Killed machines

A machine that was killed stays killed, whatever is done with it, and nothing more is carried out:
no client is called, no line is written and no variable is set. This holds as long as the machine is
left alone. The mark is not looked at when a machine is started or run, so a killed machine can be
made to go on like any other; it is the mark that stays, and not the rest.

## Main definitions

* `Machine.Operation`: what can be done with a machine, and `Machine.Operation.resumes`,
  what makes it run.
* `Machine.applyAll`: one operation after the other.

## Main results

* `Machine.applyAll_killed`: the mark stays.
* `Machine.stopped_of_killed`: being killed stops the machine.
* `Machine.applyAll_of_stopped`: a stopped machine does nothing.
* `Machine.killed_at_rest`: the three together.
* `Machine.killed_runs_on`: a killed machine that runs on.
-/

namespace BotScript.Machine

open Cast

/-- What can be done with a machine. -/
inductive Operation where
  | load (p : Program)
  | reset
  | start
  | stop
  | kill
  | step (alarm : Alarm) (fuel : Nat)
  | run (expire : Option Nat) (fuel : Nat)
  | runUntilCancelled (token : Token) (expire : Option Nat) (fuel : Nat)

/-- Whether an operation makes a stopped machine run. -/
def Operation.resumes : Operation → Bool
  | start | run .. | runUntilCancelled .. => true
  | load _ | reset | stop | kill | step .. => false

variable {σ : Type} {n : Nat} [ClientModel σ]

/-- What comes of an operation. -/
def apply (crew : Crew n) (every : Nat) (w : World σ n) (m : Machine) :
    Operation → World σ n × Machine
  | .load p => (w, m.load p)
  | .reset => (w, m.reset)
  | .start => (w, m.start)
  | .stop => (w, m.stop)
  | .kill => (w, m.kill)
  | .step alarm fuel => (m.step crew every alarm fuel w).2
  | .run expire fuel => (m.run crew every expire fuel w).2
  | .runUntilCancelled token expire fuel => (m.runUntilCancelled crew every token expire fuel w).2

/-- What comes of one operation after the other. -/
def applyAll (crew : Crew n) (every : Nat) (w : World σ n) (m : Machine) :
    List Operation → World σ n × Machine
  | [] => (w, m)
  | op :: ops => applyAll crew every (m.apply crew every w op).1 (m.apply crew every w op).2 ops

variable {crew : Crew n} {every : Nat} {w : World σ n} {m : Machine}

/-! ### The mark stays -/

theorem kept_killed : Kept fun m => m.killed = true where
  stop h := h
  start h := h
  kill _ := rfl
  moves h _ hmoves := by
    cases hmoves with
    | kill => rfl
    | _ => exact h

theorem apply_killed (h : m.killed = true) (op : Operation) :
    (m.apply crew every w op).2.killed = true := by
  cases op with
  | load p => exact h
  | reset => exact h
  | start => exact h
  | stop => exact h
  | kill => rfl
  | step alarm fuel => exact kept_killed.step crew every alarm fuel w h
  | run expire fuel => exact kept_killed.runOn crew every expire fuel w (kept_killed.start h)
  | runUntilCancelled token expire fuel =>
    exact kept_killed.runOnUntil crew every token expire fuel 0 0 w (kept_killed.start h)

/-- A killed machine stays killed, whatever is done with it. -/
theorem applyAll_killed (h : m.killed = true) (ops : List Operation) :
    (m.applyAll crew every w ops).2.killed = true := by
  induction ops generalizing w m with
  | nil => exact h
  | cons op ops ih => exact ih (apply_killed h op)

/-! ### Being killed stops the machine -/

/-- An instruction that kills the machine stops it, and no other one comes after it in a run. -/
theorem conserved_atRest : Conserved fun m => m.killed = true → m.running = false where
  stop _ _ := rfl
  moves h _ hmoves := by
    cases hmoves with
    | kill => exact fun _ => rfl
    | _ => exact h

/-- An operation that kills the machine, by itself or by an instruction, leaves it stopped. -/
theorem stopped_of_killed (hbefore : m.killed = false) (op : Operation)
    (hafter : (m.apply crew every w op).2.killed = true) :
    (m.apply crew every w op).2.running = false := by
  have hvacuous : ∀ m' : Machine, m'.killed = m.killed → m'.killed = true → m'.running = false := by
    intro m' hsame hkilled
    rw [hsame, hbefore] at hkilled
    cases hkilled
  cases op with
  | load p => exact hvacuous (m.load p) rfl hafter
  | reset => exact hvacuous m.reset rfl hafter
  | start => exact hvacuous m.start rfl hafter
  | stop => rfl
  | kill => rfl
  | step alarm fuel => exact conserved_atRest.step crew every alarm fuel w (hvacuous m rfl) hafter
  | run expire fuel =>
    exact conserved_atRest.runOn crew every expire fuel w (hvacuous m.start rfl) hafter
  | runUntilCancelled token expire fuel =>
    have hstart := hvacuous m.start rfl
    exact conserved_atRest.runOnUntil crew every token expire fuel 0 0 w hstart hafter

/-! ### Nothing is carried out -/

/-- What is done with a stopped machine, other than making it run, neither changes the world nor
sets a variable. -/
theorem apply_of_stopped (crew : Crew n) (every : Nat) (w : World σ n) (h : m.running = false)
    {op : Operation} (hop : op.resumes = false) :
    (m.apply crew every w op).1 = w ∧ (m.apply crew every w op).2.running = false ∧
      ∀ name v, (m.apply crew every w op).2.vars.get? name = some v →
      m.vars.get? name = some v := by
  cases op with
  | load p => exact ⟨rfl, h, fun name v hv => nomatch hv⟩
  | reset => exact ⟨rfl, h, fun name v hv => nomatch hv⟩
  | start => cases hop
  | stop => exact ⟨rfl, rfl, fun name v hv => hv⟩
  | kill => exact ⟨rfl, rfl, fun name v hv => hv⟩
  | step alarm fuel =>
    rw [apply, step_of_not_running h]
    exact ⟨rfl, h, fun name v hv => hv⟩
  | run expire fuel => cases hop
  | runUntilCancelled token expire fuel => cases hop

theorem applyAll_of_stopped (crew : Crew n) (every : Nat) (w : World σ n) (h : m.running = false)
    {ops : List Operation} (hops : ∀ op ∈ ops, op.resumes = false) :
    (m.applyAll crew every w ops).1 = w ∧ (m.applyAll crew every w ops).2.running = false ∧
      ∀ name v, (m.applyAll crew every w ops).2.vars.get? name = some v →
      m.vars.get? name = some v := by
  induction ops generalizing w m with
  | nil => exact ⟨rfl, h, fun name v hv => hv⟩
  | cons op ops ih =>
    obtain ⟨hworld, hstopped, hvars⟩ := apply_of_stopped crew every w h (hops op List.mem_cons_self)
    obtain ⟨hworlds, hend, hends⟩ := ih (m.apply crew every w op).1 hstopped
      fun op' hop' => hops op' (List.mem_cons_of_mem op hop')
    exact ⟨hworlds.trans hworld, hend, fun name v hv => hvars name v (hends name v hv)⟩

/-- Once a machine is killed, by an instruction or from outside, it stays killed and it has stopped.
As long as it is neither started nor run again, whatever else is done with it makes no call, writes
no line, lets no time pass and sets no variable. -/
theorem killed_at_rest (crew : Crew n) (every : Nat) (w : World σ n) (m : Machine) :
    (∀ ops, m.killed = true → (m.applyAll crew every w ops).2.killed = true) ∧
      (∀ op, m.killed = false ∨ op = .kill → (m.apply crew every w op).2.killed = true →
        (m.apply crew every w op).2.running = false) ∧
      ∀ ops, m.killed = true → m.running = false → (∀ op ∈ ops, op.resumes = false) →
        (m.applyAll crew every w ops).1 = w ∧ (m.applyAll crew every w ops).2.running = false ∧
          ∀ name v, (m.applyAll crew every w ops).2.vars.get? name = some v →
            m.vars.get? name = some v := by
  refine ⟨fun ops h => applyAll_killed h ops, fun op hop hkilled => ?_, fun ops _ h hops => ?_⟩
  · rcases hop with hbefore | rfl
    · exact stopped_of_killed hbefore op hkilled
    · rfl
  · exact applyAll_of_stopped crew every w h hops

/-- A machine that sets a variable, is killed and would write a line. -/
def lastWill : Machine := idle.load ⟨[.assign "x" (.string "s"), .kill, .logLiteral [.word "a"]]⟩

/-- Run until it is killed, it does nothing in a step, and the next program is not begun. -/
theorem lastWill_at_rest :
    let world : World Rehearsal 2 := twoClients
    let killed := (lastWill.apply pair 100 world (.run none 10)).2
    (lastWill.killed = false ∧ killed.killed = true ∧ killed.vars.get? "x" = some (.string "s")) ∧
      killed.running = false ∧
      (killed.applyAll pair 100 world [.step ⟨none, none⟩ 10, .load lastWill.program,
        .step ⟨none, none⟩ 10]).1 = world ∧
      (killed.applyAll pair 100 world [.start, .step ⟨none, none⟩ 10]).2.killed = true := by
  intro world killed
  obtain ⟨-, hstops, -⟩ := killed_at_rest pair 100 world lastWill
  obtain ⟨hstays, -, hrests⟩ := killed_at_rest pair 100 world killed
  have hstopped : killed.running = false := hstops (.run none 10) (.inl rfl) rfl
  exact ⟨⟨rfl, rfl, rfl⟩, hstopped, (hrests _ rfl hstopped (by decide)).1, hstays _ rfl⟩

/-- A killed machine writes a line when it is run, and when it is started and makes a step. -/
theorem killed_runs_on :
    let m := idle.load ⟨[.logLiteral [.word "a"]]⟩
    let ran := m.applyAll pair 100 twoClients [.kill, .run none 10]
    let stepped := m.applyAll pair 100 twoClients [.kill, .start, .step ⟨none, none⟩ 10]
    m.kill.killed = true ∧ twoClients.lines = [] ∧ (ran.2.killed = true ∧ ran.1.lines = ["a"]) ∧
      stepped.2.killed = true ∧ stepped.1.lines = ["a"] := by
  decide

end BotScript.Machine
