import BotScript.Proofs.Activity.Focus
import BotScript.Proofs.Machine.Plans
import BotScript.Proofs.Machine.Settlement

/-!
# Teleports to friends

To get to a friend, a client uses the list of friends, for which it needs the input focus. At every
moment of such a teleport, however long the calls take, whichever of them fail and whenever it is
stopped, the clients that share a focus have it one at a time, in their order, and only a client
that has it makes its call. Afterwards the focus is claimed by nobody who did not claim it before.

## Main definitions

* `Destination.friend?`: the friend that is teleported to.

## Main results

* `Machine.focus_exclusive`: what holds in the course of a teleport to a friend, and at its end.
-/

namespace BotScript

open World Cast

/-- The friend to whom a teleport goes. -/
def Destination.friend? : Destination → Option Friend
  | .friendIcon => some topFriend
  | .friendName name => some (.name name)
  | _ => none

namespace Machine

variable {σ : Type} {n : Nat} {f : Friend} {goal : Destination}

/-- A teleport to a friend is one call of every selected client under the input focus. -/
theorem plan_friend (crew : Crew n) (every : Nat) (m : Machine) (who : Selector)
    (hgoal : goal.friend? = some f) :
    m.plan crew every (.act who (.teleport goal)) =
      .gather ((who.pick n).map fun i => (i, .focus (.once (.toFriend f)))) fun _ =>
      .done ⟨m.next, []⟩ := by
  cases goal with
  | friendIcon =>
    cases hgoal
    rfl
  | friendName name =>
    cases hgoal
    rfl
  | _ => cases hgoal

theorem log_claims (w : World σ n) (lines : List String) : (w.log lines).claims = w.claims := by
  induction lines generalizing w with
  | nil => rfl
  | cons line rest ih => exact ih (w.record (.line line))

/-- What a step leaves of the claims is what its activity does. -/
theorem conclude_claims {w : World σ n} {m : Machine} {o : Outcome σ n Effect} (h : o.Frees w)
    (hover : (m.conclude o).1.isOver = true) : (m.conclude o).2.1.claims = w.claims := by
  cases o with
  | ended w' result =>
    cases result with
    | ok effect => exact (log_claims w' effect.lines).trans h
    | error f => exact h
  | cancelled w' => exact h
  | expired w' => exact h
  | never w' => cases hover
  | outOfFuel w' => cases hover

/-- The input focus is exclusive in the course of a teleport to a friend, and given back at its end.
Whatever is under way at any moment are calls to teleport to the friend, by selected clients that
have the focus, no two of which share it. Those that share a focus make their calls in order. By the
time the step is over, in whatever way, the claims are those from before. -/
theorem focus_exclusive [ClientModel σ] (crew : Crew n) (every : Nat) (alarm : Alarm)
    (w : World σ n)
    (m : Machine) {who : Selector} (hi : m.instruction? = some (.act who (.teleport goal)))
    (hgoal : goal.friend? = some f) (hfree : ∀ i ∈ who.pick n, i ∉ w.claims) :
    (∀ w' r, Running.Comes crew alarm w
      (.ofActivity (m.plan crew every (.act who (.teleport goal)))) w' r →
      (∀ i p, r.pending i = some p →
        p = ⟨.nothing, .toFriend f⟩ ∧ i ∈ who.pick n ∧ w'.hasFocus crew i = true) ∧
      (∀ i j, r.pending i ≠ none → r.pending j ≠ none → crew.sameFocus i j = true → i = j) ∧
      ∃ events, w'.journal = events ++ w.journal ∧ Paired events r.pending ∧
        ∀ k, (callers events).filter (crew.sameFocus k) <+:
        (who.pick n).filter (crew.sameFocus k)) ∧
    ∀ fuel, (m.step crew every alarm fuel w).1.isOver = true →
      (m.step crew every alarm fuel w).2.1.claims = w.claims := by
  have hordered : (who.pick n).Pairwise (· < ·) := Selector.pick_pairwise who n
  have hnodup : (who.pick n).Nodup := hordered.imp Fin.ne_of_lt
  have hbegins : Running.Attending crew (.toFriend f) (who.pick n) w w
      (.ofActivity (m.plan crew every (.act who (.teleport goal)))) := by
    rw [plan_friend crew every m who hgoal]
    exact .begins fun _ => ⟨_, rfl⟩
  constructor
  · intro w' r hcomes
    -- The invariant tells who has the focus; the journal is told apart from it by the
    -- pairing of calls.
    have hattending := hcomes.attending hbegins hnodup hfree
    have htidy := Running.tidy_ofActivity
      ((Instruction.act who (.teleport goal)).clients_pairwise n)
      (m.plan_tidy crew every (.act who (.teleport goal)))
    obtain ⟨events, hevents, hpaired⟩ := hcomes.pairs htidy (Pairs.refl w)
    exact ⟨fun i p hp => hattending.hasFocus hnodup hp,
      fun i j hi hj hsame => hattending.exclusive hnodup hi hj hsame,
      events, hevents, hpaired, hattending.inOrder hevents⟩
  · intro fuel hover
    cases hrunning : m.running with
    | false => rw [step_of_not_running hrunning]
    | true =>
      rw [step_of_instruction hrunning hi] at hover ⊢
      exact conclude_claims (hbegins.run_frees hnodup hfree alarm fuel) hover

/-- They all teleport to a friend, which takes them some time. -/
def reunion (ms : Nat) : StepResult × World Rehearsal 3 × Machine :=
  (idle.load ⟨[.act .all (.teleport (.friendName "Ann"))]⟩).start.step friends 100
    ⟨some (.atTime ms), none⟩ 30
    (.initial #v[slowClient 10, slowClient 20, slowClient 40])

/-- Cancelled after 15 milliseconds, the first client is with its friend, and the second one has got
the focus from it. -/
theorem reunion_gives_back :
    (reunion 15).2.1.history = [.made 0 0 (.toFriend (.name "Ann")) true,
        .made 0 2 (.toFriend (.name "Ann")) true, .answered 10 0 (.toFriend (.name "Ann")) (),
        .made 10 1 (.toFriend (.name "Ann")) true, .dropped 15 1 (.toFriend (.name "Ann")),
        .dropped 15 2 (.toFriend (.name "Ann"))] ∧
      (reunion 15).2.1.claims = [] := by
  refine ⟨by rfl, ?_⟩
  have hfocus := focus_exclusive friends 100 ⟨some (.atTime 15), none⟩
    (.initial #v[slowClient 10, slowClient 20, slowClient 40])
    (idle.load ⟨[.act .all (.teleport (.friendName "Ann"))]⟩).start rfl rfl
    (fun _ _ => by simp [initial])
  exact hfocus.2 30 (by rfl)

end Machine

end BotScript
