import Mathlib.Tactic.Choose
import BotScript.Proofs.Activity.Rounds

/-!
# The outcome of a group

When a group comes to its end and with which result, in terms of its members by themselves. A group
succeeds when the last of its members has, and the results are in the order of the members. A small
group fails with the member that fails first. A large group collects the results in order: it fails
with the first member, by its place, that does not end well, once all before it have ended.

When a group fails, each member is stopped then. The members up to the one with the last turn have
done all they can at that time; those behind it have not done anything at that time.

## Main definitions

* `Group.Fresh`: a group that is about to begin.
* `Group.FailsAt`, `Group.SucceedsAt`: how a group comes to its end.
* `Group.FanOut`: the outcome of a group.

## Main results

* `Group.Decides.eq_cursor`, `Group.Decides.cursor_le`: who had the last turn when a group fails.
* `Group.Fresh.failsAt_of_small`, `Group.Fresh.failsAt_of_large`,
  `Group.Fresh.succeedsAt`: the cases.
* `Group.Fresh.fanOut`: the outcome of a group that is about to begin.
-/

namespace BotScript

open World

variable {σ : Type} {n : Nat} {κ : AnswerKind} {α : Type}

/-- A fault that a chain of a client may end with: a call of the client failed, or a
window is not there. -/
def Fault.IsOf (crew : Crew n) (who : Fin n) (f : Fault) : Prop :=
  (∃ e, f = .client (crew.title who) e) ∨ f.IsMissingWindow

namespace Group

/-! ### Giving up a group -/

section Drop

variable {crew : Crew n} {w : World σ n} {members : List (Member n κ)}

theorem agrees_drop_others {i : Fin n} (h : ∀ m ∈ members, crew.sameFocus i m.who = false)
    (w : World σ n) : Agrees crew i (Group.drop w members) w := by
  induction members generalizing w with
  | nil => exact .refl crew i w
  | cons m rest ih =>
    have hfirst : Agrees crew i (m.drop w) w := Member.agrees_drop (h m (by simp)) w
    exact (ih (fun m' hm' => h m' (by simp [hm'])) (m.drop w)).trans hfirst

/-- Giving up a group gives up each of its members. -/
theorem agrees_drop (hapart : crew.Apart (members.map Member.who)) {j : Nat} {m : Member n κ}
    (hm : members[j]? = some m) (w : World σ n) :
    Agrees crew m.who (Group.drop w members) (m.drop w) := by
  induction members generalizing j w with
  | nil => cases hm
  | cons first rest ih =>
    obtain ⟨hfirst, hrest⟩ := List.pairwise_cons.mp hapart
    cases j with
    | zero =>
      cases hm
      exact agrees_drop_others (fun m' hm' => hfirst _ (List.mem_map_of_mem hm')) (m.drop w)
    | succ j =>
      have hother : crew.sameFocus m.who first.who = false := by
        rw [Crew.sameFocus_comm]
        exact hfirst _ (List.mem_map_of_mem (List.mem_of_getElem? hm))
      have hdrop := Member.drop_congr (Member.agrees_drop hother w) (Member.drop_now w first)
      exact (ih hrest hm (first.drop w)).trans hdrop

end Drop

variable [ClientModel σ] {crew : Crew n} {w w' : World σ n} {g g' : Group n κ} {k : Nat → Nat}
  {next : List κ.Answer → Activity n α} {i j p t t' : Nat} {f : Fault}
  {r r' : Except Fault κ.Answer} {results : List κ.Answer}

/-! ### Before a group begins -/

/-- A group that is about to begin: nobody has ended, no two members share the input focus, none of
them goes on for ever at one instant, and each can fail only for a reason of its own. -/
structure Fresh (crew : Crew n) (w : World σ n) (g : Group n κ) : Prop where
  cursor : g.cursor = 0
  begins : ∀ m ∈ g.members, ∀ r, ¬ m.Ended r
  apart : crew.Apart (g.members.map Member.who)
  timely : ∀ m ∈ g.members, ∀ T, m.Timely crew T w
  faults : ∀ m ∈ g.members, m.stage.Ensures (Fault.IsOf crew m.who)

theorem EndsAt.unique (h : EndsAt crew w g.members i t r) (h' : EndsAt crew w g.members i t' r') :
    t = t' ∧ r = r' := by
  obtain ⟨m, hm, halone⟩ := h
  obtain ⟨m', hm', halone'⟩ := h'
  cases hm.symm.trans hm'
  exact halone.unique halone'

theorem EndsAt.now_le (h : EndsAt crew w g.members i t r) : w.now ≤ t := by
  obtain ⟨m, -, halone⟩ := h
  exact halone.now_le

/-- A group that is about to begin has no verdict, unless it has no members. -/
theorem Fresh.verdict_eq_none (h : Fresh crew w g) (hm : i < g.members.length) :
    g.verdict = none := by
  cases hverdict : g.verdict with
  | none => rfl
  | some result =>
    cases result with
    | error f =>
      obtain ⟨j, m, hm, hended⟩ := exists_failed_of_verdict hverdict
      exact absurd hended (h.begins m (List.mem_of_getElem? hm) _)
    | ok results =>
      obtain ⟨a, hended⟩ :=
        exists_of_forall₂ (verdict_eq_ok_iff.mp hverdict) (List.getElem_mem hm)
      exact absurd hended (h.begins _ (List.getElem_mem hm) _)

/-- A group that is about to begin and has to have a verdict by a time comes to one by then. -/
theorem Fresh.exists_decides (h : Fresh crew w g) (hends : EndsAt crew w g.members i t r)
    (hdecided : ∀ g' : Group n κ, g'.members.length = g.members.length →
      (∀ j t' r', EndsAt crew w g.members j t' r' → t' ≤ t → EndedAt g'.members j r') →
      g'.verdict ≠ none) (next : List κ.Answer → Activity n α) :
    ∃ ticks k w' g', Decides crew w g.members k w' g' ∧ w'.now ≤ t ∧
      ∀ fuel, Running.run crew ⟨none, none⟩ (fuel + ticks) w ⟨[], .grouped g next⟩ =
        Running.run crew ⟨none, none⟩ fuel w' ⟨[], .grouped g' next⟩ := by
  have hbudgets : ∀ j : Nat, ∃ budget, ∀ m : Member n κ, g.members[j]? = some m →
      (m.alone.run crew ⟨none, some t⟩ budget w).IsFinal := by
    intro j
    cases hm : g.members[j]? with
    | none => exact ⟨0, fun m hm' => nomatch hm'⟩
    | some m =>
      obtain ⟨budget, hbudget⟩ := h.timely m (List.mem_of_getElem? hm) t
      exact ⟨budget, fun m' hm' => Option.some.inj hm' ▸ hbudget⟩
  choose budget hbudget using hbudgets
  obtain ⟨m, hm, -⟩ := id hends
  have hstart := tracks_start crew w g.members
  have hfresh : (⟨g.members, 0⟩ : Group n κ) = g := by rw [← h.cursor]
  rw [hfresh] at hstart
  exact hstart.exists_decides h.apart hbudget hdecided hends.now_le
    (h.verdict_eq_none (List.getElem?_eq_some_iff.mp hm).1)

/-! ### Coming to an end -/

/-- A group fails at a time. Each member is stopped then: those up to a place after they have done
all they can at that time, those behind it before they have done anything at that time. -/
def FailsAt (crew : Crew n) (w : World σ n) (g : Group n κ) (next : List κ.Answer → Activity n α)
    (t last : Nat) (f : Fault) : Prop :=
  ∃ fuel w', Running.run crew ⟨none, none⟩ fuel w ⟨[], .grouped g next⟩ = .ended w' (.error f) ∧
    w'.now = t ∧ ∀ (j : Nat) (m : Member n κ), g.members[j]? = some m →
      ∃ v, m.StopsAlone crew w t (decide (j ≤ last)) v ∧ Agrees crew m.who w' v

/-- A group succeeds at a time, with the results of its members in order, and each
member has come to its end. -/
def SucceedsAt (crew : Crew n) (w : World σ n) (g : Group n κ) (next : List κ.Answer → Activity n α)
    (t : Nat) (results : List κ.Answer) : Prop :=
  ∃ ticks w', (∀ fuel, Running.run crew ⟨none, none⟩ (fuel + ticks) w ⟨[], .grouped g next⟩ =
      Running.run crew ⟨none, none⟩ fuel w' ⟨[], .going (next results)⟩) ∧
    w'.now = t ∧ ∀ (j : Nat) (m : Member n κ), g.members[j]? = some m →
      ∃ v, m.StopsAlone crew w t true v ∧ Agrees crew m.who w' v

/-- A group fails at one time only, whatever the fuel. -/
theorem FailsAt.now_eq (h : FailsAt crew w g next t i f) (fuel : Nat)
    (hfinal : (Running.run crew ⟨none, none⟩ fuel w ⟨[], .grouped g next⟩).IsFinal) :
    (Running.run crew ⟨none, none⟩ fuel w ⟨[], .grouped g next⟩).world.now = t := by
  obtain ⟨enough, w', hrun, hnow, -⟩ := h
  rw [← hnow, Running.run_unique hfinal (by rw [hrun]; trivial), hrun]
  rfl

/-- A member that has ended would have ended by itself. -/
theorem Tracks.endsAt (h : Tracks crew w g.members k w' g') (hended : EndedAt g'.members j r) :
    ∃ t ≤ w'.now, EndsAt crew w g.members j t r := by
  obtain ⟨m, hm, hended⟩ := hended
  obtain ⟨m₀, hm₀⟩ := h.exists_start hm
  obtain ⟨t, hle, halone⟩ := (h.inStep j m₀ m hm₀ hm).endsAlone hended
  exact ⟨t, hle, m₀, hm₀, halone⟩

/-- A member ends in a group with the result it has by itself. -/
theorem Tracks.eq_of_endedAt (h : Tracks crew w g.members k w' g')
    (hended : EndedAt g'.members j r) (hends : EndsAt crew w g.members j t r') :
    r = r' ∧ t ≤ w'.now := by
  obtain ⟨t', hle, hends'⟩ := h.endsAt hended
  obtain ⟨rfl, rfl⟩ := hends'.unique hends
  exact ⟨rfl, hle⟩

/-- The member with the last turn ends by itself at this time, if it has ended. -/
theorem Decides.endsAt_cursor (h : Decides crew w g.members k w' g')
    (hended : EndedAt g'.members g'.cursor r) : EndsAt crew w g.members g'.cursor w'.now r := by
  obtain ⟨m₀, m, hm₀, hm, hactive⟩ := h.mover
  obtain ⟨m', hm', hended⟩ := hended
  cases hm.symm.trans hm'
  exact ⟨m₀, hm₀, hactive.endsAlone hended⟩

/-- A member before the one with the last turn has ended, if it ends by itself by this time. -/
theorem Tracks.endedAt_of_before (h : Tracks crew w g.members k w' g') (hlt : j < g'.cursor)
    (hends : EndsAt crew w g.members j t r) (hle : t ≤ w'.now) : EndedAt g'.members j r := by
  obtain ⟨m₀, hm₀, halone⟩ := hends
  have hj : j < g'.members.length := h.length_eq ▸ (List.getElem?_eq_some_iff.mp hm₀).1
  have hm := List.getElem?_eq_getElem hj
  have hstep := h.inStep j m₀ _ hm₀ hm
  refine ⟨_, hm, ?_⟩
  by_cases hended : ∃ r', (g'.members[j]).Ended r'
  · obtain ⟨r', hended⟩ := hended
    exact (h.eq_of_endedAt ⟨_, hm, hended⟩ ⟨m₀, hm₀, halone⟩).1 ▸ hended
  · obtain ⟨s, -, hlt', hst⟩ :=
      hstep.exists_wakeAt (h.before j _ hlt hm) (not_exists.mp hended) halone
    omega

theorem Tracks.exists_endedAt_of_succeeded (h : Tracks crew w g.members k w' g')
    (hverdict : g'.verdict = some (.ok results)) (hends : EndsAt crew w g.members j t r) :
    ∃ a, EndedAt g'.members j (.ok a) := by
  obtain ⟨m₀, hm₀, -⟩ := hends
  have hj : j < g'.members.length := h.length_eq ▸ (List.getElem?_eq_some_iff.mp hm₀).1
  obtain ⟨a, hended⟩ :=
    exists_of_forall₂ (verdict_eq_ok_iff.mp hverdict) (List.getElem_mem hj)
  exact ⟨a, _, List.getElem?_eq_getElem hj, hended⟩

/-- A group with a member that fails by itself does not succeed. -/
theorem Decides.exists_failure (h : Decides crew w g.members k w' g')
    (hfails : EndsAt crew w g.members j t (.error f)) : ∃ f', g'.verdict = some (.error f') := by
  cases hverdict : g'.verdict with
  | none => exact absurd hverdict h.decided
  | some result =>
    cases result with
    | error f' => exact ⟨f', rfl⟩
    | ok results =>
      obtain ⟨a, hended⟩ := h.exists_endedAt_of_succeeded hverdict hfails
      cases (h.eq_of_endedAt hended hfails).1

/-- The members when the verdict has come, each stopped. -/
theorem Decides.stops (hfresh : Fresh crew w g) (h : Decides crew w g.members k w' g')
    (hended : EndedAt g'.members g'.cursor r) {m₀ : Member n κ} (hm₀ : g.members[j]? = some m₀) :
    ∃ v, m₀.StopsAlone crew w w'.now (decide (j ≤ g'.cursor)) v ∧
      Agrees crew m₀.who (Group.drop w' g'.members) v := by
  have hj : j < g'.members.length := h.length_eq ▸ (List.getElem?_eq_some_iff.mp hm₀).1
  have hm := List.getElem?_eq_getElem hj
  generalize g'.members[j] = m at hm
  have hstep := h.inStep j m₀ m hm₀ hm
  have hstart := hfresh.begins m₀ (List.mem_of_getElem? hm₀)
  have hdrop : Agrees crew m.who (Group.drop w' g'.members) (m.drop w') :=
    agrees_drop (h.who_eq ▸ hfresh.apart) hm w'
  rw [← hstep.who_eq]
  -- Those up to the last turn cannot go on at this time; those behind it have not had
  -- their turn yet.
  rcases Nat.lt_trichotomy j g'.cursor with hlt | rfl | hgt
  · obtain ⟨v, hstops, hagrees⟩ := hstep.stopsAlone hstart (h.before j m hlt hm)
    rw [decide_eq_true (Nat.le_of_lt hlt)]
    exact ⟨v, hstops, hdrop.trans hagrees⟩
  · obtain ⟨m', hm', hended⟩ := hended
    cases hm.symm.trans hm'
    obtain ⟨v, hstops, hagrees⟩ := hstep.stopsAlone hstart (Member.canMove_of_ended hended)
    rw [decide_eq_true (Nat.le_refl _)]
    exact ⟨v, hstops, hdrop.trans hagrees⟩
  · rw [decide_eq_false (Nat.not_le.mpr hgt)]
    rcases h.after j m₀ m hgt hm₀ hm with hrested | ⟨rfl, hnow, hagrees⟩
    · obtain ⟨v, hstops, hagrees⟩ := hrested.stopsAlone hstart
      exact ⟨v, hstops, hdrop.trans hagrees⟩
    · exact ⟨m.drop w, .untouched hnow.symm, hdrop.trans (Member.drop_congr hagrees hnow)⟩

/-- A group that has come to a failure. -/
theorem Decides.failsAt (hfresh : Fresh crew w g) (h : Decides crew w g.members k w' g')
    (hended : EndedAt g'.members g'.cursor r) (hverdict : g'.verdict = some (.error f))
    {ticks : Nat}
    (hrun : ∀ fuel, Running.run crew ⟨none, none⟩ (fuel + ticks) w ⟨[], .grouped g next⟩ =
      Running.run crew ⟨none, none⟩ fuel w' ⟨[], .grouped g' next⟩) :
    FailsAt crew w g next w'.now g'.cursor f := by
  refine ⟨1 + ticks, Group.drop w' g'.members, ?_, Group.drop_now w' _, fun j m hm => ?_⟩
  · rw [hrun]
    exact Running.run_succ_halt (tick_of_failed hverdict) 0
  · exact h.stops hfresh hended hm

/-! ### Small groups -/

/-- Whoever has failed in a small group has done so with the last turn, as the verdict
would have come before. -/
theorem Decides.eq_cursor (h : Decides crew w g.members k w' g')
    (hsmall : g.members.length ≤ smallSize) (hfailed : EndedAt g'.members j (.error f)) :
    j = g'.cursor := by
  by_contra hne
  obtain ⟨g₁, hnone, hlength, hsame⟩ := h.undecided
  rw [EndedAt, ← hsame j hne] at hfailed
  have hsmall₁ : g₁.members.length ≤ smallSize := by
    rw [hlength, h.length_eq]
    exact hsmall
  obtain ⟨f', hverdict⟩ := verdict_of_failed hsmall₁ hfailed
  rw [hnone] at hverdict
  cases hverdict

/-- A small group fails with the member that fails first; of those that fail at the same time, with
the first in order. -/
theorem Fresh.failsAt_of_small (h : Fresh crew w g) (hsmall : g.members.length ≤ smallSize)
    (hfails : EndsAt crew w g.members p t (.error f))
    (hfirst : ∀ q t' f', EndsAt crew w g.members q t' (.error f') → t < t' ∨ t = t' ∧ p ≤ q) :
    FailsAt crew w g next t p f := by
  obtain ⟨ticks, k, w', g', hdecides, hle, hrun⟩ :=
    h.exists_decides hfails (fun g' hlength hended => by
    obtain ⟨e, he⟩ := verdict_of_failed (hlength ▸ hsmall) (hended p t _ hfails (Nat.le_refl t))
    rw [he]
    exact Option.some_ne_none _) next
  obtain ⟨f', hverdict⟩ := hdecides.exists_failure hfails
  obtain ⟨q, hq⟩ := exists_failed_of_verdict hverdict
  obtain rfl := hdecides.eq_cursor hsmall hq
  have hends := hdecides.endsAt_cursor hq
  rcases hfirst _ _ _ hends with hlt | ⟨rfl, hpq⟩
  · exact absurd hle (Nat.not_le.mpr hlt)
  · -- If it were before the last one, it could not go on any more at this time, and
    -- would have ended.
    obtain rfl : p = g'.cursor := by
      refine Nat.le_antisymm hpq (Nat.le_of_not_lt fun hlt => ?_)
      have hended := hdecides.endedAt_of_before hlt hfails (Nat.le_refl _)
      exact absurd (hdecides.eq_cursor hsmall hended) (Nat.ne_of_lt hlt)
    obtain ⟨-, hsame⟩ := hends.unique hfails
    cases hsame
    exact hdecides.failsAt h hq hverdict hrun

/-! ### Large groups -/

/-- In a large group, the failure is that of the first member in order that fails by itself. -/
theorem Decides.failed_inOrder (h : Decides crew w g.members k w' g')
    (hlarge : smallSize < g.members.length) (hfails : EndsAt crew w g.members p t (.error f))
    (hbefore : ∀ j < p, ∃ t' a, EndsAt crew w g.members j t' (.ok a)) :
    g'.verdict = some (.error f) ∧ EndedAt g'.members p (.error f) ∧
      ∀ j < p, ∃ a, EndedAt g'.members j (.ok a) := by
  obtain ⟨f', hverdict⟩ := h.exists_failure hfails
  obtain ⟨i, hfailed, hwell⟩ := (verdict_eq_error_iff (h.length_eq ▸ hlarge)).mp hverdict
  obtain rfl : i = p := by
    rcases Nat.lt_trichotomy i p with hlt | heq | hgt
    · obtain ⟨t', a, hends⟩ := hbefore i hlt
      cases (h.eq_of_endedAt hfailed hends).1
    · exact heq
    · obtain ⟨a, hended⟩ := hwell p hgt
      cases (h.eq_of_endedAt hended hfails).1
  cases (h.eq_of_endedAt hfailed hfails).1
  exact ⟨hverdict, hfailed, hwell⟩

/-- The last turn was that of a member up to the failing one: otherwise the verdict would have come
before. -/
theorem Decides.cursor_le (h : Decides crew w g.members k w' g')
    (hlarge : smallSize < g.members.length) (hfailed : EndedAt g'.members p (.error f))
    (hwell : ∀ j < p, ∃ a, EndedAt g'.members j (.ok a)) : g'.cursor ≤ p := by
  refine Nat.le_of_not_lt fun hlt => ?_
  obtain ⟨g₁, hnone, hlength, hsame⟩ := h.undecided
  have hsame' : ∀ j ≤ p, ∀ r, EndedAt g'.members j r → EndedAt g₁.members j r := by
    intro j hj r hended
    rwa [EndedAt, hsame j (by omega)]
  have hlarge₁ : smallSize < g₁.members.length := by
    rw [hlength, h.length_eq]
    exact hlarge
  have hearly := (verdict_eq_error_iff hlarge₁).mpr
    ⟨p, hsame' p (Nat.le_refl p) _ hfailed, fun j hj => by
      obtain ⟨a, hended⟩ := hwell j hj
      exact ⟨a, hsame' j (Nat.le_of_lt hj) _ hended⟩⟩
  rw [hnone] at hearly
  cases hearly

/-- A member behind the one with the last turn has ended before this time, if it has ended. -/
theorem Decides.lt_of_after (hfresh : Fresh crew w g) (h : Decides crew w g.members k w' g')
    (hgt : g'.cursor < j) (hended : EndedAt g'.members j r)
    (hends : EndsAt crew w g.members j t r') : t < w'.now := by
  obtain ⟨m₀, hm₀, halone⟩ := hends
  obtain ⟨m, hm, hended⟩ := hended
  rcases h.after j m₀ m hgt hm₀ hm with hrested | ⟨rfl, -⟩
  · obtain ⟨s, hlt, halone'⟩ := hrested.endsAlone hended
    rw [(halone.unique halone').1]
    exact hlt
  · exact absurd hended (hfresh.begins m (List.mem_of_getElem? hm₀) r)

/-- A large group fails with the first member in order that fails, if all before it end well, once
the last of them has ended. -/
theorem Fresh.failsAt_of_large (h : Fresh crew w g) (hlarge : smallSize < g.members.length)
    (hfails : EndsAt crew w g.members p t (.error f))
    (hbefore : ∀ j < p, ∃ t' a, EndsAt crew w g.members j t' (.ok a)) {T : Nat}
    (hlast : ∃ q ≤ p, ∃ r, EndsAt crew w g.members q T r)
    (hbound : ∀ j t' r, j ≤ p → EndsAt crew w g.members j t' r → t' ≤ T) :
    ∃ q ≤ p, (∃ r, EndsAt crew w g.members q T r) ∧
      (∀ j t' r, q < j → j ≤ p → EndsAt crew w g.members j t' r → t' < T) ∧
      FailsAt crew w g next T q f := by
  obtain ⟨q, hqp, r, hq⟩ := hlast
  obtain ⟨ticks, k, w', g', hdecides, hle, hrun⟩ := h.exists_decides hq (fun g' hlength hended => by
    have hfailed := hended p t _ hfails (hbound p t _ (Nat.le_refl p) hfails)
    have hverdict := (verdict_eq_error_iff (hlength ▸ hlarge)).mpr ⟨p, hfailed, fun j hj => by
      obtain ⟨t', a, hends⟩ := hbefore j hj
      exact ⟨a, hended j t' _ hends (hbound j t' _ (Nat.le_of_lt hj) hends)⟩⟩
    rw [hverdict]
    exact Option.some_ne_none _) next
  obtain ⟨hverdict, hfailed, hwell⟩ := hdecides.failed_inOrder hlarge hfails hbefore
  have hended : ∀ j ≤ p, ∃ r, EndedAt g'.members j r := by
    intro j hj
    rcases Nat.lt_or_eq_of_le hj with hlt | rfl
    · obtain ⟨a, hended⟩ := hwell j hlt
      exact ⟨_, hended⟩
    · exact ⟨_, hfailed⟩
  -- Everyone up to the failing member has ended, so the last one of them has.
  have hnow : w'.now = T := by
    obtain ⟨r', hended⟩ := hended q hqp
    exact Nat.le_antisymm hle (hdecides.eq_of_endedAt hended hq).2
  have hcursor := hdecides.cursor_le hlarge hfailed hwell
  obtain ⟨rc, hrc⟩ := hended g'.cursor hcursor
  refine ⟨g'.cursor, hcursor, ⟨rc, hnow ▸ hdecides.endsAt_cursor hrc⟩, ?_,
    hnow ▸ hdecides.failsAt h hrc hverdict hrun⟩
  intro j t' r' hgt hjp hends
  obtain ⟨rj, hrj⟩ := hended j hjp
  exact hnow ▸ hdecides.lt_of_after h hgt hrj hends

/-! ### Success -/

/-- A group in which everyone has ended with a given result. -/
theorem verdict_eq_ok (hlength : g.members.length = results.length)
    (hended : ∀ j a, results[j]? = some a → EndedAt g.members j (.ok a)) :
    g.verdict = some (.ok results) := by
  rw [verdict_eq_ok_iff, List.forall₂_iff_get]
  refine ⟨hlength, fun j hj hj' => ?_⟩
  obtain ⟨m, hm, hended⟩ := hended j _ (List.getElem?_eq_getElem hj')
  rw [List.getElem?_eq_getElem hj] at hm
  cases hm
  exact hended

/-- Nobody fails in a group in which everyone ends well by itself, so everyone has ended well. -/
theorem Decides.endedAt_of_well (h : Decides crew w g.members k w' g')
    (hwell : ∀ (j : Nat) (m : Member n κ), g.members[j]? = some m →
      ∃ t a, EndsAt crew w g.members j t (.ok a))
    (hends : EndsAt crew w g.members j t r) : EndedAt g'.members j r := by
  cases hverdict : g'.verdict with
  | none => exact absurd hverdict h.decided
  | some result =>
    cases result with
    | ok results =>
      obtain ⟨a, hended⟩ := h.exists_endedAt_of_succeeded hverdict hends
      exact (h.eq_of_endedAt hended hends).1 ▸ hended
    | error f =>
      -- Whoever has failed would have failed by itself.
      obtain ⟨i, hfailed⟩ := exists_failed_of_verdict hverdict
      obtain ⟨t', -, m, hm, -⟩ := h.endsAt hfailed
      obtain ⟨t'', a, hi⟩ := hwell i m hm
      cases (h.eq_of_endedAt hfailed hi).1

/-- A group succeeds when everyone has, if everyone does, with the results in the order
of the members. -/
theorem Fresh.succeedsAt (h : Fresh crew w g) {T : Nat}
    (hresults : List.Forall₂ (fun (m : Member n κ) a => ∃ t ≤ T, m.EndsAlone crew w t (.ok a))
      g.members results)
    (hlast : g.members = [] ∧ T = w.now ∨ ∃ q r, EndsAt crew w g.members q T r) :
    SucceedsAt crew w g next T results := by
  have hlength := hresults.length_eq
  rcases hlast with ⟨hnil, rfl⟩ | ⟨q, r, hq⟩
  · -- A group without members succeeds at once.
    have hverdict : g.verdict = some (.ok results) := by
      rw [hnil, List.forall₂_nil_left_iff] at hresults
      exact verdict_eq_ok hlength (by simp [hresults])
    refine ⟨1, w, fun fuel => Running.run_succ_on (tick_of_succeeded hverdict) fuel, rfl, ?_⟩
    intro j m hm
    rw [hnil] at hm
    cases hm
  have hends : ∀ j a, results[j]? = some a → ∃ t ≤ T, EndsAt crew w g.members j t (.ok a) := by
    intro j a ha
    obtain ⟨hj, rfl⟩ := List.getElem?_eq_some_iff.mp ha
    have hj' : j < g.members.length := hlength ▸ hj
    obtain ⟨t, hle, halone⟩ := (List.forall₂_iff_get.mp hresults).2 j hj' hj
    exact ⟨t, hle, _, List.getElem?_eq_getElem hj', halone⟩
  have hwell : ∀ (j : Nat) (m : Member n κ), g.members[j]? = some m →
      ∃ t a, EndsAt crew w g.members j t (.ok a) := by
    intro j m hm
    obtain ⟨a, t, -, halone⟩ := exists_of_forall₂ hresults (List.mem_of_getElem? hm)
    exact ⟨t, a, m, hm, halone⟩
  obtain ⟨ticks, k, w', g', hdecides, hle, hrun⟩ :=
    h.exists_decides hq (fun g' hlength' hended => by
    rw [verdict_eq_ok (hlength'.trans hlength) fun j a ha => by
      obtain ⟨t, ht, halone⟩ := hends j a ha
      exact hended j t _ halone ht]
    exact Option.some_ne_none _) next
  have hended : ∀ {j t r}, EndsAt crew w g.members j t r → EndedAt g'.members j r :=
    hdecides.endedAt_of_well hwell
  have hverdict : g'.verdict = some (.ok results) :=
    verdict_eq_ok (hdecides.length_eq.trans hlength) fun j a ha => by
      obtain ⟨t, -, hj⟩ := hends j a ha
      exact hended hj
  have hnow : w'.now = T := Nat.le_antisymm hle (hdecides.eq_of_endedAt (hended hq) hq).2
  refine ⟨1 + ticks, w', fun fuel => ?_, hnow, fun j m hm => ?_⟩
  · rw [← Nat.add_assoc, hrun]
    exact Running.run_succ_on (tick_of_succeeded hverdict) fuel
  · obtain ⟨t, a, hj⟩ := hwell j m hm
    obtain ⟨m', hm', hended⟩ := hended hj
    have hstep := hdecides.inStep j m m' hm hm'
    rw [← hnow, ← hstep.who_eq]
    exact hstep.stopsAlone_of_succeeded hended

/-! ### The outcome -/

/-- The outcome of a group in terms of its members by themselves. -/
structure FanOut (crew : Crew n) (w : World σ n) (g : Group n κ)
    (next : List κ.Answer → Activity n α) : Prop where
  /-- A small group ends with the failure that is first by time and then by place. -/
  firstFailure : g.members.length ≤ smallSize → ∀ p t f, EndsAt crew w g.members p t (.error f) →
    (∀ q t' f', EndsAt crew w g.members q t' (.error f') → t < t' ∨ t = t' ∧ p ≤ q) →
    FailsAt crew w g next t p f
  /-- A large group ends with the failure that is first by place, once everyone up to
  there has ended. -/
  inOrder : smallSize < g.members.length → ∀ p t f T, EndsAt crew w g.members p t (.error f) →
    (∀ j < p, ∃ t' a, EndsAt crew w g.members j t' (.ok a)) →
    (∃ q ≤ p, ∃ r, EndsAt crew w g.members q T r) →
    (∀ j t' r, j ≤ p → EndsAt crew w g.members j t' r → t' ≤ T) →
    ∃ q ≤ p, (∃ r, EndsAt crew w g.members q T r) ∧
      (∀ j t' r, q < j → j ≤ p → EndsAt crew w g.members j t' r → t' < T) ∧
      FailsAt crew w g next T q f
  /-- If everyone ends well, the group does when the last one has. -/
  success : ∀ results T,
    List.Forall₂ (fun (m : Member n κ) a => ∃ t ≤ T,
      m.EndsAlone crew w t (.ok a)) g.members results →
    (g.members = [] ∧ T = w.now ∨ ∃ q r, EndsAt crew w g.members q T r) →
    SucceedsAt crew w g next T results
  /-- A failure is a failed call under the title of the client, or a missing window. -/
  faults : ∀ m ∈ g.members, ∀ t f, m.EndsAlone crew w t (.error f) → f.IsOf crew m.who

theorem Fresh.fanOut (h : Fresh crew w g) (next : List κ.Answer → Activity n α) :
    FanOut crew w g next where
  firstFailure hsmall _ _ _ hfails hfirst := h.failsAt_of_small hsmall hfails hfirst
  inOrder hlarge _ _ _ _ hfails hbefore hlast hbound :=
    h.failsAt_of_large hlarge hfails hbefore hlast hbound
  success _ _ hresults hlast := h.succeedsAt hresults hlast
  faults m hm _ _ halone := halone.ensures (fun e => .inl ⟨e, rfl⟩) (h.faults m hm)

end Group

end BotScript
