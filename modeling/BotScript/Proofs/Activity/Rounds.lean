import Mathlib.Algebra.Order.BigOperators.Group.Finset
import BotScript.Proofs.Activity.InStep
import BotScript.Proofs.Activity.Tidy

/-!
# Groups, turn by turn

A run of a group, compared with runs of its members by themselves. If no two members share the input
focus, each of them is in step with its own run, whoever has the turn. At each instant the turn goes
through the members in order: those before the one that has it cannot go on, and those behind it
have not done anything yet at this instant. As no member goes on for ever at one instant, the group
gets to any time at which it has to have a verdict.

## Main definitions

* `Crew.Apart`: no two of some clients share the input focus.
* `Group.Tracks`: every member of a group is in step with its own run, and the turn goes in order.
* `Group.EndsAt`: when the member at a place comes to its end by itself, and with which result.
* `Group.Decides`: the last turn has brought about the verdict.

## Main results

* `Group.Tracks.move`, `Group.Tracks.wake`: what one turn, and a lapse of time, leave in step.
* `Group.Tracks.exists_decides`: a group that has to have a verdict by a time comes to one.
-/

namespace BotScript

open World

variable {σ : Type} {n : Nat} {κ : AnswerKind} {α : Type}

/-- No two of some clients share the input focus. -/
def Crew.Apart (crew : Crew n) (clients : List (Fin n)) : Prop :=
  clients.Pairwise fun i j => crew.sameFocus i j = false

instance (crew : Crew n) (clients : List (Fin n)) : Decidable (crew.Apart clients) :=
  inferInstanceAs (Decidable (clients.Pairwise fun i j => crew.sameFocus i j = false))

/-- Two members of a group whose clients are apart. -/
theorem Crew.Apart.sameFocus_eq_false {crew : Crew n} {members : List (Member n κ)}
    (h : crew.Apart (members.map Member.who)) {i j : Nat} {m m' : Member n κ}
    (hm : members[i]? = some m) (hm' : members[j]? = some m') (hne : i ≠ j) :
    crew.sameFocus m.who m'.who = false := by
  obtain ⟨hi, rfl⟩ := List.getElem?_eq_some_iff.mp hm
  obtain ⟨hj, rfl⟩ := List.getElem?_eq_some_iff.mp hm'
  have hpair := List.pairwise_iff_getElem.mp (List.pairwise_map.mp h)
  rcases Nat.lt_or_gt_of_ne hne with hlt | hlt
  · exact hpair i j hi hj hlt
  · rw [Crew.sameFocus_comm]
    exact hpair j i hj hi hlt

namespace Group

variable {crew : Crew n} {w : World σ n} {members : List (Member n κ)} {g : Group n κ} {i t : Nat}

/-! ### Whose turn it is -/

theorem firstFrom_eq_some {start : Nat} (h : firstFrom crew w start members = some i) :
    start ≤ i ∧ (∃ m, members[i]? = some m ∧ m.canMove crew w = true) ∧
      ∀ j m, start ≤ j → j < i → members[j]? = some m → m.canMove crew w = false := by
  obtain ⟨k, hk, rfl⟩ := Option.map_eq_some_iff.mp h
  obtain ⟨hlength, hmove, hbefore⟩ := List.findIdx?_eq_some_iff_getElem.mp hk
  refine ⟨Nat.le_add_right start k, ⟨_, ?_, hmove⟩, ?_⟩
  · rw [← List.getElem?_drop]
    exact List.getElem?_eq_getElem hlength
  · intro j m hle hlt hm
    obtain ⟨l, rfl⟩ := Nat.exists_eq_add_of_le hle
    have hcannot := hbefore l (by omega)
    rw [← List.getElem?_drop] at hm
    obtain ⟨hl, rfl⟩ := List.getElem?_eq_some_iff.mp hm
    simpa using hcannot

theorem firstFrom_eq_none {start : Nat} (h : firstFrom crew w start members = none) {j : Nat}
    {m : Member n κ} (hle : start ≤ j) (hm : members[j]? = some m) : m.canMove crew w = false := by
  obtain ⟨l, rfl⟩ := Nat.exists_eq_add_of_le hle
  rw [← List.getElem?_drop] at hm
  exact List.findIdx?_eq_none_iff.mp (Option.map_eq_none_iff.mp h) m (List.mem_of_getElem? hm)

/-- The turn goes to the first member that can go on, if those before the cursor cannot. -/
theorem next?_eq_some
    (hbefore : ∀ j m, j < g.cursor → g.members[j]? = some m → m.canMove crew w = false)
    (h : g.next? crew w = some i) :
    g.cursor ≤ i ∧ (∃ m, g.members[i]? = some m ∧ m.canMove crew w = true) ∧
      ∀ j m, j < i → g.members[j]? = some m → m.canMove crew w = false := by
  cases hfirst : firstFrom crew w g.cursor g.members with
  | some k =>
    rw [next?, hfirst] at h
    cases h
    obtain ⟨hle, hmove, hbetween⟩ := firstFrom_eq_some hfirst
    refine ⟨hle, hmove, fun j m hj hm => ?_⟩
    rcases Nat.lt_or_ge j g.cursor with hlt | hge
    · exact hbefore j m hlt hm
    · exact hbetween j m hge hj hm
  | none =>
    -- Nobody can go on from the cursor on, nor before it.
    rw [next?, hfirst] at h
    obtain ⟨-, ⟨m, hm, hmove⟩, -⟩ := firstFrom_eq_some h
    have hcannot : m.canMove crew w = false := by
      rcases Nat.lt_or_ge i g.cursor with hlt | hge
      · exact hbefore i m hlt hm
      · exact firstFrom_eq_none hfirst hge hm
    rw [hcannot] at hmove
    cases hmove

theorem next?_eq_none (h : g.next? crew w = none) {j : Nat} {m : Member n κ}
    (hm : g.members[j]? = some m) : m.canMove crew w = false := by
  have hfirst : firstFrom crew w 0 g.members = none := (Option.or_eq_none_iff.mp h).2
  exact firstFrom_eq_none hfirst (Nat.zero_le j) hm

/-! ### How long nobody can go on -/

private theorem earlier_eq_none {a b : Option Nat} (h : earlier a b = none) :
    a = none ∧ b = none := by
  cases a <;> cases b <;> simp_all [earlier]

private theorem earlier_eq_some {a b : Option Nat} (h : earlier a b = some t) :
    (a = some t ∨ b = some t) ∧ (∀ s, a = some s → t ≤ s) ∧ ∀ s, b = some s → t ≤ s := by
  cases a <;> cases b <;> simp [earlier] at h ⊢ <;> omega

theorem wakeAt_eq_none (h : g.wakeAt = none) {m : Member n κ} (hm : m ∈ g.members) :
    m.wakeAt = none := by
  obtain ⟨members, cursor⟩ := g
  induction members with
  | nil => cases hm
  | cons first rest ih =>
    obtain ⟨hfirst, hrest⟩ := earlier_eq_none h
    rcases List.mem_cons.mp hm with rfl | hm
    · exact hfirst
    · exact ih hrest hm

/-- The first time at which somebody can go on is one that a member waits for, and nobody waits for
an earlier one. -/
theorem wakeAt_eq_some (h : g.wakeAt = some t) :
    (∃ m ∈ g.members, m.wakeAt = some t) ∧ ∀ m ∈ g.members, ∀ s, m.wakeAt = some s → t ≤ s := by
  obtain ⟨members, cursor⟩ := g
  induction members generalizing t with
  | nil => cases h
  | cons first rest ih =>
    obtain ⟨hwho, hfirst, hrest⟩ := earlier_eq_some h
    constructor
    · rcases hwho with hwho | hwho
      · exact ⟨first, by simp, hwho⟩
      · obtain ⟨⟨m, hm, hwake⟩, -⟩ := ih hwho
        exact ⟨m, List.mem_cons_of_mem _ hm, hwake⟩
    · intro m hm s hs
      rcases List.mem_cons.mp hm with rfl | hm
      · exact hfirst s hs
      · cases hlater : wakeAt ⟨rest, cursor⟩ with
        | none =>
          rw [wakeAt_eq_none hlater hm] at hs
          cases hs
        | some u => exact Nat.le_trans (hrest u hlater) ((ih hlater).2 m hm s hs)

/-! ### Members in step -/

variable [ClientModel σ] {w₀ : World σ n} {members₀ : List (Member n κ)} {k : Nat → Nat}

/-- Every member of a group is in step with its own run from the start, of which it has done a
number of things. Those before the cursor cannot go on; those behind it have not done anything yet
at this time. -/
structure Tracks (crew : Crew n) (w₀ : World σ n) (members₀ : List (Member n κ)) (k : Nat → Nat)
    (w : World σ n) (g : Group n κ) : Prop where
  who_eq : g.members.map Member.who = members₀.map Member.who
  inStep : ∀ j m₀ m, members₀[j]? = some m₀ → g.members[j]? = some m →
    Member.InStep crew w₀ m₀ (k j) w m
  before : ∀ j m, j < g.cursor → g.members[j]? = some m → m.canMove crew w = false
  after : ∀ j m₀ m, g.cursor < j → members₀[j]? = some m₀ → g.members[j]? = some m →
    Member.Rested crew w₀ m₀ (k j) w m ∨ m = m₀ ∧ w.now = w₀.now ∧ Agrees crew m.who w w₀

theorem tracks_start (crew : Crew n) (w : World σ n) (members : List (Member n κ)) :
    Tracks crew w members (fun _ => 0) w ⟨members, 0⟩ where
  who_eq := rfl
  inStep j m₀ m hm₀ hm := by
    cases hm₀.symm.trans hm
    exact .inr (Member.active_start crew w m₀)
  before j m hj := absurd hj (Nat.not_lt_zero j)
  after j m₀ m _ hm₀ hm := by
    cases hm₀.symm.trans hm
    exact .inr ⟨rfl, rfl, .refl crew m₀.who w⟩

theorem Tracks.length_eq (h : Tracks crew w₀ members₀ k w g) :
    g.members.length = members₀.length := by
  simpa using congrArg List.length h.who_eq

/-- The member that a member of the group was at the start. -/
theorem Tracks.exists_start (h : Tracks crew w₀ members₀ k w g) {m : Member n κ}
    (hm : g.members[i]? = some m) : ∃ m₀, members₀[i]? = some m₀ := by
  obtain ⟨hi, -⟩ := List.getElem?_eq_some_iff.mp hm
  exact ⟨_, List.getElem?_eq_getElem (h.length_eq ▸ hi)⟩

/-- After a turn everyone is in step again; the member whose turn it was has done more by itself. -/
theorem Tracks.move (hapart : crew.Apart (members₀.map Member.who))
    (h : Tracks crew w₀ members₀ k w g) (hnext : g.next? crew w = some i) :
    ∃ (m₀ m : Member n κ) (more : Nat), members₀[i]? = some m₀ ∧ g.members[i]? = some m ∧
      g.move crew w i = (⟨g.members.set i (m.move crew w).1, i⟩, (m.move crew w).2) ∧ k i < more ∧
      Member.Active crew w₀ m₀ more (m.move crew w).2 (m.move crew w).1 ∧
      Tracks crew w₀ members₀ (Function.update k i more) (g.move crew w i).2
      (g.move crew w i).1 := by
  obtain ⟨hcursor, ⟨m, hm, hmove⟩, hbefore⟩ := next?_eq_some h.before hnext
  obtain ⟨m₀, hm₀⟩ := h.exists_start hm
  obtain ⟨more, hmore, hactive⟩ := (h.inStep i m₀ m hm₀ hm).move hmove
  have hturn : g.move crew w i = (⟨g.members.set i (m.move crew w).1, i⟩, (m.move crew w).2) := by
    rw [Group.move, hm]
  refine ⟨m₀, m, more, hm₀, hm, hturn, hmore, hactive, ?_⟩
  have hi : i < g.members.length := (List.getElem?_eq_some_iff.mp hm).1
  have hnow : (m.move crew w).2.now = w.now := Member.move_now crew w m
  -- Nobody else is affected.
  have hothers : ∀ j m', j ≠ i → g.members[j]? = some m' →
      Agrees crew m'.who (m.move crew w).2 w := by
    intro j m' hne hm'
    rw [← h.who_eq] at hapart
    exact Member.agrees_move (hapart.sameFocus_eq_false hm' hm hne) w
  rw [hturn]
  refine ⟨?_, ?_, ?_, ?_⟩
  · have hwho := Group.map_who_move crew w g i
    rw [hturn] at hwho
    exact hwho.trans h.who_eq
  · intro j m₁ m' hm₁ hm'
    by_cases hne : j = i
    · subst hne
      rw [List.getElem?_set_self hi] at hm'
      cases hm'
      cases hm₀.symm.trans hm₁
      rw [Function.update_self]
      exact .inr hactive
    · rw [List.getElem?_set_ne (Ne.symm hne)] at hm'
      rw [Function.update_of_ne hne]
      exact (h.inStep j m₁ m' hm₁ hm').congr (hothers j m' hne hm') hnow
  · intro j m' hj hm'
    have hne : j ≠ i := Nat.ne_of_lt hj
    rw [List.getElem?_set_ne (Ne.symm hne)] at hm'
    rw [Member.canMove_congr (hothers j m' hne hm') hnow]
    exact hbefore j m' hj hm'
  · intro j m₁ m' hj hm₁ hm'
    have hne : j ≠ i := Nat.ne_of_gt hj
    rw [List.getElem?_set_ne (Ne.symm hne)] at hm'
    rw [Function.update_of_ne hne]
    have hagrees := hothers j m' hne hm'
    -- The turn goes forward, so whoever is behind the new cursor was behind the old one.
    refine (h.after j m₁ m' (Nat.lt_of_le_of_lt hcursor hj) hm₁ hm').imp (·.congr hagrees hnow) ?_
    rintro ⟨rfl, hstart, hagrees'⟩
    exact ⟨rfl, hnow.trans hstart, hagrees.trans hagrees'⟩

/-- When time passes because nobody can go on, everyone rests. -/
theorem Tracks.wake (h : Tracks crew w₀ members₀ k w g) (hnext : g.next? crew w = none)
    (hwake : g.wakeAt = some t) :
    w.now < t ∧ Tracks crew w₀ members₀ k (w.atTime t) ⟨g.members, 0⟩ := by
  obtain ⟨⟨m, hm, hdue⟩, hfirst⟩ := wakeAt_eq_some hwake
  have hlt : w.now < t := by
    obtain ⟨j, hj⟩ := List.getElem?_of_mem hm
    have hcannot := next?_eq_none hnext hj
    rw [Member.canMove_of_wakeAt hdue] at hcannot
    simpa using hcannot
  have hrested : ∀ j m₀ m, members₀[j]? = some m₀ → g.members[j]? = some m →
      Member.Rested crew w₀ m₀ (k j) (w.atTime t) m := fun j m₀ m hm₀ hm =>
    (h.inStep j m₀ m hm₀ hm).wake (next?_eq_none hnext hm) hlt
      (hfirst m (List.mem_of_getElem? hm))
  exact ⟨hlt, h.who_eq, fun j m₀ m hm₀ hm => .inl (hrested j m₀ m hm₀ hm),
    fun j _ hj => absurd hj (Nat.not_lt_zero j), fun j m₀ m _ hm₀ hm =>
    .inl (hrested j m₀ m hm₀ hm)⟩

/-- The member at a place, by itself, comes to its end at a time with a result. -/
def EndsAt (crew : Crew n) (w : World σ n) (members : List (Member n κ)) (i t : Nat)
    (r : Except Fault κ.Answer) : Prop :=
  ∃ m, members[i]? = some m ∧ m.EndsAlone crew w t r

/-- A member that would have ended by itself by a time has ended, if nobody can go on before that
time has passed. -/
theorem Tracks.endedAt (h : Tracks crew w₀ members₀ k w g) (hnext : g.next? crew w = none) {T : Nat}
    (hwake : ∀ u, g.wakeAt = some u → T < u) {j : Nat} {r : Except Fault κ.Answer}
    (hends : EndsAt crew w₀ members₀ j t r) (hle : t ≤ T) : EndedAt g.members j r := by
  obtain ⟨m₀, hm₀, halone⟩ := hends
  have hj : j < g.members.length := h.length_eq ▸ (List.getElem?_eq_some_iff.mp hm₀).1
  have hm := List.getElem?_eq_getElem hj
  refine ⟨_, hm, ?_⟩
  have hstep := h.inStep j m₀ _ hm₀ hm
  by_cases hended : ∃ r', (g.members[j]).Ended r'
  · obtain ⟨r', hended⟩ := hended
    obtain ⟨t', -, halone'⟩ := hstep.endsAlone hended
    exact (halone.unique halone').2 ▸ hended
  · obtain ⟨s, hs, -, hst⟩ :=
      hstep.exists_wakeAt (next?_eq_none hnext hm) (not_exists.mp hended) halone
    -- It waits for a time up to the given one, while the group waits past it.
    have hmem := List.getElem_mem hj
    cases hgroup : g.wakeAt with
    | none =>
      rw [wakeAt_eq_none hgroup hmem] at hs
      cases hs
    | some u =>
      have hu := (wakeAt_eq_some hgroup).2 _ hmem s hs
      have hT := hwake u hgroup
      omega

/-! ### Coming to a verdict -/

/-- A group has a verdict since the last turn, which was that of the member at the cursor. -/
structure Decides (crew : Crew n) (w₀ : World σ n) (members₀ : List (Member n κ)) (k : Nat → Nat)
    (w : World σ n) (g : Group n κ) : Prop extends Tracks crew w₀ members₀ k w g where
  decided : g.verdict ≠ none
  undecided : ∃ g' : Group n κ, g'.verdict = none ∧ g'.members.length = g.members.length ∧
    ∀ j, j ≠ g.cursor → g'.members[j]? = g.members[j]?
  mover : ∃ m₀ m, members₀[g.cursor]? = some m₀ ∧ g.members[g.cursor]? = some m ∧
    Member.Active crew w₀ m₀ (k g.cursor) w m

/-- A turn that brings about the verdict. -/
theorem Tracks.decides_move (hapart : crew.Apart (members₀.map Member.who))
    (h : Tracks crew w₀ members₀ k w g) (hverdict : g.verdict = none)
    (hnext : g.next? crew w = some i) (hdecided : (g.move crew w i).1.verdict ≠ none) :
    ∃ k', Decides crew w₀ members₀ k' (g.move crew w i).2 (g.move crew w i).1 := by
  obtain ⟨m₀, m, more, hm₀, hm, hturn, -, hactive, htracks⟩ := h.move hapart hnext
  have hi : i < g.members.length := (List.getElem?_eq_some_iff.mp hm).1
  refine ⟨_, htracks, hdecided, ⟨g, hverdict, ?_, ?_⟩, m₀, (m.move crew w).1, ?_⟩
  · rw [hturn, List.length_set]
  · intro j hne
    rw [hturn] at hne ⊢
    exact (List.getElem?_set_ne (Ne.symm hne)).symm
  · rw [hturn]
    dsimp only
    rw [Function.update_self, List.getElem?_set_self hi]
    exact ⟨hm₀, rfl, hactive⟩

variable {next : List κ.Answer → Activity n α} {alarm : Alarm} [alarm.Timed]

theorem tick_of_next (hverdict : g.verdict = none) (hnext : g.next? crew w = some i) :
    Running.tick crew alarm w ⟨[], .grouped g next⟩ =
      .on (g.move crew w i).2 ⟨[], .grouped (g.move crew w i).1 next⟩ := by
  simp only [Running.tick_eq, Running.advance, hverdict, hnext]

theorem tick_of_wakeAt (hverdict : g.verdict = none) (hnext : g.next? crew w = none)
    (hwake : g.wakeAt = some t) :
    Running.tick crew ⟨none, none⟩ w ⟨[], .grouped g next⟩ =
      .on (w.atTime t) ⟨[], .grouped ⟨g.members, 0⟩ next⟩ := by
  simp only [Running.tick_eq, Running.advance, hverdict, hnext, hwake]
  rfl

theorem tick_of_failed {f : Fault} (hverdict : g.verdict = some (.error f)) :
    Running.tick crew alarm w ⟨[], .grouped g next⟩ =
      .halt (.ended (Group.drop w g.members) (.error f)) := by
  simp only [Running.tick_eq, Running.advance, hverdict]
  rfl

theorem tick_of_succeeded {results : List κ.Answer} (hverdict : g.verdict = some (.ok results)) :
    Running.tick crew alarm w ⟨[], .grouped g next⟩ = .on w ⟨[], .going (next results)⟩ := by
  simp only [Running.tick_eq, Running.advance, hverdict]

/-- When one member has done more than before, there is less left to do for all of them together. -/
private theorem left_lt {budget : Nat → Nat} {count more : Nat} (hi : i < count)
    (hspent : k i < budget i)
    (hmore : k i < more) : ∑ j ∈ Finset.range count, (budget j - Function.update k i more j) <
      ∑ j ∈ Finset.range count, (budget j - k j) := by
  refine Finset.sum_lt_sum (fun j _ => ?_) ⟨i, Finset.mem_range.mpr hi, ?_⟩
  · by_cases hne : j = i
    · rw [hne, Function.update_self]
      omega
    · rw [Function.update_of_ne hne]
  · rw [Function.update_self]
    omega

/-- A group that has to have a verdict once those members have ended that would have by themselves
by a time comes to a verdict by then. -/
theorem Tracks.exists_decides (hapart : crew.Apart (members₀.map Member.who)) {T : Nat}
    {budget : Nat → Nat}
    (hbudget : ∀ (j : Nat) (m₀ : Member n κ), members₀[j]? = some m₀ →
      (m₀.alone.run crew ⟨none, some T⟩ (budget j) w₀).IsFinal)
    (hdecided : ∀ g : Group n κ, g.members.length = members₀.length →
      (∀ j t r, EndsAt crew w₀ members₀ j t r → t ≤ T → EndedAt g.members j r) → g.verdict ≠ none)
    (h : Tracks crew w₀ members₀ k w g) (hle : w.now ≤ T) (hverdict : g.verdict = none) :
    ∃ ticks k' w' g', Decides crew w₀ members₀ k' w' g' ∧ w'.now ≤ T ∧
      ∀ fuel, Running.run crew ⟨none, none⟩ (fuel + ticks) w ⟨[], .grouped g next⟩ =
        Running.run crew ⟨none, none⟩ fuel w' ⟨[], .grouped g' next⟩ := by
  -- What the members have left to do by themselves up to the time, and the time that is left.
  generalize hleft : ∑ j ∈ Finset.range members₀.length, (budget j - k j) + (T - w.now) = left
  induction left using Nat.strongRecOn generalizing k w g with
  | ind left ih =>
    cases hnext : g.next? crew w with
    | some i =>
      by_cases hafter : (g.move crew w i).1.verdict = none
      · obtain ⟨m₀, m, more, hm₀, hm, hturn, hmore, hactive, htracks⟩ := h.move hapart hnext
        have hnow : (g.move crew w i).2.now = w.now := by rw [hturn, Member.move_now]
        have hspent : k i < budget i :=
          (h.inStep i m₀ m hm₀ hm).lt_of_isFinal hle (hbudget i m₀ hm₀)
        have hless := left_lt (List.getElem?_eq_some_iff.mp hm₀).1 hspent hmore
        obtain ⟨ticks, k', w', g', hdecides, hw', hrun⟩ :=
          ih _ (by rw [hnow]; omega) htracks (hnow ▸ hle) hafter rfl
        refine ⟨ticks + 1, k', w', g', hdecides, hw', fun fuel => ?_⟩
        rw [← Nat.add_assoc, Running.run_succ_on (tick_of_next hverdict hnext)]
        exact hrun fuel
      · obtain ⟨k', hdecides⟩ := h.decides_move hapart hverdict hnext hafter
        refine ⟨1, k', _, _, hdecides, ?_, fun fuel => ?_⟩
        · rwa [Group.move_now]
        · exact Running.run_succ_on (tick_of_next hverdict hnext) fuel
    | none =>
      by_cases hwake : ∃ t, g.wakeAt = some t ∧ t ≤ T
      · obtain ⟨t, ht, htT⟩ := hwake
        obtain ⟨hlt, htracks⟩ := h.wake hnext ht
        have hnow : (w.atTime t).now = t := Nat.max_eq_right (Nat.le_of_lt hlt)
        obtain ⟨ticks, k', w', g', hdecides, hw', hrun⟩ :=
          ih _ (by rw [hnow]; omega) htracks (hnow.symm ▸ htT) hverdict rfl
        refine ⟨ticks + 1, k', w', g', hdecides, hw', fun fuel => ?_⟩
        rw [← Nat.add_assoc, Running.run_succ_on (tick_of_wakeAt hverdict hnext ht)]
        exact hrun fuel
      · -- Nobody can go on up to the time, so the group has to have a verdict.
        have hlater : ∀ u, g.wakeAt = some u → T < u := fun u hu =>
          Nat.lt_of_not_le fun huT => hwake ⟨u, hu, huT⟩
        refine absurd hverdict (hdecided g h.length_eq fun j t r hends ht => ?_)
        exact h.endedAt hnext hlater hends ht

end Group

end BotScript
