import BotScript.Proofs.Activity.Turns

/-!
# Claims that are left

Only the members of a group claim the input focus, and a member that comes to its end, or is given
up, claims it no more. So whatever an activity does, as soon as it is over nobody claims the focus
who did not claim it before, and the same holds between one group of an activity and the next.

## Main definitions

* `Group.Owes`: whoever claims the focus did so before, or is a member that has not come to its end.
* `Running.Owes`: the same for an activity on its way.

## Main results

* `Running.Owes.tick`: a small step preserves it.
* `Running.Comes.claims_subset`, `Activity.claims_of_run_ended`: what is left of the claims.
-/

namespace BotScript

open World

variable {σ : Type} {n : Nat} {κ : AnswerKind} {α : Type}

/-! ### Groups -/

namespace Group

variable {crew : Crew n} {w₀ w : World σ n} {g : Group n κ} {members : List (Member n κ)}

/-- Whoever claims the focus did so before, or is a member that has not come to its end. -/
def Owes (w₀ w : World σ n) (members : List (Member n κ)) : Prop :=
  ∀ i ∈ w.claims, i ∈ w₀.claims ∨ ∃ m ∈ members, m.who = i ∧ ∀ r, ¬ m.Ended r

theorem owes_of_subset (h : w.claims ⊆ w₀.claims) (members : List (Member n κ)) :
    Owes w₀ w members :=
  fun _ hi => .inl (h hi)

theorem Owes.move [ClientModel σ] {j : Nat} (h : Owes w₀ w g.members)
    (hnext : g.next? crew w = some j) :
    Owes w₀ (g.move crew w j).2 (g.move crew w j).1.members := by
  obtain ⟨m, hm, hmove⟩ := canMove_of_next? hnext
  have hj := (List.getElem?_eq_some_iff.1 hm).1
  simp only [Group.move, hm]
  intro i hi
  by_cases hself : i = m.who
  · -- The member that has moved has not come to its end, or it would have given up its claim.
    refine .inr ⟨(m.move crew w).1,
      List.mem_set hj _, by rw [Member.move_who, hself], fun r hended => ?_⟩
    have hplays : m.Plays crew w 1 (m.move crew w).2 (m.move crew w).1 := .move .start hmove
    have hnot := hplays.notMem_claims (Member.not_ended_of_canMove hmove) hended
    rw [Member.move_who, ← hself] at hnot
    exact hnot hi
  · have hbefore : i ∈ w.claims := by
      rcases m.move_claims crew w with hclaims | hclaims | hclaims <;> rw [hclaims] at hi
      · exact hi
      · exact (List.mem_append.1 hi).resolve_right fun hlast => hself (List.mem_singleton.1 hlast)
      · exact (List.mem_filter.1 hi).1
    refine (h i hbefore).imp id ?_
    rintro ⟨x, hx, rfl, hopen⟩
    obtain ⟨k, hk⟩ := List.mem_iff_getElem?.1 hx
    have hne : j ≠ k := by
      rintro rfl
      exact hself (congrArg Member.who (Option.some.inj (hk.symm.trans hm)))
    exact ⟨x, List.mem_of_getElem? ((List.getElem?_set_ne hne).trans hk), rfl, hopen⟩

/-- A group that has succeeded leaves no claims. -/
theorem Owes.of_succeeded (h : Owes w₀ w g.members) {results : List κ.Answer}
    (hverdict : g.verdict = some (.ok results)) : w.claims ⊆ w₀.claims := by
  intro i hi
  refine (h i hi).resolve_right ?_
  rintro ⟨m, hm, -, hopen⟩
  obtain ⟨a, hended⟩ := exists_of_forall₂ (verdict_eq_ok_iff.1 hverdict) hm
  exact hopen _ hended

theorem drop_claims (w : World σ n) (members : List (Member n κ)) :
    (Group.drop w members).claims ⊆ w.claims ∧
      ∀ m ∈ members, m.who ∉ (Group.drop w members).claims := by
  induction members generalizing w with
  | nil => exact ⟨List.Subset.refl _, fun m hm => nomatch hm⟩
  | cons m rest ih =>
    obtain ⟨hsub, hnone⟩ := ih (m.drop w)
    have hclaims : (m.drop w).claims = (w.release m.who).claims := by
      unfold Member.drop
      split <;> rfl
    have hdropped : (Group.drop (m.drop w) rest).claims ⊆ (w.release m.who).claims := hclaims ▸ hsub
    refine ⟨fun i hi => (List.mem_filter.1 (hdropped hi)).1, fun x hx => ?_⟩
    rcases List.mem_cons.1 hx with rfl | hx
    · intro hmem
      simpa [release] using hdropped hmem
    · exact hnone x hx

/-- A group that is given up leaves no claims. -/
theorem Owes.drop (h : Owes w₀ w members) : (Group.drop w members).claims ⊆ w₀.claims := by
  obtain ⟨hsub, hnone⟩ := drop_claims w members
  intro i hi
  refine (h i (hsub hi)).resolve_right ?_
  rintro ⟨m, hm, rfl, -⟩
  exact hnone m hm hi

end Group

/-! ### Activities -/

namespace Running

variable {crew : Crew n} {alarm : Alarm} {w₀ w w' : World σ n} {r r' : Running n α}

/-- Whoever claims the focus did so before, or is a member that has not come to its end. -/
def Owes (w₀ w : World σ n) (r : Running n α) : Prop :=
  match r.phase with
  | .grouped g _ => Group.Owes w₀ w g.members
  | _ => w.claims ⊆ w₀.claims

theorem owes_going {launched : List (Member n .nothing)} {a : Activity n α} :
    Owes w₀ w ⟨launched, .going a⟩ ↔ w.claims ⊆ w₀.claims := Iff.rfl

variable [ClientModel σ]

theorem Owes.advance (h : r.Owes w₀ w) :
    (∀ w' r', r.advance crew w = .moved w' r' → r'.Owes w₀ w') ∧
      ∀ w' result, r.advance crew w = .ended w' result → w'.claims ⊆ w₀.claims := by
  obtain ⟨launched, phase⟩ := r
  have hlaunched : ∀ v : World σ n, v.claims ⊆ w₀.claims →
      (Group.drop v launched).claims ⊆ w₀.claims :=
    fun v hv => List.Subset.trans (Group.drop_claims v launched).1 hv
  cases phase with
  | going a =>
    have hsub : w.claims ⊆ w₀.claims := h
    constructor
    · intro w' r' hadv
      cases a with
      | done | fail => cases hadv
      | ask | pause | launch =>
        cases hadv
        exact hsub
      | join | gather =>
        cases hadv
        exact Group.owes_of_subset hsub _
    · intro w' result hadv
      cases a with
      | done | fail =>
        cases hadv
        exact hlaunched w hsub
      | ask | pause | launch | join | gather => cases hadv
  | asking who c due result next =>
    have hsub : w.claims ⊆ w₀.claims := h
    simp only [Running.advance]
    split
    · cases result with
      | ok a =>
        refine ⟨fun w' r' hadv => ?_, fun w' result hadv => (by cases hadv)⟩
        cases hadv
        exact hsub
      | error e =>
        refine ⟨fun w' r' hadv => (by cases hadv), fun w' result hadv => ?_⟩
        cases hadv
        exact hlaunched (w.failed who c e) hsub
    · exact ⟨fun w' r' hadv => (by cases hadv), fun w' result hadv => (by cases hadv)⟩
  | pausing due next =>
    have hsub : w.claims ⊆ w₀.claims := h
    simp only [Running.advance]
    split
    · refine ⟨fun w' r' hadv => ?_, fun w' result hadv => (by cases hadv)⟩
      cases hadv
      exact hsub
    · exact ⟨fun w' r' hadv => (by cases hadv), fun w' result hadv => (by cases hadv)⟩
  | grouped g next =>
    have hgroup : Group.Owes w₀ w g.members := h
    simp only [Running.advance]
    split
    · rename_i hverdict
      refine ⟨fun w' r' hadv => ?_, fun w' result hadv => (by cases hadv)⟩
      cases hadv
      exact hgroup.of_succeeded hverdict
    · refine ⟨fun w' r' hadv => (by cases hadv), fun w' result hadv => ?_⟩
      cases hadv
      -- What was started outside the group is given up first.
      have hfirst : Group.Owes w₀ (Group.drop w launched) g.members :=
        fun i hi => hgroup i ((Group.drop_claims w launched).1 hi)
      exact hfirst.drop
    · split
      · rename_i hnext
        refine ⟨fun w' r' hadv => ?_, fun w' result hadv => (by cases hadv)⟩
        cases hadv
        exact hgroup.move hnext
      · exact ⟨fun w' r' hadv => (by cases hadv), fun w' result hadv => (by cases hadv)⟩

/-- A small step, the passing of time included. -/
theorem Owes.tick (h : r.Owes w₀ w) (htick : r.tick crew alarm w = .on w' r') : r'.Owes w₀ w' := by
  rcases of_tick_on htick with hadv | ⟨till, t, -, rfl, rfl⟩
  · exact h.advance.1 _ _ hadv
  · obtain ⟨launched, phase⟩ := r
    cases phase <;> exact h

/-- When an activity has come to its end, nobody claims the focus who did not before. -/
theorem Owes.claims_of_ended (h : r.Owes w₀ w) {result : Except Fault α}
    (htick : r.tick crew alarm w = .halt (.ended w' result)) : w'.claims ⊆ w₀.claims := by
  rcases of_tick_halt htick with ⟨w₁, result₁, hadv, ho⟩ | ⟨t, ho | ho⟩ | ho <;> cases ho
  exact h.advance.2 _ _ hadv

theorem Comes.owes (hcomes : Comes crew alarm w r w' r') (h : r.Owes w₀ w) : r'.Owes w₀ w' := by
  induction hcomes with
  | start => exact h
  | tick _ htick ih => exact ih.tick htick

/-- Between its groups, an activity has left no claims. -/
theorem Comes.claims_subset {launched launched' : List (Member n .nothing)} {a b : Activity n α}
    (hcomes : Comes crew alarm w ⟨launched, .going a⟩ w' ⟨launched', .going b⟩) :
    w'.claims ⊆ w.claims :=
  owes_going.1 (hcomes.owes (owes_going.2 (List.Subset.refl _)))

theorem Comes.claims_eq_nil {launched launched' : List (Member n .nothing)} {a b : Activity n α}
    (hcomes : Comes crew alarm w ⟨launched, .going a⟩ w' ⟨launched', .going b⟩)
    (hw : w.claims = []) :
    w'.claims = [] := by
  have hclaims := hcomes.claims_subset
  rw [hw] at hclaims
  exact List.subset_nil.1 hclaims

end Running

/-- When an activity that was run has come to its end, nobody claims the focus who did
not before. -/
theorem Activity.claims_of_run_ended [ClientModel σ] {crew : Crew n} {alarm : Alarm} {fuel : Nat}
    {w u : World σ n} {a : Activity n α} {result : Except Fault α}
    (h : a.run crew alarm fuel w = .ended u result) :
    u.claims ⊆ w.claims := by
  obtain ⟨later, w', r', hcomes, -, hend⟩ := Running.exists_comes crew alarm fuel w (.ofActivity a)
  rw [← Activity.run, h] at hend
  rcases hend with hfuel | hhalt
  · cases hfuel
  · have howes : (Running.ofActivity a).Owes w w := Running.owes_going.2 (List.Subset.refl _)
    exact (hcomes.owes howes).claims_of_ended hhalt

end BotScript
