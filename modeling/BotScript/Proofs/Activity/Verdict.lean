import Mathlib.Data.List.Forall2
import BotScript.Activity.Group

/-!
# The verdict on a group

What the verdict on a group says about its members, place by place. A success is the success of
every member. A failure is that of a member: in a small group, of any that has failed; in a large
one, of the first that has not ended well.

## Main definitions

* `Member.Ended`, `Group.EndedAt`: a member has come to its end.

## Main results

* `Group.verdict_eq_ok_iff`: when a group has succeeded.
* `Group.exists_failed_of_verdict`: the failure of a group is that of a member.
* `Group.verdict_of_failed`: when a small group has failed.
* `Group.verdict_eq_error_iff`: when a large group has failed.
-/

namespace BotScript

variable {n : Nat} {κ : AnswerKind}

/-- The chain of a member has come to its end with a result. -/
def Member.Ended (r : Except Fault κ.Answer) (m : Member n κ) : Prop := m.stage = .ended r

/-- What stands in one of two lists in step has a partner in the other one. -/
theorem exists_of_forall₂ {β γ : Type} {R : β → γ → Prop} {xs : List β} {ys : List γ} {x : β}
    (h : List.Forall₂ R xs ys) (hx : x ∈ xs) : ∃ y, R x y := by
  induction h with
  | nil => cases hx
  | cons hR _ ih =>
    rcases List.mem_cons.mp hx with rfl | hx
    · exact ⟨_, hR⟩
    · exact ih hx

namespace Group

/-- The member at a place has come to its end with a result. -/
def EndedAt (members : List (Member n κ)) (i : Nat) (r : Except Fault κ.Answer) : Prop :=
  ∃ m, members[i]? = some m ∧ m.Ended r

variable {members : List (Member n κ)} {f : Fault} {results : List κ.Answer} {g : Group n κ}

theorem failure?_eq_none_iff :
    failure? members = none ↔ ∀ m ∈ members, ∀ e, ¬ m.Ended (.error e) := by
  induction members with
  | nil => simp [failure?]
  | cons m rest ih =>
    rw [failure?]
    split
    · rename_i e hstage
      simp [Member.Ended, hstage]
    · rename_i hstage
      rw [ih]
      simpa [Member.Ended] using fun _ => hstage

theorem exists_of_failure? (h : failure? members = some f) : ∃ m ∈ members, m.Ended (.error f) := by
  induction members with
  | nil => cases h
  | cons m rest ih =>
    rw [failure?] at h
    split at h
    · rename_i hstage
      cases h
      exact ⟨m, by simp, hstage⟩
    · obtain ⟨m', hm', hended⟩ := ih h
      exact ⟨m', by simp [hm'], hended⟩

/-- What a member contributes to the results in order: its failure, its result before those of the
others, or nothing yet. -/
theorem collect_cons (m : Member n κ) (rest : List (Member n κ)) :
    (∃ f, m.Ended (.error f) ∧ collect (m :: rest) = some (.error f)) ∨
      (∃ a, m.Ended (.ok a) ∧ collect (m :: rest) = (collect rest).map fun r => r.map (a :: ·)) ∨
      (∀ r, ¬ m.Ended r) ∧ collect (m :: rest) = none := by
  rw [collect]
  split
  · rename_i f hstage
    exact .inl ⟨f, hstage, rfl⟩
  · rename_i a hstage
    exact .inr (.inl ⟨a, hstage, rfl⟩)
  · rename_i herror hok
    refine .inr (.inr ⟨?_, rfl⟩)
    rintro (f | a) hstage
    · exact herror f hstage
    · exact hok a hstage

/-- The results in order are complete if everyone has ended well. -/
theorem collect_eq_ok_iff : collect members = some (.ok results) ↔
    List.Forall₂ (fun (m : Member n κ) a => m.Ended (.ok a)) members results := by
  induction members generalizing results with
  | nil =>
    cases results with
    | nil => exact ⟨fun _ => .nil, fun _ => rfl⟩
    | cons a results => exact ⟨(nomatch ·), (nomatch ·)⟩
  | cons m rest ih =>
    constructor
    · intro h
      rcases collect_cons m rest with ⟨f, -, hcollect⟩ | ⟨a, hended, hcollect⟩ | ⟨-, hcollect⟩
      · cases hcollect.symm.trans h
      · obtain ⟨r, hr, hmap⟩ := Option.map_eq_some_iff.mp (hcollect.symm.trans h)
        cases r with
        | error e => cases hmap
        | ok results' =>
          cases hmap
          exact .cons hended (ih.mp hr)
      · cases hcollect.symm.trans h
    · intro h
      cases h with
      | @cons _ a _ results hended hrest =>
        rcases collect_cons m rest with ⟨f, hfailed, -⟩ | ⟨b, hended', hcollect⟩ | ⟨hnone, -⟩
        · cases hended.symm.trans hfailed
        · cases hended.symm.trans hended'
          rw [hcollect, ih.mpr hrest]
          rfl
        · exact absurd hended (hnone _)

/-- The results in order come to a failure at a member before which everyone has ended well. -/
theorem collect_eq_error_iff : collect members = some (.error f) ↔
    ∃ i, EndedAt members i (.error f) ∧ ∀ j < i, ∃ a, EndedAt members j (.ok a) := by
  induction members with
  | nil => exact ⟨(nomatch ·), fun ⟨_, ⟨_, hm, _⟩, _⟩ => nomatch hm⟩
  | cons m rest ih =>
    constructor
    · intro h
      rcases collect_cons m rest with ⟨e, hended, hcollect⟩ | ⟨a, hended, hcollect⟩ | ⟨-, hcollect⟩
      · cases hcollect.symm.trans h
        exact ⟨0, ⟨m, rfl, hended⟩, fun j hj => absurd hj (Nat.not_lt_zero j)⟩
      · obtain ⟨r, hr, hmap⟩ := Option.map_eq_some_iff.mp (hcollect.symm.trans h)
        cases r with
        | ok results => cases hmap
        | error e =>
          cases hmap
          obtain ⟨i, hfailed, hbefore⟩ := ih.mp hr
          refine ⟨i + 1, hfailed, fun j hj => ?_⟩
          cases j with
          | zero => exact ⟨a, m, rfl, hended⟩
          | succ j => exact hbefore j (Nat.lt_of_succ_lt_succ hj)
      · cases hcollect.symm.trans h
    · rintro ⟨i, hfailed, hbefore⟩
      cases i with
      | zero =>
        obtain ⟨m', hm', hfailed⟩ := hfailed
        cases hm'
        rcases collect_cons m rest with ⟨e, hended, hcollect⟩ | ⟨a, hended, -⟩ | ⟨hnone, -⟩
        · cases hfailed.symm.trans hended
          exact hcollect
        · cases hfailed.symm.trans hended
        · exact absurd hfailed (hnone _)
      | succ i =>
        obtain ⟨a, m', hm', hended⟩ := hbefore 0 (Nat.zero_lt_succ i)
        cases hm'
        have hrest : collect rest = some (.error f) :=
          ih.mpr ⟨i, hfailed, fun j hj => hbefore (j + 1) (Nat.succ_lt_succ hj)⟩
        rcases collect_cons m rest with ⟨e, hfailed', -⟩ | ⟨b, -, hcollect⟩ | ⟨hnone, -⟩
        · cases hended.symm.trans hfailed'
        · rw [hcollect, hrest]
          rfl
        · exact absurd hended (hnone _)

/-- A group has succeeded once everyone has ended well. -/
theorem verdict_eq_ok_iff : g.verdict = some (.ok results) ↔
    List.Forall₂ (fun (m : Member n κ) a => m.Ended (.ok a)) g.members results := by
  rw [← collect_eq_ok_iff, verdict]
  split
  · split
    · rename_i f hfailure
      refine ⟨(nomatch ·), fun h => ?_⟩
      -- Somebody has failed, so the results in order cannot be complete.
      obtain ⟨m, hm, hfailed⟩ := exists_of_failure? hfailure
      obtain ⟨a, hended⟩ := exists_of_forall₂ (collect_eq_ok_iff.mp h) hm
      cases hended.symm.trans hfailed
    · exact Iff.rfl
  · exact Iff.rfl

/-- The failure of a group is that of a member. -/
theorem exists_failed_of_verdict (h : g.verdict = some (.error f)) :
    ∃ i, EndedAt g.members i (.error f) := by
  have hcollect : collect g.members = some (.error f) → ∃ i, EndedAt g.members i (.error f) := by
    intro hcollect
    obtain ⟨i, hfailed, -⟩ := collect_eq_error_iff.mp hcollect
    exact ⟨i, hfailed⟩
  rw [verdict] at h
  split at h
  · split at h
    · rename_i hfailure
      cases h
      obtain ⟨m, hm, hfailed⟩ := exists_of_failure? hfailure
      obtain ⟨i, hi⟩ := List.getElem?_of_mem hm
      exact ⟨i, m, hi, hfailed⟩
    · exact hcollect h
  · exact hcollect h

/-- A small group has failed once a member has. -/
theorem verdict_of_failed (hsmall : g.members.length ≤ smallSize) {i : Nat}
    (hfailed : EndedAt g.members i (.error f)) : ∃ e, g.verdict = some (.error e) := by
  obtain ⟨m, hm, hended⟩ := hfailed
  rw [verdict, if_pos hsmall]
  split
  · rename_i e _
    exact ⟨e, rfl⟩
  · rename_i hnone
    exact absurd hended (failure?_eq_none_iff.mp hnone m (List.mem_of_getElem? hm) f)

/-- A large group has failed once a member has before which everyone has ended well. -/
theorem verdict_eq_error_iff (hlarge : smallSize < g.members.length) :
    g.verdict = some (.error f) ↔
      ∃ i, EndedAt g.members i (.error f) ∧ ∀ j < i, ∃ a, EndedAt g.members j (.ok a) := by
  rw [verdict, if_neg (Nat.not_le.mpr hlarge)]
  exact collect_eq_error_iff

end Group

end BotScript
