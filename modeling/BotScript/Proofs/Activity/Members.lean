import BotScript.Activity.Run
import BotScript.Proofs.Client.Locality

/-!
# Members of a group by themselves

What a member of a group does takes no time, concerns its own client only, and depends on nothing
else: in two worlds that are alike for its client, at the same time, it does the same. A member that
cannot go on waits for a time, or for others.

## Main results

* `Member.move_who`, `Member.move_now`, `Running.drop_now`: what stays the same.
* `Member.agrees_move`, `Member.agrees_drop`: what a member does to other clients.
* `Member.move_congr`, `Member.drop_congr`: what a member does in two worlds.
* `Member.due_of_canMove`: what a member waited for that can go on now, and could not before.
-/

namespace BotScript

open World

variable {σ : Type} {n : Nat} {κ : AnswerKind} {α : Type}

namespace Member

variable {crew : Crew n} {i : Fin n} {v w : World σ n} {m : Member n κ}

/-! ### What stays the same -/

@[simp] theorem move_who [ClientModel σ] (crew : Crew n) (w : World σ n) (m : Member n κ) :
    (m.move crew w).1.who = m.who := by
  unfold move
  split <;> rfl

@[simp] theorem move_now [ClientModel σ] (crew : Crew n) (w : World σ n) (m : Member n κ) :
    (m.move crew w).2.now = w.now := by
  unfold move
  split <;> rfl

@[simp] theorem drop_now (w : World σ n) (m : Member n κ) : (m.drop w).now = w.now := by
  unfold drop
  split <;> rfl

/-! ### Other clients -/

/-- What a member does leaves other clients as they were. -/
theorem agrees_move [ClientModel σ] (h : crew.sameFocus i m.who = false) (w : World σ n) :
    Agrees crew i (m.move crew w).2 w := by
  have hne := Crew.ne_of_sameFocus h
  have hother : (m.who == i) = false := by simpa using fun hi => hne hi.symm
  unfold move
  split
  · exact agrees_release h w
  · exact agrees_release h w
  · exact agrees_call hne w _
  · exact .refl crew i w
  · exact agrees_claim h w
  · exact agrees_call hne w _
  · exact agrees_record crew w hother
  · exact (agrees_release h _).trans (agrees_record crew w hother)
  · exact .refl crew i w
  · exact .refl crew i w
  · exact .refl crew i w

/-- Giving up a member leaves other clients as they were. -/
theorem agrees_drop (h : crew.sameFocus i m.who = false) (w : World σ n) :
    Agrees crew i (m.drop w) w := by
  have hother : (m.who == i) = false := by simpa using fun hi => Crew.ne_of_sameFocus h hi.symm
  unfold drop
  split
  · exact (agrees_release h _).trans (agrees_record crew w hother)
  · exact agrees_release h w

/-! ### Two worlds -/

theorem canMove_congr (h : Agrees crew m.who v w) (hnow : v.now = w.now) :
    m.canMove crew v = m.canMove crew w := by
  simp only [canMove, h.hasFocus, hnow]

theorem move_congr [ClientModel σ] (h : Agrees crew m.who v w) (hnow : v.now = w.now) :
    (m.move crew v).1 = (m.move crew w).1 ∧
      Agrees crew m.who (m.move crew v).2 (m.move crew w).2 := by
  have hcall : ∀ {ι : AnswerKind} (c : Call ι) (next : ι.Answer → Chain κ),
      (call crew v m.who c next).1 = (call crew w m.who c next).1 ∧
        Agrees crew m.who (call crew v m.who c next).2 (call crew w m.who c next).2 := by
    intro ι c next
    obtain ⟨hreply, hagrees⟩ := h.call hnow c
    refine ⟨?_, hagrees⟩
    simp only [call, hreply, hnow]
  unfold move
  split
  · exact ⟨rfl, h.release⟩
  · exact ⟨rfl, h.release⟩
  · exact hcall _ _
  · exact ⟨by rw [hnow], h⟩
  · exact ⟨rfl, h.claim⟩
  · exact hcall _ _
  · exact ⟨rfl, by simpa only [answered, hnow] using h.record _⟩
  · refine ⟨rfl, Agrees.release ?_⟩
    simpa only [failed, hnow] using h.record _
  · exact ⟨rfl, h⟩
  · exact ⟨rfl, h⟩
  · exact ⟨rfl, h⟩

theorem drop_congr (h : Agrees crew m.who v w) (hnow : v.now = w.now) :
    Agrees crew m.who (m.drop v) (m.drop w) := by
  unfold drop
  split
  · refine Agrees.release ?_
    simpa only [dropped, hnow] using h.record _
  · exact h.release

/-! ### Waiting -/

theorem canMove_of_ended {r : Except Fault κ.Answer} (h : m.stage = .ended r) :
    m.canMove crew w = false := by
  simp [canMove, h]

theorem wakeAt_of_ended {r : Except Fault κ.Answer} (h : m.stage = .ended r) : m.wakeAt = none := by
  simp [wakeAt, h]

/-- A member that waits for a time can go on from that time on. -/
theorem canMove_of_wakeAt {t : Nat} (h : m.wakeAt = some t) :
    m.canMove crew w = decide (t ≤ w.now) := by
  unfold wakeAt at h
  unfold canMove
  split at h
  · rename_i hstage
    simp [hstage, h, isDue]
  · rename_i hstage
    cases h
    simp [hstage]
  · cases h

/-- A member that can go on now and could not before, in a world alike for its client, waited for a
time. -/
theorem due_of_canMove (h : Agrees crew m.who w v) (hbefore : m.canMove crew v = false)
    (hmove : m.canMove crew w = true) : ∃ t, m.wakeAt = some t ∧ v.now < t ∧ t ≤ w.now := by
  cases hwake : m.wakeAt with
  | some t =>
    rw [canMove_of_wakeAt hwake] at hbefore hmove
    simp only [decide_eq_false_iff_not, decide_eq_true_eq] at hbefore hmove
    exact ⟨t, rfl, Nat.lt_of_not_le hbefore, hmove⟩
  | none =>
    -- Without a time to wait for, whether it can go on depends on the claims alone.
    have hsame : m.canMove crew w = m.canMove crew v := by
      obtain ⟨who, stage⟩ := m
      cases stage with
      | ready c => rfl
      | calling c due result next =>
        obtain rfl : due = none := hwake
        rfl
      | resting due next => cases hwake
      | queued next => exact h.hasFocus
      | ended r => rfl
    rw [hsame, hbefore] at hmove
    cases hmove

end Member

namespace Group

@[simp] theorem drop_now (w : World σ n) (members : List (Member n κ)) :
    (Group.drop w members).now = w.now := by
  induction members generalizing w with
  | nil => rfl
  | cons m rest ih =>
    change (Group.drop (m.drop w) rest).now = w.now
    rw [ih, Member.drop_now]

end Group

namespace Running

@[simp] theorem drop_now (w : World σ n) (r : Running n α) : (r.drop w).now = w.now := by
  unfold drop
  split
  · exact Group.drop_now w r.launched
  · rw [Group.drop_now, Group.drop_now]
  · exact Group.drop_now w r.launched

end Running

end BotScript
