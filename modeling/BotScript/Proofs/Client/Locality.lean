import BotScript.Client.World

/-!
# What concerns one client

Clients meet in one world, but what is done to one of them leaves what concerns another one as it
was, provided that the two do not share the input focus. And what is done to a client depends on
nothing but what concerns it.

## Main definitions

* `Event.concerns`: whether an event is about a client.
* `World.Agrees`: two worlds are alike in what concerns a client.

## Main results

* `World.agrees_call`, `World.agrees_claim`, `World.agrees_release`, `World.agrees_record`: what is
  done to another client.
* `World.Agrees.call`, `World.Agrees.claim`, `World.Agrees.release`, `World.Agrees.record`: what is
  done to the client itself, in either world.
-/

namespace BotScript

variable {σ : Type} {n : Nat}

/-! ### Sharing the input focus -/

namespace Crew

variable (crew : Crew n) {i j : Fin n}

@[simp] theorem sameFocus_self (i : Fin n) : crew.sameFocus i i = true := by
  simp [sameFocus]

theorem sameFocus_comm (i j : Fin n) : crew.sameFocus i j = crew.sameFocus j i := by
  unfold sameFocus
  cases hi : (crew.get i).focus with
  | none => cases (crew.get j).focus <;> simp [Bool.beq_comm]
  | some a => cases (crew.get j).focus <;> simp [Bool.beq_comm]

variable {crew} in
theorem ne_of_sameFocus (h : crew.sameFocus i j = false) : i ≠ j := by
  rintro rfl
  simp at h

end Crew

/-- Whether an event is about a call of a client. -/
def Event.concerns (i : Fin n) : Event n → Bool
  | .made _ who _ _ | .answered _ who _ _ | .failed _ who _ _ | .dropped _ who _ => who == i
  | .line _ => false

namespace World

@[simp] theorem record_journal (w : World σ n) (e : Event n) :
    (w.record e).journal = e :: w.journal :=
  rfl

@[simp] theorem atTime_now (w : World σ n) (t : Nat) : (w.atTime t).now = max w.now t := rfl

/-! ### Agreement -/

/-- Two worlds are alike in what concerns a client, the time apart. -/
structure Agrees (crew : Crew n) (i : Fin n) (v w : World σ n) : Prop where
  client : v.clients.get i = w.clients.get i
  /-- Those who asked for the input focus of the client are the same, in the same order. -/
  claims : v.claims.filter (crew.sameFocus i) = w.claims.filter (crew.sameFocus i)
  events : v.journal.filter (Event.concerns i) = w.journal.filter (Event.concerns i)

variable {crew : Crew n} {i j : Fin n} {u v w : World σ n}

namespace Agrees

theorem refl (crew : Crew n) (i : Fin n) (w : World σ n) : Agrees crew i w w := ⟨rfl, rfl, rfl⟩

theorem symm (h : Agrees crew i v w) : Agrees crew i w v :=
  ⟨h.client.symm, h.claims.symm, h.events.symm⟩

theorem trans (huv : Agrees crew i u v) (hvw : Agrees crew i v w) : Agrees crew i u w :=
  ⟨huv.client.trans hvw.client, huv.claims.trans hvw.claims, huv.events.trans hvw.events⟩

end Agrees

theorem agrees_atTime (crew : Crew n) (i : Fin n) (w : World σ n) (t : Nat) :
    Agrees crew i (w.atTime t) w := ⟨rfl, rfl, rfl⟩

/-! ### What is done to another client -/

theorem agrees_record (crew : Crew n) (w : World σ n) {e : Event n} (he : e.concerns i = false) :
    Agrees crew i (w.record e) w := by
  refine ⟨rfl, rfl, ?_⟩
  rw [record_journal, List.filter_cons_of_neg (by simp [he])]

theorem agrees_claim (h : crew.sameFocus i j = false) (w : World σ n) :
    Agrees crew i (w.claim j) w := by
  refine ⟨rfl, ?_, rfl⟩
  simp [claim, List.filter_append, h]

theorem agrees_release (h : crew.sameFocus i j = false) (w : World σ n) :
    Agrees crew i (w.release j) w := by
  refine ⟨rfl, ?_, rfl⟩
  simp only [release, List.filter_filter]
  refine List.filter_congr fun k _ => ?_
  -- Whoever shares the focus with the client is not the one that gives it up.
  by_cases hk : k = j
  · subst hk
    simp [h]
  · simp [hk]

theorem agrees_call [ClientModel σ] (h : i ≠ j) (w : World σ n) {κ : AnswerKind} (c : Call κ) :
    Agrees crew i (w.call crew j c).2 w := by
  refine ⟨?_, rfl, ?_⟩
  · have hne : j.val ≠ i.val := fun hval => h (Fin.ext hval.symm)
    exact Vector.getElem_set_ne j.isLt i.isLt hne
  · have hne : (j == i) = false := by simpa using fun hji => h hji.symm
    simp only [call, record]
    rw [List.filter_cons_of_neg (by simp [Event.concerns, hne])]

/-! ### What is done to the client itself -/

namespace Agrees

theorem record (h : Agrees crew i v w) (e : Event n) : Agrees crew i (v.record e) (w.record e) := by
  refine ⟨h.client, h.claims, ?_⟩
  simp only [record_journal, List.filter_cons, h.events]

theorem claim (h : Agrees crew i v w) : Agrees crew i (v.claim i) (w.claim i) := by
  refine ⟨h.client, ?_, h.events⟩
  simp only [World.claim, List.filter_append, h.claims]

theorem release (h : Agrees crew i v w) : Agrees crew i (v.release i) (w.release i) := by
  refine ⟨h.client, ?_, h.events⟩
  have hswap : ∀ l : List (Fin n), (l.filter (· != i)).filter (crew.sameFocus i) =
      (l.filter (crew.sameFocus i)).filter (· != i) := by
    intro l
    rw [List.filter_filter, List.filter_filter]
    exact List.filter_congr fun k _ => Bool.and_comm _ _
  simp only [World.release]
  rw [hswap, hswap, h.claims]

/-- Giving up what the client does not claim in the other world. -/
theorem release_left (h : Agrees crew i v w) (hnotMem : i ∉ w.claims) :
    Agrees crew i (v.release i) w := by
  have hrelease : (w.release i).claims = w.claims := by
    refine List.filter_eq_self.mpr fun k hk => ?_
    have hne : k ≠ i := fun hki => hnotMem (hki ▸ hk)
    simpa using hne
  refine ⟨h.client, ?_, h.events⟩
  rw [h.release.claims, hrelease]

theorem focusHeld (h : Agrees crew i v w) : v.focusHeld crew i = w.focusHeld crew i := by
  have hany : ∀ l : List (Fin n),
      l.any (crew.sameFocus i) = !(l.filter (crew.sameFocus i)).isEmpty := by
    intro l
    induction l with
    | nil => rfl
    | cons k rest ih => cases hk : crew.sameFocus i k <;> simp [hk, ih]
  simp only [World.focusHeld]
  rw [hany, hany, h.claims]

theorem hasFocus (h : Agrees crew i v w) : v.hasFocus crew i = w.hasFocus crew i := by
  simp only [World.hasFocus, ← List.head?_filter, h.claims]

/-- A call to the client has the same reply in either world, and is noted in the same way. -/
theorem call [ClientModel σ] (h : Agrees crew i v w) (hnow : v.now = w.now) {κ : AnswerKind}
    (c : Call κ) :
    (v.call crew i c).1 = (w.call crew i c).1 ∧
      Agrees crew i (v.call crew i c).2 (w.call crew i c).2 := by
  have hreply : ClientModel.reply v.now c (v.clients.get i) =
      ClientModel.reply w.now c (w.clients.get i) := by
    rw [hnow, h.client]
  refine ⟨?_, ?_, h.claims, ?_⟩
  · simp only [World.call, hreply]
  · have hset : ∀ (clients : Vector σ n) (s : σ), (clients.set i.val s i.isLt).get i = s :=
      fun clients s => Vector.getElem_set_self i.isLt
    simp only [World.call, World.record, hreply, hset]
  · simp only [World.call, World.record, List.filter_cons, h.events, h.focusHeld, hnow]

end Agrees

end World

end BotScript
