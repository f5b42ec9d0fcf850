import BotScript.Proofs.Activity.Transcript

/-!
# Who is called first

The members of a group make their first calls in order, if no two of them share the input focus:
those who have not been called yet are the last ones, the first of them can always go on, and the
turn never gets behind it. Somebody may claim the focus of a client from outside the group. Then the
client never gets it, and the group does not succeed.

## Main definitions

* `firstCalls`: the clients that were called, in the order of their first calls.
* `World.Unrivalled`: nobody else comes before a client with a claim on its focus.
* `Member.Early`: a member is about to make its first call.
* `Group.InTurn`: the first calls have been made in order.
* `Group.Blocked`: a client waits for a focus that it never gets.

## Main results

* `Group.InTurn.move`, `Group.InTurn.of_succeeded`: first calls are made in order.
* `Group.Blocked.move`, `Group.Blocked.not_succeeded`: a client that never gets the focus.
-/

namespace BotScript

open World

variable {σ : Type} {n : Nat} {ι κ : AnswerKind}

/-- The clients that were called, in the order of their first calls; the newest event
comes first. -/
def firstCalls (events : List (Event n)) : List (Fin n) := (callers events).eraseDups

theorem firstCalls_append_of_subset {newer older : List (Event n)}
    (h : ∀ i ∈ callers newer, i ∈ firstCalls older) :
    firstCalls (newer ++ older) = firstCalls older := by
  have hcallers : callers (newer ++ older) = callers older ++ callers newer := by
    simp [callers, List.filterMap_append]
  have hnone : (callers newer).removeAll (callers older) = [] := by
    refine List.filter_eq_nil_iff.2 fun i hi => ?_
    have hmem : i ∈ callers older := List.mem_eraseDups.1 (h i hi)
    simpa using hmem
  rw [firstCalls, hcallers, List.eraseDups_append, hnone]
  simp [firstCalls]

theorem firstCalls_made {events : List (Event n)} {i : Fin n} (h : i ∉ firstCalls events) (t : Nat)
    (c : Call ι) (held : Bool) :
    firstCalls (.made t i c held :: events) = firstCalls events ++ [i] := by
  have hnew : i ∉ callers events := mt List.mem_eraseDups.2 h
  have hone : [i].removeAll (callers events) = [i] := by simp [List.removeAll, hnew]
  rw [firstCalls, callers_cons, List.eraseDups_append]
  simp only [Event.caller?, Option.toList, hone]
  rfl

/-! ### Claims of others -/

namespace World

variable {crew : Crew n} {v w : World σ n} {i j : Fin n}

/-- Nobody claims the focus of a client before it does. -/
def Unrivalled (crew : Crew n) (w : World σ n) (i : Fin n) : Prop :=
  w.claims.find? (crew.sameFocus i) = none ∨ w.hasFocus crew i = true

theorem Unrivalled.hasFocus_claim (h : w.Unrivalled crew i) :
    (w.claim i).hasFocus crew i = true := by
  rcases h with hnone | hfocus
  · simp [hasFocus, claim, List.find?_append, hnone]
  · exact World.hasFocus_claim hfocus i

theorem Unrivalled.claim (h : w.Unrivalled crew i) (hapart : crew.sameFocus i j = false) :
    (w.claim j).Unrivalled crew i := by
  refine h.imp (fun hnone => ?_) fun hfocus => World.hasFocus_claim hfocus j
  simp [World.claim, List.find?_append, hnone, hapart]

theorem Unrivalled.release (h : w.Unrivalled crew i) (hne : i ≠ j) :
    (w.release j).Unrivalled crew i := by
  refine h.imp (fun hnone => ?_) fun hfocus => World.hasFocus_release hfocus hne
  refine List.find?_eq_none.2 fun k hk => ?_
  exact List.find?_eq_none.1 hnone k (List.mem_filter.1 hk).1

/-- The first claim on a focus stays the first one, whoever else claims it. -/
theorem find?_claim (h : w.claims.find? (crew.sameFocus i) = some j) (k : Fin n) :
    (w.claim k).claims.find? (crew.sameFocus i) = some j := by
  simp [World.claim, List.find?_append, h]

/-- The first claim on a focus stays the first one, until it is given up. -/
theorem find?_release (h : w.claims.find? (crew.sameFocus i) = some j) {k : Fin n} (hne : j ≠ k) :
    (w.release k).claims.find? (crew.sameFocus i) = some j := by
  obtain ⟨hsame, before, after, hclaims, hbefore⟩ := List.find?_eq_some_iff_append.1 h
  refine List.find?_eq_some_iff_append.2
    ⟨hsame, before.filter (· != k), after.filter (· != k), ?_, fun l hl => ?_⟩
  · simp [World.release, hclaims, hne]
  · exact hbefore l (List.mem_filter.1 hl).1

end World

/-! ### One member -/

namespace Member

variable {crew : Crew n} {w : World σ n} {m x : Member n κ}

/-- A member is about to make its first call, maybe after it has got the focus. -/
inductive Early (crew : Crew n) (w : World σ n) : Member n κ → Prop
  | calls {i : Fin n} {ι : AnswerKind} (c : Call ι) (next : ι.Answer → Chain κ) :
      Early crew w ⟨i, .ready (.call c next)⟩
  | asks {i : Fin n} {ι : AnswerKind} (c : Call ι) (next : ι.Answer → Chain κ)
      (h : w.Unrivalled crew i) : Early crew w ⟨i, .ready (.focus (.call c next))⟩
  | queues {i : Fin n} {ι : AnswerKind} (c : Call ι) (next : ι.Answer → Chain κ)
      (h : w.hasFocus crew i = true) : Early crew w ⟨i, .queued (.call c next)⟩

theorem Early.canMove (h : m.Early crew w) : m.canMove crew w = true := by
  cases h with
  | calls => rfl
  | asks => rfl
  | queues c next h => exact h

theorem Early.not_ended (h : m.Early crew w) (r : Except Fault κ.Answer) : ¬ m.Ended r := by
  cases h <;> nofun

/-- What a member does to the claims: nothing, or it claims the focus, or gives it up. -/
theorem move_claims [ClientModel σ] (crew : Crew n) (w : World σ n) (m : Member n κ) :
    (m.move crew w).2.claims = w.claims ∨ (m.move crew w).2.claims = (w.claim m.who).claims ∨
      (m.move crew w).2.claims = (w.release m.who).claims := by
  unfold move
  split
  · exact .inr (.inr rfl)
  · exact .inr (.inr rfl)
  · exact .inl rfl
  · exact .inl rfl
  · exact .inr (.inl rfl)
  · exact .inl rfl
  · exact .inl rfl
  · exact .inr (.inr rfl)
  · exact .inl rfl
  · exact .inl rfl
  · exact .inl rfl

/-- What a member writes down are calls of its own client, and their ends. -/
theorem move_journal [ClientModel σ] (crew : Crew n) (w : World σ n) (m : Member n κ) :
    ∃ events, (m.move crew w).2.journal = events ++ w.journal ∧
      ∀ i ∈ callers events, i = m.who := by
  have hcall : ∀ {ι : AnswerKind} (c : Call ι), ∃ events,
      (w.call crew m.who c).2.journal = events ++ w.journal ∧ ∀ i ∈ callers events, i = m.who :=
    fun c => ⟨[.made w.now m.who c (w.focusHeld crew m.who)], rfl, by simp [callers, Event.caller?]⟩
  have hnothing : ∃ events : List (Event n), w.journal = events ++ w.journal ∧
      ∀ i ∈ callers events, i = m.who := ⟨[], rfl, by simp [callers]⟩
  unfold move
  split
  · exact hnothing
  · exact hnothing
  · exact hcall _
  · exact hnothing
  · exact hnothing
  · exact hcall _
  · exact ⟨[.answered w.now m.who _ _], rfl, by simp [callers, Event.caller?]⟩
  · exact ⟨[.failed w.now m.who _ _], rfl, by simp [callers, Event.caller?]⟩
  · exact hnothing
  · exact hnothing
  · exact hnothing

/-- What a member does leaves the others that are about to make their first calls as they are. -/
theorem Early.move_other [ClientModel σ] (h : x.Early crew w)
    (hapart : crew.sameFocus x.who m.who = false) :
    x.Early crew (m.move crew w).2 := by
  have hne : x.who ≠ m.who := Crew.ne_of_sameFocus hapart
  -- Only claims matter here, and those of a member with another focus are out of the way.
  have hfocus : w.hasFocus crew x.who = true → (m.move crew w).2.hasFocus crew x.who = true := by
    intro hhas
    unfold World.hasFocus
    rcases move_claims crew w m with hclaims | hclaims | hclaims <;> rw [hclaims]
    · exact hhas
    · exact hasFocus_claim hhas m.who
    · exact hasFocus_release hhas hne
  have hunrivalled : w.Unrivalled crew x.who → (m.move crew w).2.Unrivalled crew x.who := by
    intro hfree
    unfold Unrivalled World.hasFocus
    rcases move_claims crew w m with hclaims | hclaims | hclaims <;> rw [hclaims]
    · exact hfree
    · exact hfree.claim hapart
    · exact hfree.release hne
  cases h with
  | calls c next => exact .calls c next
  | asks c next h => exact .asks c next (hunrivalled h)
  | queues c next h => exact .queues c next (hfocus h)

/-- A member that is about to make its first call makes it, or comes closer to it. -/
theorem Early.move [ClientModel σ] (h : m.Early crew w) :
    (∃ (ι : AnswerKind) (c : Call ι) (held : Bool),
      (m.move crew w).2.journal = .made w.now m.who c held :: w.journal) ∨
      (m.move crew w).1.Early crew (m.move crew w).2 ∧ (m.move crew w).2.journal = w.journal := by
  cases h with
  | calls c next => exact .inl ⟨_, c, _, rfl⟩
  | asks c next h => exact .inr ⟨.queues c next h.hasFocus_claim, rfl⟩
  | queues c next h => exact .inr ⟨.calls c next, rfl⟩

end Member

/-! ### Groups -/

namespace Group

variable {crew : Crew n} {w₀ w : World σ n} {g : Group n κ} {i : Nat}

/-- The first calls since a world have been made in order: those who have not been called are the
last ones, and the turn is not behind the first of them. -/
structure InTurn (crew : Crew n) (w₀ w : World σ n) (g : Group n κ)
    (called waiting : List (Member n κ)) :
    Prop where
  line : g.members = called ++ waiting
  cursor_le : g.cursor ≤ called.length
  early : ∀ m ∈ waiting, m.Early crew w
  first : ∃ events, w.journal = events ++ w₀.journal ∧ firstCalls events = called.map Member.who

/-- A member that has been called goes on. -/
theorem InTurn.move_called [ClientModel σ] {before after waiting : List (Member n κ)}
    {m : Member n κ} (hapart : crew.Apart (g.members.map Member.who))
    (h : InTurn crew w₀ w g (before ++ m :: after) waiting) :
    InTurn crew w₀ (g.move crew w before.length).2 (g.move crew w before.length).1
      (before ++ (m.move crew w).1 :: after) waiting := by
  have hsplit : g.members = before ++ m :: (after ++ waiting) := h.line.trans (by simp)
  rw [move_split hsplit]
  refine ⟨by simp, by simp, fun x hx => (h.early x hx).move_other ?_, ?_⟩
  · rw [hsplit, List.map_append, List.map_cons] at hapart
    have hpair := (List.pairwise_cons.1 (List.pairwise_append.1 hapart).2.1).1
    rw [Crew.sameFocus_comm]
    exact hpair x.who (List.mem_map_of_mem (List.mem_append_right _ hx))
  · obtain ⟨events, hjournal, hfirst⟩ := h.first
    obtain ⟨newer, hnewer, hcallers⟩ := Member.move_journal crew w m
    refine ⟨newer ++ events, ?_, ?_⟩
    · rw [hnewer, hjournal, List.append_assoc]
    · -- Whoever calls now has called before.
      rw [firstCalls_append_of_subset fun i hi => ?_, hfirst]
      · simp
      · rw [hcallers i hi, hfirst]
        simp

/-- The first of those who have not been called has the turn. -/
theorem InTurn.move_waiting [ClientModel σ] {called after : List (Member n κ)} {m : Member n κ}
    (hapart : crew.Apart (g.members.map Member.who)) (h : InTurn crew w₀ w g called (m :: after)) :
    ∃ called' waiting', InTurn crew w₀ (g.move crew w called.length).2
      (g.move crew w called.length).1
      called' waiting' := by
  have hwho := h.line
  rw [hwho, List.map_append, List.map_cons] at hapart
  have hlater : ∀ x ∈ after, crew.sameFocus x.who m.who = false := by
    intro x hx
    rw [Crew.sameFocus_comm]
    exact (List.pairwise_cons.1 (List.pairwise_append.1 hapart).2.1).1 x.who
      (List.mem_map_of_mem hx)
  have hothers : ∀ x ∈ after, x.Early crew (m.move crew w).2 := fun x hx =>
    (h.early x (List.mem_cons_of_mem _ hx)).move_other (hlater x hx)
  obtain ⟨events, hjournal, hfirst⟩ := h.first
  rw [move_split h.line]
  -- Either it makes its call and is the last one called, or it still is the first one waiting.
  rcases (h.early m List.mem_cons_self).move with ⟨ι, c, held, hmade⟩ | ⟨hearly, hsilent⟩
  · refine ⟨called ++ [(m.move crew w).1], after, by simp, by simp, hothers,
      .made w.now m.who c held :: events, by rw [hmade, hjournal]; rfl, ?_⟩
    have hnew : m.who ∉ firstCalls events := by
      rw [hfirst]
      intro hmem
      have hself := (List.pairwise_append.1 hapart).2.2 m.who hmem m.who List.mem_cons_self
      exact Crew.ne_of_sameFocus hself rfl
    rw [firstCalls_made hnew, hfirst]
    simp
  · refine ⟨called, (m.move crew w).1 :: after, rfl, Nat.le_refl _, fun x hx => ?_, events,
      hsilent.trans hjournal, hfirst⟩
    rcases List.mem_cons.1 hx with rfl | hx
    · exact hearly
    · exact hothers x hx

/-- Whoever has the turn, the first calls are made in order. -/
theorem InTurn.move [ClientModel σ] {called waiting : List (Member n κ)}
    (hapart : crew.Apart (g.members.map Member.who)) (h : InTurn crew w₀ w g called waiting)
    (hnext : g.next? crew w = some i) :
    ∃ called' waiting',
      InTurn crew w₀ (g.move crew w i).2 (g.move crew w i).1 called' waiting' := by
  -- The search for the next member does not get past one that can move, as all who wait can.
  have hle : i ≤ called.length :=
    next?_le h.line (fun m hm => (h.early m hm).canMove) h.cursor_le hnext
  obtain ⟨before, m, after, hsplit, rfl, -⟩ := next?_split hnext
  have hsame : before ++ m :: after = called ++ waiting := hsplit.symm.trans h.line
  rcases List.append_eq_append_iff.1 hsame with ⟨rest, rfl, hafter⟩ | ⟨rest, rfl, hwaiting⟩
  · cases rest with
    | nil =>
      obtain rfl : m :: after = waiting := by simpa using hafter
      rw [List.append_nil] at h
      exact h.move_waiting hapart
    | cons first rest =>
      obtain ⟨rfl, rfl⟩ := List.cons.inj hafter
      exact ⟨_, _, h.move_called hapart⟩
  · obtain rfl : rest = [] := by
      rw [List.length_append] at hle
      exact List.length_eq_zero_iff.1 (by omega)
    obtain rfl : waiting = m :: after := by simpa using hwaiting
    rw [List.append_nil]
    exact h.move_waiting hapart

theorem InTurn.wake {called waiting : List (Member n κ)} (h : InTurn crew w₀ w g called waiting)
    (t : Nat) :
    InTurn crew w₀ (w.atTime t) ⟨g.members, 0⟩ called waiting := by
  refine ⟨h.line, Nat.zero_le _, fun m hm => ?_, h.first⟩
  cases h.early m hm with
  | calls c next => exact .calls c next
  | asks c next h => exact .asks c next h
  | queues c next h => exact .queues c next h

/-- When a group has succeeded, everybody has been called, in order. -/
theorem InTurn.of_succeeded {called waiting : List (Member n κ)}
    (h : InTurn crew w₀ w g called waiting) {results : List κ.Answer}
    (hverdict : g.verdict = some (.ok results)) :
    ∃ events, w.journal = events ++ w₀.journal ∧ firstCalls events = g.members.map Member.who := by
  have hnobody : waiting = [] := by
    refine List.eq_nil_iff_forall_not_mem.2 fun m hm => ?_
    have hmem : m ∈ g.members := by
      rw [h.line]
      exact List.mem_append_right _ hm
    obtain ⟨a, ha⟩ := exists_of_forall₂ (verdict_eq_ok_iff.1 hverdict) hmem
    exact (h.early m hm).not_ended _ ha
  obtain ⟨events, hjournal, hfirst⟩ := h.first
  refine ⟨events, hjournal, ?_⟩
  rw [hfirst, h.line, hnobody, List.append_nil]

/-! ### A focus that is never free -/

/-- A client waits for the focus, on which somebody else has the first claim. -/
structure Blocked (crew : Crew n) (k j : Fin n) (w : World σ n) (members : List (Member n κ)) :
    Prop where
  claimed : w.claims.find? (crew.sameFocus k) = some j
  rival : j ≠ k
  outside : j ∉ members.map Member.who
  member : ∃ m ∈ members, m.who = k
  waits : ∀ m ∈ members, m.who = k → ∃ c, m.stage = .ready (.focus c) ∨ m.stage = .queued c

/-- Nobody in the group gives up the claim from outside. -/
theorem Blocked.move [ClientModel σ] {k j : Fin n} (h : Blocked crew k j w g.members)
    (hnext : g.next? crew w = some i) :
    Blocked crew k j (g.move crew w i).2 (g.move crew w i).1.members := by
  have hwho := map_who_move crew w g i
  obtain ⟨before, m, after, hsplit, rfl, hcan⟩ := next?_split hnext
  have hmem : m ∈ g.members := by simp [hsplit]
  have hother : j ≠ m.who := fun hj => h.outside (hj ▸ List.mem_map_of_mem hmem)
  refine ⟨?_, h.rival, hwho ▸ h.outside, ?_, fun x hx hk => ?_⟩
  · rw [move_split hsplit]
    rcases Member.move_claims crew w m with hclaims | hclaims | hclaims
    · exact hclaims ▸ h.claimed
    · exact hclaims ▸ find?_claim h.claimed m.who
    · exact hclaims ▸ find?_release h.claimed hother
  · obtain ⟨x, hx, rfl⟩ := h.member
    have hstill : x.who ∈ (g.move crew w before.length).1.members.map Member.who :=
      hwho ▸ List.mem_map_of_mem hx
    exact List.mem_map.1 hstill
  · rw [move_split hsplit] at hx
    rcases List.mem_append.1 hx with hx | hx
    · exact h.waits x (by simp [hsplit, hx]) hk
    · rcases List.mem_cons.1 hx with rfl | hx
      · rw [Member.move_who] at hk
        obtain ⟨c, hready | hqueued⟩ := h.waits m hmem hk
        · refine ⟨c, .inr ?_⟩
          rw [Member.move, hready]
        · -- It would have the focus.
          have hfocus : w.hasFocus crew k = true := by
            rw [Member.canMove, hqueued] at hcan
            exact hk ▸ hcan
          rw [hasFocus, h.claimed, beq_iff_eq] at hfocus
          exact absurd (Option.some.inj hfocus) h.rival
      · exact h.waits x (by simp [hsplit, hx]) hk

/-- As long as a client waits, the group has not succeeded. -/
theorem Blocked.not_succeeded {k j : Fin n} (h : Blocked crew k j w g.members)
    (results : List κ.Answer) :
    g.verdict ≠ some (.ok results) := by
  intro hverdict
  obtain ⟨m, hm, hk⟩ := h.member
  obtain ⟨a, ha⟩ := exists_of_forall₂ (verdict_eq_ok_iff.1 hverdict) hm
  have hended : m.stage = .ended (.ok a) := ha
  obtain ⟨c, hstage | hstage⟩ := h.waits m hm hk
  · cases hstage.symm.trans hended
  · cases hstage.symm.trans hended

end Group

end BotScript
