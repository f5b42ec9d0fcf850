import Mathlib.Data.List.Nodup
import BotScript.Proofs.Activity.Pairing
import BotScript.Proofs.Activity.Rounds

/-!
# One call under the input focus

The members of a group all make the same call, each while it has the input focus, which some of them
may share. They ask for it in order, because those who have not asked yet are the last ones and the
turn never gets behind the first of them. So the claims are those of the members that have asked and
not yet ended, in order, and whoever has the focus comes before all others that wait for it.

## Main definitions

* `Stage.Serving`: how far a member can have come.
* `Group.Served`: the state of such a group.
* `Running.Attending`: an activity that is made of such a group.

## Main results

* `Group.Served.move`: what one turn preserves.
* `Running.Comes.attending`: what a run preserves.
* `Running.Attending.hasFocus`, `Running.Attending.exclusive`: calls under way are made under the
  focus, one for each focus.
* `Running.Attending.inOrder`: those who share the focus have it in order.
* `Running.Attending.halt_frees`, `Running.Attending.run_frees`: at the end no claim is left.
-/

namespace BotScript

open World

variable {σ : Type} {n : Nat} {κ : AnswerKind} {α : Type}

/-! ### Having the focus -/

theorem Crew.sameFocus_congr {crew : Crew n} {i j : Fin n} (h : crew.sameFocus i j = true)
    (k : Fin n) :
    crew.sameFocus i k = crew.sameFocus j k := by
  unfold sameFocus at h ⊢
  by_cases hij : i = j
  · rw [hij]
  · simp only [beq_eq_false_iff_ne.2 hij, Bool.false_or, Bool.and_eq_true, beq_iff_eq] at h
    obtain ⟨hsome, hsame⟩ := h
    -- With a focus in common, sharing it with either is the same.
    rw [← hsame, hsome]
    by_cases hik : i = k
    · subst hik
      simp [hsame]
    · by_cases hjk : j = k
      · subst hjk
        simp [hsame]
      · simp [beq_eq_false_iff_ne.2 hik, beq_eq_false_iff_ne.2 hjk]

namespace World

variable {crew : Crew n} {w : World σ n} {i j : Fin n}

/-- Who has the focus comes before all others that claim it. -/
theorem hasFocus_iff : w.hasFocus crew i = true ↔
    ∃ before after, w.claims = before ++ i :: after ∧ ∀ j ∈ before, crew.sameFocus i j = false := by
  rw [hasFocus, beq_iff_eq, List.find?_eq_some_iff_append]
  simp

theorem hasFocus_claim (h : w.hasFocus crew i = true) (j : Fin n) :
    (w.claim j).hasFocus crew i = true := by
  obtain ⟨before, after, hclaims, hbefore⟩ := hasFocus_iff.1 h
  exact hasFocus_iff.2 ⟨before, after ++ [j], by simp [claim, hclaims], hbefore⟩

theorem hasFocus_release (h : w.hasFocus crew i = true) (hne : i ≠ j) :
    (w.release j).hasFocus crew i = true := by
  obtain ⟨before, after, hclaims, hbefore⟩ := hasFocus_iff.1 h
  refine hasFocus_iff.2 ⟨before.filter (· != j), after.filter (· != j), ?_, ?_⟩
  · simp [release, hclaims, hne]
  · intro k hk
    exact hbefore k (List.mem_filter.1 hk).1

/-- Of those that share a focus, one has it at most. -/
theorem eq_of_hasFocus (hi : w.hasFocus crew i = true) (hj : w.hasFocus crew j = true)
    (hsame : crew.sameFocus i j = true) : i = j := by
  have hpred : crew.sameFocus i = crew.sameFocus j := funext (Crew.sameFocus_congr hsame)
  rw [hasFocus, beq_iff_eq] at hi hj
  rw [hpred, hj] at hi
  exact (Option.some.inj hi).symm

end World

/-! ### How far a member has come -/

namespace Stage

/-- How far a member can have come that asks for the focus, makes one call and ends. -/
inductive Serving (c : Call κ) : Stage κ → Prop
  | outside : Serving c (.ready (.focus (.once c)))
  | inLine : Serving c (.queued (.once c))
  | inside : Serving c (.ready (.once c))
  | calling (due : Option Nat) (result : Except ClientError κ.Answer) :
      Serving c (.calling c due result .done)
  | leaving (a : κ.Answer) : Serving c (.ready (.done a))
  | gone (r : Except Fault κ.Answer) : Serving c (.ended r)

/-- It has not asked for the focus yet. -/
def isOutside : Stage κ → Bool
  | .ready (.focus _) => true
  | _ => false

/-- It has asked for the focus, and has not ended. -/
def isClaiming : Stage κ → Bool
  | .ready (.focus _) | .ended _ => false
  | _ => true

/-- It has got the focus, and has not ended. -/
def isInside : Stage κ → Bool
  | .ready (.focus _) | .queued _ | .ended _ => false
  | _ => true

/-- It has made its call. -/
def hasCalled : Stage κ → Bool
  | .ready (.focus _) | .queued _ | .ready (.call _ _) => false
  | _ => true

/-- Who has asked and not called yet claims the focus. -/
theorem Serving.isClaiming_of_not_called {c : Call κ} {s : Stage κ} (h : s.Serving c)
    (hin : s.isOutside = false) (hcalled : s.hasCalled = false) : s.isClaiming = true := by
  cases h with
  | outside => cases hin
  | inLine => rfl
  | inside => rfl
  | calling due result => cases hcalled
  | leaving a => cases hcalled
  | gone r => cases hcalled

end Stage

/-! ### The group -/

/-- The client that an event is a call of. -/
def Event.caller? : Event n → Option (Fin n)
  | .made _ who _ _ => some who
  | _ => none

/-- The clients that were called, in order; the newest event comes first. -/
def callers (events : List (Event n)) : List (Fin n) := events.reverse.filterMap Event.caller?

theorem callers_cons (e : Event n) (events : List (Event n)) :
    callers (e :: events) = callers events ++ e.caller?.toList := by
  cases h : e.caller? <;> simp [callers, h]

namespace Group

/-- The clients that claim the focus, in the order of the group. -/
def claimants (members : List (Member n κ)) : List (Fin n) :=
  (members.filter (·.stage.isClaiming)).map Member.who

/-- The clients whose call is yet to be made, in the order of the group. -/
def uncalled (members : List (Member n κ)) : List (Fin n) :=
  (members.filter (!·.stage.hasCalled)).map Member.who

/-- The state of a group in which everybody makes the same call under the input focus, since an
earlier world. -/
structure Served (crew : Crew n) (c : Call κ) (selected : List (Fin n)) (w₀ w : World σ n)
    (g : Group n κ) : Prop where
  who : g.members.map Member.who = selected
  serving : ∀ m ∈ g.members, m.stage.Serving c
  /-- Those who have not asked yet come last, and the turn is not behind the first of them. -/
  line : ∃ asked outside, g.members = asked ++ outside ∧ (∀ m ∈ asked, m.stage.isOutside = false) ∧
    (∀ m ∈ outside, m.stage.isOutside = true) ∧ g.cursor ≤ asked.length
  /-- Claims are made in the order of the group. -/
  claims : w.claims = w₀.claims ++ claimants g.members
  focus : ∀ m ∈ g.members, m.stage.isInside = true → w.hasFocus crew m.who = true
  /-- Of those that share a focus, the calls made so far and those yet to be made are in order. -/
  calls : ∃ events, w.journal = events ++ w₀.journal ∧
    ∀ k, (callers events).filter (crew.sameFocus k) ++
        (uncalled g.members).filter (crew.sameFocus k) =
      selected.filter (crew.sameFocus k)

section Move

variable {crew : Crew n} {c : Call κ} {selected : List (Fin n)} {w₀ w w' : World σ n}
  {g : Group n κ} {before after : List (Member n κ)} {m m' : Member n κ} {i : Nat}

theorem claimants_split (before : List (Member n κ)) (m : Member n κ) (after : List (Member n κ)) :
    claimants (before ++ m :: after) =
      claimants before ++ (if m.stage.isClaiming then [m.who] else []) ++ claimants after := by
  cases h : m.stage.isClaiming <;> simp [claimants, h]

theorem uncalled_split (before : List (Member n κ)) (m : Member n κ) (after : List (Member n κ)) :
    uncalled (before ++ m :: after) =
      uncalled before ++ (if m.stage.hasCalled then [] else [m.who]) ++ uncalled after := by
  cases h : m.stage.hasCalled <;> simp [uncalled, h]

theorem claimants_subset (members : List (Member n κ)) :
    claimants members ⊆ members.map Member.who := by
  intro k hk
  obtain ⟨m, hm, rfl⟩ := List.mem_map.1 hk
  exact List.mem_map_of_mem (List.mem_filter.1 hm).1

/-- The group at the turn of a member, split there. -/
theorem next?_split (h : g.next? crew w = some i) :
    ∃ before m after, g.members = before ++ m :: after ∧ before.length = i ∧
      m.canMove crew w = true := by
  have hmember : ∃ m, g.members[i]? = some m ∧ m.canMove crew w = true := by
    cases hfirst : firstFrom crew w g.cursor g.members with
    | some k =>
      rw [next?, hfirst] at h
      cases h
      exact (firstFrom_eq_some hfirst).2.1
    | none =>
      rw [next?, hfirst, Option.none_or] at h
      exact (firstFrom_eq_some h).2.1
  obtain ⟨m, hm, hmove⟩ := hmember
  obtain ⟨hi, rfl⟩ := List.getElem?_eq_some_iff.1 hm
  refine ⟨g.members.take i, g.members[i], g.members.drop (i + 1), ?_, ?_, hmove⟩
  · simp
  · simpa using Nat.le_of_lt hi

theorem move_split [ClientModel σ] (hsplit : g.members = before ++ m :: after) :
    g.move crew w before.length =
      (⟨before ++ (m.move crew w).1 :: after, before.length⟩, (m.move crew w).2) := by
  simp [move, hsplit]

/-- If the members from a place on can all go on, and the cursor is not behind it, the turn does not
come to anybody behind the first of them. -/
theorem next?_le {front back : List (Member n κ)} (hline : g.members = front ++ back)
    (hback : ∀ m ∈ back, m.canMove crew w = true) (hcursor : g.cursor ≤ front.length)
    (h : g.next? crew w = some i) : i ≤ front.length := by
  by_contra hlt
  have hlt : front.length < i := Nat.lt_of_not_le hlt
  cases back with
  | nil =>
    obtain ⟨before, m, after, hsplit, rfl, -⟩ := next?_split h
    have hlength := congrArg List.length (hline.symm.trans hsplit)
    simp at hlength
    omega
  | cons first rest =>
    have hfirst : g.members[front.length]? = some first := by simp [hline]
    have hready := hback first List.mem_cons_self
    -- The first of them could have had the turn.
    cases hfrom : firstFrom crew w g.cursor g.members with
    | none =>
      rw [firstFrom_eq_none hfrom hcursor hfirst] at hready
      cases hready
    | some k =>
      rw [next?, hfrom] at h
      cases h
      rw [(firstFrom_eq_some hfrom).2.2 front.length first hcursor hlt hfirst] at hready
      cases hready

/-- The turn comes to somebody who has not asked yet only if all before have asked. -/
theorem asked_of_next? {asked outside : List (Member n κ)} (hline : g.members = asked ++ outside)
    (houtside : ∀ m ∈ outside, m.stage.isOutside = true) (hcursor : g.cursor ≤ asked.length)
    (h : g.next? crew w = some i) : i ≤ asked.length := by
  refine next?_le hline (fun m hm => ?_) hcursor h
  have hout := houtside m hm
  unfold Stage.isOutside at hout
  unfold Member.canMove
  split at hout
  · rename_i hstage
    rw [hstage]
  · cases hout

namespace Served

/-- Everybody before somebody who has asked has asked too. -/
theorem asked_before (h : Served crew c selected w₀ w g) (hsplit : g.members = before ++ m :: after)
    (hm : m.stage.isOutside = false) : ∀ x ∈ before, x.stage.isOutside = false := by
  obtain ⟨asked, outside, hline, hasked, houtside, -⟩ := h.line
  intro x hx
  have hsame : asked ++ outside = before ++ m :: after := hline.symm.trans hsplit
  rcases List.append_eq_append_iff.1 hsame with ⟨rest, hbefore, hafter⟩ | ⟨rest, hbefore, hafter⟩
  · -- The member is among those who have not asked.
    have hmem : m ∈ outside := by simp [hafter]
    rw [houtside m hmem] at hm
    cases hm
  · exact hasked x (by simp [hbefore, hx])

/-- A member that has asked goes on. -/
theorem replace (h : Served crew c selected w₀ w g) (hsplit : g.members = before ++ m :: after)
    (hwho : m'.who = m.who) (hserving : m'.stage.Serving c) (hin : m.stage.isOutside = false)
    (hin' : m'.stage.isOutside = false)
    (hclaims : w'.claims = w₀.claims ++ claimants (before ++ m' :: after))
    (hothers : ∀ i, i ≠ m.who → w.hasFocus crew i = true → w'.hasFocus crew i = true)
    (hfocus : m'.stage.isInside = true → w'.hasFocus crew m.who = true)
    (hcalls : ∃ events, w'.journal = events ++ w₀.journal ∧ ∀ k,
      (callers events).filter (crew.sameFocus k) ++
        (uncalled (before ++ m' :: after)).filter (crew.sameFocus k) = selected.filter
        (crew.sameFocus k))
    (hnodup : selected.Nodup) :
    Served crew c selected w₀ w' ⟨before ++ m' :: after, before.length⟩ := by
  have hwhos := h.who
  rw [hsplit, List.map_append, List.map_cons] at hwhos
  have hothers' : ∀ x ∈ before ++ after, x.who ≠ m.who := by
    intro x hx heq
    rw [← hwhos, List.nodup_middle, List.nodup_cons, ← List.map_append] at hnodup
    exact hnodup.1 (heq ▸ List.mem_map_of_mem hx)
  refine ⟨?_, ?_, ?_, hclaims, ?_, hcalls⟩
  · rw [List.map_append, List.map_cons, hwho, hwhos]
  · intro x hx
    rcases List.mem_append.1 hx with hx | hx
    · exact h.serving x (by simp [hsplit, hx])
    · rcases List.mem_cons.1 hx with rfl | hx
      · exact hserving
      · exact h.serving x (by simp [hsplit, hx])
  · obtain ⟨asked, outside, hline, hasked, houtside, -⟩ := h.line
    have hsame : before ++ m :: after = asked ++ outside := hsplit.symm.trans hline
    rcases List.append_eq_append_iff.1 hsame with ⟨rest, hbefore, hafter⟩ | ⟨rest, hbefore, hafter⟩
    · cases rest with
      | nil =>
        have hmem : m ∈ outside := by
          rw [List.nil_append] at hafter
          simp [← hafter]
        rw [houtside m hmem] at hin
        cases hin
      | cons first rest =>
        obtain ⟨rfl, rfl⟩ := List.cons.inj hafter
        refine ⟨before ++ m' :: rest, outside, by simp, ?_, houtside, by simp⟩
        intro x hx
        rcases List.mem_append.1 hx with hx | hx
        · exact hasked x (by simp [hbefore, hx])
        · rcases List.mem_cons.1 hx with rfl | hx
          · exact hin'
          · exact hasked x (by simp [hbefore, hx])
    · have hmem : m ∈ outside := by simp [hafter]
      rw [houtside m hmem] at hin
      cases hin
  · intro x hx hinside
    have hcases : x = m' ∨ x ∈ before ++ after := by
      rcases List.mem_append.1 hx with hx | hx
      · exact .inr (List.mem_append_left _ hx)
      · exact (List.mem_cons.1 hx).imp_right (List.mem_append_right _)
    rcases hcases with rfl | hx
    · rw [hwho]
      exact hfocus hinside
    · have hmem : x ∈ g.members := by
        rw [hsplit]
        rcases List.mem_append.1 hx with hx | hx <;> simp [hx]
      exact hothers x.who (hothers' x hx) (h.focus x hmem hinside)

/-- Of those that share the focus with the one that has it, all before have made their calls. -/
theorem called_before (h : Served crew c selected w₀ w g) (hnodup : selected.Nodup)
    (hfree : ∀ i ∈ selected, i ∉ w₀.claims) (hsplit : g.members = before ++ m :: after)
    (hin : m.stage.isOutside = false) (hfocus : w.hasFocus crew m.who = true) {x : Member n κ}
    (hx : x ∈ before) (hsame : crew.sameFocus m.who x.who = true) : x.stage.hasCalled = true := by
  by_contra hcalled
  have hcalled : x.stage.hasCalled = false := by simpa using hcalled
  have hmem : x ∈ g.members := by simp [hsplit, hx]
  have hasked := h.asked_before hsplit hin x hx
  have hclaiming := (h.serving x hmem).isClaiming_of_not_called hasked hcalled
  have hclaimant : x.who ∈ claimants before :=
    List.mem_map_of_mem (List.mem_filter.2 ⟨hx, hclaiming⟩)
  -- The claim of the other one comes first, so the first claim on the focus is not that
  -- of the member.
  have hwhos := h.who
  rw [hsplit, List.map_append, List.map_cons] at hwhos
  have hnot : m.who ∉ w₀.claims ++ claimants before := by
    intro hwho
    rcases List.mem_append.1 hwho with hold | hnew
    · exact hfree m.who (by simp [← hwhos]) hold
    · rw [← hwhos, List.nodup_middle, List.nodup_cons] at hnodup
      exact hnodup.1 (List.mem_append_left _ (claimants_subset before hnew))
  have hfirst : (w₀.claims ++ claimants before).find? (crew.sameFocus m.who) ≠ none := by
    intro hnone
    have hno := List.find?_eq_none.1 hnone x.who (List.mem_append_right _ hclaimant)
    exact hno hsame
  obtain ⟨k, hk⟩ := Option.ne_none_iff_exists'.1 hfirst
  have hall : w.claims.find? (crew.sameFocus m.who) = some k := by
    rw [h.claims, hsplit, claimants_split, ← List.append_assoc, ← List.append_assoc,
      List.append_assoc, List.find?_append, hk, Option.some_or]
  rw [hasFocus, hall, beq_iff_eq] at hfocus
  cases hfocus
  exact hnot (List.mem_of_find?_eq_some hk)

/-- Giving up the focus leaves the claims of the others. -/
theorem claims_release (h : Served crew c selected w₀ w g) (hnodup : selected.Nodup)
    (hfree : ∀ i ∈ selected, i ∉ w₀.claims) (hsplit : g.members = before ++ m :: after)
    (hclaiming : m'.stage.isClaiming = false) :
    (w.release m.who).claims = w₀.claims ++ claimants (before ++ m' :: after) := by
  have hwhos := h.who
  rw [hsplit, List.map_append, List.map_cons] at hwhos
  have hothers : ∀ l, l ⊆ before.map Member.who ++ after.map Member.who →
      l.filter (· != m.who) = l := by
    intro l hl
    rw [List.filter_eq_self]
    intro k hk
    rw [← hwhos, List.nodup_middle, List.nodup_cons] at hnodup
    have hne : k ≠ m.who := fun heq => hnodup.1 (heq ▸ hl hk)
    simpa using hne
  have hold : w₀.claims.filter (· != m.who) = w₀.claims := by
    rw [List.filter_eq_self]
    intro k hk
    have hne : k ≠ m.who := by
      rintro rfl
      exact hfree m.who (by simp [← hwhos]) hk
    simpa using hne
  have hmember : (if m.stage.isClaiming then [m.who] else []).filter (· != m.who) = [] := by
    cases m.stage.isClaiming <;> simp
  simp only [release, h.claims, hsplit, claimants_split, List.filter_append, hold, hmember,
    hclaiming]
  rw [hothers (claimants before) fun k hk => List.mem_append_left _ (claimants_subset before hk),
    hothers (claimants after) fun k hk => List.mem_append_right _ (claimants_subset after hk)]
  simp

/-- Somebody asks for the focus, after all those before. -/
theorem ask (h : Served crew c selected w₀ w g) {who : Fin n}
    (hsplit : g.members = before ++ ⟨who, .ready (.focus (.once c))⟩ :: after)
    (hnext : g.next? crew w = some before.length) :
    Served crew c selected w₀ (w.claim who) ⟨before ++ ⟨who, .queued (.once c)⟩ :: after,
      before.length⟩ := by
  obtain ⟨asked, outside, hline, hasked, houtside, hcursor⟩ := h.line
  -- It is the first of those who have not asked yet.
  have hasked_eq : before = asked ∧ ⟨who, .ready (.focus (.once c))⟩ :: after = outside := by
    have hsame := hsplit.symm.trans hline
    have hle := asked_of_next? hline houtside hcursor hnext
    rcases List.append_eq_append_iff.1 hsame with ⟨rest, hbefore, hafter⟩ | ⟨rest, hbefore, hafter⟩
    · cases rest with
      | nil => exact ⟨by simp [hbefore], by simpa using hafter⟩
      | cons first rest =>
        obtain ⟨rfl, -⟩ := List.cons.inj hafter
        have hin := hasked ⟨who, .ready (.focus (.once c))⟩ (by simp [hbefore])
        cases hin
    · obtain rfl : rest = [] := by
        rw [hbefore, List.length_append] at hle
        exact List.length_eq_zero_iff.1 (by omega)
      exact ⟨by simpa using hbefore, by simpa using hafter.symm⟩
  obtain ⟨rfl, rfl⟩ := hasked_eq
  have hafter : ∀ m ∈ after, m.stage.isOutside = true := fun m hm =>
    houtside m (List.mem_cons_of_mem _ hm)
  refine ⟨?_, ?_, ?_, ?_, ?_, ?_⟩
  · have hwho := h.who
    rw [hsplit] at hwho
    simpa using hwho
  · intro x hx
    rcases List.mem_append.1 hx with hx | hx
    · exact h.serving x (by simp [hsplit, hx])
    · rcases List.mem_cons.1 hx with rfl | hx
      · exact .inLine
      · exact h.serving x (by simp [hsplit, hx])
  · refine ⟨before ++ [⟨who, .queued (.once c)⟩], after, by simp, ?_, hafter, by simp⟩
    intro x hx
    rcases List.mem_append.1 hx with hx | hx
    · exact hasked x hx
    · rw [List.mem_singleton.1 hx]
      rfl
  · have hnobody : claimants after = [] := by
      rw [claimants, List.filter_eq_nil_iff.2, List.map_nil]
      intro x hx
      have hout := hafter x hx
      unfold Stage.isOutside at hout
      split at hout
      · rename_i hstage
        simp [hstage, Stage.isClaiming]
      · cases hout
    simp only [claim, h.claims, hsplit, claimants_split, hnobody, Stage.isClaiming]
    simp
  · intro x hx hinside
    refine hasFocus_claim (h.focus x ?_ hinside) who
    rcases List.mem_append.1 hx with hx | hx
    · simp [hsplit, hx]
    · rcases List.mem_cons.1 hx with rfl | hx
      · cases hinside
      · simp [hsplit, hx]
  · obtain ⟨events, hjournal, hcalls⟩ := h.calls
    refine ⟨events, hjournal, fun k => ?_⟩
    rw [← hcalls k, hsplit, uncalled_split, uncalled_split]
    rfl

/-- Whoever has the turn goes on. -/
theorem move [ClientModel σ] (h : Served crew c selected w₀ w g) (hnodup : selected.Nodup)
    (hfree : ∀ i ∈ selected, i ∉ w₀.claims) (hnext : g.next? crew w = some i) :
    Served crew c selected w₀ (g.move crew w i).2 (g.move crew w i).1 := by
  obtain ⟨before, m, after, hsplit, rfl, hmove⟩ := next?_split hnext
  rw [move_split hsplit]
  obtain ⟨who, stage⟩ := m
  have hmem : (⟨who, stage⟩ : Member n κ) ∈ g.members := by simp [hsplit]
  have hserving : stage.Serving c := h.serving _ hmem
  have hinside : stage.isInside = true → w.hasFocus crew who = true := h.focus _ hmem
  have hkeep : ∀ {v : World σ n}, v.claims = w.claims →
      ∀ i, i ≠ who → w.hasFocus crew i = true → v.hasFocus crew i = true := by
    intro v hv i _ hi
    rwa [hasFocus, hv]
  obtain ⟨events, hjournal, hcalls⟩ := h.calls
  rw [hsplit] at hcalls
  simp only [uncalled_split] at hcalls
  have hclaims := h.claims
  rw [hsplit, claimants_split] at hclaims
  cases hserving with
  | outside => exact h.ask hsplit hnext
  | inLine =>
    refine h.replace hsplit rfl .inside rfl rfl ?_ (hkeep rfl) (fun _ => hmove) ?_ hnodup
    · rw [claimants_split]
      exact hclaims
    · refine ⟨events, hjournal, fun k => ?_⟩
      rw [uncalled_split]
      exact hcalls k
  | inside =>
    have hfocus := hinside rfl
    refine h.replace hsplit rfl (.calling _ _) rfl rfl ?_ (hkeep rfl) (fun _ => hfocus) ?_ hnodup
    · rw [claimants_split]
      exact hclaims
    · refine ⟨.made w.now who c (w.focusHeld crew who) :: events, congrArg _ hjournal, fun k => ?_⟩
      rw [callers_cons, uncalled_split, ← hcalls k]
      cases hk : crew.sameFocus k who with
      | false => simp [Event.caller?, Stage.hasCalled, Member.move, Member.call, hk, Chain.once]
      | true =>
        -- Nobody before it that shares the focus has its call yet to make.
        have hnone : (uncalled before).filter (crew.sameFocus k) = [] := by
          rw [List.filter_eq_nil_iff]
          intro j hj hsame
          obtain ⟨x, hx, rfl⟩ := List.mem_map.1 hj
          obtain ⟨hx, hcalled⟩ := List.mem_filter.1 hx
          have hboth : crew.sameFocus who x.who = true :=
            (Crew.sameFocus_congr hk x.who).symm.trans hsame
          have hdone := h.called_before hnodup hfree hsplit rfl hfocus hx hboth
          simp [hdone] at hcalled
        simp [Event.caller?, Stage.hasCalled, Member.move, Member.call, hk, hnone, Chain.once]
  | calling due result =>
    have hfocus := hinside rfl
    cases result with
    | ok a =>
      refine h.replace hsplit rfl (.leaving a) rfl rfl ?_ (hkeep rfl) (fun _ => hfocus) ?_ hnodup
      · rw [claimants_split]
        exact hclaims
      · refine ⟨.answered w.now who c a :: events, congrArg _ hjournal, fun k => ?_⟩
        rw [callers_cons, uncalled_split, ← hcalls k]
        simp [Event.caller?, Stage.hasCalled, Member.move]
    | error e =>
      refine h.replace hsplit rfl (.gone _) rfl rfl ?_ ?_ Bool.noConfusion ?_ hnodup
      · exact h.claims_release hnodup hfree hsplit rfl
      · intro i hi hasfocus
        exact hasFocus_release (w := w.failed who c e) hasfocus hi
      · refine ⟨.failed w.now who c e :: events, congrArg _ hjournal, fun k => ?_⟩
        rw [callers_cons, uncalled_split, ← hcalls k]
        simp [Event.caller?, Stage.hasCalled, Member.move, Member.finish]
  | leaving a =>
    refine h.replace hsplit rfl (.gone _) rfl rfl ?_ ?_ Bool.noConfusion ?_ hnodup
    · exact h.claims_release hnodup hfree hsplit rfl
    · intro i hi hasfocus
      exact hasFocus_release hasfocus hi
    · refine ⟨events, hjournal, fun k => ?_⟩
      rw [uncalled_split, ← hcalls k]
      rfl
  | gone r => cases hmove

/-- Time passes. -/
theorem wake (h : Served crew c selected w₀ w g) (t : Nat) :
    Served crew c selected w₀ (w.atTime t) { g with cursor := 0 } := by
  obtain ⟨asked, outside, hline, hasked, houtside, -⟩ := h.line
  exact ⟨h.who, h.serving, ⟨asked, outside, hline, hasked, houtside, Nat.zero_le _⟩, h.claims,
    h.focus, h.calls⟩

/-- When all have ended, nobody claims the focus and no call is yet to be made. -/
theorem of_succeeded (h : Served crew c selected w₀ w g) {results : List κ.Answer}
    (hverdict : g.verdict = some (.ok results)) : w.claims = w₀.claims ∧
      ∃ events, w.journal = events ++ w₀.journal ∧
        ∀ k, (callers events).filter (crew.sameFocus k) = selected.filter (crew.sameFocus k) := by
  have hended : ∀ m ∈ g.members, ∃ a, m.stage = .ended (.ok a) := fun m hm =>
    exists_of_forall₂ (verdict_eq_ok_iff.1 hverdict) hm
  have hnoClaim : claimants g.members = [] := by
    rw [claimants, List.filter_eq_nil_iff.2, List.map_nil]
    intro m hm
    obtain ⟨a, ha⟩ := hended m hm
    simp [ha, Stage.isClaiming]
  have hnoCall : uncalled g.members = [] := by
    rw [uncalled, List.filter_eq_nil_iff.2, List.map_nil]
    intro m hm
    obtain ⟨a, ha⟩ := hended m hm
    simp [ha, Stage.hasCalled]
  obtain ⟨events, hjournal, hcalls⟩ := h.calls
  refine ⟨by rw [h.claims, hnoClaim, List.append_nil], events, hjournal, fun k => ?_⟩
  rw [← hcalls k, hnoCall, List.filter_nil, List.append_nil]

/-- When the group is given up, only the claims from before are left. -/
theorem claims_drop (h : Served crew c selected w₀ w g) (hfree : ∀ i ∈ selected, i ∉ w₀.claims) :
    (Group.drop w g.members).claims = w₀.claims := by
  have hdrop : ∀ (members : List (Member n κ)) (v : World σ n),
      (Group.drop v members).claims = v.claims.filter (· ∉ members.map Member.who) := by
    intro members
    induction members with
    | nil =>
      intro v
      simp [Group.drop]
    | cons m rest ih =>
      intro v
      have hfirst : (m.drop v).claims = v.claims.filter (· != m.who) := by
        unfold Member.drop
        split <;> rfl
      change (Group.drop (m.drop v) rest).claims = _
      rw [ih, hfirst, List.filter_filter]
      refine List.filter_congr fun k _ => ?_
      by_cases hk : k = m.who <;> simp [hk]
  rw [hdrop, h.who, h.claims, List.filter_append]
  have hold : w₀.claims.filter (· ∉ selected) = w₀.claims := by
    rw [List.filter_eq_self]
    intro k hk
    simpa using fun hmem => hfree k hmem hk
  have hnew : (claimants g.members).filter (· ∉ selected) = [] := by
    rw [List.filter_eq_nil_iff]
    intro k hk
    have hmem := claimants_subset g.members hk
    rw [h.who] at hmem
    simpa using hmem
  rw [hold, hnew, List.append_nil]

end Served

end Move

/-- At the beginning nobody has asked. -/
theorem served_start (crew : Crew n) (c : Call κ) (selected : List (Fin n)) (w : World σ n) :
    Served crew c selected w w (ofChains (selected.map fun i => (i, .focus (.once c)))) := by
  have hgroup : ofChains (selected.map fun i => (i, Chain.focus (.once c))) =
      ⟨selected.map fun i => ⟨i, .ready (.focus (.once c))⟩, 0⟩ := by
    simp [ofChains]
  rw [hgroup]
  refine ⟨?_, ?_, ⟨[], _, rfl, by simp, ?_, Nat.zero_le _⟩, ?_, ?_, [], rfl, ?_⟩
  · simp [Function.comp_def]
  · intro m hm
    obtain ⟨i, -, rfl⟩ := List.mem_map.1 hm
    exact .outside
  · intro m hm
    obtain ⟨i, -, rfl⟩ := List.mem_map.1 hm
    rfl
  · simp [claimants, Stage.isClaiming]
  · intro m hm hinside
    obtain ⟨i, -, rfl⟩ := List.mem_map.1 hm
    cases hinside
  · intro k
    have hall : uncalled (selected.map fun i => (⟨i, .ready (.focus (.once c))⟩ : Member n κ)) =
        selected := by
      rw [uncalled, List.filter_eq_self.2, List.map_map]
      · simp [Function.comp_def]
      · intro m hm
        obtain ⟨i, -, rfl⟩ := List.mem_map.1 hm
        rfl
    simp [hall, callers]

end Group

/-! ### The activity -/

/-- What is left of the claims when a run is over. -/
def Outcome.Frees (w₀ : World σ n) : Outcome σ n α → Prop
  | .ended w _ | .cancelled w | .expired w => w.claims = w₀.claims
  | .never _ | .outOfFuel _ => True

namespace Running

/-- An activity in which some clients make the same call under the input focus, and which is done
when they have. -/
inductive Attending (crew : Crew n) (c : Call κ) (selected : List (Fin n)) (w₀ : World σ n) :
    World σ n → Running n α → Prop
  | begins {next : List κ.Answer → Activity n α} (hnext : ∀ as, ∃ x, next as = .done x) :
      Attending crew c selected w₀ w₀
        ⟨[], .going (.gather (selected.map fun i => (i, .focus (.once c))) next)⟩
  | serves {w : World σ n} {g : Group n κ} {next : List κ.Answer → Activity n α}
      (hnext : ∀ as, ∃ x, next as = .done x) (h : g.Served crew c selected w₀ w) :
      Attending crew c selected w₀ w ⟨[], .grouped g next⟩
  | served {w : World σ n} (x : α) (hclaims : w.claims = w₀.claims)
      (hcalls : ∃ events, w.journal = events ++ w₀.journal ∧
        ∀ k, (callers events).filter (crew.sameFocus k) = selected.filter (crew.sameFocus k)) :
      Attending crew c selected w₀ w ⟨[], .going (.done x)⟩

variable {crew : Crew n} {c : Call κ} {selected : List (Fin n)} {w₀ w w' : World σ n}
  {r r' : Running n α} {alarm : Alarm}

namespace Attending

/-- When the activity is given up, only the claims from before are left. -/
theorem claims_drop (h : Attending crew c selected w₀ w r) (hfree : ∀ i ∈ selected, i ∉ w₀.claims)
    (t : Nat) : (r.drop (w.atTime t)).claims = w₀.claims := by
  cases h with
  | begins hnext => rfl
  | serves hnext h => exact (h.wake t).claims_drop hfree
  | served x hclaims hcalls => exact hclaims

variable [ClientModel σ]

/-- One thing that the activity does. -/
theorem advance (h : Attending crew c selected w₀ w r) (hnodup : selected.Nodup)
    (hfree : ∀ i ∈ selected, i ∉ w₀.claims) :
    (∀ w' r', r.advance crew w = .moved w' r' → Attending crew c selected w₀ w' r') ∧
      ∀ w' result, r.advance crew w = .ended w' result → w'.claims = w₀.claims := by
  cases h with
  | begins hnext =>
    refine ⟨fun w' r' hadv => ?_, fun w' result hadv => ?_⟩
    · cases hadv
      exact .serves hnext (Group.served_start crew c selected w₀)
    · cases hadv
  | @serves w g next hnext h =>
    cases hverdict : g.verdict with
    | some verdict =>
      cases verdict with
      | ok results =>
        obtain ⟨x, hx⟩ := hnext results
        obtain ⟨hclaims, hcalls⟩ := h.of_succeeded hverdict
        refine ⟨fun w' r' hadv => ?_, fun w' result hadv => ?_⟩ <;>
          simp only [Running.advance, hverdict, hx] at hadv <;> cases hadv
        exact .served x hclaims hcalls
      | error f =>
        refine ⟨fun w' r' hadv => ?_, fun w' result hadv => ?_⟩ <;>
          simp only [Running.advance, hverdict] at hadv <;> cases hadv
        exact h.claims_drop hfree
    | none =>
      cases hnextTurn : g.next? crew w with
      | some i =>
        refine ⟨fun w' r' hadv => ?_, fun w' result hadv => ?_⟩ <;>
          simp only [Running.advance, hverdict, hnextTurn] at hadv <;> cases hadv
        exact .serves hnext (h.move hnodup hfree hnextTurn)
      | none =>
        refine ⟨fun w' r' hadv => ?_, fun w' result hadv => ?_⟩ <;>
          simp only [Running.advance, hverdict, hnextTurn] at hadv <;> cases hadv
  | served x hclaims hcalls =>
    refine ⟨fun w' r' hadv => ?_, fun w' result hadv => ?_⟩ <;> cases hadv
    exact hclaims

/-- A small step, the passing of time included. -/
theorem tick (h : Attending crew c selected w₀ w r) (hnodup : selected.Nodup)
    (hfree : ∀ i ∈ selected, i ∉ w₀.claims) (htick : r.tick crew alarm w = .on w' r') :
    Attending crew c selected w₀ w' r' := by
  rcases of_tick_on htick with hadv | ⟨till, t, hadv, rfl, rfl⟩
  · exact (h.advance hnodup hfree).1 _ _ hadv
  · -- Only a group waits.
    cases h with
    | begins hnext => cases hadv
    | serves hnext h => exact .serves hnext (h.wake _)
    | served x hclaims hcalls => cases hadv

/-- At the end only the claims from before are left. -/
theorem halt_frees (h : Attending crew c selected w₀ w r) (hnodup : selected.Nodup)
    (hfree : ∀ i ∈ selected, i ∉ w₀.claims) {o : Outcome σ n α}
    (htick : r.tick crew alarm w = .halt o) : o.Frees w₀ := by
  rcases of_tick_halt htick with ⟨w', result, hadv, rfl⟩ | ⟨t, rfl | rfl⟩ | rfl
  · exact (h.advance hnodup hfree).2 _ _ hadv
  · exact h.claims_drop hfree _
  · exact h.claims_drop hfree _
  · trivial

/-! ### What it comes to -/

omit [ClientModel σ] in
/-- Calls under way are made by clients that have the focus. -/
theorem hasFocus (h : Attending crew c selected w₀ w r) (hnodup : selected.Nodup) {i : Fin n}
    {p : (ι : AnswerKind) × Call ι} (hpending : r.pending i = some p) :
    p = ⟨κ, c⟩ ∧ i ∈ selected ∧ w.hasFocus crew i = true := by
  cases h with
  | begins hnext => cases hpending
  | @serves w g next hnext h =>
    have hpending : Group.pending g.members i = some p := hpending
    have hmem : i ∈ g.members.map Member.who := by
      by_contra hnot
      rw [Group.pending_of_notMem hnot] at hpending
      cases hpending
    obtain ⟨m, hm, rfl⟩ := List.mem_map.1 hmem
    rw [Group.pending_of_mem (h.who.symm ▸ hnodup) hm] at hpending
    -- Of all the stages it can be at, only one has a call under way.
    have hserving := h.serving m hm
    have hfocus := h.focus m hm
    obtain ⟨who, stage⟩ := m
    have hserving : stage.Serving c := hserving
    refine ⟨?_, h.who ▸ hmem, ?_⟩ <;> cases hserving <;> cases hpending
    · rfl
    · exact hfocus rfl
  | served x hclaims hcalls => cases hpending

omit [ClientModel σ] in
/-- Of those that share a focus, one has a call under way at most. -/
theorem exclusive (h : Attending crew c selected w₀ w r) (hnodup : selected.Nodup) {i j : Fin n}
    (hi : r.pending i ≠ none) (hj : r.pending j ≠ none) (hsame : crew.sameFocus i j = true) :
    i = j := by
  obtain ⟨p, hp⟩ := Option.ne_none_iff_exists'.1 hi
  obtain ⟨q, hq⟩ := Option.ne_none_iff_exists'.1 hj
  exact eq_of_hasFocus (h.hasFocus hnodup hp).2.2 (h.hasFocus hnodup hq).2.2 hsame

omit [ClientModel σ] in
/-- Those that share a focus make their calls in order. -/
theorem inOrder (h : Attending crew c selected w₀ w r) {events : List (Event n)}
    (hevents : w.journal = events ++ w₀.journal) (k : Fin n) :
    (callers events).filter (crew.sameFocus k) <+: selected.filter (crew.sameFocus k) := by
  have hsome : ∃ events rest, w.journal = events ++ w₀.journal ∧
      (callers events).filter (crew.sameFocus k) ++ rest = selected.filter (crew.sameFocus k) := by
    cases h with
    | begins hnext => exact ⟨[], _, rfl, rfl⟩
    | serves hnext h =>
      obtain ⟨events, hjournal, hcalls⟩ := h.calls
      exact ⟨events, _, hjournal, hcalls k⟩
    | served x hclaims hcalls =>
      obtain ⟨events, hjournal, hcalls⟩ := hcalls
      exact ⟨events, [], hjournal, by rw [List.append_nil, hcalls k]⟩
  obtain ⟨events', rest, hjournal, hcalls⟩ := hsome
  obtain rfl : events' = events := List.append_cancel_right (hjournal.symm.trans hevents)
  exact ⟨rest, hcalls⟩

end Attending

variable [ClientModel σ]

/-- What such an activity comes to. -/
theorem Comes.attending (hcomes : Comes crew alarm w r w' r') (h : Attending crew c selected w₀ w r)
    (hnodup : selected.Nodup) (hfree : ∀ i ∈ selected, i ∉ w₀.claims) :
    Attending crew c selected w₀ w' r' := by
  induction hcomes with
  | start => exact h
  | tick _ htick ih => exact ih.tick hnodup hfree htick

/-- When a run of such an activity is over, only the claims from before are left. -/
theorem Attending.run_frees (h : Attending crew c selected w₀ w r) (hnodup : selected.Nodup)
    (hfree : ∀ i ∈ selected, i ∉ w₀.claims) (alarm : Alarm) (fuel : Nat) :
    (r.run crew alarm fuel w).Frees w₀ := by
  obtain ⟨later, w', r', hcomes, -, hend⟩ := exists_comes crew alarm fuel w r
  have h' := hcomes.attending h hnodup hfree
  rcases hend with hfuel | hhalt
  · rw [hfuel]
    trivial
  · exact h'.halt_frees hnodup hfree hhalt

end Running

end BotScript
