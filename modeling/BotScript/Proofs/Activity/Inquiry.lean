import BotScript.Activity.Run

/-!
# Inquiries

A client may be asked the same question again and again, until its answers have met some conditions,
one after the other. When each question is asked, and how many there are, follows from what the
client replies and how long it takes, whatever other clients do. This is said here without any run.

## Main definitions

* `Inquiry`: a question, the conditions on its answers, and the replies.
* `Inquiry.left`, `Inquiry.asked`, `Inquiry.told`: which conditions are left, and when
  things happen.
* `Inquiry.Reaches`, `Inquiry.Ends`, `Inquiry.Fails`: how far an inquiry goes.
* `Inquiry.heard`: what is noted down of it.
* `Inquiry.First`: the first answer that meets a condition.
* `Inquiry.Serves`: a client replies as an inquiry says.
* `Inquiry.ofClient`: the inquiry that a client goes through.
* `Chain.inquire`: the chain that asks.

## Main results

* `Inquiry.Ends.le_of_reaches`, `Inquiry.Ends.unique`, `Inquiry.Fails.unique`: an
  inquiry ends in one way.
* `Inquiry.asked_mono`, `Inquiry.told_le_asked`: questions and answers are in the order
  of their times.
* `Inquiry.ends_iff_first`: how many questions are asked if there is one condition.
* `Inquiry.le_of_asked_le`: if there are rests, there are not too many questions up to a time.
-/

namespace BotScript

/-- Ask until the answers have met some conditions, one after the other; each that does not meet the
next one is followed by a rest. -/
def Chain.inquire {ι : AnswerKind} (c : Call ι) (every : Nat) :
    List (ι.Answer → Bool) → Chain .nothing
  | [] => .done ()
  | test :: tests => .poll c test every (inquire c every tests)

/-- What a client is asked again and again, and what it replies. -/
structure Inquiry (ι : AnswerKind) where
  call : Call ι
  /-- What the answers have to meet, one condition after the other. -/
  tests : List (ι.Answer → Bool)
  /-- How many milliseconds of rest follow an answer that does not do. -/
  every : Nat
  /-- When the first question is asked. -/
  start : Nat
  /-- The reply to each question. -/
  reply : Nat → Reply ι

namespace Inquiry

variable {n : Nat} {ι : AnswerKind} (q : Inquiry ι) {j k : Nat} {e e' : ClientError}

/-- Of some conditions, those that a reply leaves. -/
def leave : List (ι.Answer → Bool) → Except ClientError ι.Answer → List (ι.Answer → Bool)
  | test :: tests, .ok a => if test a then tests else test :: tests
  | tests, _ => tests

/-- How long the rest is that follows a reply, given the conditions before it. -/
def restAfter (every : Nat) : List (ι.Answer → Bool) → Except ClientError ι.Answer → Nat
  | test :: _, .ok a => if test a then 0 else every
  | _, _ => 0

/-- The conditions that are left after some questions. -/
def left : Nat → List (ι.Answer → Bool)
  | 0 => q.tests
  | k + 1 => leave (left k) (q.reply k).result

/-- How long the rest is that follows the reply to a question. -/
def rest (k : Nat) : Nat := restAfter q.every (q.left k) (q.reply k).result

/-- When a question is asked. -/
def asked : Nat → Nat
  | 0 => q.start
  | k + 1 => asked k + (q.reply k).delay.getD 0 + q.rest k

/-- When the reply to a question comes. -/
def told (k : Nat) : Nat := q.asked k + (q.reply k).delay.getD 0

/-- A number of questions have been answered, and none of them too many. -/
def Reaches (k : Nat) : Prop :=
  ∀ j < k, q.left j ≠ [] ∧ (q.reply j).delay ≠ none ∧ ∃ a, (q.reply j).result = .ok a

/-- The inquiry ends well after a number of questions. -/
def Ends (k : Nat) : Prop := q.Reaches k ∧ q.left k = []

/-- The inquiry fails with a question. -/
def Fails (k : Nat) (e : ClientError) : Prop :=
  q.Reaches k ∧ q.left k ≠ [] ∧ (q.reply k).delay ≠ none ∧ (q.reply k).result = .error e

/-- What is noted down of a question to a client. -/
def question (i : Fin n) (k : Nat) : Event n := .made (q.asked k) i q.call false

/-- What is noted down of the reply to a question. -/
def response (i : Fin n) (k : Nat) : Event n :=
  match (q.reply k).result with
  | .ok a => .answered (q.told k) i q.call a
  | .error e => .failed (q.told k) i q.call e

/-- What is noted down of the first questions and their replies. -/
def heard (i : Fin n) (k : Nat) : List (Event n) :=
  (List.range k).flatMap fun j => [q.question i j, q.response i j]

@[simp] theorem heard_zero (i : Fin n) : q.heard i 0 = [] := rfl

theorem heard_succ (i : Fin n) (k : Nat) :
    q.heard i (k + 1) = q.heard i k ++ [q.question i k, q.response i k] := by
  simp [heard, List.range_succ]

theorem asked_succ (k : Nat) : q.asked (k + 1) = q.told k + q.rest k := rfl

variable {q}

theorem heard_isPrefix (i : Fin n) (h : j ≤ k) : q.heard i j <+: q.heard i k := by
  induction h with
  | refl => exact List.prefix_rfl
  | @step k _ ih =>
    rw [heard_succ]
    exact ih.trans (List.prefix_append _ _)

/-! ### How far an inquiry goes -/

theorem reaches_zero : q.Reaches 0 := fun j hj => absurd hj (Nat.not_lt_zero j)

theorem Reaches.mono (h : q.Reaches k) (hle : j ≤ k) : q.Reaches j :=
  fun l hl => h l (Nat.lt_of_lt_of_le hl hle)

theorem Reaches.succ (h : q.Reaches k) (hleft : q.left k ≠ []) (hdelay : (q.reply k).delay ≠ none)
    {a : ι.Answer} (ha : (q.reply k).result = .ok a) : q.Reaches (k + 1) := by
  intro j hj
  rcases Nat.lt_succ_iff_lt_or_eq.1 hj with hlt | rfl
  · exact h j hlt
  · exact ⟨hleft, hdelay, a, ha⟩

/-- Once no condition is left, nothing more is asked. -/
theorem Ends.le_of_reaches (h : q.Ends k) (hj : q.Reaches j) : j ≤ k := by
  apply Nat.le_of_not_lt
  intro hlt
  exact (hj k hlt).1 h.2

theorem Ends.unique (h : q.Ends k) (h' : q.Ends j) : k = j :=
  Nat.le_antisymm (h'.le_of_reaches h.1) (h.le_of_reaches h'.1)

/-- After a failure nothing more is asked. -/
theorem Fails.le_of_reaches (h : q.Fails k e) (hj : q.Reaches j) : j ≤ k := by
  apply Nat.le_of_not_lt
  intro hlt
  obtain ⟨-, -, a, ha⟩ := hj k hlt
  rw [h.2.2.2] at ha
  cases ha

theorem Fails.unique (h : q.Fails k e) (h' : q.Fails j e') : k = j ∧ e = e' := by
  obtain rfl : k = j := Nat.le_antisymm (h'.le_of_reaches h.1) (h.le_of_reaches h'.1)
  have hsame := h.2.2.2.symm.trans h'.2.2.2
  cases hsame
  exact ⟨rfl, rfl⟩

theorem Ends.not_fails (h : q.Ends k) : ¬ q.Fails j e := by
  intro hfails
  have hjk : k = j := Nat.le_antisymm (hfails.le_of_reaches h.1) (h.le_of_reaches hfails.1)
  exact hfails.2.1 (hjk ▸ h.2)

/-! ### The conditions -/

variable {test : ι.Answer → Bool} {tests : List (ι.Answer → Bool)} {a : ι.Answer}

theorem left_succ_of_met (hleft : q.left k = test :: tests) (ha : (q.reply k).result = .ok a)
    (htest : test a = true) : q.left (k + 1) = tests := by
  rw [left, hleft, ha, leave, if_pos htest]

theorem left_succ_of_unmet (hleft : q.left k = test :: tests) (ha : (q.reply k).result = .ok a)
    (htest : test a = false) : q.left (k + 1) = test :: tests := by
  rw [left, hleft, ha, leave, if_neg (Bool.eq_false_iff.1 htest)]

theorem rest_of_met (hleft : q.left k = test :: tests) (ha : (q.reply k).result = .ok a)
    (htest : test a = true) : q.rest k = 0 := by
  rw [rest, hleft, ha, restAfter, if_pos htest]

theorem rest_of_unmet (hleft : q.left k = test :: tests) (ha : (q.reply k).result = .ok a)
    (htest : test a = false) : q.rest k = q.every := by
  rw [rest, hleft, ha, restAfter, if_neg (Bool.eq_false_iff.1 htest)]

/-- An answer either meets the next condition, or is followed by a rest. -/
theorem every_or_left_lt (hleft : q.left k ≠ []) (ha : (q.reply k).result = .ok a) :
    q.rest k = q.every ∧ (q.left (k + 1)).length = (q.left k).length ∨
      q.rest k = 0 ∧ (q.left (k + 1)).length + 1 = (q.left k).length := by
  obtain ⟨test, tests, htests⟩ := List.exists_cons_of_ne_nil hleft
  cases htest : test a with
  | true =>
    exact .inr ⟨rest_of_met htests ha htest, by rw [left_succ_of_met htests ha htest, htests]; rfl⟩
  | false =>
    exact .inl ⟨rest_of_unmet htests ha htest, by rw [left_succ_of_unmet htests ha htest, htests]⟩

/-! ### Times -/

theorem asked_le_told (k : Nat) : q.asked k ≤ q.told k := Nat.le_add_right _ _

theorem told_le_asked_succ (k : Nat) : q.told k ≤ q.asked (k + 1) := Nat.le_add_right _ _

theorem asked_mono (h : j ≤ k) : q.asked j ≤ q.asked k := by
  induction h with
  | refl => exact Nat.le_refl _
  | @step k _ ih => exact Nat.le_trans ih (Nat.le_trans (asked_le_told k) (told_le_asked_succ k))

theorem told_le_asked (h : j < k) : q.told j ≤ q.asked k :=
  Nat.le_trans (told_le_asked_succ j) (asked_mono h)

/-- If answers that do not do are followed by rests, each question costs time or meets a
condition. -/
theorem le_of_asked_le (hevery : 0 < q.every) (hreaches : q.Reaches k) {t : Nat}
    (ht : q.asked k ≤ t) :
    k ≤ t + q.tests.length := by
  -- What was asked takes a millisecond or meets a condition.
  have hcount : k + (q.left k).length ≤ q.asked k + q.tests.length := by
    induction k generalizing t with
    | zero => simp [left]
    | succ k ih =>
      have hreach := hreaches.mono (Nat.le_succ k)
      obtain ⟨hleft, -, a, ha⟩ := hreaches k (Nat.lt_succ_self k)
      have hbefore := ih hreach (Nat.le_refl _)
      have hstep := q.asked_succ k
      have htold := q.asked_le_told k
      rcases every_or_left_lt hleft ha with ⟨hrest, hlength⟩ | ⟨hrest, hlength⟩
      · omega
      · omega
  omega

/-! ### One condition -/

variable (q) in
/-- The answer to a question is the first one that meets a condition. -/
def First (test : ι.Answer → Bool) (k : Nat) : Prop :=
  (∀ j ≤ k, (q.reply j).delay ≠ none) ∧
    (∀ j < k, (q.reply j).result.toOption.map test = some false) ∧
    (q.reply k).result.toOption.map test = some true

instance (test : ι.Answer → Bool) (k : Nat) : Decidable (q.First test k) :=
  inferInstanceAs (Decidable ((∀ j ≤ k, (q.reply j).delay ≠ none) ∧
    (∀ j < k, (q.reply j).result.toOption.map test = some false) ∧
    (q.reply k).result.toOption.map test = some true))

theorem map_toOption_eq {result : Except ClientError ι.Answer} {b : Bool} :
    result.toOption.map test = some b ↔ ∃ a, result = .ok a ∧ test a = b := by
  cases result with
  | ok a => simp [Except.toOption]
  | error e => simp [Except.toOption]

theorem left_single (htests : q.tests = [test]) (k : Nat) : q.left k = [test] ∨ q.left k = [] := by
  induction k with
  | zero => exact .inl htests
  | succ k ih =>
    rcases ih with hleft | hleft
    · rw [left, hleft]
      cases (q.reply k).result with
      | error e => exact .inl rfl
      | ok a =>
        rw [leave]
        by_cases htest : test a = true
        · exact .inr (if_pos htest)
        · exact .inl (if_neg htest)
    · rw [left, hleft]
      exact .inr rfl

/-- With a single condition, exactly those questions are asked that are needed for the
first answer to meet it. -/
theorem ends_iff_first (htests : q.tests = [test]) :
    q.Ends k ↔ ∃ j, k = j + 1 ∧ q.First test j := by
  constructor
  · rintro ⟨hreaches, hleft⟩
    have hsingle : ∀ j < k, q.left j = [test] := fun j hj =>
      (left_single htests j).resolve_right (hreaches j hj).1
    cases k with
    | zero =>
      rw [left, htests] at hleft
      cases hleft
    | succ j =>
      refine ⟨j, rfl, fun l hl => (hreaches l (Nat.lt_succ_of_le hl)).2.1, fun l hl => ?_, ?_⟩
      · obtain ⟨-, -, a, ha⟩ := hreaches l (Nat.lt_succ_of_lt hl)
        refine map_toOption_eq.2 ⟨a, ha, Bool.eq_false_iff.2 fun htest => ?_⟩
        have hnext := hsingle (l + 1) (Nat.succ_lt_succ hl)
        rw [left_succ_of_met (hsingle l (Nat.lt_succ_of_lt hl)) ha htest] at hnext
        cases hnext
      · obtain ⟨-, -, a, ha⟩ := hreaches j (Nat.lt_succ_self j)
        refine map_toOption_eq.2 ⟨a, ha, eq_true_of_ne_false fun htest => ?_⟩
        rw [left_succ_of_unmet (hsingle j (Nat.lt_succ_self j)) ha htest] at hleft
        cases hleft
  · rintro ⟨j, rfl, hdelay, hbefore, hlast⟩
    obtain ⟨a, ha, htest⟩ := map_toOption_eq.1 hlast
    have hsingle : ∀ l ≤ j, q.left l = [test] := by
      intro l hl
      induction l with
      | zero => exact htests
      | succ l ih =>
        obtain ⟨b, hb, hunmet⟩ := map_toOption_eq.1 (hbefore l hl)
        exact left_succ_of_unmet (ih (Nat.le_of_lt hl)) hb hunmet
    refine ⟨fun l hl => ?_, left_succ_of_met (hsingle j (Nat.le_refl j)) ha htest⟩
    have hle := Nat.le_of_lt_succ hl
    refine ⟨by simp [hsingle l hle], hdelay l hle, ?_⟩
    rcases Nat.lt_or_eq_of_le hle with hlt | rfl
    · obtain ⟨b, hb, -⟩ := map_toOption_eq.1 (hbefore l hlt)
      exact ⟨b, hb⟩
    · exact ⟨a, ha⟩

/-! ### The inquiry of a client -/

section OfClient

variable {σ : Type} [ClientModel σ]

/-- A client that goes through some states replies as an inquiry says. -/
def Serves (q : Inquiry ι) (state : Nat → σ) : Prop :=
  ∀ k, q.Reaches k → q.left k ≠ [] →
    ClientModel.reply (q.asked k) q.call (state k) = (q.reply k, state (k + 1))

/-- A client that is about to be asked: when, which conditions are left, and the state it is in. -/
structure Moment (ι : AnswerKind) (σ : Type) where
  time : Nat
  left : List (ι.Answer → Bool)
  client : σ

/-- The moments of a client that is asked from a first moment on. -/
def moment (c : Call ι) (every : Nat) (first : Moment ι σ) : Nat → Moment ι σ
  | 0 => first
  | k + 1 =>
    let m := moment c every first k
    let (reply, client) := ClientModel.reply m.time c m.client
    ⟨m.time + reply.delay.getD 0 + restAfter every m.left reply.result,
      leave m.left reply.result, client⟩

/-- The inquiry that a client goes through if it is asked from a first moment on. -/
def ofClient (c : Call ι) (every : Nat) (first : Moment ι σ) : Inquiry ι where
  call := c
  tests := first.left
  every := every
  start := first.time
  reply k := (ClientModel.reply (moment c every first k).time c (moment c every first k).client).1

theorem ofClient_moment (c : Call ι) (every : Nat) (first : Moment ι σ) (k : Nat) :
    (ofClient c every first).asked k = (moment c every first k).time ∧
      (ofClient c every first).left k = (moment c every first k).left := by
  induction k with
  | zero => exact ⟨rfl, rfl⟩
  | succ k ih =>
    obtain ⟨hasked, hleft⟩ := ih
    refine ⟨?_, ?_⟩
    · rw [asked, rest, hasked, hleft]
      rfl
    · rw [left, hleft]
      rfl

/-- The client replies as its inquiry says. -/
theorem ofClient_serves (c : Call ι) (every : Nat) (first : Moment ι σ) :
    (ofClient c every first).Serves fun k => (moment c every first k).client := by
  intro k _ _
  rw [(ofClient_moment c every first k).1]
  rfl

/-- A client that does not change replies in the same way to all questions. -/
theorem ofClient_reply_eq (c : Call ι) (every : Nat) {first : Moment ι σ} {reply : Reply ι}
    (h : ∀ t, ClientModel.reply t c first.client = (reply, first.client)) (k : Nat) :
    (ofClient c every first).reply k = reply := by
  have hclient : (moment c every first k).client = first.client := by
    induction k with
    | zero => rfl
    | succ k ih =>
      rw [moment, ih]
      exact congrArg Prod.snd (h _)
  change (ClientModel.reply _ c (moment c every first k).client).1 = reply
  rw [hclient, h]

end OfClient

end Inquiry

end BotScript
