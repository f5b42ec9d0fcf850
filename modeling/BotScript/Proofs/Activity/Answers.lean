import BotScript.Proofs.Activity.Polling

/-!
# Answers that are wanted

A client that is asked a question until its answers have been yes and no in some order is asked as
long as the next wanted answer has not come, and then for the one after it. What counts is the list
of wanted answers and the list of answers given; when the questions are asked does not matter.

## Main definitions

* `Fulfils`: some answers are those that it takes to get the wanted ones.
* `Gives`: some answers are the first ones that a client gives.
* `Inquiry.wanting`: the inquiry for some wanted answers.
* `Inquiry.later`: what an inquiry is after its first question.
* `World.Exchanges`: what is noted down of a client, but for the times.

## Main results

* `fulfils_append`, `Fulfils.of_sublist`, `Fulfils.unique`: the wanted answers in parts.
* `Inquiry.ends_wanting_iff`: how such an inquiry ends.
* `Inquiry.heard_timeless`: what is noted down of it.
-/

namespace BotScript

/-! ### Wanted answers -/

/-- The wanted answers occur among some answers one after the other, the last of them at
the end and not before. -/
def Fulfils : List Bool → List Bool → Prop
  | wanted, [] => wanted = []
  | [], _ :: _ => False
  | b :: wanted, a :: answers => Fulfils (if a = b then wanted else b :: wanted) answers

instance decidableFulfils : (wanted answers : List Bool) → Decidable (Fulfils wanted answers)
  | wanted, [] => inferInstanceAs (Decidable (wanted = []))
  | [], _ :: _ => inferInstanceAs (Decidable False)
  | b :: wanted, a :: answers => decidableFulfils (if a = b then wanted else b :: wanted) answers

section Fulfils

variable {wanted fewer answers answers' : List Bool} {a b : Bool}

@[simp] theorem fulfils_nil : Fulfils [] answers ↔ answers = [] := by
  cases answers with
  | nil => simp [Fulfils]
  | cons a answers => simp [Fulfils]

@[simp] theorem not_fulfils_nil : ¬ Fulfils (b :: wanted) [] := by
  simp [Fulfils]

@[simp] theorem fulfils_cons :
    Fulfils (b :: wanted) (a :: answers) ↔
      Fulfils (if a = b then wanted else b :: wanted) answers :=
  Iff.rfl

/-- First some wanted answers, then some others. -/
theorem fulfils_append {before after : List Bool} : Fulfils (before ++ after) answers ↔
    ∃ front back, answers = front ++ back ∧ Fulfils before front ∧ Fulfils after back := by
  induction answers generalizing before with
  | nil =>
    cases before with
    | nil => simp [and_assoc]
    | cons b before => simp
  | cons a answers ih =>
    cases before with
    | nil => simp
    | cons b before =>
      have hleft : (if a = b then before ++ after else b :: (before ++ after)) =
          (if a = b then before else b :: before) ++ after := by
        split <;> rfl
      rw [List.cons_append, fulfils_cons, hleft, ih]
      -- In both directions the first answer belongs to the front.
      constructor
      · rintro ⟨front, back, rfl, hfront, hback⟩
        exact ⟨a :: front, back, rfl, hfront, hback⟩
      · rintro ⟨front, back, hsplit, hfront, hback⟩
        cases front with
        | nil => exact absurd hfront not_fulfils_nil
        | cons a' front =>
          cases hsplit
          exact ⟨front, back, rfl, hfront, hback⟩

/-- After an answer, who wanted less still wants no more. -/
theorem sublist_of_answer {v : Bool} (h : (v :: fewer).Sublist (b :: wanted)) (a : Bool) :
    (if a = v then fewer else v :: fewer).Sublist (if a = b then wanted else b :: wanted) := by
  by_cases hvb : v = b
  · subst hvb
    split
    · exact List.cons_sublist_cons.1 h
    · exact h
  · -- Then the first answer wanted is one of those wanted later.
    have hlater : (v :: fewer).Sublist wanted := by
      cases h with
      | cons _ h => exact h
      | cons_cons _ _ => exact absurd rfl hvb
    have hfewer : (if a = v then fewer else v :: fewer).Sublist (v :: fewer) := by
      split
      · exact List.sublist_cons_self v fewer
      · exact List.Sublist.refl _
    have hwanted : wanted.Sublist (if a = b then wanted else b :: wanted) := by
      split
      · exact List.Sublist.refl _
      · exact List.sublist_cons_self b wanted
    exact hfewer.trans (hlater.trans hwanted)

/-- Who wants less has it no later. -/
theorem Fulfils.of_sublist (h : Fulfils wanted answers) (hsub : fewer.Sublist wanted) :
    ∃ front, front <+: answers ∧ Fulfils fewer front := by
  induction answers generalizing wanted fewer with
  | nil =>
    obtain rfl : wanted = [] := h
    exact ⟨[], List.prefix_rfl, List.sublist_nil.1 hsub⟩
  | cons a answers ih =>
    cases fewer with
    | nil => exact ⟨[], List.nil_prefix, rfl⟩
    | cons v fewer =>
      cases wanted with
      | nil => cases hsub
      | cons b wanted =>
        obtain ⟨front, hle, hfront⟩ := ih (fulfils_cons.1 h) (sublist_of_answer hsub a)
        exact ⟨a :: front, List.cons_prefix_cons.2 ⟨rfl, hle⟩, hfront⟩

/-- Of the answers that somebody gives, only so many are those that it takes. -/
theorem Fulfils.eq_of_isPrefix (h : Fulfils wanted answers) (h' : Fulfils wanted answers')
    (hle : answers <+: answers') : answers = answers' := by
  induction answers generalizing wanted answers' with
  | nil =>
    obtain rfl : wanted = [] := h
    exact (fulfils_nil.1 h').symm
  | cons a answers ih =>
    obtain ⟨more, rfl⟩ := hle
    cases wanted with
    | nil => cases fulfils_nil.1 h
    | cons b wanted =>
      exact congrArg (a :: ·) (ih (fulfils_cons.1 h) (fulfils_cons.1 h') (List.prefix_append _ _))

end Fulfils

/-! ### Given answers -/

/-- Some answers are the first ones that a client gives. -/
def Gives : (Nat → Reply .truth) → List Bool → Prop
  | _, [] => True
  | replies, a :: answers =>
    (replies 0).delay ≠ none ∧ (replies 0).result = .ok a ∧ Gives (fun k => replies (k + 1)) answers

section Gives

variable {replies : Nat → Reply .truth} {wanted answers answers' : List Bool}

theorem gives_append {front back : List Bool} : Gives replies (front ++ back) ↔
    Gives replies front ∧ Gives (fun k => replies (k + front.length)) back := by
  induction front generalizing replies with
  | nil => exact (and_iff_right trivial).symm
  | cons a front ih => simp only [List.cons_append, Gives, ih, and_assoc]; rfl

theorem Gives.of_isPrefix (h : Gives replies answers) (hle : answers' <+: answers) :
    Gives replies answers' := by
  obtain ⟨more, rfl⟩ := hle
  exact (gives_append.1 h).1

/-- A client gives its answers in one order. -/
theorem Gives.isPrefix_total (h : Gives replies answers) (h' : Gives replies answers') :
    answers <+: answers' ∨ answers' <+: answers := by
  induction answers generalizing replies answers' with
  | nil => exact .inl List.nil_prefix
  | cons a answers ih =>
    cases answers' with
    | nil => exact .inr List.nil_prefix
    | cons a' answers' =>
      have hsame : (Except.ok a : Except ClientError Bool) = .ok a' := h.2.1.symm.trans h'.2.1
      cases hsame
      exact (ih h.2.2 h'.2.2).imp (fun hle => List.cons_prefix_cons.2 ⟨rfl, hle⟩)
        fun hle => List.cons_prefix_cons.2 ⟨rfl, hle⟩

theorem Fulfils.unique (h : Fulfils wanted answers) (hgives : Gives replies answers)
    (h' : Fulfils wanted answers') (hgives' : Gives replies answers') : answers = answers' := by
  rcases hgives.isPrefix_total hgives' with hle | hle
  · exact h.eq_of_isPrefix h' hle
  · exact (h'.eq_of_isPrefix h hle).symm

end Gives

/-! ### Inquiries -/

namespace Inquiry

variable {n : Nat} {ι : AnswerKind} (q : Inquiry ι) {k : Nat}

/-- An inquiry after its first question. -/
def later : Inquiry ι := ⟨q.call, q.left 1, q.every, q.asked 1, fun k => q.reply (k + 1)⟩

theorem later_left (k : Nat) : q.later.left k = q.left (k + 1) := by
  induction k with
  | zero => rfl
  | succ k ih =>
    rw [left, ih]
    rfl

theorem later_asked (k : Nat) : q.later.asked k = q.asked (k + 1) := by
  induction k with
  | zero => rfl
  | succ k ih =>
    rw [asked, ih, rest, later_left]
    rfl

theorem ends_succ : q.Ends (k + 1) ↔
    (q.tests ≠ [] ∧ (q.reply 0).delay ≠ none ∧ ∃ a, (q.reply 0).result = .ok a) ∧
    q.later.Ends k := by
  rw [Ends, Ends, later_left, ← and_assoc]
  refine and_congr_left fun _ => ?_
  constructor
  · intro hreaches
    refine ⟨hreaches 0 (Nat.zero_lt_succ k), fun j hj => ?_⟩
    rw [later_left]
    exact hreaches (j + 1) (Nat.succ_lt_succ hj)
  · rintro ⟨hfirst, hlater⟩ j hj
    cases j with
    | zero => exact hfirst
    | succ j =>
      rw [← later_left]
      exact hlater j (Nat.lt_of_succ_lt_succ hj)

theorem heard_later (i : Fin n) (k : Nat) :
    q.heard i (k + 1) = q.question i 0 :: q.response i 0 :: q.later.heard i k := by
  have hlater : ∀ j, [q.question i (j + 1), q.response i (j + 1)] =
      [q.later.question i j, q.later.response i j] := by
    intro j
    rw [question, question, response, response, told, told, later_asked]
    rfl
  rw [heard, List.range_succ_eq_map, List.flatMap_cons, List.flatMap_map]
  simp only [Nat.succ_eq_add_one, hlater]
  rfl

/-- The inquiry for some wanted answers. -/
def wanting (c : Call .truth) (wanted : List Bool) (every start : Nat)
    (replies : Nat → Reply .truth) :
    Inquiry .truth :=
  ⟨c, wanted.map fun b a => a == b, every, start, replies⟩

/-- An inquiry for some wanted answers ends with the answers that it takes to get them. -/
theorem ends_wanting_iff {q : Inquiry .truth} {wanted : List Bool}
    (htests : q.tests = wanted.map fun b a => a == b) :
    q.Ends k ↔ ∃ answers, answers.length = k ∧ Gives q.reply answers ∧ Fulfils wanted answers := by
  -- The induction is on the questions: after the first one, the inquiry is one for what
  -- is still wanted.
  induction k generalizing q wanted with
  | zero =>
    have hleft : q.left 0 = wanted.map fun b a => a == b := htests
    cases wanted with
    | nil => exact iff_of_true ⟨reaches_zero, hleft⟩ ⟨[], rfl, trivial, fulfils_nil.2 rfl⟩
    | cons b wanted =>
      refine iff_of_false (fun h => ?_) ?_
      · rw [Ends, hleft] at h
        cases h.2
      · rintro ⟨answers, hlength, -, hfulfils⟩
        rw [List.length_eq_zero_iff.1 hlength] at hfulfils
        exact not_fulfils_nil hfulfils
  | succ k ih =>
    rw [ends_succ]
    cases wanted with
    | nil =>
      refine iff_of_false (fun h => h.1.1 htests) ?_
      rintro ⟨answers, hlength, -, hfulfils⟩
      rw [fulfils_nil.1 hfulfils] at hlength
      cases hlength
    | cons b wanted =>
      -- What is wanted after the first answer.
      have hlater : ∀ a, (q.reply 0).result = .ok a →
          q.later.tests = (if a = b then wanted else b :: wanted).map fun b a => a == b := by
        intro a ha
        by_cases hab : a = b
        · rw [if_pos hab]
          exact left_succ_of_met (k := 0) htests ha (beq_iff_eq.2 hab)
        · rw [if_neg hab]
          exact left_succ_of_unmet (k := 0) htests ha (beq_eq_false_iff_ne.2 hab)
      constructor
      · rintro ⟨⟨-, hdelay, a, ha⟩, hends⟩
        obtain ⟨answers, hlength, hgives, hfulfils⟩ := (ih (hlater a ha)).1 hends
        exact ⟨a :: answers, congrArg (· + 1) hlength, ⟨hdelay, ha, hgives⟩, hfulfils⟩
      · rintro ⟨answers, hlength, hgives, hfulfils⟩
        cases answers with
        | nil => cases hlength
        | cons a answers =>
          obtain ⟨hdelay, ha, hgives⟩ := hgives
          refine ⟨⟨by simp [htests], hdelay, a, ha⟩, (ih (hlater a ha)).2 ?_⟩
          exact ⟨answers, Nat.succ.inj hlength, hgives, hfulfils⟩

end Inquiry

/-! ### What is noted down, but for the times -/

/-- An event without its time. -/
def Event.timeless {n : Nat} : Event n → Event n
  | .made _ i c held => .made 0 i c held
  | .answered _ i c a => .answered 0 i c a
  | .failed _ i c e => .failed 0 i c e
  | .dropped _ i c => .dropped 0 i c
  | .line text => .line text

/-- A client is asked a question again and again, and answers. -/
def dialogue {n : Nat} (c : Call .truth) (i : Fin n) (answers : List Bool) : List (Event n) :=
  answers.flatMap fun a => [.made 0 i c false, .answered 0 i c a]

theorem dialogue_injective {n : Nat} (c : Call .truth) (i : Fin n) :
    Function.Injective (dialogue c i) := by
  intro answers answers' h
  induction answers generalizing answers' with
  | nil =>
    cases answers' with
    | nil => rfl
    | cons a' answers' => cases h
  | cons a answers ih =>
    cases answers' with
    | nil => cases h
    | cons a' answers' =>
      simp only [dialogue, List.flatMap_cons, List.cons_append, List.nil_append, List.cons.injEq,
        Event.answered.injEq, heq_eq_eq, true_and] at h
      rw [h.1, ih h.2]

theorem Inquiry.heard_timeless {n : Nat} {q : Inquiry .truth} {answers : List Bool}
    (h : Gives q.reply answers) (i : Fin n) :
    (q.heard i answers.length).map Event.timeless = dialogue q.call i answers := by
  induction answers generalizing q with
  | nil => rfl
  | cons a answers ih =>
    obtain ⟨-, ha, hgives⟩ := h
    have hresponse : (q.response i 0).timeless = .answered 0 i q.call a := by
      rw [Inquiry.response, ha]
      rfl
    rw [List.length_cons, Inquiry.heard_later, List.map_cons, List.map_cons, hresponse,
      ih (q := q.later) hgives]
    rfl

/-- From a world to another one, a client was asked a question and gave some answers. -/
def World.Exchanges {σ : Type} {n : Nat} (w w' : World σ n) (c : Call .truth) (i : Fin n)
    (answers : List Bool) : Prop :=
  ∃ l, w'.talk i = w.talk i ++ l ∧ l.map Event.timeless = dialogue c i answers

namespace World.Exchanges

variable {σ : Type} {n : Nat} {w w₁ w' : World σ n} {c : Call .truth} {i : Fin n}
  {answers answers' : List Bool}

theorem append (h : w.Exchanges w₁ c i answers) (h' : w₁.Exchanges w' c i answers') :
    w.Exchanges w' c i (answers ++ answers') := by
  obtain ⟨l, htalk, hl⟩ := h
  obtain ⟨l', htalk', hl'⟩ := h'
  refine ⟨l ++ l', by rw [htalk', htalk, List.append_assoc], ?_⟩
  rw [List.map_append, hl, hl', dialogue, dialogue, dialogue, List.flatMap_append]

theorem unique (h : w.Exchanges w' c i answers) (h' : w.Exchanges w' c i answers') :
    answers = answers' := by
  obtain ⟨l, htalk, hl⟩ := h
  obtain ⟨l', htalk', hl'⟩ := h'
  have hsame : l = l' := List.append_cancel_left (htalk.symm.trans htalk')
  rw [hsame, hl'] at hl
  exact (dialogue_injective c i hl).symm

end World.Exchanges

end BotScript
