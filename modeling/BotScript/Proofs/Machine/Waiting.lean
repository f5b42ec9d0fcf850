import BotScript.Proofs.Activity.PollFailure
import BotScript.Proofs.Machine.FanOut

/-!
# Waiting for answers

An instruction that waits asks each selected client the same question until the answer is yes and,
with `completion`, then until it is no. Each client is asked at times of its own, which depend on
nothing but its own answers: the next question follows an unwanted answer after a rest, and a wanted
one at once. The instruction is done when the last client is.

## Main definitions

* `Stream`: the answers of a client, and how long they take.
* `Stream.Enough`, `Stream.Ends`: the answers that end the wait, and the fewest that do.
* `Stream.askedAt`, `Stream.toldAt`, `Stream.noted`: when a client is asked and told what.
* `Stream.Given`: a client that answers so.

## Main results

* `Stream.reaches_inquiry`, `Stream.ends_inquiry`, `Stream.heard_inquiry`: the wait of a
  client is an inquiry.
* `Machine.waits_for_answers`: what an instruction that waits does.
-/

namespace BotScript

open World Cast

variable {σ : Type} {n : Nat}

/-- The answers of a client to a question that is asked again and again, and how many milliseconds
each of them takes, if it ever comes. -/
structure Stream where
  answer : Nat → Bool
  delay : Nat → Option Nat

namespace Stream

variable (s : Stream) (completion : Bool) (every start : Nat) (c : Call .truth) {k : Nat}

/-- Whether one of the first answers is yes. -/
def hasYes (k : Nat) : Bool := (List.range k).any s.answer

/-- The first answers are enough: one of them is yes and, with `completion`, a later one is no. -/
def Enough (k : Nat) : Prop :=
  ∃ i < k, s.answer i = true ∧ (completion = true → ∃ j < k, i < j ∧ s.answer j = false)

/-- The first answers all come, and none of them is one too many. -/
def Open (k : Nat) : Prop := ∀ j < k, ¬ s.Enough completion j ∧ s.delay j ≠ none

/-- These are the fewest answers that are enough, and they all come. -/
def Ends (k : Nat) : Prop := s.Open completion k ∧ s.Enough completion k

/-- When a question is asked: as soon as the one before it is answered, or, if this answer is
unwanted, after a rest. An answer is unwanted if it is no before there was a yes, or yes after there
was one. -/
def askedAt : Nat → Nat
  | 0 => start
  | k + 1 => askedAt k + (s.delay k).getD 0 + if s.answer k = s.hasYes k then every else 0

/-- When a question is answered. -/
def toldAt (k : Nat) : Nat := s.askedAt every start k + (s.delay k).getD 0

/-- What is noted down of a client for the first questions and their answers. -/
def noted (i : Fin n) (k : Nat) : List (Event n) :=
  (List.range k).flatMap fun j =>
    [.made (s.askedAt every start j) i c false, .answered (s.toldAt every start j) i c (s.answer j)]

/-- A client in a state gives these answers, if it is asked at these times. -/
def Given [ClientModel σ] (x : σ) : Prop :=
  ∃ state : Nat → σ, state 0 = x ∧ ∀ k, ¬ s.Enough completion k →
    ClientModel.reply (s.askedAt every start k) c (state k) =
      (⟨s.delay k, .ok (s.answer k)⟩, state (k + 1))

instance : Decidable (s.Enough completion k) :=
  inferInstanceAs (Decidable (∃ i < k, s.answer i = true ∧
    (completion = true → ∃ j < k, i < j ∧ s.answer j = false)))

instance : Decidable (s.Open completion k) :=
  inferInstanceAs (Decidable (∀ j < k, ¬ s.Enough completion j ∧ s.delay j ≠ none))

instance : Decidable (s.Ends completion k) :=
  inferInstanceAs (Decidable (s.Open completion k ∧ s.Enough completion k))

/-! ### Enough answers -/

variable {s completion}

theorem hasYes_succ (k : Nat) : s.hasYes (k + 1) = (s.hasYes k || s.answer k) := by
  simp [hasYes, List.range_succ]

theorem hasYes_iff : s.hasYes k = true ↔ ∃ i < k, s.answer i = true := by
  simp [hasYes]

theorem not_enough_zero : ¬ s.Enough completion 0 := by
  rintro ⟨i, hi, -⟩
  exact absurd hi (Nat.not_lt_zero i)

theorem Enough.hasYes (h : s.Enough completion k) : s.hasYes k = true := by
  obtain ⟨i, hi, hyes, -⟩ := h
  exact hasYes_iff.2 ⟨i, hi, hyes⟩

theorem enough_of_hasYes (h : s.hasYes k = true) : s.Enough false k := by
  obtain ⟨i, hi, hyes⟩ := hasYes_iff.1 h
  exact ⟨i, hi, hyes, fun hfalse => nomatch hfalse⟩

theorem Enough.mono {j : Nat} (h : s.Enough completion j) (hle : j ≤ k) :
    s.Enough completion k := by
  obtain ⟨i, hi, hyes, hno⟩ := h
  refine ⟨i, Nat.lt_of_lt_of_le hi hle, hyes, fun hcompletion => ?_⟩
  obtain ⟨l, hl, hil, hanswer⟩ := hno hcompletion
  exact ⟨l, Nat.lt_of_lt_of_le hl hle, hil, hanswer⟩

/-- With `completion`, one more answer makes enough if it is no after a yes. -/
theorem enough_true_succ : s.Enough true (k + 1) ↔
    s.Enough true k ∨ s.hasYes k = true ∧ s.answer k = false := by
  constructor
  · rintro ⟨i, hi, hyes, hno⟩
    obtain ⟨j, hj, hij, hanswer⟩ := hno rfl
    rcases Nat.lt_succ_iff_lt_or_eq.1 hj with hlt | rfl
    · exact .inl ⟨i, Nat.lt_trans hij hlt, hyes, fun _ => ⟨j, hlt, hij, hanswer⟩⟩
    · exact .inr ⟨hasYes_iff.2 ⟨i, hij, hyes⟩, hanswer⟩
  · rintro (h | ⟨hyes, hno⟩)
    · exact h.mono (Nat.le_succ k)
    · obtain ⟨i, hi, hyes⟩ := hasYes_iff.1 hyes
      exact ⟨i, Nat.lt_succ_of_lt hi, hyes, fun _ => ⟨k, Nat.lt_succ_self k, hi, hno⟩⟩

/-! ### The wait of a client as an inquiry -/

variable (s completion)

/-- What the answers have to be, one after the other. -/
def tests : List (Bool → Bool) := (fun b => b) :: if completion then [fun b => !b] else []

/-- The wait of a client as an inquiry. -/
def inquiry : Inquiry .truth :=
  ⟨c, tests completion, every, start, fun k => ⟨s.delay k, .ok (s.answer k)⟩⟩

theorem inquire_tests :
    Chain.inquire c every (tests completion) = waitChain c completion every := by
  cases completion <;> rfl

variable {s completion every start c}

/-- Which conditions are left, by what was answered so far. -/
theorem left_inquiry (k : Nat) :
    s.Enough completion k ∧ (s.inquiry completion every start c).left k = [] ∨
      ¬ s.Enough completion k ∧ s.hasYes k = true ∧
        (s.inquiry completion every start c).left k = [fun b => !b] ∨
      ¬ s.Enough completion k ∧ s.hasYes k = false ∧
        (s.inquiry completion every start c).left k = tests completion := by
  induction k with
  | zero => exact .inr (.inr ⟨not_enough_zero, rfl, rfl⟩)
  | succ k ih =>
    have hstep : (s.inquiry completion every start c).left (k + 1) =
        Inquiry.leave ((s.inquiry completion every start c).left k) (.ok (s.answer k)) := rfl
    rw [hstep, hasYes_succ]
    rcases ih with ⟨henough, hleft⟩ | ⟨hnot, hyes, hleft⟩ | ⟨hnot, hyes, hleft⟩
    · exact .inl ⟨henough.mono (Nat.le_succ k), by rw [hleft]; rfl⟩
    · -- There was a yes and it was not enough, so a no is waited for.
      cases completion with
      | false => exact absurd (enough_of_hasYes hyes) hnot
      | true =>
        rw [hleft, enough_true_succ]
        cases hanswer : s.answer k with
        | true => exact .inr (.inl ⟨by simp [hnot], by simp, rfl⟩)
        | false => exact .inl ⟨.inr ⟨hyes, rfl⟩, rfl⟩
    · rw [hleft]
      cases hanswer : s.answer k with
      | false =>
        refine .inr (.inr ⟨fun henough => ?_, by simp [hyes], rfl⟩)
        have hlater := henough.hasYes
        rw [hasYes_succ, hyes, hanswer] at hlater
        cases hlater
      | true =>
        cases completion with
        | false => exact .inl ⟨enough_of_hasYes (by simp [hasYes_succ, hanswer]), rfl⟩
        | true => exact .inr (.inl ⟨by simp [enough_true_succ, hnot, hanswer], by simp, rfl⟩)

theorem left_inquiry_eq_nil (k : Nat) :
    (s.inquiry completion every start c).left k = [] ↔ s.Enough completion k := by
  rcases left_inquiry k with ⟨henough, hleft⟩ | ⟨hnot, -, hleft⟩ | ⟨hnot, -, hleft⟩
  · exact iff_of_true hleft henough
  · exact iff_of_false (by simp [hleft]) hnot
  · exact iff_of_false (by simp [hleft, tests]) hnot

theorem rest_inquiry (hnot : ¬ s.Enough completion k) :
    (s.inquiry completion every start c).rest k = if s.answer k = s.hasYes k then every else 0 := by
  have hrest : (s.inquiry completion every start c).rest k =
      Inquiry.restAfter every ((s.inquiry completion every start c).left k) (.ok (s.answer k)) :=
    rfl
  rw [hrest]
  rcases left_inquiry k with ⟨henough, -⟩ | ⟨-, hyes, hleft⟩ | ⟨-, hyes, hleft⟩
  · exact absurd henough hnot
  · rw [hleft, hyes]
    cases s.answer k <;> rfl
  · rw [hleft, hyes]
    cases s.answer k <;> rfl

/-- As long as the answers are not enough, the questions of the inquiry are asked at the
times of the stream. -/
theorem asked_inquiry (hnot : ∀ j < k, ¬ s.Enough completion j) :
    (s.inquiry completion every start c).asked k = s.askedAt every start k := by
  induction k with
  | zero => rfl
  | succ k ih =>
    have hbefore := ih fun j hj => hnot j (Nat.lt_succ_of_lt hj)
    rw [Inquiry.asked, hbefore, rest_inquiry (hnot k (Nat.lt_succ_self k))]
    rfl

theorem reaches_inquiry : (s.inquiry completion every start c).Reaches k ↔ s.Open completion k := by
  refine forall₂_congr fun j _ => ?_
  rw [ne_eq, left_inquiry_eq_nil]
  exact and_congr_right fun _ => and_iff_left ⟨s.answer j, rfl⟩

theorem ends_inquiry : (s.inquiry completion every start c).Ends k ↔ s.Ends completion k :=
  and_congr reaches_inquiry (left_inquiry_eq_nil k)

theorem not_fails_inquiry {e : ClientError} : ¬ (s.inquiry completion every start c).Fails k e := by
  rintro ⟨-, -, -, hresult⟩
  cases hresult

theorem heard_inquiry (i : Fin n) (hopen : s.Open completion k) :
    (s.inquiry completion every start c).heard i k = s.noted every start c i k := by
  have hasked : ∀ j ≤ k, (s.inquiry completion every start c).asked j = s.askedAt every start j :=
    fun j hj => asked_inquiry fun l hl => (hopen l (Nat.lt_of_lt_of_le hl hj)).1
  refine List.flatMap_congr fun j hj => ?_
  have hj' := Nat.le_of_lt (List.mem_range.1 hj)
  rw [Inquiry.question, Inquiry.response, Inquiry.told, hasked j hj']
  rfl

/-- What may have been noted down of a wait that is under way. -/
theorem noted_of_partial {i : Fin n} {l : List (Event n)}
    (h : (s.inquiry completion every start c).Partial i l) :
    ∃ k, s.Open completion k ∧ (l = s.noted every start c i k ∨ ¬ s.Enough completion k ∧
      l = s.noted every start c i k ++ [.made (s.askedAt every start k) i c false]) := by
  cases h with
  | told hreaches =>
    have hopen := reaches_inquiry.1 hreaches
    exact ⟨_, hopen, .inl (heard_inquiry i hopen)⟩
  | @waiting k hreaches hleft =>
    have hopen := reaches_inquiry.1 hreaches
    refine ⟨k, hopen, .inr ⟨mt (left_inquiry_eq_nil k).2 hleft, ?_⟩⟩
    rw [heard_inquiry i hopen, Inquiry.question, asked_inquiry fun j hj => (hopen j hj).1]
    rfl
  | failed hfails => exact absurd hfails not_fails_inquiry

/-- The last answer of a wait is a wanted one. -/
theorem askedAt_of_ends (h : s.Ends completion k) :
    s.askedAt every start k = s.toldAt every start (k - 1) := by
  cases k with
  | zero => exact absurd h.2 not_enough_zero
  | succ k =>
    have hnot := (h.1 k (Nat.lt_succ_self k)).1
    -- An unwanted answer would not have made the answers enough.
    have hwanted : s.answer k ≠ s.hasYes k := by
      intro hsame
      have henough := h.2
      cases completion with
      | true =>
        rcases enough_true_succ.1 henough with hbefore | ⟨hyes, hno⟩
        · exact hnot hbefore
        · rw [hyes, hno] at hsame
          cases hsame
      | false =>
        have hyes := henough.hasYes
        rw [hasYes_succ, hsame, Bool.or_self] at hyes
        exact hnot (enough_of_hasYes hyes)
    rw [askedAt, if_neg hwanted]
    rfl

end Stream

/-- The question that clients are asked in a wait, unless it is one for a change of zones. -/
def WaitKind.question? : WaitKind → Option (Call .truth)
  | .dialog => some .inDialog
  | .battle => some .inBattle
  | .free => some .isFree
  | .window path => some (.windowVisible path)
  | .zoneChange => none

/-! ### Steps and what they come to -/

namespace Machine

variable [ClientModel σ] {crew : Crew n} {every fuel : Nat} {alarm : Alarm} {w w' : World σ n}
  {m : Machine} {i : Instruction} {clients : List (Fin n)} {ι : AnswerKind} {q : Fin n → Inquiry ι}
  {state : Fin n → Nat → σ}

/-- The activity of a step has come to something, where it lacks fuel or halts. -/
def StopsAt (m : Machine) (crew : Crew n) (alarm : Alarm) (step : StepResult × World σ n × Machine)
    (w' : World σ n) (r' : Running n Effect) : Prop :=
  step = (.outOfFuel, w', m) ∨ ∃ o, r'.tick crew alarm w' = .halt o ∧ step = m.conclude o

/-- A step, seen as far as its fuel lasts. -/
theorem exists_stopsAt (hrunning : m.running = true) (hi : m.instruction? = some i) (crew : Crew n)
    (every : Nat) (alarm : Alarm) [alarm.Timed] (fuel : Nat) (w : World σ n) :
    ∃ w' r', Running.Comes crew alarm w (.ofActivity (m.plan crew every i)) w' r' ∧
      m.StopsAt crew alarm (m.step crew every alarm fuel w) w' r' := by
  obtain ⟨w', r', hcomes, hend⟩ :=
    Running.exists_comes_timed crew alarm fuel w (.ofActivity (m.plan crew every i))
  refine ⟨w', r', hcomes, ?_⟩
  rw [step_of_instruction hrunning hi, Activity.run]
  rcases hend with hfuel | hhalt
  · rw [hfuel]
    exact .inl rfl
  · exact .inr ⟨_, hhalt, rfl⟩

/-- A plan that comes to something that halts. -/
theorem exists_step_of_halt [alarm.Timed] (hrunning : m.running = true)
    (hi : m.instruction? = some i) {r' : Running n Effect} {o : Outcome σ n Effect}
    (hcomes : Running.Comes crew alarm w (.ofActivity (m.plan crew every i)) w' r')
    (hhalt : r'.tick crew alarm w' = .halt o) :
    ∃ fuel, m.step crew every alarm fuel w = m.conclude o := by
  obtain ⟨ticks, hrun⟩ := hcomes.run_add
  refine ⟨0 + 1 + ticks, ?_⟩
  rw [step_of_instruction hrunning hi, Activity.run, hrun, Running.run_succ_halt hhalt]

/-- A plan that comes to something is there for some fuel, and has done at least as much
with more. -/
theorem exists_step_suffix [alarm.Timed] (hrunning : m.running = true)
    (hi : m.instruction? = some i) {r' : Running n Effect}
    (hcomes : Running.Comes crew alarm w (.ofActivity (m.plan crew every i)) w' r') :
    ∃ least, ∀ fuel ≥ least, w'.journal <:+ (m.step crew every alarm fuel w).2.1.journal := by
  obtain ⟨ticks, hrun⟩ := hcomes.run_add
  refine ⟨ticks, fun fuel hle => ?_⟩
  have hworld : (m.step crew every alarm ticks w).2.1 = w' := by
    have hfuel := hrun 0
    rw [Nat.zero_add] at hfuel
    rw [step_of_instruction hrunning hi, Activity.run, hfuel]
    rfl
  rw [← hworld]
  exact step_journal_suffix crew every alarm hle w m

/-- What comes of an activity that is done. -/
theorem comes_done {effect : Effect} {r' : Running n Effect}
    (h : Running.Comes crew alarm w ⟨[], .going (.done effect)⟩ w' r') :
    w' = w ∧ r' = ⟨[], .going (.done effect)⟩ := by
  rcases h.cases_head with hsame | ⟨w₁, r₁, htick, -⟩
  · exact hsame
  · cases htick

/-- How a step ends that leaves the machine at the next instruction, without a line. -/
def movesOn (m : Machine) (w : World σ n) : StepResult × World σ n × Machine :=
  (if m.next.settle.running then .goesOn 0 else .done 0, w, m.next.settle)

/-- What a step comes to that asks clients side by side, none of whom fails. -/
theorem step_of_gather (hrunning : m.running = true) (hi : m.instruction? = some i)
    (hplan : m.plan crew every i = .gather (Inquiry.chains q clients) fun _ => .done ⟨m.next, []⟩)
    (hbegin : Inquiry.Begin q state clients w) (hfails : ∀ i ∈ clients, ∀ k e, ¬ (q i).Fails k e)
    (fuel : Nat) :
    ∃ w', Inquiry.Underway q clients w w' ∧
      (m.step crew every ⟨none, none⟩ fuel w = (.outOfFuel, w', m) ∨
        m.step crew every ⟨none, none⟩ fuel w = (.never, w', m) ∨
        Inquiry.Completed q state clients w w' ∧
          m.step crew every ⟨none, none⟩ fuel w = m.movesOn w') := by
  obtain ⟨w', r', hcomes, hend⟩ := exists_stopsAt hrunning hi crew every ⟨none, none⟩ fuel w
  rw [hplan] at hcomes
  rcases hbegin.comes hcomes with
    ⟨rfl, rfl⟩ | ⟨p, g, rfl, hpolls⟩ | ⟨w₁, results, hcompleted, hcomes⟩
  · refine ⟨w', .refl q clients w', .inl ?_⟩
    rcases hend with hfuel | ⟨o, hhalt, -⟩
    · exact hfuel
    · cases hhalt
  · refine ⟨w', hpolls.underway, ?_⟩
    rcases hend with hfuel | ⟨o, hhalt, hstep⟩
    · exact .inl hfuel
    · -- Nobody fails, so the group halts only if it waits for ever.
      rcases hpolls.halts hbegin.nodup hhalt with rfl | ⟨j, e, u, hbreaks, -⟩
      · exact .inr (.inl hstep)
      · obtain ⟨k, hfailed, -⟩ := hbreaks.fails
        exact absurd hfailed (hfails j hbreaks.mem k e)
  · obtain ⟨rfl, rfl⟩ := comes_done hcomes
    refine ⟨w', hcompleted.underway, ?_⟩
    rcases hend with hfuel | ⟨o, hhalt, hstep⟩
    · exact .inl hfuel
    · cases hhalt
      exact .inr (.inr ⟨hcompleted, hstep⟩)

omit [ClientModel σ] in
/-- The world that such a step comes to. -/
theorem world_of_gather {P : Prop} {step : StepResult × World σ n × Machine}
    (h : step = (.outOfFuel, w', m) ∨ step = (.never, w', m) ∨ P ∧ step = m.movesOn w') :
    step.2.1 = w' := by
  rcases h with rfl | rfl | ⟨-, rfl⟩
  · rfl
  · rfl
  · rfl

/-! ### The instruction -/

variable {who : Selector} {wait : Wait} {c : Call .truth} {s : Fin n → Stream}

/-- The plan of a wait: all selected clients are asked side by side. -/
theorem plan_wait (hc : wait.kind.question? = some c) (who : Selector) (crew : Crew n) (every : Nat)
    (m : Machine) :
    m.plan crew every (.act who (.waitFor wait)) =
      .gather ((who.pick n).map fun i => (i, waitChain c wait.completion every))
        fun _ => .done ⟨m.next, []⟩ := by
  obtain ⟨kind, completion⟩ := wait
  cases kind with
  | zoneChange => cases hc
  | dialog | battle | free | window path =>
    cases hc
    rfl

theorem plan_waitFor (hc : wait.kind.question? = some c) (who : Selector) (crew : Crew n)
    (every start : Nat) (m : Machine) (s : Fin n → Stream) :
    m.plan crew every (.act who (.waitFor wait)) =
      .gather (Inquiry.chains (fun i => (s i).inquiry wait.completion every start c) (who.pick n))
        fun _ => .done ⟨m.next, []⟩ := by
  rw [plan_wait hc, ← Stream.inquire_tests]
  rfl

/-- The selected clients begin to be asked. -/
theorem begin_waitFor (who : Selector) (every : Nat) (w : World σ n)
    (hgiven : ∀ i ∈ who.pick n, (s i).Given wait.completion every w.now c (w.clients.get i)) :
    ∃ state, Inquiry.Begin (fun i => (s i).inquiry wait.completion every w.now c) state
      (who.pick n) w := by
  -- Only the selected clients are known to answer; the others get states that nothing
  -- is said about.
  have hstates : ∀ i, ∃ state : Nat → σ, i ∈ who.pick n → state 0 = w.clients.get i ∧
      ∀ k, ¬ (s i).Enough wait.completion k →
        ClientModel.reply ((s i).askedAt every w.now k) c (state k) =
          (⟨(s i).delay k, .ok ((s i).answer k)⟩, state (k + 1)) := by
    intro i
    by_cases hi : i ∈ who.pick n
    · obtain ⟨state, hstate⟩ := hgiven i hi
      exact ⟨state, fun _ => hstate⟩
    · exact ⟨fun _ => w.clients.get i, fun hmem => absurd hmem hi⟩
  choose state hstate using hstates
  refine ⟨state, who.pick_nodup n, fun i hi k hreaches hleft => ?_,
    fun i _ => rfl, fun i hi => (hstate i hi).1.symm⟩
  have hopen := Stream.reaches_inquiry.1 hreaches
  rw [Stream.asked_inquiry fun j hj => (hopen j hj).1]
  exact (hstate i hi).2 k (mt (Stream.left_inquiry_eq_nil k).2 hleft)

/-- A wait asks each selected client, at its own times and whatever the others answer, until its
answers are enough, and nobody else. It is done when the last client is, and never if one of them
never is. If unwanted answers are followed by rests, each client is asked as long as it has to be,
also if another one never comes to an end. -/
theorem waits_for_answers (crew : Crew n) (every : Nat) (w : World σ n) {m : Machine}
    {who : Selector} {wait : Wait} {c : Call .truth} (hrunning : m.running = true)
    (hi : m.instruction? = some (.act who (.waitFor wait))) (hc : wait.kind.question? = some c)
    (s : Fin n → Stream)
    (hgiven : ∀ i ∈ who.pick n, (s i).Given wait.completion every w.now c (w.clients.get i)) :
    (∀ fuel, ∀ i ∈ who.pick n, ∃ k, (s i).Open wait.completion k ∧
      ((m.step crew every ⟨none, none⟩ fuel w).2.1.talk i =
        w.talk i ++ (s i).noted every w.now c i k ∨ ¬ (s i).Enough wait.completion k ∧
        (m.step crew every ⟨none, none⟩ fuel w).2.1.talk i = w.talk i ++
          ((s i).noted every w.now c i k ++ [.made ((s i).askedAt every w.now k) i c false]))) ∧
    (∀ fuel, ∀ i, i ∉ who.pick n →
      (m.step crew every ⟨none, none⟩ fuel w).2.1.talk i = w.talk i) ∧
    (∀ K : Fin n → Nat, (∀ i ∈ who.pick n, (s i).Ends wait.completion (K i)) →
      ∃ fuel w', m.step crew every ⟨none, none⟩ fuel w =
          (if m.next.settle.running then .goesOn 0 else .done 0, w', m.next.settle) ∧
        (∀ i ∈ who.pick n, w'.talk i = w.talk i ++ (s i).noted every w.now c i (K i)) ∧
        w'.now = ((who.pick n).map fun i => (s i).toldAt every w.now (K i - 1)).foldr max w.now) ∧
    ((∃ i ∈ who.pick n, ∀ k, ¬ (s i).Ends wait.completion k) → ∀ fuel,
      (m.step crew every ⟨none, none⟩ fuel w).1 = .outOfFuel ∨
        (m.step crew every ⟨none, none⟩ fuel w).1 = .never) ∧
    (0 < every → ∀ i ∈ who.pick n, ∀ k, (s i).Open wait.completion k → ∃ least, ∀ fuel ≥ least,
      w.talk i ++ (s i).noted every w.now c i k <+:
      (m.step crew every ⟨none, none⟩ fuel w).2.1.talk i) := by
  have hplan := plan_waitFor hc who crew every w.now m s
  obtain ⟨state, hbegin⟩ := begin_waitFor who every w hgiven
  have hstep := step_of_gather hrunning hi hplan hbegin fun i _ k e => Stream.not_fails_inquiry
  have hends : ∀ i k, ((s i).inquiry wait.completion every w.now c).Ends k ↔
      (s i).Ends wait.completion k := fun i k => Stream.ends_inquiry
  refine ⟨fun fuel j hj => ?_, fun fuel j hj => ?_, fun K hK => ?_, ?_,
    fun hevery j hj k hopen => ?_⟩
  · obtain ⟨w', hunderway, hend⟩ := hstep fuel
    obtain ⟨l, hpart, htalk⟩ := hunderway.noted j hj
    obtain ⟨k, hopen, hl⟩ := Stream.noted_of_partial hpart
    refine ⟨k, hopen, ?_⟩
    rw [world_of_gather hend, htalk]
    exact hl.imp (congrArg _) (And.imp_right (congrArg _))
  · obtain ⟨w', hunderway, hend⟩ := hstep fuel
    rw [world_of_gather hend]
    exact (hunderway.others j hj).talk_eq
  · obtain ⟨w', results, hcompleted, hcomes⟩ := hbegin.completes crew
      (fun j hj => ⟨K j, (hends j (K j)).2 (hK j hj)⟩) fun _ => .done (⟨m.next, []⟩ : Effect)
    rw [← hplan] at hcomes
    obtain ⟨fuel, hdone⟩ := exists_step_of_halt hrunning hi hcomes rfl
    have hasked : ∀ j ∈ who.pick n, ((s j).inquiry wait.completion every w.now c).asked (K j) =
        (s j).toldAt every w.now (K j - 1) := by
      intro j hj
      rw [Stream.asked_inquiry fun l hl => ((hK j hj).1 l hl).1, Stream.askedAt_of_ends (hK j hj)]
    refine ⟨fuel, w', hdone, fun j hj => ?_, ?_⟩
    · rw [hcompleted.talk_eq hj ((hends j (K j)).2 (hK j hj)), Stream.heard_inquiry j (hK j hj).1]
    · rw [hcompleted.now_eq (fun _ _ => rfl) fun j hj => (hends j (K j)).2 (hK j hj)]
      rw [List.map_congr_left hasked]
  · rintro ⟨j, hj, hnever⟩ fuel
    obtain ⟨w', -, hend⟩ := hstep fuel
    rcases hend with hend | hend | ⟨hcompleted, -⟩
    · exact .inl (by rw [hend])
    · exact .inr (by rw [hend])
    · obtain ⟨k, hk, -⟩ := hcompleted.noted j hj
      exact absurd ((hends j k).1 hk) (hnever k)
  · obtain ⟨w', r', hcomes, hheard⟩ := hbegin.exists_heard crew (fun _ _ => hevery)
      (fun _ _ _ _ => Stream.not_fails_inquiry) hj (Stream.reaches_inquiry.2 hopen)
      fun _ => .done (⟨m.next, []⟩ : Effect)
    rw [← hplan] at hcomes
    obtain ⟨least, hmore⟩ := exists_step_suffix hrunning hi hcomes
    rw [Stream.heard_inquiry j hopen] at hheard
    exact ⟨least, fun fuel hle => hheard.trans (World.talk_isPrefix (hmore fuel hle) j)⟩

/-! ### Two clients that answer -/

/-- The answers of such a client, the last of which repeats. -/
def talkerStream (answers : List Bool) (ms : Nat) : Stream :=
  ⟨fun k => answers.getD k false, fun _ => some ms⟩

/-- Such a client gives its answers, if they are enough. -/
theorem talker_given {answers : List Bool} {ms : Nat} {completion : Bool}
    (henough : (talkerStream answers ms).Enough completion answers.length) (every start : Nat) :
    (talkerStream answers ms).Given completion every start .inDialog (talker answers ms) := by
  refine ⟨fun k => talker (answers.drop (min k (answers.length - 1))) ms, by simp, fun k hnot => ?_⟩
  have hk : k < answers.length := Nat.lt_of_not_le fun hle => hnot (henough.mono hle)
  have hdrop : answers.drop k = answers.getD k false :: answers.drop (k + 1) := by
    rw [List.drop_eq_getElem_cons hk]
    simp [hk]
  beta_reduce
  rw [Nat.min_eq_left (by omega), hdrop]
  by_cases hlast : k + 1 = answers.length
  · -- The last answer stays.
    rw [Nat.min_eq_right (by omega), List.drop_of_length_le (by omega), ← hlast, Nat.add_sub_cancel,
      hdrop, List.drop_of_length_le (by omega)]
    rfl
  · rw [Nat.min_eq_left (by omega),
      List.drop_eq_getElem_cons (show k + 1 < answers.length by omega)]
    rfl

/-- Two clients, of which the second one is faster and has more to say. -/
def talkers : World Rehearsal 2 :=
  .initial #v[talker [true, false] 30, talker [false, true, true, false] 10]

/-- What the two clients answer. -/
def talks : Fin 2 → Stream
  | 0 => talkerStream [true, false] 30
  | 1 => talkerStream [false, true, true, false] 10

/-- The first client is done while the second one still rests before its second question. -/
theorem talkers_end_apart :
    let m := about (.act .all (.waitFor ⟨.dialog, true⟩))
    (∀ i ∈ Selector.all.pick 2, (talks i).Given true 100 0 .inDialog (talkers.clients.get i)) ∧
      (talks 0).Ends true 2 ∧ (talks 1).Ends true 4 ∧
      ∃ fuel w', m.step pair 100 ⟨none, none⟩ fuel talkers = (.done 0, w', m.next.settle) ∧
        w'.talk 0 = [.made 0 0 .inDialog false, .answered 30 0 .inDialog true,
          .made 30 0 .inDialog false, .answered 60 0 .inDialog false] ∧ w'.now = 240 := by
  intro m
  have hgiven : ∀ i ∈ Selector.all.pick 2,
      (talks i).Given true 100 0 .inDialog (talkers.clients.get i)
    | 0, _ => talker_given (by decide) 100 0
    | 1, _ => talker_given (by decide) 100 0
  have hends : ∀ i, (talks i).Ends true (2 * i + 2) := by decide
  obtain ⟨-, -, hdone, -⟩ := waits_for_answers pair 100 talkers (m := m) rfl rfl rfl talks hgiven
  obtain ⟨fuel, w', hstep, htalk, hnow⟩ := hdone (fun i => 2 * i + 2) fun i _ => hends i
  refine ⟨hgiven, hends 0, hends 1, fuel, w', hstep, ?_, ?_⟩
  · rw [htalk 0 (by decide)]
    rfl
  · rw [hnow]
    rfl

end Machine

end BotScript
