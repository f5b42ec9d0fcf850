import BotScript.Program.Compile
import BotScript.Proofs.Activity.Answers
import BotScript.Proofs.Machine.Runs
import BotScript.Proofs.Machine.Waiting

/-!
# Waits that are split

A command that waits for a yes and then for a no becomes two instructions: one that waits for the
yes, and one that waits for a yes and then for a no. All clients have said yes before the second one
begins, and it begins by asking them again. So the two take a yes more from each client than one
instruction would: they do the same if whoever says yes for the first time does not say no right
after it, and else they ask on.

## Main definitions

* `Recites`: a client gives some replies, whenever it is asked.
* `Lasts`: the first yes is not followed by a no.
* `Wait.wanted`: the answers that a wait takes.
* `Machine.Finishes`: some instructions are done, after some questions.

## Main results

* `Machine.heard_of_steps`, `Machine.exists_steps`: waits, one after the other, take the answers
  that each of them wants.
* `Machine.finishes_waits`: on which answers they finish.
* `Machine.split_wait_finishes`: how the two instructions compare with a single one.
-/

namespace BotScript

open Cast

variable {σ : Type} {n : Nat}

/-- A client gives some replies to a question, whenever it is asked. -/
def Recites [ClientModel σ] (c : Call .truth) (replies : Nat → Reply .truth) (x : σ) : Prop :=
  ∃ state : Nat → σ, state 0 = x ∧ ∀ k t, ClientModel.reply t c (state k) =
    (replies k, state (k + 1))

/-- The answers that a wait takes: yes and, with `completion`, then no. -/
def Wait.wanted (wait : Wait) : List Bool := if wait.completion then [true, false] else [true]

/-! ### A yes that lasts -/

/-- The first yes is not followed by a no. -/
def Lasts (replies : Nat → Reply .truth) : Prop :=
  ∀ k, (∀ j < k, (replies j).result = .ok false) → (replies k).result = .ok true →
    (replies (k + 1)).result ≠ .ok false

section Lasts

variable {replies : Nat → Reply .truth} {answers : List Bool}

theorem lasts_of_no (h : (replies 0).result = .ok false) :
    Lasts replies ↔ Lasts fun k => replies (k + 1) := by
  constructor
  · intro hlasts k hbefore
    apply hlasts (k + 1)
    intro j hj
    cases j with
    | zero => exact h
    | succ j => exact hbefore j (Nat.lt_of_succ_lt_succ hj)
  · intro hlasts k hbefore hyes
    cases k with
    | zero =>
      rw [h] at hyes
      cases hyes
    | succ k => exact hlasts k (fun j hj => hbefore (j + 1) (Nat.succ_lt_succ hj)) hyes

theorem lasts_of_yes (h : (replies 0).result = .ok true) :
    Lasts replies ↔ (replies 1).result ≠ .ok false := by
  constructor
  · intro hlasts
    exact hlasts 0 (fun j hj => absurd hj (Nat.not_lt_zero j)) h
  · intro hnext k hbefore
    cases k with
    | zero => exact fun _ => hnext
    | succ k =>
      have hno := hbefore 0 (Nat.zero_lt_succ k)
      rw [h] at hno
      cases hno

/-- If it takes some answers to get a yes and a no, or two times a yes and a no, then it takes them
for both if the first yes lasts, and only then. -/
theorem fulfils_both_iff_lasts (hgives : Gives replies answers)
    (h : Fulfils [true, false] answers ∨ Fulfils [true, true, false] answers) :
    Fulfils [true, false] answers ∧ Fulfils [true, true, false] answers ↔ Lasts replies := by
  induction answers generalizing replies with
  | nil => exact absurd h (by decide)
  | cons a answers ih =>
    obtain ⟨-, ha, hgives⟩ := hgives
    cases a with
    | false =>
      rw [lasts_of_no ha]
      exact ih hgives h
    | true =>
      rw [lasts_of_yes ha]
      cases answers with
      | nil => exact absurd h (by decide)
      | cons a answers =>
        obtain ⟨-, hnext, -⟩ := hgives
        cases a with
        | true =>
          -- From here on only a no is wanted, by both.
          refine iff_of_true (and_self_iff.2 (or_self_iff.1 h)) fun hno => ?_
          rw [hnext] at hno
          cases hno
        | false =>
          -- One of them has it all, the other one has not.
          refine iff_of_false ?_ fun hne => hne hnext
          rintro ⟨hone, hboth⟩
          have hend : answers = [] := fulfils_nil.1 hone
          rw [hend] at hboth
          exact absurd hboth (by decide)

end Lasts

namespace Machine

variable [ClientModel σ] {crew : Crew n} {every fuel : Nat} {w w₁ w' : World σ n} {m m' : Machine}
  {i : Fin n} {who : Selector} {c : Call .truth} {clients : List (Fin n)} {wanted : List Bool}
  {replies : Fin n → Nat → Reply .truth}

/-! ### One wait -/

/-- A client has given the wanted answers, and has its other replies left. -/
structure Heard (c : Call .truth) (wanted : List Bool) (replies : Nat → Reply .truth)
    (w w' : World σ n) (i : Fin n) (answers : List Bool) : Prop where
  gives : Gives replies answers
  fulfils : Fulfils wanted answers
  recites : Recites c (fun k => replies (k + answers.length)) (w'.clients.get i)
  exchanges : w.Exchanges w' c i answers

theorem Heard.append {more answers answers' : List Bool} {replies : Nat → Reply .truth}
    (h : Heard c wanted replies w w₁ i answers)
    (h' : Heard c more (fun k => replies (k + answers.length)) w₁ w' i answers') :
    Heard c (wanted ++ more) replies w w' i (answers ++ answers') where
  gives := gives_append.2 ⟨h.gives, h'.gives⟩
  fulfils := fulfils_append.2 ⟨answers, answers', rfl, h.fulfils, h'.fulfils⟩
  recites := by
    have hlength : ∀ k, k + (answers ++ answers').length = k + answers'.length +
        answers.length := by
      intro k
      rw [List.length_append]
      omega
    simp only [hlength]
    exact h'.recites
  exchanges := h.exchanges.append h'.exchanges

/-- The clients that give their replies begin to be asked. -/
theorem begin_wanting (wanted : List Bool) (every : Nat) (w : World σ n) (hnodup : clients.Nodup)
    (hrecites : ∀ i ∈ clients, Recites c (replies i) (w.clients.get i)) :
    ∃ state, Inquiry.Begin (fun i => .wanting c wanted every w.now (replies i)) state clients w ∧
      ∀ i ∈ clients, ∀ k t, ClientModel.reply t c (state i k) = (replies i k, state i (k + 1)) := by
  -- Nothing is said about the others, but they get states as well.
  have hstates : ∀ i, ∃ state : Nat → σ, i ∈ clients → state 0 = w.clients.get i ∧
      ∀ k t, ClientModel.reply t c (state k) = (replies i k, state (k + 1)) := by
    intro i
    by_cases hi : i ∈ clients
    · obtain ⟨state, hstate⟩ := hrecites i hi
      exact ⟨state, fun _ => hstate⟩
    · exact ⟨fun _ => w.clients.get i, fun hmem => absurd hmem hi⟩
  choose state hstate using hstates
  exact ⟨state, ⟨hnodup, fun i hi k _ _ => (hstate i hi).2 k _, fun i _ => rfl,
    fun i hi => (hstate i hi).1.symm⟩, fun i hi => (hstate i hi).2⟩

theorem heard_of_completed {state : Fin n → Nat → σ}
    (h : Inquiry.Completed (fun i => .wanting c wanted every w.now (replies i)) state clients w w')
    (hstate : ∀ i ∈ clients, ∀ k t, ClientModel.reply t c (state i k) =
      (replies i k, state i (k + 1)))
    (hi : i ∈ clients) : ∃ answers, Heard c wanted (replies i) w w' i answers := by
  obtain ⟨k, hends, -, hclient, htalk⟩ := h.noted i hi
  obtain ⟨answers, rfl, hgives, hfulfils⟩ := (Inquiry.ends_wanting_iff rfl).1 hends
  refine ⟨answers, hgives, hfulfils, ⟨fun k => state i (k + answers.length), ?_, fun k t => ?_⟩,
    ⟨_, htalk, Inquiry.heard_timeless hgives i⟩⟩
  · beta_reduce
    rw [Nat.zero_add, hclient]
  · rw [hstate i hi, Nat.add_right_comm]

/-- What a step comes to that asks clients side by side, if it is done. -/
theorem completed_of_isDone {i : Instruction} {q : Fin n → Inquiry .truth} {state : Fin n → Nat → σ}
    {r : StepResult} (hrunning : m.running = true) (hi : m.instruction? = some i)
    (hplan : m.plan crew every i = .gather (Inquiry.chains q clients) fun _ => .done ⟨m.next, []⟩)
    (hbegin : Inquiry.Begin q state clients w)
    (hstep : m.step crew every ⟨none, none⟩ fuel w = (r, w', m')) (hr : r.isDone = true) :
    Inquiry.Completed q state clients w w' ∧ m' = m.next.settle := by
  obtain ⟨w₁, r₁, hcomes, hend⟩ := exists_stopsAt hrunning hi crew every ⟨none, none⟩ fuel w
  rw [hplan] at hcomes
  rcases hend with hfuel | ⟨o, hhalt, hconclude⟩
  · cases hstep.symm.trans hfuel
    cases hr
  · rcases hbegin.comes hcomes with
      ⟨rfl, rfl⟩ | ⟨p, g, rfl, hpolls⟩ | ⟨w₂, results, hcompleted, hcomes⟩
    · cases hhalt
    · -- A group that has not come to a good end is not done.
      rcases hpolls.halts hbegin.nodup hhalt with rfl | ⟨j, e, u, -, rfl⟩
      · cases hstep.symm.trans hconclude
        cases hr
      · cases hstep.symm.trans hconclude
        cases hr
    · obtain ⟨rfl, rfl⟩ := comes_done hcomes
      cases hhalt
      cases hstep.symm.trans hconclude
      exact ⟨hcompleted, rfl⟩

section OneWait

variable {wait : Wait}

theorem plan_wanting (hc : wait.kind.question? = some c) (who : Selector) (crew : Crew n)
    (every start : Nat) (m : Machine) (replies : Fin n → Nat → Reply .truth) :
    m.plan crew every (.act who (.waitFor wait)) =
      .gather
        (Inquiry.chains (fun i => .wanting c wait.wanted every start (replies i)) (who.pick n))
        fun _ => .done ⟨m.next, []⟩ := by
  have htests : Stream.tests wait.completion = wait.wanted.map fun b a => a == b := by
    rw [Stream.tests, Wait.wanted]
    cases wait.completion <;> simp
  rw [plan_wait hc, ← Stream.inquire_tests, htests]
  rfl

/-- A wait that is done has heard the answers that it takes. -/
theorem heard_of_step (hrunning : m.running = true)
    (hi : m.instruction? = some (.act who (.waitFor wait))) (hc : wait.kind.question? = some c)
    (hrecites : ∀ i ∈ who.pick n, Recites c (replies i) (w.clients.get i)) {r : StepResult}
    (hstep : m.step crew every ⟨none, none⟩ fuel w = (r, w', m')) (hr : r.isDone = true) :
    m' = m.next.settle ∧
      ∀ i ∈ who.pick n, ∃ answers, Heard c wait.wanted (replies i) w w' i answers := by
  obtain ⟨state, hbegin, hstate⟩ := begin_wanting wait.wanted every w (who.pick_nodup n) hrecites
  have hplan := plan_wanting hc who crew every w.now m replies
  obtain ⟨hcompleted, hnext⟩ := completed_of_isDone hrunning hi hplan hbegin hstep hr
  exact ⟨hnext, fun i hi => heard_of_completed hcompleted hstate hi⟩

/-- A wait is done if all selected clients give the answers that it takes. -/
theorem exists_step_wait (crew : Crew n) (every : Nat) (hrunning : m.running = true)
    (hi : m.instruction? = some (.act who (.waitFor wait))) (hc : wait.kind.question? = some c)
    (hrecites : ∀ i ∈ who.pick n, Recites c (replies i) (w.clients.get i))
    (hwanted : ∀ i ∈ who.pick n, ∃ answers, Gives (replies i) answers ∧
      Fulfils wait.wanted answers) :
    ∃ fuel w', m.step crew every ⟨none, none⟩ fuel w = m.movesOn w' := by
  obtain ⟨state, hbegin, -⟩ := begin_wanting wait.wanted every w (who.pick_nodup n) hrecites
  have hends : ∀ i ∈ who.pick n,
      ∃ k, (Inquiry.wanting c wait.wanted every w.now (replies i)).Ends k := by
    intro i hi
    obtain ⟨answers, hanswers⟩ := hwanted i hi
    exact ⟨answers.length, (Inquiry.ends_wanting_iff rfl).2 ⟨answers, rfl, hanswers⟩⟩
  obtain ⟨w', results, -, hcomes⟩ :=
    hbegin.completes crew hends fun _ => .done (⟨m.next, []⟩ : Effect)
  rw [← plan_wanting hc who crew every w.now m replies] at hcomes
  obtain ⟨fuel, hdone⟩ := exists_step_of_halt hrunning hi hcomes rfl
  exact ⟨fuel, w', hdone⟩

end OneWait

/-! ### Waits, one after the other -/

/-- Some code lies ahead of a machine, which is running unless there is none. -/
def Faces (m : Machine) (code : List Instruction) : Prop :=
  code <+: m.program.code.drop m.ip ∧ (code ≠ [] → m.running = true)

theorem faces_single {i : Instruction} (hrunning : m.running = true)
    (hi : m.instruction? = some i) :
    m.Faces [i] := by
  refine ⟨?_, fun _ => hrunning⟩
  obtain ⟨hlt, hget⟩ := List.getElem?_eq_some_iff.1 hi
  rw [List.drop_eq_getElem_cons hlt, hget]
  exact List.cons_prefix_cons.2 ⟨rfl, List.nil_prefix⟩

namespace Faces

variable {first : Instruction} {code : List Instruction}

theorem running (h : m.Faces (first :: code)) :
    m.running = true := h.2 (List.cons_ne_nil first code)

theorem instruction (h : m.Faces (first :: code)) : m.instruction? = some first := by
  obtain ⟨rest, hrest⟩ := h.1
  rw [instruction?, ← List.head?_drop, ← hrest]
  rfl

/-- What lies ahead of a machine after its next instruction. -/
theorem next (h : m.Faces (first :: code)) : m.next.settle.Faces code := by
  obtain ⟨rest, hrest⟩ := h.1
  have hdrop : m.program.code.drop (m.ip + 1) = code ++ rest := by
    rw [← List.drop_drop, ← hrest]
    rfl
  by_cases hend : m.program.length ≤ m.ip + 1
  · -- Nothing lies behind the end of the program.
    have hnil : code = [] := by
      rw [List.drop_of_length_le hend] at hdrop
      exact (List.append_eq_nil_iff.1 hdrop.symm).1
    rw [hnil]
    exact ⟨List.nil_prefix, fun hne => absurd rfl hne⟩
  · have hsettle : m.next.settle = m.next := if_neg hend
    rw [hsettle]
    exact ⟨⟨rest, hdrop.symm⟩, fun _ => h.running⟩

end Faces

/-- The code of some waits for the same clients. -/
def waitCode (who : Selector) (waits : List Wait) : List Instruction :=
  waits.map fun wait => .act who (.waitFor wait)

/-- Waits that are done have heard, one after the other, the answers that they take. -/
theorem heard_of_steps {waits : List Wait} (hc : ∀ wait ∈ waits, wait.kind.question? = some c)
    (hfaces : m.Faces (waitCode who waits))
    (hrecites : ∀ i ∈ who.pick n, Recites c (replies i) (w.clients.get i))
    (hsteps : Steps crew every none waits.length w m w' m') :
    ∀ i ∈ who.pick n, ∃ answers,
      Heard c (waits.flatMap Wait.wanted) (replies i) w w' i answers := by
  -- The induction is on the waits; each of them leaves every client with the replies that it has
  -- not given yet.
  induction waits generalizing w m replies with
  | nil =>
    intro i hi
    cases hsteps
    exact ⟨[], trivial, fulfils_nil.2 rfl, hrecites i hi, [], (List.append_nil _).symm, rfl⟩
  | cons wait waits ih =>
    cases hsteps with
    | next _ hstep hr hrest =>
      obtain ⟨rfl, hheard⟩ := heard_of_step hfaces.running hfaces.instruction
        (hc wait List.mem_cons_self) hrecites hstep hr
      choose! front hfront using hheard
      have hback := ih (fun wait hwait => hc wait (List.mem_cons_of_mem _ hwait)) hfaces.next
        (fun i hi => (hfront i hi).recites) hrest
      intro i hi
      obtain ⟨back, hback⟩ := hback i hi
      exact ⟨front i ++ back, (hfront i hi).append hback⟩

/-- Waits are done, one after the other, if all clients give the answers that they take. -/
theorem exists_steps (crew : Crew n) (every : Nat) {waits : List Wait}
    (hc : ∀ wait ∈ waits, wait.kind.question? = some c) (hfaces : m.Faces (waitCode who waits))
    (hrecites : ∀ i ∈ who.pick n, Recites c (replies i) (w.clients.get i))
    (hwanted : ∀ i ∈ who.pick n,
      ∃ answers, Gives (replies i) answers ∧ Fulfils (waits.flatMap Wait.wanted) answers) :
    ∃ w' m', Steps crew every none waits.length w m w' m' := by
  induction waits generalizing w m replies with
  | nil => exact ⟨w, m, .refl w m⟩
  | cons wait waits ih =>
    have hquestion := hc wait List.mem_cons_self
    -- Each client gives what the first wait takes, and then what the others take.
    have hparts : ∀ i ∈ who.pick n, ∃ front back,
        (Gives (replies i) front ∧ Fulfils wait.wanted front) ∧
          Gives (fun k => replies i (k + front.length)) back ∧
          Fulfils (waits.flatMap Wait.wanted) back := by
      intro i hi
      obtain ⟨answers, hgives, hfulfils⟩ := hwanted i hi
      obtain ⟨front, back, rfl, hfront, hback⟩ := fulfils_append.1 hfulfils
      obtain ⟨hgives, hgives'⟩ := gives_append.1 hgives
      exact ⟨front, back, ⟨hgives, hfront⟩, hgives', hback⟩
    choose! front back hfront hback using hparts
    obtain ⟨fuel, w₁, hstep⟩ :=
      exists_step_wait crew every hfaces.running hfaces.instruction hquestion
      hrecites fun i hi => ⟨front i, hfront i hi⟩
    have hdone :
        (if m.next.settle.running then .goesOn 0 else .done 0 : StepResult).isDone = true := by
      split <;> rfl
    obtain ⟨-, hheard⟩ :=
      heard_of_step hfaces.running hfaces.instruction hquestion hrecites hstep hdone
    have hrest : ∀ i ∈ who.pick n,
        Recites c (fun k => replies i (k + (front i).length)) (w₁.clients.get i) := by
      intro i hi
      obtain ⟨answers, hanswers⟩ := hheard i hi
      rw [(hfront i hi).2.unique (hfront i hi).1 hanswers.fulfils hanswers.gives]
      exact hanswers.recites
    obtain ⟨w', m', hsteps⟩ :=
      ih (fun wait hwait => hc wait (List.mem_cons_of_mem _ hwait)) hfaces.next
      hrest fun i hi => ⟨back i, hback i hi⟩
    exact ⟨w', m', .next hfaces.running hstep hdone hsteps⟩

/-- A number of instructions are done, and from each of some clients they took some answers to a
question. -/
def Finishes (m : Machine) (crew : Crew n) (every count : Nat) (w : World σ n) (c : Call .truth)
    (clients : List (Fin n)) (asked : Fin n → List Bool) : Prop :=
  ∃ w' m', Steps crew every none count w m w' m' ∧ ∀ i ∈ clients, w.Exchanges w' c i (asked i)

/-- Waits finish, one after the other, if the clients give the answers that they take,
and only then. -/
theorem finishes_waits (crew : Crew n) (every : Nat) (waits : List Wait)
    (hc : ∀ wait ∈ waits, wait.kind.question? = some c) (hfaces : m.Faces (waitCode who waits))
    (hrecites : ∀ i ∈ who.pick n, Recites c (replies i) (w.clients.get i))
    (asked : Fin n → List Bool) :
    m.Finishes crew every waits.length w c (who.pick n) asked ↔
      ∀ i ∈ who.pick n, Gives (replies i) (asked i) ∧
      Fulfils (waits.flatMap Wait.wanted) (asked i) := by
  constructor
  · rintro ⟨w', m', hsteps, hexchanges⟩ i hi
    obtain ⟨answers, hheard⟩ := heard_of_steps hc hfaces hrecites hsteps i hi
    rw [(hexchanges i hi).unique hheard.exchanges]
    exact ⟨hheard.gives, hheard.fulfils⟩
  · intro hasked
    obtain ⟨w', m', hsteps⟩ := exists_steps crew every hc hfaces hrecites fun i hi =>
      ⟨asked i, hasked i hi⟩
    refine ⟨w', m', hsteps, fun i hi => ?_⟩
    obtain ⟨answers, hheard⟩ := heard_of_steps hc hfaces hrecites hsteps i hi
    rw [(hasked i hi).2.unique (hasked i hi).1 hheard.fulfils hheard.gives]
    exact hheard.exchanges

/-! ### The two instructions of a command -/

/-- Whatever clients are selected and whatever they reply, the code of a command that waits with
`completion` takes two times a yes from each of them and then a no, where a single instruction takes
a yes and a no. So whenever one of the two finishes, the other one finishes after the same questions
if for no selected client the first yes is followed by a no, and only then; and whenever the code
finishes, a single instruction finishes as well, after no more questions to anyone. -/
theorem split_wait_finishes (crew : Crew n) (every : Nat) (w : World σ n) {kind : WaitKind}
    {c : Call .truth} {who : Selector} {code : List Instruction} {m s : Machine}
    (hc : kind.question? = some c)
    (hcode : (Command.mk who (.act (.waitFor ⟨kind, true⟩))).code = .ok code)
    (hm : m.running = true) (hat : code <+: m.program.code.drop m.ip)
    (hs : s.running = true) (hi : s.instruction? = some (.act who (.waitFor ⟨kind, true⟩)))
    (replies : Fin n → Nat → Reply .truth)
    (hrecites : ∀ i ∈ who.pick n, Recites c (replies i) (w.clients.get i)) :
    (∀ asked, m.Finishes crew every code.length w c (who.pick n) asked ↔
      ∀ i ∈ who.pick n, Gives (replies i) (asked i) ∧ Fulfils [true, true, false] (asked i)) ∧
    (∀ asked, s.Finishes crew every 1 w c (who.pick n) asked ↔
      ∀ i ∈ who.pick n, Gives (replies i) (asked i) ∧ Fulfils [true, false] (asked i)) ∧
    (∀ asked, m.Finishes crew every code.length w c (who.pick n) asked ∨
        s.Finishes crew every 1 w c (who.pick n) asked →
      (m.Finishes crew every code.length w c (who.pick n) asked ∧
          s.Finishes crew every 1 w c (who.pick n) asked ↔
        ∀ i ∈ who.pick n, Lasts (replies i))) ∧
    (∀ asked, m.Finishes crew every code.length w c (who.pick n) asked →
      ∃ fewer, s.Finishes crew every 1 w c (who.pick n) fewer ∧
        ∀ i ∈ who.pick n, fewer i <+: asked i) := by
  have hwaits : waitCode who [⟨kind, false⟩, ⟨kind, true⟩] = code := Except.ok.inj hcode
  have hlength : code.length = 2 := hwaits ▸ rfl
  rw [← hwaits] at hat
  rw [hlength]
  have hsplit : ∀ asked, m.Finishes crew every 2 w c (who.pick n) asked ↔
      ∀ i ∈ who.pick n, Gives (replies i) (asked i) ∧ Fulfils [true, true, false] (asked i) :=
    finishes_waits crew every [⟨kind, false⟩, ⟨kind, true⟩] (by simp [hc])
      ⟨hat, fun _ => hm⟩ hrecites
  have hsingle : ∀ asked, s.Finishes crew every 1 w c (who.pick n) asked ↔
      ∀ i ∈ who.pick n, Gives (replies i) (asked i) ∧ Fulfils [true, false] (asked i) :=
    finishes_waits crew every [⟨kind, true⟩] (by simp [hc]) (faces_single hs hi) hrecites
  refine ⟨hsplit, hsingle, fun asked hfinishes => ?_, fun asked hfinishes => ?_⟩
  · rw [hsplit, hsingle] at hfinishes ⊢
    -- Each client for itself has given enough for one of the two.
    have hclient : ∀ i ∈ who.pick n, Gives (replies i) (asked i) ∧
        (Fulfils [true, false] (asked i) ∨ Fulfils [true, true, false] (asked i)) := by
      intro i hi
      rcases hfinishes with h | h
      · exact ⟨(h i hi).1, .inr (h i hi).2⟩
      · exact ⟨(h i hi).1, .inl (h i hi).2⟩
    constructor
    · rintro ⟨htwo, hone⟩ i hi
      exact (fulfils_both_iff_lasts (hclient i hi).1 (hclient i hi).2).1
        ⟨(hone i hi).2, (htwo i hi).2⟩
    · intro hlasts
      have hboth : ∀ i ∈ who.pick n, _ := fun i hi =>
        (fulfils_both_iff_lasts (hclient i hi).1 (hclient i hi).2).2 (hlasts i hi)
      exact ⟨fun i hi => ⟨(hclient i hi).1, (hboth i hi).2⟩,
        fun i hi => ⟨(hclient i hi).1, (hboth i hi).1⟩⟩
  · have hfewer : ∀ i ∈ who.pick n, ∃ front, front <+: asked i ∧ Fulfils [true, false] front :=
      fun i hi => ((hsplit asked).1 hfinishes i hi).2.of_sublist (List.sublist_cons_self true _)
    choose! fewer hle hfulfils using hfewer
    refine ⟨fewer, (hsingle fewer).2 fun i hi => ⟨?_, hfulfils i hi⟩, hle⟩
    exact ((hsplit asked).1 hfinishes i hi).1.of_isPrefix (hle i hi)

/-! ### Clients that say yes for a while -/

/-- What a client replies that has some answers and says no from then on. -/
def talkerReplies (answers : List Bool) (ms k : Nat) :
    Reply .truth := ⟨some ms, .ok (answers.getD k false)⟩

omit [ClientModel σ] in
theorem gives_talker (answers : List Bool) (ms : Nat) :
    Gives (talkerReplies answers ms) (answers ++ [false]) := by
  induction answers with
  | nil => exact ⟨nofun, rfl, trivial⟩
  | cons a answers ih => exact ⟨nofun, rfl, ih⟩

theorem talker_recites (answers : List Bool) (ms : Nat) :
    Recites .inDialog (talkerReplies answers ms) (talker (answers ++ [false]) ms) := by
  induction answers with
  | nil => exact ⟨fun _ => talker [false] ms, rfl, fun k t => rfl⟩
  | cons a answers ih =>
    obtain ⟨state, hstart, hstate⟩ := ih
    refine ⟨fun k => k.casesOn (talker (a :: (answers ++ [false])) ms) state, rfl, fun k t => ?_⟩
    cases k with
    | succ k => exact hstate k t
    | zero =>
      change _ = (_, state 0)
      rw [hstart]
      cases answers with
      | nil => rfl
      | cons b answers => rfl

/-- The command that waits for a dialog and for its end. -/
def untilTalked : Command := ⟨.all, .act (.waitFor ⟨.dialog, true⟩)⟩

/-- A machine about to carry out the code of this command. -/
def talkedInTwo : Machine := (idle.load ⟨waitCode .all [⟨.dialog, false⟩, ⟨.dialog, true⟩]⟩).start

/-- The answers of two clients, of which the second one takes longer to say yes. -/
def steadyAnswers : Fin 2 → List Bool
  | 0 => [true, true]
  | 1 => [false, true, true]

/-- The two clients, who both say yes two times. -/
def steady : World Rehearsal 2 :=
  .initial #v[talker (steadyAnswers first ++ [false]) 30,
    talker (steadyAnswers second ++ [false]) 10]

/-- A yes that is said twice is enough for both. -/
theorem steady_finish :
    let asked : Fin 2 → List Bool := fun i => steadyAnswers i ++ [false]
    (∀ i, Lasts (talkerReplies (steadyAnswers i) (if i = 0 then 30 else 10))) ∧
      talkedInTwo.Finishes pair 250 2 steady .inDialog (Selector.all.pick 2) asked ∧
      (about (.act .all (.waitFor ⟨.dialog, true⟩))).Finishes pair 250 1 steady .inDialog
        (Selector.all.pick 2) asked := by
  intro asked
  have hrecites : ∀ i ∈ Selector.all.pick 2,
      Recites .inDialog (talkerReplies (steadyAnswers i) (if i = 0 then 30 else 10))
      (steady.clients.get i)
    | 0, _ => talker_recites _ _
    | 1, _ => talker_recites _ _
  obtain ⟨htwo, hone, hboth, -⟩ := split_wait_finishes pair 250 steady (m := talkedInTwo)
    (s := about (.act .all (.waitFor ⟨.dialog, true⟩))) rfl rfl rfl List.prefix_rfl rfl rfl _
    hrecites
  have hfinish := (htwo asked).2 fun i _ => ⟨gives_talker _ _, by revert i; decide⟩
  have hsingle := (hone asked).2 fun i _ => ⟨gives_talker _ _, by revert i; decide⟩
  exact ⟨fun i => (hboth asked (.inl hfinish)).1 ⟨hfinish, hsingle⟩ i (by revert i; decide),
    hfinish, hsingle⟩

omit [ClientModel σ] in
/-- Who keeps saying no does not give a yes. -/
theorem not_fulfils_of_no {replies : Nat → Reply .truth} {answers : List Bool}
    (hno : ∀ k, (replies k).result = .ok false) (hgives : Gives replies answers) :
    ¬ Fulfils (true :: wanted) answers := by
  induction answers generalizing replies with
  | nil => exact not_fulfils_nil
  | cons a answers ih =>
    obtain ⟨-, ha, hgives⟩ := hgives
    have hfirst := hno 0
    rw [ha] at hfirst
    cases hfirst
    exact ih (fun k => hno (k + 1)) hgives

/-- A client that says yes once and no from then on. -/
def brief : World Rehearsal 1 := .initial #v[talker [true, false] 0]

/-- A single instruction is done after the two answers, and the code of the command never is. -/
theorem brief_yes_is_missed :
    Script.compile [.command untilTalked] = .ok talkedInTwo.program ∧
      (about (.act .all (.waitFor ⟨.dialog, true⟩))).Finishes solo 1000000 1 brief .inDialog
        (Selector.all.pick 1) (fun _ => [true, false]) ∧
      ∀ asked, ¬ talkedInTwo.Finishes solo 1000000 2 brief .inDialog (Selector.all.pick 1)
        asked := by
  have hrecites : ∀ i ∈ Selector.all.pick 1,
      Recites .inDialog (talkerReplies [true] 0) (brief.clients.get i)
    | 0, _ => talker_recites [true] 0
  refine ⟨rfl, ?_, fun asked hfinishes => ?_⟩
  · exact (finishes_waits solo 1000000 [⟨.dialog, true⟩] (by simp [WaitKind.question?])
      (faces_single rfl rfl) hrecites _).2 fun i _ => ⟨gives_talker [true] 0, by decide⟩
  · obtain ⟨hgives, hfulfils⟩ := (finishes_waits solo 1000000 [⟨.dialog, false⟩, ⟨.dialog, true⟩]
      (by simp [WaitKind.question?]) ⟨List.prefix_rfl, fun _ => rfl⟩ hrecites asked).1 hfinishes 0
      (by decide)
    cases hasked : asked 0 with
    | nil =>
      rw [hasked] at hfulfils
      exact absurd hfulfils not_fulfils_nil
    | cons a answers =>
      rw [hasked] at hgives hfulfils
      obtain ⟨-, ha, hgives⟩ := hgives
      cases ha
      exact not_fulfils_of_no (fun k => rfl) hgives hfulfils

end Machine

end BotScript
