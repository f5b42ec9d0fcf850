import Mathlib.Tactic.Push
import BotScript.Proofs.Machine.Runs

/-!
# Calls and returns

A call leaves the place behind it on top of the calls to return from. Whatever happens to the
machine then, as long as it keeps its program, the calls that were there stay underneath, until one
return takes the place back off: the machine goes on behind the call, with the calls it was made
with. So calls return in the reverse order, each to its own place, however deeply they are nested
and however often the machine was stopped, has failed or was cancelled in between.

## Main definitions

* `Machine.Executes`: a step carries out an instruction.
* `Machine.Happens`: what can happen to a machine that keeps its program.
* `Machine.History`: the machines between one happening and the next.
* `Machine.Returns`: when a call returns.

## Main results

* `Machine.Happens.frame`: what becomes of the calls underneath, in one happening.
* `Machine.History.frame_suffix`: the calls underneath stay until the call returns.
* `Machine.calls_return`: calls return to their own places, in the reverse order.
-/

namespace BotScript.Machine

open Cast

variable {σ : Type} {n : Nat} [ClientModel σ] {m m' : Machine} {i : Instruction}

/-- A step carries out an instruction. -/
inductive Executes (m : Machine) (i : Instruction) (m' : Machine) : Prop
  | intro {σ : Type} {n : Nat} [ClientModel σ] {crew : Crew n} {every : Nat} {alarm : Alarm}
      {fuel : Nat} {w w' : World σ n} {r : StepResult} (hrunning : m.running = true)
      (hi : m.instruction? = some i)
      (hstep : m.step crew every alarm fuel w = (r, w', m')) (hr : r.isDone = true)

/-- What can happen to a machine that keeps its program: it is started, stopped or killed, or it
makes a step, which may also fail or be cancelled. -/
inductive Happens (m : Machine) : Machine → Prop
  | start : Happens m m.start
  | stop : Happens m m.stop
  | kill : Happens m m.kill
  | step {σ : Type} {n : Nat} [ClientModel σ] (crew : Crew n) (every : Nat) (alarm : Alarm)
      (fuel : Nat) (w : World σ n) : Happens m (m.step crew every alarm fuel w).2.2

/-! ### One happening -/

/-- A step that carries out an instruction does what the instruction can do. -/
theorem Executes.moves (h : m.Executes i m') : ∃ m₁, m.Moves i m₁ ∧ m' = m₁.settle := by
  obtain ⟨hrunning, hi, hstep, hr⟩ := h
  exact moves_of_isDone hrunning hi hstep hr

/-- A step leaves the machine as it is or stops it, unless it carries out an instruction. -/
theorem step_executes (crew : Crew n) (every : Nat) (alarm : Alarm) (fuel : Nat) (w : World σ n)
    (m : Machine) :
    let m' := (m.step crew every alarm fuel w).2.2
    m' = m ∨ m' = m.stop ∨ ∃ i, m.Executes i m' := by
  dsimp only
  cases hrunning : m.running with
  | false =>
    rw [step_of_not_running hrunning]
    exact .inl rfl
  | true =>
    cases hi : m.instruction? with
    | none =>
      rw [step_of_end hrunning hi]
      exact .inr (.inl rfl)
    | some i =>
      cases hr : (m.step crew every alarm fuel w).1.isDone with
      | true => exact .inr (.inr ⟨i, .intro hrunning hi rfl hr⟩)
      | false => exact .inl (machine_of_not_isDone rfl hr)

/-- The calls do not depend on whether the machine has come to its end. -/
theorem settle_calls (m : Machine) : m.settle.calls = m.calls := by
  unfold settle
  split <;> rfl

theorem settle_ip (m : Machine) : m.settle.ip = m.ip := by
  unfold settle
  split <;> rfl

/-- A call puts the place behind it on top. -/
theorem Executes.calls_of_call {name : String} (h : m.Executes (.call name) m') :
    m'.calls = (m.ip + 1) :: m.calls := by
  obtain ⟨m₁, hmoves, rfl⟩ := h.moves
  rw [settle_calls]
  cases hmoves with
  | call _ => rfl
  | plain hplain => cases hplain

/-- Calls underneath others stay, whatever happens, until a return takes the newest of them off and
goes on there. -/
theorem Happens.frame {place : Nat} {rest : List Nat} (h : m.Happens m')
    (hframe : place :: rest <:+ m.calls) :
    place :: rest <:+ m'.calls ∨ m.Executes .ret m' ∧ m'.calls = rest ∧ m'.ip = place := by
  cases h with
  | start => exact .inl hframe
  | stop => exact .inl hframe
  | kill => exact .inl hframe
  | step crew every alarm fuel w =>
    rcases step_executes crew every alarm fuel w m with hm | hm | ⟨i, hexecutes⟩
    · rw [hm]
      exact .inl hframe
    · rw [hm]
      exact .inl hframe
    · obtain ⟨m₁, hmoves, hm⟩ := hexecutes.moves
      rw [hm] at hexecutes ⊢
      rw [settle_calls, settle_ip]
      cases hmoves with
      | call _ => exact .inl (hframe.trans (List.suffix_cons _ _))
      | @ret top below hcalls =>
        -- Either the frame lies below the place that is taken off, or that place is its own.
        rw [hcalls] at hframe
        rcases List.suffix_cons_iff.mp hframe with heq | hbelow
        · cases heq
          exact .inr ⟨hexecutes, rfl, rfl⟩
        · exact .inl hbelow
      | _ => exact .inl hframe

/-! ### Histories -/

/-- The machines of a history, in which so many things happen one after the other. -/
def History (last : Nat) (ms : Nat → Machine) : Prop := ∀ t < last, (ms t).Happens (ms (t + 1))

/-- A call that is made at one time returns at another one: the first at which there are no more
calls to return from than there were before it. -/
def Returns (ms : Nat → Machine) (t u : Nat) : Prop :=
  t < u ∧ (ms u).calls.length ≤ (ms t).calls.length ∧
    ∀ v < u, t < v → (ms t).calls.length < (ms v).calls.length

variable {ms : Nat → Machine} {last t u : Nat} {name : String}

/-! ### Returns -/

theorem exists_returns (ms : Nat → Machine) {t u : Nat} (htu : t < u)
    (hlength : (ms u).calls.length ≤ (ms t).calls.length) : ∃ v ≤ u, Returns ms t v := by
  induction u using Nat.strong_induction_on with
  | _ u ih =>
    by_cases hearlier : ∃ v < u, t < v ∧ (ms v).calls.length ≤ (ms t).calls.length
    · obtain ⟨v, hvu, htv, hv⟩ := hearlier
      obtain ⟨first, hfirst, hreturns⟩ := ih v hvu htv hv
      exact ⟨first, hfirst.trans hvu.le, hreturns⟩
    · push Not at hearlier
      exact ⟨u, le_rfl, htu, hlength, hearlier⟩

/-- As long as a call has not returned, its place and the calls it was made with are underneath. -/
theorem History.frame_suffix (h : History last ms)
    (hcall : (ms t).Executes (.call name) (ms (t + 1)))
    (htu : t < u) (hu : u ≤ last) (hopen : ∀ v ≤ u, ¬ Returns ms t v) :
    ((ms t).ip + 1) :: (ms t).calls <:+ (ms u).calls := by
  induction u, htu using Nat.le_induction with
  | base => rw [hcall.calls_of_call]
  | succ u htu ih =>
    have hbefore := ih (by omega) fun v hv => hopen v (by omega)
    rcases (h u hu).frame hbefore with hframe | ⟨-, hcalls, -⟩
    · exact hframe
    · obtain ⟨v, hv, hreturns⟩ := exists_returns ms (Nat.lt_succ_of_lt htu) (by rw [hcalls])
      exact absurd hreturns (hopen v hv)

/-- When a call returns, it is by a return, to the place behind the call and with the
calls it was made with. -/
theorem History.restored (h : History last ms) (hcall : (ms t).Executes (.call name) (ms (t + 1)))
    (hu : u ≤ last) (hreturns : Returns ms t u) :
    (ms (u - 1)).Executes .ret (ms u) ∧ (ms u).calls = (ms t).calls ∧
      (ms u).ip = (ms t).ip + 1 := by
  obtain ⟨htu, hlength, hlonger⟩ := hreturns
  -- The call itself makes the stack longer, so there is a machine in between.
  have hnext : t + 1 ≠ u := by
    rintro rfl
    rw [hcall.calls_of_call, List.length_cons] at hlength
    omega
  obtain ⟨v, rfl⟩ : ∃ v, u = v + 1 := ⟨u - 1, by omega⟩
  have hframe : ((ms t).ip + 1) :: (ms t).calls <:+ (ms v).calls := by
    refine h.frame_suffix hcall (by omega) (by omega) fun first hfirst hreturns => ?_
    have := hlonger first (by omega) hreturns.1
    have := hreturns.2.1
    omega
  rcases (h v hu).frame hframe with hstill | ⟨hret, hcalls, hip⟩
  · have := hstill.length_le
    rw [List.length_cons] at this
    omega
  · exact ⟨hret, hcalls, hip⟩

/-- A call that is made before another one has returned returns before it. -/
theorem History.nested {inner : String} {s : Nat} (h : History last ms)
    (hcall : (ms t).Executes (.call name) (ms (t + 1)))
    (hinner : (ms s).Executes (.call inner) (ms (s + 1))) (hts : t < s) (hsu : s < u)
    (hu : u ≤ last) (hreturns : Returns ms t u) : ∃ v < u, Returns ms s v := by
  have hdeeper := hreturns.2.2 s hsu hts
  obtain ⟨v, hvu, hv⟩ := exists_returns ms hsu (hreturns.2.1.trans hdeeper.le)
  refine ⟨v, lt_of_le_of_ne hvu ?_, hv⟩
  -- Both cannot return at once: each return restores the calls that its own call was made with.
  rintro rfl
  have houter := (h.restored hcall hu hreturns).2.1
  have hown := (h.restored hinner hu hv).2.1
  rw [houter.symm.trans hown] at hdeeper
  exact absurd hdeeper (lt_irrefl _)

/-- Calls return in the reverse order to their own places. In every history of a machine that keeps
its program, from the moment at which a call is carried out the place behind it and the calls it was
made with are the oldest calls to return from, as long as it has not returned. It returns by a
return instruction, and then the machine is at the place behind the call with exactly the calls it
was made with. All calls made in the meantime have returned before. -/
theorem calls_return {last : Nat} {ms : Nat → Machine} (h : History last ms) {t : Nat}
    {name : String} (hcall : (ms t).Executes (.call name) (ms (t + 1))) :
    (∀ u, t < u → u ≤ last → (∀ v ≤ u, ¬ Returns ms t v) →
      ((ms t).ip + 1) :: (ms t).calls <:+ (ms u).calls) ∧
    ∀ u, u ≤ last → Returns ms t u →
      (ms (u - 1)).Executes .ret (ms u) ∧ (ms u).calls = (ms t).calls ∧ (ms u).ip = (ms t).ip + 1 ∧
        ∀ s inner, t < s → s < u → (ms s).Executes (.call inner) (ms (s + 1)) →
          ∃ v < u, Returns ms s v := by
  refine ⟨fun u htu hu hopen => h.frame_suffix hcall htu hu hopen, fun u hu hreturns => ?_⟩
  obtain ⟨hret, hcalls, hip⟩ := h.restored hcall hu hreturns
  exact ⟨hret, hcalls, hip, fun s inner hts hsu hinner => h.nested hcall hinner hts hsu hu hreturns⟩

/-- Two blocks, in the first of which all clients use a potion. The second one calls the first one,
and is called itself. -/
def twoBlocks : Program :=
  ⟨[.jump 7, .label "b", .act .all .usePotion, .ret, .label "a", .call "b", .ret, .call "a"]⟩

/-- What comes of the two blocks, step by step. -/
def twoBlocksAfter : Nat → World Rehearsal 2 × Machine
  | 0 => (twoClients, (idle.load twoBlocks).start)
  | t + 1 =>
    let (w, m) := twoBlocksAfter t
    (m.step pair 100 ⟨none, none⟩ 20 w).2

/-- The machines that come of the two blocks. -/
def twoBlocksAt (t : Nat) : Machine := (twoBlocksAfter t).2

theorem twoBlocks_return :
    History 8 twoBlocksAt ∧ (twoBlocksAt 1).ip = 7 ∧ (twoBlocksAt 3).ip = 5 ∧
      (twoBlocksAfter 6).1.history.map (Event.render pair) =
        ["0 p1 usepotion >", "0 p2 usepotion >", "10 p1 usepotion =", "100 p2 usepotion ="] ∧
      8 :: [] <:+ (twoBlocksAt 6).calls ∧ Returns twoBlocksAt 1 8 ∧ (twoBlocksAt 8).calls = [] ∧
      (twoBlocksAt 8).ip = 8 ∧ ∃ v < 8, Returns twoBlocksAt 3 v := by
  have hhistory : History 8 twoBlocksAt :=
    fun t _ => .step pair 100 ⟨none, none⟩ 20 (twoBlocksAfter t).1
  have hcall : ∀ t name, (twoBlocksAt t).running = true →
      (twoBlocksAt t).instruction? = some (.call name) →
      ((twoBlocksAt t).step pair 100 ⟨none, none⟩ 20 (twoBlocksAfter t).1).1.isDone = true →
      (twoBlocksAt t).Executes (.call name) (twoBlocksAt (t + 1)) :=
    fun t name hrunning hi hr => .intro hrunning hi rfl hr
  have houter := hcall 1 "a" rfl rfl rfl
  have hreturns : Returns twoBlocksAt 1 8 := ⟨by decide, by decide, by decide⟩
  obtain ⟨hopen, hback⟩ := calls_return hhistory houter
  obtain ⟨-, hcalls, hip, hnested⟩ := hback 8 le_rfl hreturns
  refine ⟨hhistory, rfl, rfl, rfl, hopen 6 (by decide) (by decide) ?_, hreturns, hcalls, hip,
    hnested 3 "b" (by decide) (by decide) (hcall 3 "b" rfl rfl rfl)⟩
  intro v hv hearly
  have := hreturns.2.2 v (by omega) hearly.1
  have := hearly.2.1
  omega

end BotScript.Machine
