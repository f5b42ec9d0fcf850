import BotScript.Proofs.Activity.Endings
import BotScript.Proofs.Machine.Tally
import BotScript.Proofs.Program.Blocks

/-!
# Scripts without loops and recursion

A run of a script without loops, in which no call stands in the block that it resolves to, is over
after a number of instructions that the length of its code tells beforehand. What is left of such a
run is measured by where the machine is and where it will return to. An instruction that leads
forward leaves less to do behind it. A call leads back, to a block that ends before the call, and
the code of the block is worth less than the call alone.

So with clients that answer every call, the run comes to its end, unless it gets stuck in an
instruction that goes on for ever. Only waits can do that, and teleports to a friend, if somebody
else has claimed the input focus.

## Main definitions

* `Machine.Hangs`: the next instruction of a machine never comes to its end.
* `Nested`: the places to return to lie behind the blocks that were called from there.
* `potential`: a bound for the instructions that are still to be carried out.

## Main results

* `Machine.plan_brief`, `Machine.Hangs.exists_instruction`: which instructions come to their end.
* `Machine.Descends.step`: each instruction that is carried out lowers the potential.
* `Machine.run_without_loops_ends`: the run of a script without loops and recursion.
-/

namespace BotScript

open Activity World Machine Cast

variable {σ : Type} {n : Nat}

/-! ### Instructions that come to an end -/

/-- Whether an instruction is a wait. -/
def Instruction.isWait : Instruction → Bool
  | .act _ (.waitFor _) => true
  | _ => false

/-- Whether an instruction waits for the input focus. -/
def Instruction.takesFocus : Instruction → Bool
  | .act _ (.teleport .friendIcon) | .act _ (.teleport (.friendName _)) => true
  | _ => false

section Brief

variable {queues : Prop}

theorem questChain_within : questChain.Within queues 5 := .call fun _ => .call fun _ => .done

theorem friendChain_within (f : Friend) (h : queues) : (friendChain f).Within queues 5 :=
  .focus h (.call fun _ => .done)

theorem windowChain_within (path : List String) : (windowChain path).Within queues 3 := by
  refine .call fun text => ?_
  cases text with
  | some text => exact .done
  | none => exact .fail

theorem eachRun_brief {κ : AnswerKind} {chain : Chain κ} {k : Nat} (h : chain.Within queues k)
    {clients : List (Fin n)} (hdistinct : clients.Nodup) :
    (eachRun chain clients).Brief queues := by
  refine .gather ?_ (fun c hc => ?_) .done
  · simpa [Function.comp_def] using hdistinct
  · obtain ⟨i, -, rfl⟩ := List.mem_map.1 hc
    exact ⟨k, h⟩

namespace Machine

/-- All instructions but waits come to their end, if the clients answer and the focus is free. -/
theorem plan_brief (crew : Crew n) (every : Nat) (m : Machine) {i : Instruction}
    (hi : i.isWait = false) :
    (m.plan crew every i).Brief (i.takesFocus = true) := by
  cases i with
  | sleep duration =>
    rcases duration.evalNumber_cases crew m.vars "sleep" with ⟨seconds, hseconds⟩ | hfutile
    · have hrest : (duration.rest crew m.vars).Brief
          ((Instruction.sleep duration).takesFocus = true) := by
        simp only [Expr.rest, hseconds, bind_eq, Activity.bind]
        exact (asks_lift _).brief.bind fun d => .pause (.done _)
      exact hrest.bind fun _ => .done _
    · exact ((hfutile.bind _).1.brief : (duration.rest crew m.vars).Brief _).bind fun _ => .done _
  | logWindow who path =>
    rw [plan_logWindow]
    exact ((eachRun_brief (windowChain_within path) (who.pick_nodup n)).bind fun _ =>
      .done _).bind fun _ => .done _
  | act who a =>
    refine Brief.bind ?_ fun _ => .done _
    change (a.perform crew every m.vars (who.pick n)).Brief _
    -- Actions that are started for all clients together are a call for each of them.
    -- The others are chains.
    by_cases hstarted : a.isStarted = true
    · rcases a.perform_cases crew every m.vars (who.pick n) hstarted with
        ⟨c, -, hperform⟩ | ⟨-, hperform⟩ | hfutile
      · rw [hperform, allDo_eq]
        exact .launchAll (.done ())
      · have hnobody : joined = launchAll .relog (.done ()) ([] : List (Fin n)) := rfl
        rw [hperform, hnobody]
        exact .launchAll (.done ())
      · exact hfutile.1.brief
    · cases a with
      | teleport goal =>
        cases goal with
        | quest => exact (eachRun_brief questChain_within (who.pick_nodup n)).bind fun _ => .done _
        | friendIcon | friendName =>
          exact (eachRun_brief (friendChain_within _ rfl) (who.pick_nodup n)).bind fun _ => .done _
        | position | entity | entityLike | mob => exact absurd rfl hstarted
      | waitFor wait => cases hi
      | sendKey | click | goTo | usePotion | buyPotions | relog | toZone =>
        exact absurd rfl hstarted
  | loadPlaystyle who text =>
    refine Brief.bind ?_ fun _ => .done _
    rw [allDo_eq]
    exact .launchAll (.done ())
  | _ => exact (m.plan_inquires crew every rfl).1.brief

end Machine

end Brief

/-- Without an alarm, nothing stops an activity from outside. -/
theorem Running.halt_cases {α : Type} [ClientModel σ] {crew : Crew n} {w : World σ n}
    {r : Running n α} {o : Outcome σ n α} (h : r.tick crew ⟨none, none⟩ w = .halt o) :
    (∃ u result, o = .ended u result) ∨ ∃ u, o = .never u := by
  rw [tick_eq] at h
  cases hadv : r.advance crew w with
  | moved w' r' =>
    rw [hadv] at h
    cases h
  | ended u result =>
    rw [hadv] at h
    cases h
    exact .inl ⟨u, result, rfl⟩
  | waits till =>
    rw [hadv] at h
    cases till with
    | none =>
      cases h
      exact .inr ⟨w, rfl⟩
    | some t => cases h

namespace Machine

variable [ClientModel σ] {crew : Crew n} {every : Nat} {expire : Option Nat} {fuel k : Nat}
  {w w₁ w' : World σ n} {m m₁ m' : Machine} {r : StepResult}

omit [ClientModel σ] in
theorem isDone_conclude (m : Machine) (u : World σ n) (effect : Effect) :
    (m.conclude (.ended u (.ok effect))).1.isDone = true := by
  dsimp only [conclude]
  split <;> rfl

/-- The next instruction of a machine does not come to an end, however long it is followed. -/
def Hangs (crew : Crew n) (every : Nat) (w : World σ n) (m : Machine) : Prop :=
  ∀ fuel, (m.step crew every ⟨none, none⟩ fuel w).1 = .outOfFuel ∨
    (m.step crew every ⟨none, none⟩ fuel w).1 = .never

/-- An instruction comes to a good end, or to a fault, or to no end at all. -/
theorem step_ends_or_hangs (crew : Crew n) (every : Nat) (w : World σ n) (m : Machine) :
    (∃ fuel r w₁ m₁, m.step crew every ⟨none, none⟩ fuel w = (r, w₁, m₁) ∧ r.isDone = true) ∨
      (∃ fuel f w₁, m.step crew every ⟨none, none⟩ fuel w = (.failed f, w₁, m)) ∨
      m.Hangs crew every w := by
  -- Where no fuel leads to a good end or a fault, every fuel leads to neither.
  by_contra hnone
  rw [not_or, not_or] at hnone
  obtain ⟨hdone, hfailed, hhangs⟩ := hnone
  refine hhangs fun fuel => ?_
  rcases step_cases crew every ⟨none, none⟩ w m with ⟨i, hstep⟩ | ⟨m', hstep⟩
  · obtain ⟨w', r', -, hend⟩ :=
      Running.exists_comes_timed crew ⟨none, none⟩ fuel w (.ofActivity (m.plan crew every i))
    rw [← Activity.run] at hend
    rcases hend with hfuel | hhalt
    · rw [hstep, hfuel]
      exact .inl rfl
    · rcases Running.halt_cases hhalt with ⟨u, result, hended⟩ | ⟨u, hnever⟩
      · have hconclude := (hstep fuel).trans (congrArg m.conclude hended)
        cases result with
        | ok effect => exact absurd ⟨fuel, _, _, _, hconclude, isDone_conclude m u effect⟩ hdone
        | error f => exact absurd ⟨fuel, f, u, hconclude⟩ hfailed
      · rw [hstep, hnever]
        exact .inr rfl
  · exact absurd ⟨fuel, _, _, _, hstep fuel, rfl⟩ hdone

/-- With clients that answer, an instruction that hangs is a wait, or it wants the focus and
somebody has claimed it. -/
theorem Hangs.exists_instruction (h : m.Hangs crew every w) (hrunning : m.running = true)
    (hw : w.Responsive) :
    ∃ i, m.instruction? = some i ∧ (i.isWait = true ∨ i.takesFocus = true ∧ w.claims ≠ []) := by
  cases hi : m.instruction? with
  | none =>
    have hend := h 0
    rw [step_of_end hrunning hi] at hend
    rcases hend with hend | hend <;> cases hend
  | some i =>
    refine ⟨i, rfl, ?_⟩
    -- Any other instruction comes to its end with some fuel.
    by_contra hbrief
    rw [not_or, Bool.not_eq_true, not_and, not_not] at hbrief
    obtain ⟨w', r', u, result, hcomes, hhalt⟩ :=
      (m.plan_brief crew every hbrief.1).halts crew hw hbrief.2
    obtain ⟨fuel, hstep⟩ := exists_step_of_halt hrunning hi hcomes hhalt
    have hend := h fuel
    rw [hstep] at hend
    cases result with
    | ok effect =>
      have hdone := isDone_conclude m u effect
      rcases hend with hend | hend <;> rw [hend] at hdone <;> cases hdone
    | error f => rcases hend with hend | hend <;> cases hend

/-- A complete step leaves clients that answer, and no more claims than there were. -/
theorem step_world (hrunning : m.running = true)
    (hstep : m.step crew every ⟨none, expire⟩ fuel w = (r, w₁, m₁)) (hr : r.isDone = true) :
    (w.Responsive → w₁.Responsive) ∧ w₁.claims ⊆ w.claims := by
  cases hi : m.instruction? with
  | none =>
    rw [step_of_end hrunning hi] at hstep
    cases hstep
    exact ⟨id, List.Subset.refl _⟩
  | some i =>
    obtain ⟨u, effect, hrun, rfl, -⟩ := run_of_isDone hrunning hi hstep hr
    have hdealt := Running.run_dealt crew ⟨none, expire⟩ fuel w (.ofActivity (m.plan crew every i))
    rw [← Activity.run, hrun] at hdealt
    constructor
    · intro hw j
      rw [log_clients]
      exact hdealt.responsive hw j
    · rw [log_claims]
      exact claims_of_run_ended hrun

theorem Steps.world (h : Steps crew every expire k w m w' m') :
    (w.Responsive → w'.Responsive) ∧ w'.claims ⊆ w.claims := by
  induction h with
  | refl w m => exact ⟨id, List.Subset.refl _⟩
  | next hrunning hstep hr _ ih =>
    obtain ⟨hresponsive, hclaims⟩ := step_world hrunning hstep hr
    exact ⟨fun hw => ih.1 (hresponsive hw), List.Subset.trans ih.2 hclaims⟩

/-- A run that has come to an instruction that hangs has no end. -/
theorem Steps.runOn_of_hangs (h : Steps crew every none k w m w' m') (hrunning : m'.running = true)
    (hhangs : m'.Hangs crew every w') (fuel : Nat) :
    (m.runOn crew every none fuel w).1 = .outOfFuel ∨
      (m.runOn crew every none fuel w).1 = .never := by
  induction fuel generalizing k w m with
  | zero => exact .inl rfl
  | succ fuel ih =>
    cases h with
    | refl =>
      rcases hstep : m'.step crew every ⟨none, none⟩ fuel w' with ⟨r, w₁, m₁⟩
      have hend := hhangs fuel
      rw [hstep] at hend
      rcases hend with rfl | rfl
      · rw [runOn_of_not_isDone hrunning hstep rfl]
        exact .inl rfl
      · rw [runOn_of_not_isDone hrunning hstep rfl]
        exact .inr rfl
    | @next k need r _ w₁ _ _ m₁ _ hfirst hstep hr hrest =>
      -- The first step is carried out, unless the fuel does not last for it.
      rcases hstep' : m.step crew every ⟨none, none⟩ fuel w with ⟨r', w₂, m₂⟩
      by_cases hfuel : r' = .outOfFuel
      · subst hfuel
        rw [runOn_of_not_isDone hfirst hstep' rfl]
        exact .inl rfl
      · cases step_unique hstep (StepResult.ne_outOfFuel hr) hstep' hfuel
        rw [runOn_of_isDone hfirst hstep' hr]
        exact ih hrest

end Machine

/-! ### What is left of a run -/

section Potential

variable {blocks : List Extent} {length place target back : Nat} {calls : List Nat}

/-- The machine is in a block that ends before the call it will return behind, and so on for the
places to return to, up to the script itself. -/
def Nested (blocks : List Extent) (length : Nat) : Nat → List Nat → Prop
  | place, [] => place ≤ length
  | place, back :: rest =>
    (∃ b ∈ blocks, b.entry ≤ place ∧ place ≤ b.exit ∧ b.exit + 1 < back) ∧
      Nested blocks length back rest

/-- What all places lie below that the machine can get to before it returns. -/
def ceiling (length : Nat) : List Nat → Nat
  | [] => length + 1
  | back :: _ => back - 1

/-- More than the number of instructions that can be carried out from a place on, and then from the
places to return to. A place counts for as much as all places before it together, and one more: what
is called there stands among these. -/
def potential (length : Nat) : Nat → List Nat → Nat
  | place, [] => 2 ^ (length + 1) - 2 ^ place
  | place, back :: rest => 2 ^ (back - 1) - 2 ^ place + potential length back rest

theorem Nested.lt_ceiling (h : Nested blocks length place calls) :
    place < ceiling length calls := by
  cases calls with
  | nil => exact Nat.lt_succ_of_le h
  | cons back rest =>
    obtain ⟨⟨b, -, -, hexit, hback⟩, -⟩ := h
    rw [ceiling]
    omega

/-- What is left before the next return is counted up to the ceiling, and what is left after it does
not depend on the place. -/
theorem exists_potential_eq (length : Nat) (calls : List Nat) :
    ∃ later, ∀ place,
      potential length place calls = 2 ^ ceiling length calls - 2 ^ place + later := by
  cases calls with
  | nil => exact ⟨0, fun _ => rfl⟩
  | cons back rest => exact ⟨potential length back rest, fun _ => rfl⟩

/-- What is left at a place is at least what the place counts for, more than at any
place behind it. -/
theorem potential_forward (hlt : place < target) (htop : target < ceiling length calls) :
    potential length target calls + 2 ^ place ≤ potential length place calls := by
  have hdouble : 2 * 2 ^ place ≤ 2 ^ target := by
    rw [← Nat.pow_succ']
    exact Nat.pow_le_pow_right Nat.two_pos hlt
  have hbelow : 2 ^ target ≤ 2 ^ ceiling length calls :=
    Nat.pow_le_pow_right Nat.two_pos (Nat.le_of_lt htop)
  obtain ⟨later, hpotential⟩ := exists_potential_eq length calls
  rw [hpotential target, hpotential place]
  omega

theorem potential_pos (h : place < ceiling length calls) : 0 < potential length place calls := by
  have hbelow : 2 ^ place < 2 ^ ceiling length calls := Nat.pow_lt_pow_right Nat.one_lt_two h
  obtain ⟨later, hpotential⟩ := exists_potential_eq length calls
  rw [hpotential place]
  omega

/-- A return leaves less to do. -/
theorem potential_back (h : place < ceiling length (back :: calls)) :
    potential length back calls < potential length place (back :: calls) := by
  have hbelow : 2 ^ place < 2 ^ (back - 1) := Nat.pow_lt_pow_right Nat.one_lt_two h
  rw [potential]
  omega

/-- A call of what stands before it leaves less to do. -/
theorem potential_call (hlt : target < place) (htop : place + 1 < ceiling length calls) :
    potential length target ((place + 1) :: calls) < potential length place calls := by
  -- The call alone counts for as much as everything before it, and one more.
  have hstep := potential_forward (Nat.lt_add_one place) htop
  have hcost : 0 < 2 ^ target := Nat.two_pow_pos target
  have hbelow : 2 ^ target < 2 ^ place := Nat.pow_lt_pow_right Nat.one_lt_two hlt
  rw [potential, Nat.add_sub_cancel]
  omega

end Potential

namespace Machine

variable {blocks : List Extent} {p : Program} {m m' : Machine} {i : Instruction}

/-- A machine with a program in whose blocks it is, to return to behind their calls, and
which is in no loop. -/
structure Descends (blocks : List Extent) (p : Program) (m : Machine) : Prop where
  program : m.program = p
  guards : m.guards = []
  nested : Nested blocks p.length m.ip m.calls

/-- A machine that has less left to do than before. -/
structure Falls (blocks : List Extent) (p : Program) (m m' : Machine) :
    Prop extends m'.Descends blocks p where
  running : m'.running = m.running
  less : potential p.length m'.ip m'.calls < potential p.length m.ip m.calls

theorem descends_load (blocks : List Extent) (p : Program) (m : Machine) :
    (m.load p).start.Descends blocks p :=
  ⟨rfl, rfl, Nat.zero_le p.length⟩

theorem Descends.settle (h : m.Descends blocks p) : m.settle.Descends blocks p := by
  unfold Machine.settle
  split
  · exact ⟨h.program, h.guards, h.nested⟩
  · exact h

theorem Descends.getElem?_ip (h : m.Descends blocks p) (hi : m.instruction? = some i) :
    p.code[m.ip]? = some i := by
  rw [← h.program, ← hi, instruction?]

/-- A machine that goes forward has less left to do. It has not left the block it is in, as that
ends with a return. -/
theorem Descends.forward (hp : p.Straight blocks) (h : m.Descends blocks p)
    (hi : m.instruction? = some i) (hret : i ≠ .ret) {place : Nat} (hlt : m.ip < place)
    (hle : place ≤ p.length)
    (hstays : ∀ b ∈ blocks, b.entry ≤ m.ip → m.ip < b.exit → place ≤ b.exit) :
    m.Falls blocks p (m.goTo place) := by
  have hnested : Nested blocks p.length place m.calls := by
    have hbefore := h.nested
    cases hcalls : m.calls with
    | nil => exact hle
    | cons back rest =>
      rw [hcalls] at hbefore
      obtain ⟨⟨b, hb, hentry, hexit, hback⟩, hrest⟩ := hbefore
      -- At the end of the block there is its return, which is not what is carried out.
      have hne : m.ip ≠ b.exit := by
        intro hsame
        have hcode := h.getElem?_ip hi
        rw [hsame, (hp.holds b hb).ret, Option.some_inj] at hcode
        exact hret hcode.symm
      exact ⟨⟨b, hb, by omega, hstays b hb hentry (Nat.lt_of_le_of_ne hexit hne), hback⟩, hrest⟩
  have hless := potential_forward hlt hnested.lt_ceiling
  have hcost : 0 < 2 ^ m.ip := Nat.two_pow_pos m.ip
  exact ⟨⟨h.program, h.guards, hnested⟩, rfl,
    Nat.lt_of_lt_of_le (Nat.lt_add_of_pos_right hcost) hless⟩

theorem Descends.next (hp : p.Straight blocks) (h : m.Descends blocks p)
    (hi : m.instruction? = some i) (hret : i ≠ .ret) : m.Falls blocks p m.next :=
  h.forward hp hi hret (Nat.lt_add_one m.ip) (List.getElem?_eq_some_iff.1 (h.getElem?_ip hi)).1
    fun _ _ _ hlt => hlt

theorem Descends.jump (hp : p.Straight blocks) (h : m.Descends blocks p)
    (hi : m.instruction? = some i) {offset : Int64} (hoffset : i.offset? = some offset)
    {place : Nat} (htarget : m.target offset = .ok place) :
    m.Falls blocks p (m.goTo place) := by
  have hcode := h.getElem?_ip hi
  have hplace := Program.jumpTarget?_eq_some (target_ok htarget)
  rw [h.program] at hplace
  have hpositive := (hp.onward i (List.mem_of_getElem? hcode)).2 offset hoffset
  have hret : i ≠ .ret := by
    rintro rfl
    cases hoffset
  refine h.forward hp hi hret (by omega) hplace.2 fun b hb hentry hexit => ?_
  have hconfined := (hp.holds b hb).confined hcode hentry hexit hoffset
  omega

/-- A call leads to a block that ends before it. -/
theorem Descends.call (hp : p.Straight blocks) (h : m.Descends blocks p) {name : String}
    (hi : m.instruction? = some (.call name)) {place : Nat}
    (hlabel : m.program.labelBefore? m.ip name = some place) :
    m.Falls blocks p { m with calls := (m.ip + 1) :: m.calls, ip := place } := by
  have hnested : Nested blocks p.length (m.ip + 1) m.calls := (h.next hp hi nofun).nested
  rw [h.program] at hlabel
  obtain ⟨b, hb, rfl, hexit⟩ := hp.calls m.ip name place (h.getElem?_ip hi) hlabel
  have hentry := (hp.holds b hb).entry_lt_exit
  have hinside : ∃ b' ∈ blocks, b'.entry ≤ b.entry ∧ b.entry ≤ b'.exit ∧ b'.exit + 1 < m.ip + 1 :=
    ⟨b, hb, Nat.le_refl _, Nat.le_of_lt hentry, Nat.succ_lt_succ hexit⟩
  refine ⟨⟨h.program, h.guards, hinside, hnested⟩, rfl, ?_⟩
  exact potential_call (hentry.trans hexit) hnested.lt_ceiling

/-- In a straight program, each instruction but a kill leaves less to do. -/
theorem Descends.moves (hp : p.Straight blocks) (h : m.Descends blocks p)
    (hi : m.instruction? = some i) (hmoves : m.Moves i m') :
    i = .kill ∧ m' = m.kill ∨ m.Falls blocks p m' := by
  cases hmoves with
  | kill => exact .inl ⟨rfl, rfl⟩
  | plain hplain =>
    refine .inr (h.next hp hi ?_)
    rintro rfl
    cases hplain
  -- Guards belong to loops, and there are none.
  | leave hg => cases h.guards.symm.trans hg
  | jump htarget | jumpIf htarget | jumpIfNot htarget => exact .inr (h.jump hp hi rfl htarget)
  | stayIf | stayIfNot => exact .inr (h.next hp hi nofun)
  | assign | decrement =>
    obtain ⟨⟨hprogram, hguards, hnested⟩, hrunning, hless⟩ := h.next hp hi nofun
    exact .inr ⟨⟨hprogram, hguards, hnested⟩, hrunning, hless⟩
  | enterUntil => exact absurd rfl ((hp.onward _ (List.mem_of_getElem? (h.getElem?_ip hi))).1 _ _)
  | call hlabel => exact .inr (h.call hp hi hlabel)
  | ret hcalls =>
    have hnested := h.nested
    rw [hcalls] at hnested
    refine .inr ⟨⟨h.program, h.guards, hnested.2⟩, rfl, ?_⟩
    rw [hcalls]
    exact potential_back hnested.lt_ceiling

/-! ### Runs of straight programs -/

/-- What is left to do for a machine, which is nothing if it does not run. -/
def left (m : Machine) : Nat := if m.running then potential m.program.length m.ip m.calls else 0

/-- The run of a machine is over in the regular way: it is behind its program, or has
carried out a kill. -/
def IsOver (m : Machine) : Prop :=
  m.running = false ∧ (m.program.length ≤ m.ip ∨ m.killed = true ∧ m.instruction? = some .kill)

variable [ClientModel σ] {crew : Crew n} {every : Nat} {expire : Option Nat} {fuel k : Nat}
  {w w₁ w' : World σ n} {m₁ : Machine} {r : StepResult}

/-- Each complete step leaves less to do, and the machine runs on unless its run is over. -/
theorem Descends.step (hp : p.Straight blocks) (h : m.Descends blocks p)
    (hrunning : m.running = true) (hstep : m.step crew every ⟨none, expire⟩ fuel w = (r, w₁, m₁))
    (hr : r.isDone = true) :
    m₁.Descends blocks p ∧ m₁.left < m.left ∧ (m₁.running = true ∨ m₁.IsOver) := by
  have hleft : m.left = potential p.length m.ip m.calls := by rw [left, if_pos hrunning, h.program]
  have hpositive : 0 < m.left := hleft ▸ potential_pos h.nested.lt_ceiling
  cases hi : m.instruction? with
  | none =>
    rw [step_of_end hrunning hi] at hstep
    cases hstep
    exact ⟨⟨h.program, h.guards, h.nested⟩, hpositive,
      .inr ⟨rfl, .inl (List.getElem?_eq_none_iff.1 hi)⟩⟩
  | some i =>
    obtain ⟨m', hmoves, rfl⟩ := moves_of_isDone hrunning hi hstep hr
    rcases h.moves hp hi hmoves with ⟨rfl, rfl⟩ | hfalls
    · have hlength : ¬ m.kill.program.length ≤ m.kill.ip := by
        rw [Nat.not_le]
        exact (List.getElem?_eq_some_iff.1 hi).1
      rw [Machine.settle, if_neg hlength]
      exact ⟨⟨h.program, h.guards, h.nested⟩, hpositive, .inr ⟨rfl, .inr ⟨rfl, hi⟩⟩⟩
    · refine ⟨hfalls.toDescends.settle, ?_⟩
      unfold Machine.settle
      split
      · rename_i hbehind
        exact ⟨hpositive, .inr ⟨rfl, .inl hbehind⟩⟩
      · have hgoes := hfalls.running.trans hrunning
        rw [hleft, left, if_pos hgoes, hfalls.program]
        exact ⟨hfalls.less, .inl hgoes⟩

/-- What is left to do bounds the number of complete steps. -/
theorem Steps.le_left (hp : p.Straight blocks) (h : Steps crew every expire k w m w' m')
    (hm : m.Descends blocks p) : m'.Descends blocks p ∧ k + m'.left ≤ m.left := by
  induction h with
  | refl w m => exact ⟨hm, Nat.le_of_eq (Nat.zero_add _)⟩
  | next hrunning hstep hr _ ih =>
    obtain ⟨hm₁, hless, -⟩ := hm.step hp hrunning hstep hr
    obtain ⟨hm', hle⟩ := ih hm₁
    exact ⟨hm', by omega⟩

/-- A run of a straight program is some complete steps, after which it is over, or an instruction
fails or hangs. -/
theorem Descends.exists_steps (hp : p.Straight blocks) (h : m.Descends blocks p)
    (hrunning : m.running = true) (crew : Crew n) (every : Nat) (w : World σ n) :
    ∃ k w' m', Steps crew every none k w m w' m' ∧ (m'.IsOver ∨ m'.running = true ∧
      ((∃ fuel f w₁, m'.step crew every ⟨none, none⟩ fuel w' = (.failed f, w₁, m')) ∨
        m'.Hangs crew every w')) := by
  generalize hleft : m.left = left
  induction left using Nat.strongRecOn generalizing w m with
  | ind left ih =>
    rcases step_ends_or_hangs crew every w m with ⟨fuel, r, w₁, m₁, hstep, hr⟩ | hstuck
    · obtain ⟨hm₁, hless, hgoes | hover⟩ := h.step hp hrunning hstep hr
      · obtain ⟨k, w', m', hsteps, hend⟩ := ih m₁.left (hleft ▸ hless) hm₁ hgoes w₁ rfl
        exact ⟨k + 1, w', m', .next hrunning hstep hr hsteps, hend⟩
      · exact ⟨1, w₁, m₁, .next hrunning hstep hr (.refl w₁ m₁), .inl hover⟩
    · exact ⟨0, w, m, .refl w m, .inr ⟨hrunning, hstuck⟩⟩

/-- A run comes to an end in which its result, the world and the machine no longer
depend on the fuel. -/
def EndsWith (crew : Crew n) (every : Nat) (w : World σ n) (m : Machine) (result : RunResult)
    (w' : World σ n) (m' : Machine) : Prop :=
  ∃ enough, ∀ fuel ≥ enough, m.run crew every none fuel w = (result, w', m')

theorem Steps.endsWith_done (h : Steps crew every none k w m.start w' m')
    (hrunning : m'.running = false) :
    m.EndsWith crew every w .done w' m' := by
  obtain ⟨enough, hrun⟩ := h.runOn_add
  refine ⟨enough + 1 + k, fun fuel hfuel => ?_⟩
  obtain ⟨more, rfl⟩ := Nat.exists_eq_add_of_le hfuel
  have hsplit : enough + 1 + k + more = enough + more + 1 + k := by omega
  rw [run, hsplit, hrun _ (by omega), runOn_of_not_running hrunning]

theorem Steps.endsWith_failed (h : Steps crew every none k w m.start w' m')
    (hrunning : m'.running = true) {f : Fault}
    (hstep : m'.step crew every ⟨none, none⟩ fuel w' = (.failed f, w₁, m')) :
    m.EndsWith crew every w (.failed f) w₁ m'.stop := by
  obtain ⟨enough, hrun⟩ := h.runOn_add
  refine ⟨enough + fuel + 1 + k, fun more hmore => ?_⟩
  obtain ⟨extra, rfl⟩ := Nat.exists_eq_add_of_le hmore
  have hsplit : enough + fuel + 1 + k + extra = enough + fuel + extra + 1 + k := by omega
  have hlast := step_eq_of_le (show fuel ≤ enough + fuel + extra by omega) hstep nofun
  rw [run, hsplit, hrun _ (by omega), runOn_of_not_isDone hrunning hlast rfl]
  rfl

/-- A run of a script without loops, in which no call stands in the block it resolves to, carries
out fewer instructions than a power of two with one more than the length of its code. With clients
that answer every call, it is over at the end of the code or at a kill, or an instruction fails; or
it comes to an instruction that hangs, which is a wait, or a teleport to a friend when somebody had
claimed the input focus beforehand. -/
theorem run_without_loops_ends {s : Script} (hcompile : s.compile = .ok p) (hloop : ¬ s.HasLoop)
    (hself : ¬ s.CallsItself) (crew : Crew n) (every : Nat) (w : World σ n) (m : Machine) :
    (∀ expire k w' m', Steps crew every expire k w (m.load p).start w' m' →
      k < 2 ^ (p.length + 1)) ∧
    (w.Responsive →
      (∃ w' m', (m.load p).EndsWith crew every w .done w' m' ∧ m'.program = p ∧ m'.IsOver) ∨
      (∃ f w' m', (m.load p).EndsWith crew every w (.failed f) w' m' ∧ m'.running = false) ∨
      ∃ k w' m' i, Steps crew every none k w (m.load p).start w' m' ∧ m'.program = p ∧
      m'.instruction? = some i ∧
        m'.Hangs crew every w' ∧ (i.isWait = true ∨ i.takesFocus = true ∧ w.claims ≠ [])) := by
  have hp := Script.straight hcompile hloop hself
  have hm := descends_load s.blocks p m
  constructor
  · intro expire k w' m' hsteps
    have hle := (hsteps.le_left hp hm).2
    have hstart : (m.load p).start.left = 2 ^ (p.length + 1) - 1 := rfl
    have hpower : 0 < 2 ^ (p.length + 1) := Nat.two_pow_pos _
    omega
  · intro hw
    obtain ⟨k, w', m', hsteps, hend⟩ := hm.exists_steps hp rfl crew every w
    have hprogram := (hsteps.le_left hp hm).1.program
    rcases hend with hover | ⟨hrunning, ⟨fuel, f, w₁, hfailed⟩ | hhangs⟩
    · exact .inl ⟨w', m', hsteps.endsWith_done hover.1, hprogram, hover⟩
    · exact .inr (.inl ⟨f, w₁, m'.stop, hsteps.endsWith_failed hrunning hfailed, rfl⟩)
    · obtain ⟨hresponsive, hclaims⟩ := hsteps.world
      obtain ⟨i, hi, hwhy⟩ := hhangs.exists_instruction hrunning (hresponsive hw)
      refine .inr (.inr ⟨k, w', m', i, hsteps, hprogram, hi, hhangs, hwhy.imp_right ?_⟩)
      rintro ⟨hfocus, hclaimed⟩
      exact ⟨hfocus, fun hfree => hclaimed (List.subset_nil.1 (hfree ▸ hclaims))⟩

/-- Clients for rehearsals answer every call. -/
theorem rehearsal_responsive (w : World Rehearsal n) : w.Responsive := by
  refine fun i => ⟨fun _ => True, trivial, fun s _ t κ c => ⟨?_, trivial⟩⟩
  cases s with
  | scripted s => exact nofun
  | dryRun s =>
    cases c with
    | sendKey key seconds =>
      -- The only call that takes its time, or is refused for the time it would take.
      change (DryRun.hold seconds).delay ≠ none
      unfold DryRun.hold
      split <;> exact nofun
    | _ => exact nofun

/-- Two blocks, one of which calls the other one twice, and is called on both sides of a branch. -/
def errands : Script :=
  [.block "drink" [.command ⟨.all, .act .usePotion⟩],
    .block "visit" [.call "drink", .command ⟨.all, .act (.teleport .friendIcon)⟩, .call "drink"],
    .branch (.ask .all .inBattle) [.call "visit", .command ⟨.all, .kill⟩] [.list [.call "visit"]]]

/-- The code of the two blocks and the branch. -/
def errandsProgram : Program :=
  ⟨[.jump 4, .label "drink", .act .all .usePotion, .ret, .nop,
    .jump 8, .label "visit", .call "drink", .nop, .act .all (.teleport .friendIcon), .call "drink",
    .nop, .ret, .nop,
    .jumpIf (.ask .all .inBattle) 4, .call "visit", .nop, .jump 4, .call "visit", .nop, .kill,
    .nop]⟩

/-- The errands come to an end, as nobody else has claimed the input focus. -/
theorem errands_end :
    errands.compile = .ok errandsProgram ∧ ¬ errands.HasLoop ∧ ¬ errands.CallsItself ∧
      twoClients.Responsive ∧
      (∀ expire k w' m', Steps pair 100 expire k twoClients (idle.load errandsProgram).start w' m' →
        k < 2 ^ 23) ∧
      ((∃ w' m', (idle.load errandsProgram).EndsWith pair 100 twoClients .done w' m' ∧ m'.IsOver) ∨
        ∃ f w' m', (idle.load errandsProgram).EndsWith pair 100 twoClients (.failed f) w' m') := by
  have hcompile : errands.compile = .ok errandsProgram := rfl
  have hloop : ¬ errands.HasLoop := by decide
  have hself : ¬ errands.CallsItself := by decide
  have hresponsive : twoClients.Responsive := rehearsal_responsive twoClients
  have hwaits : ∀ i ∈ errandsProgram.code, i.isWait = false := by
    simp [errandsProgram, Instruction.isWait]
  obtain ⟨hbound, hends⟩ := run_without_loops_ends hcompile hloop hself pair 100 twoClients idle
  refine ⟨hcompile, hloop, hself, hresponsive, hbound, ?_⟩
  rcases hends hresponsive with ⟨w', m', hdone, -, hover⟩ | ⟨f, w', m', hfailed, -⟩ |
    ⟨k, w', m', i, -, hprogram, hi, -, hwait | ⟨-, hclaims⟩⟩
  · exact .inl ⟨w', m', hdone, hover⟩
  · exact .inr ⟨f, w', m', hfailed⟩
  · rw [instruction?, hprogram] at hi
    rw [hwaits i (List.mem_of_getElem? hi)] at hwait
    cases hwait
  · exact absurd rfl hclaims

/-- A wait hangs if one of the clients never gives the answers that it waits for. -/
theorem wait_hangs {who : Selector} {wait : Wait} {c : Call .truth} (hrunning : m.running = true)
    (hi : m.instruction? = some (.act who (.waitFor wait))) (hc : wait.kind.question? = some c)
    (s : Fin n → Stream)
    (hgiven : ∀ i ∈ who.pick n, (s i).Given wait.completion every w.now c (w.clients.get i))
    (hnever : ∃ i ∈ who.pick n, ∀ k, ¬ (s i).Ends wait.completion k) : m.Hangs crew every w := by
  obtain ⟨j, hj, hnever⟩ := hnever
  obtain ⟨state, hbegin⟩ := begin_waitFor who every w hgiven
  intro fuel
  obtain ⟨w', -, hend⟩ :=
    step_of_gather hrunning hi (plan_waitFor hc who crew every w.now m s) hbegin
    (fun _ _ _ _ => Stream.not_fails_inquiry) fuel
  rcases hend with hend | hend | ⟨hcompleted, -⟩
  · exact .inl (by rw [hend])
  · exact .inr (by rw [hend])
  · obtain ⟨k, hk, -⟩ := hcompleted.noted j hj
    exact absurd (Stream.ends_inquiry.1 hk) (hnever k)

/-- A client that always answers that it is in no dialog. -/
def silent : World Rehearsal 1 := .initial #v[talker [false] 0]

/-- A script with nothing but a wait for a dialog has no loop and no call, and its client answers
every call; but the run has no end. -/
theorem wait_without_end :
    let s : Script := [.command ⟨.all, .act (.waitFor ⟨.dialog, false⟩)⟩]
    let p : Program := ⟨[.act .all (.waitFor ⟨.dialog, false⟩)]⟩
    s.compile = .ok p ∧ ¬ s.HasLoop ∧ ¬ s.CallsItself ∧ silent.Responsive ∧
      ∀ fuel, ((idle.load p).run solo 1000000 none fuel silent).1 = .outOfFuel ∨
        ((idle.load p).run solo 1000000 none fuel silent).1 = .never := by
  intro s p
  have hgiven : ∀ i ∈ Selector.all.pick 1,
      (⟨fun _ => false, fun _ => some 0⟩ : Stream).Given false 1000000
      silent.now .inDialog (silent.clients.get i)
    | 0, _ => ⟨fun _ => talker [false] 0, rfl, fun _ _ => rfl⟩
  have hhangs : (idle.load p).start.Hangs solo 1000000 silent := by
    refine wait_hangs rfl rfl rfl _ hgiven ⟨0, by decide, ?_⟩
    rintro k ⟨-, i, -, hyes, -⟩
    cases hyes
  exact ⟨rfl, by decide, by decide, rehearsal_responsive silent,
    (Steps.refl silent _).runOn_of_hangs rfl hhangs⟩

end Machine

end BotScript
